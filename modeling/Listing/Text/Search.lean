/-!
# Finding a text inside another

`stripLead?` takes a text off the front, `cutAt?` splits at the leftmost occurrence, `cutAtLast?` at
the rightmost. The law of the first two is `stripLead?_eq_some` and `cutAt?_eq_some`: what is cut,
the needle and the rest put together give the text back.
-/
namespace Listing.Text

/-- What follows `lead` when the text begins with it. -/
def stripLead? : (lead text : List Char) → Option (List Char)
  | [], text => some text
  | _ :: _, [] => none
  | c :: lead, d :: text => if c = d then stripLead? lead text else none

theorem stripLead?_eq_some {lead text rest : List Char} :
    stripLead? lead text = some rest ↔ text = lead ++ rest := by
  induction lead generalizing text with
  | nil => simp [stripLead?]
  | cons c lead ih =>
    cases text with
    | nil => simp [stripLead?]
    | cons d text =>
      by_cases h : c = d
      · simp [stripLead?, h, ih]
      · simp [stripLead?, h, Ne.symm h]

/-- The text before and after the leftmost occurrence of `needle`. -/
def cutAt? (needle : List Char) : List Char → Option (List Char × List Char)
  | [] => (stripLead? needle []).map ([], ·)
  | c :: text =>
    match stripLead? needle (c :: text) with
    | some rest => some ([], rest)
    | none => (cutAt? needle text).map fun (before, after) => (c :: before, after)

theorem cutAt?_eq_some {needle text before after : List Char}
    (h : cutAt? needle text = some (before, after)) : text = before ++ needle ++ after := by
  induction text generalizing before with
  | nil =>
    simp only [cutAt?, Option.map_eq_some_iff] at h
    obtain ⟨r, hr, he⟩ := h
    cases he
    simpa using stripLead?_eq_some.1 hr
  | cons c text ih =>
    rw [cutAt?] at h
    split at h
    · next r hr =>
      cases h
      simpa using stripLead?_eq_some.1 hr
    · simp only [Option.map_eq_some_iff] at h
      obtain ⟨⟨b, a⟩, hb, he⟩ := h
      cases he
      simp [ih hb]

/-- Whether `needle` occurs. -/
def occurs (needle text : String) : Bool := (cutAt? needle.toList text.toList).isSome

/-- The text after the rightmost occurrence of `needle`. -/
def afterLast? (needle : List Char) : List Char → Option (List Char)
  | [] => stripLead? needle []
  | c :: text => (afterLast? needle text).or (stripLead? needle (c :: text))

/-- The text with every occurrence of `needle`, from the left, put as `replacement`; an empty needle occurs
before every character and at the end. -/
def replaceAll (needle replacement text : List Char) : List Char :=
  if needle.isEmpty then replacement ++ text.flatMap (fun c => c :: replacement)
  else
    match cutAt? needle text with
    | none => text
    | some (before, after) =>
      if after.length < text.length then before ++ replacement ++ replaceAll needle replacement after else text
termination_by text.length

end Listing.Text
