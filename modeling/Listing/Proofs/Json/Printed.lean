import Listing.Proofs.Document.Sent
import Listing.Proofs.Json.Numerals
import Mathlib.Data.List.Forall2
/-!
# What a printed value is read as

In both layouts the text of a value is cut into the tokens it was put together from (`reads_compact`, `reads_pretty`),
and the machine makes of these the document that `Medium.text` hands over (`document?_of_reads`).
-/
namespace Listing.Json

/-! ## Strings -/

theorem hexNumber?_hexByte {n : Nat} (h : n < 0x20) : hexNumber? ('0' :: '0' :: hexByte n) = some n := by
  revert n
  decide

variable {rest : List Char}

theorem units?_plain {c : Char} (hquote : c ≠ '\x22') (hescape : c ≠ '\\') (hcontrol : ¬ c.toNat < 0x20) :
    units? (c :: rest) = (units? rest).map fun (ns, back) => (c.toNat :: ns, back) := by
  rw [units?.eq_def]
  simp only [if_neg hquote, if_neg hescape, if_neg hcontrol]
  cases units? rest <;> rfl

theorem units?_escape {e u : Char} (he : e ≠ 'u') (hu : unescape? e = some u) :
    units? ('\\' :: e :: rest) = (units? rest).map fun (ns, back) => (u.toNat :: ns, back) := by
  rw [units?.eq_def]
  simp only [if_neg (show '\\' ≠ '\x22' by decide), if_neg he, if_true, hu]
  cases units? rest <;> rfl

theorem units?_hex {h₁ h₂ h₃ h₄ : Char} {n : Nat} (hn : hexNumber? [h₁, h₂, h₃, h₄] = some n) :
    units? ('\\' :: 'u' :: h₁ :: h₂ :: h₃ :: h₄ :: rest) = (units? rest).map fun (ns, back) => (n :: ns, back) := by
  rw [units?.eq_def]
  simp only [if_neg (show '\\' ≠ '\x22' by decide), if_true, hn]
  cases units? rest <;> rfl

/-- A character is read as its code, however it is escaped. -/
theorem units?_escapeChar (c : Char) (rest : List Char) :
    units? (escapeChar c ++ rest) = (units? rest).map fun (ns, back) => (c.toNat :: ns, back) := by
  unfold escapeChar
  split_ifs with hquote hescape hline hreturn htab hback hfeed hcontrol
  · subst hquote
    exact units?_escape (by decide) rfl
  · subst hescape
    exact units?_escape (by decide) rfl
  · subst hline
    exact units?_escape (by decide) rfl
  · subst hreturn
    exact units?_escape (by decide) rfl
  · subst htab
    exact units?_escape (by decide) rfl
  · subst hback
    exact units?_escape (by decide) rfl
  · subst hfeed
    exact units?_escape (by decide) rfl
  · exact units?_hex (hexNumber?_hexByte hcontrol)
  · exact units?_plain hquote hescape hcontrol

theorem units?_quoted (cs rest : List Char) :
    units? (cs.flatMap escapeChar ++ '\x22' :: rest) = some (cs.map Char.toNat, rest) := by
  induction cs with
  | nil =>
    rw [List.flatMap_nil, List.nil_append, units?.eq_def]
    exact if_pos rfl
  | cons c cs ih => rw [List.flatMap_cons, List.append_assoc, units?_escapeChar, ih, List.map_cons, Option.map_some]

/-- No character is half a surrogate pair. -/
theorem joinUnits?_toNat (cs : List Char) : joinUnits? (cs.map Char.toNat) = some cs := by
  induction cs with
  | nil => rfl
  | cons c cs ih =>
    have hvalid : c.toNat < 0xD800 ∨ 0xDFFF < c.toNat ∧ c.toNat < 0x110000 := c.valid
    have hhigh : ¬ (0xD800 ≤ c.toNat ∧ c.toNat < 0xDC00) := by omega
    have hlow : ¬ (0xDC00 ≤ c.toNat ∧ c.toNat < 0xE000) := by omega
    rw [List.map_cons, joinUnits?.eq_def]
    simp only [if_neg hhigh, if_neg hlow, ih, Option.map_some, Char.ofNat_toNat]

/-! ## Tokens -/

/-- A text is cut into the tokens, whatever follows, as long as no number goes on there. -/
def Reads (text : List Char) (ts : List Token) : Prop :=
  ∀ rest, Ends rest → tokens? (text ++ rest) = (tokens? rest).map (ts ++ ·)

variable {text text' : List Char} {ts ts' : List Token}

theorem Reads.tokens? (h : Reads text ts) : tokens? text = some ts := by
  have hnil : Json.tokens? [] = some [] := by rw [Json.tokens?]
  have halone := h [] ends_nil
  rw [List.append_nil, hnil, Option.map_some, List.append_nil] at halone
  exact halone

theorem reads_nil : Reads [] [] := fun rest _ => by
  rw [List.nil_append]
  exact (Option.map_id' (x := Json.tokens? rest)).symm

theorem tokens?_cons {c : Char} {cs after : List Char} {t : Token} (hblank : c ∉ [' ', '\n', '\t', '\r'])
    (h : token? c cs = some (t, after)) (hlength : after.length ≤ cs.length) :
    Json.tokens? (c :: cs) = (Json.tokens? after).map (t :: ·) := by
  rw [Json.tokens?, if_neg hblank, h]
  show (if after.length ≤ cs.length then _ else none) = _
  rw [if_pos hlength]
  cases Json.tokens? after <;> rfl

/-- A text that is one token. -/
theorem reads_token {c : Char} {cs : List Char} {t : Token} (hblank : c ∉ [' ', '\n', '\t', '\r'])
    (h : ∀ rest, Ends rest → token? c (cs ++ rest) = some (t, rest)) : Reads (c :: cs) [t] := fun rest hrest =>
  tokens?_cons hblank (h rest hrest) (List.suffix_append cs rest).length_le

/-- The punctuation. -/
def marks : List Char := ['[', ']', '\x7b', '\x7d', ',', ':']

theorem not_inNumber_of_mem_marks {c : Char} (h : c ∈ marks) : inNumber c = false := by
  simp only [marks, List.mem_cons, List.not_mem_nil, or_false] at h
  rcases h with rfl | rfl | rfl | rfl | rfl | rfl <;> rfl

theorem not_blank_of_mem_marks {c : Char} (h : c ∈ marks) : c ∉ [' ', '\n', '\t', '\r'] := by
  simp only [marks, List.mem_cons, List.not_mem_nil, or_false] at h
  rcases h with rfl | rfl | rfl | rfl | rfl | rfl <;> decide

/-- A mark ends the text in front of it, and what follows it begins anew. -/
theorem Reads.mark {c : Char} (h : Reads text ts) (hc : c ∈ marks) (h' : Reads text' ts') :
    Reads (text ++ c :: text') (ts ++ .mark c :: ts') := by
  intro rest hrest
  have hends : Ends (c :: (text' ++ rest)) := ends_cons.2 (not_inNumber_of_mem_marks hc)
  have hmark : Json.tokens? (c :: (text' ++ rest)) = (Json.tokens? (text' ++ rest)).map (.mark c :: ·) :=
    tokens?_cons (not_blank_of_mem_marks hc) (if_pos hc) le_rfl
  rw [List.append_assoc, List.cons_append, h _ hends, hmark, h' rest hrest, Option.map_map, Option.map_map]
  refine congrArg (Option.map · _) (funext fun us => ?_)
  exact (List.append_assoc ts (.mark c :: ts') us).symm

/-- The characters between tokens. -/
def blanks : List Char := [' ', '\n', '\t', '\r']

theorem not_inNumber_of_mem_blanks {c : Char} (h : c ∈ blanks) : inNumber c = false := by
  simp only [blanks, List.mem_cons, List.not_mem_nil, or_false] at h
  rcases h with rfl | rfl | rfl | rfl <;> rfl

theorem tokens?_blanks {gap : List Char} (hgap : ∀ c ∈ gap, c ∈ blanks) (rest : List Char) :
    Json.tokens? (gap ++ rest) = Json.tokens? rest := by
  induction gap with
  | nil => rfl
  | cons c gap ih =>
    obtain ⟨hc, hgap⟩ := List.forall_mem_cons.1 hgap
    have hblank : c ∈ [' ', '\n', '\t', '\r'] := hc
    rw [List.cons_append, Json.tokens?, if_pos hblank, ih hgap]

theorem Reads.blanks_append {gap : List Char} (hgap : ∀ c ∈ gap, c ∈ blanks) (h : Reads text ts) :
    Reads (gap ++ text) ts := by
  intro rest hrest
  rw [List.append_assoc, tokens?_blanks hgap, h rest hrest]

theorem Reads.append_blanks {gap : List Char} (h : Reads text ts) (hgap : ∀ c ∈ gap, c ∈ blanks) :
    Reads (text ++ gap) ts := by
  intro rest hrest
  have hends : Ends (gap ++ rest) := by
    cases gap with
    | nil => exact hrest
    | cons c gap => exact ends_cons.2 (not_inNumber_of_mem_blanks (hgap c List.mem_cons_self))
  rw [List.append_assoc, h _ hends, tokens?_blanks hgap]

/-- A text is the mark, perhaps with blanks behind it. -/
def Separates (separator : String) (c : Char) : Prop :=
  ∃ gap, separator.toList = c :: gap ∧ ∀ blank ∈ gap, blank ∈ blanks

/-- What stands between two texts as a separator is its mark. -/
theorem Reads.separate {separator : String} {c : Char} (h : Reads text ts) (hseparator : Separates separator c)
    (hc : c ∈ marks) (h' : Reads text' ts') : Reads (text ++ separator.toList ++ text') (ts ++ .mark c :: ts') := by
  obtain ⟨gap, hgap, hblanks⟩ := hseparator
  rw [hgap, List.append_assoc, List.cons_append]
  exact h.mark hc (h'.blanks_append hblanks)

theorem reads_quote (s : String) : Reads (quote s).toList [.text (some s)] := by
  rw [quote, String.toList_ofList, List.cons_append]
  refine reads_token (by decide) fun rest _ => ?_
  rw [List.append_assoc, token?.eq_def, if_neg (by decide), if_pos rfl]
  show (units? (s.toList.flatMap escapeChar ++ '\x22' :: rest)).bind _ = _
  rw [units?_quoted, Option.bind_some]
  simp only [joinUnits?_toNat, Option.map_some, String.ofList_toList]
  rfl

/-- What a number begins with: its sign or a digit. -/
def beginsNumber (c : Char) : Bool := c == '-' || c.isDigit

theorem not_mem_of_beginsNumber {c : Char} {cs : List Char} (hc : beginsNumber c = true)
    (hcs : cs.any beginsNumber = false) : c ∉ cs := fun hmem => List.any_eq_false.1 hcs c hmem hc

/-- Nothing else begins as a number does. -/
theorem token?_number {c : Char} (hc : beginsNumber c = true) (cs : List Char) :
    token? c cs = (number? (c :: cs)).map fun (value, rest) => (.scalar value, rest) := by
  have hne : ∀ d, beginsNumber d = false → c ≠ d := by
    rintro d hd rfl
    rw [hd] at hc
    cases hc
  rw [token?.eq_def, if_neg (not_mem_of_beginsNumber hc rfl), if_neg (hne _ rfl), if_neg (hne _ rfl),
    if_neg (hne _ rfl), if_neg (hne _ rfl)]

theorem Numeral.exists_text_eq_cons (n : Numeral) : ∃ c cs, n.text = c :: cs ∧ beginsNumber c = true := by
  obtain ⟨d, ds, hwhole⟩ := List.exists_cons_of_ne_nil n.digits_whole.1
  rw [text]
  split
  · exact ⟨'-', n.body, rfl, rfl⟩
  · refine ⟨d, ds ++ (fractionText n.fraction ++ exponentText n.exponent), by rw [body, hwhole, List.cons_append], ?_⟩
    rw [beginsNumber, n.digits_whole.2 d (hwhole ▸ List.mem_cons_self), Bool.or_true]

theorem reads_numeral (n : Numeral) : Reads n.text [.scalar n.value?] := by
  obtain ⟨c, cs, htext, hc⟩ := n.exists_text_eq_cons
  rw [htext]
  refine reads_token (not_mem_of_beginsNumber hc rfl) fun rest hrest => ?_
  rw [token?_number hc, ← List.cons_append, ← htext, n.number?_text hrest, Option.map_some]

theorem reads_null : Reads "null".toList [.scalar (some .null)] := reads_token (by decide) fun _ _ => rfl

theorem reads_bool (b : Bool) : Reads (bool b).compact.toList [.scalar (some (.bool b))] := by
  cases b
  · exact reads_token (by decide) fun _ _ => rfl
  · exact reads_token (by decide) fun _ _ => rfl

theorem reread?_of_reads {j : Json} {value : Option Json} (h : Reads j.compact.toList [.scalar value]) :
    j.reread? = value := by
  rw [reread?, h.tokens?]

theorem reads_int (n : Int) : Reads (int n).compact.toList [.scalar (int n).reread?] := by
  have h := Numeral.text_ofInt n ▸ reads_numeral (.ofInt n)
  rwa [reread?_of_reads h]

theorem reads_float (x : Double) : Reads (float x).compact.toList [.scalar (float x).reread?] := by
  have h : ∃ value, Reads (float x).compact.toList [.scalar value] := by
    by_cases hx : x.isFinite = true
    · obtain ⟨n, hn⟩ := exists_text_float hx
      exact ⟨n.value?, hn ▸ reads_numeral n⟩
    · have hnull : (float x).compact = "null" := by
        rw [compact, Number.write, if_neg hx]
        split <;> rfl
      exact ⟨some .null, hnull ▸ reads_null⟩
  obtain ⟨value, h⟩ := h
  rwa [reread?_of_reads h]

/-- An integer of 64 bits, signed or unsigned, is read as itself. -/
theorem reread?_int {n : Int} (hlow : Int64.minValue.toInt ≤ n) (hhigh : n < UInt64.size) :
    (int n).reread? = some (int n) := by
  rw [reread?_of_reads (Numeral.text_ofInt n ▸ reads_numeral (.ofInt n)), Numeral.value?_ofInt hlow hhigh]

/-! ## The tokens of a value -/

mutual

/-- The tokens of the text of a value. -/
def printed : Json → List Token
  | .null => [.scalar (some .null)]
  | .bool b => [.scalar (some (.bool b))]
  | .int n => [.scalar (int n).reread?]
  | .float x => [.scalar (float x).reread?]
  | .str s => [.text (some s)]
  | .arr items => .mark '[' :: (List.intercalate [.mark ','] (printedItems items) ++ [.mark ']'])
  | .obj members => .mark '\x7b' :: (List.intercalate [.mark ','] (printedMembers members) ++ [.mark '\x7d'])

def printedItems : List Json → List (List Token)
  | [] => []
  | j :: rest => printed j :: printedItems rest

def printedMembers : List (String × Json) → List (List Token)
  | [] => []
  | (key, j) :: rest => (.text (some key) :: .mark ':' :: printed j) :: printedMembers rest

end

/-- Parts with commas between them. -/
theorem reads_intercalate {separator : String} (hseparator : Separates separator ',') {texts : List String}
    {tss : List (List Token)} (h : List.Forall₂ (fun text ts => Reads text.toList ts) texts tss) :
    Reads (String.intercalate separator texts).toList (List.intercalate [.mark ','] tss) := by
  induction h with
  | nil => exact reads_nil
  | @cons text ts texts tss hfirst hrest ih =>
    cases hrest with
    | nil => exact (String.intercalate_singleton (s := separator) (t := text)) ▸ List.intercalate_singleton ▸ hfirst
    | cons =>
      rw [String.intercalate_cons_cons, List.intercalate_cons_cons, String.toList_append, String.toList_append,
        List.append_assoc ts, List.singleton_append]
      exact hfirst.separate hseparator (by decide) ih

/-- Parts between brackets. -/
theorem reads_enclosed {opening closing : String} {o c : Char} (ho : opening.toList = [o]) (hc : closing.toList = [c])
    (hmarks : o ∈ marks ∧ c ∈ marks) {inner : String} (h : Reads inner.toList ts) :
    Reads (opening ++ inner ++ closing).toList (.mark o :: (ts ++ [.mark c])) := by
  rw [String.toList_append, String.toList_append, ho, hc, List.append_assoc]
  exact reads_nil.mark hmarks.1 (h.mark hmarks.2 reads_nil)

section
variable {write : Json → String}

/-- Items that are written one after the other. -/
theorem reads_items (texts : List Json → List String) (hnil : texts [] = [])
    (hcons : ∀ j rest, texts (j :: rest) = write j :: texts rest) {items : List Json}
    (h : ∀ item ∈ items, Reads (write item).toList item.printed) :
    List.Forall₂ (fun text ts => Reads text.toList ts) (texts items) (printedItems items) := by
  induction items with
  | nil => exact hnil ▸ .nil
  | cons j items ih =>
    obtain ⟨hj, hrest⟩ := List.forall_mem_cons.1 h
    rw [hcons]
    exact .cons hj (ih hrest)

/-- Members that are written one after the other. -/
theorem reads_members (texts : List (String × Json) → List String) (hnil : texts [] = []) {separator : String}
    (hseparator : Separates separator ':')
    (hcons : ∀ key j rest, texts ((key, j) :: rest) = (quote key ++ separator ++ write j) :: texts rest)
    {members : List (String × Json)} (h : ∀ m ∈ members, Reads (write m.2).toList m.2.printed) :
    List.Forall₂ (fun text ts => Reads text.toList ts) (texts members) (printedMembers members) := by
  induction members with
  | nil => exact hnil ▸ .nil
  | cons member members ih =>
    obtain ⟨key, j⟩ := member
    obtain ⟨hj, hrest⟩ := List.forall_mem_cons.1 h
    rw [hcons]
    refine .cons ?_ (ih hrest)
    rw [String.toList_append, String.toList_append]
    exact (reads_quote key).separate hseparator (by decide) hj

end

/-- The text of a value is cut into its tokens. -/
theorem reads_compact (j : Json) : Reads j.compact.toList j.printed := by
  have hcomma : Separates "," ',' := ⟨[], rfl, List.forall_mem_nil _⟩
  have hcolon : Separates ":" ':' := ⟨[], rfl, List.forall_mem_nil _⟩
  induction j using inductionOn with
  | null => exact reads_null
  | bool b => exact reads_bool b
  | int n => exact reads_int n
  | float x => exact reads_float x
  | str s => exact reads_quote s
  | arr items ih =>
    have hitems := reads_items compactItems rfl (fun _ _ => rfl) ih
    exact reads_enclosed rfl rfl ⟨by decide, by decide⟩ (reads_intercalate hcomma hitems)
  | obj members ih =>
    have hmembers := reads_members compactMembers rfl hcolon (fun _ _ _ => rfl) ih
    exact reads_enclosed rfl rfl ⟨by decide, by decide⟩ (reads_intercalate hcomma hmembers)

theorem blanks_newLine (level : Nat) : ∀ c ∈ (newLine level).toList, c ∈ blanks := by
  intro c hc
  rw [newLine, String.toList_append, List.mem_append] at hc
  rcases hc with hc | hc
  · rw [List.mem_singleton.1 hc]
    decide
  · rw [String.toList_ofList] at hc
    rw [List.eq_of_mem_replicate hc]
    decide

/-- Parts between brackets, each on a line of its own. -/
theorem reads_layOut {opening closing : String} {o c : Char} (ho : opening.toList = [o]) (hc : closing.toList = [c])
    (hmarks : o ∈ marks ∧ c ∈ marks) (level : Nat) {texts : List String} {tss : List (List Token)}
    (h : List.Forall₂ (fun text ts => Reads text.toList ts) texts tss) :
    Reads (layOut opening closing level texts).toList (.mark o :: (List.intercalate [.mark ','] tss ++ [.mark c])) := by
  cases h with
  | nil =>
    have hempty : opening ++ closing = opening ++ "" ++ closing := by rw [String.append_empty]
    rw [layOut, List.isEmpty_nil, if_pos rfl, hempty]
    exact reads_enclosed ho hc hmarks reads_nil
  | @cons text _ texts _ hfirst hrest =>
    have hcomma : Separates ("," ++ newLine (level + 1)) ',' :=
      ⟨(newLine (level + 1)).toList, String.toList_append .., blanks_newLine (level + 1)⟩
    have hparts := reads_intercalate hcomma (.cons hfirst hrest)
    have hinner := (hparts.blanks_append (blanks_newLine (level + 1))).append_blanks (blanks_newLine level)
    rw [← String.toList_append, ← String.toList_append] at hinner
    have hlines : layOut opening closing level (text :: texts) = opening ++ (newLine (level + 1) ++
        String.intercalate ("," ++ newLine (level + 1)) (text :: texts) ++ newLine level) ++ closing := by
      rw [layOut, List.isEmpty_cons, if_neg Bool.false_ne_true]
      simp only [String.append_assoc]
    rw [hlines]
    exact reads_enclosed ho hc hmarks hinner

theorem reads_prettyAt (j : Json) (level : Nat) : Reads (j.prettyAt level).toList j.printed := by
  have hcolon : Separates ": " ':' := ⟨[' '], rfl, List.forall_mem_singleton.2 (by decide)⟩
  induction j using inductionOn generalizing level with
  | null => exact reads_null
  | bool b => exact reads_bool b
  | int n => exact reads_int n
  | float x => exact reads_float x
  | str s => exact reads_quote s
  | arr items ih =>
    have hitems := reads_items (prettyItems level) rfl (fun _ _ => rfl) fun item hitem => ih item hitem (level + 1)
    exact reads_layOut rfl rfl ⟨by decide, by decide⟩ level hitems
  | obj members ih =>
    have hmembers := reads_members (prettyMembers level) rfl hcolon (fun _ _ _ => rfl)
      fun m hm => ih m hm (level + 1)
    exact reads_layOut rfl rfl ⟨by decide, by decide⟩ level hmembers

/-- The text with a line per member is cut into the same tokens. -/
theorem reads_pretty (j : Json) : Reads j.pretty.toList j.printed := reads_prettyAt j 0

/-! ## The machine -/

def run (s : State) (ts : List Token) : Option State := ts.foldlM State.step? s

theorem run_cons (s : State) (t : Token) (ts : List Token) : run s (t :: ts) = (s.step? t).bind (run · ts) :=
  List.foldlM_cons

theorem run_append (s : State) (ts ts' : List Token) : run s (ts ++ ts') = (run s ts).bind (run · ts') :=
  List.foldlM_append

/-- A list may begin with any value. -/
theorem run_firstItem (j : Json) (stack : List Frame) (ts : List Token) :
    run ⟨.firstItem, stack⟩ (j.printed ++ ts) = run ⟨.value, stack⟩ (j.printed ++ ts) := by
  cases j <;> rfl

/-- The value is read whole wherever a value is expected. -/
def Runs (j : Json) : Prop :=
  ∀ stack, run ⟨.value, stack⟩ j.printed = some ⟨.after (Medium.text.sent stack.length j), stack⟩

/-- The items of a list up to its end, behind those that are done. -/
theorem run_items (stack : List Frame) (done : List Document) {items : List Json} (hne : items ≠ [])
    (h : ∀ item ∈ items, Runs item) :
    run ⟨.value, .items done :: stack⟩ (List.intercalate [.mark ','] (printedItems items) ++ [.mark ']']) =
      some (State.close (.list (done.reverse ++ Medium.text.sentItems (stack.length + 1) items)) stack) := by
  induction items generalizing done with
  | nil => exact absurd rfl hne
  | cons j items ih =>
    obtain ⟨hj, hrest⟩ := List.forall_mem_cons.1 h
    rw [Medium.sentItems, List.append_cons done.reverse, ← List.reverse_cons]
    cases items with
    | nil =>
      rw [printedItems, printedItems, List.intercalate_singleton, run_append, hj, Option.bind_some, Medium.sentItems,
        List.append_nil]
      rfl
    | cons j' items =>
      rw [printedItems, printedItems, List.intercalate_cons_cons, List.append_assoc, List.append_assoc, run_append, hj,
        Option.bind_some, ← ih (_ :: done) (List.cons_ne_nil _ _) hrest]
      rfl

/-- The members of an object up to its end, from a state in which a key may come. -/
theorem run_members (stack : List Frame) (done : List (Option String × Document)) {members : List (String × Json)}
    (hne : members ≠ []) (h : ∀ m ∈ members, Runs m.2) {s : State}
    (hs : ∀ key, s.step? (.text key) = some ⟨.colon done key, stack⟩) :
    run s (List.intercalate [.mark ','] (printedMembers members) ++ [.mark '\x7d']) =
      some (State.close (.object (done.reverse ++ Medium.text.sentMembers (stack.length + 1) members)) stack) := by
  induction members generalizing s done with
  | nil => exact absurd rfl hne
  | cons member members ih =>
    obtain ⟨key, j⟩ := member
    obtain ⟨hj, hrest⟩ := List.forall_mem_cons.1 h
    have hmember : ∀ ts, run s (.text (some key) :: .mark ':' :: (j.printed ++ ts)) =
        run ⟨.after (Medium.text.sent (stack.length + 1) j), .members done (some key) :: stack⟩ ts := fun ts => by
      rw [run_cons, hs, Option.bind_some, run_cons]
      show run ⟨.value, .members done (some key) :: stack⟩ _ = _
      rw [run_append, hj, Option.bind_some]
      rfl
    rw [Medium.sentMembers, List.append_cons done.reverse, ← List.reverse_cons]
    cases members with
    | nil =>
      rw [printedMembers, printedMembers, List.intercalate_singleton, List.cons_append, List.cons_append, hmember,
        Medium.sentMembers, List.append_nil]
      rfl
    | cons member' members =>
      have hcomma := ih ((some key, Medium.text.sent (stack.length + 1) j) :: done) (List.cons_ne_nil _ _) hrest
        (s := ⟨.key _, stack⟩) fun _ => rfl
      obtain ⟨key', j'⟩ := member'
      rw [printedMembers, printedMembers, List.intercalate_cons_cons, ← printedMembers, List.append_assoc,
        List.append_assoc, List.cons_append, List.cons_append, hmember, ← hcomma]
      rfl

theorem close_list (items : List Json) (stack : List Frame) :
    State.close (.list (Medium.text.sentItems (stack.length + 1) items)) stack =
      ⟨.after (Medium.text.sent stack.length (.arr items)), stack⟩ := by
  by_cases h : stack.length < depthLimit <;> simp [State.close, Medium.sent, Medium.fits_text, h]

theorem close_object (members : List (String × Json)) (stack : List Frame) :
    State.close (.object (Medium.text.sentMembers (stack.length + 1) members)) stack =
      ⟨.after (Medium.text.sent stack.length (.obj members)), stack⟩ := by
  by_cases h : stack.length < depthLimit <;> simp [State.close, Medium.sent, Medium.fits_text, h]

/-- The machine makes the document of a text from the tokens of a value. -/
theorem runs (j : Json) : Runs j := by
  induction j using inductionOn with
  | null | bool | int | float | str => exact fun _ => rfl
  | arr items ih =>
    intro stack
    rw [← close_list]
    cases items with
    | nil => rfl
    | cons j items =>
      obtain ⟨ts, hts⟩ : ∃ ts, List.intercalate [.mark ','] (printedItems (j :: items)) ++ [.mark ']'] =
          j.printed ++ ts := by
        cases items with
        | nil => exact ⟨_, by rw [printedItems, printedItems, List.intercalate_singleton]⟩
        | cons =>
          exact ⟨_, by
            rw [printedItems, printedItems, List.intercalate_cons_cons, List.append_assoc, List.append_assoc]⟩
      have hitems := run_items stack [] (List.cons_ne_nil j items) ih
      rw [hts, ← run_firstItem, ← hts] at hitems
      exact hitems
  | obj members ih =>
    intro stack
    rw [← close_object]
    cases members with
    | nil => rfl
    | cons member members =>
      exact run_members stack [] (List.cons_ne_nil member members) ih (s := ⟨.firstKey, stack⟩) fun _ => rfl

/-- A text with the tokens of a value writes the document that the text hands over. -/
theorem document?_of_reads {text : String} {j : Json} (h : Reads text.toList j.printed) :
    document? text = some (Medium.text.sent 0 j) := by
  rw [document?, h.tokens?]
  show (run ⟨.value, []⟩ j.printed).bind _ = _
  rw [runs]
  rfl

end Listing.Json
