import Listing.Json.Reader
import Mathlib.Tactic.SplitIfs
/-!
# Marked objects

Where any data may stand, an object whose first key is `Document.textKey` is no object: what it holds is read as a text.
So no text is read as such an object. An object that a text writes has another first key, what a text inside it is read
as is no such object by induction on the depth of texts in texts (`not_marked_of_readWithin?`), and no token is an
object in one piece (`document?_ne_obj`).
-/
namespace Listing.Json

/-- An object whose first key says that it holds the text of a value. -/
def Marked : Json → Prop
  | .obj members => members.head?.map Prod.fst = some Document.textKey
  | _ => False

variable {members : List (String × Json)}

/-! ## No token is an object -/

theorem numberOf?_ne_obj {negative : Bool} {whole : List Char} {fraction : Option (List Char)} {exponent : Option Int} :
    numberOf? negative whole fraction exponent ≠ some (.obj members) := by
  intro h
  unfold numberOf? at h
  dsimp only at h
  split at h
  · split at h
    · cases h
    · split at h <;> cases h
  · obtain ⟨x, -, h⟩ := Option.map_eq_some_iff.1 h
    cases h

theorem number?_ne_obj {cs rest : List Char} : number? cs ≠ some (some (.obj members), rest) := by
  intro h
  simp only [number?, Option.bind_eq_bind, Option.bind_eq_some_iff, Option.pure_def] at h
  obtain ⟨⟨whole, cs⟩, -, h⟩ := h
  split_ifs at h
  · cases h
  · obtain ⟨⟨fraction, cs⟩, -, h⟩ := Option.bind_eq_some_iff.1 h
    obtain ⟨⟨exponent, cs⟩, -, h⟩ := Option.bind_eq_some_iff.1 h
    exact numberOf?_ne_obj (Prod.mk.inj (Option.some.inj h)).1

/-- Only brackets open an object. -/
theorem token?_ne_obj {c : Char} {cs rest : List Char} : token? c cs ≠ some (.scalar (some (.obj members)), rest) := by
  intro h
  unfold token? at h
  split_ifs at h
  · cases h
  · obtain ⟨_, _, h⟩ := Option.bind_eq_some_iff.1 h
    cases h
  · split at h <;> cases h
  · split at h <;> cases h
  · split at h <;> cases h
  · obtain ⟨⟨value, back⟩, hnumber, h⟩ := Option.map_eq_some_iff.1 h
    cases h
    exact number?_ne_obj hnumber

theorem tokens?_ne_obj {cs : List Char} {ts : List Token} (h : tokens? cs = some ts) :
    .scalar (some (.obj members)) ∉ ts := by
  induction cs using tokens?.induct generalizing ts with
  | case1 =>
    rw [tokens?] at h
    cases h
    exact List.not_mem_nil
  | case2 c rest hblank ih =>
    rw [tokens?, if_pos hblank] at h
    exact ih h
  | case3 c rest hblank ih =>
    rw [tokens?, if_neg hblank] at h
    obtain ⟨⟨t, after⟩, ht, h⟩ := Option.bind_eq_some_iff.1 h
    dsimp only at h
    split_ifs at h with hlength
    obtain ⟨back, hback, h⟩ := Option.bind_eq_some_iff.1 h
    cases h
    refine fun hmem => (List.mem_cons.1 hmem).elim ?_ (ih after hlength hback)
    rintro rfl
    exact token?_ne_obj ht

/-! ## No object in one piece -/

theorem State.close_ne_obj {d : Document} {stack : List Frame} (hd : d ≠ .leaf (some (.obj members))) :
    (close d stack).expecting ≠ .after (.leaf (some (.obj members))) := by
  intro h
  rw [close] at h
  split at h
  · exact hd (Expecting.after.inj h)
  · cases h

theorem State.beginValue?_ne_obj {stack : List Frame} {t : Token} {s : State} (ht : t ≠ .scalar (some (.obj members)))
    (h : beginValue? stack t = some s) : s.expecting ≠ .after (.leaf (some (.obj members))) := by
  intro hs
  unfold beginValue? at h
  split at h
  · cases h
    cases hs
    exact ht rfl
  · next text =>
    cases h
    cases text <;> cases hs
  · split_ifs at h
    all_goals
      cases h
      cases hs

/-- Where a value ends that is an object in one piece, a token was that object. -/
theorem State.step?_ne_obj {s s' : State} {t : Token} (ht : t ≠ .scalar (some (.obj members)))
    (h : s.step? t = some s') : s'.expecting ≠ .after (.leaf (some (.obj members))) := by
  unfold State.step? at h
  split at h
  · exact beginValue?_ne_obj ht h
  · cases h
    exact close_ne_obj nofun
  · exact beginValue?_ne_obj ht h
  · cases h
    exact close_ne_obj nofun
  · cases h
    nofun
  · cases h
    nofun
  · cases h
    nofun
  · unfold afterValue? at h
    split at h
    · cases h
    · split_ifs at h
      · cases h
        nofun
      · cases h
        exact close_ne_obj nofun
    · split_ifs at h
      · cases h
        nofun
      · cases h
        exact close_ne_obj nofun
  · cases h

theorem document?_ne_obj {text : String} : document? text ≠ some (.leaf (some (.obj members))) := by
  intro h
  obtain ⟨ts, hts, h⟩ := Option.bind_eq_some_iff.1 h
  obtain ⟨last, hrun, h⟩ := Option.bind_eq_some_iff.1 h
  have hlast : last.expecting = .after (.leaf (some (.obj members))) := by
    split at h
    · next hafter _ =>
      cases h
      exact hafter
    · cases h
  rcases List.eq_nil_or_concat ts with rfl | ⟨front, t, rfl⟩
  · cases hrun
    cases hlast
  · rw [List.concat_eq_append, List.foldlM_append] at hrun
    obtain ⟨s, -, hstep⟩ := Option.bind_eq_some_iff.1 hrun
    have ht : t ≠ .scalar (some (.obj members)) := by
      rintro rfl
      exact tokens?_ne_obj hts (by rw [List.concat_eq_append]; exact List.mem_append_right _ List.mem_cons_self)
    rw [List.foldlM_cons] at hstep
    obtain ⟨s', hstep, hlast'⟩ := Option.bind_eq_some_iff.1 hstep
    cases hlast'
    exact State.step?_ne_obj ht hstep hlast

/-! ## No marked object -/

theorem embedded?_eq_none {ds : List (Option String × Document)} {format : Format} :
    Document.embedded? format ds = none ↔ ds.head?.map Prod.fst ≠ some (some Document.textKey) := by
  cases ds with
  | nil => exact iff_of_true rfl (Option.some_ne_none _).symm
  | cons d ds =>
    obtain ⟨key, d⟩ := d
    rw [Document.embedded?, List.head?_cons, Option.map_some, Ne, Option.some.injEq]
    split
    · next hkey => exact iff_of_false (Option.some_ne_none _) (not_not_intro hkey)
    · next hkey => exact iff_of_true rfl hkey

/-- An object that is taken as it stands has the keys of its document. -/
theorem keys_membersWith? {format : Format} {read : String → Option Json} {ds : List (Option String × Document)}
    (h : Document.membersWith? format read ds = some members) :
    (members.map Prod.fst).map some = ds.map Prod.fst := by
  induction ds generalizing members with
  | nil =>
    cases h
    rfl
  | cons d ds ih =>
    obtain ⟨key, d⟩ := d
    simp only [Document.membersWith?, Option.bind_eq_bind, Option.bind_eq_some_iff] at h
    obtain ⟨key, rfl, j, -, rest, hrest, h⟩ := h
    cases h
    rw [List.map_cons, List.map_cons, List.map_cons, ih hrest]

/-- Data is no marked object unless it is read from a text that is one or was handed over in one piece. -/
theorem not_marked_of_dataWith? {read : String → Option Json} {d : Document} {j : Json}
    (hread : ∀ text j, read text = some j → ¬ j.Marked) (hd : ∀ members, d ≠ .leaf (some (.obj members)))
    (h : d.dataWith? .json read = some j) : ¬ j.Marked := by
  cases j with
  | obj members =>
    intro hmarked
    cases d with
    | leaf value =>
      cases h
      exact hd members rfl
    | list items =>
      obtain ⟨_, -, h⟩ := Option.map_eq_some_iff.1 h
      cases h
    | object ds =>
      rw [Document.dataWith?] at h
      split at h
      · next text htext =>
        obtain ⟨text, -, h⟩ := Option.bind_eq_some_iff.1 h
        exact hread text _ h hmarked
      · next hembedded =>
        obtain ⟨ms, hms, h⟩ := Option.map_eq_some_iff.1 h
        cases h
        have hhead := congrArg List.head? (keys_membersWith? hms)
        rw [List.head?_map, List.head?_map, List.head?_map, hmarked] at hhead
        exact embedded?_eq_none.1 hembedded hhead.symm
  | _ => exact id

/-- A text in a text is read to a lesser depth. -/
theorem not_marked_of_readWithin? {depth : Nat} {text : String} {j : Json} (h : readWithin? depth text = some j) :
    ¬ j.Marked := by
  induction depth generalizing text j with
  | zero => cases h
  | succ depth ih =>
    obtain ⟨d, hd, h⟩ := Option.bind_eq_some_iff.1 h
    exact not_marked_of_dataWith? (fun _ _ => ih) (fun members heq => document?_ne_obj (heq ▸ hd)) h

/-- No text is read as a marked object. -/
theorem not_marked_of_read? {text : String} {j : Json} (h : read? text = some j) : ¬ j.Marked :=
  not_marked_of_readWithin? h

end Listing.Json
