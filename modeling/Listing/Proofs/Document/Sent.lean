import Listing.Json.Printer
import Listing.Proofs.Document.Marked
import Listing.Proofs.Json.Normal
import Mathlib.Data.Option.Basic
/-!
# Data that is handed over

A value is handed over as it is or as its text. A text may change a number and takes no list or object that lies too
deep, and either way a marked object is taken for something else. Nothing besides gets lost: plain data arrives as it
was if and only if every part of it passes (`Medium.dataWith?_sent`).
-/
namespace Listing

/-- How a value is handed over. -/
structure Medium where
  /-- What a number arrives as. -/
  number : Json → Option Json
  /-- Whether a list or object arrives that has so many around it. -/
  fits : Nat → Bool

namespace Json

/-- What the text of a scalar is read as. -/
def reread? (j : Json) : Option Json :=
  match tokens? j.compact.toList with
  | some [.scalar value] => value
  | _ => none

mutual

/-- A value and all values inside it, each with the count of lists and objects around it. -/
def parts (level : Nat) : Json → List (Nat × Json)
  | .arr items => (level, .arr items) :: itemParts (level + 1) items
  | .obj members => (level, .obj members) :: memberParts (level + 1) members
  | j => [(level, j)]

def itemParts (level : Nat) : List Json → List (Nat × Json)
  | [] => []
  | j :: rest => parts level j ++ itemParts level rest

def memberParts (level : Nat) : List (String × Json) → List (Nat × Json)
  | [] => []
  | (_, j) :: rest => parts level j ++ memberParts level rest

end

end Json

namespace Medium

/-- A value as it is. -/
def value : Medium := ⟨some, fun _ => true⟩

/-- The text of a value. -/
def text : Medium := ⟨Json.reread?, fun level => level < Json.depthLimit⟩

variable (m : Medium)

mutual

/-- The document that arrives. -/
def sent (level : Nat) : Json → Document
  | .arr items => if m.fits level then .list (sentItems (level + 1) items) else .leaf none
  | .obj members => if m.fits level then .object (sentMembers (level + 1) members) else .leaf none
  | .int n => .leaf (m.number (.int n))
  | .float x => .leaf (m.number (.float x))
  | j => .leaf (some j)

def sentItems (level : Nat) : List Json → List Document
  | [] => []
  | j :: rest => sent level j :: sentItems level rest

def sentMembers (level : Nat) : List (String × Json) → List (Option String × Document)
  | [] => []
  | (key, j) :: rest => (some key, sent level j) :: sentMembers level rest

end

/-- A part arrives as it is if the parts inside it do. -/
def Passes (level : Nat) : Json → Prop
  | .int n => m.number (.int n) = some (.int n)
  | .float x => m.number (.float x) = some (.float x)
  | .arr _ => m.fits level = true
  | .obj members => m.fits level = true ∧ ¬ (Json.obj members).Marked
  | _ => True

/-- Every part arrives as it is. -/
def Keeps (level : Nat) (j : Json) : Prop := ∀ part ∈ j.parts level, m.Passes part.1 part.2

end Medium

/-! ## Parts -/

namespace Json

variable {level : Nat} {part : Nat × Json}

theorem mem_itemParts {items : List Json} : part ∈ itemParts level items ↔ ∃ item ∈ items, part ∈ item.parts level := by
  induction items with
  | nil => simp [itemParts]
  | cons j items ih => rw [itemParts, List.mem_append, ih, List.exists_mem_cons_iff]

theorem mem_memberParts {members : List (String × Json)} :
    part ∈ memberParts level members ↔ ∃ m ∈ members, part ∈ m.2.parts level := by
  induction members with
  | nil => simp [memberParts]
  | cons m members ih => rw [memberParts, List.mem_append, ih, List.exists_mem_cons_iff]

end Json

namespace Document

theorem ofItems_eq_map (items : List Json) : ofItems items = items.map ofJson := by
  induction items with
  | nil => rfl
  | cons j items ih => rw [ofItems, ih, List.map_cons]

theorem ofMembers_eq_map (members : List (String × Json)) :
    ofMembers members = members.map fun m => (some m.1, ofJson m.2) := by
  induction members with
  | nil => rfl
  | cons m members ih => rw [ofMembers, ih, List.map_cons]

end Document

namespace Medium

variable {m : Medium} {level : Nat}

theorem keeps_arr {items : List Json} :
    m.Keeps level (.arr items) ↔ m.fits level = true ∧ ∀ item ∈ items, m.Keeps (level + 1) item := by
  rw [Keeps, Json.parts, List.forall_mem_cons]
  refine and_congr Iff.rfl ⟨fun h item hitem part hpart => h part (Json.mem_itemParts.2 ⟨item, hitem, hpart⟩), ?_⟩
  intro h part hpart
  obtain ⟨item, hitem, hmem⟩ := Json.mem_itemParts.1 hpart
  exact h item hitem part hmem

theorem keeps_obj {members : List (String × Json)} :
    m.Keeps level (.obj members) ↔ (m.fits level = true ∧ ¬ (Json.obj members).Marked) ∧
      ∀ member ∈ members, m.Keeps (level + 1) member.2 := by
  rw [Keeps, Json.parts, List.forall_mem_cons]
  refine and_congr Iff.rfl ⟨fun h member hm part hpart => h part (Json.mem_memberParts.2 ⟨member, hm, hpart⟩), ?_⟩
  intro h part hpart
  obtain ⟨member, hm, hmem⟩ := Json.mem_memberParts.1 hpart
  exact h member hm part hmem

/-- A scalar is its only part. -/
theorem keeps_of_parts {j : Json} (h : j.parts level = [(level, j)]) : m.Keeps level j ↔ m.Passes level j := by
  rw [Keeps, h, List.forall_mem_singleton]

@[simp]
theorem keeps_null : m.Keeps level .null := (keeps_of_parts rfl).2 trivial

@[simp]
theorem keeps_bool {b : Bool} : m.Keeps level (.bool b) := (keeps_of_parts rfl).2 trivial

@[simp]
theorem keeps_str {s : String} : m.Keeps level (.str s) := (keeps_of_parts rfl).2 trivial

@[simp]
theorem keeps_int {n : Int} : m.Keeps level (.int n) ↔ m.number (.int n) = some (.int n) := keeps_of_parts rfl

@[simp]
theorem keeps_float {x : Double} : m.Keeps level (.float x) ↔ m.number (.float x) = some (.float x) :=
  keeps_of_parts rfl

/-- Handed over as it is, a value keeps all but marked objects. -/
theorem keeps_value {j : Json} : value.Keeps level j ↔ ∀ part ∈ j.parts level, ¬ part.2.Marked := by
  refine forall₂_congr fun part _ => ?_
  obtain ⟨level, j⟩ := part
  cases j with
  | obj members => exact and_iff_right rfl
  | int | float | arr => exact iff_of_true rfl id
  | null | bool | str => exact iff_of_true trivial id

theorem fits_text : text.fits level = true ↔ level < Json.depthLimit := decide_eq_true_iff

theorem sentItems_eq_map (items : List Json) : m.sentItems level items = items.map (m.sent level) := by
  induction items with
  | nil => rfl
  | cons j items ih => rw [sentItems, ih, List.map_cons]

theorem sentMembers_eq_map (members : List (String × Json)) :
    m.sentMembers level members = members.map fun member => (some member.1, m.sent level member.2) := by
  induction members with
  | nil => rfl
  | cons member members ih => rw [sentMembers, ih, List.map_cons]

/-- A value that is handed over as it is arrives as its document. -/
theorem sent_value (level : Nat) (j : Json) : value.sent level j = .ofJson j := by
  induction j using Json.inductionOn generalizing level with
  | arr items ih =>
    rw [sent, if_pos (show value.fits level = true from rfl), sentItems_eq_map,
      List.map_congr_left fun item hitem => ih item hitem (level + 1), Document.ofJson, Document.ofItems_eq_map]
  | obj members ih =>
    rw [sent, if_pos (show value.fits level = true from rfl), sentMembers_eq_map,
      List.map_congr_left fun member hm => congrArg (some member.1, ·) (ih member hm (level + 1)), Document.ofJson,
      Document.ofMembers_eq_map]
  | _ => rfl

/-- With every part kept the document of the value arrives. -/
theorem sent_of_keeps {j : Json} (h : m.Keeps level j) : m.sent level j = .ofJson j := by
  induction j using Json.inductionOn generalizing level with
  | null | bool | str => rfl
  | int => exact congrArg Document.leaf (keeps_int.1 h)
  | float => exact congrArg Document.leaf (keeps_float.1 h)
  | arr items ih =>
    obtain ⟨hfits, hitems⟩ := keeps_arr.1 h
    rw [sent, if_pos hfits, sentItems_eq_map, List.map_congr_left fun item hitem => ih item hitem (hitems item hitem),
      Document.ofJson, Document.ofItems_eq_map]
  | obj members ih =>
    obtain ⟨⟨hfits, -⟩, hmembers⟩ := keeps_obj.1 h
    rw [sent, if_pos hfits, sentMembers_eq_map,
      List.map_congr_left fun member hm => congrArg (some member.1, ·) (ih member hm (hmembers member hm)),
      Document.ofJson, Document.ofMembers_eq_map]

/-! ## What arrives -/

variable {format : Format} {read : String → Option Json}

theorem data_sentItems {items : List Json} :
    (Document.itemsWith? format read (m.sentItems level items)).map (List.map Json.normal) = some items ↔
      ∀ item ∈ items, ((m.sent level item).dataWith? format read).map Json.normal = some item := by
  induction items with
  | nil => exact iff_of_true rfl nofun
  | cons j items ih =>
    rw [List.forall_mem_cons, ← ih, sentItems, Document.itemsWith?]
    cases (m.sent level j).dataWith? format read with
    | none => simp
    | some d =>
      cases Document.itemsWith? format read (m.sentItems level items) <;> simp

theorem data_sentMembers {members : List (String × Json)} :
    (Document.membersWith? format read (m.sentMembers level members)).map Json.normalMembers = some members ↔
      ∀ member ∈ members, ((m.sent level member.2).dataWith? format read).map Json.normal = some member.2 := by
  induction members with
  | nil => exact iff_of_true rfl nofun
  | cons member members ih =>
    obtain ⟨key, j⟩ := member
    rw [List.forall_mem_cons, ← ih, sentMembers, Document.membersWith?]
    cases (m.sent level j).dataWith? format read with
    | none => simp
    | some d =>
      cases Document.membersWith? format read (m.sentMembers level members) <;> simp [Json.normalMembers]

theorem keys_sentMembers (members : List (String × Json)) :
    (m.sentMembers level members).map Prod.fst = (members.map Prod.fst).map some := by
  rw [sentMembers_eq_map, List.map_map, List.map_map]
  rfl

/-- An object with nothing but the key of a text is marked, however it was written. -/
theorem marked_of_normal {j w : Json} (h : j.normal = .obj [(Document.textKey, w)]) : j.Marked := by
  cases j with
  | obj members =>
    rw [Json.normal, Json.obj.injEq] at h
    have hkeys : ∀ key, key ∈ members.map Prod.fst ↔ key = Document.textKey := fun key => by
      rw [← Json.keys_normalMembers, ← Keyed.mem_keys_ofList, h]
      exact List.mem_singleton
    cases members with
    | nil => exact absurd ((hkeys Document.textKey).2 rfl) List.not_mem_nil
    | cons member members => exact congrArg some ((hkeys member.1).1 List.mem_cons_self)
  | float x =>
    rw [Json.normal] at h
    split at h <;> cases h
  | _ => cases h

/-- What arrives instead of a marked object is another value. -/
theorem data_ne_of_marked {members : List (String × Json)} (hread : ∀ text j, read text = some j → ¬ j.Marked)
    (hmarked : (Json.obj members).Marked) :
    ((Document.object (m.sentMembers level members)).dataWith? .json read).map Json.normal ≠ some (.obj members) := by
  intro h
  obtain ⟨j, hj, hnormal⟩ := Option.map_eq_some_iff.1 h
  cases members with
  | nil => cases hmarked
  | cons member rest =>
    obtain ⟨key, w⟩ := member
    obtain rfl : key = Document.textKey := Option.some.inj hmarked
    rw [sentMembers, Document.dataWith?, Document.embedded?, if_pos rfl] at hj
    change (if (m.sentMembers level rest).isEmpty || Format.json == .toml then (m.sent level w).text? else none).bind
      read = some j at hj
    obtain ⟨text, htext, hv⟩ := Option.bind_eq_some_iff.1 hj
    have halone : rest = [] := by
      cases rest with
      | nil => rfl
      | cons => cases htext
    subst halone
    exact hread text j hv (marked_of_normal hnormal)

/-- An object that is not marked arrives as it is if its members do. -/
theorem data_object {members : List (String × Json)} (hmarked : ¬ (Json.obj members).Marked)
    (hsorted : Keyed.Sorted members) :
    ((Document.object (m.sentMembers level members)).dataWith? .json read).map Json.normal = some (.obj members) ↔
      (Document.membersWith? .json read (m.sentMembers level members)).map Json.normalMembers = some members := by
  have hplain : Document.embedded? .json (m.sentMembers level members) = none := by
    rw [Json.embedded?_eq_none, ← List.head?_map, keys_sentMembers, List.head?_map, List.head?_map]
    exact fun h => hmarked (Option.map_injective (Option.some_injective _) h)
  rw [Document.dataWith?, hplain]
  cases hms : Document.membersWith? .json read (m.sentMembers level members) with
  | none => exact iff_of_false (Option.some_ne_none _).symm (Option.some_ne_none _).symm
  | some ds =>
    have hkeys : (Json.normalMembers ds).map Prod.fst = members.map Prod.fst := by
      rw [Json.keys_normalMembers]
      exact List.map_injective_iff.2 (Option.some_injective _)
        ((Json.keys_membersWith? hms).trans (keys_sentMembers members))
    simp only [Option.map_some, Option.some.injEq, Json.normal, Json.obj.injEq]
    rw [Keyed.ofList_of_sorted ((Keyed.sorted_congr hkeys).2 hsorted)]

/-- Plain data arrives as it is if and only if each of its parts passes. -/
theorem dataWith?_sent {j : Json} (hread : ∀ text j, read text = some j → ¬ j.Marked) (hj : j.normal = j) :
    ((m.sent level j).dataWith? .json read).map Json.normal = some j ↔ m.Keeps level j := by
  induction j using Json.inductionOn generalizing level with
  | null => exact iff_of_true rfl keeps_null
  | bool => exact iff_of_true rfl keeps_bool
  | str => exact iff_of_true rfl keeps_str
  | int n =>
    rw [keeps_int, sent, Document.dataWith?, Option.map_eq_some_iff]
    simp only [Json.normal_eq_int, exists_eq_right]
  | float x =>
    have hx := Json.normal_float.1 hj
    rw [keeps_float, sent, Document.dataWith?, Option.map_eq_some_iff]
    simp only [Json.normal_eq_float, hx, and_true, exists_eq_right]
  | arr items ih =>
    rw [keeps_arr, sent]
    split
    · next hfits =>
      rw [and_iff_right hfits, Document.dataWith?,
        ← forall₂_congr fun item hitem => ih item hitem (Json.normal_arr.1 hj item hitem), ← data_sentItems]
      cases Document.itemsWith? .json read (m.sentItems (level + 1) items) with
      | none => exact iff_of_false (Option.some_ne_none _).symm (Option.some_ne_none _).symm
      | some ds => simp [Json.normal, Json.normalItems_eq_map]
    · next hfits => exact iff_of_false (Option.some_ne_none _).symm fun h => hfits h.1
  | obj members ih =>
    rw [keeps_obj, sent]
    split
    · next hfits =>
      obtain ⟨hsorted, hvalues⟩ := Json.normal_obj.1 hj
      by_cases hmarked : (Json.obj members).Marked
      · exact iff_of_false (data_ne_of_marked hread hmarked) fun h => h.1.2 hmarked
      · rw [and_iff_right ⟨hfits, hmarked⟩, data_object hmarked hsorted, data_sentMembers]
        exact forall₂_congr fun member hm => ih member hm (hvalues member hm)
    · next hfits => exact iff_of_false (Option.some_ne_none _).symm fun h => hfits h.1.1

end Medium

end Listing
