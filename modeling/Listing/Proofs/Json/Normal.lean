import Listing.Json.Basic
import Mathlib.Order.Defs.LinearOrder
import Mathlib.Data.List.Induction
import Mathlib.Data.String.Basic
/-!
# Plain data

Entries in the order of their keys stand as `Keyed.ofList` would put them (`Keyed.ofList_of_sorted`), so a value is its
own normal form exactly if its doubles are numbers and its objects have their keys in strict order (`normal_float`,
`normal_arr`, `normal_obj`), and every normal form is (`normal_normal`). What is said of all values is shown by
`Json.inductionOn`, with a case for each scalar, one for lists and one for objects.
-/
namespace Listing

namespace Keyed

variable {α β : Type} {key : String} {value : α} {es : List (String × α)}

/-- The keys ascend, none twice. -/
def Sorted (es : List (String × α)) : Prop := (es.map Prod.fst).Pairwise (· < ·)

theorem sorted_nil : Sorted ([] : List (String × α)) := .nil

theorem sorted_cons {e : String × α} : Sorted (e :: es) ↔ (∀ k ∈ es.map Prod.fst, e.1 < k) ∧ Sorted es :=
  List.pairwise_cons

theorem sorted_append {fs : List (String × α)} :
    Sorted (es ++ fs) ↔ Sorted es ∧ Sorted fs ∧ ∀ k ∈ es.map Prod.fst, ∀ l ∈ fs.map Prod.fst, k < l := by
  rw [Sorted, List.map_append, List.pairwise_append]
  rfl

/-- Only the keys matter. -/
theorem sorted_congr {fs : List (String × β)} (h : es.map Prod.fst = fs.map Prod.fst) : Sorted es ↔ Sorted fs := by
  rw [Sorted, Sorted, h]

theorem Sorted.place (h : Sorted es) (key : String) (value : α) : Sorted (place key value es) := by
  induction es with
  | nil => exact List.pairwise_singleton _ _
  | cons e es ih =>
    obtain ⟨k, v⟩ := e
    obtain ⟨hlt, hsorted⟩ := sorted_cons.1 h
    rw [Keyed.place]
    split
    · next heq => exact sorted_cons.2 ⟨heq ▸ hlt, hsorted⟩
    · next hne =>
      split
      · next hbefore =>
        refine sorted_cons.2 ⟨fun l hl => ?_, h⟩
        rcases List.mem_cons.1 hl with rfl | hl
        · exact hbefore
        · exact hbefore.trans (hlt l hl)
      · next hnot =>
        refine sorted_cons.2 ⟨fun l hl => ?_, ih hsorted⟩
        rcases mem_keys_place.1 hl with rfl | hl
        · exact lt_of_le_of_ne (not_lt.1 hnot) (Ne.symm hne)
        · exact hlt l hl

/-- A key behind all others is put at the end. -/
theorem place_eq_concat (h : ∀ k ∈ es.map Prod.fst, k < key) : place key value es = es ++ [(key, value)] := by
  induction es with
  | nil => rfl
  | cons e es ih =>
    obtain ⟨k, v⟩ := e
    obtain ⟨hlt, hrest⟩ := List.forall_mem_cons.1 h
    rw [place, if_neg hlt.ne', if_neg hlt.not_gt, ih hrest, List.cons_append]

theorem mem_place {e : String × α} (h : e ∈ place key value es) : e = (key, value) ∨ e ∈ es := by
  induction es with
  | nil => exact .inl (List.mem_singleton.1 h)
  | cons f es ih =>
    obtain ⟨k, v⟩ := f
    rw [place] at h
    split at h
    · exact (List.mem_cons.1 h).imp_right (List.mem_cons_of_mem _)
    · split at h
      · exact List.mem_cons.1 h
      · rcases List.mem_cons.1 h with rfl | h
        · exact .inr List.mem_cons_self
        · exact (ih h).imp_right (List.mem_cons_of_mem _)

/-- The last entry is put in its place among those before it. -/
theorem ofList_concat (es : List (String × α)) (e : String × α) : ofList (es ++ [e]) = place e.1 e.2 (ofList es) := by
  rw [ofList, List.foldl_append]
  rfl

theorem sorted_ofList (es : List (String × α)) : Sorted (ofList es) := by
  induction es using List.reverseRecOn with
  | nil => exact sorted_nil
  | append_singleton es e ih =>
    rw [ofList_concat]
    exact ih.place e.1 e.2

theorem mem_of_mem_ofList {e : String × α} (h : e ∈ ofList es) : e ∈ es := by
  induction es using List.reverseRecOn with
  | nil => exact h
  | append_singleton es last ih =>
    rw [ofList_concat] at h
    exact List.mem_append.2 ((mem_place h).symm.imp ih List.mem_singleton.2)

theorem mem_keys_ofList {k : String} : k ∈ (ofList es).map Prod.fst ↔ k ∈ es.map Prod.fst := by
  induction es using List.reverseRecOn with
  | nil => rfl
  | append_singleton es e ih =>
    rw [ofList_concat, mem_keys_place, ih, List.map_append, List.mem_append, List.map_singleton, List.mem_singleton,
      or_comm]

/-- Entries in order stay as they are. -/
theorem ofList_of_sorted (h : Sorted es) : ofList es = es := by
  induction es using List.reverseRecOn with
  | nil => rfl
  | append_singleton es e ih =>
    obtain ⟨hsorted, -, hlast⟩ := sorted_append.1 h
    rw [ofList_concat, ih hsorted, place_eq_concat fun k hk => hlast k hk e.1 (List.mem_singleton_self _)]

end Keyed

namespace Json

/-- Induction on a value: the items of a list and the values of an object's members are smaller. -/
@[elab_as_elim]
theorem inductionOn {motive : Json → Prop} (j : Json) (null : motive .null) (bool : ∀ b, motive (.bool b))
    (int : ∀ n, motive (.int n)) (float : ∀ x, motive (.float x)) (str : ∀ s, motive (.str s))
    (arr : ∀ items, (∀ item ∈ items, motive item) → motive (.arr items))
    (obj : ∀ members, (∀ m ∈ members, motive m.2) → motive (.obj members)) : motive j :=
  @Json.rec motive (fun items => ∀ item ∈ items, motive item) (fun members => ∀ m ∈ members, motive m.2)
    (fun m => motive m.2) null bool int float str arr obj nofun
    (fun _ _ hfirst hrest => List.forall_mem_cons.2 ⟨hfirst, hrest⟩) nofun
    (fun _ _ hfirst hrest => List.forall_mem_cons.2 ⟨hfirst, hrest⟩) (fun _ _ h => h) j

variable {items : List Json} {members : List (String × Json)}

theorem normalItems_eq_map (items : List Json) : normalItems items = items.map normal := by
  induction items with
  | nil => rfl
  | cons j items ih => rw [normalItems, ih, List.map_cons]

theorem normalMembers_eq_map (members : List (String × Json)) :
    normalMembers members = members.map fun m => (m.1, m.2.normal) := by
  induction members with
  | nil => rfl
  | cons m members ih => rw [normalMembers, ih, List.map_cons]

theorem keys_normalMembers (members : List (String × Json)) :
    (normalMembers members).map Prod.fst = members.map Prod.fst := by
  rw [normalMembers_eq_map, List.map_map]
  rfl

theorem normalItems_eq_self : normalItems items = items ↔ ∀ item ∈ items, item.normal = item := by
  induction items with
  | nil => exact iff_of_true rfl nofun
  | cons j items ih => rw [normalItems, List.cons.injEq, ih, List.forall_mem_cons]

theorem normalMembers_eq_self : normalMembers members = members ↔ ∀ m ∈ members, m.2.normal = m.2 := by
  induction members with
  | nil => exact iff_of_true rfl nofun
  | cons m members ih => rw [normalMembers, List.cons.injEq, ih, List.forall_mem_cons, Prod.ext_iff, and_iff_right rfl]

theorem normal_float {x : Double} : (float x).normal = float x ↔ x.isFinite = true := by
  rw [normal]
  split
  · next h => exact iff_of_true rfl h
  · next h => exact iff_of_false nofun h

theorem normal_eq_int {j : Json} {n : Int} : j.normal = int n ↔ j = int n := by
  cases j with
  | float x =>
    rw [normal]
    split <;> exact iff_of_false nofun nofun
  | arr | obj => exact iff_of_false nofun nofun
  | _ => exact Iff.rfl

/-- Only a double is put down as that double. -/
theorem normal_eq_float {j : Json} {x : Double} : j.normal = float x ↔ j = float x ∧ x.isFinite = true := by
  cases j with
  | float y =>
    rw [normal]
    split
    · next h =>
      refine ⟨fun heq => ⟨heq, ?_⟩, And.left⟩
      cases heq
      exact h
    · next h =>
      refine iff_of_false nofun ?_
      rintro ⟨⟨⟩, hfinite⟩
      exact h hfinite
  | _ => exact iff_of_false nofun (fun h => nomatch h.1)

theorem normal_arr : (arr items).normal = arr items ↔ ∀ item ∈ items, item.normal = item := by
  rw [normal, arr.injEq, normalItems_eq_self]

theorem normal_obj :
    (obj members).normal = obj members ↔ Keyed.Sorted members ∧ ∀ m ∈ members, m.2.normal = m.2 := by
  rw [normal, obj.injEq]
  constructor
  · intro h
    have hsorted : Keyed.Sorted members := h ▸ Keyed.sorted_ofList _
    rw [Keyed.ofList_of_sorted ((Keyed.sorted_congr (keys_normalMembers members)).2 hsorted)] at h
    exact ⟨hsorted, normalMembers_eq_self.1 h⟩
  · rintro ⟨hsorted, hvalues⟩
    rw [normalMembers_eq_self.2 hvalues, Keyed.ofList_of_sorted hsorted]

/-- A normal form is its own. -/
theorem normal_normal (j : Json) : j.normal.normal = j.normal := by
  induction j using inductionOn with
  | null | bool | int | str => rfl
  | float x =>
    rw [normal]
    split
    · next h => exact normal_float.2 h
    · rfl
  | arr items ih =>
    rw [normal, normal_arr, normalItems_eq_map]
    exact List.forall_mem_map.2 ih
  | obj members ih =>
    rw [normal, normal_obj]
    refine ⟨Keyed.sorted_ofList _, fun m hm => ?_⟩
    have hmem : m ∈ members.map fun m => (m.1, m.2.normal) := normalMembers_eq_map members ▸ Keyed.mem_of_mem_ofList hm
    obtain ⟨member, hmember, rfl⟩ := List.mem_map.1 hmem
    exact ih member hmember

end Json
end Listing
