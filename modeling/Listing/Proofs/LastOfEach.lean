import Mathlib.Data.List.Induction
import Mathlib.Data.List.Nodup
/-!
# The last of each label

Of entries with labels, the last of each label stands where the label first occurs (`lastOfEach`). So does a
list look that is filled entry by entry, where an entry takes the place of an earlier one of its label and stands at
the end without one (`lastOfEach_concat`).
-/
namespace Listing

variable {α β : Type}

theorem eraseDups_concat (names : List String) (name : String) :
    (names ++ [name]).eraseDups = if name ∈ names then names.eraseDups else names.eraseDups ++ [name] := by
  rw [List.eraseDups_append, List.removeAll]
  by_cases h : name ∈ names
  · simp [h]
  · simp [h, List.eraseDups_cons]

theorem nodup_eraseDups (labels : List String) : labels.eraseDups.Nodup := by
  induction labels using List.reverseRecOn with
  | nil => exact List.nodup_nil
  | append_singleton labels l ih =>
    rw [eraseDups_concat]
    split
    · exact ih
    · next hnew =>
      rw [← List.concat_eq_append]
      exact ih.concat fun hl => hnew (List.mem_eraseDups.1 hl)

theorem eraseDups_of_nodup {labels : List String} (h : labels.Nodup) : labels.eraseDups = labels := by
  induction labels using List.reverseRecOn with
  | nil => rfl
  | append_singleton labels l ih =>
    rw [← List.concat_eq_append, List.nodup_concat] at h
    rw [eraseDups_concat, if_neg h.1, ih h.2]

theorem eraseDups_append_eraseDups (labels labels' : List String) :
    (labels.eraseDups ++ labels'.eraseDups).eraseDups = (labels ++ labels').eraseDups := by
  induction labels' using List.reverseRecOn with
  | nil => rw [List.eraseDups_nil, List.append_nil, List.append_nil, eraseDups_of_nodup (nodup_eraseDups labels)]
  | append_singleton labels' l ih =>
    rw [eraseDups_concat labels', ← List.append_assoc, eraseDups_concat (labels ++ labels')]
    by_cases h : l ∈ labels'
    · rw [if_pos h, if_pos (List.mem_append_right _ h), ih]
    · rw [if_neg h, ← List.append_assoc, eraseDups_concat, ih]
      simp only [List.mem_append, List.mem_eraseDups]

/-- The last entry of a label. -/
def lastOf (label : α → String) (xs : List α) (l : String) : Option α := (xs.filter (label · == l)).getLast?

/-- One entry for each label, where the label first occurs: the last of that label. -/
def lastOfEach (label : α → String) (xs : List α) : List α :=
  (xs.map label).eraseDups.filterMap (lastOf label xs)

section
variable {label : α → String} {xs : List α}

theorem lastOf_eq_some {l : String} {x : α} (h : lastOf label xs l = some x) : x ∈ xs ∧ label x = l := by
  have hmem := List.mem_of_getLast? h
  simpa using hmem

theorem exists_lastOf {l : String} (h : l ∈ xs.map label) : ∃ x, lastOf label xs l = some x := by
  obtain ⟨x, hx, rfl⟩ := List.mem_map.1 h
  refine ⟨_, List.getLast?_eq_some_getLast (l := xs.filter (label · == label x)) ?_⟩
  exact List.ne_nil_of_mem (List.mem_filter.2 ⟨hx, beq_self_eq_true _⟩)

theorem lastOf_concat (x : α) (l : String) :
    lastOf label (xs ++ [x]) l = if label x = l then some x else lastOf label xs l := by
  unfold lastOf
  by_cases h : label x = l
  · simp [h]
  · have hne : (label x == l) = false := beq_eq_false_iff_ne.2 h
    simp [List.filter_append, hne, h]

theorem mem_of_mem_lastOfEach {x : α} (h : x ∈ lastOfEach label xs) : x ∈ xs := by
  obtain ⟨l, -, hl⟩ := List.mem_filterMap.1 h
  exact (lastOf_eq_some hl).1

theorem map_lastOfEach : (lastOfEach label xs).map label = (xs.map label).eraseDups := by
  unfold lastOfEach
  rw [List.map_filterMap]
  have hsome : ∀ l ∈ (xs.map label).eraseDups, (lastOf label xs l).map label = some l := by
    intro l hl
    obtain ⟨x, hx⟩ := exists_lastOf (List.mem_eraseDups.1 hl)
    rw [hx, Option.map_some, (lastOf_eq_some hx).2]
  rw [List.filterMap_congr hsome, List.filterMap_some]

theorem nodup_lastOfEach : ((lastOfEach label xs).map label).Nodup := by
  rw [map_lastOfEach]
  exact nodup_eraseDups _

theorem exists_mem_lastOfEach {x : α} (hx : x ∈ xs) : ∃ y ∈ lastOfEach label xs, label y = label x := by
  have hlabel : label x ∈ (lastOfEach label xs).map label := by
    rw [map_lastOfEach, List.mem_eraseDups]
    exact List.mem_map_of_mem hx
  exact List.mem_map.1 hlabel

/-- A further entry replaces the one of its label, or is added. -/
theorem lastOfEach_concat (x : α) :
    lastOfEach label (xs ++ [x]) =
      if label x ∈ xs.map label then (lastOfEach label xs).map fun y => if label y = label x then x else y
      else lastOfEach label xs ++ [x] := by
  unfold lastOfEach
  rw [List.map_append, List.map_singleton, eraseDups_concat]
  split
  · rw [List.map_filterMap]
    refine List.filterMap_congr fun l hl => ?_
    obtain ⟨y, hy⟩ := exists_lastOf (List.mem_eraseDups.1 hl)
    rw [lastOf_concat, hy, Option.map_some, (lastOf_eq_some hy).2]
    by_cases h : label x = l
    · simp [h]
    · simp [h, Ne.symm h]
  · next hnew =>
    rw [List.filterMap_append]
    congr 1
    · refine List.filterMap_congr fun l hl => ?_
      have hne : label x ≠ l := fun e => hnew (e ▸ List.mem_eraseDups.1 hl)
      rw [lastOf_concat, if_neg hne]
    · simp [lastOf_concat]

/-- Where no label is repeated, every entry is the last of its label. -/
theorem lastOfEach_of_nodup (h : (xs.map label).Nodup) : lastOfEach label xs = xs := by
  induction xs using List.reverseRecOn with
  | nil => rfl
  | append_singleton xs x ih =>
    rw [List.map_append, List.map_singleton, ← List.concat_eq_append, List.nodup_concat] at h
    rw [lastOfEach_concat, if_neg h.1, ih h.2]

theorem lastOf_append (xs ys : List α) (l : String) :
    lastOf label (xs ++ ys) l = (lastOf label ys l).or (lastOf label xs l) := by
  unfold lastOf
  rw [List.filter_append, List.getLast?_append]

theorem lastOf_lastOfEach (xs : List α) (l : String) : lastOf label (lastOfEach label xs) l = lastOf label xs l := by
  cases h : lastOf label xs l with
  | none =>
    refine Option.eq_none_iff_forall_ne_some.2 fun y hy => ?_
    obtain ⟨hmem, rfl⟩ := lastOf_eq_some hy
    obtain ⟨x, hx⟩ := exists_lastOf (List.mem_map_of_mem (mem_of_mem_lastOfEach hmem))
    exact absurd (h.symm.trans hx) nofun
  | some x =>
    obtain ⟨hmem, rfl⟩ := lastOf_eq_some h
    have hx : x ∈ lastOfEach label xs :=
      List.mem_filterMap.2 ⟨label x, List.mem_eraseDups.2 (List.mem_map_of_mem hmem), h⟩
    obtain ⟨y, hy⟩ := exists_lastOf (List.mem_map_of_mem (f := label) hx)
    obtain ⟨hymem, hlabel⟩ := lastOf_eq_some hy
    rw [hy, List.inj_on_of_nodup_map nodup_lastOfEach hymem hx hlabel]

/-- Lists can be reduced to the last of each label before they are put together. -/
theorem lastOfEach_append (xs ys : List α) :
    lastOfEach label (lastOfEach label xs ++ lastOfEach label ys) = lastOfEach label (xs ++ ys) := by
  have hlabels : ((lastOfEach label xs ++ lastOfEach label ys).map label).eraseDups =
      ((xs ++ ys).map label).eraseDups := by
    rw [List.map_append, map_lastOfEach, map_lastOfEach, List.map_append, eraseDups_append_eraseDups]
  have hlast : lastOf label (lastOfEach label xs ++ lastOfEach label ys) = lastOf label (xs ++ ys) := by
    funext l
    rw [lastOf_append, lastOf_append, lastOf_lastOfEach, lastOf_lastOfEach]
  rw [lastOfEach, hlabels, hlast, lastOfEach]

theorem lastOfEach_append_left (xs ys : List α) :
    lastOfEach label (lastOfEach label xs ++ ys) = lastOfEach label (xs ++ ys) := by
  rw [← lastOfEach_append (lastOfEach label xs), lastOfEach_of_nodup nodup_lastOfEach, lastOfEach_append]

theorem lastOfEach_append_right (xs ys : List α) :
    lastOfEach label (xs ++ lastOfEach label ys) = lastOfEach label (xs ++ ys) := by
  have hnodup : ((lastOfEach label ys).map label).Nodup := nodup_lastOfEach
  rw [← lastOfEach_append xs, lastOfEach_of_nodup hnodup, lastOfEach_append]

theorem lastOfEach_map (label : β → String) (f : α → β) :
    lastOfEach label (xs.map f) = (lastOfEach (fun x => label (f x)) xs).map f := by
  unfold lastOfEach
  rw [List.map_map, List.map_filterMap]
  refine List.filterMap_congr fun l _ => ?_
  unfold lastOf
  rw [List.filter_map, List.getLast?_map]
  rfl

/-- Labels that tell the same entries apart keep the same ones. -/
theorem lastOfEach_congr {label' : α → String}
    (h : ∀ x ∈ xs, ∀ y ∈ xs, label x = label y ↔ label' x = label' y) :
    lastOfEach label xs = lastOfEach label' xs := by
  induction xs using List.reverseRecOn with
  | nil => rfl
  | append_singleton xs x ih =>
    have hfront := ih fun y hy z hz => h y (List.mem_append_left _ hy) z (List.mem_append_left _ hz)
    have hlast : ∀ y ∈ xs, label y = label x ↔ label' y = label' x := fun y hy =>
      h y (List.mem_append_left _ hy) x (List.mem_append_right _ (List.mem_singleton_self x))
    have hmem : label x ∈ xs.map label ↔ label' x ∈ xs.map label' := by
      simp only [List.mem_map]
      exact exists_congr fun y => and_congr_right fun hy => hlast y hy
    rw [lastOfEach_concat, lastOfEach_concat, ← hfront]
    simp only [hmem]
    split
    · refine List.map_congr_left fun y hy => ?_
      simp only [hlast y (mem_of_mem_lastOfEach hy)]
    · rfl

end

end Listing
