import Listing.Param.Bag
import Listing.Proofs.LastOfEach
import Mathlib.Data.Finset.Card
/-!
# What a bag remembers

A bag is made from the empty one by insertions and by taking in other bags, which were made in the same way. Of all
that was ever written on the way it has the last value of each name, where the name was first written
(`remembers_made`). So to take a bag in is to repeat what was done to make it, and it does not matter how the
bags of a filter are put together.
-/
namespace Listing.Bag

variable {bag : Bag}

theorem nodup_empty : empty.names.Nodup := List.nodup_nil

/-! ## Insertions -/

/-- Where no name is repeated, a value replaces the one of its name, or is added. -/
theorem put_eq {es : List (String × Value)} (h : (es.map Prod.fst).Nodup) (name : String) (value : Value) :
    put name value es =
      if name ∈ es.map Prod.fst then es.map fun e => if e.1 = name then (name, value) else e
      else es ++ [(name, value)] := by
  induction es with
  | nil => rfl
  | cons e es ih =>
    rw [List.map_cons, List.nodup_cons] at h
    by_cases hn : e.1 = name
    · have hrest : es.map (fun e => if e.1 = name then (name, value) else e) = es := by
        refine (List.map_congr_left fun d hd => if_neg ?_).trans (List.map_id es)
        exact fun hsame => h.1 (hn ▸ hsame ▸ List.mem_map_of_mem hd)
      simp [put, hn, hrest]
    · have hne : name ≠ e.1 := fun e => hn e.symm
      rw [put, if_neg hn, ih h.2]
      simp only [List.map_cons, List.mem_cons, hne, false_or, if_neg hn]
      split <;> rfl

/-- Entries that are inserted one after the other leave the last of each name. -/
theorem entries_insertAll (h : bag.names.Nodup) (es : List (String × Value)) :
    (bag.insertAll es).entries = lastOfEach Prod.fst (bag.entries ++ es) := by
  induction es using List.reverseRecOn with
  | nil => rw [insertAll_nil, List.append_nil, lastOfEach_of_nodup h]
  | append_singleton es e ih =>
    have hnames : (bag.insertAll es).names = ((bag.entries ++ es).map Prod.fst).eraseDups := by
      rw [names, ih, map_lastOfEach]
    have hnodup : (bag.insertAll es).names.Nodup := hnames ▸ nodup_eraseDups _
    have hlast : bag.insertAll (es ++ [e]) = (bag.insertAll es).insert e.1 e.2 := List.foldl_append
    rw [hlast, insert, put_eq hnodup, ← names, hnames, ih, ← List.append_assoc, lastOfEach_concat]
    simp only [List.mem_eraseDups]

/-- Entries of new names are put at the end, one after another. -/
theorem entries_insertAll_of_nodup {es : List (String × Value)} (h : ((bag.entries ++ es).map Prod.fst).Nodup) :
    (bag.insertAll es).entries = bag.entries ++ es := by
  have hnodup : bag.names.Nodup := h.sublist ((List.sublist_append_left _ _).map Prod.fst)
  rw [entries_insertAll hnodup, lastOfEach_of_nodup h]

theorem names_insertAll (h : bag.names.Nodup) (es : List (String × Value)) :
    (bag.insertAll es).names = (bag.names ++ es.map Prod.fst).eraseDups := by
  rw [names, entries_insertAll h, map_lastOfEach, List.map_append, names]

theorem nodup_insertAll (es : List (String × Value)) (h : bag.names.Nodup) : (bag.insertAll es).names.Nodup := by
  rw [names_insertAll h]
  exact nodup_eraseDups _

/-- Of names that occur once each entry is found. -/
theorem get?_of_mem (h : (bag.entries.map Prod.fst).Nodup) {e : String × Value} (he : e ∈ bag.entries) :
    bag.get? e.1 = some e.2 := by
  obtain ⟨front, back, hentries⟩ := List.append_of_mem he
  rw [get?, List.lookup_eq_some_iff]
  refine ⟨front, back, hentries, fun d hd => ?_⟩
  rw [hentries, List.map_append, List.map_cons, List.nodup_append] at h
  simpa using (h.2.2 d.1 (List.mem_map.mpr ⟨d, hd, rfl⟩) e.1 List.mem_cons_self).symm

/-! ## Histories -/

/-- What is done to a bag: a value is put under a name, or a bag is taken in that was made by edits of its own. -/
inductive Edit where
  | insert (name : String) (value : Value)
  | extend (edits : List Edit)

mutual

/-- The bag after an edit. -/
def edit (bag : Bag) : Edit → Bag
  | .insert name value => bag.insert name value
  | .extend edits => bag.extend (editAll empty edits)

def editAll (bag : Bag) : List Edit → Bag
  | [] => bag
  | e :: rest => (bag.edit e).editAll rest

end

mutual

/-- What an edit writes, in order, with what was written to make the bag that it takes in. -/
def Edit.written : Edit → List (String × Value)
  | .insert name value => [(name, value)]
  | .extend edits => Edit.allWritten edits

def Edit.allWritten : List Edit → List (String × Value)
  | [] => []
  | e :: rest => e.written ++ Edit.allWritten rest

end

/-- The bag that edits make of the empty one. -/
def made (edits : List Edit) : Bag := empty.editAll edits

theorem allWritten_append (edits edits' : List Edit) :
    Edit.allWritten (edits ++ edits') = Edit.allWritten edits ++ Edit.allWritten edits' := by
  induction edits with
  | nil => rfl
  | cons e edits ih => rw [List.cons_append, Edit.allWritten, ih, ← List.append_assoc, ← Edit.allWritten]

mutual

/-- An edit leaves the last of each name, of what was there and what it writes. -/
theorem entries_edit : ∀ (e : Edit) {bag : Bag}, bag.names.Nodup →
    (bag.edit e).entries = lastOfEach Prod.fst (bag.entries ++ e.written)
  | .insert name value, _, h => entries_insertAll h [(name, value)]
  | .extend edits, _, h => by
    rw [edit, extend, entries_insertAll h, entries_editAll edits nodup_empty]
    exact lastOfEach_append_right _ _

theorem entries_editAll : ∀ (edits : List Edit) {bag : Bag}, bag.names.Nodup →
    (bag.editAll edits).entries = lastOfEach Prod.fst (bag.entries ++ Edit.allWritten edits)
  | [], _, h => by rw [editAll, Edit.allWritten, List.append_nil, lastOfEach_of_nodup h]
  | e :: rest, bag, h => by
    have he := entries_edit e h
    have hnodup : (bag.edit e).names.Nodup := by
      rw [names, he]
      exact nodup_lastOfEach
    rw [editAll, entries_editAll rest hnodup, he, lastOfEach_append_left, List.append_assoc, Edit.allWritten]

end

/-- A bag has the last of each name that was ever written. -/
theorem entries_made (edits : List Edit) : (made edits).entries = lastOfEach Prod.fst (Edit.allWritten edits) :=
  entries_editAll edits nodup_empty

theorem nodup_made (edits : List Edit) : (made edits).names.Nodup := by
  rw [names, entries_made]
  exact nodup_lastOfEach

/-- To take a bag in is to repeat what was done to make it. -/
theorem extend_made (edits edits' : List Edit) : (made edits).extend (made edits') = made (edits ++ edits') := by
  have hentries : ((made edits).extend (made edits')).entries = (made (edits ++ edits')).entries := by
    rw [extend, entries_insertAll (nodup_made edits), entries_made, entries_made, entries_made, lastOfEach_append,
      allWritten_append]
  exact congrArg Bag.mk hentries

/-- What a bag has of all that was written. -/
structure Remembers (bag : Bag) (written : List (String × Value)) : Prop where
  nodup : bag.names.Nodup
  /-- The names stand in the order in which each was first written. -/
  names : bag.names = (written.map Prod.fst).eraseDups
  /-- A name has the value that was last written for it. -/
  get? : ∀ name, bag.get? name = (lastOf Prod.fst written name).map Prod.snd
  size : bag.size = (written.map Prod.fst).toFinset.card

theorem remembers_of_entries {written : List (String × Value)} (h : bag.entries = lastOfEach Prod.fst written) :
    bag.Remembers written where
  nodup := by
    rw [Bag.names, h]
    exact nodup_lastOfEach
  names := by rw [Bag.names, h, map_lastOfEach]
  get? := by
    intro name
    have hnodup : (bag.entries.map Prod.fst).Nodup := h ▸ nodup_lastOfEach
    rw [← lastOf_lastOfEach, ← h]
    cases hlast : lastOf Prod.fst bag.entries name with
    | none =>
      refine List.lookup_eq_none_iff.2 fun e he => ?_
      rw [bne_iff_ne]
      rintro rfl
      obtain ⟨d, hd⟩ := exists_lastOf (List.mem_map_of_mem (f := Prod.fst) he)
      exact absurd (hlast.symm.trans hd) nofun
    | some e =>
      obtain ⟨hmem, rfl⟩ := lastOf_eq_some hlast
      exact get?_of_mem hnodup hmem
  size := by
    have hnodup : (lastOfEach Prod.fst written).map Prod.fst |>.Nodup := nodup_lastOfEach
    rw [size, h, ← List.length_map (f := Prod.fst), ← List.toFinset_card_of_nodup hnodup, map_lastOfEach]
    congr 1
    ext name
    simp only [List.mem_toFinset, List.mem_eraseDups]

/-- Whatever is inserted into a bag and taken into it, it has each name once, in the order in which the names were
first written, with the value that was last written for it. A bag is taken in by inserting its entries one by one,
which is to repeat what was done to make it; so it does not matter which bags are put together first, and the empty
one adds nothing. -/
theorem remembers_made (edits : List Edit) :
    (made edits).Remembers (Edit.allWritten edits) ∧
    (∀ edits', (made edits).extend (made edits') =
        (made edits').entries.foldl (fun bag e => bag.insert e.1 e.2) (made edits) ∧
      (made edits).extend (made edits') = made (edits ++ edits')) ∧
    (∀ edits' edits'', ((made edits).extend (made edits')).extend (made edits'') =
      (made edits).extend ((made edits').extend (made edits''))) ∧
    empty.extend (made edits) = made edits ∧ (made edits).extend empty = made edits := by
  refine ⟨remembers_of_entries (entries_made edits), fun edits' => ⟨rfl, extend_made edits edits'⟩,
    fun edits' edits'' => ?_, extend_made [] edits, extend_empty _⟩
  rw [extend_made, extend_made, extend_made, extend_made, List.append_assoc]

/-- A name that a taken-in bag overwrites stays in its place. -/
example :
    made [.insert ":b_2" (.int 2), .extend [.insert ":a_1" .null, .insert ":b_2" (.int 4)], .insert ":a_1" (.int 1)] =
      ⟨[(":b_2", .int 4), (":a_1", .int 1)]⟩ :=
  rfl

end Listing.Bag
