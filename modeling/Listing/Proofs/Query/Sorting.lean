import Listing.Proofs.LastOfEach
import Listing.Proofs.Query.AllowList
/-!
# Repeated sorts

A sort that is asked for again keeps its place and takes the later direction. What is merged so are the sorts of
one expression, whatever their fields are called (`sortKeys_lastOfEach`): two fields with one expression are
merged like one, and the order is that of the fields only if no two of them share an expression.
-/
namespace Listing

namespace ListQuery

/-- Where no expression is repeated, a key replaces the one of its expression, or is added. -/
theorem addKey_eq {key : SortKey} {keys : List SortKey} (h : (keys.map SortKey.expression).Nodup) :
    addKey key keys =
      if key.expression ∈ keys.map SortKey.expression then
        keys.map fun k => if k.expression = key.expression then key else k
      else keys ++ [key] := by
  induction keys with
  | nil => rfl
  | cons k rest ih =>
    rw [List.map_cons, List.nodup_cons] at h
    by_cases hk : k.expression = key.expression
    · have hrest : ∀ k' ∈ rest, k'.expression ≠ key.expression := fun k' hk' hsame =>
        h.1 (hk ▸ hsame ▸ List.mem_map_of_mem hk')
      have hkept : rest.map (fun k => if k.expression = key.expression then key else k) = rest :=
        (List.map_congr_left fun k' hk' => if_neg (hrest k' hk')).trans (List.map_id rest)
      simp [addKey, hk, hkept]
    · have hne : key.expression ≠ k.expression := fun e => hk e.symm
      rw [addKey, if_neg hk, ih h.2]
      simp only [List.map_cons, List.mem_cons, hne, false_or, if_neg hk]
      split <;> simp

/-- The keys are merged by their expressions. -/
theorem foldl_addKey (keys : List SortKey) :
    keys.foldl (fun merged key => addKey key merged) [] = lastOfEach SortKey.expression keys := by
  induction keys using List.reverseRecOn with
  | nil => rfl
  | append_singleton keys key ih =>
    rw [List.foldl_append, List.foldl_cons, List.foldl_nil, ih, addKey_eq nodup_lastOfEach, lastOfEach_concat,
      map_lastOfEach]
    simp only [List.mem_eraseDups]

/-- What a sort asks for: the expression of a field that may be sorted by, in a direction. -/
structure Asked (c : Catalog) (wrapped : Bool) (s : SortBy) (key : SortKey) : Prop where
  field : ∃ f, c.get? s.field = some f ∧ f.sortable = true ∧ key.expression = f.sortExpression wrapped
  direction : Direction.parse s.field s.direction = .ok key.direction

theorem keyOf_iff_asked {c : Catalog} {wrapped : Bool} {s : SortBy} {key : SortKey} :
    keyOf c wrapped s = .ok key ↔ Asked c wrapped s key := by
  constructor
  · intro h
    refine ⟨keyOf_eq_ok h, ?_⟩
    obtain ⟨f, -, h⟩ := bind_eq_ok.1 h
    obtain ⟨direction, hdirection, h⟩ := bind_eq_ok.1 h
    cases h
    exact hdirection
  · rintro ⟨⟨f, hf, hsortable, hexpression⟩, hdirection⟩
    rw [keyOf, Catalog.sortField_eq_ok.2 ⟨hf, hsortable⟩, ok_bind, hdirection, ← hexpression]
    rfl

/-- Every sort of an accepted list asks for a key, and the keys are merged one after the other. -/
theorem exists_asked {c : Catalog} {wrapped : Bool} {sort : List SortBy} {keys order : List SortKey}
    (h : keysFrom c wrapped keys sort = .ok order) :
    ∃ entries : List (SortBy × SortKey), entries.map Prod.fst = sort ∧
      (∀ e ∈ entries, Asked c wrapped e.1 e.2) ∧
      order = (entries.map Prod.snd).foldl (fun merged key => addKey key merged) keys := by
  induction sort generalizing keys with
  | nil =>
    cases h
    exact ⟨[], rfl, by simp, rfl⟩
  | cons s rest ih =>
    obtain ⟨key, hkey, h⟩ := bind_eq_ok.1 h
    obtain ⟨entries, hentries, hasked, horder⟩ := ih h
    refine ⟨(s, key) :: entries, by rw [List.map_cons, hentries], ?_, horder⟩
    rw [List.forall_mem_cons]
    exact ⟨keyOf_iff_asked.1 hkey, hasked⟩

/-- Entries that name one field ask for one expression. -/
theorem Asked.expression_congr {c : Catalog} {wrapped : Bool} {s s' : SortBy} {key key' : SortKey}
    (h : Asked c wrapped s key) (h' : Asked c wrapped s' key') (hfield : s.field = s'.field) :
    key.expression = key'.expression := by
  obtain ⟨f, hf, -, hexpression⟩ := h.field
  obtain ⟨f', hf', -, hexpression'⟩ := h'.field
  rw [hfield, hf', Option.some_inj] at hf
  rw [hexpression, hexpression', hf]

/-- The order has one key for each expression, where it is first asked for and in the direction in which it is last
asked for. That is one key for each field if no two fields that are named have the same expression, and only
then. -/
theorem sortKeys_lastOfEach (c : Catalog) (wrapped : Bool) {sort : List SortBy} {order : List SortKey}
    (h : sortKeys c wrapped sort = .ok order) :
    ∃ entries : List (SortBy × SortKey), entries.map Prod.fst = sort ∧
      (∀ e ∈ entries, Asked c wrapped e.1 e.2) ∧
      order = (lastOfEach (fun e => e.2.expression) entries).map Prod.snd ∧
      (order = (lastOfEach (fun e => e.1.field) entries).map Prod.snd ↔
        ∀ e ∈ entries, ∀ e' ∈ entries, e.2.expression = e'.2.expression → e.1.field = e'.1.field) := by
  obtain ⟨entries, hentries, hasked, horder⟩ := exists_asked h
  have hmerged : order = (lastOfEach (fun e => e.2.expression) entries).map Prod.snd := by
    rw [horder, foldl_addKey, lastOfEach_map]
  refine ⟨entries, hentries, hasked, hmerged, fun hfields e he e' he' hsame => ?_, fun hapart => ?_⟩
  · -- among the keys of the fields an expression that two of them have would stand twice
    have hnodup : ((lastOfEach (fun e => e.1.field) entries).map fun e => e.2.expression).Nodup := by
      have hexpressions : (order.map SortKey.expression).Nodup := by
        rw [horder, foldl_addKey]
        exact nodup_lastOfEach
      rwa [hfields, List.map_map] at hexpressions
    have hkey : ∀ e ∈ entries, ∃ k ∈ lastOfEach (fun e => e.1.field) entries,
        k.1.field = e.1.field ∧ k.2.expression = e.2.expression := by
      intro e he
      obtain ⟨k, hk, hkfield⟩ := exists_mem_lastOfEach he
      exact ⟨k, hk, hkfield, (hasked k (mem_of_mem_lastOfEach hk)).expression_congr (hasked e he) hkfield⟩
    obtain ⟨k, hk, hkfield, hkexpression⟩ := hkey e he
    obtain ⟨k', hk', hkfield', hkexpression'⟩ := hkey e' he'
    have hone : k = k' := List.inj_on_of_nodup_map hnodup hk hk' (by rw [hkexpression, hsame, hkexpression'])
    rw [← hkfield, hone, hkfield']
  · rw [hmerged, lastOfEach_congr fun e he e' he' => ⟨hapart e he e' he', fun hfield =>
      (hasked e he).expression_congr (hasked e' he') hfield⟩]

/-- Clubs with the year of their foundation under two names. -/
def clubs : Catalog := Catalog.ofColumns [⟨"name", "t.name"⟩, ⟨"born", "t.year"⟩, ⟨"founded", "t.year"⟩]

theorem asked_born : Asked clubs false (.asc "born") ⟨"t.year", .asc⟩ :=
  ⟨⟨.ofColumn "born" "t.year", by cbv, rfl, rfl⟩, rfl⟩

theorem asked_founded : Asked clubs false (.desc "founded") ⟨"t.year", .desc⟩ :=
  ⟨⟨.ofColumn "founded" "t.year", by cbv, rfl, rfl⟩, rfl⟩

/-- Whoever sorts by the year again gets the later direction in the earlier place. -/
theorem sortKeys_lastOfEach_clubs :
    sortKeys clubs false [.asc "born", .asc "name", .desc "born"] = .ok [⟨"t.year", .desc⟩, ⟨"t.name", .asc⟩] ∧
      ∃ entries : List (SortBy × SortKey), entries.map Prod.fst = [.asc "born", .asc "name", .desc "born"] ∧
        (∀ e ∈ entries, Asked clubs false e.1 e.2) ∧
        [⟨"t.year", .desc⟩, ⟨"t.name", .asc⟩] = (lastOfEach (fun e => e.2.expression) entries).map Prod.snd := by
  have hname : Asked clubs false (.asc "name") ⟨"t.name", .asc⟩ :=
    ⟨⟨.ofColumn "name" "t.name", by cbv, rfl, rfl⟩, rfl⟩
  have hagain : Asked clubs false (.desc "born") ⟨"t.year", .desc⟩ :=
    ⟨⟨.ofColumn "born" "t.year", by cbv, rfl, rfl⟩, rfl⟩
  have horder : sortKeys clubs false [.asc "born", .asc "name", .desc "born"] =
      .ok [⟨"t.year", .desc⟩, ⟨"t.name", .asc⟩] := by
    rw [sortKeys, keysFrom, keyOf_iff_asked.2 asked_born, ok_bind, keysFrom, keyOf_iff_asked.2 hname, ok_bind,
      keysFrom, keyOf_iff_asked.2 hagain]
    rfl
  obtain ⟨entries, hentries, hasked, hmerged, -⟩ := sortKeys_lastOfEach clubs false horder
  exact ⟨horder, entries, hentries, hasked, hmerged⟩

/-- Whoever sorts by one name of the year and then by the other gets the direction of the second alone. -/
theorem sortKeys_merges_fields :
    sortKeys clubs false [.asc "born", .desc "founded"] = .ok [⟨"t.year", .desc⟩] ∧
    Asked clubs false (.asc "born") ⟨"t.year", .asc⟩ ∧ Asked clubs false (.desc "founded") ⟨"t.year", .desc⟩ ∧
    (lastOfEach (fun e : SortBy × SortKey => e.1.field)
      [(.asc "born", ⟨"t.year", .asc⟩), (.desc "founded", ⟨"t.year", .desc⟩)]).map Prod.snd =
      [⟨"t.year", .asc⟩, ⟨"t.year", .desc⟩] := by
  refine ⟨?_, asked_born, asked_founded, by decide +kernel⟩
  rw [sortKeys, keysFrom, keyOf_iff_asked.2 asked_born, ok_bind, keysFrom, keyOf_iff_asked.2 asked_founded]
  rfl

end ListQuery
end Listing
