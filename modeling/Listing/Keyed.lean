/-!
# Lists in the order of their keys

Where the order of keys shows, entries stand in the order of their keys by code point, each key once,
and a later entry replaces an earlier one of the same key.
-/
namespace Listing.Keyed

/-- Puts an entry in its place; an entry of the same key is replaced. -/
def place (key : String) (value : α) : List (String × α) → List (String × α)
  | [] => [(key, value)]
  | (k, v) :: rest =>
    if key = k then (key, value) :: rest
    else if key < k then (key, value) :: (k, v) :: rest
    else (k, v) :: place key value rest

/-- The entries in the order of their keys. -/
def ofList (entries : List (String × α)) : List (String × α) :=
  entries.foldl (fun done (k, v) => place k v done) []

theorem mem_keys_place {key k : String} {value : α} {es : List (String × α)} :
    k ∈ (place key value es).map Prod.fst ↔ k = key ∨ k ∈ es.map Prod.fst := by
  induction es with
  | nil => simp [place]
  | cons e es ih =>
    obtain ⟨n, v⟩ := e
    by_cases h : key = n
    · subst h
      simp [place]
    · by_cases hlt : key < n
      · simp [place, h, hlt]
      · simp only [place, h, hlt, if_false, List.map_cons, List.mem_cons, ih]
        constructor <;> rintro (h | h | h) <;> simp [h]

end Listing.Keyed
