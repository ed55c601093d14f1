import Listing.Proofs.Json.Printed
import Listing.Request
/-!
# Requests that are sent

A request is sent as data or as a text. Its sort list and its page always come back, whatever notations of a sort
(`SortBy.Carries`) and whichever defaults a document uses. Of its filter the part comes back that the medium keeps
(`Medium.Keeps`), so the request does exactly if all of it is kept (`comes_back`).
-/
namespace Listing

/-! ## Members of a record -/

namespace Json

variable {α : Type} {members : Members} {key : String}

/-- With names that differ every member stands alone under its name. -/
theorem filter_of_nodup (hnames : (members.map Prod.fst).Nodup) {j : Json} (h : (key, j) ∈ members) :
    members.filter (·.1 == key) = [(key, j)] := by
  induction members with
  | nil => cases h
  | cons member members ih =>
    obtain ⟨hfresh, hrest⟩ := List.nodup_cons.1 hnames
    rcases List.mem_cons.1 h with rfl | h
    · have hothers : members.filter (·.1 == key) = [] :=
        List.filter_eq_nil_iff.2 fun m hm heq => hfresh (List.mem_map.2 ⟨m, hm, eq_of_beq heq⟩)
      rw [List.filter_cons, hothers]
      exact if_pos (beq_self_eq_true key)
    · have hother : ¬ (member.1 == key) = true := fun heq =>
        hfresh (eq_of_beq heq ▸ List.mem_map.2 ⟨_, h, rfl⟩)
      rw [List.filter_cons, ih hrest h]
      exact if_neg hother

theorem filter_of_not_mem (h : key ∉ members.map Prod.fst) : members.filter (·.1 == key) = [] :=
  List.filter_eq_nil_iff.2 fun m hm heq => h (List.mem_map.2 ⟨m, hm, eq_of_beq heq⟩)

theorem single?_eq_none : single? key members = some none ↔ members.filter (·.1 == key) = [] := by
  rw [single?]
  split
  · next h => exact iff_of_true rfl h
  · next h => exact iff_of_false nofun fun heq => nomatch h.symm.trans heq
  · next hnil _ => exact iff_of_false nofun hnil

theorem single?_eq_some {j : Json} :
    single? key members = some (some j) ↔ members.filter (·.1 == key) = [(key, j)] := by
  rw [single?]
  split
  · next h => exact iff_of_false nofun fun heq => nomatch h.symm.trans heq
  · next k j' h =>
    have hk : k = key := by
      have hmem : (k, j') ∈ members.filter (·.1 == key) := h ▸ List.mem_singleton_self _
      exact eq_of_beq (List.mem_filter.1 hmem).2
    rw [h, hk]
    simp
  · next hone => exact iff_of_false nofun fun heq => hone key j heq

theorem required_eq_some {read : Json → Option α} {a : α} :
    required members key read = some a ↔ ∃ j, members.filter (·.1 == key) = [(key, j)] ∧ read j = some a := by
  simp only [← single?_eq_some, required]
  cases single? key members with
  | none => simp
  | some found => cases found <;> simp

theorem nullable_eq_none {read : Json → Option α} :
    nullable members key read = some none ↔
      members.filter (·.1 == key) = [] ∨ members.filter (·.1 == key) = [(key, .null)] := by
  rw [← single?_eq_none, ← single?_eq_some, nullable]
  cases single? key members with
  | none => simp
  | some found =>
    cases found with
    | none => simp
    | some j => cases j <;> simp

theorem nullable_eq_some {read : Json → Option α} {a : α} (hnull : read .null = none) :
    nullable members key read = some (some a) ↔ ∃ j, members.filter (·.1 == key) = [(key, j)] ∧ read j = some a := by
  simp only [← single?_eq_some, nullable]
  cases single? key members with
  | none => simp
  | some found =>
    cases found with
    | none => simp
    | some j => cases j <;> simp [hnull]

theorem optional_eq (read : Json → Option α) (default : α) {j : Json}
    (h : members.filter (·.1 == key) = [(key, j)]) : optional members key read default = read j := by
  rw [optional, single?_eq_some.2 h]
  rfl

theorem string?_eq_some {j : Json} {s : String} : j.string? = some s ↔ j = .str s := by
  cases j <;> simp [string?]

end Json

/-! ## Sorts -/

namespace SortBy

/-- A value carries a field and a direction in one of the notations of a sort. -/
inductive Carries : Json → String → Option String → Prop
  | name (field : String) : Carries (.str field) field none
  | alone (field : String) : Carries (.arr [.str field]) field none
  | pair (field direction : String) : Carries (.arr [.str field, .str direction]) field (some direction)
  /-- Other members do not matter. -/
  | record {members : Json.Members} {field direction : String}
      (hfield : members.filter (·.1 == "field") = [("field", .str field)])
      (hdirection : members.filter (·.1 == "direction") = [("direction", .str direction)]) :
      Carries (.obj members) field (some direction)
  | recordAlone {members : Json.Members} {field : String}
      (hfield : members.filter (·.1 == "field") = [("field", .str field)])
      (hdirection : members.filter (·.1 == "direction") = [] ∨
        members.filter (·.1 == "direction") = [("direction", .null)]) :
      Carries (.obj members) field none

/-- A sort is read in these notations and in no other. -/
theorem ofJson?_eq_some {j : Json} {field : String} {direction : Option String} :
    ofJson? j = some ⟨field, direction⟩ ↔ Carries j field direction := by
  constructor
  · intro h
    unfold ofJson? at h
    split at h
    · cases h
      exact .name field
    · cases h
      exact .alone field
    · cases h
      exact .pair field _
    · next members =>
      obtain ⟨field', hfield, h⟩ := Option.bind_eq_some_iff.1 h
      obtain ⟨direction', hdirection, h⟩ := Option.bind_eq_some_iff.1 h
      cases h
      obtain ⟨j, hj, hstring⟩ := Json.required_eq_some.1 hfield
      cases Json.string?_eq_some.1 hstring
      cases direction with
      | none => exact .recordAlone hj (Json.nullable_eq_none.1 hdirection)
      | some direction =>
        obtain ⟨j', hj', hstring'⟩ := (Json.nullable_eq_some rfl).1 hdirection
        cases Json.string?_eq_some.1 hstring'
        exact .record hj hj'
    · cases h
  · intro h
    cases h with
    | name | alone | pair => rfl
    | record hfield hdirection =>
      have hf := Json.required_eq_some.2 ⟨_, hfield, Json.string?_eq_some.2 rfl⟩
      have hd := (Json.nullable_eq_some rfl).2 ⟨_, hdirection, Json.string?_eq_some.2 rfl⟩
      rw [ofJson?, hf, Option.bind_eq_bind, Option.bind_some, hd]
      rfl
    | recordAlone hfield hdirection =>
      have hf := Json.required_eq_some.2 ⟨_, hfield, Json.string?_eq_some.2 rfl⟩
      have hd : Json.nullable _ "direction" Json.string? = some none := Json.nullable_eq_none.2 hdirection
      rw [ofJson?, hf, Option.bind_eq_bind, Option.bind_some, hd]
      rfl

theorem carries_toJson (s : SortBy) : Carries s.toJson s.field s.direction := by
  obtain ⟨field, direction⟩ := s
  cases direction with
  | none => exact .recordAlone rfl (.inl rfl)
  | some direction => exact .record rfl rfl

theorem ofJson?_toJson (s : SortBy) : ofJson? s.toJson = some s := ofJson?_eq_some.2 s.carries_toJson

end SortBy

/-! ## What comes back -/

theorem Json.word?_toNat (n : UInt64) : Json.word? (.int n.toNat) = some n := by
  have hn : (0 : Int) ≤ n.toNat ∧ (n.toNat : Int) < UInt64.size := ⟨Int.natCast_nonneg _, Int.ofNat_lt.2 n.toNat_lt⟩
  rw [Json.word?, if_pos hn, Int.toNat_natCast, UInt64.ofNat_toNat]

/-- A page is read from its members among others of different names. -/
theorem PageRequest.ofMembers?_of_subset (p : PageRequest) {members : Json.Members}
    (hnames : (members.map Prod.fst).Nodup) (hmembers : ∀ m ∈ p.toMembers, m ∈ members)
    (hsize : p.size = none → "items_per_page" ∉ members.map Prod.fst) : ofMembers? members = some p := by
  obtain ⟨page, size, navigation, totalCount⟩ := p
  have hpage := Json.optional_eq Json.word? 1
    (Json.filter_of_nodup hnames (hmembers ("page", .int page.toNat) (by simp [toMembers, Json.ofNat])))
  have hnavigation := Json.optional_eq Json.bool? true
    (Json.filter_of_nodup hnames (hmembers ("navigation", .bool navigation) (by simp [toMembers])))
  have htotal := Json.optional_eq Json.bool? false
    (Json.filter_of_nodup hnames (hmembers ("total_count", .bool totalCount) (by simp [toMembers])))
  have hitems : Json.nullable members "items_per_page" Json.word? = some size := by
    cases size with
    | none => exact Json.nullable_eq_none.2 (.inl (Json.filter_of_not_mem (hsize rfl)))
    | some n =>
      refine (Json.nullable_eq_some rfl).2 ⟨_, Json.filter_of_nodup hnames ?_, Json.word?_toNat n⟩
      exact hmembers _ (by simp [toMembers, Json.ofNat])
  rw [ofMembers?, hpage, hnavigation, htotal, hitems, Json.word?_toNat]
  rfl

namespace Medium

/-- What a medium must take for any request to pass: the numbers of a page, and sorts in their list. -/
structure TakesRequests (m : Medium) : Prop where
  word : ∀ n : UInt64, m.number (.int n.toNat) = some (.int n.toNat)
  shallow : ∀ level ≤ 2, m.fits level = true

theorem takesRequests_value : value.TakesRequests := ⟨fun _ => rfl, fun _ _ => rfl⟩

theorem takesRequests_text : text.TakesRequests where
  word n := by
    have hmin : Int64.minValue.toInt ≤ 0 := by decide
    exact Json.reread?_int (hmin.trans (Int.natCast_nonneg _)) (Int.ofNat_lt.2 n.toNat_lt)
  shallow level h := fits_text.2 (lt_of_le_of_lt h (by decide))

end Medium

namespace Request

/-- The members of a request besides its filter. -/
def otherMembers (r : Request) : Json.Members := ("sort", .arr (r.sort.map SortBy.toJson)) :: r.page.toMembers

theorem toJson_eq (r : Request) : r.toJson = .obj (("filters", r.filters) :: r.otherMembers) := rfl

/-- The names of a request's members, with a page size or without. -/
def names (sized : Bool) : List String :=
  ["filters", "sort", "page"] ++ (if sized then ["items_per_page"] else []) ++ ["navigation", "total_count"]

theorem nodup_names : ∀ sized, (names sized).Nodup := by decide

theorem names_members (r : Request) (filters : Json) :
    (("filters", filters) :: r.otherMembers).map Prod.fst = names r.page.size.isSome := by
  rw [otherMembers, PageRequest.toMembers]
  cases r.page.size <;> rfl

/-- Next to any filter the other members are read as what was written. -/
theorem ofJson?_members (r : Request) (filters : Json) :
    ofJson? (.obj (("filters", filters) :: r.otherMembers)) = some { r with filters := filters } := by
  have hsort : Json.listOf SortBy.ofJson? (.arr (r.sort.map SortBy.toJson)) = some r.sort := by
    show (r.sort.map SortBy.toJson).mapM SortBy.ofJson? = some r.sort
    induction r.sort with
    | nil => rfl
    | cons s sort ih =>
      rw [List.map_cons, List.mapM_cons, SortBy.ofJson?_toJson, ih]
      rfl
  have hnames : ((("filters", filters) :: r.otherMembers).map Prod.fst).Nodup := by
    rw [names_members]
    exact nodup_names _
  have hsize : r.page.size = none → "items_per_page" ∉ (("filters", filters) :: r.otherMembers).map Prod.fst := by
    intro h
    rw [names_members, h]
    decide
  have hpage := r.page.ofMembers?_of_subset hnames
    (fun m hm => List.mem_cons_of_mem _ (List.mem_cons_of_mem _ hm)) hsize
  have hfilters := Json.optional_eq some Json.null
    (Json.filter_of_nodup hnames List.mem_cons_self)
  have hlist := Json.optional_eq (Json.listOf SortBy.ofJson?) []
    (Json.filter_of_nodup hnames (List.mem_cons_of_mem _ List.mem_cons_self))
  rw [ofJson?, Json.members?, Option.bind_eq_bind, Option.bind_some, hfilters, hlist, hsort, hpage]
  rfl

variable {m : Medium}

theorem keeps_sort (hm : m.TakesRequests) (s : SortBy) : m.Keeps 2 s.toJson := by
  rw [SortBy.toJson, Medium.keeps_obj]
  refine ⟨⟨hm.shallow 2 le_rfl, by simp [Json.Marked, Document.textKey]⟩, ?_⟩
  cases s.direction <;> simp

/-- All but the filter is kept. -/
theorem keeps_otherMembers (hm : m.TakesRequests) (r : Request) : ∀ member ∈ r.otherMembers, m.Keeps 1 member.2 := by
  have hsort : m.Keeps 1 (.arr (r.sort.map SortBy.toJson)) :=
    Medium.keeps_arr.2 ⟨hm.shallow 1 (by decide), List.forall_mem_map.2 fun s _ => keeps_sort hm s⟩
  rw [otherMembers, PageRequest.toMembers, List.forall_mem_cons]
  refine ⟨hsort, ?_⟩
  cases r.page.size <;> simp [Json.ofNat, hm.word]

theorem membersOf?_sentMembers {format : Format} {level : Nat} {members : Json.Members}
    (hnames : "filters" ∉ members.map Prod.fst) (h : ∀ member ∈ members, m.Keeps level member.2) :
    membersOf? format (m.sentMembers level members) = some members := by
  induction members with
  | nil => rfl
  | cons member members ih =>
    obtain ⟨key, j⟩ := member
    obtain ⟨hkept, hkepts⟩ := List.forall_mem_cons.1 h
    obtain ⟨hkey, hrest⟩ := not_or.1 (mt List.mem_cons.2 hnames)
    rw [Medium.sentMembers, membersOf?, Medium.sent_of_keeps hkept, Document.value?_ofJson, ih hrest hkepts]
    simp [Ne.symm hkey]

/-- A request comes back with what its filter arrives as. -/
theorem ofDocument?_sent (hm : m.TakesRequests) (r : Request) :
    ofDocument? .json (m.sent 0 r.toJson) =
      ((m.sent 1 r.filters).data? .json).map fun filters => { r with filters := filters.normal } := by
  have hothers : membersOf? .json (m.sentMembers 1 r.otherMembers) = some r.otherMembers := by
    have hnames := nodup_names r.page.size.isSome
    rw [← names_members r .null, List.map_cons] at hnames
    exact membersOf?_sentMembers (List.nodup_cons.1 hnames).1 (keeps_otherMembers hm r)
  rw [toJson_eq, Medium.sent, if_pos (hm.shallow 0 (by decide)), ofDocument?, Medium.sentMembers, membersOf?, hothers]
  cases (m.sent 1 r.filters).data? .json with
  | none => rfl
  | some filters => simp [ofJson?_members]

/-- The request that a text writes. -/
def read? (text : String) : Option Request := (Json.document? text).bind (ofDocument? .json)

theorem ofDocument?_ofJson (r : Request) :
    ofDocument? .json (.ofJson r.toJson) = ofDocument? .json (Medium.value.sent 0 r.toJson) := by
  rw [Medium.sent_value]

theorem read?_compact (r : Request) : read? r.toJson.compact = ofDocument? .json (Medium.text.sent 0 r.toJson) := by
  rw [read?, Json.document?_of_reads (Json.reads_compact _), Option.bind_some]

/-- The request comes back if its filter is kept, with plain data for a filter. -/
theorem ofDocument?_sent_eq_some (hm : m.TakesRequests) {r : Request} (hr : r.filters.normal = r.filters) :
    ofDocument? .json (m.sent 0 r.toJson) = some r ↔ m.Keeps 1 r.filters := by
  rw [ofDocument?_sent hm, ← Medium.dataWith?_sent (fun _ _ => Json.not_marked_of_read?) hr]
  show _ ↔ ((m.sent 1 r.filters).data? .json).map Json.normal = _
  cases (m.sent 1 r.filters).data? .json with
  | none => exact iff_of_false nofun nofun
  | some filters =>
    obtain ⟨old, sort, page⟩ := r
    simp

/-- Whatever comes back has the sorts and the page that were sent. -/
theorem rest_of_ofDocument?_sent (hm : m.TakesRequests) {r r' : Request}
    (h : ofDocument? .json (m.sent 0 r.toJson) = some r') : r'.sort = r.sort ∧ r'.page = r.page := by
  rw [ofDocument?_sent hm] at h
  obtain ⟨filters, -, rfl⟩ := Option.map_eq_some_iff.1 h
  exact ⟨rfl, rfl⟩

/-- The filter of a request that is read is plain data. -/
theorem normal_filters {format : Format} {d : Document} {r : Request} (h : ofDocument? format d = some r) :
    r.filters.normal = r.filters := by
  cases d with
  | object members =>
    obtain ⟨ms, -, h⟩ := Option.bind_eq_some_iff.1 h
    obtain ⟨r', -, h⟩ := Option.bind_eq_some_iff.1 h
    cases h
    exact Json.normal_normal _
  | leaf | list => cases h

/-- What comes back of a request, sent as data or as a text. -/
structure Returns (r : Request) : Prop where
  value : ofDocument? .json (.ofJson r.toJson) = some r ↔ ∀ part ∈ r.filters.parts 1, ¬ part.2.Marked
  text : read? r.toJson.compact = some r ↔ Medium.text.Keeps 1 r.filters
  rest : ∀ r', ofDocument? .json (.ofJson r.toJson) = some r' ∨ read? r.toJson.compact = some r' →
    r'.sort = r.sort ∧ r'.page = r.page

theorem returns {r : Request} (hr : r.filters.normal = r.filters) : Returns r where
  value := by
    rw [ofDocument?_ofJson, ofDocument?_sent_eq_some Medium.takesRequests_value hr, Medium.keeps_value]
  text := by rw [read?_compact, ofDocument?_sent_eq_some Medium.takesRequests_text hr]
  rest r' h := by
    rw [ofDocument?_ofJson, read?_compact] at h
    exact h.elim (rest_of_ofDocument?_sent Medium.takesRequests_value)
      (rest_of_ofDocument?_sent Medium.takesRequests_text)

/-- A request with plain data for a filter comes back exactly if its filter is kept, and so does every request that was
read, in whatever notations its sorts were written. Of the numbers in a filter a text keeps all integers of 64 bits. -/
theorem comes_back :
    (∀ r : Request, r.filters.normal = r.filters → Returns r) ∧
    (∀ d r, ofDocument? .json d = some r → Returns r) ∧
    (∀ j field direction, SortBy.ofJson? j = some ⟨field, direction⟩ ↔ SortBy.Carries j field direction) ∧
    ∀ n : Int, Int64.minValue.toInt ≤ n → n < UInt64.size → (Json.int n).reread? = some (.int n) :=
  ⟨fun _ hr => returns hr, fun _ _ h => returns (normal_filters h), fun _ _ _ => SortBy.ofJson?_eq_some,
    fun _ => Json.reread?_int⟩

/-- A request for the third page of a filtered list. -/
def thirdPage : Request where
  filters := .obj [("operator", .str "greater_than"), ("property", .str "id"), ("value", .int 7)]
  sort := [.desc "name", ⟨"id", none⟩]
  page := { page := 3, size := some 20, totalCount := true }

example : thirdPage.toJson.compact =
    "\x7b\"filters\":\x7b\"operator\":\"greater_than\",\"property\":\"id\",\"value\":7\x7d," ++
      "\"sort\":[\x7b\"field\":\"name\",\"direction\":\"desc\"\x7d,\x7b\"field\":\"id\"\x7d]," ++
      "\"page\":3,\"items_per_page\":20,\"navigation\":true,\"total_count\":true\x7d" := by
  decide +kernel

/-- The same request as a client may write it. -/
def thirdPageTyped : Json :=
  .obj [("page", .int 3), ("items_per_page", .int 20), ("total_count", .bool true),
    ("sort", .arr [.arr [.str "name", .str "desc"], .str "id"]),
    ("filters", .obj [("property", .str "id"), ("operator", .str "greater_than"), ("value", .int 7)])]

theorem comes_back_third_page :
    thirdPage.filters.normal = thirdPage.filters ∧ read? thirdPage.toJson.compact = some thirdPage ∧
      ofDocument? .json (.ofJson thirdPageTyped) = some thirdPage ∧
      ofDocument? .json (.ofJson thirdPage.toJson) = some thirdPage ∧
      SortBy.Carries (.arr [.str "name", .str "desc"]) "name" (some "desc") ∧
      (Json.int 18446744073709551615).reread? = some (.int 18446744073709551615) := by
  have hnormal : thirdPage.filters.normal = thirdPage.filters := rfl
  have htyped : ofDocument? .json (.ofJson thirdPageTyped) = some thirdPage := rfl
  have hseven : (Json.int 7).reread? = some (.int 7) := comes_back.2.2.2 7 (by decide) (by decide)
  have htext : Medium.text.Keeps 1 thirdPage.filters := by
    simp [thirdPage, Medium.keeps_obj, Json.Marked, Document.textKey, Json.depthLimit, Medium.text, hseven]
  have hvalue : Medium.value.Keeps 1 thirdPage.filters := by
    simp [thirdPage, Medium.keeps_obj, Json.Marked, Document.textKey, Medium.value]
  exact ⟨hnormal, (comes_back.1 thirdPage hnormal).text.2 htext, htyped,
    (comes_back.2.1 _ thirdPage htyped).value.2 (Medium.keeps_value.1 hvalue), (comes_back.2.2.1 _ _ _).1 rfl,
    comes_back.2.2.2 18446744073709551615 (by decide) (by decide)⟩

/-- The text of `3e23` is read as the double below it. -/
theorem reread?_threeE23 :
    (Json.float ⟨0x44CFC3842BD1F072⟩).reread? = some (.float ⟨0x44CFC3842BD1F071⟩) := by
  let n : Json.Numeral :=
    { whole := ['3'], exponent := some (false, ['2', '3']), digits_whole := ⟨nofun, by simp⟩, leading := by decide,
      digits_fraction := by simp, digits_exponent := by simp [Json.Digits] }
  have hcompact : (Json.float ⟨0x44CFC3842BD1F072⟩).compact = "3e+23" := by decide +kernel
  have hvalue : n.value? = some (.float ⟨0x44CFC3842BD1F071⟩) := by
    simp only [Json.Numeral.value?, Json.numberOf?, n]
    rw [Json.scale?]
    rfl
  have hreads := hvalue ▸ Json.reads_numeral n
  refine Json.reread?_of_reads ?_
  rw [hcompact]
  exact hreads

/-- Not every request comes back: an object may hold the text of a value in its place, the key that says so may stand
behind others in a document and comes first in the request, and the text of a number may be read as another. -/
theorem not_all_come_back :
    ofDocument? .json (.ofJson (toJson { filters := .obj [(Document.textKey, .str "null")] })) ≠
      some { filters := .obj [(Document.textKey, .str "null")] } ∧
    (ofDocument? .json (.object [(some "filters",
        .ofJson (.obj [("a", .int 1), (Document.textKey, .str "x")]))]) =
      some { filters := .obj [(Document.textKey, .str "x"), ("a", .int 1)] } ∧
      ofDocument? .json (.ofJson (toJson { filters := .obj [(Document.textKey, .str "x"), ("a", .int 1)] })) = none) ∧
    read? (toJson { filters := .float ⟨0x44CFC3842BD1F072⟩ }).compact ≠
      some { filters := .float ⟨0x44CFC3842BD1F072⟩ } := by
  refine ⟨fun h => ?_, ⟨rfl, rfl⟩, fun h => ?_⟩
  · have hkept := (returns (r := { filters := .obj [(Document.textKey, .str "null")] }) rfl).value.1 h
    exact hkept _ List.mem_cons_self rfl
  · have hkept := (returns (r := { filters := .float ⟨0x44CFC3842BD1F072⟩ }) rfl).text.1 h
    have hsame : (Json.float ⟨0x44CFC3842BD1F072⟩).reread? = some (.float ⟨0x44CFC3842BD1F072⟩) :=
      Medium.keeps_float.1 hkept
    rw [reread?_threeE23] at hsame
    cases hsame

end Request

end Listing
