import Listing.Command.Outcome
import Listing.Proofs.Config
import Listing.Proofs.Json.Printed
import Listing.Proofs.Param.Decoded
import Listing.Proofs.Query.Calls
/-!
# Explanations and calls

`explain` prints the statements of a request without a database, `fetch` calls a database with them. Each
picks the size of the page, settles whether rows are counted and binds for itself. Both follow the same cases
of a request, refused or admitted (`explain_of_refuses`, `explain_of_admits`, `ListQuery.Course`), and what is
printed is an object with the statements in it (`Explanation.shownBy_toJson`, `prints_document`). So the statements
that a reader finds in it are those that are called (`explain_foretells`).
-/
namespace Listing

namespace ListQuery

variable {q : ListQuery} {r : Request}

theorem explain_of_refuses {err : Error} (h : q.Refuses r err) :
    ∃ step, q.explain q.limits.default r = .error ⟨step, err⟩ := by
  rcases h.stops with h | ⟨p, hp, h⟩
  · refine ⟨.compiling, ?_⟩
    rw [explain, h]
    rfl
  · refine ⟨.paging, ?_⟩
    rw [explain, hp, Explanation.during, ok_bind, h]
    rfl

theorem explain_of_admits {p : Prepared} {b : Bound} (h : q.Admits r p b) :
    q.explain q.limits.default r = .ok
      { platform := q.platform, aggregated := p.aggregated, page := b,
        count := if r.page.totalCount then some p.count else none } := by
  rw [explain, h.prepared, Explanation.during, ok_bind, h.page]
  rfl

end ListQuery

/-- The calls are for the statements of the explanation: the rows of its page, then perhaps its count. -/
inductive Explanation.Covers (x : Explanation) : List Call → Prop
  | page : x.Covers [.rows x.page]
  | counted {b : Bound} (h : x.count = some b) : x.Covers [.rows x.page, .count b]

/-! ## What is printed -/

/-- A value is written as a JSON value and read from it; only for a double that is no number there is but a null. -/
structure Value.WrittenAs (v : Value) (j : Json) : Prop where
  written : j = v.toJson
  read : v.Finite → Value.ofJson? j = some v

/-- An object has a statement's text, and its values in their order. -/
structure Bound.ShownBy (b : Bound) (members : Json.Members) : Prop where
  sql : Json.member? "sql" members = some (.str b.sql)
  params : ∃ items, Json.member? "params" members = some (.arr items) ∧ List.Forall₂ Value.WrittenAs b.params items

namespace Explanation

/-- An object has the statement of the page, and the statement that counts or else a null. -/
structure ShownBy (x : Explanation) (members : Json.Members) : Prop where
  page : ∃ statement, Json.member? "page" members = some (.obj statement) ∧ x.page.ShownBy statement
  counted : ∀ b, x.count = some b →
    ∃ statement, Json.member? "count" members = some (.obj statement) ∧ b.ShownBy statement
  uncounted : x.count = none → Json.member? "count" members = some .null

theorem shownBy_statementToJson (p : Platform) (b : Bound) :
    ∃ members, statementToJson p b = .obj members ∧ b.ShownBy members := by
  refine ⟨_, rfl, rfl, _, rfl, ?_⟩
  rw [List.forall₂_map_right_iff, List.forall₂_same]
  exact fun v _ => ⟨rfl, Value.ofJson?_toJson v⟩

theorem shownBy_toJson (x : Explanation) : ∃ members, x.toJson = .obj members ∧ x.ShownBy members := by
  have hstatement : ∀ b, ∃ statement, some (statementToJson x.platform b) = some (.obj statement) ∧
      b.ShownBy statement := by
    intro b
    obtain ⟨statement, hstatement, hshown⟩ := shownBy_statementToJson x.platform b
    exact ⟨statement, congrArg some hstatement, hshown⟩
  obtain ⟨platform, aggregated, page, count⟩ := x
  cases count with
  | none => exact ⟨_, rfl, hstatement page, nofun, fun _ => rfl⟩
  | some b =>
    refine ⟨_, rfl, hstatement page, fun b' hb' => ?_, nofun⟩
    cases hb'
    exact hstatement b

/-! ## What is called -/

/-- How explaining a request goes together with an answer to it and the calls for that. -/
inductive Matches : Except Refusal Explanation → Except Error PageResult → List Call → Prop
  | refused (refusal : Refusal) : Matches (.error refusal) (.error refusal.error) []
  | called {x : Explanation} (answer : Except Error PageResult) {calls : List Call} (h : x.Covers calls) :
      Matches (.ok x) answer calls

theorem matches_course {q : ListQuery} {r : Request} {e : Executor} {answer : Except Error PageResult}
    {calls : List Call} (h : q.Course r e answer calls) : Matches (q.explain q.limits.default r) answer calls := by
  cases h with
  | refused h =>
    obtain ⟨step, hstep⟩ := ListQuery.explain_of_refuses h
    rw [hstep]
    exact .refused ⟨step, _⟩
  | unread h | read h =>
    rw [ListQuery.explain_of_admits h]
    exact .called _ .page
  | uncounted h _ hasks | counted h _ hasks =>
    rw [ListQuery.explain_of_admits h]
    exact .called _ (.counted (if_pos hasks.2.1))

end Explanation

namespace Command

/-- A text writes an object with an explanation's statements: it is laid out from that object and read as that object,
but for what the texts of its numbers are read as. -/
def Prints (text : String) (x : Explanation) : Prop :=
  ∃ members, text = document (.obj members) ∧ Json.document? text = some (Medium.text.sent 0 (.obj members)) ∧
    x.ShownBy members

theorem prints_document (x : Explanation) : Prints (document x.toJson) x := by
  obtain ⟨members, hmembers, hshown⟩ := x.shownBy_toJson
  refine ⟨members, by rw [hmembers], ?_, hshown⟩
  have hreads : Json.Reads (document x.toJson).toList x.toJson.printed := by
    rw [document, String.toList_append]
    exact x.toJson.reads_pretty.append_blanks (List.forall_mem_singleton.2 (by decide))
  rw [Json.document?_of_reads hreads, hmembers]

/-- What the command line prints for a request goes together with the answer to it and the calls for that. -/
structure Foretells (q : ListQuery) (size : UInt64) (r : Request) (printed : Except (List String) String)
    (answer : Except Error PageResult) (calls : List Call) : Prop where
  /-- Something is printed if and only if something is called. -/
  reaches : (∃ text, printed = .ok text) ↔ calls ≠ []
  /-- If not, the reasons end with the error of the answer. -/
  refused : calls = [] → ∃ (step : Explanation.Step) (err : Error), q.explain size r = .error ⟨step, err⟩ ∧
    printed = .error [step.description, err.message] ∧ answer = .error err
  /-- The statements that are printed are those that are called. -/
  shown : ∀ text, printed = .ok text → ∃ x, q.explain size r = .ok x ∧ Prints text x ∧ x.Covers calls

theorem foretells_of_matches {q : ListQuery} {size : UInt64} {r : Request} {answer : Except Error PageResult}
    {calls : List Call} {printed : Except (List String) String}
    (hprinted : printed = match q.explain size r with
      | .error refusal => .error refusal.reasons
      | .ok x => .ok (document x.toJson))
    (h : Explanation.Matches (q.explain size r) answer calls) : Foretells q size r printed answer calls := by
  generalize hx : q.explain size r = explained at h hprinted
  cases h with
  | refused refusal =>
    subst hprinted
    exact ⟨by simp, fun _ => ⟨refusal.step, refusal.error, hx, rfl, rfl⟩, nofun⟩
  | @called x answer calls h =>
    subst hprinted
    have hcalls : calls ≠ [] := by cases h <;> simp
    refine ⟨by simp [hcalls], fun hnone => absurd hnone hcalls, fun text htext => ⟨x, hx, ?_, h⟩⟩
    cases htext
    exact prints_document x

/-- Lists are loaded with the page sizes of the configuration. -/
theorem limits_of_loadList {files : Files} {config : Config} {path : String} {q : ListQuery}
    (h : loadList files config path = .ok q) : q.limits = config.pageLimits := by
  obtain ⟨d, _, h⟩ := bind_eq_ok.1 h
  split at h
  · cases h
  · cases h
    rfl

/-- With every accepted configuration, for every list and request and whatever the database answers, `explain`
prints the statements that are called, or fails with the error that the request is refused with. -/
theorem explain_foretells {env : Config.Environment} {config : Config} {files : Files} {definition request : String}
    {q : ListQuery} {r : Request} (hconfig : Config.ofEnvironment env = .ok config)
    (hlist : loadList files config definition = .ok q) (hrequest : loadRequest files request = .ok r) (e : Executor) :
    Foretells q config.itemsPerPage r (execute env files (.explain definition request))
      ((q.fetch r).run e).1 ((q.fetch r).run e).2 := by
  have hlimits := limits_of_loadList hlist
  have hdefault : config.itemsPerPage = q.limits.default := by rw [hlimits, Config.pageLimits]
  have hmax : 1 ≤ q.limits.max := by
    obtain ⟨hleast, hle⟩ := Config.limits_of_ofEnvironment hconfig
    rw [hlimits]
    exact UInt64.le_trans hleast hle
  refine foretells_of_matches ?_ ?_
  · simp only [execute, hconfig, output, hlist, hrequest, ok_bind]
    cases q.explain config.itemsPerPage r <;> rfl
  · rw [hdefault]
    exact Explanation.matches_course (ListQuery.course_run hmax e)

/-- Not more than three rows on a page. -/
def threeRows : Config.Environment := fun name => if name = "SPS_MAX_ITEMS_PER_PAGE" then some "3" else none

/-- The list of cantons and two requests for it. -/
def cantonFiles : Files := fun path =>
  match path with
  | "cantons.json" => some "\x7b\"skeleton\": \x7b\"select\": [\"c.name\"], \"from\": \"canton\", \"from_alias\": \"c\"\x7d\x7d"
  | "third.json" => some "\x7b\"page\": 3, \"total_count\": true\x7d"
  | _ => none

theorem explain_foretells_cantons :
    ∃ config q r, Config.ofEnvironment threeRows = .ok config ∧ loadList cantonFiles config "cantons.json" = .ok q ∧
      loadRequest cantonFiles "third.json" = .ok r ∧
      (execute threeRows cantonFiles (.explain "cantons.json" "third.json")).isOk = true ∧
      Foretells q config.itemsPerPage r (execute threeRows cantonFiles (.explain "cantons.json" "third.json"))
        ((q.fetch r).run ListQuery.uncounting).1 ((q.fetch r).run ListQuery.uncounting).2 := by
  have hloads : (Config.ofEnvironment threeRows >>= fun config =>
      loadList cantonFiles config "cantons.json").isOk = true := by decide +kernel
  have hreads : (loadRequest cantonFiles "third.json").isOk = true := by decide +kernel
  have hprints : (execute threeRows cantonFiles (.explain "cantons.json" "third.json")).isOk = true := by
    decide +kernel
  obtain ⟨q, hloaded⟩ := exists_of_isOk hloads
  obtain ⟨config, hconfig, hlist⟩ := bind_eq_ok.1 hloaded
  obtain ⟨r, hrequest⟩ := exists_of_isOk hreads
  exact ⟨config, q, r, hconfig, hlist, hrequest, hprints, explain_foretells hconfig hlist hrequest _⟩

end Command
end Listing
