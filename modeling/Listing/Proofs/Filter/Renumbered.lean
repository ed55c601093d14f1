import Mathlib.Data.Option.Defs
import Listing.Proofs.Filter.Pruned
import Listing.Proofs.Statement.Renamed
/-!
# Conditions with other numbers

A predicate with another number has other names for its parameters and is the same otherwise. Its comparison is
renamed with them if the field's raw texts have no such names and its renderer does not look at names
(`renamed_comparison`). So the conditions of a filter and of its twin are renamed (`renamed_condition`), and the
names stand for the same values in the parameters of both.
-/
open Listing.Bound (Inert IsName Reads Renamed Steady)

namespace Listing

/-! ## Raw texts and renderers -/

/-- No parameter of a condition is called so, whatever its field and its number are. -/
def Foreign (name : List Char) : Prop :=
  ∀ p : Predicate, (∃ f, p.OnField f) → .ofList (':' :: name) ∉ p.parameters.names

/-- The names of parameters have `_`. -/
theorem foreign_of_notMem {name : List Char} (h : '_' ∉ name) : Foreign name := by
  rintro p ⟨f, hf⟩ hname
  have hbase : '_' ∈ p.base.toList := by simp [hf.base, Predicate.toList_baseName, Predicate.nameOf]
  have hmem : '_' ∈ (String.ofList (':' :: name)).toList := by
    rcases Predicate.name_of_mem hname with hname | ⟨i, hname⟩
    · exact hname ▸ hbase
    · rw [hname, String.toList_append, String.toList_append]
      exact List.mem_append_left _ (List.mem_append_left _ hbase)
  simp [h] at hmem

/-- Text whose quotes are closed and whose colons outside quotes stand in pairs or in front of foreign names. -/
def Bound.Clear (s : String) : Prop := Steady (fun n n' => n = n' ∧ Foreign n) s

theorem Bound.Clear.steady {s : String} (h : Clear s) {R : List Char → List Char → Prop} (hR : ∀ n, Foreign n → R n n) :
    Steady R s := by
  refine Renamed.mono h ?_
  rintro n n' ⟨rfl, hn⟩
  exact hR n hn

/-- The renderer takes the names of parameters as they are: with other names it writes a renamed text. -/
def Renderer.Blind (r : Renderer) : Prop :=
  ∀ R : List Char → List Char → Prop, (∀ n, Foreign n → R n n) → ∀ (v : View) (rendered : String),
    Steady R v.expression → Renamed R v.rendered.toList rendered.toList →
      Renamed R (r v).toList (r { v with rendered }).toList

theorem Renderer.blind_plain : Renderer.plain.Blind := by
  intro R _ v rendered hexpression h
  have hspace : Inert " ".toList := Bound.inert_of_all (by decide)
  rw [plain, plain, String.append_assoc, String.append_assoc]
  exact Bound.renamed_append hexpression (hspace.renamed_prepend h) (Bound.breaks_append rfl rfl _)

theorem Renderer.blind_lower : Renderer.lower.Blind := by
  intro R _ v rendered hexpression h
  have hopening : Inert "lower(".toList := Bound.inert_of_all (by decide)
  have hclosing : Inert ") ".toList := Bound.inert_of_all (by decide)
  simp only [lower, String.append_assoc]
  exact hopening.renamed_prepend
    (Bound.renamed_append hexpression (hclosing.renamed_prepend h) (Bound.breaks_append rfl rfl _))

/-- The field's raw texts have no names of parameters, and its renderer does not look at them. -/
structure Field.Clear (f : Field) : Prop where
  expression : Bound.Clear f.expression
  outputName : Bound.Clear f.outputName
  renderer : ∀ r, f.renderer = some r → r.Blind

theorem Field.Clear.renderer? {f : Field} (h : f.Clear) {r : Renderer} (hr : f.renderer? = some r) : r.Blind := by
  unfold Field.renderer? at hr
  cases hown : f.renderer with
  | some own =>
    rw [hown, Option.some_or, Option.some.injEq] at hr
    exact hr ▸ h.renderer own hown
  | none =>
    rw [hown, Option.none_or] at hr
    split at hr
    · cases hr
      exact Renderer.blind_lower
    · cases hr

theorem Field.Clear.steady_sortExpression {f : Field} (h : f.Clear) {R : List Char → List Char → Prop}
    (hR : ∀ n, Foreign n → R n n) (wrapped : Bool) : Steady R (f.sortExpression wrapped) := by
  have hexpression : Steady R (if wrapped then f.outputName else f.expression) := by
    split
    · exact h.outputName.steady hR
    · exact h.expression.steady hR
  simp only [Field.sortExpression]
  split
  · exact Bound.renamed_enclosed (Bound.inert_of_all (by decide)) hexpression
  · exact hexpression

/-- All fields are clear. -/
def Catalog.Clear (c : Catalog) : Prop := ∀ name f, c.get? name = some f → f.Clear

/-! ## Predicates -/

namespace Predicate

variable {c : Catalog} {p p' : Predicate} {bag bag' : Bag}

theorem value_of_ofField {number : UInt32} {connective : Connective} {f : Field} {op : Operator} {raw : Json}
    (h : ofField number connective f op raw = .ok p) :
    ∃ v, Value.ofFilter raw = .ok v ∧ valueFor f op v = .ok p.value := by
  obtain ⟨v, hv, h⟩ := bind_eq_ok.1 h
  obtain ⟨value, hvalue, h⟩ := bind_eq_ok.1 h
  cases h
  exact ⟨v, hv, hvalue⟩

/-- What two predicates have in common that are one but for the number. -/
structure Same (c : Catalog) (p p' : Predicate) : Prop where
  connective : p'.connective = p.connective
  operator : p'.operator = p.operator
  value : p'.value = p.value
  made : p.Made
  field : ∃ name f, c.get? name = some f ∧ p.OnField f ∧ p'.OnField f

theorem Renumbered.same (h : p.Renumbered c p') : p.Same c p' := by
  obtain ⟨hfield, h, h'⟩ := h
  obtain ⟨-, hconnective, hoperator⟩ := Spec.ofField_eq_ok h'
  refine ⟨hconnective, hoperator, ?_, made_of_ofField h, _, _, hfield, onField_of_ofField h, onField_of_ofField h'⟩
  obtain ⟨v, hv, hvalue⟩ := value_of_ofField h
  obtain ⟨v', hv', hvalue'⟩ := value_of_ofField h'
  obtain rfl := Except.ok.inj (hv.symm.trans hv')
  exact Except.ok.inj (hvalue'.symm.trans hvalue)

theorem Same.expression (h : p.Same c p') (scope : Scope) : p'.expression scope = p.expression scope := by
  obtain ⟨name, f, -, hfield, hfield'⟩ := h.field
  cases scope with
  | inner => exact hfield'.inner.trans hfield.inner.symm
  | outer => exact hfield'.outer.trans hfield.outer.symm

theorem Same.aggregated (h : p.Same c p') : p'.aggregated = p.aggregated := by
  obtain ⟨name, f, -, hfield, hfield'⟩ := h.field
  exact hfield'.aggregated.trans hfield.aggregated.symm

theorem Same.renderer (h : p.Same c p') : p'.renderer = p.renderer := by
  obtain ⟨name, f, -, hfield, hfield'⟩ := h.field
  exact hfield'.renderer.trans hfield.renderer.symm

theorem Same.contributes (h : p.Same c p') (scope : Scope) : p'.contributes scope = p.contributes scope := by
  rw [Predicate.contributes, h.aggregated, h.expression, h.value, h.operator, Predicate.contributes]

/-- The bag has the predicate's parameters. -/
def Found (p : Predicate) (bag : Bag) : Prop := ∀ e ∈ p.parameters.entries, bag.get? e.1 = some e.2

/-- Names for one value are related. -/
theorem renamed_base (h : p.Same c p') {suffix : String} (hsuffix : suffix.toList.all Bound.isNameChar = true)
    {v : Value} (hv : bag.get? (p.base ++ suffix) = some v) (hv' : bag'.get? (p'.base ++ suffix) = some v) :
    Renamed (Reads bag bag') (p.base ++ suffix).toList (p'.base ++ suffix).toList := by
  obtain ⟨_, f, -, hfield, hfield'⟩ := h.field
  obtain ⟨name, hname, htext⟩ := exists_isName hfield hsuffix
  obtain ⟨name', hname', htext'⟩ := exists_isName hfield' hsuffix
  rw [← String.ofList_toList (s := p.base ++ suffix), htext] at hv
  rw [← String.ofList_toList (s := p'.base ++ suffix), htext'] at hv'
  rw [htext, htext']
  simpa using Renamed.name hname hname' (.inl ⟨v, hv, hv'⟩) Bound.breaks_nil .nil

theorem renamed_bounds (h : p.Same c p') (hfound : p.Found bag) (hfound' : p'.Found bag')
    (hrange : p.operator.isRange = true) {low high : Value} (hvalue : p.value = some (.list [low, high])) :
    Renamed (Reads bag bag') p.rendered.toList p'.rendered.toList := by
  have hnull := Operator.isNullCheck_of_isRange hrange
  have hrange' : p'.operator.isRange = true := h.operator ▸ hrange
  have hvalue' : p'.value = some (.list [low, high]) := h.value.trans hvalue
  simp only [Found, parameters_bounds hrange hvalue, parameters_bounds hrange' hvalue', List.mem_cons, List.not_mem_nil,
    or_false, forall_eq_or_imp, forall_eq] at hfound hfound'
  have hlow := renamed_base h (by decide) hfound.1 hfound'.1
  have hhigh := renamed_base h (by decide) hfound.2 hfound'.2
  have hfront : Inert (p.operator.sql ++ " ").toList :=
    Bound.inert_append (inert_sql p.operator) (Bound.inert_of_all (by decide))
  have hand : Inert " AND ".toList := Bound.inert_of_all (by decide)
  have htext : ∀ p : Predicate, p.operator.isRange = true → p.operator.isNullCheck = false →
      p.rendered = p.operator.sql ++ " " ++ ((p.base ++ "_0") ++ (" AND " ++ (p.base ++ "_1"))) := by
    intro p hrange hnull
    have hsplit : ∀ text : String, "_0 AND " ++ text = "_0" ++ (" AND " ++ text) := by
      intro text
      rw [← String.append_assoc]
      rfl
    simp only [rendered, hrange, hnull, if_true, Bool.false_eq_true, if_false, String.append_assoc, hsplit]
  rw [htext p hrange hnull, htext p' hrange' (h.operator ▸ hnull), h.operator]
  exact hfront.renamed_prepend
    (Bound.renamed_append hlow (hand.renamed_prepend hhigh) (Bound.breaks_append rfl rfl _))

theorem renamed_single (h : p.Same c p') (hfound : p.Found bag) (hfound' : p'.Found bag') {v : Value}
    (hnull : p.operator.isNullCheck = false) (hrange : p.operator.isRange = false) (hvalue : p.value = some v) :
    Renamed (Reads bag bag') p.rendered.toList p'.rendered.toList := by
  have hnull' : p'.operator.isNullCheck = false := h.operator ▸ hnull
  have hrange' : p'.operator.isRange = false := h.operator ▸ hrange
  have hbase : Renamed (Reads bag bag') p.base.toList p'.base.toList := by
    have hentry := hfound (p.base ++ "", bindable p.operator v) (by simp [parameters_scalar hnull hrange hvalue])
    have hentry' := hfound' (p'.base ++ "", bindable p.operator v)
      (by simp [parameters_scalar hnull' hrange' (h.value.trans hvalue), h.operator])
    simpa using renamed_base h (by decide) hentry hentry'
  have hsql := inert_sql p.operator
  simp only [rendered, h.operator, hnull, hrange, Bool.false_eq_true, if_false]
  split
  · exact Bound.renamed_enclosed (Bound.inert_append hsql (Bound.inert_of_all (by decide))) hbase
  · have hspace : Inert " ".toList := Bound.inert_of_all (by decide)
    exact (Bound.inert_append hsql hspace).renamed_prepend hbase

theorem renamed_rendered (h : p.Same c p') (hfound : p.Found bag) (hfound' : p'.Found bag')
    (hspeaks : p.value.isSome = true ∨ p.operator.isNullCheck = true) :
    Renamed (Reads bag bag') p.rendered.toList p'.rendered.toList := by
  cases hnull : p.operator.isNullCheck with
  | true =>
    have hnull' : p'.operator.isNullCheck = true := h.operator ▸ hnull
    rw [rendered, rendered, if_pos hnull, if_pos hnull', h.operator]
    exact (inert_sql p.operator).renamed
  | false =>
    obtain ⟨v, hvalue⟩ := Option.isSome_iff_exists.mp (hspeaks.resolve_right (by simp [hnull]))
    cases hrange : p.operator.isRange with
    | true =>
      obtain ⟨low, high, rfl⟩ := h.made.bounds hrange hvalue
      exact renamed_bounds h hfound hfound' hrange hvalue
    | false => exact renamed_single h hfound hfound' hnull hrange hvalue

/-- Predicates that are one but for the number are compared alike. -/
theorem renamed_comparison (h : p.Same c p') (hc : c.Clear)
    (hforeign : ∀ n, Foreign n → Reads bag bag' n n) (hfound : p.Found bag) (hfound' : p'.Found bag') {scope : Scope}
    (hspeaks : p.contributes scope = true) :
    Renamed (Reads bag bag') (p.comparison scope).toList (p'.comparison scope).toList := by
  obtain ⟨name, f, hf, hfield, -⟩ := h.field
  have hclear := hc name f hf
  have hexpression : Steady (Reads bag bag') (p.expression scope) := by
    cases scope with
    | inner =>
      rw [expression, hfield.inner]
      exact hclear.expression.steady hforeign
    | outer =>
      rw [expression, hfield.outer]
      exact hclear.outputName.steady hforeign
  have hblind : (p.renderer.getD Renderer.plain).Blind := by
    cases hr : p.renderer with
    | none => exact Renderer.blind_plain
    | some r => exact hclear.renderer? (hfield.renderer.symm.trans hr)
  have hvalue : p.value.isSome = true ∨ p.operator.isNullCheck = true := by
    simp only [Predicate.contributes, Bool.and_eq_true, Bool.or_eq_true] at hspeaks
    exact hspeaks.2
  rw [comparison, comparison, h.renderer, h.expression, h.operator]
  exact Bound.renamed_trim (hblind _ hforeign ⟨p.expression scope, p.operator, p.rendered⟩ p'.rendered hexpression
    (renamed_rendered h hfound hfound' hvalue))

end Predicate

/-! ## Filters -/

namespace Node

variable {c : Catalog} {bag bag' : Bag}

/-- One connective in front of two renamed texts. -/
inductive Spoken (R : List Char → List Char → Prop) : String → String → Prop
  | intro (connective : Connective) {text text' : String} (h : Renamed R text.toList text'.toList) :
      Spoken R (connective.sql ++ " " ++ text) (connective.sql ++ " " ++ text')

section
variable {R : List Char → List Char → Prop} {s s' : String}

theorem Spoken.renamed (h : Spoken R s s') : Renamed R s.toList s'.toList := by
  obtain ⟨connective, h⟩ := h
  have hfront : Inert (connective.sql ++ " ").toList := Bound.inert_of_all (by cases connective <;> decide)
  exact hfront.renamed_prepend h

theorem Spoken.trimConnective (h : Spoken R s s') : Renamed R (trimConnective s).toList (trimConnective s').toList := by
  obtain ⟨connective, h⟩ := h
  rw [trimConnective_behind, trimConnective_behind, String.toList_ofList, String.toList_ofList]
  exact h.trimFront

theorem spoken_intercalate {fs fs' : List String} (h : Spoken R s s') (hs : List.Forall₂ (Spoken R) fs fs') :
    Spoken R (String.intercalate " " (s :: fs)) (String.intercalate " " (s' :: fs')) := by
  have hspace : Inert " ".toList := Bound.inert_of_all (by decide)
  cases hs with
  | nil => simpa using h
  | cons ht hs =>
    obtain ⟨connective, h⟩ := h
    have hrest := Bound.renamed_intercalate (c := ' ') hspace (by decide) rfl
      ((List.Forall₂.cons ht hs).imp fun _ _ h => h.renamed)
    rw [String.intercalate_cons_cons, String.intercalate_cons_cons]
    simp only [String.append_assoc] at hrest ⊢
    have hjoined := Bound.renamed_append h (hspace.renamed_prepend hrest) (Bound.breaks_append rfl rfl _)
    simpa only [String.append_assoc] using Spoken.intro connective hjoined

end

/-! ### Compiling twins -/

theorem rel_enclose {R : List Char → List Char → Prop} (connective : Connective) {fs fs' : List String}
    (h : List.Forall₂ (Spoken R) fs fs') : Option.Rel (Spoken R) (enclose connective fs) (enclose connective fs') := by
  cases h with
  | nil => exact .none
  | cons h hs =>
    have htrimmed := (spoken_intercalate h hs).trimConnective
    have hsplit : ∀ text : String, connective.sql ++ " (" ++ text ++ ")" =
        connective.sql ++ " " ++ ("(" ++ text ++ ")") := by
      intro text
      have hparenthesis : " (" = " " ++ "(" := rfl
      simp only [hparenthesis, String.append_assoc]
    rw [enclose, enclose, if_neg (by simp), if_neg (by simp), hsplit, hsplit]
    exact .some (.intro connective (Bound.renamed_enclosed (Bound.inert_of_all (by decide)) htrimmed))

mutual

/-- Predicates without their values say nothing. -/
theorem compile_silent (scope : Scope) : ∀ n : Node, n.Silent → n.compile scope = none
  | predicate p, h => by
    have hmissing : p.missing = true := h p List.mem_cons_self
    simp only [Predicate.missing, Bool.and_eq_true, Option.isNone_iff_eq_none, Bool.not_eq_true'] at hmissing
    have hspeaks : p.contributes scope = false := by simp [Predicate.contributes, hmissing]
    rw [compile, Predicate.compile, if_neg (by simp [hspeaks])]
  | group _ _ children, h => by
    rw [compile, fragments_silent scope children h]
    rfl

theorem fragments_silent (scope : Scope) :
    ∀ ns : List Node, (∀ p ∈ allPredicates ns, p.missing = true) → fragments scope ns = []
  | [], _ => rfl
  | n :: rest, h => by
    rw [allPredicates, List.forall_mem_append] at h
    rw [fragments, compile_silent scope n h.1, fragments_silent scope rest h.2]

end

theorem fragments_cons (scope : Scope) (n : Node) (rest : List Node) :
    fragments scope (n :: rest) = (n.compile scope).toList ++ fragments scope rest := by
  rw [fragments]
  cases n.compile scope <;> rfl

theorem forall₂_toList {α : Type} {R : α → α → Prop} {a b : Option α} (h : Option.Rel R a b) :
    List.Forall₂ R a.toList b.toList := by
  cases h with
  | none => exact .nil
  | some h => exact .cons h .nil

theorem rel_compile (hc : c.Clear) (hforeign : ∀ n, Foreign n → Reads bag bag' n n) (scope : Scope)
    {p p' : Predicate} (h : p.Renumbered c p') (hfound : p.Found bag) (hfound' : p'.Found bag') :
    Option.Rel (Spoken (Reads bag bag')) (p.compile scope) (p'.compile scope) := by
  have hsame := h.same
  rw [Predicate.compile, Predicate.compile, hsame.contributes, hsame.connective]
  split
  · next hspeaks =>
    exact .some (.intro p.connective (Predicate.renamed_comparison hsame hc hforeign hfound hfound' hspeaks))
  · exact .none

mutual

/-- What a twin says is renamed, and is behind the same connective. -/
theorem compile_twin (hc : c.Clear) (hforeign : ∀ n, Foreign n → Reads bag bag' n n) (scope : Scope) :
    ∀ (n : Node) {n' : Node}, Twin c n n' → (∀ p ∈ n.predicates, p.Found bag) → (∀ p ∈ n'.predicates, p.Found bag') →
      Option.Rel (Spoken (Reads bag bag')) (n.compile scope) (n'.compile scope)
  | predicate p, _, .predicate _ h, hfound, hfound' =>
    rel_compile hc hforeign scope h (hfound p List.mem_cons_self) (hfound' _ List.mem_cons_self)
  | group _ connective ns, _, .group hs, hfound, hfound' =>
    rel_enclose connective (fragments_twins hc hforeign scope ns hs hfound hfound')
termination_by structural n => n

theorem fragments_twins (hc : c.Clear) (hforeign : ∀ n, Foreign n → Reads bag bag' n n) (scope : Scope) :
    ∀ (ns : List Node) {ns' : List Node}, Twins c ns ns' → (∀ p ∈ allPredicates ns, p.Found bag) →
      (∀ p ∈ allPredicates ns', p.Found bag') →
      List.Forall₂ (Spoken (Reads bag bag')) (fragments scope ns) (fragments scope ns')
  | [], _, .nil, _, _ => .nil
  | n :: ns, _, .keep h hs, hfound, hfound' => by
    rw [allPredicates, List.forall_mem_append] at hfound hfound'
    rw [fragments_cons, fragments_cons]
    exact List.rel_append (forall₂_toList (compile_twin hc hforeign scope n h hfound.1 hfound'.1))
      (fragments_twins hc hforeign scope ns hs hfound.2 hfound'.2)
  | n :: ns, _, .drop h hs, hfound, hfound' => by
    rw [allPredicates, List.forall_mem_append] at hfound
    rw [fragments_cons, compile_silent scope n h]
    exact fragments_twins hc hforeign scope ns hs hfound.2 hfound'
termination_by structural ns => ns

end

/-- The condition of what remains is renamed. -/
theorem renamed_condition (hc : c.Clear) (hforeign : ∀ n, Foreign n → Reads bag bag' n n) (scope : Scope)
    {n n' : Node} (h : Remains c n n') (hfound : ∀ p ∈ n.predicates, p.Found bag)
    (hfound' : ∀ p ∈ n'.predicates, p.Found bag') :
    List.Forall₂ (fun s s' => Renamed (Reads bag bag') s.toList s'.toList) (n.condition scope).toList
      (n'.condition scope).toList := by
  cases h with
  | twin h =>
    have hspoken := compile_twin hc hforeign scope n h hfound hfound'
    rw [condition, condition, Option.toList_map, Option.toList_map, List.forall₂_map_left_iff,
      List.forall₂_map_right_iff]
    exact (forall₂_toList hspoken).imp fun _ _ h => h.trimConnective
  | nothing hsilent =>
    rw [condition, compile_silent scope n hsilent]
    exact .nil

end Node
end Listing
