import Listing.Proofs.Condition.References
import Listing.Proofs.Statement.Numbered
/-!
# Identifiers in quotes

A quote character inside of an identifier is written twice. Neither scanner of a statement knows that: each takes the
first one for the end of the quotes and the second one for new quotes. So it is outside of quotes only between the two,
where nothing can stand, and behind the identifier. That holds of any text in quotes of the kind that it knows, for
parameters (`Platform.bind_quote_append`) and for placeholders (`Bound.inlineTexts_quote_append`). What is written can
be told apart by platform and name (`Platform.quote_eq_quote_iff`).
-/
namespace Listing

/-! ## Scanning for placeholders -/

namespace Inlined

/-- Between its quotes every character of an identifier is copied, and the scanner stays in the quotes. -/
theorem pieces_inQuotes {q : Char} (hq : isQuote q = true) (c : Char) (rest : List Char) :
    pieces (.quoted q) (Raw.inQuotes q c ++ rest) = (Raw.inQuotes q c).map .char ++ pieces (.quoted q) rest := by
  unfold Raw.inQuotes
  split
  · -- the first of the two leaves the quotes and the second enters them again
    have hleave : pieces (.quoted q) (q :: q :: rest) = .char q :: pieces .plain (q :: rest) := by
      rw [pieces_cons, step, if_pos rfl]
      rfl
    rw [List.cons_append, List.cons_append, List.nil_append, hleave, pieces_quote hq]
    rfl
  · next hc =>
    rw [List.singleton_append, pieces_cons, step, if_neg hc]
    rfl

theorem pieces_quoteWith {q : Char} (hq : isQuote q = true) (identifier rest : List Char) :
    pieces .plain (Platform.quoteWith q identifier ++ rest) =
      (Platform.quoteWith q identifier).map .char ++ pieces .plain rest := by
  have hinside : pieces (.quoted q) (identifier.flatMap (Raw.inQuotes q) ++ q :: rest) =
      (identifier.flatMap (Raw.inQuotes q) ++ [q]).map .char ++ pieces .plain rest := by
    induction identifier with
    | nil =>
      rw [List.flatMap_nil, List.nil_append, pieces_cons, step, if_pos rfl]
      rfl
    | cons c identifier ih =>
      rw [List.flatMap_cons, List.append_assoc, pieces_inQuotes hq, ih]
      simp
  rw [Raw.quoteWith_eq, List.append_assoc, List.cons_append, List.singleton_append, pieces_quote hq, hinside]
  simp

end Inlined

theorem Bound.inlineTexts_quote_append {p : Platform} (hq : Inlined.isQuote p.quoteChar = true) (name sql : String)
    (params : List Value) :
    inlineTexts ⟨p.quote name ++ sql, params⟩ =
      ⟨p.quote name ++ (inlineTexts ⟨sql, params⟩).sql, (inlineTexts ⟨sql, params⟩).params⟩ := by
  have htext : (p.quote name).toList = Platform.quoteWith p.quoteChar name.toList := String.toList_ofList
  simp only [inlineTexts, String.toList_append, htext, Inlined.pieces_quoteWith hq, Inlined.fill_chars,
    String.ofList_append]
  rw [← htext, String.ofList_toList]

/-! ## Binding -/

namespace Platform

theorem bind_quote_append (p : Platform) (name sql : String) (bag : Bag) :
    p.bind (p.quote name ++ sql) bag = ⟨p.quote name ++ (p.bind sql bag).sql, (p.bind sql bag).params⟩ :=
  p.bind_inert_append bag (Bound.inert_quote p name) sql

/-- Platforms with different quote characters write no two identifiers alike, others only the same ones. -/
theorem quote_eq_quote_iff {p p' : Platform} {name name' : String} :
    p.quote name = p'.quote name' ↔ p.quoteChar = p'.quoteChar ∧ name = name' := by
  constructor
  · intro h
    have hchar : p.quoteChar = p'.quoteChar := by
      have hlists := String.ofList_injective h
      rw [Raw.quoteWith_eq, Raw.quoteWith_eq] at hlists
      exact (List.cons.inj hlists).1
    have hsame : p'.quote name = p.quote name := by rw [quote, quote, hchar]
    exact ⟨hchar, Raw.quote_injective p' (hsame.trans h)⟩
  · rintro ⟨hchar, rfl⟩
    rw [quote, quote, hchar]

/-- An identifier in quotes is opaque, whatever characters it has. Binding copies it and goes on as if the text behind
it stood alone, with the same values; so does writing texts into a statement for PostgreSQL. Names that differ do so in
quotes, on one platform and on two. -/
theorem quote_opaque (p : Platform) (name : String) :
    (∀ bag sql, p.bind (p.quote name ++ sql) bag = ⟨p.quote name ++ (p.bind sql bag).sql, (p.bind sql bag).params⟩) ∧
    (∀ params sql, Bound.inlineTexts ⟨postgres.quote name ++ sql, params⟩ =
      ⟨postgres.quote name ++ (Bound.inlineTexts ⟨sql, params⟩).sql, (Bound.inlineTexts ⟨sql, params⟩).params⟩) ∧
    ∀ (p' : Platform) (name' : String), p.quote name = p'.quote name' ↔ p.quoteChar = p'.quoteChar ∧ name = name' := by
  refine ⟨fun bag sql => p.bind_quote_append name sql bag, fun params sql => ?_, fun p' name' => quote_eq_quote_iff⟩
  exact Bound.inlineTexts_quote_append rfl name sql params

example :
    postgres.bind (postgres.quote "a\x22:n$1" ++ " = :n") ⟨[(":n", .int 5)]⟩ =
      ⟨"\x22a\x22\x22:n$1\x22 = $1", [.int 5]⟩ := rfl

end Platform
end Listing
