import Listing.Json.Token
import Listing.Proofs.Sql.Lexer
/-!
# What texts in quotes stand for

How PostgreSQL reads the text in the quotes of a token: a quote character that is written twice stands for
one, and behind `E` a backslash begins an escape. The named ones are `\b`, `\f`, `\n`, `\r` and `\t`, one to
three octal digits or `x` with one or two hexadecimal digits write a byte, `u` with four hexadecimal
digits a character, and any other character stands for itself. The bytes must be those of a text without
the character zero.
-/
namespace Listing.Sql

/-! ## Escapes -/

def isDigitOf (base : Nat) (c : Char) : Bool := (Json.hexValue? c).any (· < base)

/-- The digits of a base that a text begins with, not more than so many. -/
def digitsOf (base most : Nat) (cs : List Char) : List Char := (cs.take most).takeWhile (isDigitOf base)

/-- The number that digits of a base write. -/
def numberOf (base : Nat) (ds : List Char) : Nat := ds.foldl (fun n d => base * n + (Json.hexValue? d).getD 0) 0

/-- The bytes that stand for an escape, and how many characters it has behind its backslash. -/
def escape? : List Char → Option (List UInt8 × Nat)
  | [] => none
  | c :: cs =>
    if c = 'b' then some ([0x08], 1)
    else if c = 'f' then some ([0x0c], 1)
    else if c = 'n' then some ([0x0a], 1)
    else if c = 'r' then some ([0x0d], 1)
    else if c = 't' then some ([0x09], 1)
    else if isDigitOf 8 c then
      let ds := digitsOf 8 3 (c :: cs)
      some ([.ofNat (numberOf 8 ds)], ds.length)
    else if c = 'x' ∧ digitsOf 16 2 cs ≠ [] then
      let ds := digitsOf 16 2 cs
      some ([.ofNat (numberOf 16 ds)], ds.length + 1)
    else if c = 'u' then
      let ds := digitsOf 16 4 cs
      -- halves of a surrogate pair are no characters
      if ds.length = 4 ∧ (numberOf 16 ds).isValidChar then
        some (String.utf8EncodeChar (.ofNat (numberOf 16 ds)), 5)
      else none
    else some (String.utf8EncodeChar c, 1)

/-! ## Quoted text -/

/-- The bytes of what quotes hold. Some characters are passed over unread: those of an escape, a quote
character behind another, and a seam with the quote character behind it. -/
def bytes? (kind : Quoting) : Nat → List Char → Option (List UInt8)
  | _, [] => some []
  | unread + 1, _ :: cs => bytes? kind unread cs
  | 0, c :: cs =>
    if c = kind.mark then
      let gap := cs.takeWhile isSpace
      (bytes? kind (gap.length + 1) cs).map ((if gap.isEmpty then String.utf8EncodeChar c else []) ++ ·)
    else if kind.isEscaped && c == '\\' then
      (escape? cs).bind fun (found, unread) => (bytes? kind unread cs).map (found ++ ·)
    else (bytes? kind 0 cs).map (String.utf8EncodeChar c ++ ·)

/-- The text of bytes; there is none with the character zero. -/
def textOf? (bytes : List UInt8) : Option String :=
  (String.fromUTF8? bytes.toByteArray).filter fun s => '\x00' ∉ s.toList

/-- The text that a token stands for, if it is text in quotes. -/
def Token.value? : Token → Option String
  | quoted kind body => if kind.isText then (bytes? kind 0 body).bind textOf? else none
  | mark _ | word _ | slot _ => none

/-- The text that a literal stands for; it has to be one token. -/
def literal? (cs : List Char) : Option String :=
  match lex cs with
  | some [t] => t.value?
  | _ => none

section
variable {kind : Quoting}

theorem bytes?_char {c : Char} (hmark : c ≠ kind.mark) (hescape : (kind.isEscaped && c == '\\') = false)
    (cs : List Char) : bytes? kind 0 (c :: cs) = (bytes? kind 0 cs).map (String.utf8EncodeChar c ++ ·) := by
  rw [bytes?, if_neg hmark, hescape]
  rfl

/-- An escape of one character. -/
theorem bytes?_escape (hkind : kind.isEscaped = true) {c : Char} {cs : List Char} {found : List UInt8}
    (h : escape? (c :: cs) = some (found, 1)) :
    bytes? kind 0 ('\\' :: c :: cs) = (bytes? kind 0 cs).map (found ++ ·) := by
  have hmark : '\\' ≠ kind.mark := by cases kind <;> simp [Quoting.mark]
  rw [bytes?, if_neg hmark, hkind, h]
  rfl

end

/-- The encoding of a text is read as that text. -/
theorem textOf?_encoded {cs : List Char} (h : '\x00' ∉ cs) :
    textOf? (cs.flatMap String.utf8EncodeChar) = some (.ofList cs) := by
  have hread : String.fromUTF8? cs.utf8Encode = some (.ofList cs) := by
    rw [String.fromUTF8?, dif_pos ByteArray.isValidUTF8_utf8Encode]
    rfl
  have hzero : decide ('\x00' ∉ (String.ofList cs).toList) = true := by simpa using h
  rw [textOf?, ← List.utf8Encode, hread, Option.filter_some, if_pos hzero]

theorem literal?_token {t : Token} (h : t.Stands []) : literal? t.text = t.value? := by
  have hlex : lex (text [t]) = some [t] := lex_text ⟨h, trivial⟩
  rw [text_cons, text_nil, List.append_nil] at hlex
  rw [literal?, hlex]

example : literal? "E'caf\\303\\251 \\x41\\u00e9''\\\\'".toList = some "café Aé'\\" := by decide +kernel

end Listing.Sql
