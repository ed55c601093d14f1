import Listing.Json.Token
/-!
# Scalars of TOML

Keys, strings, numbers, dates and times as TOML 1.0 writes them. Each reader takes its value off the
front of a text and gives the rest.
-/
namespace Listing.Toml

abbrev Reader (α : Type) := List Char → Option (α × List Char)

/-- Characters that may stand in comments and literal strings of one line. -/
def isPrintable (c : Char) : Bool := c == '\t' || (0x20 ≤ c.toNat && c.toNat ≠ 0x7F)

/-- Blanks within a line. -/
def dropSpaces (cs : List Char) : List Char := cs.dropWhile fun c => c == ' ' || c == '\t'

/-- The rest after a new line. -/
def newLine? : List Char → Option (List Char)
  | '\n' :: rest => some rest
  | '\r' :: '\n' :: rest => some rest
  | _ => none

/-! ## Strings -/

/-- What an escape stands for, the backslash already read. -/
def escape? : Reader Char
  | [] => none
  | e :: rest =>
    if e = 'u' then codePoint? 4 rest
    else if e = 'U' then codePoint? 8 rest
    else if e = '/' then none
    else (Json.unescape? e).map (·, rest)
where
  codePoint? (count : Nat) (cs : List Char) : Option (Char × List Char) :=
    if cs.length < count then none
    else do
      let n ← Json.hexNumber? (cs.take count)
      if n < 0xD800 ∨ (0xE000 ≤ n ∧ n < 0x110000) then some (Char.ofNat n, cs.drop count) else none

/-- A basic string of one line, behind its opening quote. -/
def basic? (cs : List Char) : Option (List Char × List Char) :=
  match cs with
  | [] => none
  | c :: rest =>
    if c = '\x22' then some ([], rest)
    else if c = '\\' then do
      let (u, after) ← escape? rest
      if after.length ≤ rest.length then
        let (s, after) ← basic? after
        return (u :: s, after)
      else none
    else if isPrintable c then do
      let (s, after) ← basic? rest
      return (c :: s, after)
    else none
termination_by cs.length

/-- A literal string of one line, behind its opening quote. -/
def literal? : Reader (List Char)
  | [] => none
  | c :: rest =>
    if c = '\x27' then some ([], rest)
    else if isPrintable c then (literal? rest).map fun (s, after) => (c :: s, after)
    else none

/-- Quotes that close a string of several lines: three, with up to two more that belong to it. -/
def closing? (q : Char) (cs : List Char) : Option (List Char × List Char) :=
  let n := (cs.takeWhile (· == q)).length
  if n < 3 then none
  else
    let inside := min (n - 3) 2
    some (List.replicate inside q, cs.drop (inside + 3))

/-- The rest behind a backslash at the end of a line: blanks and new lines are skipped. -/
def joinLine? (cs : List Char) : Option (List Char) :=
  match newLine? (dropSpaces cs) with
  | none => none
  | some rest => some (skip rest)
where
  skip : List Char → List Char
    | '\r' :: '\n' :: rest => skip rest
    | c :: rest => if c = ' ' ∨ c = '\t' ∨ c = '\n' then skip rest else c :: rest
    | [] => []

/-- A string of several lines, behind its opening quotes and the first new line. -/
def lines? (q : Char) (escapes : Bool) (cs : List Char) : Option (List Char × List Char) :=
  match closing? q cs with
  | some (s, after) => some (s, after)
  | none =>
    match cs with
    | [] => none
    | c :: rest =>
      let go (s : List Char) (after : List Char) : Option (List Char × List Char) :=
        if after.length ≤ rest.length then (lines? q escapes after).map fun (t, after) => (s ++ t, after)
        else none
      match newLine? cs with
      | some after => go ['\n'] after
      | none =>
        if escapes && c == '\\' then
          match joinLine? rest with
          | some after => go [] after
          | none => do
            let (u, after) ← escape? rest
            go [u] after
        else if isPrintable c then go [c] rest
        else none
termination_by cs.length

/-- The text behind a first new line, if it begins with one. -/
def dropNewLine (cs : List Char) : List Char := (newLine? cs).getD cs

/-- A string of any of the four kinds. -/
def string? : Reader String
  | '\x22' :: '\x22' :: '\x22' :: rest => text (lines? '\x22' true (dropNewLine rest))
  | '\x22' :: rest => text (basic? rest)
  | '\x27' :: '\x27' :: '\x27' :: rest => text (lines? '\x27' false (dropNewLine rest))
  | '\x27' :: rest => text (literal? rest)
  | _ => none
where
  text (r : Option (List Char × List Char)) : Option (String × List Char) :=
    r.map fun (s, after) => (.ofList s, after)

/-! ## Keys -/

def isBare (c : Char) : Bool := c.isAlphanum || c == '_' || c == '-'

/-- One part of a key. -/
def keyPart? (cs : List Char) : Option (String × List Char) :=
  match cs with
  | '\x22' :: rest => (basic? rest).map fun (s, after) => (.ofList s, after)
  | '\x27' :: rest => (literal? rest).map fun (s, after) => (.ofList s, after)
  | cs =>
    match cs.takeWhile isBare with
    | [] => none
    | s => some (.ofList s, cs.dropWhile isBare)

/-- A key: parts with dots between them. -/
def key? (cs : List Char) : Option (List String × List Char) := do
  let (part, after) ← keyPart? (dropSpaces cs)
  match dropSpaces after with
  | '.' :: rest =>
    if rest.length < cs.length then
      let (parts, after) ← key? rest
      return (part :: parts, after)
    else none
  | after => return ([part], after)
termination_by cs.length

/-! ## Numbers -/

/-- Digits with single underscores between them, and the rest. -/
def digits? (isDigit : Char → Bool) (cs : List Char) : Option (List Char × List Char) :=
  match cs with
  | [] => none
  | c :: rest => if isDigit c then let (ds, after) := more rest; some (c :: ds, after) else none
where
  more : List Char → List Char × List Char
    | '_' :: d :: rest =>
      if isDigit d then let (ds, after) := more rest; (d :: ds, after) else ([], '_' :: d :: rest)
    | d :: rest =>
      if isDigit d then let (ds, after) := more rest; (d :: ds, after) else ([], d :: rest)
    | [] => ([], [])

/-- A sign, and whether it is a minus. -/
def sign : List Char → Bool × List Char
  | '+' :: rest => (false, rest)
  | '-' :: rest => (true, rest)
  | cs => (false, cs)

/-- Decimal digits without a zero in front of others. -/
def whole? (cs : List Char) : Option (List Char × List Char) :=
  match cs with
  | '0' :: rest => some (['0'], rest)
  | cs => digits? Char.isDigit cs

/-- An exponent behind its letter. -/
def exponent? (cs : List Char) : Option (Int × List Char) := do
  let (negative, cs) := sign cs
  let (ds, after) ← digits? Char.isDigit cs
  let n : Int := Text.digitsToNat ds
  return (if negative then -n else n, after)

/-- The double of a whole number, a fraction and an exponent; too large a positive one is refused. -/
def double? (negative : Bool) (whole fraction : List Char) (exponent : Int) : Option Json :=
  let n := Text.digitsToNat (whole ++ fraction)
  let e := exponent - fraction.length
  let x : Double :=
    if n = 0 ∨ e + (whole ++ fraction).length < -400 then .ofMagnitude negative 0
    else if 400 < e then .ofMagnitude negative Double.infinityBits
    else .ofDecimal negative n e
  if x.isInfinite && !negative then none else some (.float x)

/-- A number with a fraction or an exponent. -/
def float? (cs : List Char) : Option (Json × List Char) := do
  let (negative, cs) := sign cs
  match cs with
  | 'i' :: 'n' :: 'f' :: rest => return (.float (.ofMagnitude negative Double.infinityBits), rest)
  | 'n' :: 'a' :: 'n' :: rest => return (.float (.ofMagnitude negative Double.quietBits), rest)
  | _ =>
    let (whole, cs) ← whole? cs
    let (fraction, cs, point) ← match cs with
      | '.' :: rest => (digits? Char.isDigit rest).map fun (ds, after) => (ds, after, true)
      | cs => some ([], cs, false)
    match cs with
    | c :: rest =>
      if c = 'e' ∨ c = 'E' then
        let (e, after) ← exponent? rest
        return (← double? negative whole fraction e, after)
      else if point then return (← double? negative whole fraction 0, cs)
      else none
    | [] => if point then return (← double? negative whole fraction 0, []) else none

/-- A whole number that 64 signed bits hold. -/
def bounded? (n : Int) (after : List Char) : Option (Json × List Char) :=
  if Int64.minValue.toInt ≤ n ∧ n ≤ Int64.maxValue.toInt then some (.int n, after) else none

/-- A whole number of another base, behind its letter. -/
def based? (base : Nat) (cs : List Char) : Option (Json × List Char) := do
  let isDigit (c : Char) : Bool := (Json.hexValue? c).any (· < base)
  let (ds, after) ← digits? isDigit cs
  bounded? (ds.foldl (fun n d => base * n + (Json.hexValue? d).getD 0) 0 : Nat) after

/-- A whole number. -/
def integer? (cs : List Char) : Option (Json × List Char) :=
  match cs with
  | '0' :: 'x' :: rest => based? 16 rest
  | '0' :: 'o' :: rest => based? 8 rest
  | '0' :: 'b' :: rest => based? 2 rest
  | cs => do
    let (negative, cs) := sign cs
    let (ds, after) ← whole? cs
    let n : Int := Text.digitsToNat ds
    bounded? (if negative then -n else n) after

/-! ## Dates and times -/

/-- A number of exactly so many digits within bounds. -/
def field? (count low high : Nat) (cs : List Char) : Option (Nat × List Char) :=
  let ds := cs.take count
  let n := Text.digitsToNat ds
  if ds.length = count ∧ ds.all Char.isDigit ∧ low ≤ n ∧ n ≤ high then some (n, cs.drop count) else none

/-- The rest behind a character. -/
def mark? (c : Char) : List Char → Option (List Char)
  | d :: rest => if c = d then some rest else none
  | [] => none

def daysIn (year month : Nat) : Nat :=
  if month = 2 then if year % 4 = 0 ∧ (year % 100 ≠ 0 ∨ year % 400 = 0) then 29 else 28
  else if month ∈ [4, 6, 9, 11] then 30
  else 31

/-- A number with zeros in front up to a width. -/
def padded (width n : Nat) : String :=
  let ds := Nat.toDigits 10 n
  .ofList (List.replicate (width - ds.length) '0' ++ ds)

def date? (cs : List Char) : Option (String × List Char) := do
  let (year, cs) ← field? 4 0 9999 cs
  let (month, cs) ← field? 2 1 12 (← mark? '-' cs)
  let (day, cs) ← field? 2 1 (daysIn year month) (← mark? '-' cs)
  return (padded 4 year ++ "-" ++ padded 2 month ++ "-" ++ padded 2 day, cs)

/-- Fractions of a second, nine digits of them, without zeros at the end. -/
def secondFraction? (cs : List Char) : Option (String × List Char) :=
  match cs with
  | '.' :: rest =>
    match rest.takeWhile Char.isDigit with
    | [] => none
    | ds =>
      let kept := ((ds.take 9).reverse.dropWhile (· == '0')).reverse
      some (if kept.isEmpty then "" else "." ++ .ofList kept, rest.dropWhile Char.isDigit)
  | cs => some ("", cs)

def time? (cs : List Char) : Option (String × List Char) := do
  let (hour, cs) ← field? 2 0 23 cs
  let (minute, cs) ← field? 2 0 59 (← mark? ':' cs)
  let (second, cs) ← field? 2 0 60 (← mark? ':' cs)
  let (fraction, cs) ← secondFraction? cs
  return (padded 2 hour ++ ":" ++ padded 2 minute ++ ":" ++ padded 2 second ++ fraction, cs)

/-- The distance from universal time, if one follows. -/
def offset? (cs : List Char) : Option (String × List Char) :=
  match cs with
  | c :: rest =>
    if c = 'Z' ∨ c = 'z' then some ("Z", rest)
    else if c = '+' ∨ c = '-' then do
      let (hour, rest) ← field? 2 0 23 rest
      let (minute, rest) ← field? 2 0 59 (← mark? ':' rest)
      let sign := if c = '-' ∧ (hour, minute) ≠ (0, 0) then "-" else "+"
      return (sign ++ padded 2 hour ++ ":" ++ padded 2 minute, rest)
    else some ("", cs)
  | [] => some ("", [])

/-- A time behind a date, if one follows. -/
def timeOfDay? (cs : List Char) : Option (String × List Char) :=
  match cs with
  | c :: rest =>
    if c = 'T' ∨ c = 't' then clock rest
    else if c = ' ' then if (field? 2 0 23 rest).isSome then clock rest else some ("", cs)
    else some ("", cs)
  | [] => some ("", [])
where
  clock (cs : List Char) : Option (String × List Char) := do
    let (t, cs) ← time? cs
    let (o, cs) ← offset? cs
    return ("T" ++ t ++ o, cs)

/-- Whether a text begins with a number of so many digits and a mark. -/
def beginsWith (count : Nat) (mark : Char) (cs : List Char) : Bool :=
  (cs.take count).length == count && (cs.take count).all Char.isDigit && (cs.drop count).head? == some mark

/-- A date, a time, or both. -/
def moment? (cs : List Char) : Option (String × List Char) :=
  if beginsWith 4 '-' cs then do
    let (d, cs) ← date? cs
    let (t, cs) ← timeOfDay? cs
    return (d ++ t, cs)
  else time? cs

/-- A date or time as plain data. -/
def ofMoment (text : String) : Json := .obj [("$__toml_private_datetime", .str text)]

/-- A scalar of any kind. -/
def scalar? (cs : List Char) : Option (Json × List Char) :=
  match cs with
  | 't' :: 'r' :: 'u' :: 'e' :: rest => some (.bool true, rest)
  | 'f' :: 'a' :: 'l' :: 's' :: 'e' :: rest => some (.bool false, rest)
  | '\x22' :: _ | '\x27' :: _ => (string? cs).map fun (s, after) => (.str s, after)
  | _ =>
    if beginsWith 4 '-' cs || beginsWith 2 ':' cs then
      (moment? cs).map fun (text, after) => (ofMoment text, after)
    else (float? cs).or (integer? cs)

end Listing.Toml
