import ArrayCall.Width

/-!
# Words of TOML documents

Readers for keys, strings, numbers and dates. Each takes what it reads off the front
of a text and gives the rest, or nothing if the text does not begin with such a word.
-/

namespace ArrayCall.Toml

/-- What a reader gives: a value and the rest of the text. -/
abbrev Reading (α : Type) := Option (α × List Char)

def isSpace (c : Char) : Bool := c = ' ' || c = '\t'

/-- The text behind spaces and tabs. -/
def skipSpace (cs : List Char) : List Char := cs.dropWhile isSpace

/-- Whether a character may stand in a comment, or as itself in a string: a tab, or one
that is no control character. -/
def isPlain (c : Char) : Bool := c = '\t' || (32 ≤ c.toNat && c.toNat ≠ 127)

/-- The text behind the end of a line, if it begins with one. -/
def newline? : List Char → Option (List Char)
  | '\n' :: rest => some rest
  | '\r' :: '\n' :: rest => some rest
  | _ => none

/-- The text behind a comment, if it begins with one; otherwise the text itself. -/
def skipComment : List Char → List Char
  | '#' :: rest => rest.dropWhile isPlain
  | cs => cs

/-- The text behind what may still follow on a line: spaces, a comment, and the end of
the line or of the document. -/
def lineEnd? (cs : List Char) : Option (List Char) :=
  match skipComment (skipSpace cs) with
  | [] => some []
  | cs => newline? cs

/-! ## Strings -/

def isDecimal (c : Char) : Bool := '0' ≤ c && c ≤ '9'

def isHex (c : Char) : Bool :=
  isDecimal c || ('a' ≤ c && c ≤ 'f') || ('A' ≤ c && c ≤ 'F')

def digitValue (c : Char) : Nat :=
  if c ≤ '9' then c.toNat - '0'.toNat
  else if c ≤ 'F' then c.toNat - 'A'.toNat + 10
  else c.toNat - 'a'.toNat + 10

def numeral (base : Nat) (cs : List Char) : Nat :=
  cs.foldl (fun n c => base * n + digitValue c) 0

/-- The character that hexadecimal digits denote, if there is such a character. -/
def codePoint? (digits : List Char) : Option Char :=
  let n := numeral 16 digits
  if digits.all isHex ∧ n.isValidChar then some (Char.ofNat n) else none

/-- Reads an escape behind its backslash. -/
def escape? : List Char → Reading Char
  | 'b' :: rest => some (Char.ofNat 8, rest)
  | 't' :: rest => some ('\t', rest)
  | 'n' :: rest => some ('\n', rest)
  | 'f' :: rest => some (Char.ofNat 12, rest)
  | 'r' :: rest => some ('\r', rest)
  | '"' :: rest => some ('"', rest)
  | '\\' :: rest => some ('\\', rest)
  | 'u' :: rest =>
    if (rest.take 4).length = 4 then (codePoint? (rest.take 4)).map (·, rest.drop 4) else none
  | 'U' :: rest =>
    if (rest.take 8).length = 8 then (codePoint? (rest.take 8)).map (·, rest.drop 8) else none
  | _ => none

/-- Reads a string in double quotes behind its opening quote. `rounds` counts the
characters that are left. -/
def basicString : (rounds : Nat) → List Char → Reading (List Char)
  | 0, _ => none
  | _ + 1, [] => none
  | _ + 1, '"' :: rest => some ([], rest)
  | rounds + 1, '\\' :: rest =>
    match escape? rest with
    | some (c, rest) => (basicString rounds rest).map fun (cs, rest) => (c :: cs, rest)
    | none => none
  | rounds + 1, c :: rest =>
    if isPlain c then (basicString rounds rest).map fun (cs, rest) => (c :: cs, rest) else none

/-- Reads a string in single quotes behind its opening quote. -/
def literalString : List Char → Reading (List Char)
  | [] => none
  | '\'' :: rest => some ([], rest)
  | c :: rest =>
    if isPlain c then (literalString rest).map fun (cs, rest) => (c :: cs, rest) else none

/-- The text behind blanks and ends of lines. -/
def skipLines : List Char → List Char
  | '\r' :: '\n' :: rest => skipLines rest
  | c :: rest => if isSpace c || c = '\n' then skipLines rest else c :: rest
  | [] => []

/-- Reads a string of several lines, `quote` being its kind of quotes, behind its
opening quotes. It ends with three quotes, of which up to two more may be in front. A
backslash at the end of a line takes the blanks behind it away. -/
def longString (quote : Char) : (rounds : Nat) → List Char → Reading (List Char)
  | 0, _ => none
  | _ + 1, [] => none
  | rounds + 1, c :: rest =>
    let more (c : Char) (rest : List Char) : Reading (List Char) :=
      (longString quote rounds rest).map fun (cs, rest) => (c :: cs, rest)
    if c = quote then
      match (rest.takeWhile (· = quote)).length with
      | 0 => more c rest
      | 1 => (longString quote rounds (rest.drop 1)).map fun (cs, rest) => (c :: c :: cs, rest)
      | n + 2 => if n ≤ 2 then some (List.replicate n quote, rest.drop (n + 2)) else none
    else
      match newline? (c :: rest) with
      | some rest => more '\n' rest
      | none =>
        if c = '\\' ∧ quote = '"' then
          match newline? (skipSpace rest) with
          | some rest => longString quote rounds (skipLines rest)
          | none => (escape? rest).bind fun (c, rest) => more c rest
        else if isPlain c then more c rest
        else none

/-- Drops the end of a line right behind opening quotes. -/
def dropFirstNewline (cs : List Char) : List Char := (newline? cs).getD cs

def string? : List Char → Reading String
  | '"' :: '"' :: '"' :: rest =>
    (longString '"' (rest.length + 1) (dropFirstNewline rest)).map fun (cs, rest) =>
      (String.ofList cs, rest)
  | '\'' :: '\'' :: '\'' :: rest =>
    (longString '\'' (rest.length + 1) (dropFirstNewline rest)).map fun (cs, rest) =>
      (String.ofList cs, rest)
  | '"' :: rest =>
    (basicString (rest.length + 1) rest).map fun (cs, rest) => (String.ofList cs, rest)
  | '\'' :: rest => (literalString rest).map fun (cs, rest) => (String.ofList cs, rest)
  | _ => none

/-! ## Keys -/

def isKeyPart (c : Char) : Bool :=
  isDecimal c || ('a' ≤ c && c ≤ 'z') || ('A' ≤ c && c ≤ 'Z') || c = '-' || c = '_'

def simpleKey? : List Char → Reading String
  | '"' :: rest =>
    (basicString (rest.length + 1) rest).map fun (cs, rest) => (String.ofList cs, rest)
  | '\'' :: rest => (literalString rest).map fun (cs, rest) => (String.ofList cs, rest)
  | cs =>
    if (cs.takeWhile isKeyPart).isEmpty then none
    else some (String.ofList (cs.takeWhile isKeyPart), cs.dropWhile isKeyPart)

/-- The number of parts of a key, and of levels of nesting, that is too many. -/
def nestingLimit : Nat := 80

/-- Reads at most so many parts of a key, which points separate. -/
def keyParts : (parts : Nat) → List Char → Reading (List String)
  | 0, _ => none
  | parts + 1, cs =>
    match simpleKey? (skipSpace cs) with
    | none => none
    | some (part, rest) =>
      match skipSpace rest with
      | '.' :: rest => (keyParts parts rest).map fun (more, rest) => (part :: more, rest)
      | rest => some ([part], rest)

/-- Reads a key: the parts in front of the last one, and the last one. -/
def key? (cs : List Char) : Reading (List String × String) :=
  (keyParts (nestingLimit - 1) cs).bind fun (parts, rest) =>
    parts.getLast?.map fun last => ((parts.dropLast, last), rest)

/-! ## Numbers -/

/-- Reads digits with single underscores between them. -/
def digits? (isDigit : Char → Bool) : List Char → Reading (List Char)
  | c :: '_' :: d :: rest =>
    if isDigit c && isDigit d then
      (digits? isDigit (d :: rest)).map fun (cs, rest) => (c :: cs, rest)
    else if isDigit c then some ([c], '_' :: d :: rest)
    else none
  | c :: d :: rest =>
    if isDigit c && isDigit d then
      (digits? isDigit (d :: rest)).map fun (cs, rest) => (c :: cs, rest)
    else if isDigit c then some ([c], d :: rest)
    else none
  | [c] => if isDigit c then some ([c], []) else none
  | [] => none

/-- The sign in front of a number, and whether it is negative. -/
def takeSign : List Char → Bool × List Char
  | '+' :: rest => (false, rest)
  | '-' :: rest => (true, rest)
  | cs => (false, cs)

/-- Reads the digits of a decimal integer, which do not begin with a superfluous zero. -/
def wholeDigits? : List Char → Reading (List Char)
  | '0' :: rest => some (['0'], rest)
  | cs => digits? isDecimal cs

/-- The text behind an integer in a base other than ten, its mark passed over. -/
def basedInteger? (base : Nat) (isDigit : Char → Bool) (cs : List Char) : Option (List Char) :=
  (digits? isDigit cs).bind fun (digits, rest) =>
    if numeral base digits < Width.w64.half then some rest else none

/-- The text behind an integer, which must fit 64 bits. -/
def integer? : List Char → Option (List Char)
  | '0' :: 'x' :: rest => basedInteger? 16 isHex rest
  | '0' :: 'o' :: rest => basedInteger? 8 (fun c => '0' ≤ c && c ≤ '7') rest
  | '0' :: 'b' :: rest => basedInteger? 2 (fun c => c = '0' || c = '1') rest
  | cs =>
    let (negative, rest) := takeSign cs
    (wholeDigits? rest).bind fun (digits, rest) =>
      let limit := if negative then Width.w64.half else Width.w64.half - 1
      if numeral 10 digits ≤ limit then some rest else none

/-- Reads an exponent, its `e` included. -/
def exponent? : List Char → Reading Int
  | c :: rest =>
    if c = 'e' || c = 'E' then
      let (negative, rest) := takeSign rest
      (digits? isDecimal rest).map fun (digits, rest) =>
        (if negative then -(numeral 10 digits : Int) else numeral 10 digits, rest)
    else none
  | [] => none

/-- Whether the positive number `m * 10 ^ e` is too large for a double. -/
def overflows (m : Nat) (e : Int) : Bool :=
  let digits : Int := (Nat.toDigits 10 m).length
  if m = 0 ∨ digits + e < 300 then false
  else if 400 < digits + e then true
  else (Float.ofScientific m (e < 0) e.natAbs).isInf

/-- The text behind a number with a fraction, an exponent or both. Only a positive
number can be refused for its size. -/
def fractional? (cs : List Char) : Option (List Char) :=
  let (negative, rest) := takeSign cs
  (wholeDigits? rest).bind fun (whole, rest) =>
    let fraction : Reading (List Char) :=
      match rest with
      | '.' :: rest => digits? isDecimal rest
      | _ => none
    let (places, behind) := fraction.getD ([], rest)
    let accept (e : Int) (rest : List Char) : Option (List Char) :=
      if !negative && overflows (numeral 10 (whole ++ places)) (e - places.length) then none
      else some rest
    match exponent? behind with
    | some (e, rest) => accept e rest
    | none => if fraction.isSome then accept 0 behind else none

/-- The text behind infinity or NaN, with or without a sign. -/
def special? (cs : List Char) : Option (List Char) :=
  match (takeSign cs).2 with
  | 'i' :: 'n' :: 'f' :: rest => some rest
  | 'n' :: 'a' :: 'n' :: rest => some rest
  | _ => none

/-! ## Dates and times -/

/-- Reads a number of just so many digits in a range. -/
def fixed? (count least greatest : Nat) (cs : List Char) : Option (Nat × List Char) :=
  let digits := cs.take count
  let n := numeral 10 digits
  if digits.length = count ∧ digits.all isDecimal ∧ least ≤ n ∧ n ≤ greatest then
    some (n, cs.drop count)
  else none

/-- The text behind a given character. -/
def char? (c : Char) : List Char → Option (List Char)
  | d :: rest => if d = c then some rest else none
  | [] => none

def daysOf (year month : Nat) : Nat :=
  if month = 2 then
    if year % 4 = 0 ∧ (year % 100 ≠ 0 ∨ year % 400 = 0) then 29 else 28
  else if month = 4 ∨ month = 6 ∨ month = 9 ∨ month = 11 then 30
  else 31

/-- The text behind a date. -/
def date? (cs : List Char) : Option (List Char) := do
  let (year, cs) ← fixed? 4 0 9999 cs
  let cs ← char? '-' cs
  let (month, cs) ← fixed? 2 1 12 cs
  let cs ← char? '-' cs
  let (_, cs) ← fixed? 2 1 (daysOf year month) cs
  return cs

/-- The text behind a time of day. A minute may have a leap second. -/
def time? (cs : List Char) : Option (List Char) := do
  let (_, cs) ← fixed? 2 0 23 cs
  let cs ← char? ':' cs
  let (_, cs) ← fixed? 2 0 59 cs
  let cs ← char? ':' cs
  let (_, cs) ← fixed? 2 0 60 cs
  match cs with
  | '.' :: rest =>
    if (rest.takeWhile isDecimal).isEmpty then none else return rest.dropWhile isDecimal
  | _ => return cs

/-- The text behind the offset of a time zone. -/
def offset? : List Char → Option (List Char)
  | c :: rest =>
    if c = 'Z' || c = 'z' then some rest
    else if c = '+' || c = '-' then do
      let (_, cs) ← fixed? 2 0 23 rest
      let cs ← char? ':' cs
      let (_, cs) ← fixed? 2 0 59 cs
      return cs
    else none
  | [] => none

/-- The text behind what may follow a date: a time, perhaps with an offset. -/
def timeBehindDate (cs : List Char) : List Char :=
  match cs with
  | c :: rest =>
    if c = 'T' || c = 't' || c = ' ' then
      match time? rest with
      | some rest => (offset? rest).getD rest
      | none => cs
    else cs
  | [] => []

/-- The text behind a date, a time of day, or both. -/
def moment? (cs : List Char) : Option (List Char) :=
  match date? cs with
  | some rest => some (timeBehindDate rest)
  | none => time? cs

/-- The text behind a number. -/
def number? (cs : List Char) : Option (List Char) :=
  (special? cs).or ((fractional? cs).or (integer? cs))

end ArrayCall.Toml
