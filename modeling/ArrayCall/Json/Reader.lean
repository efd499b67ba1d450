import ArrayCall.Json.Number
import ArrayCall.NameTable

/-!
# Reading JSON

A text is cut into tokens, and `State.step` takes one token after another. What is
still open is a stack of lists and objects, of which at most `depthLimit` may be
nested. Of members with one name the last is kept.
-/

namespace ArrayCall.Json

/-- The tokens of JSON texts. -/
inductive Token where
  | openList
  | closeList
  | openObject
  | closeObject
  | comma
  | colon
  | value (v : Json)

/-! ## Cutting a text into tokens -/

def hexValue? (c : Char) : Option Nat :=
  if '0' ≤ c && c ≤ '9' then some (c.toNat - '0'.toNat)
  else if 'a' ≤ c && c ≤ 'f' then some (c.toNat - 'a'.toNat + 10)
  else if 'A' ≤ c && c ≤ 'F' then some (c.toNat - 'A'.toNat + 10)
  else none

def unit? (a b c d : Char) : Option Nat := do
  return ((16 * (← hexValue? a) + (← hexValue? b)) * 16 + (← hexValue? c)) * 16 + (← hexValue? d)

def shortEscape? (c : Char) : Option Char :=
  match c with
  | '"' => some '"'
  | '\\' => some '\\'
  | '/' => some '/'
  | 'b' => some (Char.ofNat 8)
  | 'f' => some (Char.ofNat 12)
  | 'n' => some '\n'
  | 'r' => some '\r'
  | 't' => some '\t'
  | _ => none

/-- Whether a 16-bit unit is the first half of a pair. -/
def isHighHalf (n : Nat) : Bool := 0xD800 ≤ n && n < 0xDC00

/-- Whether a 16-bit unit is the second half of a pair. -/
def isLowHalf (n : Nat) : Bool := 0xDC00 ≤ n && n < 0xE000

/-- Reads a string behind its opening quote, up to and with its closing quote.
Units of a pair must stand together. -/
def readString : List Char → Option (List Char × List Char)
  | '"' :: rest => some ([], rest)
  | '\\' :: 'u' :: a :: b :: c :: d :: '\\' :: 'u' :: e :: f :: g :: h :: rest =>
    match unit? a b c d with
    | none => none
    | some high =>
      if isHighHalf high then
        match unit? e f g h with
        | none => none
        | some low =>
          if isLowHalf low then
            let code := 0x10000 + (high - 0xD800) * 0x400 + (low - 0xDC00)
            (readString rest).map fun (cs, rest) => (Char.ofNat code :: cs, rest)
          else none
      else if isLowHalf high then none
      else
        (readString ('\\' :: 'u' :: e :: f :: g :: h :: rest)).map fun (cs, rest) =>
          (Char.ofNat high :: cs, rest)
  | '\\' :: 'u' :: a :: b :: c :: d :: rest =>
    match unit? a b c d with
    | none => none
    | some code =>
      if isHighHalf code || isLowHalf code then none
      else (readString rest).map fun (cs, rest) => (Char.ofNat code :: cs, rest)
  | '\\' :: c :: rest =>
    match shortEscape? c with
    | none => none
    | some c => (readString rest).map fun (cs, rest) => (c :: cs, rest)
  | c :: rest =>
    if c.toNat < 32 then none
    else (readString rest).map fun (cs, rest) => (c :: cs, rest)
  | [] => none

def isBlank (c : Char) : Bool := c = ' ' || c = '\t' || c = '\r' || c = '\n'

/-- The token at the front of a text without blanks, with the rest. -/
def readToken : List Char → Option (Token × List Char)
  | '[' :: rest => some (.openList, rest)
  | ']' :: rest => some (.closeList, rest)
  | '\x7b' :: rest => some (.openObject, rest)
  | '\x7d' :: rest => some (.closeObject, rest)
  | ',' :: rest => some (.comma, rest)
  | ':' :: rest => some (.colon, rest)
  | '"' :: rest => (readString rest).map fun (cs, rest) => (.value (.str (String.ofList cs)), rest)
  | 'n' :: 'u' :: 'l' :: 'l' :: rest => some (.value .null, rest)
  | 't' :: 'r' :: 'u' :: 'e' :: rest => some (.value (.bool true), rest)
  | 'f' :: 'a' :: 'l' :: 's' :: 'e' :: rest => some (.value (.bool false), rest)
  | cs => (Number.read cs).map fun (v, rest) => (.value v, rest)

/-- The tokens of a text. Each takes at least one character, so as many rounds as
there are characters are enough; `rounds` counts them down. -/
def tokensWithin : (rounds : Nat) → List Char → Option (List Token)
  | _, [] => some []
  | 0, _ :: _ => none
  | rounds + 1, c :: cs =>
    if isBlank c then tokensWithin rounds cs
    else
      match readToken (c :: cs) with
      | none => none
      | some (t, rest) => (tokensWithin rounds rest).map (t :: ·)

def tokens (cs : List Char) : Option (List Token) := tokensWithin cs.length cs

/-! ## From tokens to a value -/

/-- A list or an object that is still open. -/
inductive Frame where
  /-- The items so far, the last one first. -/
  | list (items : List Json)
  /-- The members so far, and the name that a value is due for. -/
  | object (members : List (String × Json)) (name : String)

/-- What may come next. -/
inductive State where
  | awaitValue (stack : List Frame)
  /-- A value, or the end of a list that has no items yet. -/
  | awaitFirstValue (stack : List Frame)
  | awaitName (members : List (String × Json)) (stack : List Frame)
  /-- A name, or the end of an object that has no members yet. -/
  | awaitFirstName (stack : List Frame)
  | awaitColon (members : List (String × Json)) (name : String) (stack : List Frame)
  /-- A comma, or the end of what is open. -/
  | awaitComma (stack : List Frame)
  | finished (v : Json)

/-- The most lists and objects that may be open at once. -/
def depthLimit : Nat := 127

def State.place (v : Json) : List Frame → State
  | [] => .finished v
  | .list items :: rest => .awaitComma (.list (v :: items) :: rest)
  | .object members name :: rest =>
    .awaitComma (.object (NameTable.place name v members) name :: rest)

def State.onValue (stack : List Frame) : Token → Option State
  | .value v => some (.place v stack)
  | .openList =>
    if stack.length < depthLimit then some (.awaitFirstValue (.list [] :: stack)) else none
  | .openObject => if stack.length < depthLimit then some (.awaitFirstName stack) else none
  | _ => none

def State.step : State → Token → Option State
  | .awaitValue stack, t => onValue stack t
  | .awaitFirstValue (.list items :: stack), .closeList => some (.place (.arr items.reverse) stack)
  | .awaitFirstValue stack, t => onValue stack t
  | .awaitName members stack, .value (.str name) => some (.awaitColon members name stack)
  | .awaitFirstName stack, .value (.str name) => some (.awaitColon [] name stack)
  | .awaitFirstName stack, .closeObject => some (.place (.obj []) stack)
  | .awaitColon members name stack, .colon => some (.awaitValue (.object members name :: stack))
  | .awaitComma (.list items :: stack), .comma => some (.awaitValue (.list items :: stack))
  | .awaitComma (.list items :: stack), .closeList => some (.place (.arr items.reverse) stack)
  | .awaitComma (.object members _ :: stack), .comma => some (.awaitName members stack)
  | .awaitComma (.object members _ :: stack), .closeObject =>
    some (.place (.obj members) stack)
  | _, _ => none

def ofTokens? (ts : List Token) : Option Json :=
  match ts.foldlM State.step (.awaitValue []) with
  | some (.finished v) => some v
  | _ => none

def parse? (text : String) : Option Json :=
  (tokens text.toList).bind ofTokens?

end ArrayCall.Json
