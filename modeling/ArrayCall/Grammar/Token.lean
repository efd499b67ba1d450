import ArrayCall.Ty.Basic

/-!
# Tokens of the type notation

Type and signature source text is read as a sequence of tokens. A token is the
longest piece of its form that the text has at that place, and between tokens
there may be blanks (space, tab, carriage return, line feed).

* `Lexeme.scan` is the reader: it gives the tokens with the byte range that each
  was read from, or the fault that stops it.
* A size is written in decimal digits, with single underscores between digits.
-/

namespace ArrayCall

/-- A range of bytes of a source text. -/
structure Span where
  start : Nat
  length : Nat
  deriving DecidableEq, Inhabited

/-- The tokens of types and signatures. -/
inductive Token where
  | arrow
  | ellipsis
  | star
  | comma
  | colon
  | question
  | openParen
  | closeParen
  | size (n : Nat)
  | ident (name : String)
  deriving DecidableEq, Inhabited

/-- What can be wrong with the text of a type or a signature. -/
inductive SyntaxFault where
  | invalidSize
  | unexpectedCharacter (c : Char)
  | expected (token : String)
  | trailingInput
  | lowercaseEllipsis
  | lowercaseDimension (name : String)
  | unknownType (name : String)
  | missingStar
  | expectedType
  | duplicateKeyword (name : String)
  | positionalAfterKeyword
  deriving DecidableEq

namespace SyntaxFault

def message : SyntaxFault → String
  | invalidSize => "invalid dimension size"
  | unexpectedCharacter c => "unexpected character '" ++ c.toString ++ "'"
  | expected token => "expected '" ++ token ++ "'"
  | trailingInput => "unexpected trailing input"
  | lowercaseEllipsis => "ellipsis names must start with an uppercase letter"
  | lowercaseDimension name =>
    "'" ++ name ++ "' cannot be used as a dimension; " ++
      "symbolic dims start with an uppercase letter"
  | unknownType name => "unknown type '" ++ name ++ "'"
  | missingStar => "expected '*' after dimension size"
  | expectedType => "expected a type"
  | duplicateKeyword name => "duplicate keyword '" ++ name ++ "'"
  | positionalAfterKeyword => "positional parameter after keyword parameter"

end SyntaxFault

/-- A fault in a source text, with the bytes it is about. -/
structure SyntaxError where
  fault : SyntaxFault
  span : Span
  deriving DecidableEq

def SyntaxError.message (e : SyntaxError) : String :=
  "type syntax error: " ++ e.fault.message

/-- A token and the bytes it was read from. -/
structure Lexeme where
  token : Token
  span : Span
  deriving DecidableEq, Inhabited

namespace Lexeme

def isBlank (c : Char) : Bool := c = ' ' || c = '\t' || c = '\r' || c = '\n'

def isDigit (c : Char) : Bool := '0' ≤ c && c ≤ '9'

/-- What may follow the first digit of a size. -/
def isSizePart (c : Char) : Bool := isDigit c || c = '_'

def isNameStart (c : Char) : Bool :=
  ('a' ≤ c && c ≤ 'z') || ('A' ≤ c && c ≤ 'Z') || c = '_'

/-- What may follow the first character of a name. -/
def isNamePart (c : Char) : Bool := isNameStart c || isDigit c

def sizeLimit : Nat := Width.w64.count

/-- Whether every underscore has a digit on its right. With a digit in front
this means that underscores stand singly between digits. -/
def separated : List Char → Bool
  | [] => true
  | '_' :: '_' :: _ => false
  | ['_'] => false
  | _ :: rest => separated rest

/-- The value of decimal digits, underscores passed over, as long as it is below the
limit. -/
def digitsValue? (cs : List Char) : Option Nat :=
  cs.foldlM (fun n c =>
    let longer := 10 * n + (c.toNat - '0'.toNat)
    if c = '_' then some n else if longer < sizeLimit then some longer else none) 0

/-- The size that digits and underscores denote, unless a separator is out of
place or the number is too large. -/
def sizeValue? (cs : List Char) : Option Nat :=
  if separated cs then digitsValue? cs else none

/-- The token of fixed spelling that the text `c :: cs` begins with: the token, its
characters behind `c`, and what remains. -/
def punctuation? (c : Char) (cs : List Char) : Option (Token × List Char × List Char) :=
  match c, cs with
  | '-', '>' :: rest => some (.arrow, ['>'], rest)
  | '.', '.' :: '.' :: rest => some (.ellipsis, ['.', '.'], rest)
  | '*', rest => some (.star, [], rest)
  | ',', rest => some (.comma, [], rest)
  | ':', rest => some (.colon, [], rest)
  | '?', rest => some (.question, [], rest)
  | '(', rest => some (.openParen, [], rest)
  | ')', rest => some (.closeParen, [], rest)
  | _, _ => none

/-- What stands at the front of a text. -/
inductive Front where
  | blank
  | token (t : Token)
  | fault (f : SyntaxFault)

/-- Reads the front of the text `c :: cs`: what stands there, its characters behind `c`,
and what remains. -/
def front (c : Char) (cs : List Char) : Front × List Char × List Char :=
  if isBlank c then (.blank, [], cs)
  else if isDigit c then
    let digits := cs.takeWhile isSizePart
    match sizeValue? (c :: digits) with
    | some n => (.token (.size n), digits, cs.dropWhile isSizePart)
    | none => (.fault .invalidSize, digits, cs.dropWhile isSizePart)
  else if isNameStart c then
    let more := cs.takeWhile isNamePart
    (.token (.ident (String.ofList (c :: more))), more, cs.dropWhile isNamePart)
  else
    match punctuation? c cs with
    | some (t, more, rest) => (.token t, more, rest)
    | none => (.fault (.unexpectedCharacter c), [], cs)

def byteLength : List Char → Nat
  | [] => 0
  | c :: rest => c.utf8Size + byteLength rest

theorem append_of_punctuation? {c : Char} {cs more rest : List Char} {t : Token}
    (h : punctuation? c cs = some (t, more, rest)) : more ++ rest = cs := by
  unfold punctuation? at h
  split at h <;> cases h <;> rfl

/-- Nothing of a text is lost between what stands at its front and what remains. -/
theorem front_append (c : Char) (cs : List Char) :
    (front c cs).2.1 ++ (front c cs).2.2 = cs := by
  unfold front
  split
  · rfl
  · split
    · dsimp only
      split <;> exact List.takeWhile_append_dropWhile
    · split
      · exact List.takeWhile_append_dropWhile
      · split
        next h => exact append_of_punctuation? h
        next => rfl

theorem length_front_le (c : Char) (cs : List Char) :
    (front c cs).2.2.length ≤ cs.length := by
  have whole := congrArg List.length (front_append c cs)
  rw [List.length_append] at whole
  omega

/-- The tokens of a text that begins at byte `start`. -/
def scanFrom (start : Nat) : List Char → Except SyntaxError (List Lexeme)
  | [] => .ok []
  | c :: cs =>
    let rest := (front c cs).2.2
    let length := byteLength (c :: (front c cs).2.1)
    match (front c cs).1 with
    | .blank => scanFrom (start + length) rest
    | .token t => (scanFrom (start + length) rest).map (⟨t, start, length⟩ :: ·)
    | .fault f => .error ⟨f, start, length⟩
  termination_by cs => cs.length
  decreasing_by all_goals exact Nat.lt_succ_of_le (length_front_le c cs)

def scan (source : String) : Except SyntaxError (List Lexeme) :=
  scanFrom 0 source.toList

end Lexeme

end ArrayCall
