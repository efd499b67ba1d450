import ArrayCall.Decimal.Notation
import ArrayCall.Json.Basic

/-!
# Writing JSON

`Json.render` writes a value on one line without blanks, and `Json.renderLines`
writes one item or member a line, two blanks further in than what encloses it.
-/

namespace ArrayCall.Json

def hexDigit (n : Nat) : Char :=
  if n < 10 then Char.ofNat ('0'.toNat + n) else Char.ofNat ('a'.toNat + (n - 10))

/-- How one character stands in a string: quotes, backslashes and control
characters are escaped. -/
def escape (c : Char) : String :=
  if c = '"' then "\\\""
  else if c = '\\' then "\\\\"
  else if c = '\n' then "\\n"
  else if c = '\r' then "\\r"
  else if c = '\t' then "\\t"
  else if c.toNat = 8 then "\\b"
  else if c.toNat = 12 then "\\f"
  else if c.toNat < 32 then
    "\\u00" ++ String.ofList [hexDigit (c.toNat / 16), hexDigit (c.toNat % 16)]
  else c.toString

def quote (s : String) : String :=
  "\"" ++ String.join (s.toList.map escape) ++ "\""

/-- A double; NaN and the infinities have no number in JSON. -/
def renderFloat (x : Float) : String :=
  if x.isFinite then Decimal.jsonNotation.render x else "null"

mutual

def render : Json → String
  | null => "null"
  | bool b => if b then "true" else "false"
  | int n => toString n
  | float x => renderFloat x
  | str s => quote s
  | arr items => "[" ++ ",".intercalate (renderItems items) ++ "]"
  | obj members => "\x7b" ++ ",".intercalate (renderMembers members) ++ "\x7d"

def renderItems : List Json → List String
  | [] => []
  | item :: rest => item.render :: renderItems rest

def renderMembers : List (String × Json) → List String
  | [] => []
  | (name, value) :: rest => (quote name ++ ":" ++ value.render) :: renderMembers rest

end

/-- Parts of a list or an object, one a line, between its brackets. -/
def block (indent : String) (opening closing : String) (parts : List String) : String :=
  if parts.isEmpty then opening ++ closing
  else
    let inner := indent ++ "  "
    opening ++ "\n" ++ inner ++ (",\n" ++ inner).intercalate parts ++ "\n" ++ indent ++ closing

mutual

/-- The value with one item or member a line, at the given indentation. -/
def renderLines (indent : String) : Json → String
  | arr items => block indent "[" "]" (renderItemLines (indent ++ "  ") items)
  | obj members => block indent "\x7b" "\x7d" (renderMemberLines (indent ++ "  ") members)
  | null => "null"
  | bool b => if b then "true" else "false"
  | int n => toString n
  | float x => renderFloat x
  | str s => quote s

def renderItemLines (indent : String) : List Json → List String
  | [] => []
  | item :: rest => item.renderLines indent :: renderItemLines indent rest

def renderMemberLines (indent : String) : List (String × Json) → List String
  | [] => []
  | (name, value) :: rest =>
    (quote name ++ ": " ++ value.renderLines indent) :: renderMemberLines indent rest

end

end ArrayCall.Json
