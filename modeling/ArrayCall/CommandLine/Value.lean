import ArrayCall.Grammar.Parser
import ArrayCall.Json.Printer
import ArrayCall.Json.Reader
import ArrayCall.Keywords
import ArrayCall.Text.Blank

/-!
# Values on a command line

An array is given as `TYPE=JSON`, its elements nested as its dimensions are, and a
keyword argument as `NAME=VALUE`.

* `CommandLine.parseArgument` and `CommandLine.parseKeyword` read them.
* `ArrayReport` is how an array is shown.
-/

namespace ArrayCall.CommandLine

/-- Why JSON does not fit a type. -/
inductive ShapeFault where
  | notConcrete
  | notScalar
  | tooDeep
  | wrongLength (expected found : Nat)
  | notList (expected : Nat) (value : Json)
  | notOfKind (value : Json) (kind : Kind)
  | notBoolean (value : Json)
  | notInteger (value : Json)

def ShapeFault.message : ShapeFault → String
  | notConcrete => "the type must be concrete"
  | notScalar => "the element type must be a scalar"
  | tooDeep => "too many nesting levels"
  | wrongLength expected found =>
    "expected " ++ toString expected ++ " elements, found " ++ toString found
  | notList expected value =>
    "expected a list of " ++ toString expected ++ " elements, found " ++ quoted value.render
  | notOfKind value kind => quoted value.render ++ " is not a " ++ kind.name ++ " value"
  | notBoolean value => quoted value.render ++ " is not a boolean"
  | notInteger value => quoted value.render ++ " is not an integer"

/-- Why a value cannot be read or shown. -/
inductive ValueError where
  /-- There is no `=`. -/
  | malformed (expected input : String)
  | type (e : SyntaxError)
  | json
  | shape (t : Ty) (fault : ShapeFault)
  | call (e : CallError)

def ValueError.message : ValueError → String
  | malformed expected input => "expected " ++ quoted expected ++ ", got " ++ quoted input
  | type e => e.message
  | json => "invalid JSON"
  | shape t fault => "value does not fit " ++ quoted t.render ++ ": " ++ fault.message
  | call e => e.message

/-- The parts of a text in front of its first `=` and behind it. -/
def splitEquals? (s : String) : Option (String × String) :=
  match s.toList.dropWhile (· ≠ '=') with
  | _ :: rest => some (String.ofList (s.toList.takeWhile (· ≠ '=')), String.ofList rest)
  | [] => none

/-- The type that a source text denotes, blanks at its ends passed over. -/
def parseType (source : String) : Except ValueError Ty :=
  (Ty.parse (Text.trim source)).mapError .type

/-! ## Reading -/

/-- The value of a truth value or a number. An integer is signed if it fits 64 bits so. -/
def scalarOf? : Json → Option Scalar
  | .bool b => some (.bool b)
  | .int n =>
    some (if n < Width.w64.half then .int (Int64.ofInt n) else .uint (UInt64.ofNat n.toNat))
  | .float x => some (.float (.ofFloat x))
  | _ => none

/-- The elements of lists that are nested as a shape says, in order. -/
def flatten : (shape : List Nat) → Json → Except ShapeFault (List Json)
  | [], .arr _ => .error .tooDeep
  | [], value => .ok [value]
  | n :: shape, .arr items =>
    if items.length = n then (items.mapM (flatten shape)).map List.flatten
    else .error (.wrongLength n items.length)
  | n :: _, value => .error (.notList n value)

/-- An element of a kind. Truth values stand for numbers too, but numbers do not stand
for truth values, and a number that is written as a fraction stands for no integer. -/
def elementOf (kind : Kind) (value : Json) : Except ShapeFault Scalar :=
  match scalarOf? value with
  | none => .error (.notOfKind value kind)
  | some s =>
    match kind, s with
    | .bool, .bool _ => .ok s
    | .bool, _ => .error (.notBoolean value)
    | kind, .float _ => if kind.isFloat then .ok s else .error (.notInteger value)
    | _, _ => .ok s

def elementsOf (t : Ty) (value : Json) : Except ShapeFault (List Scalar) :=
  match t.shape?, t.isSymbolic, t.dtype.scalarKind? with
  | some shape, false, some kind => do (← flatten shape value).mapM (elementOf kind)
  | some _, false, none => .error .notScalar
  | _, _, _ => .error .notConcrete

def arrayOf (t : Ty) (value : Json) : Except ValueError NdArray := do
  let elements ← (elementsOf t value).mapError (.shape t)
  (NdArray.ofScalars t elements).mapError .call

/-- Reads an array, such as `3 * int32=[1, 2, 3]`. -/
def parseArgument (input : String) : Except ValueError NdArray :=
  match splitEquals? input with
  | none => .error (.malformed "TYPE=JSON" input)
  | some (type, json) => do
    let t ← parseType type
    match Json.parse? json with
    | some value => arrayOf t value
    | none => throw .json

/-- Reads a keyword argument. Truth values and numbers are values, and anything else is
read as a type. -/
def parseKeyword (input : String) : Except ValueError (String × KeywordValue) :=
  match splitEquals? input with
  | none => .error (.malformed "NAME=VALUE" input)
  | some (name, raw) => do
    let value ← match (Json.parse? raw).bind scalarOf? with
      | some s => pure (.scalar s)
      | none => do pure (.type (← parseType raw))
    return (Text.trim name, value)

/-! ## Showing -/

/-- An element as JSON. NaN and the infinities are null. -/
def jsonOf : Scalar → Json
  | .bool b => .bool b
  | .int n => .int n.toInt
  | .uint n => .int n.toNat
  | .float x => if x.isFinite then .float x.toFloat else .null

/-- A list cut into `count` pieces of one length. -/
def pieces {α : Type} (length : Nat) : (count : Nat) → List α → List (List α)
  | 0, _ => []
  | count + 1, xs => xs.take length :: pieces length count (xs.drop length)

/-- Elements in lists that are nested as a shape says. -/
def nest (flat : List Json) : (shape : List Nat) → Except CallError Json
  | [] => .ok (flat.headD .null)
  | n :: shape => do
    let step ← Machine.product shape
    return .arr (← (pieces step n flat).mapM fun part => nest part shape)

/-- An array as it is shown. -/
structure ArrayReport where
  ty : Ty
  shape : List Nat
  values : Json

/-- How an array is shown, if its elements are scalars. -/
def ArrayReport.of (a : NdArray) : Except ValueError ArrayReport := do
  let elements ← a.scalars.mapError .call
  let values ← (nest (elements.map jsonOf) a.shape).mapError .call
  return ⟨a.ty, a.shape, values⟩

def ArrayReport.toJson (r : ArrayReport) : Json :=
  .obj [("type", .str r.ty.render), ("shape", .arr (r.shape.map fun n => .int (n : Nat))),
    ("values", r.values)]

end ArrayCall.CommandLine
