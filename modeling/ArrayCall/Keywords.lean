import ArrayCall.NdArray
import ArrayCall.Signature

/-!
# Keyword arguments

Besides the keywords that a callable declares, every call takes two of its own:
`dst`, an array to write the result into, and `dst_tp`, the type that the result
shall have.
-/

namespace ArrayCall

/-- The value of a keyword argument. -/
inductive KeywordValue where
  | type (t : Ty)
  | array (a : NdArray)
  | scalar (s : Scalar)
  deriving Inhabited

def Scalar.naturalKind : Scalar → Kind
  | bool _ => .bool
  | int _ => .int .w64
  | uint _ => .uint .w64
  | float _ => .float64

/-- The type that a keyword value presents to the declared type of its parameter. -/
def KeywordValue.ty : KeywordValue → Ty
  | type _ => .any
  | array a => a.ty
  | scalar s => .scalar s.naturalKind

/-- The keyword arguments of a call, ascending by name. -/
abbrev Keywords := NameTable KeywordValue

namespace Keywords

def dstName : String := "dst"

def dstTypeName : String := "dst_tp"

/-- The names of the keywords that are not about the destination. -/
def userNames (kwds : Keywords) : List String :=
  kwds.names.filter fun n => n ≠ dstName && n ≠ dstTypeName

/-- The type of the `dst` array, if there is one. -/
def arrayType? (kwds : Keywords) (callable : String) : Except CallError (Option Ty) :=
  match kwds.get? dstName with
  | none => .ok none
  | some (.array a) => .ok (some a.ty)
  | some _ => .error (.typeMismatch callable (.keyword dstName) .expectedArray)

/-- The type that `dst_tp` asks for, if it is given. -/
def requestedType? (kwds : Keywords) (callable : String) : Except CallError (Option Ty) :=
  match kwds.get? dstTypeName with
  | none => .ok none
  | some (.type t) =>
    if t.isSymbolic then .error (.typeMismatch callable (.keyword dstTypeName) (.notConcrete t))
    else .ok (some t)
  | some _ => .error (.typeMismatch callable (.keyword dstTypeName) .expectedType)

/-- The type of the destination that `dst` and `dst_tp` ask for, which must not
disagree, with the keyword that it comes from. -/
def dstType? (kwds : Keywords) (callable : String) :
    Except CallError (Option (Ty × ArgPosition)) := do
  let array ← kwds.arrayType? callable
  let requested ← kwds.requestedType? callable
  match array, requested with
  | some a, some t =>
    if a = t then return some (a, .keyword dstName)
    else .error (.typeMismatch callable (.keyword dstTypeName) (.destinationsDisagree t a))
  | some a, none => return some (a, .keyword dstName)
  | none, some t => return some (t, .keyword dstTypeName)
  | none, none => return none

/-- Refuses keywords that a signature does not declare, and the lack of those that it
requires. -/
def checkAgainst (kwds : Keywords) (callable : String) (sig : Signature) :
    Except CallError Unit :=
  match kwds.userNames.find? fun n => (sig.kwd? n).isNone with
  | some n => .error (.arity callable (.keyword n) .unexpectedKeyword)
  | none =>
    match sig.kwds.find? fun k => !k.optional && !kwds.contains k.name with
    | some k => .error (.arity callable (.keyword k.name) .missingKeyword)
    | none => .ok ()

end Keywords

end ArrayCall
