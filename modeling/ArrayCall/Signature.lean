import ArrayCall.Ty.Basic

/-!
# Signatures

The declared type of a callable: positional parameters, keyword parameters and
the result, written `(T, T, scale: ?float64) -> T`.
-/

namespace ArrayCall

/-- A keyword parameter. -/
structure KeywordParam where
  name : String
  ty : Ty
  optional : Bool
  deriving DecidableEq, Inhabited

def KeywordParam.render (k : KeywordParam) : String :=
  k.name ++ ": " ++ (if k.optional then "?" else "") ++ k.ty.render

/-- The declared type of a callable. -/
structure Signature where
  params : List Ty
  kwds : List KeywordParam
  ret : Ty
  deriving DecidableEq, Inhabited

namespace Signature

def arity (s : Signature) : Nat := s.params.length

/-- The keyword parameter of a name, the first of them if it is declared twice. -/
def kwd? (s : Signature) (name : String) : Option KeywordParam :=
  s.kwds.find? (·.name == name)

/-- The distinct variables that occur anywhere in a signature, ascending. -/
def typeVars (s : Signature) : List String :=
  NameTable.sortedNames
    (s.params.flatMap Ty.mentions ++ s.kwds.flatMap (·.ty.mentions) ++ s.ret.mentions)

/-- Whether a positional parameter or the result is symbolic. -/
def isGeneric (s : Signature) : Bool :=
  s.params.any Ty.isSymbolic || s.ret.isSymbolic

def render (s : Signature) : String :=
  let items := s.params.map Ty.render ++ s.kwds.map KeywordParam.render
  "(" ++ ", ".intercalate items ++ ") -> " ++ s.ret.render

end Signature

end ArrayCall
