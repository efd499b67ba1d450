import ArrayCall.Kind
import ArrayCall.NameTable

/-!
# Array types

A type is a run of dimensions in front of an element type. Concrete types are
built from `void`, element kinds and dimensions of known size; type variables,
symbolic dimensions, ellipses and `Any` occur only in declared signatures, where
they are matched against the concrete types of the arguments.

* `Ty.typeId` is the category that dispatch looks at.
* `Ty.shape?`, `Ty.dtype` and `Ty.stripDims` take the leading dimensions apart,
  and `Ty.withShape` puts them back.
* `Ty.canPromoteTo` is lossless conversion, element by element.
-/

namespace ArrayCall

/-- The category of a type, by which dispatch tables are keyed. -/
inductive TypeId where
  | void
  | scalar (kind : Kind)
  | fixedDim
  | symbolicDim
  | ellipsis
  | typeVar
  | any
  deriving DecidableEq, Inhabited

namespace TypeId

/-- Every category: `void`, the kinds in declaration order, the dimensions and
the two wildcards. -/
def all : List TypeId :=
  [void] ++ Kind.all.map scalar ++ [fixedDim, symbolicDim, ellipsis, typeVar, any]

def render : TypeId → String
  | void => "void"
  | scalar kind => kind.name
  | fixedDim => "fixed_dim"
  | symbolicDim => "symbolic_dim"
  | ellipsis => "ellipsis_dim"
  | typeVar => "typevar"
  | any => "Any"

def scalarKind? : TypeId → Option Kind
  | scalar kind => some kind
  | _ => none

/-- Lossless promotion between categories: kinds promote as kinds do, and every
other category is compatible with itself alone. -/
def canPromoteTo : TypeId → TypeId → Bool
  | scalar a, scalar b => a.canPromoteTo b
  | a, b => a = b

end TypeId

/-- The type of an array, or a pattern for such types in a signature. -/
inductive Ty where
  /-- No value at all. -/
  | void
  /-- One element. -/
  | scalar (kind : Kind)
  /-- `5 * T` -/
  | fixedDim (size : Nat) (elem : Ty)
  /-- `N * T` -/
  | symbolicDim (name : String) (elem : Ty)
  /-- `... * T` or `Dims... * T` -/
  | ellipsis (name : Option String) (elem : Ty)
  /-- `T` -/
  | typeVar (name : String)
  /-- Matches anything without binding. -/
  | any
  deriving DecidableEq, Inhabited

namespace Ty

/-- `elem` behind fixed dimensions, outermost first. -/
def withShape (shape : List Nat) (elem : Ty) : Ty :=
  shape.foldr fixedDim elem

def typeId : Ty → TypeId
  | void => .void
  | scalar kind => .scalar kind
  | fixedDim .. => .fixedDim
  | symbolicDim .. => .symbolicDim
  | ellipsis .. => .ellipsis
  | typeVar _ => .typeVar
  | any => .any

def element? : Ty → Option Ty
  | fixedDim _ elem => some elem
  | symbolicDim _ elem => some elem
  | ellipsis _ elem => some elem
  | _ => none

def isDim (t : Ty) : Bool := t.element?.isSome

/-- The innermost type, which is no dimension. -/
def dtype : Ty → Ty
  | fixedDim _ elem => elem.dtype
  | symbolicDim _ elem => elem.dtype
  | ellipsis _ elem => elem.dtype
  | t => t

/-- The number of leading dimensions; an ellipsis counts as one. -/
def ndim : Ty → Nat
  | fixedDim _ elem => elem.ndim + 1
  | symbolicDim _ elem => elem.ndim + 1
  | ellipsis _ elem => elem.ndim + 1
  | _ => 0

/-- The number of leading dimensions in front of the first ellipsis: those that
a parameter of this type takes for itself when its callable is lifted. -/
def ownDims : Ty → Nat
  | fixedDim _ elem => elem.ownDims + 1
  | symbolicDim _ elem => elem.ownDims + 1
  | _ => 0

/-- The sizes of the dimensions, unless one of them is symbolic. -/
def shape? : Ty → Option (List Nat)
  | fixedDim size elem => elem.shape?.map (size :: ·)
  | symbolicDim .. => none
  | ellipsis .. => none
  | _ => some []

/-- The sizes of the dimensions; no dimensions at all if one is symbolic. -/
def shape (t : Ty) : List Nat := t.shape?.getD []

/-- The type behind the first `n` dimensions, if there are so many. -/
def stripDims : Nat → Ty → Option Ty
  | 0, t => some t
  | n + 1, t => t.element?.bind (stripDims n)

def scalarKind? : Ty → Option Kind
  | scalar kind => some kind
  | _ => none

/-- Whether the type contains a variable, a symbolic dimension, an ellipsis or
`Any`. A type without them is concrete. -/
def isSymbolic : Ty → Bool
  | void => false
  | scalar _ => false
  | fixedDim _ elem => elem.isSymbolic
  | _ => true

/-- The variables of a type as they occur: type variables, symbolic dimensions
and named ellipses. -/
def mentions : Ty → List String
  | typeVar name => [name]
  | symbolicDim name elem => name :: elem.mentions
  | ellipsis (some name) elem => name :: elem.mentions
  | ellipsis none elem => elem.mentions
  | fixedDim _ elem => elem.mentions
  | _ => []

/-- The distinct variables of a type, ascending. -/
def typeVars (t : Ty) : List String := NameTable.sortedNames t.mentions

/-- Whether every value of the first type converts to the second without loss,
element by element. Dimensions must agree exactly. -/
def canPromoteTo : Ty → Ty → Bool
  | scalar a, scalar b => a.canPromoteTo b
  | fixedDim m a, fixedDim n b => m = n && a.canPromoteTo b
  | a, b => a = b

def render : Ty → String
  | void => "void"
  | scalar kind => kind.name
  | fixedDim size elem => toString size ++ " * " ++ elem.render
  | symbolicDim name elem => name ++ " * " ++ elem.render
  | ellipsis (some name) elem => name ++ "... * " ++ elem.render
  | ellipsis none elem => "... * " ++ elem.render
  | typeVar name => name
  | any => "Any"

def renderSizes (sizes : List Nat) : String :=
  "[" ++ ", ".intercalate (sizes.map toString) ++ "]"

def renderAll (types : List Ty) : String :=
  ", ".intercalate (types.map render)

end Ty

end ArrayCall
