import ArrayCall.Ty.Basic

/-!
# Matching declared types against concrete ones

A signature's types contain variables. `Bindings.unify` matches one of them against
a concrete type and binds the variables it meets; `Bindings.substitute` replaces
variables by what they are bound to.

* A variable that is bound already must be met with an equal value again.
* A kind in a pattern accepts every kind that promotes to it without loss.
* An ellipsis stands for as many fixed dimensions as leave its element type just
  the dimensions that it has.
-/

namespace ArrayCall

/-- What a variable stands for. -/
inductive Binding where
  /-- `T` stands for a type. -/
  | type (t : Ty)
  /-- `N` in `N * T` stands for a size. -/
  | dim (size : Nat)
  /-- `Dims` in `Dims... * T` stands for a run of sizes. -/
  | dims (sizes : List Nat)
  deriving DecidableEq, Inhabited

def Binding.render : Binding → String
  | type t => t.render
  | dim size => "dimension " ++ toString size
  | dims sizes => "dimensions " ++ Ty.renderSizes sizes

abbrev Bindings := NameTable Binding

/-- Why a pattern does not match, or cannot be made concrete. -/
inductive BindingError where
  | conflict (name : String) (bound found : Binding)
  | notVoid (found : Ty)
  | notOfKind (want : Kind) (found : Ty)
  | sizeDiffers (found want : Nat)
  | notOfSize (want : Nat) (found : Ty)
  | notDimension (name : String) (found : Ty)
  | tooFewDimensions (least : Nat) (found : Ty)
  | cannotStrip (count : Nat) (found : Ty)
  | anyIsNotConcrete
  | notType (name : String) (bound : Binding)
  | unboundType (name : String)
  | unboundDimension (name : String)
  | unboundEllipsis (name : String)
  | unnamedEllipsis
  deriving DecidableEq

def BindingError.message : BindingError → String
  | conflict name bound found =>
    "`" ++ name ++ "` is already bound to " ++ bound.render ++ ", found " ++ found.render
  | notVoid found => "expected void, found `" ++ found.render ++ "`"
  | notOfKind want found => "expected `" ++ want.name ++ "`, found `" ++ found.render ++ "`"
  | sizeDiffers found want =>
    "dimension of size " ++ toString found ++ " does not match declared size " ++ toString want
  | notOfSize want found =>
    "expected a dimension of size " ++ toString want ++ ", found `" ++ found.render ++ "`"
  | notDimension name found =>
    "expected a dimension `" ++ name ++ "`, found `" ++ found.render ++ "`"
  | tooFewDimensions least found =>
    "expected at least " ++ toString least ++ " dimensions, found `" ++ found.render ++ "`"
  | cannotStrip count found =>
    "cannot strip " ++ toString count ++ " dimensions from `" ++ found.render ++ "`"
  | anyIsNotConcrete => "`Any` has no concrete substitution"
  | notType name bound => "`" ++ name ++ "` is bound to " ++ bound.render ++ ", not a type"
  | unboundType name => "type variable `" ++ name ++ "` is unbound"
  | unboundDimension name => "dimension `" ++ name ++ "` is unbound"
  | unboundEllipsis name => "ellipsis `" ++ name ++ "...` is unbound"
  | unnamedEllipsis => "an unnamed ellipsis cannot be substituted"

/-- A match that failed, with the bindings made on the way. -/
structure Clash where
  error : BindingError
  bindings : Bindings
  deriving DecidableEq

namespace Bindings

/-- Binds a variable, or checks that it stands for the given value already. -/
def bind (b : Bindings) (name : String) (value : Binding) : Except Clash Bindings :=
  match b.get? name with
  | none => .ok (b.insert name value)
  | some bound => if bound = value then .ok b else .error ⟨.conflict name bound value, b⟩

/-- Matches a concrete type against a pattern and binds the pattern's variables. -/
def unify (b : Bindings) : (pattern actual : Ty) → Except Clash Bindings
  | .any, _ => .ok b
  | .typeVar name, actual => b.bind name (.type actual)
  | .void, actual => if actual = .void then .ok b else .error ⟨.notVoid actual, b⟩
  | .scalar want, .scalar found =>
    if found.canPromoteTo want then .ok b else .error ⟨.notOfKind want (.scalar found), b⟩
  | .scalar want, actual => .error ⟨.notOfKind want actual, b⟩
  | .fixedDim want elem, .fixedDim found inner =>
    if found = want then b.unify elem inner else .error ⟨.sizeDiffers found want, b⟩
  | .fixedDim want _, actual => .error ⟨.notOfSize want actual, b⟩
  | .symbolicDim name elem, .fixedDim size inner => do
    (← b.bind name (.dim size)).unify elem inner
  | .symbolicDim name _, actual => .error ⟨.notDimension name actual, b⟩
  | .ellipsis name elem, actual =>
    let shape := actual.shape
    if shape.length < elem.ndim then .error ⟨.tooFewDimensions elem.ndim actual, b⟩
    else do
      let outer := shape.length - elem.ndim
      let b ← match name with
        | some name => b.bind name (.dims (shape.take outer))
        | none => .ok b
      match actual.stripDims outer with
      | some rest => b.unify elem rest
      | none => .error ⟨.cannotStrip outer actual, b⟩

/-- Replaces the variables of a pattern by what they stand for. -/
def substitute (b : Bindings) : Ty → Except BindingError Ty
  | .void => .ok .void
  | .scalar kind => .ok (.scalar kind)
  | .any => .error .anyIsNotConcrete
  | .typeVar name =>
    match b.get? name with
    | some (.type t) => .ok t
    | some bound => .error (.notType name bound)
    | none => .error (.unboundType name)
  | .fixedDim size elem => (b.substitute elem).map (.fixedDim size)
  | .symbolicDim name elem =>
    match b.get? name with
    | some (.dim size) => (b.substitute elem).map (.fixedDim size)
    | _ => .error (.unboundDimension name)
  | .ellipsis (some name) elem =>
    match b.get? name with
    | some (.dims sizes) => (b.substitute elem).map (.withShape sizes)
    | _ => .error (.unboundEllipsis name)
  | .ellipsis none _ => .error .unnamedEllipsis

end Bindings

end ArrayCall
