import ArrayCall.Bindings
import ArrayCall.Dispatcher

/-!
# What can go wrong in a call

One type of causes for each kind of failure, with the wording of each cause. The
types of `ArrayCall.Error.Basic` say where a cause arose.
-/

namespace ArrayCall

/-- Text between backquotes, as messages set off names and types. -/
def quoted (s : String) : String := "`" ++ s ++ "`"

/-- Why a type is not acceptable. -/
inductive TypeFault where
  | notConcrete (t : Ty)
  | cannotStore (result dst : Ty)
  | notLifted (t : Ty)
  | notScalar (t : Ty)
  | binding (e : BindingError)
  | tooFewDimensionsFor (t param : Ty)
  | tooFewDimensions (t : Ty)
  | shallowDestination
  | doesNotFit (t : Ty)
  | sizesDisagree (size against : Nat)
  | cannotStretch (size extent : Nat)
  | shapesDisagree (found target : List Nat)
  | cannotInfer
  | cannotFold (child : String) (result dst : Ty)
  | dimensionedResult (dst : Ty)
  | cannotAccumulate (t : Ty)
  | expectedArray
  | expectedType
  | destinationsDisagree (t array : Ty)
  | booleanFactor
  | factorNotNumber (t : Ty)
  | notScalarCopy
  deriving DecidableEq

def TypeFault.message : TypeFault → String
  | notConcrete t => quoted t.render ++ " is not a concrete type"
  | cannotStore result dst =>
    "result " ++ quoted result.render ++ " cannot be stored as " ++ quoted dst.render
  | notLifted t =>
    "kernel operates on scalar elements, found " ++ quoted t.render ++ "; lift it with `elwise`"
  | notScalar t => "kernel operates on scalar elements, found " ++ quoted t.render
  | binding e => e.message
  | tooFewDimensionsFor t param =>
    quoted t.render ++ " has too few dimensions for " ++ quoted param.render
  | tooFewDimensions t => quoted t.render ++ " has too few dimensions"
  | shallowDestination => "destination has too few dimensions"
  | doesNotFit t => quoted t.render ++ " does not fit the destination"
  | sizesDisagree size against =>
    "dimension of size " ++ toString size ++ " cannot broadcast against " ++ toString against
  | cannotStretch size extent =>
    "dimension of size " ++ toString size ++ " cannot broadcast to " ++ toString extent
  | shapesDisagree found target =>
    "arguments broadcast to " ++ Ty.renderSizes found ++ ", destination has " ++
      Ty.renderSizes target
  | cannotInfer => "cannot infer the destination type; pass `dst_tp`"
  | cannotFold child result dst =>
    quoted child ++ " produces " ++ quoted result.render ++
      ", which cannot accumulate into " ++ quoted dst.render
  | dimensionedResult dst =>
    "a full reduction produces one element, found " ++ quoted dst.render
  | cannotAccumulate t => "cannot accumulate into " ++ quoted t.render
  | expectedArray => "expected an array"
  | expectedType => "expected a type"
  | destinationsDisagree t array =>
    quoted t.render ++ " disagrees with the `dst` array of type " ++ quoted array.render
  | booleanFactor => "expected a number, found a boolean"
  | factorNotNumber t => "expected a number, found " ++ quoted t.render
  | notScalarCopy => "assignment needs one scalar source and a scalar destination"

/-- Why the number or the names of arguments are not acceptable. -/
inductive ArityFault where
  | positional (want found : Nat)
  | unexpectedKeyword
  | missingKeyword
  | missingFactor
  deriving DecidableEq

def ArityFault.message : ArityFault → String
  | positional want found =>
    "expected " ++ toString want ++ " positional arguments, got " ++ toString found
  | unexpectedKeyword => "unexpected keyword argument"
  | missingKeyword => "missing required keyword argument"
  | missingFactor => "expected a numeric `factor`"

/-- Why a callable cannot be built or registered. -/
inductive RegistrationFault where
  | notElement (t : Ty)
  | emptyTable
  | entryArity (target : String) (keyLength arity : Nat)
  | duplicateKey (key : DispatchKey)
  | overloadArity (target : String) (found : Nat) (callable : String) (arity : Nat)
  | liftedCount (found arity : Nat)
  | liftedShallow (outer : Ty) (index : Nat) (inner : Ty)
  | permutationLength (found : Nat) (child : String) (arity : Nat)
  | slotOutOfRange (slot : Int)
  | secondDestination
  | notEachOnce (sources : Nat)
  | notBinary (child : String) (arity : Nat)
  | noKernel (kind : Kind)
  | nameTaken
  deriving DecidableEq

def RegistrationFault.message : RegistrationFault → String
  | notElement t =>
    "leaf kernels take scalars or type variables, found " ++ quoted t.render
  | emptyTable => "a dispatcher needs at least one entry"
  | entryArity target keyLength arity =>
    "entry " ++ quoted target ++ " with a " ++ toString keyLength ++
      "-element key does not take " ++ toString arity ++ " arguments"
  | duplicateKey key => "duplicate dispatch key (" ++ key.render ++ ")"
  | overloadArity target found callable arity =>
    "overload " ++ quoted target ++ " takes " ++ toString found ++ " arguments, " ++
      quoted callable ++ " takes " ++ toString arity
  | liftedCount found arity =>
    toString found ++ " lifted types for a child taking " ++ toString arity ++ " arguments"
  | liftedShallow outer index inner =>
    "lifted type " ++ quoted outer.render ++ " for argument " ++ toString index ++
      " has fewer dimensions than " ++ quoted inner.render
  | permutationLength found child arity =>
    "permutation has " ++ toString found ++ " entries but " ++ quoted child ++ " takes " ++
      toString arity ++ " arguments"
  | slotOutOfRange slot => "entry " ++ toString slot ++ " is out of range"
  | secondDestination => "at most one slot may read the destination"
  | notEachOnce sources =>
    "entries must name each of the " ++ toString sources ++ " sources exactly once"
  | notBinary child arity =>
    "reductions need a binary callable, " ++ quoted child ++ " takes " ++ toString arity
  | noKernel kind => "no kernel for " ++ kind.name
  | nameTaken => "name is already registered"

def renderStrides (strides : List Int) : String :=
  "[" ++ ", ".intercalate (strides.map toString) ++ "]"

/-- Why bytes and strides do not make an array, or an array cannot be read. -/
inductive LayoutFault where
  | cannotAllocate (t : Ty)
  | shapeHolds (shape : List Nat) (expected found : Nat)
  | notConcrete (t : Ty)
  | strideCount (t : Ty) (dimensions strides : Nat)
  | exceedsBuffer (t : Ty) (strides : List Int) (offset size : Nat)
  | wrongKind (t : Ty) (kind : Kind)
  | outOfBounds (index shape : List Nat)
  | noScalarElement (t : Ty)
  | typeHolds (t : Ty) (expected found : Nat)
  | fewSourceStrides (index : Nat)
  | fewDestinationStrides
  deriving DecidableEq

def LayoutFault.message : LayoutFault → String
  | cannotAllocate t => "cannot allocate " ++ quoted t.render
  | shapeHolds shape expected found =>
    "shape " ++ Ty.renderSizes shape ++ " holds " ++ toString expected ++ " elements, got " ++
      toString found
  | notConcrete t => quoted t.render ++ " is not a concrete type"
  | strideCount t dimensions strides =>
    quoted t.render ++ " has " ++ toString dimensions ++ " dimensions but " ++
      toString strides ++ " strides were given"
  | exceedsBuffer t strides offset size =>
    quoted t.render ++ " with strides " ++ renderStrides strides ++ " at offset " ++
      toString offset ++ " exceeds a buffer of " ++ toString size ++ " bytes"
  | wrongKind t kind => "cannot read " ++ quoted t.render ++ " elements as " ++ kind.name
  | outOfBounds index shape =>
    "index " ++ Ty.renderSizes index ++ " is out of bounds for shape " ++ Ty.renderSizes shape
  | noScalarElement t => quoted t.render ++ " has no scalar element type"
  | typeHolds t expected found =>
    quoted t.render ++ " holds " ++ toString expected ++ " elements, got " ++ toString found
  | fewSourceStrides index =>
    "argument " ++ toString index ++ " has fewer strides than dimensions"
  | fewDestinationStrides => "destination has fewer strides than dimensions"

/-- Why a kernel cannot go on. -/
inductive ExecutionFault where
  | noRegion (region : Nat)
  | outsideRegion (length : Nat) (offset : Int) (region size : Nat)
  | readOnly (region : Nat)
  | noNode (node : Nat)
  | noChild (node index : Nat)
  | missingSource (index : Nat)
  | noPlan
  | noPermutation
  | noLoop
  | noAccumulator
  | notTwoSources
  | notOneSource
  | scaleOperands
  | assignOperands
  | divisionByZero
  /-- The children of a node lead back to it, so a run would have no end. -/
  | endless
  deriving DecidableEq

def ExecutionFault.message : ExecutionFault → String
  | noRegion region => "region " ++ toString region ++ " does not exist"
  | outsideRegion length offset region size =>
    "access of " ++ toString length ++ " bytes at offset " ++ toString offset ++
      " is outside region " ++ toString region ++ " (" ++ toString size ++ " bytes)"
  | readOnly region => "region " ++ toString region ++ " is read-only"
  | noNode node => "node " ++ toString node ++ " does not exist"
  | noChild node index => "kernel node " ++ toString node ++ " has no child " ++ toString index
  | missingSource index => "permutation reads missing source " ++ toString index
  | noPlan => "convert node without a plan"
  | noPermutation => "permute node without a permutation"
  | noLoop => "loop node without loop data"
  | noAccumulator => "fold node without accumulator data"
  | notTwoSources => "binary kernel expects two sources"
  | notOneSource => "unary kernel expects one source"
  | scaleOperands => "scale expects a factor and one source"
  | assignOperands => "assign expects cast data and one source"
  | divisionByZero => "integer division by zero"
  | endless => "the call graph has a cycle"

end ArrayCall
