import ArrayCall.Callable.Build
import ArrayCall.Config.Basic

/-!
# Builtin callables

Arithmetic over every numeric kind, scaling and copying, and the callables that a
registry starts with. Builders draw the stamps of new callables from a counter.
-/

namespace ArrayCall

abbrev Builder := StateT Nat (Except CallError)

namespace Builder

def stamp : Builder Nat := modifyGet fun n => (n, n + 1)

def leaf (name : String) (sig : Signature) (kernel : Leaf) : Builder Callable := do
  Callable.ofLeaf (← stamp) name sig kernel

def dispatch (name : String) (arity : Nat) (table : Dispatcher Callable) : Builder Callable := do
  Callable.ofTable (← stamp) name arity table

def elwise (child : Callable) : Builder Callable := do
  return child.elwise (← stamp)

def liftTo (child : Callable) (types : List Ty) : Builder Callable := do
  child.liftTo (← stamp) types

def permute (child : Callable) (slots : List Int) : Builder Callable := do
  child.permuted (← stamp) slots

def reduce (child : Callable) (assoc : Callable.Associativity) (identity : Option Scalar) :
    Builder Callable := do
  child.reduced (← stamp) (← stamp) assoc identity

end Builder

namespace Builtins

/-- The signature of a callable of `arity` arguments and a result of one type. -/
def uniform (arity : Nat) (t : Ty) : Signature := ⟨List.replicate arity t, [], t⟩

def nameFor (operation variant : String) : String := operation ++ "[" ++ variant ++ "]"

/-- `(k, k) -> k` for one kind. -/
def binaryKernel (op : BinaryOp) (k : Kind) : Builder Callable :=
  match KernelFamily.kernel? (.binary op) k with
  | some kernel => Builder.leaf (nameFor op.name k.name) (uniform 2 (.scalar k)) ⟨.fixed kernel, none⟩
  | none => throw (.registration op.name (.noKernel k))

/-- `(T, T) -> T`, the kernel being picked once `T` is known. -/
def binaryGeneric (op : BinaryOp) : Builder Callable :=
  Builder.leaf (nameFor op.name "T") (uniform 2 (.typeVar "T")) ⟨.perKind (.binary op), none⟩

def dispatchOver (config : DispatchConfig) (name : String) (arity : Nat)
    (entries : List (DispatchKey × Callable)) : Builder Callable :=
  match Dispatcher.ofEntries config entries with
  | .ok table => Builder.dispatch name arity table
  | .error key => throw (.registration name (.duplicateKey key))

def binaryDispatch (config : DispatchConfig) (op : BinaryOp) : Builder Callable := do
  let entries ← Kind.numeric.mapM fun k => do
    return (List.replicate 2 (TypeId.scalar k), ← binaryKernel op k)
  dispatchOver config op.name 2 entries

/-- `(k) -> k` for one kind. -/
def negativeKernel (k : Kind) : Builder Callable :=
  match KernelFamily.negative.kernel? k with
  | some kernel =>
    Builder.leaf (nameFor "negative" k.name) (uniform 1 (.scalar k)) ⟨.fixed kernel, none⟩
  | none => throw (.registration "negative" (.noKernel k))

def negativeDispatch (config : DispatchConfig) : Builder Callable := do
  let entries ← (Kind.numeric.filter (!·.isUnsigned)).mapM fun k => do
    return ([TypeId.scalar k], ← negativeKernel k)
  dispatchOver config "negative" 1 entries

/-- `(T, factor: Any) -> T`: multiplies by a number of any numeric kind, computing in
double precision. -/
def scale : Builder Callable :=
  Builder.leaf "scale" { uniform 1 (.typeVar "T") with kwds := [⟨"factor", .any, false⟩] }
    ⟨.perKind .scale, some .factor⟩

/-- `(T) -> T`: copies an element. With a destination type it converts without loss. -/
def copy : Builder Callable :=
  Builder.leaf "assign[T]" (uniform 1 (.typeVar "T")) ⟨.fixed .assign, some .cast⟩

/-- Elementwise assignment from one kind to another, lossy conversions included. -/
def assignment (dst src : Kind) : Builder Callable := do
  let name := nameFor "assign" (src.name ++ " -> " ++ dst.name)
  let leaf ← Builder.leaf name ⟨[.scalar src], [], .scalar dst⟩ ⟨.fixed .assign, some .cast⟩
  Builder.elwise leaf

/-- The callables that a registry starts with, by name. -/
def all (config : DispatchConfig) : Builder (List (String × Callable)) := do
  let add ← binaryDispatch config .add
  let subtract ← binaryDispatch config .subtract
  let multiply ← binaryDispatch config .multiply
  let divide ← binaryDispatch config .divide
  let maximum ← binaryDispatch config .maximum
  let minimum ← binaryDispatch config .minimum
  return [
    ("add", ← Builder.elwise add),
    ("subtract", ← Builder.elwise subtract),
    ("multiply", ← Builder.elwise multiply),
    ("divide", ← Builder.elwise divide),
    ("maximum", ← Builder.elwise maximum),
    ("minimum", ← Builder.elwise minimum),
    ("negative", ← Builder.elwise (← negativeDispatch config)),
    ("scale", ← Builder.elwise (← scale)),
    ("assign", ← Builder.elwise (← copy)),
    ("sum", ← Builder.reduce add .left (some (.int 0))),
    ("prod", ← Builder.reduce multiply .left (some (.int 1)))]

end Builtins

end ArrayCall
