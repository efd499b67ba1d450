import ArrayCall.CallGraph
import ArrayCall.Callable.Overloads
import ArrayCall.Callable.Resolve

/-!
# Instantiation

Instantiation writes the kernel nodes of a call into a graph, for given layouts of the
destination and the arguments, and gives the number of the root. If it fails it has
released whatever it wrote.

Going from a callable to the target of an overload is a jump. A path of calls that
ends takes each registered overload at most once: to come to it again would be to
instantiate the same callable for the same types within itself. So as many jumps as
there are overloads are allowed, and where they are used up there is no end.
-/

namespace ArrayCall

/-- Where nodes are written, adopted and released again. -/
class Arena (σ : Type) where
  size : σ → Nat
  push : σ → Kernel → NodeData → Nat × σ
  adopt : σ → (parent child : Nat) → σ
  rollback : σ → (mark : Nat) → List Nat × σ

instance : Arena CallGraph := ⟨CallGraph.size, CallGraph.push, CallGraph.adopt, CallGraph.rollback⟩

/-- Writes nodes. It may fail, and it may have no end, for which there is no result at
all. -/
abbrev BuildIn (σ : Type) := ExceptT CallError (StateT σ Option)

/-- Writes nodes into a graph. -/
abbrev Build := BuildIn CallGraph

namespace Build

variable {σ : Type} [Arena σ]

def endless {α : Type} : BuildIn σ α := fun _ => none

def mark : BuildIn σ Nat := return Arena.size (← get)

def push (kernel : Kernel) (data : NodeData) : BuildIn σ Nat :=
  modifyGet (Arena.push · kernel data)

def adopt (parent child : Nat) : BuildIn σ Unit := modify (Arena.adopt · parent child)

def rollback (mark : Nat) : BuildIn σ Unit := modify fun s => (Arena.rollback s mark).2

/-- Writes a node that is the child of another one. -/
def pushBelow (parent : Nat) (n : Kernel × NodeData) : BuildIn σ Nat := do
  let id ← push n.1 n.2
  adopt parent id
  return id

/-- Writes a chain of nodes, each the child of the one before it, and gives the numbers
of the first and the last. -/
def pushChain (first : Kernel × NodeData) (rest : List (Kernel × NodeData)) :
    BuildIn σ (Nat × Nat) := do
  let root ← push first.1 first.2
  let last ← rest.foldlM pushBelow root
  return (root, last)

/-- Writes a chain of nodes and below it a child, and gives the number of the first
node. If the child cannot be written the chain is released again. -/
def above (first : Kernel × NodeData) (rest : List (Kernel × NodeData)) (child : BuildIn σ Nat)
    (onError : CallError → CallError) : BuildIn σ Nat := do
  let before ← mark
  let (root, last) ← pushChain first rest
  let id ← tryCatch child fun e => do
    rollback before
    throw (onError e)
  adopt last id
  return root

/-- Writes the node of a leaf, behind a conversion if one is needed. -/
def leaf (plan : Kernel × NodeData × ConvertPlan) : BuildIn σ Nat := do
  let (kernel, data, conversions) := plan
  if conversions.isIdentity then push kernel data
  else
    let root ← push .convert (.convert conversions)
    let _ ← pushBelow root (kernel, data)
    return root

end Build

/-- The steps in which a callable is written, whatever it is that they come to. -/
structure Writer (ρ : Type) where
  endless : ρ
  fail : CallError → ρ
  /-- Changes an error. -/
  adapt : (CallError → CallError) → ρ → ρ
  leaf : Kernel × NodeData × ConvertPlan → ρ
  /-- Writes a chain of nodes and below it a child; changes an error of the child. -/
  above : Kernel × NodeData → List (Kernel × NodeData) → ρ → (CallError → CallError) → ρ

namespace Writer

def andThen {ρ α : Type} (w : Writer ρ) (x : Except CallError α) (next : α → ρ) : ρ :=
  match x with
  | .ok a => next a
  | .error e => w.fail e

/-- Writes into an arena. -/
def ofArena (σ : Type) [Arena σ] : Writer (BuildIn σ Nat) where
  endless := Build.endless
  fail e := throw e
  adapt := ExceptT.adapt
  leaf := Build.leaf
  above := Build.above

end Writer

namespace Callable

/-! ## Leaves -/

def scalarKind (c : Callable) (t : Ty) (position : ArgPosition) : Except CallError Kind :=
  match t.scalarKind? with
  | some k => .ok k
  | none => .error (c.mismatch position (.notScalar t))

def declared (c : Callable) (b : Bindings) (t : Ty) (position : ArgPosition) :
    Except CallError Ty :=
  match b.substitute t with
  | .ok t => .ok t
  | .error e => .error (c.mismatch position (.binding e))

/-- For each argument the kind that it has and the kind that the kernel takes. -/
def sourceKinds (c : Callable) (b : Bindings) (params args : List Ty) :
    Except CallError (List (Kind × Kind)) :=
  (params.zip args).zipIdx.mapM fun ((p, a), i) => do
    let actual ← c.scalarKind a (.source i)
    let kernel ← c.scalarKind (← c.declared b p (.source i)) (.source i)
    return (actual, kernel)

/-- The kind that the destination has and the kind that the kernel writes; no kinds if
there is nothing to write. -/
def destinationKinds (c : Callable) (dst ret : Ty) : Except CallError (Option (Kind × Kind)) :=
  match dst, ret with
  | .void, .void => .ok none
  | _, _ => do
    let actual ← c.scalarKind dst .destination
    let kernel ← c.scalarKind ret .destination
    return some (actual, kernel)

/-- The kernel of a leaf for the kinds that it was resolved to. -/
def pickKernel (c : Callable) (k : LeafKernel) (args : List Ty) (kind : Option Kind) :
    Except CallError Kernel :=
  match k with
  | .fixed k => .ok k
  | .perKind f =>
    match kind.bind f.kernel? with
    | some k => .ok k
    | none => .error (.noMatchingOverload c.name args (.source 0))

/-- The number that the keyword `factor` gives. -/
def factorOf (kwds : Keywords) : Except CallError Scalar :=
  let position := ArgPosition.keyword "factor"
  match kwds.get? "factor" with
  | some (.scalar (.bool _)) => .error (.typeMismatch "scale" position .booleanFactor)
  | some (.scalar s) => .ok s
  | some other => .error (.typeMismatch "scale" position (.factorNotNumber other.ty))
  | none => .error (.arity "scale" position .missingFactor)

def initData (init : Option DataInit) (kwds : Keywords) (src : List Kind) (dst : Option Kind) :
    Except CallError NodeData :=
  match init with
  | none => .ok .none
  | some .factor => (factorOf kwds).map .scalar
  | some .cast =>
    match src, dst with
    | [source], some target => .ok (.cast source target)
    | _, _ => .error (.typeMismatch "assign" .destination .notScalarCopy)

/-- What a leaf needs for given types: its kernel, the data of its node and the
conversions around it. -/
def planLeaf (c : Callable) (kernel : Leaf) (dst : Ty) (args : List Ty) (kwds : Keywords) :
    Except CallError (Kernel × NodeData × ConvertPlan) := do
  let b ← c.bindParams args
  let kinds ← c.sourceKinds b c.signature.params args
  let ret ← c.declared b c.signature.ret .destination
  let dstKinds ← c.destinationKinds dst ret
  let kernelSrc := kinds.map (·.2)
  let kernelDst := dstKinds.map (·.2)
  let k ← c.pickKernel kernel.kernel args (kernelSrc.head?.or kernelDst)
  let data ← initData kernel.dataInit kwds kernelSrc kernelDst
  return (k, data, .between (kinds.map (·.1)) kernelSrc (dstKinds.map (·.1)) kernelDst)

/-! ## Lifting -/

/-- What a lifted callable leaves to its child: how many dimensions of the destination
are its own, how many of each argument, and the layouts behind them. -/
structure LiftPlan where
  outer : Nat
  own : List Nat
  dst : Layout
  src : List Layout

def liftSource (c : Callable) (outer index : Nat) (src : Layout) (param : Ty) :
    Except CallError (Nat × Layout) :=
  let rank := src.ty.shape.length
  let own := rank - param.ownDims
  if rank < param.ownDims ∨ outer < own then
    .error (c.mismatch (.source index) (.doesNotFit src.ty))
  else
    match src.inner? own with
    | some inner => .ok (own, inner)
    | none => .error (.layout (.fewSourceStrides index))

/-- Takes the destination and the arguments of a lifted callable apart. -/
def liftPlan (c child : Callable) (dst : Layout) (src : List Layout) :
    Except CallError LiftPlan := do
  let sig := child.signature
  let rank := dst.ty.shape.length
  if rank < sig.ret.ownDims then throw (c.mismatch .destination .shallowDestination)
  let outer := rank - sig.ret.ownDims
  let parts ← (src.zip sig.params).zipIdx.mapM fun ((m, p), i) => c.liftSource outer i m p
  match dst.inner? outer with
  | some inner => return ⟨outer, parts.map (·.1), inner, parts.map (·.2)⟩
  | none => throw (.layout .fewDestinationStrides)

/-- The stride of an argument in dimension `d` of a loop nest: none where the argument
has no such dimension or one of size one, else its own stride. -/
def loopStride (c : Callable) (outer d extent index : Nat) (own : Nat) (src : Layout) :
    Except CallError Int :=
  let lead := outer - own
  if d < lead then .ok 0
  else
    let size := src.ty.shape[d - lead]?.getD 0
    if size = extent then .ok (src.strides[d - lead]?.getD 0)
    else if size = 1 then .ok 0
    else .error (c.mismatch (.source index) (.cannotStretch size extent))

/-- The loops over the outer dimensions of a destination, outermost first. -/
def loopNest (c : Callable) (outer : Nat) (own : List Nat) (dst : Layout) (src : List Layout) :
    Except CallError (List DimLoop) :=
  (dst.ty.shape.take outer).zipIdx.mapM fun (extent, d) => do
    let srcStride ← (own.zip src).zipIdx.mapM fun ((n, m), i) => c.loopStride outer d extent i n m
    return ⟨extent, dst.strides[d]?.getD 0, srcStride, d + 1 = outer⟩

/-! ## Reductions -/

/-- The loops of a reduction over all dimensions of its argument, none of which moves
the destination. -/
def reductionLoops (src : Layout) : List DimLoop :=
  let shape := src.ty.shape
  shape.zipIdx.map fun (extent, d) =>
    ⟨extent, 0, [src.strides[d]?.getD 0], d + 1 = shape.length⟩

/-- What a reduction accumulates in and what it folds: the kind of the destination, and
the layout of one element of its argument. -/
def reductionPlan (c : Callable) (dst : Layout) (src : Layout) :
    Except CallError (Kind × Layout) :=
  match dst.ty.scalarKind? with
  | none => .error (c.mismatch .destination (.cannotAccumulate dst.ty))
  | some acc =>
    match src.inner? src.ty.shape.length with
    | some inner => .ok (acc, inner)
    | none => .error (.layout (.fewSourceStrides 0))

/-! ## All callables -/

/-- What the target of an overload comes to. -/
abbrev Jump (ρ : Type) := Callable → (dst : Layout) → (src : List Layout) → ρ

/-- Writes the nodes of a callable itself. Its children are replaced by their overloads
for just the types that they are instantiated for; `jump` writes those. -/
def writeNode {ρ : Type} (w : Writer ρ) (os : Overloads) (kwds : Keywords) (jump : Jump ρ)
    (c : Callable) (dst : Layout) (src : List Layout) : ρ :=
  w.andThen (c.checkArity src.length) fun _ =>
  let args := src.map (·.ty)
  match c with
  | .leaf _ _ _ kernel => w.andThen (c.planLeaf kernel dst.ty args kwds) w.leaf
  | .dispatch _ _ _ table =>
    match h : table.dispatch (args.map Ty.typeId) with
    | .error position => w.fail (c.noEntry args position)
    | .ok target =>
      have := sizeOf_dispatch_lt h
      match os.find? target dst.ty args with
      | none => writeNode w os kwds jump target dst src
      | some other => jump other dst src
  | .permute _ child slots =>
    let childSrc := slots.filterMap fun j => if j < 0 then some dst else src[j.toNat]?
    w.above (.permute, .permutation slots) []
      (match os.find? child dst.ty (childSrc.map (·.ty)) with
        | none => writeNode w os kwds jump child dst childSrc
        | some other => jump other dst childSrc)
      fun e => .wrap c.name (e.mapPosition (outerPosition slots))
  | .lift _ child _ =>
    w.andThen (c.liftPlan child dst src) fun plan =>
    w.andThen (c.loopNest plan.outer plan.own dst src) fun loops =>
    let below :=
      match os.find? child plan.dst.ty (plan.src.map (·.ty)) with
      | none => writeNode w os kwds jump child plan.dst plan.src
      | some other => jump other plan.dst plan.src
    match loops with
    | [] => w.adapt (.wrap c.name) below
    | outermost :: loops =>
      w.above (.loop, .loop outermost) (loops.map fun l => (.loop, .loop l)) below (.wrap c.name)
  | .reduce _ fold identity =>
    let arg := src.headD ⟨.void, []⟩
    w.andThen (c.reductionPlan dst arg) fun (acc, inner) =>
    w.above (.fold, .fold identity acc) ((reductionLoops arg).map fun l => (.loop, .loop l))
      (match os.find? fold dst.ty [inner.ty] with
        | none => writeNode w os kwds jump fold dst [inner]
        | some other => jump other dst [inner])
      (.wrap c.name)
  termination_by c

/-- Writes the target of an overload. This is one jump, and at most so many of them are
made in all. -/
def jumpWithin {ρ : Type} (w : Writer ρ) (os : Overloads) (kwds : Keywords) :
    (jumps : Nat) → Jump ρ
  | 0 => fun _ _ _ => w.endless
  | jumps + 1 => fun c dst src => c.writeNode w os kwds (jumpWithin w os kwds jumps) dst src

/-- Writes a callable, or its overload for just the types that it is instantiated for. -/
def writeWithin {ρ : Type} (w : Writer ρ) (os : Overloads) (kwds : Keywords) (jumps : Nat)
    (c : Callable) (dst : Layout) (src : List Layout) : ρ :=
  match os.find? c dst.ty (src.map (·.ty)) with
  | none => c.writeNode w os kwds (jumpWithin w os kwds jumps) dst src
  | some other => jumpWithin w os kwds jumps other dst src

/-- Instantiates a callable, or its overload, with so many jumps at most. -/
def instantiateWithin (os : Overloads) (kwds : Keywords) (jumps : Nat) (c : Callable)
    (dst : Layout) (src : List Layout) : Build Nat :=
  c.writeWithin (.ofArena CallGraph) os kwds jumps dst src

/-- Writes the nodes of a call into a graph: the number of the root or the error, with
the graph after it. There is nothing if overloads lead back to what is being
instantiated, so that there is no end. -/
def instantiate (os : Overloads) (c : Callable) (dst : Layout) (src : List Layout)
    (kwds : Keywords) (g : CallGraph) : Option (Except CallError Nat × CallGraph) :=
  (c.instantiateWithin os kwds os.length dst src).run g

end Callable

end ArrayCall
