import ArrayCall.CallGraph
import ArrayCall.Machine
import ArrayCall.Memory

/-!
# Running a call graph

A node is run either once, on one destination and one address for each source, or
strided: on `count` items, each address moving on by its stride from item to item.
What a node does is said in terms of a `Runner` for its children; `CallGraph.runner`
ties the knot, one level of the graph after another.

A run acts on memory until it ends or fails. What it wrote before it failed stays,
and the error names the innermost kernel that it passed through.
-/

namespace ArrayCall

/-- An action on memory that may fail; what it has written until then stays. -/
abbrev Run := ExceptT CallError (StateM Memory)

namespace Run

def fail {α : Type} (fault : ExecutionFault) : Run α := throw (.execution none fault)

def ofExcept {α : Type} : Except ExecutionFault α → Run α
  | .ok v => pure v
  | .error fault => fail fault

def loadBytes (a : Addr) (length : Nat) : Run Bytes := do
  ofExcept ((← get).readBytes a length)

def storeBytes (a : Addr) (new : Bytes) : Run Unit := do
  ofExcept ((← get).checkWrite a new.length)
  modify (·.put a new)

def load (k : Kind) (a : Addr) : Run Scalar := do return k.decode (← loadBytes a k.size)

def store (k : Kind) (a : Addr) (value : Scalar) : Run Unit := storeBytes a (value.encode k)

def scratch (node slot length : Nat) : Run Addr :=
  modifyGet fun m =>
    let (region, m) := m.scratch node slot length
    (⟨region, 0⟩, m)

/-- Names the kernel that an error arose in, unless one is named. -/
def within {α : Type} (kernel : Kernel) (act : Run α) : Run α :=
  ExceptT.adapt (CallError.withKernel kernel.name) act

/-- Does something for each of `count` numbers, in order, the first of which is
`start`. -/
def forFrom (act : Nat → Run Unit) (start : Nat) : (count : Nat) → Run Unit
  | 0 => pure ()
  | count + 1 => do
    act start
    forFrom act (start + 1) count

/-- Does something for each of the numbers below `count`, in order. -/
def forEach (count : Nat) (act : Nat → Run Unit) : Run Unit := forFrom act 0 count

end Run

/-- The arguments of a strided run. Strides are in bytes. -/
structure Strided where
  dst : Addr
  dstStride : Int
  src : List Addr
  srcStride : List Int
  count : Nat
  deriving DecidableEq, Inhabited

namespace Strided

/-- The destination of item `k`. -/
def dstAt (s : Strided) (k : Nat) : Addr := s.dst.advance (k * s.dstStride)

/-- The sources of item `k`. -/
def srcAt (s : Strided) (k : Nat) : List Addr :=
  List.zipWith (fun a stride => Addr.advance a (k * stride)) s.src s.srcStride

end Strided

/-- How nodes are run, by their numbers. -/
structure Runner where
  single : Nat → Addr → List Addr → Run Unit
  strided : Nat → Strided → Run Unit

namespace Node

/-- Addresses moved on to index `i` of a loop. A source without a stride stays. -/
def advanceAll (i : Nat) : List Addr → List Int → List Addr
  | a :: as, s :: ss => a.advance (i * s) :: advanceAll i as ss
  | as, [] => as
  | [], _ => []

def slotOf {α : Type} (dst : α) (src : List α) (slot : Int) : Except ExecutionFault α :=
  if slot < 0 then .ok dst
  else
    match src[slot.toNat]? with
    | some a => .ok a
    | none => .error (.missingSource slot.toNat)

/-- How many sources a permutation gives to its child. -/
def slotCount (n : Node) : Nat :=
  match n.data with
  | .permutation slots => slots.length
  | _ => 0

def runLoop (g : CallGraph) (children : Runner) (id : Nat) (n : Node)
    (dst : Addr) (src : List Addr) : Run Unit := do
  match n.data with
  | .loop l =>
    let child ← Run.ofExcept (g.child id n 0)
    if l.innermost then children.strided child ⟨dst, l.dstStride, src, l.srcStride, l.extent⟩
    else
      Run.forEach (Machine.rounds l.extent) fun i =>
        children.single child (dst.advance (i * l.dstStride)) (advanceAll i src l.srcStride)
  | _ => Run.fail .noLoop

/-- Converts the sources that need it, the first of which is number `slot`, and gives
the addresses to read them from. -/
def convertSources (id : Nat) :
    (slot : Nat) → List Addr → List (Option (Kind × Kind)) → Run (List Addr)
  | slot, a :: as, none :: plan => do
    return a :: (← convertSources id (slot + 1) as plan)
  | slot, a :: as, some (actual, kernel) :: plan => do
    let place ← Run.scratch id slot kernel.size
    Run.store kernel place (← Run.load actual a)
    return place :: (← convertSources id (slot + 1) as plan)
  | _, _, _ => return []

/-- Runs a conversion on one set of addresses. The child may read the destination,
so its scratch starts from the destination's value. -/
def runConvert (g : CallGraph) (children : Runner) (id : Nat) (n : Node)
    (dst : Addr) (src : List Addr) : Run Unit := do
  match n.data with
  | .convert plan =>
    let child ← Run.ofExcept (g.child id n 0)
    let childSrc ← convertSources id 0 src plan.src
    match plan.dst with
    | none => children.single child dst childSrc
    | some (actual, kernel) =>
      let place ← Run.scratch id src.length kernel.size
      Run.store kernel place (← Run.load actual dst)
      children.single child place childSrc
      Run.store actual dst (← Run.load kernel place)
  | _ => Run.fail .noPlan

def runSingle (g : CallGraph) (children : Runner) (id : Nat) (n : Node)
    (dst : Addr) (src : List Addr) : Run Unit :=
  match n.kernel with
  | .binary op k =>
    match src with
    | [a, b] => do
      let x ← Run.loadBytes a k.size
      let y ← Run.loadBytes b k.size
      Run.storeBytes dst (← Run.ofExcept (op.apply k x y))
    | _ => Run.fail .notTwoSources
  | .negative k =>
    match src with
    | [a] => do Run.storeBytes dst (k.negate (← Run.loadBytes a k.size))
    | _ => Run.fail .notOneSource
  | .scale k =>
    match n.data, src with
    | .scalar factor, [a] => do
      Run.store k dst (.float ((← Run.load k a).toDouble.combine (· * ·) factor.toDouble))
    | _, _ => Run.fail .scaleOperands
  | .assign =>
    match n.data, src with
    | .cast actual target, [a] => do Run.store target dst (← Run.load actual a)
    | _, _ => Run.fail .assignOperands
  | .loop => runLoop g children id n dst src
  | .permute =>
    match n.data with
    | .permutation slots => do
      let childSrc ← slots.mapM fun slot => Run.ofExcept (slotOf dst src slot)
      let child ← Run.ofExcept (g.child id n 0)
      children.single child dst childSrc
    | _ => Run.fail .noPermutation
  | .fold =>
    match n.data with
    | .fold identity acc => do
      match identity with
      | some v => Run.store acc dst v
      | none => pure ()
      let child ← Run.ofExcept (g.child id n 0)
      children.single child dst src
    | _ => Run.fail .noAccumulator
  | .convert => runConvert g children id n dst src
  | .noop => pure ()

/-- Runs a node strided. A binary operation goes through the items with its two sources taken apart, which need to
be two even if there are no items; a permutation hands all items to its child, and every other node is run on one
item after the other. -/
def runStrided (g : CallGraph) (children : Runner) (id : Nat) (n : Node) (s : Strided) :
    Run Unit :=
  match n.kernel with
  | .binary op k =>
    match s.src, s.srcStride with
    | [a, b], [strideA, strideB] =>
      Run.forEach (Machine.rounds s.count) fun i => do
        let x ← Run.loadBytes (a.advance (i * strideA)) k.size
        let y ← Run.loadBytes (b.advance (i * strideB)) k.size
        Run.storeBytes (s.dst.advance (i * s.dstStride)) (← Run.ofExcept (op.apply k x y))
    | _, _ => Run.fail .notTwoSources
  | .permute =>
    match n.data with
    | .permutation slots => do
      let sources ← slots.mapM fun slot => Run.ofExcept do
        return (← slotOf s.dst s.src slot, ← slotOf s.dstStride s.srcStride slot)
      let child ← Run.ofExcept (g.child id n 0)
      children.strided child
        { s with src := sources.map (·.1), srcStride := sources.map (·.2) }
    | _ => Run.fail .noPermutation
  | _ => Run.forEach s.count fun k => runSingle g children id n (s.dstAt k) (s.srcAt k)

end Node

namespace CallGraph

/-- How to run the nodes of a graph whose paths from there on have at most `depth`
nodes. -/
def runner (g : CallGraph) : (depth : Nat) → Runner
  | 0 => ⟨fun _ _ _ => Run.fail .endless, fun _ _ => Run.fail .endless⟩
  | depth + 1 =>
    { single := fun id dst src => do
        let n ← Run.ofExcept (g.node id)
        Run.within n.kernel (n.runSingle g (g.runner depth) id dst src)
      strided := fun id s => do
        let n ← Run.ofExcept (g.node id)
        Run.within n.kernel (n.runStrided g (g.runner depth) id s) }

/-- The greatest number of sources that a node can be run on, if the first one is run
on `given` of them. -/
def maxSources (g : CallGraph) (given : Nat) : Nat :=
  g.nodes.foldl (fun most n => max most n.slotCount) given

/-- A depth that no run which ends goes beyond. A path that is longer goes in a circle,
and every round moves addresses between slots in the same way, or puts the same scratch
addresses in place of them. So whatever can come to a slot has come to it after as many
rounds as there are slots, and what has not failed by then never fails. -/
def maxDepth (g : CallGraph) (given : Nat) : Nat := (g.size + 1) * (g.maxSources given + 6)

def single (g : CallGraph) (id : Nat) (dst : Addr) (src : List Addr) : Run Unit :=
  (g.runner (g.maxDepth src.length)).single id dst src

def strided (g : CallGraph) (id : Nat) (s : Strided) : Run Unit :=
  (g.runner (g.maxDepth s.src.length)).strided id s

end CallGraph

end ArrayCall
