import ArrayCall.Broadcast
import ArrayCall.Callable.Infer

/-!
# Resolution

Resolution computes the type of a call's result from the types of its arguments. The
destination's type may be asked for, by a hint or by the keywords `dst` and `dst_tp`;
the result must then promote to it, and faults about the destination are reported at
the keyword that asked for it.

`Callable.resolveTypes` walks the adapters, and `Callable.resolve` is the whole of it.
-/

namespace ArrayCall.Callable

/-- Binds the variables of the parameters to the types of the arguments, the first of
which is number `index`. -/
def bindArgs (c : Callable) (index : Nat) (b : Bindings) :
    (params args : List Ty) → Except CallError Bindings
  | p :: params, a :: args =>
    match b.unify p a with
    | .ok b => c.bindArgs (index + 1) b params args
    | .error clash => .error (c.mismatch (.source index) (.binding clash.error))
  | _, _ => .ok b

/-- The bindings that the types of the arguments make. -/
def bindParams (c : Callable) (args : List Ty) : Except CallError Bindings :=
  c.bindArgs 0 .empty c.signature.params args

/-- Binds the variables of the keyword parameters to the types that the values given
for them present. -/
def bindKwds (c : Callable) (kwds : Keywords) :
    Bindings → List KeywordParam → Except CallError Bindings
  | b, [] => .ok b
  | b, k :: rest =>
    match kwds.get? k.name with
    | none => c.bindKwds kwds b rest
    | some value =>
      match b.unify k.ty value.ty with
      | .ok b => c.bindKwds kwds b rest
      | .error clash => .error (c.mismatch (.keyword k.name) (.binding clash.error))

/-- The first type of a list with its place, if one satisfies a test. -/
def firstWhere (test : Ty → Bool) (types : List Ty) : Option (Ty × Nat) :=
  types.zipIdx.find? fun (t, _) => test t

def resolveLeaf (c : Callable) (args : List Ty) (kwds : Keywords) : Except CallError Ty := do
  match firstWhere Ty.isDim args with
  | some (a, i) => throw (c.mismatch (.source i) (.notLifted a))
  | none => pure ()
  let b ← c.bindParams args
  let b ← c.bindKwds kwds b c.signature.kwds
  match b.substitute c.signature.ret with
  | .ok t => return t
  | .error e => throw (c.mismatch .destination (.binding e))

/-- What a dispatch callable reports if no entry takes the arguments. -/
def noEntry (c : Callable) (args : List Ty) (position : Nat) : CallError :=
  .noMatchingOverload c.name args (.source position)

/-! ## Permutations -/

def outerPosition (slots : List Int) : ArgPosition → ArgPosition
  | .source k =>
    match slots[k]? with
    | some j => if j < 0 then .destination else .source j.toNat
    | none => .source k
  | position => position

/-- The types at the slots of a permutation, except at one that reads the
destination. -/
def slotTypes (slots : List Int) (args : List Ty) : List (Option Ty) :=
  slots.map fun j => if j < 0 then none else args[j.toNat]?

/-- The type of the slot that reads the destination, if there is such a slot: the type
asked for, else what the other slots tell. -/
def slotDestination (c child : Callable) (slots : List Int) (dst : Option Ty)
    (known : List (Option Ty)) : Except CallError (Option Ty) :=
  match slots.findIdx? (· < 0) with
  | none => .ok none
  | some slot =>
    match dst with
    | some d => .ok (some d)
    | none =>
      match child.inferParam? known slot with
      | some d => .ok (some d)
      | none => .error (c.mismatch .destination .cannotInfer)

/-! ## Lifting -/

/-- An argument of a lifted callable: the sizes of its outer dimensions, and the type
that the child sees. -/
def splitArg (c : Callable) (index : Nat) (arg param : Ty) :
    Except CallError (List Nat × Ty) :=
  let shape := arg.shape
  if shape.length < param.ownDims then
    .error (c.mismatch (.source index) (.tooFewDimensionsFor arg param))
  else
    let outer := shape.length - param.ownDims
    .ok (shape.take outer, (arg.stripDims outer).getD arg)

/-- The arguments of a lifted callable, taken apart. -/
def splitArgs (c : Callable) (params args : List Ty) :
    Except CallError (List (List Nat × Ty)) :=
  (args.zip params).zipIdx.mapM fun ((a, p), i) => c.splitArg i a p

/-- What a lifted callable reports if shapes do not broadcast; shape number `dstIndex`
is that of the destination. -/
def broadcastFault (c : Callable) (dstIndex : Nat) (e : BroadcastError) : CallError :=
  c.mismatch (if e.index = dstIndex then .destination else .source e.index)
    (.sizesDisagree e.size e.against)

/-- The outer shape of a lifted call and the type asked of the child's result. Without
a destination the arguments' shapes are broadcast; a destination must have just the
shape that they and its own broadcast to. -/
def liftShape (c child : Callable) (dst : Option Ty) (shapes : List (List Nat)) :
    Except CallError (List Nat × Option Ty) :=
  match dst with
  | none =>
    match broadcast shapes with
    | .ok shape => .ok (shape, none)
    | .error e => .error (c.broadcastFault shapes.length e)
  | some d =>
    let own := child.signature.ret.ownDims
    let shape := d.shape
    if shape.length < own then .error (c.mismatch .destination (.tooFewDimensions d))
    else
      let outer := shape.length - own
      let target := shape.take outer
      match broadcast (shapes ++ [target]) with
      | .error e => .error (c.broadcastFault shapes.length e)
      | .ok found =>
        if found = target then .ok (found, d.stripDims outer)
        else .error (c.mismatch .destination (.shapesDisagree found target))

/-! ## All callables -/

/-- The type of a callable's result, given the type asked for if there is one. -/
def resolveTypes (c : Callable) (dst : Option Ty) (args : List Ty) (kwds : Keywords) :
    Except CallError Ty := do
  c.checkArity args.length
  kwds.checkAgainst c.name c.signature
  match c with
  | .leaf .. => c.resolveLeaf args kwds
  | .dispatch _ _ _ table =>
    match h : table.dispatch (args.map Ty.typeId) with
    | .ok target =>
      have := sizeOf_dispatch_lt h
      target.resolveTypes dst args kwds
    | .error position => throw (c.noEntry args position)
  | .permute _ child slots =>
    let known := slotTypes slots args
    let slotDst ← c.slotDestination child slots dst known
    let childArgs := known.filterMap (·.or slotDst)
    let ret ← (child.resolveTypes (slotDst.or dst) childArgs kwds).mapError
      (·.mapPosition (outerPosition slots))
    match slotDst with
    | none => return ret
    | some d =>
      if ret.canPromoteTo d then return d
      else throw (c.mismatch .destination (.cannotFold child.name ret d))
  | .lift _ child _ =>
    let _ ← c.bindParams args
    let parts ← c.splitArgs child.signature.params args
    let (shape, childDst) ← c.liftShape child dst (parts.map (·.1))
    let ret ← child.resolveTypes childDst (parts.map (·.2)) kwds
    return .withShape shape ret
  | .reduce _ fold _ =>
    match dst.filter Ty.isDim with
    | some d => throw (c.mismatch .destination (.dimensionedResult d))
    | none => fold.resolveTypes dst [(args.headD .void).dtype] kwds
  termination_by c

/-- The type asked for, with the position that asks for it: a keyword, else a hint
that is concrete. -/
def requestedType (c : Callable) (hint : Option Ty) (kwds : Keywords) :
    Except CallError (Option (Ty × ArgPosition)) := do
  match ← kwds.dstType? c.name with
  | some found => return some found
  | none => return (hint.filter (!·.isSymbolic)).map fun t => (t, .destination)

/-- Reports a fault of the destination at the position that asked for its type. -/
def reportAt (position : ArgPosition) (e : CallError) : CallError :=
  e.mapPosition fun p => if p = .destination then position else p

/-- The type of the result of a call with concrete arguments. -/
def resolve (c : Callable) (hint : Option Ty) (args : List Ty) (kwds : Keywords) :
    Except CallError Ty := do
  match firstWhere Ty.isSymbolic args with
  | some (a, i) => throw (c.mismatch (.source i) (.notConcrete a))
  | none => pure ()
  match ← c.requestedType hint kwds with
  | none => c.resolveTypes none args kwds
  | some (dst, position) =>
    let resolved ← (c.resolveTypes (some dst) args kwds).mapError (reportAt position)
    if resolved.canPromoteTo dst then return dst
    else throw (c.mismatch position (.cannotStore resolved dst))

end ArrayCall.Callable
