import ArrayCall.Callable.Basic

/-!
# Building callables

Each function checks what a callable is built from and refuses what cannot work, with
a registration error that names the callable that was not built. `stamp` is the stamp
of the new callable; giving each one its own is up to the caller.
-/

namespace ArrayCall.Callable

/-- A kernel on elements. Parameters and result must be scalars or type variables, or
`void`. -/
def ofLeaf (stamp : Nat) (name : String) (sig : Signature) (kernel : Leaf) :
    Except CallError Callable :=
  match (sig.params ++ [sig.ret]).find? fun t => t.isDim || t = .any with
  | some t => .error (.registration name (.notElement t))
  | none => .ok (.leaf stamp name sig kernel)

/-- The keyword parameters of several signatures; of those of one name the first. -/
def joinKwds (lists : List (List KeywordParam)) : List KeywordParam :=
  lists.flatten.foldl (fun kwds k => if kwds.any (·.name == k.name) then kwds else kwds ++ [k]) []

/-- A callable that picks one of several callables of the same arity. It takes the
keywords of all of them. -/
def ofTable (stamp : Nat) (name : String) (arity : Nat) (table : Dispatcher Callable) :
    Except CallError Callable :=
  if table.entries.isEmpty then .error (.registration name .emptyTable)
  else
    match table.entries.find? fun e => e.1.length ≠ arity || e.2.arity ≠ arity with
    | some (key, target) =>
      .error (.registration name (.entryArity target.name key.length arity))
    | none =>
      let kwds := joinKwds (table.entries.map (·.2.signature.kwds))
      .ok (.dispatch stamp name ⟨List.replicate arity .any, kwds, .any⟩ table)

/-- Applies a child elementwise over any number of leading dimensions. -/
def elwise (stamp : Nat) (child : Callable) : Callable := .lift stamp child none

/-- Applies a child elementwise to arguments of the given types, such as `N * int32`.
They must have the dimensions that the child takes for itself. -/
def liftTo (stamp : Nat) (child : Callable) (types : List Ty) : Except CallError Callable :=
  let lifted := Callable.lift stamp child (some types)
  let params := child.signature.params
  if types.length ≠ child.arity then
    .error (.registration lifted.name (.liftedCount types.length child.arity))
  else
    match (types.zip params).zipIdx.find? fun ((outer, inner), _) => outer.ndim < inner.ownDims with
    | some ((outer, inner), i) => .error (.registration lifted.name (.liftedShallow outer i inner))
    | none => .ok lifted

/-- The sources that the slots of a permutation read, in the order of the slots. -/
def sourcesOf (slots : List Int) : List Nat := (slots.filter (0 ≤ ·)).map Int.toNat

/-- Reorders the arguments of a child. There is one slot for each parameter of the
child, the slots name each source once, and at most one slot is `-1`, which reads the
destination. -/
def permuted (stamp : Nat) (child : Callable) (slots : List Int) : Except CallError Callable :=
  let result := Callable.permute stamp child slots
  let refuse (fault : RegistrationFault) : Except CallError Callable :=
    .error (.registration result.name fault)
  if slots.length ≠ child.arity then
    refuse (.permutationLength slots.length child.name child.arity)
  else
    match slots.find? (· < -1) with
    | some slot => refuse (.slotOutOfRange slot)
    | none =>
      let sources := sourcesOf slots
      if sources.length + 1 < slots.length then refuse .secondDestination
      else if sources.Nodup ∧ ∀ j ∈ sources, j < sources.length then .ok result
      else refuse (.notEachOnce sources.length)

/-- On which side a reduction has what it has accumulated. -/
inductive Associativity where
  /-- `dst = f(dst, x)` -/
  | left
  /-- `dst = f(x, dst)` -/
  | right
  deriving DecidableEq, Inhabited

/-- The slots of a binary callable that accumulates into its destination. -/
def Associativity.slots : Associativity → List Int
  | left => [-1, 0]
  | right => [0, -1]

/-- Folds a binary callable over every element of one argument. Without an identity
the fold starts from what the destination holds. -/
def reduced (stamp foldStamp : Nat) (child : Callable) (assoc : Associativity)
    (identity : Option Scalar) : Except CallError Callable :=
  if child.arity ≠ 2 then
    .error (.registration ("reduce(" ++ child.name ++ ")") (.notBinary child.name child.arity))
  else (child.permuted foldStamp assoc.slots).map fun fold => .reduce stamp fold identity

end ArrayCall.Callable
