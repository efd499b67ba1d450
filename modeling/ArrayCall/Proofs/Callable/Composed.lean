import ArrayCall.Proofs.Builtins

/-!
# Callables of own kernels

`Callable.Composed` are the callables that the library's own builders make of its own kernels, by any
nesting of the adapters. Their leaves are native (`Leaf.Native`): a kernel of a family, for elements
of one kind or of whatever kind there is, or an assignment of one element. `Callable.Composed.formed` says
that nothing else stands in them, so that proofs go by induction over `Callable.Formed`.
-/

namespace ArrayCall

namespace KernelFamily

/-- What the kernels of a family read next to their sources. -/
def dataInit? : KernelFamily → Option DataInit
  | scale => some .factor
  | _ => none

/-- The kernel of a family for a kind with arithmetic. -/
def kernelFor : KernelFamily → Kind → Kernel
  | binary op, k => .binary op k
  | negative, k => .negative k
  | scale, k => .scale k

theorem kernel?_eq_some_iff {f : KernelFamily} {k : Kind} {kernel : Kernel} :
    f.kernel? k = some kernel ↔ k ≠ .bool ∧ f.kernelFor k = kernel := by
  cases f <;> simp [kernel?, kernelFor]

end KernelFamily

theorem Kind.ne_bool_of_mem_numeric {k : Kind} (numeric : k ∈ Kind.numeric) : k ≠ .bool := by
  rintro rfl
  exact absurd numeric (by decide)

/-- The leaves of the library, with their signatures. -/
inductive Leaf.Native : Signature → Leaf → Prop
  | ofKind {f : KernelFamily} {k : Kind} {kernel : Kernel} {kwds : List KeywordParam}
    (found : f.kernel? k = some kernel) :
      Native ⟨List.replicate f.reads (.scalar k), kwds, .scalar k⟩ ⟨.fixed kernel, f.dataInit?⟩
  | generic {f : KernelFamily} {name : String} {kwds : List KeywordParam} :
      Native ⟨List.replicate f.reads (.typeVar name), kwds, .typeVar name⟩ ⟨.perKind f, f.dataInit?⟩
  | assign {param ret : Ty} {kwds : List KeywordParam} : Native ⟨[param], kwds, ret⟩ ⟨.fixed .assign, some .cast⟩

/-- A native leaf takes just the sources that its kernel reads. -/
theorem Leaf.Native.own {sig : Signature} {leaf : Leaf} (native : Leaf.Native sig leaf) : leaf.Own sig := by
  cases native with
  | ofKind found =>
    rw [Leaf.Own]
    simp only [KernelFamily.reads?_kernel? found, Signature.arity, List.length_replicate]
  | generic => simp [Leaf.Own, Signature.arity]
  | assign => rfl

/-- No keyword of a signature binds a variable, and none has the name of the destination. -/
def Signature.OwnKeywords (sig : Signature) : Prop := ∀ k ∈ sig.kwds, k.ty.mentions = [] ∧ k.name ≠ Keywords.dstName

theorem Signature.ownKeywords_of_nil {sig : Signature} (none : sig.kwds = []) : sig.OwnKeywords := by
  simp [OwnKeywords, none]

namespace Callable

/-- The callables that the library's builders make. -/
inductive Composed : Callable → Prop
  | binaryKernel {op : BinaryOp} {k : Kind} {stamp next : Nat} {c : Callable}
      (built : Builtins.binaryKernel op k stamp = .ok (c, next)) : Composed c
  | binaryGeneric {op : BinaryOp} {stamp next : Nat} {c : Callable}
      (built : Builtins.binaryGeneric op stamp = .ok (c, next)) : Composed c
  | binaryDispatch {config : DispatchConfig} {op : BinaryOp} {stamp next : Nat} {c : Callable}
      (built : Builtins.binaryDispatch config op stamp = .ok (c, next)) : Composed c
  | negativeDispatch {config : DispatchConfig} {stamp next : Nat} {c : Callable}
      (built : Builtins.negativeDispatch config stamp = .ok (c, next)) : Composed c
  | scale {stamp next : Nat} {c : Callable} (built : Builtins.scale stamp = .ok (c, next)) : Composed c
  | copy {stamp next : Nat} {c : Callable} (built : Builtins.copy stamp = .ok (c, next)) : Composed c
  | assignment {dst src : Kind} {stamp next : Nat} {c : Callable}
      (built : Builtins.assignment dst src stamp = .ok (c, next)) : Composed c
  | dispatch {stamp : Nat} {name : String} {arity : Nat} {table : Dispatcher Callable} {c : Callable}
      (entries : ∀ e ∈ table.entries, Composed e.2) (built : ofTable stamp name arity table = .ok c) : Composed c
  | elwise {stamp : Nat} {child : Callable} (below : Composed child) : Composed (child.elwise stamp)
  | liftTo {stamp : Nat} {child c : Callable} {types : List Ty} (below : Composed child)
      (built : child.liftTo stamp types = .ok c) : Composed c
  | permute {stamp : Nat} {child c : Callable} {slots : List Int} (below : Composed child)
      (built : child.permuted stamp slots = .ok c) : Composed c
  | reduce {stamp foldStamp : Nat} {child c : Callable} {assoc : Associativity} {identity : Option Scalar}
      (below : Composed child) (built : child.reduced stamp foldStamp assoc identity = .ok c) : Composed c

end Callable

/-! ## Builders -/

/-- A leaf is checked as it is built, and takes one stamp. -/
theorem Builder.leaf_eq_ok_iff {name : String} {sig : Signature} {kernel : Leaf} {stamp next : Nat} {c : Callable} :
    Builder.leaf name sig kernel stamp = .ok (c, next) ↔
      Callable.ofLeaf stamp name sig kernel = .ok c ∧ next = stamp + 1 := by
  have run : Builder.leaf name sig kernel stamp =
      (Callable.ofLeaf stamp name sig kernel >>= fun c => .ok (c, stamp + 1)) := rfl
  rw [run]
  cases Callable.ofLeaf stamp name sig kernel with
  | error e => simp [bind, Except.bind]
  | ok made => simp [bind, Except.bind, eq_comm]

namespace Builtins

/-- The leaf of the negation for one kind. -/
def negativeLeaf (stamp : Nat) (k : Kind) : Callable :=
  .leaf stamp (nameFor "negative" k.name) (uniform 1 (.scalar k)) ⟨.fixed (.negative k), none⟩

/-- The negations of the kinds that have a sign, with stamps from a number on. -/
def negativeTable (config : DispatchConfig) (stamp : Nat) : Dispatcher Callable where
  index := .ofDistinct ((Kind.numeric.filter (!·.isUnsigned)).map fun k => [.scalar k]) (by decide)
  values := (Kind.numeric.filter (!·.isUnsigned)).zipIdx.map fun (k, i) => negativeLeaf (stamp + i) k
  config := config

theorem entries_negativeTable (config : DispatchConfig) (stamp : Nat) :
    (negativeTable config stamp).entries =
      (Kind.numeric.filter (!·.isUnsigned)).zipIdx.map fun (k, i) => ([.scalar k], negativeLeaf (stamp + i) k) := rfl

theorem negativeDispatch_eq (config : DispatchConfig) (stamp : Nat) :
    negativeDispatch config stamp =
      .ok (.dispatch (stamp + 6) "negative" ⟨[.any], [], .any⟩ (negativeTable config stamp), stamp + 7) := rfl

end Builtins

namespace Callable

theorem built_of_native {sig : Signature} {kernel : Leaf} {stamp next : Nat} {name : String} {c : Callable}
    (native : Leaf.Native sig kernel) (keywords : sig.OwnKeywords)
    (built : Builder.leaf name sig kernel stamp = .ok (c, next)) :
    c.Built (fun sig leaf => Leaf.Native sig leaf ∧ sig.OwnKeywords) fun _ => True :=
  .leaf ⟨native, keywords⟩ (Builder.leaf_eq_ok_iff.mp built).1

/-- The only keyword that a leaf of the library declares is the factor of the scaling. -/
theorem Composed.built_ownKeywords {c : Callable} (composed : c.Composed) :
    c.Built (fun sig leaf => Leaf.Native sig leaf ∧ sig.OwnKeywords) fun _ => True := by
  induction composed with
  | @binaryKernel op k stamp next c made =>
    cases found : KernelFamily.kernel? (.binary op) k with
    | none => simp only [Builtins.binaryKernel, found] at made; cases made
    | some kernel =>
      simp only [Builtins.binaryKernel, found] at made
      exact built_of_native (.ofKind found) (Signature.ownKeywords_of_nil rfl) made
  | @binaryGeneric op stamp next c made =>
    exact built_of_native (.generic (f := .binary op)) (Signature.ownKeywords_of_nil rfl) made
  | @binaryDispatch config op stamp next c made =>
    rw [Builtins.binaryDispatch_eq] at made
    cases made
    have table : ofTable (stamp + 10) op.name 2 (Builtins.binaryTable config op stamp) =
      .ok (Builtins.binaryOver config op stamp) := rfl
    refine .table (fun e member => ?_) table
    obtain ⟨⟨k, i⟩, listed, rfl⟩ := List.mem_map.mp (Builtins.entries_binaryTable .. ▸ member)
    have numeric := List.fst_mem_of_mem_zipIdx listed
    have leaf : Leaf.Native (Builtins.uniform 2 (.scalar k)) ⟨.fixed (.binary op k), none⟩ :=
      .ofKind (f := .binary op) (KernelFamily.kernel?_eq_some_iff.mpr ⟨Kind.ne_bool_of_mem_numeric numeric, rfl⟩)
    exact .leaf ⟨leaf, Signature.ownKeywords_of_nil rfl⟩
      (show ofLeaf (stamp + i) (Builtins.nameFor op.name k.name) _ _ = .ok _ from rfl)
  | @negativeDispatch config stamp next c made =>
    rw [Builtins.negativeDispatch_eq] at made
    cases made
    have table : ofTable (stamp + 6) "negative" 1 (Builtins.negativeTable config stamp) =
      .ok (.dispatch (stamp + 6) "negative" ⟨[.any], [], .any⟩ (Builtins.negativeTable config stamp)) := rfl
    refine .table (fun e member => ?_) table
    obtain ⟨⟨k, i⟩, listed, rfl⟩ := List.mem_map.mp (Builtins.entries_negativeTable .. ▸ member)
    have numeric := List.mem_of_mem_filter (List.fst_mem_of_mem_zipIdx listed)
    have leaf : Leaf.Native (Builtins.uniform 1 (.scalar k)) ⟨.fixed (.negative k), none⟩ :=
      .ofKind (f := .negative) (KernelFamily.kernel?_eq_some_iff.mpr ⟨Kind.ne_bool_of_mem_numeric numeric, rfl⟩)
    exact .leaf ⟨leaf, Signature.ownKeywords_of_nil rfl⟩
      (show ofLeaf (stamp + i) (Builtins.nameFor "negative" k.name) _ _ = .ok _ from rfl)
  | scale made =>
    refine built_of_native (.generic (f := .scale)) ?_ made
    intro k member
    obtain rfl := List.mem_singleton.mp member
    exact ⟨rfl, by decide⟩
  | copy made => exact built_of_native .assign (Signature.ownKeywords_of_nil rfl) made
  | @assignment dst src stamp next c made =>
    have run : Builtins.assignment dst src stamp =
        (Builder.leaf (Builtins.nameFor "assign" (src.name ++ " -> " ++ dst.name)) ⟨[.scalar src], [], .scalar dst⟩
          ⟨.fixed .assign, some .cast⟩ stamp >>= fun leaf => .ok (leaf.1.elwise leaf.2, leaf.2 + 1)) := rfl
    obtain ⟨leaf, found, same⟩ := bind_eq_ok_iff.mp (run ▸ made)
    cases same
    exact .elwise (built_of_native .assign (Signature.ownKeywords_of_nil rfl) found) trivial
  | dispatch entries made inductionHypothesis => exact .table inductionHypothesis made
  | elwise below inductionHypothesis => exact .elwise inductionHypothesis trivial
  | liftTo below made inductionHypothesis => exact .liftTo inductionHypothesis trivial made
  | permute below made inductionHypothesis => exact .permuted inductionHypothesis made
  | reduce below made inductionHypothesis => exact .reduced inductionHypothesis made

theorem Composed.built {c : Callable} (composed : c.Composed) : c.Built Leaf.Native fun _ => True :=
  composed.built_ownKeywords.mono And.left

end Callable

end ArrayCall
