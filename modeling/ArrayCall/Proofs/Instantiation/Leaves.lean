import ArrayCall.Proofs.Callable.Composed
import ArrayCall.Proofs.Execution.Containment

/-!
# Plans of native leaves

Where a native leaf is instantiated, the arguments and the destination are single elements, its kernel
reads and writes elements of the kinds that its parameters come to, and whatever lies between the two is
converted (`Callable.of_planLeaf_eq_ok`).
-/

namespace ArrayCall

theorem KernelFamily.reads_pos (f : KernelFamily) : 0 < f.reads := by
  cases f <;> exact Nat.succ_pos _

/-- A kernel on elements reads as many as it has kinds for. -/
theorem Kernel.reads?_of_operands? {kernel : Kernel} {data : NodeData} {kinds : List Kind} {kind : Kind}
    (operands : kernel.operands? data = some (kinds, kind)) : kernel.reads? = some kinds.length := by
  unfold operands? at operands
  split at operands <;> cases operands <;> rfl

/-- The kernels of a family read and write elements of their one kind. -/
theorem KernelFamily.operands?_kernelFor {f : KernelFamily} {kwds : Keywords} {src : List Kind} {dst : Option Kind}
    {data : NodeData} (given : Callable.initData f.dataInit? kwds src dst = .ok data) (k : Kind) :
    (f.kernelFor k).operands? data = some (List.replicate f.reads k, k) := by
  cases f with
  | binary op => rfl
  | negative => rfl
  | scale =>
    rw [dataInit?, Callable.initData] at given
    cases factor : Callable.factorOf kwds with
    | error e => rw [factor] at given; cases given
    | ok s => rw [factor] at given; cases given; rfl

namespace Callable

variable {c : Callable} {b : Bindings}

theorem of_scalarKind_eq_ok {t : Ty} {position : ArgPosition} {k : Kind} (found : c.scalarKind t position = .ok k) :
    t = .scalar k := by
  cases t with
  | scalar kind => cases found; rfl
  | _ => cases found

theorem of_declared_eq_ok {t t' : Ty} {position : ArgPosition} (found : c.declared b t position = .ok t') :
    b.substitute t = .ok t' := by
  rw [declared] at found
  split at found
  next same => cases found; exact same
  next => cases found

/-- Every source is an element, and so is what its parameter comes to. -/
theorem of_sourceKinds_eq_ok {params args : List Ty} {kinds : List (Kind × Kind)} (arity : args.length = params.length)
    (found : c.sourceKinds b params args = .ok kinds) :
    args = kinds.map (fun p => .scalar p.1) ∧
      List.Forall₂ (fun t (p : Kind × Kind) => b.substitute t = .ok (.scalar p.2)) params kinds := by
  have each := mapM_eq_ok_iff.mp found
  generalize 0 = start at each
  clear found
  induction params generalizing args kinds start with
  | nil =>
    obtain rfl := List.length_eq_zero_iff.mp arity
    obtain rfl := List.forall₂_nil_left_iff.mp each
    exact ⟨rfl, .nil⟩
  | cons param params inductionHypothesis =>
    obtain ⟨a, args, rfl⟩ := List.exists_cons_of_length_eq_add_one arity
    obtain ⟨p, kinds, first, others, rfl⟩ := List.forall₂_cons_left_iff.mp each
    obtain ⟨rest, kernels⟩ := inductionHypothesis (Nat.succ.inj arity) _ others
    obtain ⟨actual, given, first⟩ := bind_eq_ok_iff.mp first
    obtain ⟨t, declared, first⟩ := bind_eq_ok_iff.mp first
    obtain ⟨kernel, taken, same⟩ := bind_eq_ok_iff.mp first
    cases same
    cases of_scalarKind_eq_ok given
    cases of_scalarKind_eq_ok taken
    exact ⟨by rw [rest, List.map_cons], .cons (of_declared_eq_ok declared) kernels⟩

theorem of_destinationKinds_eq_ok {dst ret : Ty} {kinds : Option (Kind × Kind)}
    (found : c.destinationKinds dst ret = .ok kinds) :
    ret = .void ∧ kinds = none ∨
      ∃ given want, kinds = some (given, want) ∧ dst = .scalar given ∧ ret = .scalar want := by
  unfold destinationKinds at found
  split at found
  next => cases found; exact .inl ⟨rfl, rfl⟩
  next =>
    obtain ⟨given, actual, found⟩ := bind_eq_ok_iff.mp found
    obtain ⟨want, taken, same⟩ := bind_eq_ok_iff.mp found
    cases same
    exact .inr ⟨given, want, rfl, of_scalarKind_eq_ok actual, of_scalarKind_eq_ok taken⟩

/-- Where all parameters and the result are of one type, it comes to one kind. -/
theorem exists_kind_of_family {f : KernelFamily} {t dst ret : Ty} {kinds : List (Kind × Kind)}
    {dstKinds : Option (Kind × Kind)}
    (kernels : List.Forall₂ (fun t (p : Kind × Kind) => b.substitute t = .ok (.scalar p.2))
      (List.replicate f.reads t) kinds)
    (result : b.substitute t = .ok ret) (destination : c.destinationKinds dst ret = .ok dstKinds) :
    ∃ k given, b.substitute t = .ok (.scalar k) ∧ kinds.map (·.2) = List.replicate f.reads k ∧
      dstKinds = some (given, k) ∧ dst = .scalar given := by
  have every : ∀ p ∈ kinds, b.substitute t = .ok (.scalar p.2) := by
    intro p member
    obtain ⟨i, inside, rfl⟩ := List.getElem_of_mem member
    have same := (List.forall₂_iff_get.mp kernels).2 i (kernels.length_eq ▸ inside) inside
    rwa [List.get_eq_getElem, List.get_eq_getElem, List.getElem_replicate] at same
  obtain ⟨p, member⟩ : ∃ p, p ∈ kinds := by
    refine List.exists_mem_of_length_pos ?_
    rw [← kernels.length_eq, List.length_replicate]
    exact f.reads_pos
  have first := every p member
  cases first.symm.trans result
  obtain ⟨none, -⟩ | ⟨given, want, same, actual, taken⟩ := of_destinationKinds_eq_ok destination
  · cases none
  · cases taken
    refine ⟨p.2, given, first, List.eq_replicate_iff.mpr ⟨?_, fun k listed => ?_⟩, same, actual⟩
    · rw [List.length_map, ← kernels.length_eq, List.length_replicate]
    · obtain ⟨q, there, rfl⟩ := List.mem_map.mp listed
      exact (Ty.scalar.inj (Except.ok.inj (first.symm.trans (every q there)))).symm

/-- Which kernel a leaf has does not depend on the kind of the destination; only the conversion behind it does. -/
theorem planLeaf_of_kind {leaf : Leaf} {dst : Ty} {given want : Kind} {args : List Ty} {kwds : Keywords} {ret : Ty}
    {kinds : List (Kind × Kind)} {kernel : Kernel} {data : NodeData} (bound : c.bindParams args = .ok b)
    (sources : c.sourceKinds b c.signature.params args = .ok kinds)
    (result : c.declared b c.signature.ret .destination = .ok ret)
    (destination : c.destinationKinds dst ret = .ok (some (given, want)))
    (picked : c.pickKernel leaf.kernel args ((kinds.map (·.2)).head?.or (some want)) = .ok kernel)
    (init : initData leaf.dataInit kwds (kinds.map (·.2)) (some want) = .ok data) (given' : Kind) :
    c.planLeaf leaf (.scalar given') args kwds =
      .ok (kernel, data, .between (kinds.map (·.1)) (kinds.map (·.2)) (some given') (some want)) := by
  obtain ⟨-, none⟩ | ⟨_, _, same, -, rfl⟩ := of_destinationKinds_eq_ok destination
  · cases none
  · cases same
    have destination' : c.destinationKinds (.scalar given') (.scalar want) = .ok (some (given', want)) := rfl
    simp only [planLeaf, bound, sources, result, destination', bind, Except.bind, Option.map_some, picked, init, pure,
      Except.pure]

/-- What the plan of a native leaf is made of. -/
theorem exists_kinds_of_planLeaf {stamp : Nat} {name : String} {sig : Signature} {leaf : Leaf} {dst : Ty}
    {args : List Ty}
    {kwds : Keywords} {kernel : Kernel} {data : NodeData} {conversions : ConvertPlan} (native : Leaf.Native sig leaf)
    (arity : args.length = sig.arity)
    (planned : (Callable.leaf stamp name sig leaf).planLeaf leaf dst args kwds = .ok (kernel, data, conversions)) :
    ∃ (b : Bindings) (kinds : List (Kind × Kind)) (given want : Kind), args = kinds.map (fun p => .scalar p.1) ∧
      dst = .scalar given ∧ kernel.operands? data = some (kinds.map (·.2), want) ∧
      (Callable.leaf stamp name sig leaf).bindParams args = .ok b ∧ b.substitute sig.ret = .ok (.scalar want) ∧
      ∀ given', (Callable.leaf stamp name sig leaf).planLeaf leaf (.scalar given') args kwds =
        .ok (kernel, data, .between (kinds.map (·.1)) (kinds.map (·.2)) (some given') (some want)) := by
  obtain ⟨b, bound, planned⟩ := bind_eq_ok_iff.mp planned
  obtain ⟨kinds, sources, planned⟩ := bind_eq_ok_iff.mp planned
  obtain ⟨ret, result, planned⟩ := bind_eq_ok_iff.mp planned
  obtain ⟨dstKinds, destination, planned⟩ := bind_eq_ok_iff.mp planned
  obtain ⟨k, picked, planned⟩ := bind_eq_ok_iff.mp planned
  obtain ⟨node, init, same⟩ := bind_eq_ok_iff.mp planned
  cases same
  obtain ⟨actual, kernels⟩ := of_sourceKinds_eq_ok arity sources
  have substituted := of_declared_eq_ok result
  have operands : ∃ given want, dst = .scalar given ∧ dstKinds = some (given, want) ∧
      kernel.operands? data = some (kinds.map (·.2), want) := by
    cases native with
    | @ofKind f k kernel kwds found =>
      obtain ⟨k', into, same, taken, rfl, rfl⟩ := exists_kind_of_family kernels substituted destination
      obtain ⟨-, rfl⟩ := KernelFamily.kernel?_eq_some_iff.mp found
      cases picked
      cases same
      exact ⟨into, k, rfl, rfl, taken ▸ KernelFamily.operands?_kernelFor init k⟩
    | @generic f name kwds =>
      obtain ⟨k, into, -, taken, rfl, rfl⟩ := exists_kind_of_family kernels substituted destination
      have head : (kinds.map (·.2)).head? = some k := by
        rw [taken, List.head?_replicate, if_neg (Nat.ne_of_gt f.reads_pos)]
      simp only [pickKernel, head, Option.some_or, Option.bind_some] at picked
      split at picked
      next kernel' found =>
        cases picked
        obtain ⟨-, rfl⟩ := KernelFamily.kernel?_eq_some_iff.mp found
        exact ⟨into, k, rfl, rfl, taken ▸ KernelFamily.operands?_kernelFor init k⟩
      next => cases picked
    | assign =>
      cases picked
      obtain ⟨p, _, -, nothing, rfl⟩ := List.forall₂_cons_left_iff.mp kernels
      obtain rfl := List.forall₂_nil_left_iff.mp nothing
      obtain ⟨-, rfl⟩ | ⟨into, target, rfl, rfl, -⟩ := of_destinationKinds_eq_ok destination
      · cases init
      · cases init
        exact ⟨into, target, rfl, rfl, rfl⟩
  obtain ⟨given, want, rfl, rfl, operands⟩ := operands
  obtain ⟨-, none⟩ | ⟨_, _, same, -, rfl⟩ := of_destinationKinds_eq_ok destination
  · cases none
  · cases same
    exact ⟨b, kinds, given, want, actual, rfl, operands, bound, substituted,
      planLeaf_of_kind bound sources result destination picked init⟩

theorem of_planLeaf_eq_ok {stamp : Nat} {name : String} {sig : Signature} {leaf : Leaf} {dst : Ty} {args : List Ty}
    {kwds : Keywords} {kernel : Kernel} {data : NodeData} {conversions : ConvertPlan} (native : Leaf.Native sig leaf)
    (arity : args.length = sig.arity)
    (planned : (Callable.leaf stamp name sig leaf).planLeaf leaf dst args kwds = .ok (kernel, data, conversions)) :
    ∃ (kinds : List (Kind × Kind)) (given want : Kind), args = kinds.map (fun p => .scalar p.1) ∧ dst = .scalar given ∧
      kernel.operands? data = some (kinds.map (·.2), want) ∧
      conversions = .between (kinds.map (·.1)) (kinds.map (·.2)) (some given) (some want) := by
  obtain ⟨b, kinds, given, want, sources, rfl, operands, -, -, elsewhere⟩ :=
    exists_kinds_of_planLeaf native arity planned
  cases (elsewhere given).symm.trans planned
  exact ⟨kinds, given, want, sources, rfl, operands, rfl⟩

end Callable

end ArrayCall
