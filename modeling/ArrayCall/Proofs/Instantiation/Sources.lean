import ArrayCall.Proofs.Callable.Built
import ArrayCall.Proofs.Instantiation.Outline
import ArrayCall.Proofs.Results

/-!
# The sources of a node

Each node takes a number of sources that its kernel and data fix (`Kernel.takes`), and each node
of an instantiated chain hands its child as many as that one takes (`Chain.Takes`). This needs
leaves whose kernel reads just the declared parameters (`Leaf.Own`), as those of the library do.
-/

namespace ArrayCall

/-! ## Own kernels -/

/-- How many elements a kernel on elements reads. -/
def Kernel.reads? : Kernel → Option Nat
  | binary .. => some 2
  | negative _ => some 1
  | scale _ => some 1
  | assign => some 1
  | _ => none

/-- How many elements the kernels of a family read. -/
def KernelFamily.reads : KernelFamily → Nat
  | binary _ => 2
  | negative => 1
  | scale => 1

/-- The kernel is one of the library's, and is given as many elements as it reads. -/
def Leaf.Own (sig : Signature) (leaf : Leaf) : Prop :=
  match leaf.kernel with
  | .fixed k => k.reads? = some sig.arity
  | .perKind f => f.reads = sig.arity

/-- Callables built over the library's own kernels, by any nesting of adapters. -/
def Callable.OverOwnKernels (c : Callable) : Prop := c.Built Leaf.Own fun _ => True

theorem KernelFamily.reads?_kernel? {f : KernelFamily} {kind : Kind} {k : Kernel}
    (found : f.kernel? kind = some k) : k.reads? = some f.reads := by
  cases f <;> simp only [kernel?] at found <;> split at found <;> cases found <;> rfl

/-- How many sources a node of a kernel takes. -/
def Kernel.takes : Kernel → NodeData → Nat
  | .loop, .loop l => l.srcStride.length
  | .permute, .permutation slots => slots.countP (0 ≤ ·)
  | .fold, _ => 1
  | .convert, .convert plan => plan.src.length
  | kernel, _ => kernel.reads?.getD 0

theorem Kernel.takes_of_reads? {kernel : Kernel} {count : Nat} (data : NodeData)
    (own : kernel.reads? = some count) : kernel.takes data = count := by
  cases kernel <;> simp_all [Kernel.takes, Kernel.reads?]

/-- What a slot of a permutation reads, where it names the destination or a source that there is. -/
def Node.slotAt {α : Type} (dst : α) (src : List α) (slot : Int) : α :=
  if slot < 0 then dst else src[slot.toNat]?.getD dst

/-! ## Chains -/

namespace Chain

/-- Every node of a chain is handed as many sources as it takes, if the first one is handed
`count` of them. -/
inductive Takes : List (Kernel × NodeData) → (count : Nat) → Prop
  | element {kernel : Kernel} {data : NodeData} {count : Nat} (own : kernel.reads? = some count) :
      Takes [(kernel, data)] count
  | convert {plan : ConvertPlan} {rest : List (Kernel × NodeData)} (below : Takes rest plan.src.length) :
      Takes ((.convert, .convert plan) :: rest) plan.src.length
  | permute {slots : List Int} {rest : List (Kernel × NodeData)}
      (inside : ∀ slot ∈ slots, slot < (slots.countP (0 ≤ ·) : Nat)) (below : Takes rest slots.length) :
      Takes ((.permute, .permutation slots) :: rest) (slots.countP (0 ≤ ·))
  | loop {l : DimLoop} {rest : List (Kernel × NodeData)} (below : Takes rest l.srcStride.length) :
      Takes ((.loop, .loop l) :: rest) l.srcStride.length
  | fold {identity : Option Scalar} {acc : Kind} {rest : List (Kernel × NodeData)} (below : Takes rest 1) :
      Takes ((.fold, .fold identity acc) :: rest) 1

theorem Takes.takes_head {first : Kernel × NodeData} {rest : List (Kernel × NodeData)} {count : Nat}
    (takes : Takes (first :: rest) count) : first.1.takes first.2 = count := by
  cases takes with
  | element own => exact Kernel.takes_of_reads? _ own
  | _ => rfl

/-- What stands below a permutation takes as many sources as it has slots, each of which names
one of the sources of the permutation. -/
theorem Takes.of_permute {chain : List (Kernel × NodeData)} {count i : Nat} {data : NodeData}
    (takes : Takes chain count) (found : chain[i]? = some (.permute, data)) :
    ∃ slots below, data = .permutation slots ∧ (∀ slot ∈ slots, slot < (slots.countP (0 ≤ ·) : Nat)) ∧
      chain[i + 1]? = some below ∧ below.1.takes below.2 = slots.length := by
  induction takes generalizing i with
  | element own =>
    cases i with
    | zero => cases found; cases own
    | succ i => simp at found
  | @permute slots rest inside below inductionHypothesis =>
    cases i with
    | zero =>
      cases found
      cases rest with
      | nil => cases below
      | cons next rest => exact ⟨slots, next, rfl, inside, rfl, below.takes_head⟩
    | succ i => exact inductionHypothesis found
  | _ =>
    rename_i inductionHypothesis
    cases i with
    | zero => cases found
    | succ i => exact inductionHypothesis found

/-- A conversion has a step for each source, so it takes as many as the kernel behind it reads. -/
theorem takes_ofLeaf_of_reads? {kernel : Kernel} {data : NodeData} {conversions : ConvertPlan} {count : Nat}
    (reads : kernel.reads? = some count) (steps : conversions.src.length = count) :
    Takes (ofLeaf (kernel, data, conversions)).toList count := by
  subst steps
  rw [ofLeaf]
  split
  · exact .element reads
  · exact .convert (.element reads)

theorem takes_loops {loops : List DimLoop} {chain : List (Kernel × NodeData)} {count : Nat}
    (takes : Takes chain count) (strides : ∀ l ∈ loops, l.srcStride.length = count) :
    Takes (loops.map (fun l => (Kernel.loop, NodeData.loop l)) ++ chain) count := by
  induction loops with
  | nil => exact takes
  | cons l loops inductionHypothesis =>
    have length := strides l List.mem_cons_self
    have below := inductionHypothesis fun l member => strides l (List.mem_cons_of_mem _ member)
    subst length
    exact .loop below

end Chain

/-! ## Instantiation -/

namespace Callable

theorem arity_permute (stamp : Nat) (child : Callable) (slots : List Int) :
    (permute stamp child slots).arity = slots.countP (0 ≤ ·) := by
  simp [arity, signature, Signature.arity, permutedParams]

/-- With as many sources as a permutation takes, each slot reads one of them or the destination. -/
theorem SlotsFit.lt_of_arity {stamp count n : Nat} {child : Callable} {slots : List Int} (fit : SlotsFit slots n)
    (arity : count = (permute stamp child slots).arity) : ∀ slot ∈ slots, slot < count := by
  rw [arity, arity_permute]
  exact fit.lt_countP

theorem arity_lift {stamp : Nat} {child : Callable} {types : Option (List Ty)}
    (length : ∀ ts ∈ types, ts.length = child.arity) : (lift stamp child types).arity = child.arity := by
  cases types with
  | none => simp [arity, signature, Signature.arity]
  | some ts => exact length ts rfl

theorem filterMap_slots {α : Type} (dst : α) {src : List α} {slots : List Int}
    (inside : ∀ slot ∈ slots, slot < src.length) :
    slots.filterMap (fun j => if j < 0 then some dst else src[j.toNat]?) = slots.map (Node.slotAt dst src) := by
  rw [← List.filterMap_eq_map']
  refine List.filterMap_congr fun slot member => ?_
  have := inside slot member
  rw [Node.slotAt]
  split
  · rfl
  · rw [List.getElem?_eq_getElem (by omega), Option.getD_some]

theorem map_slots {α β : Type} (f : α → β) {d : α} {list : List α} {slots : List Int}
    (inside : ∀ slot ∈ slots, slot < list.length) :
    (slots.map (Node.slotAt d list)).map f = slots.map (Node.slotAt (f d) (list.map f)) := by
  rw [List.map_map]
  refine List.map_congr_left fun slot member => ?_
  have := inside slot member
  simp only [Function.comp_apply, Node.slotAt]
  split
  · rfl
  · rw [List.getElem?_map, List.getElem?_eq_getElem (by omega)]
    rfl

theorem forall₂_slots {α β : Type} {R : α → β → Prop} {a : α} {b : β} {as : List α} {bs : List β} {slots : List Int}
    (target : R a b) (sources : List.Forall₂ R as bs) (inside : ∀ slot ∈ slots, slot < bs.length) :
    List.Forall₂ R (slots.map (Node.slotAt a as)) (slots.map (Node.slotAt b bs)) := by
  obtain ⟨length, sources⟩ := List.forall₂_iff_get.mp sources
  rw [List.forall₂_map_left_iff, List.forall₂_map_right_iff, List.forall₂_same]
  intro slot member
  have := inside slot member
  rw [Node.slotAt, Node.slotAt]
  split
  · exact target
  · rw [List.getElem?_eq_getElem (by omega), List.getElem?_eq_getElem (by omega)]
    exact sources slot.toNat (by omega) (by omega)

theorem reads?_of_pickKernel_eq_ok {c : Callable} {sig : Signature} {leaf : Leaf} {args : List Ty}
    {kind : Option Kind} {k : Kernel} (own : leaf.Own sig)
    (picked : c.pickKernel leaf.kernel args kind = .ok k) : k.reads? = some sig.arity := by
  rw [Leaf.Own] at own
  cases kernel : leaf.kernel with
  | fixed fixed =>
    rw [kernel] at own picked
    cases picked
    exact own
  | perKind f =>
    rw [kernel] at own picked
    simp only [pickKernel] at picked
    split at picked
    next k found =>
      cases picked
      obtain ⟨kind, -, found⟩ := Option.bind_eq_some_iff.mp found
      rw [KernelFamily.reads?_kernel? found, own]
    next => cases picked

theorem takes_ofLeaf {stamp : Nat} {name : String} {sig : Signature} {kernel : Leaf} {dst : Ty}
    {args : List Ty} {kwds : Keywords} {plan : Kernel × NodeData × ConvertPlan} (own : kernel.Own sig)
    (arity : args.length = sig.arity)
    (planned : (leaf stamp name sig kernel).planLeaf kernel dst args kwds = .ok plan) :
    Chain.Takes (Chain.ofLeaf plan).toList args.length := by
  obtain ⟨b, -, planned⟩ := bind_eq_ok_iff.mp planned
  obtain ⟨kinds, sources, planned⟩ := bind_eq_ok_iff.mp planned
  obtain ⟨ret, -, planned⟩ := bind_eq_ok_iff.mp planned
  obtain ⟨dstKinds, -, planned⟩ := bind_eq_ok_iff.mp planned
  obtain ⟨k, picked, planned⟩ := bind_eq_ok_iff.mp planned
  obtain ⟨data, -, planned⟩ := bind_eq_ok_iff.mp planned
  cases planned
  have reads := reads?_of_pickKernel_eq_ok own picked
  rw [← arity] at reads
  have length : kinds.length = args.length := by
    rw [length_of_mapM_eq_ok sources, List.length_zipIdx, List.length_zip]
    exact Nat.min_eq_right (Nat.le_of_eq arity)
  exact Chain.takes_ofLeaf_of_reads? reads (by simp [ConvertPlan.between, length])

/-! Each adapter hands on as many sources as its child declares, so that the chain of a callable
takes just the sources that the callable is instantiated for. -/

variable {os : Overloads} {kwds : Keywords} {jump : OutlineJump}

theorem length_src_liftPlan {c child : Callable} {dst : Layout} {src : List Layout} {plan : LiftPlan}
    (arity : src.length = child.arity) (planned : c.liftPlan child dst src = .ok plan) :
    plan.own.length = src.length ∧ plan.src.length = src.length := by
  simp only [liftPlan] at planned
  split at planned
  · cases planned
  obtain ⟨parts, split, planned⟩ := bind_eq_ok_iff.mp planned
  have length : parts.length = src.length := by
    rw [length_of_mapM_eq_ok split, List.length_zipIdx, List.length_zip]
    exact Nat.min_eq_left (Nat.le_of_eq arity)
  split at planned
  · cases planned
    simp [length]
  · cases planned

theorem length_srcStride_loopNest {c : Callable} {outer : Nat} {own : List Nat} {dst : Layout}
    {src : List Layout} {loops : List DimLoop} (length : own.length = src.length)
    (nested : c.loopNest outer own dst src = .ok loops) :
    ∀ l ∈ loops, l.srcStride.length = src.length := by
  have levels := mapM_eq_ok_iff.mp nested
  generalize (dst.ty.shape.take outer).zipIdx = sizes at levels
  clear nested
  induction levels with
  | nil => exact fun l none => by cases none
  | cons level _ inductionHypothesis =>
    obtain ⟨strides, chosen, same⟩ := bind_eq_ok_iff.mp level
    cases same
    have first : strides.length = src.length := by
      rw [length_of_mapM_eq_ok chosen, List.length_zipIdx, List.length_zip, length, Nat.min_self]
    exact List.forall_mem_cons.mpr ⟨first, inductionHypothesis⟩

theorem length_srcStride_reductionLoops (src : Layout) : ∀ l ∈ reductionLoops src, l.srcStride.length = 1 := by
  intro l member
  obtain ⟨level, -, rfl⟩ := List.mem_map.mp member
  rfl

/-! ## What an adapter yields

Any property that its child has of what is handed on, and that is kept by the nodes above. -/

section

variable {P Q : Chain → Prop} {stamp : Nat} {child : Callable} {dst : Layout} {src : List Layout}

theorem yields_leaf {name : String} {sig : Signature} {kernel : Leaf}
    (holds : ∀ plan, src.length = (leaf stamp name sig kernel).arity →
      (leaf stamp name sig kernel).planLeaf kernel dst.ty (src.map (·.ty)) kwds = .ok plan → P (.ofLeaf plan)) :
    ((leaf stamp name sig kernel).outlineNode os kwds jump dst src).Yields P := by
  rw [outlineNode_leaf]
  refine Outline.yields_ofExcept_bind fun _ arity => Outline.yields_ofExcept_bind fun plan planned => ?_
  exact Outline.yields_pure (holds plan (checkArity_eq_ok_iff.mp arity) planned)

theorem yields_dispatch {name : String} {sig : Signature} {table : Dispatcher Callable}
    (jumps : ∀ o ∈ os, (jump o.target dst src).Yields P)
    (entries : ∀ e ∈ table.entries, (e.2.outlineNode os kwds jump dst src).Yields P) :
    ((dispatch stamp name sig table).outlineNode os kwds jump dst src).Yields P := by
  rw [outlineNode_dispatch]
  refine Outline.yields_ofExcept_bind fun _ _ => ?_
  cases found : table.dispatch ((src.map (·.ty)).map Ty.typeId) with
  | error position => exact Outline.yields_throw _
  | ok target =>
    obtain ⟨key, member⟩ := Dispatcher.exists_mem_of_dispatch found
    exact of_match_find? target dst.ty (src.map (·.ty)) (fun o there _ => jumps o there) (entries (key, target) member)

theorem yields_permute {slots : List Int} (fit : SlotsFit slots child.arity)
    (jumps : ∀ o ∈ os, (jump o.target dst (slots.map (Node.slotAt dst src))).Yields Q)
    (below : (∀ slot ∈ slots, slot < src.length) →
      (child.outlineNode os kwds jump dst (slots.map (Node.slotAt dst src))).Yields Q)
    (under : src.length = slots.countP (0 ≤ ·) → ∀ chain, Q chain → P (chain.under (.permute, .permutation slots) [])) :
    ((permute stamp child slots).outlineNode os kwds jump dst src).Yields P := by
  rw [outlineNode_permute]
  refine Outline.yields_ofExcept_bind fun _ arity => ?_
  have arity := checkArity_eq_ok_iff.mp arity
  have inside := fit.lt_of_arity arity
  dsimp only
  rw [filterMap_slots dst inside]
  exact Outline.yields_above _ (of_match_find? child _ _ (fun o member _ => jumps o member) (below inside))
    (under (arity.trans (arity_permute ..)))

theorem yields_lift {types : Option (List Ty)} {Q : LiftPlan → Chain → Prop}
    (count : (lift stamp child types).arity = child.arity)
    (jumps : ∀ plan, ∀ o ∈ os, (jump o.target plan.dst plan.src).Yields (Q plan))
    (below : ∀ plan, src.length = child.arity → (lift stamp child types).liftPlan child dst src = .ok plan →
      (child.outlineNode os kwds jump plan.dst plan.src).Yields (Q plan))
    (under : ∀ plan loops, src.length = child.arity → (lift stamp child types).liftPlan child dst src = .ok plan →
      (lift stamp child types).loopNest plan.outer plan.own dst src = .ok loops →
        ∀ chain, Q plan chain → P (chain.underLoops loops)) :
    ((lift stamp child types).outlineNode os kwds jump dst src).Yields P := by
  rw [outlineNode_lift]
  refine Outline.yields_ofExcept_bind fun _ arity => Outline.yields_ofExcept_bind fun plan planned =>
    Outline.yields_ofExcept_bind fun loops nested => ?_
  have arity := (checkArity_eq_ok_iff.mp arity).trans count
  have handed := of_match_find? child plan.dst.ty (plan.src.map (·.ty)) (fun o member _ => jumps plan o member)
    (below plan arity planned)
  exact Outline.yields_underLoops loops _ handed (under plan loops arity planned nested)

theorem yields_reduce {fold : Callable} {identity : Option Scalar} {Q : Kind × Layout → Chain → Prop}
    (jumps : ∀ plan, ∀ o ∈ os, (jump o.target dst [plan.2]).Yields (Q plan))
    (below : ∀ l plan, src = [l] → (reduce stamp fold identity).reductionPlan dst l = .ok plan →
      (fold.outlineNode os kwds jump dst [plan.2]).Yields (Q plan))
    (under : ∀ l plan, src = [l] → (reduce stamp fold identity).reductionPlan dst l = .ok plan →
      ∀ chain, Q plan chain → P (chain.under (.fold, .fold identity plan.1) (loopNodes (reductionLoops l)))) :
    ((reduce stamp fold identity).outlineNode os kwds jump dst src).Yields P := by
  rw [outlineNode_reduce]
  refine Outline.yields_ofExcept_bind fun _ arity => Outline.yields_ofExcept_bind fun plan planned => ?_
  obtain ⟨l, rfl⟩ := List.length_eq_one_iff.mp (checkArity_eq_ok_iff.mp arity)
  rw [List.headD_cons] at planned ⊢
  have handed := of_match_find? fold dst.ty [plan.2.ty] (fun o member _ => jumps plan o member)
    (below l plan rfl planned)
  exact Outline.yields_above _ handed (under l plan rfl planned)

end

/-! ## All callables -/

theorem outlineNode_takes (jumps : ∀ o ∈ os, ∀ dst src,
      (jump o.target dst src).Yields fun chain => Chain.Takes chain.toList src.length)
    {c : Callable} (own : c.Formed Leaf.Own fun _ => True) (dst : Layout) (src : List Layout) :
    (c.outlineNode os kwds jump dst src).Yields fun chain => Chain.Takes chain.toList src.length := by
  induction own generalizing dst src with
  | leaf own elements =>
    refine yields_leaf fun plan arity planned => ?_
    have takes := takes_ofLeaf own ((List.length_map _).trans arity) planned
    rwa [List.length_map] at takes
  | dispatch arities entries inductionHypothesis =>
    exact yields_dispatch (fun o member => jumps o member dst src) fun e member => inductionHypothesis e member dst src
  | permute fit below inductionHypothesis =>
    refine yields_permute fit (fun o member => jumps o member dst _) (fun _ => inductionHypothesis dst _)
      fun length chain takes => ?_
    rw [List.length_map] at takes
    rw [length]
    exact .permute fit.lt_countP takes
  | lift _ shaped below inductionHypothesis =>
    refine yields_lift (arity_lift fun ts given => (shaped ts given).1) (fun plan o member => jumps o member _ _)
      (fun plan _ _ => inductionHypothesis plan.dst plan.src) fun plan loops arity planned nested chain takes => ?_
    obtain ⟨own, length⟩ := length_src_liftPlan arity planned
    rw [length] at takes
    rw [Chain.toList_underLoops]
    exact Chain.takes_loops takes (length_srcStride_loopNest own nested)
  | reduce below inductionHypothesis =>
    refine yields_reduce (fun plan o member => jumps o member dst [plan.2])
      (fun _ plan _ _ => inductionHypothesis dst [plan.2]) ?_
    rintro l plan rfl - chain takes
    exact .fold (Chain.takes_loops takes (length_srcStride_reductionLoops l))

theorem outlineWithin_takes (targets : ∀ o ∈ os, o.target.Formed Leaf.Own fun _ => True) (jumps : Nat)
    {c : Callable} (own : c.Formed Leaf.Own fun _ => True) (dst : Layout) (src : List Layout) :
    (outlineWithin os kwds jumps c dst src).Yields fun chain => Chain.Takes chain.toList src.length := by
  induction jumps generalizing c dst src with
  | zero => exact Outline.yields_endless
  | succ jumps inductionHypothesis =>
    exact outlineNode_takes (fun o member => inductionHypothesis (targets o member)) own dst src

/-- Every node of a chain over own kernels is handed as many sources as it takes. -/
theorem outline_takes (targets : ∀ o ∈ os, o.target.OverOwnKernels) {c : Callable} (own : c.OverOwnKernels)
    (dst : Layout) (src : List Layout) (kwds : Keywords) :
    (outline os c dst src kwds).Yields fun chain => Chain.Takes chain.toList src.length := by
  have jumps : ∀ o ∈ os, ∀ dst src, (outlineWithin os kwds os.length o.target dst src).Yields fun chain =>
      Chain.Takes chain.toList src.length := fun o member =>
    outlineWithin_takes (fun o member => (targets o member).formed) os.length (targets o member).formed
  exact of_match_find? _ _ _ (fun o member _ => jumps o member dst src)
    (outlineNode_takes jumps own.formed dst src)

end Callable

end ArrayCall
