import ArrayCall.Proofs.Calls.DestinationSlots
import ArrayCall.Proofs.Calls.Safety
import ArrayCall.Proofs.Execution.ReorderedLoops
import ArrayCall.Proofs.Resolution.LiftedPermutations

/-!
# Lifted permutations

A leaf or a dispatch callable may be lifted and then permuted, or permuted and then lifted
(`Callable.permute_elwise_comm`). Both resolve to the same types (`Callable.resolve_permute_elwise_iff`), plan the same
loops with the sources in another order, and run what is below on the same addresses, one after the other. So a
destination that is read may have any layout, even one with elements that share bytes.
-/

namespace ArrayCall

open Broadcast (Stretches)

namespace CallGraph

/-- It makes no difference whether a permutation stands above loops, which then move the reordered addresses, or
below them. -/
theorem single_reordered_loops {slots : List Int} {count : Nat} (inside : ∀ slot ∈ slots, slot < (count : Int))
    {loops : List DimLoop} (below : Chain) (strides : ∀ l ∈ loops, l.srcStride.length = count) (dst : Addr)
    {src : List Addr} (sources : src.length = count) :
    (empty.append ((below.underLoops (loops.map (DimLoop.permuted slots))).under
        (.permute, .permutation slots) []).toList).single 0 dst src =
      (empty.append ((below.under (.permute, .permutation slots) []).underLoops loops).toList).single 0 dst src := by
  have outside :
      ((below.underLoops (loops.map (DimLoop.permuted slots))).under (.permute, .permutation slots) []).toList =
      (.permute, .permutation slots) ::
        (loopNodes (loops.map (DimLoop.permuted slots)) ++ below.toList) :=
    congrArg _ (Chain.toList_underLoops _ _)
  have within : ((below.under (.permute, .permutation slots) []).underLoops loops).toList =
      loopNodes loops ++ (.permute, .permutation slots) :: below.toList :=
    Chain.toList_underLoops _ _
  rw [single_under_permutation _ dst (sources ▸ inside), outside, within]
  have front : (empty.append ((.permute, .permutation slots) ::
      (loopNodes (loops.map (DimLoop.permuted slots)) ++ below.toList))).Continues 1
      (loopNodes (loops.map (DimLoop.permuted slots)) ++ below.toList) :=
    Continues.of_append (continues_append empty ([_] ++ _))
  have back := continues_append empty
    (loopNodes loops ++ (.permute, .permutation slots) :: below.toList)
  have reorders := reorders_of_continues (descends_append descends_empty _) (descends_append descends_empty _) inside
    (List.cons_ne_nil _ _) strides front back ((size_append _ _).trans (by simp [Chain.toList, empty, size]; omega))
    ((size_append _ _).trans (by simp [Chain.toList, empty, size]; omega))
  rw [single_eq_settled (descends_append descends_empty _) (by simp)]
  exact reorders.single dst src sources

end CallGraph

namespace Layout

theorem stretchedStride_self (l : Layout) (d : Nat) : l.stretchedStride l.ty.shape d = l.strides[d]?.getD 0 := by
  simp [stretchedStride]

end Layout

namespace Callable

variable {c child : Callable} {os : Overloads} {stamp s₁ s₂ s₃ s₄ : Nat} {slots : List Int} {kwds : Keywords}
  {dst : Layout} {src : List Layout} {chain : Chain}

/-! ## Instantiation -/

/-- The plan for concrete layouts takes all dimensions for outer ones. -/
theorem liftPlan_of_concrete_eq_ok_iff {plan : LiftPlan} (length : src.length = child.arity)
    (scalars : child.ScalarParams) (scalar : child.signature.ret.ownDims = 0)
    (concrete : dst.Concrete) (sources : ∀ s ∈ src, s.Concrete) :
    c.liftPlan child dst src = .ok plan ↔ (∀ s ∈ src, s.ty.shape.length ≤ dst.ty.shape.length) ∧
      plan = ⟨dst.ty.shape.length, src.map (·.ty.shape.length), dst.inside, src.map Layout.inside⟩ := by
  rw [liftPlan_scalar_eq_ok_iff length scalars scalar, concrete.inner?_eq_inside]
  constructor
  · rintro ⟨outer, last, parts, owns, behind, each⟩
    have known := (List.forall₂_and_left _ _).mpr ⟨sources, each⟩
    obtain ⟨shallow, views⟩ := (List.forall₂_and_left _ _).mp
      (known.imp fun l part ⟨concrete, shallow, own, found⟩ => And.intro shallow
        (show (l.ty.shape.length, l.inside) = part from
          Prod.ext own.symm (Option.some.inj (concrete.inner?_eq_inside.symm.trans found))))
    have same : src.map (fun l => (l.ty.shape.length, l.inside)) = parts := by
      rwa [← List.forall₂_eq_eq_eq, List.forall₂_map_left_iff]
    obtain ⟨planOuter, own, planDst, planSrc⟩ := plan
    dsimp only at outer owns behind
    cases Option.some.inj last
    rw [← same, List.map_map] at owns behind
    exact ⟨shallow, by rw [outer, owns, behind]; rfl⟩
  · rintro ⟨shallow, rfl⟩
    refine ⟨rfl, rfl, src.map fun s => (s.ty.shape.length, s.inside), ?_, ?_, ?_⟩
    · rw [List.map_map]
      rfl
    · rw [List.map_map]
      rfl
    · rw [List.forall₂_map_right_iff, List.forall₂_same]
      exact fun s member => ⟨shallow s member, rfl, (sources s member).inner?_eq_inside⟩

/-- Its loops go over the shape of the destination, if the sources are stretched to that. -/
theorem loopNest_of_concrete_eq_ok_iff {loops : List DimLoop} (sources : ∀ s ∈ src, s.Concrete)
    (shallow : ∀ s ∈ src, s.ty.shape.length ≤ dst.ty.shape.length) :
    c.loopNest dst.ty.shape.length (src.map (·.ty.shape.length)) dst src = .ok loops ↔
      (∀ s ∈ src, Stretches s.ty.shape dst.ty.shape) ∧ loops = loopsOver dst.ty.shape dst src := by
  constructor
  · intro nested
    have each : List.Forall₂ (fun l n => ∃ s : LiftedSource dst.ty.shape.length, s.layout = l ∧ s.own = n) src
        (src.map (·.ty.shape.length)) := by
      rw [List.forall₂_map_right_iff, List.forall₂_same]
      exact fun l member =>
        ⟨⟨l, _, l.inside, Nat.le_refl _, shallow l member, (sources l member).inner?_eq_inside⟩, rfl, rfl⟩
    obtain ⟨lifted, rfl, owns⟩ := exists_map_eq_of_forall₂ each
    rw [← owns] at nested
    have stretches : ∀ s ∈ lifted.map (·.layout), Stretches s.ty.shape dst.ty.shape := by
      rw [List.map_map] at owns
      intro l member
      obtain ⟨s, listed, rfl⟩ := List.mem_map.mp member
      have fits := (of_loopNest_eq_ok (Nat.le_refl _) nested).2 s listed
      rw [s.shape_front, List.map_eq_map_iff.mp owns s listed] at fits
      simpa using fits
    rw [owns] at nested
    exact ⟨stretches, Except.ok.inj (nested.symm.trans (loopNest_scalar rfl stretches))⟩
  · rintro ⟨stretches, rfl⟩
    exact loopNest_scalar rfl stretches

/-- Over concrete layouts a lift of a callable of elements takes all dimensions for loops, to which the sources are
stretched, and leaves single elements to its child. -/
theorem run_outlineNode_lift_of_concrete {types : Option (List Ty)} {jump : OutlineJump}
    (count : (lift stamp child types).arity = child.arity) (scalars : child.ScalarParams)
    (scalar : child.signature.ret.ownDims = 0) (concrete : dst.Concrete) (sources : ∀ s ∈ src, s.Concrete) :
    ((lift stamp child types).outlineNode os kwds jump dst src).run = some (.ok chain) ↔
      src.length = child.arity ∧ (∀ s ∈ src, Stretches s.ty.shape dst.ty.shape) ∧
        ∃ below : Chain, ExceptT.run (match os.find? child dst.inside.ty ((src.map Layout.inside).map (·.ty)) with
            | none => child.outlineNode os kwds jump dst.inside (src.map Layout.inside)
            | some other => jump other dst.inside (src.map Layout.inside)) = some (.ok below) ∧
          below.underLoops (loopsOver dst.ty.shape dst src) = chain := by
  rw [run_outlineNode_lift_eq_ok_iff, count]
  refine and_congr_right fun length => ?_
  simp only [liftPlan_of_concrete_eq_ok_iff length scalars scalar concrete sources]
  constructor
  · rintro ⟨_, loops, below, ⟨shallow, rfl⟩, nested, written, rfl⟩
    obtain ⟨stretches, rfl⟩ := (loopNest_of_concrete_eq_ok_iff sources shallow).mp nested
    exact ⟨stretches, below, written, rfl⟩
  · rintro ⟨stretches, below, written, rfl⟩
    have shallow : ∀ s ∈ src, s.ty.shape.length ≤ dst.ty.shape.length := fun s member => (stretches s member).length_le
    exact ⟨_, _, below, ⟨shallow, rfl⟩, (loopNest_of_concrete_eq_ok_iff sources shallow).mpr ⟨stretches, rfl⟩,
      written, rfl⟩

theorem run_outline_elwise_of_concrete (unnamed : ∀ o ∈ os, o.subject ≠ stamp) (scalars : child.OverScalars)
    (concrete : dst.Concrete) (sources : ∀ s ∈ src, s.Concrete) :
    (outline os (child.elwise stamp) dst src kwds).run = some (.ok chain) ↔
      src.length = child.arity ∧ (∀ s ∈ src, Stretches s.ty.shape dst.ty.shape) ∧
        ∃ below : Chain, (outline os child dst.inside (src.map Layout.inside) kwds).run = some (.ok below) ∧
          below.underLoops (loopsOver dst.ty.shape dst src) = chain := by
  rw [outline_eq_outlineNode unnamed]
  exact run_outlineNode_lift_of_concrete (List.length_map _) scalars.scalarParams scalars.ownDims_ret concrete sources

/-- The destination moves in each loop by its own stride, also where a slot reads it. -/
theorem loopsOver_permuted (inside : ∀ slot ∈ slots, slot < src.length) :
    loopsOver dst.ty.shape dst (slots.map (Node.slotAt dst src)) =
      (loopsOver dst.ty.shape dst src).map (DimLoop.permuted slots) := by
  rw [loopsOver, loopsOver, List.map_map]
  refine List.map_congr_left ?_
  rintro ⟨extent, d⟩ -
  simp only [Function.comp_apply, DimLoop.permuted, map_slots _ inside, Layout.stretchedStride_self]

/-- What is stretched is the same for the sources and for what the slots read of them. -/
theorem stretches_slots_iff {arity : Nat} (fit : SlotsFit slots arity) (length : src.length = slots.countP (0 ≤ ·)) :
    (∀ s ∈ slots.map (Node.slotAt dst src), Stretches s.ty.shape dst.ty.shape) ↔
      ∀ s ∈ src, Stretches s.ty.shape dst.ty.shape := by
  have itself : Stretches dst.ty.shape dst.ty.shape := ⟨Nat.le_refl _, fun _ => .inr rfl⟩
  simp only [mem_map_slotAt_iff fit length]
  constructor
  · exact fun each s member => each s (.inl member)
  · rintro each s (source | ⟨-, rfl⟩)
    · exact each s source
    · exact itself

theorem run_outline_permute_eq_ok_iff (unnamed : ∀ o ∈ os, o.subject ≠ stamp) (fit : SlotsFit slots child.arity) :
    (outline os (permute stamp child slots) dst src kwds).run = some (.ok chain) ↔
      src.length = slots.countP (0 ≤ ·) ∧
        ∃ below : Chain, (outline os child dst (slots.map (Node.slotAt dst src)) kwds).run = some (.ok below) ∧
          below.under (.permute, .permutation slots) [] = chain := by
  by_cases length : src.length = slots.countP (0 ≤ ·)
  case pos =>
    have inside : ∀ slot ∈ slots, slot < src.length := by
      rw [length]
      exact fit.lt_countP
    rw [run_outline_permute unnamed dst (length.trans (arity_permute ..).symm) inside, Outline.run_above_eq_ok_iff]
    exact (and_iff_right length).symm
  case neg =>
    refine iff_of_false (fun ran => length ?_) (fun ran => length ran.1)
    rw [outline_eq_outlineNode unnamed, outlineNode_permute, Outline.run_ofExcept_bind_eq_ok_iff] at ran
    obtain ⟨_, checked, -⟩ := ran
    exact (checkArity_eq_ok_iff.mp checked).trans (arity_permute ..)

section

variable (unnamed₁ : ∀ o ∈ os, o.subject ≠ s₁) (unnamed₂ : ∀ o ∈ os, o.subject ≠ s₂)
  (unnamed₃ : ∀ o ∈ os, o.subject ≠ s₃)
  (unnamed₄ : ∀ o ∈ os, o.subject ≠ s₄) (scalars : c.OverScalars) (fit : SlotsFit slots c.arity)
include unnamed₁ unnamed₂ unnamed₃ unnamed₄ scalars fit

/-- Both ways write the same nodes below, one with the permutation above the loops and one with it below them. -/
theorem runInto_permute_elwise_iff {dst r : NdArray} {args : List NdArray} (target : dst.Built)
    (built : ∀ a ∈ args, a.Built) :
    runInto os (permute s₂ (c.elwise s₁) slots) kwds args dst = .ok r ↔
      runInto os ((permute s₃ c slots).elwise s₄) kwds args dst = .ok r := by
  have lifted : SlotsFit slots (c.elwise s₁).arity := by
    rw [show (c.elwise s₁).arity = c.arity from List.length_map _]
    exact fit
  have sources : ∀ s ∈ args.map (·.layout), s.Concrete := by
    intro s member
    obtain ⟨a, listed, rfl⟩ := List.mem_map.mp member
    exact concrete_layout_of_built (built a listed)
  have concrete := concrete_layout_of_built target
  simp only [runInto_eq_ok_iff]
  by_cases length : args.length = slots.countP (0 ≤ ·)
  case neg =>
    refine iff_of_false (fun ⟨chain, outlined, _⟩ => length ?_) (fun ⟨chain, outlined, _⟩ => length ?_)
    · exact (List.length_map _).symm.trans ((run_outline_permute_eq_ok_iff unnamed₂ lifted).mp outlined).1
    · have count := ((run_outline_elwise_eq_ok_iff unnamed₄).mp outlined).1
      rwa [List.length_map, arity_permute] at count
  have inside : ∀ slot ∈ slots, slot < (args.map (·.layout)).length := by
    rw [List.length_map, length]
    exact fit.lt_countP
  have read : ∀ s ∈ slots.map (Node.slotAt dst.layout (args.map (·.layout))), s.Concrete :=
    forall_slotAt sources inside (.inr concrete)
  simp only [run_outline_permute_eq_ok_iff unnamed₂ lifted,
    run_outline_elwise_of_concrete unnamed₁ scalars concrete read,
    run_outline_elwise_of_concrete unnamed₄ (overScalars_permute scalars) concrete sources,
    run_outline_permute_eq_ok_iff unnamed₃ fit, stretches_slots_iff fit ((List.length_map _).trans length),
    map_slots Layout.inside inside, loopsOver_permuted inside]
  -- The graphs differ in whether the permutation stands above the loops, which run alike.
  have run : ∀ below : Chain,
      execute (.append .empty ((below.underLoops ((loopsOver dst.layout.ty.shape dst.layout
          (args.map (·.layout))).map (DimLoop.permuted slots))).under
            (.permute, .permutation slots) []).toList) 0 dst args =
        execute (.append .empty ((below.under (.permute, .permutation slots) []).underLoops
          (loopsOver dst.layout.ty.shape dst.layout (args.map (·.layout)))).toList) 0 dst args := by
    intro below
    have strides : ∀ l ∈ loopsOver dst.layout.ty.shape dst.layout (args.map (·.layout)),
        l.srcStride.length = (args.map (·.layout)).length := by
      intro l member
      obtain ⟨level, -, rfl⟩ := List.mem_map.mp member
      exact List.length_map _
    have addresses : (sourceAddrs args).length = (args.map (·.layout)).length := by simp [sourceAddrs]
    simp only [execute, CallGraph.single_reordered_loops inside below strides _ addresses]
  constructor
  · rintro ⟨_, ⟨count, _, ⟨-, stretches, below, written, rfl⟩, rfl⟩, ran⟩
    refine ⟨_, ⟨count.trans (arity_permute ..).symm, stretches, _, ⟨?_, below, written, rfl⟩, rfl⟩,
      (run below).symm.trans ran⟩
    rwa [List.length_map]
  · rintro ⟨_, ⟨count, stretches, _, ⟨-, below, written, rfl⟩, rfl⟩, ran⟩
    refine ⟨_, ⟨count.trans (arity_permute ..), _, ⟨?_, stretches, below, written, rfl⟩, rfl⟩, (run below).trans ran⟩
    rw [List.length_map, fit.length_eq]

end

/-! ## Calls -/

/-- A permutation is checked against the number of arguments alone, which a lift does not change. -/
theorem permuted_elwise {b : Callable} (permuted : c.permuted s₃ slots = .ok b) :
    (c.elwise s₁).permuted s₂ slots = .ok (.permute s₂ (c.elwise s₁) slots) := by
  have arity : (c.elwise s₁).arity = c.arity := List.length_map _
  simp only [Callable.permuted, arity] at permuted ⊢
  split at permuted
  next => cases permuted
  next length =>
    rw [if_neg length]
    split at permuted
    next => cases permuted
    next =>
      split at permuted
      next => cases permuted
      next destinations =>
        rw [if_neg destinations]
        split at permuted
        next distinct => exact if_pos distinct
        next => cases permuted

/-- Lifting and reordering commute: a leaf or a dispatch callable that is lifted and then permuted does what it does
permuted and then lifted. Either both calls fail or both return the same array. A destination that a slot reads may
have any layout; its type has to be asked for, by the array itself or by `dst_tp`. -/
theorem permute_elwise_comm (elementary : c.Elementary) (unnamed₁ : ∀ o ∈ os, o.subject ≠ s₁)
    (unnamed₂ : ∀ o ∈ os, o.subject ≠ s₂) (unnamed₃ : ∀ o ∈ os, o.subject ≠ s₃) (unnamed₄ : ∀ o ∈ os, o.subject ≠ s₄)
    {b : Callable} (permuted : c.permuted s₃ slots = .ok b) :
    ∃ a, (c.elwise s₁).permuted s₂ slots = .ok a ∧
      ∀ (args : List NdArray) (kwds : Keywords), (∀ x ∈ args, x.Built) →
        (∀ d, kwds.get? Keywords.dstName = some (.array d) → d.Built) →
        (-1 ∈ slots → kwds.contains Keywords.dstName ∨ kwds.contains Keywords.dstTypeName) →
        ∀ r, a.call os args kwds = .ok r ↔ (b.elwise s₄).call os args kwds = .ok r := by
  refine ⟨_, permuted_elwise permuted, fun args kwds built given asked r => ?_⟩
  obtain ⟨rfl, fit⟩ := of_permuted_eq_ok permuted
  have resolves : ∀ t, (Callable.permute s₂ (c.elwise s₁) slots).resolve none (args.map (·.ty)) kwds = .ok t ↔
      ((Callable.permute s₃ c slots).elwise s₄).resolve none (args.map (·.ty)) kwds = .ok t := fun t =>
    resolve_permute_elwise_iff elementary fit asked fun d written => (given d written).concrete_and_fits.1
  rw [call_eq_ok_iff, call_eq_ok_iff]
  simp only [resolves]
  refine exists_congr fun ret => exists_congr fun dst => and_congr_right fun _ => and_congr_right fun destined => ?_
  exact runInto_permute_elwise_iff unnamed₁ unnamed₂ unnamed₃ unnamed₄ elementary.overScalars fit
    (built_of_destination destined given) built

/-- Three numbers are subtracted, one after the other, from elements that each begin inside the one before. -/
theorem permute_elwise_comm_of_overlapping_destination :
    let int : Kind := .int .w16
    let subtract : Callable :=
      .leaf 0 "subtract[int16]" (Builtins.uniform 2 (.scalar int)) ⟨.fixed (.binary .subtract int), none⟩
    let permuted : Callable := .permute 3 subtract [-1, 0]
    let d : NdArray := ⟨.fixedDim 3 (.scalar int), .ofList [10, 1, 0, 5], 0, [1]⟩
    let numbers : NdArray := .ofList int [.int 1, .int 2, .int 3]
    let kwds : Keywords := NameTable.empty.insert Keywords.dstName (.array d)
    let r : NdArray := { d with data := .ofList [9, 255, 252, 5] }
    (subtract.Elementary ∧ subtract.permuted 3 [-1, 0] = .ok permuted) ∧
      ((∀ x ∈ [numbers], x.Built) ∧ (∀ d, kwds.get? Keywords.dstName = some (.array d) → d.Built)) ∧
      (¬d.layout.Separate ∧ kwds.contains Keywords.dstName) ∧
      (Callable.permute 2 (subtract.elwise 1) [-1, 0]).call [] [numbers] kwds = .ok r ∧
      (permuted.elwise 4).call [] [numbers] kwds = .ok r := by
  intro int subtract permuted d numbers kwds r
  have elementary : subtract.Elementary := .leaf (show ofLeaf 0 "subtract[int16]" (Builtins.uniform 2 (.scalar int))
    ⟨.fixed (.binary .subtract int), none⟩ = .ok subtract from rfl)
  have accepted : subtract.permuted 3 [-1, 0] = .ok permuted := rfl
  have view : d.Built := .ofParts (by decide)
    (show NdArray.ofParts (.fixedDim 3 (.scalar int)) (.ofList [10, 1, 0, 5]) 0 [1] = .ok d from by cbv)
  have built : ∀ x ∈ [numbers], x.Built := by simpa using NdArray.Built.ofList _ _
  have written : kwds.get? Keywords.dstName = some (.array d) := NameTable.get?_insert_self ..
  have given : ∀ d, kwds.get? Keywords.dstName = some (.array d) → d.Built := by
    intro d' found
    cases written.symm.trans found
    exact view
  have contained : kwds.contains Keywords.dstName := by rw [NameTable.contains, written]; rfl
  have called : (Callable.permute 2 (subtract.elwise 1) [-1, 0]).call [] [numbers] kwds = .ok r := by cbv
  have unnamed : ∀ stamp : Nat, ∀ o ∈ ([] : Overloads), o.subject ≠ stamp := by simp
  obtain ⟨a, lifted, comm⟩ := permute_elwise_comm elementary (unnamed 1) (unnamed 2) (unnamed 3) (unnamed 4) accepted
  obtain rfl : Callable.permute 2 (subtract.elwise 1) [-1, 0] = a := Except.ok.inj lifted
  exact ⟨⟨elementary, accepted⟩, ⟨built, given⟩, ⟨by decide, contained⟩, called,
    (comm [numbers] kwds built given (fun _ => .inl contained) r).mp called⟩

end Callable

end ArrayCall
