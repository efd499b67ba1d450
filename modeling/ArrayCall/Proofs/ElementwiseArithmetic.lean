import ArrayCall.Proofs.Arrays
import ArrayCall.Proofs.Builtins
import ArrayCall.Proofs.Calls
import ArrayCall.Proofs.Execution.Elementwise

/-!
# Elementwise arithmetic

A call of an elementwise operation on two arrays without fractions gives the array of the pointwise
results over the shape that both broadcast to, or an execution error where a divisor is zero, or a type
mismatch where the shapes do not broadcast (`Builtins.call_elwise_binaryDispatch`). Resolution,
instantiation and the run each come with their own lemma, and the theorem puts these together.
-/

namespace ArrayCall

namespace Builtins

variable {config : DispatchConfig} {op : BinaryOp} {first stamp : Nat} {a b : NdArray} {ka kb kind : Kind}
  {shape : List Nat}

/-! ## Resolution -/

/-- Dimensions of any number in front of anything match every array of scalars, and bind nothing. -/
theorem unify_anyDims (bindings : Bindings) {t : Ty} (concrete : t.OfScalars) :
    bindings.unify (.ellipsis none .any) t = .ok bindings := by
  rw [Bindings.unify]
  simp only [Ty.ndim, Nat.not_lt_zero, if_false, Nat.sub_zero, concrete.stripDims_eq]
  rfl

theorem bindParams_elwise {t t' : Ty} (concrete : ∀ arg ∈ [t, t'], arg.OfScalars) :
    ((binaryOver config op first).elwise stamp).bindParams [t, t'] = .ok .empty := by
  obtain ⟨left, right⟩ := List.forall_mem_cons.mp concrete
  change Callable.bindArgs _ 0 .empty [.ellipsis none .any, .ellipsis none .any] [t, t'] = _
  simp only [Callable.bindArgs, unify_anyDims _ left, unify_anyDims _ (List.forall_mem_singleton.mp right)]

theorem scalarParams_binaryOver : (binaryOver config op first).ScalarParams := by
  intro p member
  rw [List.eq_of_mem_replicate (n := 2) member]
  rfl

theorem takes_elwise (t t' : Ty) : ((binaryOver config op first).elwise stamp).Takes [t, t'] .empty := ⟨rfl, rfl⟩

/-! ## Instantiation -/

/-- The nodes of an elementwise operation: a loop for each dimension, and the kernel of the kind, behind a
conversion if one is needed. -/
def elwiseChain (op : BinaryOp) (ka kb kind : Kind) (shape : List Nat) (src : List Layout) :
    List (Kernel × NodeData) :=
  (Callable.loopsOver shape (NdArray.blank shape kind).layout src).map (fun l => (.loop, .loop l)) ++
    (Chain.ofLeaf (binaryPlan op ka kb kind)).toList

theorem instantiate_elwise {os : Overloads} {a b : Layout} {i : Nat} (few : i < 10)
    (fresh : ∀ o ∈ os, o.subject ≠ stamp ∧ ¬(first ≤ o.subject ∧ o.subject < first + 11))
    (left : ka.canPromoteTo kind) (right : kb.canPromoteTo kind)
    (found : (binaryTable config op first).dispatch [.scalar ka, .scalar kb] = .ok (binaryLeaf op (first + i) kind))
    (concrete : ∀ s ∈ [a, b], s.ty.OfScalars) (kinds : [a, b].map (·.ty.dtype) = [.scalar ka, .scalar kb])
    (fits : ∀ s ∈ [a, b], s.Fits) (stretches : ∀ s ∈ [a, b], Broadcast.Stretches s.ty.shape shape) :
    Callable.instantiate os ((binaryOver config op first).elwise stamp) (NdArray.blank shape kind).layout [a, b]
      .empty .empty = some (.ok 0, CallGraph.empty.append (elwiseChain op ka kb kind shape [a, b])) := by
  have inner : [a, b].map Layout.inside = [⟨.scalar ka, []⟩, ⟨.scalar kb, []⟩] := by
    simp only [List.map_cons, List.map_nil, List.cons.injEq, and_true] at kinds
    simp only [List.map_cons, List.map_nil, Layout.inside, kinds]
  have same := Callable.outline_eq_outlineNode (c := (binaryOver config op first).elwise stamp)
    (fun o member => (fresh o member).1) (NdArray.blank shape kind).layout [a, b] .empty
  generalize Callable.outlineWithin os .empty os.length = jump at same
  have unnamed : ∀ o ∈ os, ∀ i ≤ 10, o.subject ≠ first + i := by
    intro o member i few taken
    exact (fresh o member).2 (by omega)
  have below : ((binaryOver config op first).outlineNode os .empty jump ⟨.scalar kind, []⟩
      ([a, b].map Layout.inside)).run = some (.ok (Chain.ofLeaf (binaryPlan op ka kb kind))) := by
    rw [inner]
    exact outlineNode_binaryOver (fun o member => unnamed o member i (Nat.le_of_lt few)) left right found
  have arity : [a, b].length = (Callable.lift stamp (binaryOver config op first) none).arity := rfl
  have unnamedOver : ∀ o ∈ os, o.subject ≠ (binaryOver config op first).stamp :=
    fun o member => unnamed o member 10 (Nat.le_refl _)
  obtain ⟨lifted, ran, nodes⟩ := Callable.outlineNode_lift_scalar unnamedOver scalarParams_binaryOver rfl arity rfl rfl
    (Ty.isElement_scalar kind) (NdArray.fits_blank shape kind) concrete fits stretches below
  rw [← elwiseChain] at nodes
  rw [← nodes]
  exact Callable.instantiate_of_outline (same ▸ ran) .empty

/-! ## Execution -/

theorem takes_binaryPlan (left : ka.canPromoteTo kind) (right : kb.canPromoteTo kind) :
    Chain.Takes (Chain.ofLeaf (binaryPlan op ka kb kind)).toList 2 := by
  have own : Leaf.Own (uniform 2 (.scalar kind)) ⟨.fixed (.binary op kind), none⟩ := rfl
  have planned : (Callable.leaf 0 (nameFor op.name kind.name) (uniform 2 (.scalar kind))
      ⟨.fixed (.binary op kind), none⟩).planLeaf ⟨.fixed (.binary op kind), none⟩ (.scalar kind)
      [.scalar ka, .scalar kb] .empty = .ok (binaryPlan op ka kb kind) := planLeaf_binaryLeaf left right 0 .empty
  exact Callable.takes_ofLeaf own (by rfl) planned

theorem takes_elwiseChain (left : ka.canPromoteTo kind) (right : kb.canPromoteTo kind) (a b : Layout) :
    Chain.Takes (elwiseChain op ka kb kind shape [a, b]) 2 := by
  refine Chain.takes_loops (takes_binaryPlan left right) fun l member => ?_
  obtain ⟨p, -, rfl⟩ := List.mem_map.mp member
  rfl

theorem writable_blank {args : List NdArray} {q : Nat} (below : q < shape.prod) :
    (Callable.callMemory (.blank shape kind) args).Writable
      ((⟨args.length, 0⟩ : Addr).advance (kind.size * q : Nat)) kind.size := by
  have there : (Callable.callMemory (.blank shape kind) args).regions[args.length]? =
      some ⟨.exclusive, (NdArray.blank shape kind).data⟩ := by simp [Callable.callMemory]
  refine ⟨_, there, by simp, by simp only [Addr.advance]; omega, ?_⟩
  have later : kind.size * (q + 1) ≤ kind.size * shape.prod := Nat.mul_le_mul_left _ below
  rw [Nat.mul_succ] at later
  simp only [Addr.advance, NdArray.blank, Buffer.size_zeros]
  omega

/-- One element: the kernel is given the elements at the source indices, converted if they need it. -/
theorem computes_elwise {g : CallGraph} (handed : g.Handed) (integer : kind.IsInteger)
    (left : ka.canPromoteTo kind) (right : kb.canPromoteTo kind) (discreteA : ka.isFloat = false)
    (discreteB : kb.isFloat = false) (wellFormedA : a.WellFormed) (wellFormedB : b.WellFormed)
    (kindA : a.dtype? = some ka) (kindB : b.dtype? = some kb) {indexA indexB : List Nat}
    (insideA : IsIndex a.shape indexA) (insideB : IsIndex b.shape indexB) {id : Nat}
    (continues : g.Continues id (Chain.ofLeaf (binaryPlan op ka kb kind)).toList) {m : Memory}
    (own : m.OwnScratch 3) (regionA : m.regions[0]? = some ⟨.shared, a.data⟩)
    (regionB : m.regions[1]? = some ⟨.shared, b.data⟩) {dst : Addr} (inside : dst.region < 3)
    (room : m.Writable dst kind.size) :
    CallGraph.Computes op kind 3 (a.integerAt ka indexA) (b.integerAt kb indexB) dst m
      (g.settled.single id dst [⟨0, a.place indexA⟩, ⟨1, b.place indexB⟩] m) := by
  let operandA : Operand := ⟨⟨0, a.place indexA⟩, ka, a.integerAt ka indexA⟩
  let operandB : Operand := ⟨⟨1, b.place indexB⟩, kb, b.integerAt kb indexB⟩
  have kinds : ∀ o ∈ [operandA, operandB], o.kind.isFloat = false ∧ o.kind.canPromoteTo kind := by
    intro o member
    obtain rfl | rfl := List.mem_pair.mp member
    · exact ⟨discreteA, left⟩
    · exact ⟨discreteB, right⟩
  have holds : ∀ o ∈ [operandA, operandB], o.address.region < 3 ∧ m.HoldsInt o.kind o.address o.value := by
    intro o member
    obtain rfl | rfl := List.mem_pair.mp member
    · exact ⟨Nat.succ_pos 2, wellFormedA.holdsInt_memory kindA discreteA insideA regionA rfl⟩
    · exact ⟨Nat.one_lt_succ_succ 1, wellFormedB.holdsInt_memory kindB discreteB insideB regionB rfl⟩
  exact CallGraph.settled_single_ofLeaf handed integer operandA operandB continues kinds own holds inside room

theorem run_elwise (op : BinaryOp) (integer : kind.IsInteger) (left : ka.canPromoteTo kind)
    (right : kb.canPromoteTo kind) (discreteA : ka.isFloat = false) (discreteB : kb.isFloat = false)
    (wellFormedA : a.WellFormed) (wellFormedB : b.WellFormed) (kindA : a.dtype? = some ka)
    (kindB : b.dtype? = some kb) (stretchesA : Broadcast.Stretches a.shape shape)
    (stretchesB : Broadcast.Stretches b.shape shape) (traversable : Layout.Traversable shape) :
    let x := fun index => a.integerAt ka (Broadcast.sourceIndex a.shape index)
    let y := fun index => b.integerAt kb (Broadcast.sourceIndex b.shape index)
    let g := CallGraph.empty.append (elwiseChain op ka kb kind shape [a.layout, b.layout])
    let start := Callable.callMemory (.blank shape kind) [a, b]
    ((∃ index ∈ indices shape, op = .divide ∧ y index = 0) ∧
        ∃ m, g.single 0 ⟨2, 0⟩ (Callable.sourceAddrs [a, b]) start =
          (.error (.execution (some op.name) .divisionByZero), m)) ∨
      (¬∃ index ∈ indices shape, op = .divide ∧ y index = 0) ∧
        ∃ m, g.single 0 ⟨2, 0⟩ (Callable.sourceAddrs [a, b]) start = (.ok (), m) ∧
          CallGraph.Filled start 3 kind ⟨2, 0⟩ ((indices shape).map fun index => op.onInt (x index) (y index))
            (indices shape).length m := by
  intro x y g start
  have takes : Chain.Takes (elwiseChain op ka kb kind shape [a.layout, b.layout]) 2 :=
    takes_elwiseChain left right a.layout b.layout
  have handed : g.Handed := CallGraph.handed_append (CallGraph.handed_of_assembled .empty) takes
  have continues : g.Continues 0 (elwiseChain op ka kb kind shape [a.layout, b.layout]) :=
    CallGraph.continues_append _ _
  have inside : 0 < g.size := by
    rw [CallGraph.size_append]
    simp only [elwiseChain, Chain.toList, List.length_append, List.length_cons]
    omega
  let sources : List (Addr × Layout) := [(⟨0, a.offset⟩, a.layout), (⟨1, b.offset⟩, b.layout)]
  have fits : ∀ s ∈ sources, s.2.Fits ∧ Broadcast.Stretches s.2.ty.shape shape := by
    intro s member
    obtain rfl | rfl := List.mem_pair.mp member
    · exact ⟨wellFormedA.fits, stretchesA⟩
    · exact ⟨wellFormedB.fits, stretchesB⟩
  have alongEach := Layout.length_compactStrides kind.size shape
  have single := CallGraph.settled_single_loopsOver handed (takes_binaryPlan left right) continues alongEach fits ⟨2, 0⟩
  rw [CallGraph.single_eq_settled handed.descends inside]
  change ((_ ∧ ∃ m, g.settled.single 0 ⟨2, 0⟩ (sources.map (·.1)) start = _) ∨
    _ ∧ ∃ m, g.settled.single 0 ⟨2, 0⟩ (sources.map (·.1)) start = _ ∧ _)
  rw [single, Chain.indices_reached _ traversable]
  have count : (Callable.loopsOver shape (NdArray.blank shape kind).layout [a.layout, b.layout]).length =
      shape.length := by simp [Callable.loopsOver]
  have below := continues.of_append
  rw [List.length_map, count] at below
  refine CallGraph.forM_fills (Nat.lt_succ_self 2) (Memory.ownScratch_of_slots_eq_nil rfl (Nat.le_refl 3)) ?_ ?_
  · intro q before
    exact writable_blank (by rwa [← Layout.length_indices])
  · intro q index found m own frame room
    have inside := mem_indices_iff.mp (List.mem_of_getElem? found)
    have regionA : m.regions[0]? = some ⟨.shared, a.data⟩ := frame 0 (by omega) (by simp)
    have regionB : m.regions[1]? = some ⟨.shared, b.data⟩ := frame 1 (by omega) (by simp)
    rw [← Layout.displacement_of_getElem?_indices kind.size found] at room ⊢
    exact computes_elwise handed integer left right discreteA discreteB wellFormedA wellFormedB kindA kindB
      (Broadcast.isIndex_sourceIndex stretchesA inside) (Broadcast.isIndex_sourceIndex stretchesB inside) below own
      regionA regionB (Nat.lt_succ_self 2) room

/-! ## Calls -/

/-- What stands at the positions of a destination are its elements. -/
theorem holdsInt_of_filled (integer : kind.IsInteger) {m start : Memory} {base number : Nat}
    {computed : List (Except ExecutionFault Int)}
    (filled : CallGraph.Filled start base kind ⟨number, 0⟩ computed (indices shape).length m) {index : List Nat}
    (inside : IsIndex shape index) :
    ∃ (q : Nat) (v : Int), (indices shape)[q]? = some index ∧ computed[q]? = some (.ok v) ∧
      NdArray.HoldsInt { NdArray.blank shape kind with
        data := (m.regions[number]?.map Region.bytes).getD (NdArray.blank shape kind).data }
          kind index (kind.wrap v) := by
  obtain ⟨q, found⟩ := List.mem_iff_getElem?.mp (mem_indices_iff.mpr inside)
  obtain ⟨v, result, held⟩ := filled.results q (List.getElem?_eq_some_iff.mp found).1
  refine ⟨q, v, found, result, ?_⟩
  obtain ⟨r, there⟩ : ∃ r, m.regions[number]? = some r := by
    obtain ⟨bytes, length, ⟨r, there, rest⟩, value⟩ := held
    exact ⟨r, there⟩
  have dtype : NdArray.dtype? { NdArray.blank shape kind with data := r.bytes } = some kind := by
    rw [NdArray.dtype?, NdArray.blank, Ty.dtype_withShape]
    rfl
  have shaped : (NdArray.blank shape kind).shape = shape := Ty.shape_withShape (Ty.isElement_scalar kind)
  rw [there, Option.map_some, Option.getD_some]
  refine (NdArray.holdsInt_iff dtype integer.not_isFloat (shaped.symm ▸ inside) there rfl).mpr ?_
  have place : NdArray.place { NdArray.blank shape kind with data := r.bytes } index = (kind.size * q : Nat) := by
    rw [← Layout.displacement_of_getElem?_indices kind.size found]
    exact Int.zero_add _
  rw [place]
  simpa only [Addr.advance, Int.zero_add] using held

/-- Some index pairs an element with a divisor that is zero. -/
def DividesByZero (op : BinaryOp) (b : NdArray) (kb : Kind) (shape : List Nat) : Prop :=
  op = .divide ∧ ∃ index, IsIndex shape index ∧ b.HoldsInt kb (Broadcast.sourceIndex b.shape index) 0

theorem dividesByZero_iff (wellFormed : b.WellFormed) (kind : b.dtype? = some kb) (discrete : kb.isFloat = false)
    (stretches : Broadcast.Stretches b.shape shape) :
    DividesByZero op b kb shape ↔
      ∃ index ∈ indices shape, op = .divide ∧ b.integerAt kb (Broadcast.sourceIndex b.shape index) = 0 := by
  have held : ∀ index, IsIndex shape index → b.HoldsInt kb (Broadcast.sourceIndex b.shape index)
      (b.integerAt kb (Broadcast.sourceIndex b.shape index)) := fun index inside =>
    wellFormed.holdsInt kind discrete (Broadcast.isIndex_sourceIndex stretches inside)
  constructor
  · rintro ⟨divide, index, inside, zero⟩
    exact ⟨index, mem_indices_iff.mpr inside, divide, (held index inside).unique zero⟩
  · rintro ⟨index, member, divide, zero⟩
    have inside := mem_indices_iff.mp member
    exact ⟨divide, index, inside, zero ▸ held index inside⟩

/-- A call on arrays whose shapes broadcast comes to a run of the nest of loops over the common shape. -/
theorem call_elwise_eq_execute {os : Overloads}
    (fresh : ∀ o ∈ os, o.subject ≠ stamp ∧ ¬(first ≤ o.subject ∧ o.subject < first + 11))
    (concrete : ∀ s ∈ [a.layout, b.layout], s.ty.OfScalars)
    (kinds : [a.layout, b.layout].map (·.ty.dtype) = [.scalar ka, .scalar kb])
    (fits : ∀ s ∈ [a.layout, b.layout], s.Fits) (discreteA : ka.isFloat = false) (discreteB : kb.isFloat = false)
    (finds : (binaryOver config op first).resolve none [.scalar ka, .scalar kb] .empty = .ok (.scalar kind))
    (common : Broadcast.Common [a.shape, b.shape] shape) (allocatable : Layout.Allocatable kind.size shape) :
    ((binaryOver config op first).elwise stamp).call os [a, b] .empty =
      Callable.execute (CallGraph.empty.append (elwiseChain op ka kb kind shape [a.layout, b.layout])) 0
        (NdArray.blank shape kind) [a, b] := by
  obtain ⟨resolved, -, left, right, i, few, found⟩ := of_resolve_binaryOver discreteA discreteB finds
  have types : ∀ t ∈ [a.ty, b.ty], t.OfScalars := List.forall_mem_map.mpr concrete
  have stretches : ∀ s ∈ [a.layout, b.layout], Broadcast.Stretches s.ty.shape shape := by
    intro s member
    have listed : s.ty.shape ∈ [a.layout, b.layout].map (·.ty.shape) := List.mem_map_of_mem member
    exact common.stretches listed
  rw [← kinds] at resolved
  have takes : ((binaryOver config op first).elwise stamp).Takes [a.ty, b.ty] .empty := takes_elwise a.ty b.ty
  have lifted := Callable.resolveTypes_lift_of_common takes ⟨_, bindParams_elwise types⟩ scalarParams_binaryOver
    rfl types common resolved
  have whole := (Callable.resolve_eq_resolveTypes types).trans lifted
  exact Callable.call_eq_execute whole (NdArray.zeros_eq_blank allocatable)
    (instantiate_elwise few fresh left right found concrete kinds fits stretches)

theorem call_elwise_of_not_common (os : Overloads) (concrete : ∀ t ∈ [a.ty, b.ty], t.OfScalars)
    (apart : ¬∃ shape, Broadcast.Common [a.shape, b.shape] shape) :
    ∃ e, ((binaryOver config op first).elwise stamp).call os [a, b] .empty = .error e ∧ e.kind = .typeMismatch := by
  have takes : ((binaryOver config op first).elwise stamp).Takes [a.ty, b.ty] .empty := takes_elwise a.ty b.ty
  obtain ⟨e, failed, mismatch⟩ := Callable.resolveTypes_lift_of_not_common takes ⟨_, bindParams_elwise concrete⟩
    scalarParams_binaryOver rfl concrete apart
  have whole : ((binaryOver config op first).elwise stamp).resolve none [a.ty, b.ty] .empty = .error e :=
    (Callable.resolve_eq_resolveTypes concrete).trans failed
  refine ⟨e, ?_, mismatch⟩
  rw [Callable.call_without_keywords]
  exact congrArg (· >>= _) whole

/-- What an elementwise operation does with two arrays without fractions, of any shapes, offsets and strides,
where neither it nor one of its leaves is overloaded: the pointwise results over the common shape, each wrapped
to the kind that is dispatched to, unless a divisor is zero or there is no common shape. The result must not be too
large to be allocated. -/
theorem call_elwise_binaryDispatch {os : Overloads} {next : Nat} {d : Callable}
    (built : (binaryDispatch config op).run first = .ok (d, next))
    (fresh : ∀ o ∈ os, o.subject ≠ stamp ∧ ¬(first ≤ o.subject ∧ o.subject < next))
    (wellFormedA : a.WellFormed) (wellFormedB : b.WellFormed) (kindA : a.dtype? = some ka) (kindB : b.dtype? = some kb)
    (discreteA : ka.isFloat = false) (discreteB : kb.isFloat = false)
    (finds : d.resolve none [.scalar ka, .scalar kb] .empty = .ok (.scalar kind)) :
    (∀ shape, Broadcast.Common [a.shape, b.shape] shape → Layout.Allocatable kind.size shape →
      (DividesByZero op b kb shape ∧ (d.elwise stamp).call os [a, b] .empty =
          .error (.execution (some op.name) .divisionByZero)) ∨
        ¬DividesByZero op b kb shape ∧ ∃ r, (d.elwise stamp).call os [a, b] .empty = .ok r ∧
          r.ty = .withShape shape (.scalar kind) ∧
          ∀ index, IsIndex shape index → ∃ x y v, a.HoldsInt ka (Broadcast.sourceIndex a.shape index) x ∧
            b.HoldsInt kb (Broadcast.sourceIndex b.shape index) y ∧ op.onInt x y = .ok v ∧
            r.HoldsInt kind index (kind.wrap v)) ∧
      ((¬∃ shape, Broadcast.Common [a.shape, b.shape] shape) →
        ∃ e, (d.elwise stamp).call os [a, b] .empty = .error e ∧ e.kind = .typeMismatch) := by
  rw [StateT.run, binaryDispatch_eq] at built
  cases built
  obtain ⟨-, integer, left, right, -⟩ := of_resolve_binaryOver discreteA discreteB finds
  have concrete : ∀ s ∈ [a.layout, b.layout], s.ty.OfScalars := by
    intro s member
    obtain rfl | rfl := List.mem_pair.mp member
    · exact wellFormedA.concrete
    · exact wellFormedB.concrete
  have fits : ∀ s ∈ [a.layout, b.layout], s.Fits := by
    intro s member
    obtain rfl | rfl := List.mem_pair.mp member
    · exact wellFormedA.fits
    · exact wellFormedB.fits
  have kinds : [a.layout, b.layout].map (·.ty.dtype) = [.scalar ka, .scalar kb] := by
    simp only [List.map_cons, List.map_nil, NdArray.layout, NdArray.dtype_of_dtype? kindA,
      NdArray.dtype_of_dtype? kindB]
  constructor
  · intro shape common allocatable
    have stretchesA : Broadcast.Stretches a.shape shape := common.stretches (by simp)
    have stretchesB : Broadcast.Stretches b.shape shape := common.stretches (by simp)
    rw [call_elwise_eq_execute fresh concrete kinds fits discreteA discreteB finds common allocatable,
      dividesByZero_iff wellFormedB kindB discreteB stretchesB]
    have outcome := run_elwise op integer left right discreteA discreteB wellFormedA wellFormedB kindA kindB
      stretchesA stretchesB (allocatable.traversable kind.size_pos)
    refine outcome.imp ?_ ?_
    · rintro ⟨divides, m, ran⟩
      exact ⟨divides, Callable.execute_of_error ran⟩
    · rintro ⟨fine, m, ran, filled⟩
      refine ⟨fine, _, Callable.execute_of_ok ran, rfl, fun index inside => ?_⟩
      obtain ⟨q, v, found, result, held⟩ := holdsInt_of_filled integer filled inside
      rw [List.getElem?_map, found, Option.map_some, Option.some.injEq] at result
      have insideA := Broadcast.isIndex_sourceIndex stretchesA inside
      have insideB := Broadcast.isIndex_sourceIndex stretchesB inside
      exact ⟨_, _, v, wellFormedA.holdsInt kindA discreteA insideA, wellFormedB.holdsInt kindB discreteB insideB,
        result, held⟩
  · exact call_elwise_of_not_common os (List.forall_mem_map.mpr concrete)

/-- A column read backwards, stretched over a row of truth values, while another callable is overloaded. -/
theorem call_elwise_add_of_reversed_column :
    let byte : Kind := .int .w8
    let a : NdArray := ⟨.withShape [2, 1] (.scalar byte), .ofList [127, 5], 1, [-1, 0]⟩
    let b : NdArray := ⟨.withShape [3] (.scalar .bool), .ofList [0, 1, 255], 0, [1]⟩
    let d : Callable := binaryOver {} .add 0
    let os : Overloads := [⟨12, .any, [], binaryLeaf .multiply 13 byte⟩]
    (binaryDispatch {} .add).run 0 = .ok (d, 11) ∧ (∀ o ∈ os, o.subject ≠ 11 ∧ ¬(0 ≤ o.subject ∧ o.subject < 11)) ∧
      a.WellFormed ∧ b.WellFormed ∧ a.dtype? = some byte ∧ b.dtype? = some .bool ∧ byte.isFloat = false ∧
      Kind.bool.isFloat = false ∧ d.resolve none [.scalar byte, .scalar .bool] .empty = .ok (.scalar byte) ∧
      ∃ r, (d.elwise 11).call os [a, b] .empty = .ok r ∧ r.ty = .withShape [2, 3] (.scalar byte) ∧
        r.HoldsInt byte [1, 2] (-128) := by
  intro byte a b d os
  have built : (binaryDispatch {} .add).run 0 = .ok (d, 11) := binaryDispatch_eq {} .add 0
  have fresh : ∀ o ∈ os, o.subject ≠ 11 ∧ ¬(0 ≤ o.subject ∧ o.subject < 11) := by
    intro o member
    obtain rfl := List.mem_singleton.mp member
    decide
  have builtA : a.Built := .ofParts (by decide)
    (show NdArray.ofParts (.withShape [2, 1] (.scalar byte)) (.ofList [127, 5]) 1 [-1, 0] = .ok a from by cbv)
  have builtB : b.Built := .ofParts (by decide)
    (show NdArray.ofParts (.withShape [3] (.scalar .bool)) (.ofList [0, 1, 255]) 0 [1] = .ok b from by cbv)
  have wellFormedA : a.WellFormed := (builtA.constructed (by decide)).wellFormed rfl
  have wellFormedB : b.WellFormed := (builtB.constructed (by decide)).wellFormed rfl
  have finds : d.resolve none [.scalar byte, .scalar .bool] .empty = .ok (.scalar byte) := by cbv
  have common : Broadcast.Common [a.shape, b.shape] [2, 3] := broadcast_eq_ok_iff.mp rfl
  have called := (call_elwise_binaryDispatch built fresh wellFormedA wellFormedB rfl rfl rfl rfl finds).1 _ common
    (by decide)
  have undivided : ¬DividesByZero .add b .bool [2, 3] := fun divides => absurd divides.1 (by decide)
  obtain ⟨-, r, result, type, elements⟩ := called.resolve_left fun divides => undivided divides.1
  have inside : IsIndex [2, 3] [1, 2] := by simp [IsIndex]
  obtain ⟨x, y, v, left, right, sum, held⟩ := elements [1, 2] inside
  have last : a.HoldsInt byte [1, 0] 127 := ⟨.int 127, by cbv, rfl⟩
  have truth : b.HoldsInt .bool [2] 1 := ⟨.bool true, by cbv, rfl⟩
  obtain rfl : x = 127 := left.unique last
  obtain rfl : y = 1 := right.unique truth
  cases sum
  exact ⟨built, fresh, wellFormedA, wellFormedB, rfl, rfl, rfl, rfl, finds, r, result, type, held⟩

end Builtins

end ArrayCall
