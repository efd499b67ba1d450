import ArrayCall.Proofs.Arrays
import ArrayCall.Proofs.Builtins
import ArrayCall.Proofs.Calls
import ArrayCall.Proofs.Calls.Stages
import ArrayCall.Proofs.Execution.Accumulation

/-!
# Reductions

A reduction of an array without fractions into an integer kind folds the elements in the order of their
indices, each step being exact on integers and then wrapped to the kind
(`Builtins.call_reduce_binaryDispatch`). Resolution may infer the kind of the accumulator or take it from a
keyword; in every case the leaf that is dispatched to is the one of that kind
(`Builtins.of_resolve_reductionOver`), so that the accumulator is never converted.
-/

namespace ArrayCall

namespace Builtins

open Callable (Associativity)

variable {config : DispatchConfig} {op : BinaryOp} {assoc : Associativity} {identity : Option Scalar} {first : Nat}
  {ka kind : Kind} {kwds : Keywords} {os : Overloads} {a dst : NdArray}

/-- A reduction by an operation over its leaves. -/
def reductionOver (config : DispatchConfig) (op : BinaryOp) (assoc : Associativity) (identity : Option Scalar)
    (first : Nat) : Callable :=
  .reduce (first + 11) (.permute (first + 12) (binaryOver config op first) assoc.slots) identity

theorem reduce_binaryDispatch_eq (config : DispatchConfig) (op : BinaryOp) (assoc : Associativity)
    (identity : Option Scalar) (first : Nat) :
    (do Builder.reduce (← binaryDispatch config op) assoc identity : Builder Callable) first =
      .ok (reductionOver config op assoc identity first, first + 13) := by
  cases assoc <;> rfl

/-! ## Resolution -/

/-- The kind that a reduction is resolved to is that of the leaf that folds: the accumulator promotes to it
as an argument, and it promotes to the accumulator as a result. -/
theorem of_resolve_reductionOver {t : Ty} (elements : t.dtype = .scalar ka) (discrete : ka.isFloat = false)
    (integer : kind.IsInteger)
    (finds : (reductionOver config op assoc identity first).resolve none [t] kwds = .ok (.scalar kind)) :
    ka.canPromoteTo kind ∧ ∃ i < 10,
      (binaryTable config op first).dispatch [.scalar (assoc.sides kind ka).1, .scalar (assoc.sides kind ka).2] =
        .ok (binaryLeaf op (first + i) kind) := by
  obtain ⟨-, request, ret, -, resolved, delivers⟩ := Callable.resolve_eq_ok_iff.mp finds
  obtain ⟨-, -, folded⟩ := Callable.resolveTypes_reduce_eq_ok_iff.mp resolved
  obtain ⟨-, slotDst, found, chosen, below, promotes, rfl⟩ := Callable.resolveTypes_permute_eq_ok_iff.mp folded
  obtain ⟨-, sources⟩ | ⟨d, rfl, -, given⟩ := Callable.of_slotDestination_eq_ok chosen
  · exact absurd (sources (-1) (by cases assoc <;> decide)) (by decide)
  -- The slot that reads the destination has the type that is delivered, whether it was asked for or inferred.
  obtain rfl : d = .scalar kind := by
    obtain asked | ⟨none, -⟩ := given
    · exact ((delivers.2 d asked).1).symm
    · exact (delivers.1 none).symm
  change (binaryOver config op first).resolveTypes _ _ _ = _ at below
  rw [List.headD_cons, Callable.filterMap_slotTypes (assoc.lt_length_singleton t.dtype) (.inl rfl),
    assoc.map_slotAt_slots, elements,
    assoc.sides_map Ty.scalar] at below
  have both : ∀ k ∈ [(assoc.sides kind ka).1, (assoc.sides kind ka).2], k.isFloat = false :=
    assoc.forall_sides _ integer.not_isFloat discrete
  obtain ⟨leftDiscrete, rest⟩ := List.forall_mem_cons.mp both
  obtain ⟨k, rfl, -, left, right, i, few, dispatched⟩ :=
    of_resolveTypes_binaryOver leftDiscrete (rest _ (by simp)) below
  have back : k.canPromoteTo kind := promotes _ rfl
  obtain ⟨there, element⟩ : kind.canPromoteTo k ∧ ka.canPromoteTo k := by
    cases assoc
    · exact ⟨left, right⟩
    · exact ⟨right, left⟩
  obtain rfl := Kind.eq_of_canPromoteTo there back
  exact ⟨element, i, few, dispatched⟩

/-! ## Instantiation -/

/-- The nodes of a reduction: the fold, a loop for each dimension of the argument, and the kernel of the kind
behind the permutation that gives it the destination as a source. -/
def reductionChain (op : BinaryOp) (assoc : Associativity) (identity : Option Scalar) (ka kind : Kind) (l : Layout) :
    List (Kernel × NodeData) :=
  (.fold, .fold identity kind) :: ((Callable.reductionLoops l).map (fun l => (.loop, .loop l)) ++
    (.permute, .permutation assoc.slots) ::
      (Chain.ofLeaf (binaryPlan op (assoc.sides kind ka).1 (assoc.sides kind ka).2 kind)).toList)

theorem run_outline_reductionOver (fresh : ∀ o ∈ os, ¬(first ≤ o.subject ∧ o.subject < first + 13)) {l : Layout}
    (concrete : l.ty.OfScalars) (elements : l.ty.dtype = .scalar ka) (fits : l.Fits) (promotes : ka.canPromoteTo kind)
    {i : Nat} (few : i < 10)
    (found : (binaryTable config op first).dispatch [.scalar (assoc.sides kind ka).1, .scalar (assoc.sides kind ka).2] =
      .ok (binaryLeaf op (first + i) kind)) :
    ∃ chain : Chain, (Callable.outline os (reductionOver config op assoc identity first) ⟨.scalar kind, []⟩ [l]
        kwds).run = some (.ok chain) ∧ chain.toList = reductionChain op assoc identity ka kind l := by
  have unnamed : ∀ i < 13, ∀ o ∈ os, o.subject ≠ first + i := by
    intro i few o member taken
    exact fresh o member (by omega)
  have both : ∀ k ∈ [(assoc.sides kind ka).1, (assoc.sides kind ka).2], k.canPromoteTo kind :=
    assoc.forall_sides _ kind.canPromoteTo_self promotes
  obtain ⟨left, rest⟩ := List.forall_mem_cons.mp both
  have root : ∀ o ∈ os, o.subject ≠ (reductionOver config op assoc identity first).stamp := unnamed 11 (by omega)
  have same := Callable.outline_eq_outlineNode root ⟨.scalar kind, []⟩ [l] kwds
  generalize Callable.outlineWithin os kwds os.length = jump at same
  have leaf : ((binaryOver config op first).outlineNode os kwds jump ⟨.scalar kind, []⟩
      [⟨.scalar (assoc.sides kind ka).1, []⟩, ⟨.scalar (assoc.sides kind ka).2, []⟩]).run =
        some (.ok (Chain.ofLeaf (binaryPlan op (assoc.sides kind ka).1 (assoc.sides kind ka).2 kind))) :=
    outlineNode_binaryOver (unnamed i (by omega)) left (rest _ (by simp)) found
  have element : l.inside = ⟨.scalar ka, []⟩ := by rw [Layout.inside, elements]
  have slots := assoc.map_slotAt_slots (⟨.scalar kind, []⟩ : Layout) l.inside
  rw [element, assoc.sides_map fun k => (⟨.scalar k, []⟩ : Layout)] at slots
  rw [← slots, ← element] at leaf
  have arity : [l.inside].length =
      (Callable.permute (first + 12) (binaryOver config op first) assoc.slots).arity := by
    rw [Callable.arity_permute]
    cases assoc <;> rfl
  have fold := Callable.run_outlineNode_permute (unnamed 10 (by omega)) arity (assoc.lt_length_singleton _) leaf
  rw [same]
  exact ⟨_, Callable.outlineNode_reduce_scalar (unnamed 12 (by omega)) rfl concrete fits fold, rfl⟩

/-! ## Execution -/

theorem takes_permute_ofLeaf (assoc : Associativity) (op : BinaryOp) (left right kind : Kind) :
    Chain.Takes ((.permute, .permutation assoc.slots) :: (Chain.ofLeaf (binaryPlan op left right kind)).toList) 1 := by
  have binary : Chain.Takes (Chain.ofLeaf (binaryPlan op left right kind)).toList 2 :=
    Chain.takes_ofLeaf_of_reads? rfl rfl
  cases assoc with
  | left => exact .permute Associativity.left.slotsFit.lt_countP binary
  | right => exact .permute Associativity.right.slotsFit.lt_countP binary

/-- The run of a reduction, from what its destination holds once the identity is written. -/
theorem reaches_reduction {g : CallGraph} (handed : g.Handed)
    (continues : g.Continues 0 (reductionChain op assoc identity ka kind a.layout)) (integer : kind.IsInteger)
    (discrete : ka.isFloat = false) (promotes : ka.canPromoteTo kind) (wellFormed : a.WellFormed)
    (kindOf : a.dtype? = some ka) (traversable : Layout.Traversable a.shape) {start : Memory} {place : Addr}
    {seed : Int} (region : start.regions[0]? = some ⟨.shared, a.data⟩) (target : place.region = 1)
    (writable : start.Writable place kind.size)
    (seeded : CallGraph.Accumulated start 2 kind place seed
      (identity.elim start fun s => start.put place (s.encode kind))) :
    Run.Reaches (CallGraph.Accumulated start 2 kind place) (.execution (some op.name))
      (((indices a.shape).map (a.integerAt ka)).foldlM (assoc.accumulate op kind) seed)
      (g.settled.single 0 place [⟨0, a.offset⟩] start) := by
  have takes := takes_permute_ofLeaf assoc op (assoc.sides kind ka).1 (assoc.sides kind ka).2 kind
  have loops := Chain.takes_loops takes (Callable.length_srcStride_reductionLoops a.layout)
  obtain ⟨fold, ⟨child, there, -⟩, nest⟩ := continues.parent loops
  rw [CallGraph.settled_single_fold handed fold rfl rfl rfl there fun _ _ => writable,
    CallGraph.settled_single_reductionLoops handed takes nest wellFormed.fits,
    Chain.indices_reached _ (show Layout.Traversable a.layout.ty.shape from traversable)]
  have count : (Callable.reductionLoops a.layout).length = a.shape.length := by
    simp [Callable.reductionLoops, NdArray.layout, NdArray.shape]
  have below := nest.of_append
  rw [List.length_map, count] at below
  refine Run.forM_reaches (fun index member acc m accumulated => ?_) seeded
  have there : m.regions[0]? = some ⟨.shared, a.data⟩ := by
    rw [accumulated.frame 0 (by omega) (by omega), region]
  have held := wellFormed.holdsInt_memory kindOf discrete (mem_indices_iff.mp member) there rfl
  exact CallGraph.reaches_accumulated handed integer assoc discrete promotes below (by omega) (Nat.succ_pos 1) held
    accumulated

/-! ## Calls -/

/-- What a reduction starts from: its identity, else what the array that it writes into holds, else zero. -/
def StartsFrom (identity : Option Scalar) (kwds : Keywords) (kind : Kind) (seed : Int) : Prop :=
  match identity, kwds.get? Keywords.dstName with
  | some s, _ => ∃ n, s.toInt? = some n ∧ seed = kind.wrap n
  | none, some (.array b) => b.HoldsInt kind [] seed
  | none, _ => seed = 0

theorem integerAt_blank (integer : kind.IsInteger) (shape index : List Nat) :
    (NdArray.blank shape kind).integerAt kind index = 0 := by
  have bytes : ∀ start, (Buffer.zeros (kind.size * shape.prod)).slice start kind.size =
      List.replicate (min kind.size (kind.size * shape.prod - start)) 0 := by
    intro start
    rw [Buffer.slice_eq, Buffer.toList_zeros, List.drop_replicate, List.take_replicate]
  have zero : ∀ n, ofLittleEndian (List.replicate n 0) = 0 := by
    intro n
    induction n with
    | zero => rfl
    | succ n inductionHypothesis => rw [List.replicate_succ, ofLittleEndian, inductionHypothesis]; rfl
  rw [NdArray.integerAt, NdArray.blank, bytes, Kind.integer_eq_wrap integer, zero]
  obtain ⟨w, rfl | rfl⟩ := Kind.isInteger_iff.mp integer
  · exact Int.zero_bmod
  · exact Int.zero_emod _

/-- The destination of a reduction is an element of its kind, whichever way it was chosen. -/
theorem exists_destination {c : Callable} {types : List Ty} (integer : kind.IsInteger)
    (finds : c.resolve none types kwds = .ok (.scalar kind))
    (given : ∀ b, kwds.get? Keywords.dstName = some (.array b) → b.WellFormed) :
    ∃ dst, Callable.destination kwds (.scalar kind) = .ok dst ∧ dst.WellFormed ∧ dst.ty = .scalar kind ∧
      StartsFrom none kwds kind (dst.integerAt kind []) := by
  have zeros : NdArray.zeros (.scalar kind) = .ok (.blank [] kind) :=
    NdArray.zeros_eq_blank (Layout.allocatable_scalar kind)
  rcases asked : kwds.get? Keywords.dstName with _ | t | b | s
  case some.array =>
    obtain ⟨-, request, ret, requested, -, delivers⟩ := Callable.resolve_eq_ok_iff.mp finds
    have type : b.ty = .scalar kind :=
      ((delivers.2 b.ty (Callable.requestedType_of_array asked requested)).1).symm
    have dtype : b.dtype? = some kind := by rw [NdArray.dtype?, type]; rfl
    have index : IsIndex b.shape [] := by rw [NdArray.shape, type]; exact .nil
    refine ⟨b, by rw [Callable.destination, asked], given b asked, type, ?_⟩
    simp only [StartsFrom, asked]
    exact (given b asked).holdsInt dtype integer.not_isFloat index
  all_goals
    refine ⟨.blank [] kind, by rw [Callable.destination, asked, zeros], NdArray.wellFormed_blank [] kind, rfl, ?_⟩
    simp only [StartsFrom, asked]
    exact integerAt_blank integer [] []

section Target

variable (target : dst.WellFormed) (type : dst.ty = .scalar kind)
include target type

theorem layout_target : dst.layout = ⟨.scalar kind, []⟩ := by
  have strides : dst.strides.length = dst.ty.shape.length := target.fits
  rw [type] at strides
  rw [NdArray.layout, type, List.length_eq_zero_iff.mp strides]

omit target in
theorem isIndex_target : IsIndex dst.shape [] := by
  rw [NdArray.shape, type]
  exact .nil

omit target in
theorem dtype?_target : dst.dtype? = some kind := by
  rw [NdArray.dtype?, type]
  rfl

/-- Before a call the destination holds what its array holds. -/
theorem accumulated_callMemory (integer : kind.IsInteger) :
    CallGraph.Accumulated (Callable.callMemory dst [a]) 2 kind ⟨1, dst.place []⟩ (dst.integerAt kind [])
      (Callable.callMemory dst [a]) where
  own := Memory.ownScratch_of_slots_eq_nil rfl (Nat.le_refl 2)
  frame _ _ _ := rfl
  writable := by
    obtain ⟨least, most⟩ := target.inside [] (isIndex_target type)
    have size : dst.ty.elementSize = kind.size := type ▸ Ty.elementSize_withShape [] kind
    exact ⟨⟨.exclusive, dst.data⟩, rfl, by simp, least, by dsimp only; omega⟩
  holds := target.holdsInt_memory (dtype?_target type) integer.not_isFloat (isIndex_target type) rfl rfl

/-- What the destination of a reduction holds when the first element comes. -/
theorem exists_seed (integer : kind.IsInteger) (integers : ∀ s ∈ identity, ∃ n, s.toInt? = some n)
    (held : StartsFrom none kwds kind (dst.integerAt kind [])) :
    ∃ seed, StartsFrom identity kwds kind seed ∧
      CallGraph.Accumulated (Callable.callMemory dst [a]) 2 kind ⟨1, dst.place []⟩ seed
        (identity.elim (Callable.callMemory dst [a]) fun s =>
          (Callable.callMemory dst [a]).put ⟨1, dst.place []⟩ (s.encode kind)) := by
  have initial := accumulated_callMemory (a := a) target type integer
  cases identity with
  | none => exact ⟨_, held, initial⟩
  | some s =>
    obtain ⟨n, value⟩ := integers s rfl
    exact ⟨kind.wrap n, ⟨n, value, rfl⟩, initial.put integer value⟩

omit target in
theorem holdsInt_of_accumulated (integer : kind.IsInteger) {start m : Memory} {v : Int}
    (accumulated : CallGraph.Accumulated start 2 kind ⟨1, dst.place []⟩ v m) :
    NdArray.HoldsInt { dst with data := (m.regions[1]?.map Region.bytes).getD dst.data } kind [] v := by
  obtain ⟨region, there, -⟩ := accumulated.writable
  have result : NdArray.dtype? { dst with data := region.bytes } = some kind := dtype?_target type
  rw [there, Option.map_some, Option.getD_some]
  exact (NdArray.holdsInt_iff result integer.not_isFloat (isIndex_target type) there rfl).mpr accumulated.holds

/-- The run of a call of a reduction. -/
theorem run_reduction (integer : kind.IsInteger) (discrete : ka.isFloat = false) (promotes : ka.canPromoteTo kind)
    (wellFormed : a.WellFormed) (kindOf : a.dtype? = some ka) (traversable : Layout.Traversable a.shape) {seed v : Int}
    (seeded : CallGraph.Accumulated (Callable.callMemory dst [a]) 2 kind ⟨1, dst.place []⟩ seed
      (identity.elim (Callable.callMemory dst [a]) fun s =>
        (Callable.callMemory dst [a]).put ⟨1, dst.place []⟩ (s.encode kind)))
    (folded : ((indices a.shape).map (a.integerAt ka)).foldlM (assoc.accumulate op kind) seed = .ok v) :
    ∃ m, (CallGraph.empty.append (reductionChain op assoc identity ka kind a.layout)).single 0 ⟨1, dst.offset⟩
        (Callable.sourceAddrs [a]) (Callable.callMemory dst [a]) = (.ok (), m) ∧
      CallGraph.Accumulated (Callable.callMemory dst [a]) 2 kind ⟨1, dst.place []⟩ v m := by
  have takes := takes_permute_ofLeaf assoc op (assoc.sides kind ka).1 (assoc.sides kind ka).2 kind
  have loops := Chain.takes_loops takes (Callable.length_srcStride_reductionLoops a.layout)
  have handed : (CallGraph.empty.append (reductionChain op assoc identity ka kind a.layout)).Handed :=
    CallGraph.handed_append (CallGraph.handed_of_assembled .empty) (.fold loops)
  have continues := CallGraph.continues_append .empty (reductionChain op assoc identity ka kind a.layout)
  have reached := reaches_reduction handed continues integer discrete promotes wellFormed kindOf traversable rfl rfl
    (accumulated_callMemory target type integer).writable seeded
  have origin : dst.place [] = dst.offset := by simp [NdArray.place, Layout.displacement]
  rw [folded, ← CallGraph.single_eq_settled handed.descends (by simp [reductionChain])] at reached
  obtain ⟨outcome, accumulated⟩ := reached
  rw [← origin]
  exact ⟨_, Prod.ext outcome rfl, accumulated⟩

end Target

/-- A reduction of an array without fractions, of any shape, offset and strides, into an integer kind: the fold
of its elements in the order of their indices, whether the kind is asked for, given by an array to write into or
inferred. The loops over the array must get to all of its indices. -/
theorem call_reduce_binaryDispatch {c : Callable} {next : Nat}
    (built : (do Builder.reduce (← binaryDispatch config op) assoc identity : Builder Callable).run first =
      .ok (c, next))
    (fresh : ∀ o ∈ os, ¬(first ≤ o.subject ∧ o.subject < next)) (total : op ≠ .divide)
    (integers : ∀ s ∈ identity, ∃ n, s.toInt? = some n) (wellFormed : a.WellFormed) (kindOf : a.dtype? = some ka)
    (discrete : ka.isFloat = false) (traversable : Layout.Traversable a.shape) (integer : kind.IsInteger)
    (given : ∀ b, kwds.get? Keywords.dstName = some (.array b) → b.WellFormed)
    (finds : c.resolve none [a.ty] kwds = .ok (.scalar kind)) :
    ∃ seed values v r, StartsFrom identity kwds kind seed ∧ List.Forall₂ (a.HoldsInt ka) (indices a.shape) values ∧
      values.foldlM (assoc.accumulate op kind) seed = .ok v ∧ c.call os [a] kwds = .ok r ∧ r.ty = .scalar kind ∧
      r.HoldsInt kind [] v := by
  rw [StateT.run, reduce_binaryDispatch_eq] at built
  cases built
  obtain ⟨dst, destined, target, type, held⟩ := exists_destination integer finds given
  have elements := NdArray.dtype_of_dtype? kindOf
  obtain ⟨promotes, i, few, found⟩ := of_resolve_reductionOver elements discrete integer finds
  obtain ⟨chain, outlined, nodes⟩ : ∃ chain : Chain, (Callable.outline os (reductionOver config op assoc identity first)
      dst.layout [a.layout] (kwds.erase Keywords.dstName)).run = some (.ok chain) ∧
        chain.toList = reductionChain op assoc identity ka kind a.layout := by
    rw [layout_target target type]
    exact run_outline_reductionOver fresh wellFormed.concrete elements wellFormed.fits promotes few found
  obtain ⟨seed, starts, seeded⟩ := exists_seed (a := a) target type integer integers held
  obtain ⟨v, folded⟩ := assoc.foldlM_accumulate_succeeds total kind ((indices a.shape).map (a.integerAt ka)) seed
  obtain ⟨m, ran, accumulated⟩ :=
    run_reduction target type integer discrete promotes wellFormed kindOf traversable seeded folded
  have values : List.Forall₂ (a.HoldsInt ka) (indices a.shape) ((indices a.shape).map (a.integerAt ka)) := by
    rw [List.forall₂_map_right_iff, List.forall₂_same]
    exact fun index member => wellFormed.holdsInt kindOf discrete (mem_indices_iff.mp member)
  rw [← nodes] at ran
  have called := Callable.runInto_eq_ok_iff.mpr ⟨chain, outlined, Callable.execute_of_ok ran⟩
  exact ⟨seed, _, v, _, starts, values, folded, Callable.call_eq_ok_iff.mpr ⟨_, dst, finds, destined, called⟩, type,
    holdsInt_of_accumulated type integer accumulated⟩

/-- A matrix read backwards, subtracted from the right into an array of a wider kind that wraps around. -/
theorem call_reduce_subtract_of_reversed_matrix :
    let byte : Kind := .int .w8
    let wide : Kind := .int .w16
    let a : NdArray := ⟨.withShape [2, 2] (.scalar byte), .ofList [1, 2, 3, 4], 3, [-2, -1]⟩
    let b : NdArray := ⟨.scalar wide, .ofList [0, 128], 0, []⟩
    let kwds : Keywords := NameTable.empty.insert Keywords.dstName (.array b)
    let c : Callable := reductionOver {} .subtract .right none 0
    let os : Overloads := [⟨13, .any, [], binaryLeaf .multiply 14 byte⟩]
    (do Builder.reduce (← binaryDispatch {} .subtract) .right none : Builder Callable).run 0 = .ok (c, 13) ∧
      (∀ o ∈ os, ¬(0 ≤ o.subject ∧ o.subject < 13)) ∧ BinaryOp.subtract ≠ .divide ∧
      (∀ s ∈ (none : Option Scalar), ∃ n, s.toInt? = some n) ∧ a.WellFormed ∧ a.dtype? = some byte ∧
      byte.isFloat = false ∧ Layout.Traversable a.shape ∧ wide.IsInteger ∧
      (∀ b, kwds.get? Keywords.dstName = some (.array b) → b.WellFormed) ∧
      c.resolve none [a.ty] kwds = .ok (.scalar wide) ∧
      ∃ r, c.call os [a] kwds = .ok r ∧ r.ty = .scalar wide ∧ r.HoldsInt wide [] 32766 := by
  intro byte wide a b kwds c os
  have built := reduce_binaryDispatch_eq {} .subtract .right none 0
  have fresh : ∀ o ∈ os, ¬(0 ≤ o.subject ∧ o.subject < 13) := by
    intro o member
    obtain rfl := List.mem_singleton.mp member
    decide
  have view : a.Built := .ofParts (by decide)
    (show NdArray.ofParts (.withShape [2, 2] (.scalar byte)) (.ofList [1, 2, 3, 4]) 3 [-2, -1] = .ok a from by cbv)
  have written : b.Built := .ofParts (by decide)
    (show NdArray.ofParts (.scalar wide) (.ofList [0, 128]) 0 [] = .ok b from by cbv)
  have wellFormed : a.WellFormed := (view.constructed (by decide)).wellFormed rfl
  have target : b.WellFormed := (written.constructed (by decide)).wellFormed rfl
  have asked : kwds.get? Keywords.dstName = some (.array b) := NameTable.get?_insert_self ..
  have given : ∀ b, kwds.get? Keywords.dstName = some (.array b) → b.WellFormed := by
    intro other found
    cases asked.symm.trans found
    exact target
  have finds : c.resolve none [a.ty] kwds = .ok (.scalar wide) := by cbv
  have unseeded : ∀ s ∈ (none : Option Scalar), ∃ n, s.toInt? = some n := fun s nothing =>
    absurd nothing (Option.not_mem_none s)
  obtain ⟨seed, values, v, r, starts, elements, folded, called, type, held⟩ :=
    call_reduce_binaryDispatch built fresh (by decide) unseeded wellFormed rfl rfl (by decide) (.inl rfl) given finds
  have starts : b.HoldsInt wide [] seed := by simpa only [StartsFrom, asked] using starts
  obtain rfl : seed = -32768 := starts.unique ⟨.int (-32768), by cbv, rfl⟩
  have read : List.Forall₂ (a.HoldsInt byte) (indices a.shape) [4, 3, 2, 1] :=
    .cons ⟨.int 4, by cbv, rfl⟩ (.cons ⟨.int 3, by cbv, rfl⟩ (.cons ⟨.int 2, by cbv, rfl⟩
      (.cons ⟨.int 1, by cbv, rfl⟩ .nil)))
  have unique : Relator.RightUnique (a.HoldsInt byte) := fun _ _ _ holds holds' => holds.unique holds'
  obtain rfl : values = [4, 3, 2, 1] := List.right_unique_forall₂' unique elements read
  cases folded
  exact ⟨built, fresh, by decide, unseeded, wellFormed, rfl, rfl, by decide, .inl rfl, given, finds, r, called,
    type, held⟩

theorem foldlM_maximum_const {α : Type} (xs : List α) {seed : Int} (start : seed = 5 ∨ seed = 0 ∧ xs ≠ []) :
    (xs.map fun _ => (5 : Int)).foldlM (Associativity.left.accumulate .maximum (.int .w32)) seed = .ok 5 := by
  induction xs generalizing seed with
  | nil => exact congrArg _ (start.resolve_right fun h => h.2 rfl)
  | cons x xs inductionHypothesis =>
    have step : Associativity.left.accumulate .maximum (.int .w32) seed 5 = .ok 5 := by
      obtain rfl | ⟨rfl, -⟩ := start <;> decide
    rw [List.map_cons, List.foldlM_cons, step]
    exact inductionHypothesis (.inl rfl)

/-- The maximum of `2 ^ 64 - 1` elements, all of them the one that is there. A loop over that many is not run at all, so
that what is returned is the start value. -/
theorem call_reduce_skips_large_view :
    let int : Kind := .int .w32
    let a : NdArray := ⟨.withShape [2 ^ 64 - 1] (.scalar int), .ofList [5, 0, 0, 0], 0, [0]⟩
    let c : Callable := reductionOver {} .maximum .left none 0
    (do Builder.reduce (← binaryDispatch {} .maximum) .left none : Builder Callable).run 0 = .ok (c, 13) ∧
      a.Built ∧ c.resolve none [a.ty] .empty = .ok (.scalar int) ∧ StartsFrom none .empty int 0 ∧
      (∃ values, List.Forall₂ (a.HoldsInt int) (indices a.shape) values ∧
        values.foldlM (Associativity.left.accumulate .maximum int) 0 = .ok 5) ∧
      ∃ r, c.call [] [a] .empty = .ok r ∧ r.HoldsInt int [] 0 ∧ ¬r.HoldsInt int [] 5 := by
  intro int a c
  have built := reduce_binaryDispatch_eq {} .maximum .left none 0
  have view : a.Built := .ofParts (by decide)
    (show NdArray.ofParts (.withShape [2 ^ 64 - 1] (.scalar int)) (.ofList [5, 0, 0, 0]) 0 [0] = .ok a from by cbv)
  have finds : c.resolve none [a.ty] .empty = .ok (.scalar int) := by cbv
  have called : c.call [] [a] .empty = .ok (.scalar int (.int 0)) := by cbv
  have holds : (NdArray.scalar int (.int 0)).HoldsInt int [] 0 := ⟨.int 0, by cbv, rfl⟩
  have nonempty : indices a.shape ≠ [] := by
    have first : [0] ∈ indices a.shape := mem_indices_iff.mpr (.cons (by decide) .nil)
    exact List.ne_nil_of_mem first
  have each : ∀ index ∈ indices a.shape, a.HoldsInt int index 5 := by
    intro index member
    have inside := mem_indices_iff.mp member
    obtain ⟨i, _, -, nothing, rfl⟩ := List.forall₂_cons_right_iff.mp inside
    cases nothing
    have place : a.place [i] = 0 := by simp [a, NdArray.place, Layout.displacement]
    have read : a.get int [i] = .ok (.int 5) := by
      rw [NdArray.get_eq_element rfl inside, place]
      cbv
    exact ⟨.int 5, read, rfl⟩
  refine ⟨built, view, finds, rfl, ⟨_, List.forall₂_map_right_iff.mpr (List.forall₂_same.mpr each),
    foldlM_maximum_const _ (.inr ⟨rfl, nonempty⟩)⟩, _, called, holds, fun other => ?_⟩
  exact absurd (holds.unique other) (by decide)

end Builtins

end ArrayCall
