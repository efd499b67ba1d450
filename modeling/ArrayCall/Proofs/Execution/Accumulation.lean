import ArrayCall.Proofs.Execution.Elementwise

/-!
# Accumulation

A reduction keeps what it has accumulated in its destination, which its kernel reads as a source. The fold
writes the identity there (`CallGraph.settled_single_fold`), the loops below it go through the elements
without moving the destination (`CallGraph.settled_single_reductionLoops`), and one element takes the
accumulated integer one step further (`CallGraph.reaches_accumulated`). What a run through all of them
comes to is a fold over a list (`Run.forM_reaches`).
-/

namespace ArrayCall

/-! ## Runs that fold a list -/

namespace Run

variable {α β σ : Type}

/-- What an action comes to if it computes a result: the error of the result, or a memory that holds it. -/
def Reaches (holds : σ → Memory → Prop) (error : ExecutionFault → CallError) (result : Except ExecutionFault σ)
    (outcome : Except CallError Unit × Memory) : Prop :=
  match result with
  | .error fault => outcome.1 = .error (error fault)
  | .ok s => outcome.1 = .ok () ∧ holds s outcome.2

/-- A run through a list folds it, if each action takes what memory holds one step further. -/
theorem forM_reaches {list : List α} {act : α → Run Unit} {value : α → β} {next : σ → β → Except ExecutionFault σ}
    {holds : σ → Memory → Prop} {error : ExecutionFault → CallError}
    (step : ∀ a ∈ list, ∀ s m, holds s m → Reaches holds error (next s (value a)) (act a m)) {s : σ} {m : Memory}
    (start : holds s m) : Reaches holds error ((list.map value).foldlM next s) (forM list act m) := by
  induction list generalizing s m with
  | nil => exact ⟨rfl, start⟩
  | cons a list inductionHypothesis =>
    obtain ⟨first, others⟩ := List.forall_mem_cons.mp step
    have here := first s m start
    rw [List.map_cons, List.foldlM_cons, List.forM_cons, bind_apply]
    cases result : next s (value a) with
    | error fault =>
      rw [result] at here
      generalize act a m = reached at here
      obtain ⟨outcome, m'⟩ := reached
      obtain rfl : outcome = .error (error fault) := here
      rfl
    | ok s' =>
      rw [result] at here
      generalize act a m = reached at here
      obtain ⟨outcome, m'⟩ := reached
      obtain ⟨rfl, held⟩ : outcome = .ok () ∧ holds s' m' := here
      exact inductionHypothesis others held

end Run

/-! ## Steps of a reduction -/

namespace Callable.Associativity

/-- What is accumulated and the next element, in the order in which the operation is given them. -/
def sides {α : Type} (assoc : Associativity) (acc x : α) : α × α :=
  match assoc with
  | left => (acc, x)
  | right => (x, acc)

/-- One step of a reduction: the operation on integers, and the representative of its result. -/
def accumulate (assoc : Associativity) (op : BinaryOp) (kind : Kind) (acc x : Int) : Except ExecutionFault Int :=
  (op.onInt (assoc.sides acc x).1 (assoc.sides acc x).2).map kind.wrap

theorem lt_length_singleton {α : Type} (assoc : Associativity) (x : α) :
    ∀ slot ∈ assoc.slots, slot < ([x].length : Nat) := by
  cases assoc <;> simp [slots]

theorem map_slotAt_slots {α : Type} (assoc : Associativity) (acc x : α) :
    assoc.slots.map (Node.slotAt acc [x]) = [(assoc.sides acc x).1, (assoc.sides acc x).2] := by
  cases assoc <;> rfl

theorem forall_sides {α : Type} (assoc : Associativity) (P : α → Prop) {acc x : α} (left : P acc) (right : P x) :
    ∀ side ∈ [(assoc.sides acc x).1, (assoc.sides acc x).2], P side := by
  cases assoc <;> simp [sides, left, right]

theorem sides_map {α β : Type} (assoc : Associativity) (f : α → β) (acc x : α) :
    assoc.sides (f acc) (f x) = (f (assoc.sides acc x).1, f (assoc.sides acc x).2) := by
  cases assoc <;> rfl

/-- Every operation but division has a next value for whatever is accumulated. -/
theorem foldlM_accumulate_succeeds (assoc : Associativity) {op : BinaryOp} (total : op ≠ .divide) (kind : Kind)
    (values : List Int) (seed : Int) : ∃ v, values.foldlM (assoc.accumulate op kind) seed = .ok v := by
  induction values generalizing seed with
  | nil => exact ⟨seed, rfl⟩
  | cons x values inductionHypothesis =>
    rw [List.foldlM_cons, accumulate]
    cases result : op.onInt (assoc.sides seed x).1 (assoc.sides seed x).2 with
    | error fault => exact absurd (BinaryOp.onInt_eq_error_iff.mp result).1 total
    | ok n => exact inductionHypothesis (kind.wrap n)

end Callable.Associativity

namespace CallGraph

variable {g : CallGraph} {op : BinaryOp} {kind : Kind} {id c : Nat} {n child : Node}

/-! ## Nodes -/

/-- A fold writes its identity, if it has one, and goes on to its child. -/
theorem settled_single_fold (handed : g.Handed) {identity : Option Scalar} (found : g.nodes[id]? = some n)
    (kernel : n.kernel = .fold) (data : n.data = .fold identity kind) (listed : n.children[0]? = some c)
    (there : g.nodes[c]? = some child) {dst : Addr} {m : Memory}
    (writable : ∀ s ∈ identity, m.Writable dst kind.size) (src : List Addr) :
    g.settled.single id dst src m =
      g.settled.single c dst src (identity.elim m fun s => m.put dst (s.encode kind)) := by
  have present : g.child id n 0 = .ok c := child_of_getElem? listed there
  rw [(settled_eq handed.descends found).1]
  simp only [Node.runSingle, kernel, data, present, Run.ofExcept_ok, pure_bind]
  cases identity with
  | none => exact congrFun (within_settled_single handed.descends there _ dst src) m
  | some s =>
    rw [Run.within_bind, Run.bind_apply, Run.within_apply, Run.store_apply (writable s rfl),
      within_settled_single handed.descends there]
    rfl

/-- The loops of a reduction go through the elements of its argument that they get to, and stay at the destination. -/
theorem settled_single_reductionLoops (handed : g.Handed) {l : Layout} {below : List (Kernel × NodeData)}
    (takes : Chain.Takes below 1)
    (continues : g.Continues id (loopNodes (Callable.reductionLoops l) ++ below))
    (fits : l.Fits) (dst src : Addr) :
    g.settled.single id dst [src] = forM (indices (Chain.reached below l.ty.shape)) fun index =>
      g.settled.single (id + l.ty.shape.length) dst [src.advance (Layout.displacement index l.strides)] := by
  have each := Callable.length_srcStride_reductionLoops l
  have count : (Callable.reductionLoops l).length = l.ty.shape.length := by simp [Callable.reductionLoops]
  have nest := Run.overLoops_eq_forM (Chain.batch below) [l] (fun _ => 0) (fun l d => l.strides[d]?.getD 0)
    (fun d => d + 1 = l.ty.shape.length) (g.settled.single (id + l.ty.shape.length)) l.ty.shape.zipIdx dst fun _ => src
  have strides : l.ty.shape.zipIdx.map (fun p => l.strides[p.2]?.getD 0) = l.strides := by
    refine List.ext_getElem (by simp [fits.symm]) fun d inside inside' => ?_
    simp [List.getElem?_eq_getElem inside']
  have still : ∀ index, Layout.displacement index (l.ty.shape.zipIdx.map fun _ => 0) = 0 := fun index =>
    Layout.displacement_eq_zero (by simp)
  rw [settled_single_loops handed takes each (DimLoop.outer_of_zipIdx fun _ => rfl) continues dst rfl, count]
  refine Eq.trans nest ?_
  simp only [Chain.reached, decide_eq_true_eq, strides, still, Addr.advance_zero, List.map_cons, List.map_nil]

/-! ## Elements -/

/-- What stands in memory while a reduction runs: what it has accumulated at the destination, and everything
else of the call as it was. -/
structure Accumulated (start : Memory) (base : Nat) (kind : Kind) (dst : Addr) (acc : Int) (m : Memory) : Prop where
  own : m.OwnScratch base
  frame : ∀ i < base, i ≠ dst.region → m.regions[i]? = start.regions[i]?
  writable : m.Writable dst kind.size
  holds : m.HoldsInt kind dst acc

/-- The identity takes the place of what stands at the destination. -/
theorem Accumulated.put {start : Memory} {base : Nat} {dst : Addr} {acc : Int} {m : Memory}
    (accumulated : Accumulated start base kind dst acc m) (integer : kind.IsInteger) {s : Scalar} {seed : Int}
    (value : s.toInt? = some seed) :
    Accumulated start base kind dst (kind.wrap seed) (m.put dst (s.encode kind)) where
  own := accumulated.own.put _ _
  frame i below other := by rw [Memory.getElem?_put_of_ne other, accumulated.frame i below other]
  writable := accumulated.writable.put _ _
  holds := by
    have encoded := length_encode kind s
    exact ⟨_, encoded, Memory.Writable.holds_put (encoded.symm ▸ accumulated.writable),
      Kind.integer_encode integer value⟩

theorem Accumulated.of_computes {start : Memory} {base : Nat} {dst : Addr} {acc : Int} {m : Memory}
    (accumulated : Accumulated start base kind dst acc m) (inside : dst.region < base) {x y : Int}
    {outcome : Except CallError Unit × Memory} (computes : Computes op kind base x y dst m outcome) :
    Run.Reaches (Accumulated start base kind dst) (.execution (some op.name))
      ((op.onInt x y).map kind.wrap) outcome := by
  unfold Computes at computes
  split at computes
  next fault failed => rw [failed]; exact computes
  next v computed =>
    obtain ⟨bytes, m', rfl, length, value, own, frame⟩ := computes
    rw [computed]
    have writable : m'.Writable dst bytes.length := length ▸ accumulated.writable.congr (frame _ inside)
    refine ⟨rfl, own.put _ _, fun i below other => ?_, length ▸ writable.put _ _, bytes, length, writable.holds_put,
      value⟩
    rw [Memory.getElem?_put_of_ne other, frame i below, accumulated.frame i below other]

/-- One element takes what is accumulated one step further. -/
theorem reaches_accumulated (handed : g.Handed) (integer : kind.IsInteger) (assoc : Callable.Associativity)
    {ka : Kind} (discrete : ka.isFloat = false) (promotes : ka.canPromoteTo kind)
    (continues : g.Continues id ((.permute, .permutation assoc.slots) :: (Chain.ofLeaf (.binary op kind, .none,
      .between [(assoc.sides kind ka).1, (assoc.sides kind ka).2] [kind, kind] (some kind) (some kind))).toList))
    {start : Memory} {base : Nat} {dst src : Addr} (dstInside : dst.region < base) (srcInside : src.region < base)
    {x acc : Int} {m : Memory} (held : m.HoldsInt ka src x) (accumulated : Accumulated start base kind dst acc m) :
    Run.Reaches (Accumulated start base kind dst) (.execution (some op.name)) (assoc.accumulate op kind acc x)
      (g.settled.single id dst [src] m) := by
  obtain ⟨found, ⟨child, there, -⟩, below⟩ := continues.parent (Chain.takes_ofLeaf_of_reads? rfl rfl)
  rw [settled_single_permute handed.descends found rfl rfl rfl there dst (assoc.lt_length_singleton src),
    assoc.map_slotAt_slots]
  refine accumulated.of_computes dstInside ?_
  let accumulator : Operand := ⟨dst, kind, acc⟩
  let element : Operand := ⟨src, ka, x⟩
  have kinds : ∀ o ∈ [(assoc.sides accumulator element).1, (assoc.sides accumulator element).2],
      o.kind.isFloat = false ∧ o.kind.canPromoteTo kind :=
    assoc.forall_sides _ ⟨integer.not_isFloat, kind.canPromoteTo_self⟩ ⟨discrete, promotes⟩
  have holds : ∀ o ∈ [(assoc.sides accumulator element).1, (assoc.sides accumulator element).2],
      o.address.region < base ∧ m.HoldsInt o.kind o.address o.value :=
    assoc.forall_sides _ ⟨dstInside, accumulated.holds⟩ ⟨srcInside, held⟩
  cases assoc with
  | left =>
    exact settled_single_ofLeaf handed integer accumulator element below kinds accumulated.own holds dstInside
      accumulated.writable
  | right =>
    exact settled_single_ofLeaf handed integer element accumulator below kinds accumulated.own holds dstInside
      accumulated.writable

end CallGraph

end ArrayCall
