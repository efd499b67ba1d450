import ArrayCall.Proofs.Execution.Kernels
import ArrayCall.Proofs.Execution.Loops

/-!
# Elementwise runs of binary operations

One element of a binary operation is computed from the integers at two addresses, behind a conversion
or not (`CallGraph.settled_single_ofLeaf`). A run through many of them fills the destination element by
element, or stops at the first that has no result (`CallGraph.forM_fills`).
-/

namespace ArrayCall

namespace CallGraph

variable {g : CallGraph} {op : BinaryOp} {kind : Kind}

/-! ## One element -/

/-- What a run for one element comes to: the error of the operation, or its result at the destination,
with nothing else changed below region `base`. -/
def Computes (op : BinaryOp) (kind : Kind) (base : Nat) (x y : Int) (dst : Addr) (m : Memory)
    (result : Except CallError Unit × Memory) : Prop :=
  match op.onInt x y with
  | .error fault => result.1 = .error (.execution (some op.name) fault)
  | .ok v => ∃ (bytes : Bytes) (m' : Memory), result = (.ok (), m'.put dst bytes) ∧ bytes.length = kind.size ∧
    kind.integer bytes = kind.wrap v ∧ m'.OwnScratch base ∧ ∀ i < base, m'.regions[i]? = m.regions[i]?

theorem settled_single_binary (descends : g.Descends) (integer : kind.IsInteger) {id : Nat} {n : Node}
    (found : g.nodes[id]? = some n) (kernel : n.kernel = .binary op kind) {base : Nat} {m : Memory}
    (own : m.OwnScratch base) {a b dst : Addr} {x y : Int} (left : m.HoldsInt kind a x)
    (right : m.HoldsInt kind b y) (writable : m.Writable dst kind.size) :
    Computes op kind base x y dst m (g.settled.single id dst [a, b] m) := by
  obtain ⟨bytes, length, stands, rfl⟩ := left
  obtain ⟨bytes', length', stands', rfl⟩ := right
  rw [(settled_eq descends found).1, kernel, Run.within_apply]
  simp only [Node.runSingle, kernel, Run.bind_apply, Run.loadBytes_apply stands length,
    Run.loadBytes_apply stands' length', BinaryOp.apply_of_isInteger integer, Computes]
  cases computed : op.onInt (kind.integer bytes) (kind.integer bytes') with
  | error fault => rfl
  | ok v =>
    have encoded := length_encode kind (kind.ofInt v)
    simp only [Except.map, Run.ofExcept_ok, Run.pure_apply, Run.storeBytes_apply (encoded.symm ▸ writable)]
    refine ⟨_, m, rfl, encoded, ?_, own, fun _ _ => rfl⟩
    rw [Kind.integer_encode integer (Kind.toInt?_ofInt integer v), Kind.wrap_wrap integer]

/-- Once its sources are converted, a conversion that leaves the destination alone is its child. -/
theorem settled_single_convert (handed : g.Handed) {id c : Nat} {n child : Node} {plan : ConvertPlan}
    (found : g.nodes[id]? = some n) (kernel : n.kernel = .convert) (data : n.data = .convert plan)
    (listed : n.children[0]? = some c) (kept : plan.dst = none) (there : g.nodes[c]? = some child) (dst : Addr)
    {src places : List Addr} {m m' : Memory}
    (ran : Node.convertSources id 0 src plan.src m = (.ok places, m')) :
    g.settled.single id dst src m = g.settled.single c dst places m' := by
  have present : g.child id n 0 = .ok c := child_of_getElem? listed there
  rw [(settled_eq handed.descends found).1]
  simp only [Node.runSingle, kernel, Node.runConvert, data, present, Run.ofExcept_ok, pure_bind, kept]
  rw [Run.within_bind, Run.bind_apply, Run.within_apply, ran]
  exact congrFun (within_settled_single handed.descends there _ dst places) m'

/-- Nothing is converted where the kinds that there are are the kinds that the kernel takes. -/
theorem isIdentity_between_iff (kinds : List (Kind × Kind)) (given want : Kind) :
    (ConvertPlan.between (kinds.map (·.1)) (kinds.map (·.2)) (some given) (some want)).isIdentity ↔
      given = want ∧ ∀ p ∈ kinds, p.1 = p.2 := by
  simp [ConvertPlan.isIdentity, ConvertPlan.between, ConvertPlan.step, List.zipWith_map, List.zipWith_self]

theorem Computes.of_frame {base : Nat} {x y : Int} {dst : Addr} {m m' : Memory}
    {result : Except CallError Unit × Memory} (computes : Computes op kind base x y dst m' result)
    (frame : ∀ i < base, m'.regions[i]? = m.regions[i]?) : Computes op kind base x y dst m result := by
  unfold Computes at computes ⊢
  split at computes
  next => exact computes
  next =>
    obtain ⟨bytes, m₂, ran, length, value, own, kept⟩ := computes
    exact ⟨bytes, m₂, ran, length, value, own, fun i old => (kept i old).trans (frame i old)⟩

theorem settled_single_ofLeaf (handed : g.Handed) (integer : kind.IsInteger) {id : Nat} (left right : Operand)
    (continues : g.Continues id (Chain.ofLeaf (.binary op kind, .none,
      .between [left.kind, right.kind] [kind, kind] (some kind) (some kind))).toList)
    (kinds : ∀ o ∈ [left, right], o.kind.isFloat = false ∧ o.kind.canPromoteTo kind) {base : Nat} {m : Memory}
    (own : m.OwnScratch base)
    (holds : ∀ o ∈ [left, right], o.address.region < base ∧ m.HoldsInt o.kind o.address o.value)
    {dst : Addr} (inside : dst.region < base) (writable : m.Writable dst kind.size) :
    Computes op kind base left.value right.value dst m
      (g.settled.single id dst [left.address, right.address] m) := by
  rw [Chain.ofLeaf] at continues
  split at continues
  next plain =>
    have same := (isIdentity_between_iff [(left.kind, kind), (right.kind, kind)] kind kind).mp plain
    obtain ⟨leftKind, rightKind⟩ : left.kind = kind ∧ right.kind = kind := by simpa using same.2
    have found : g.nodes[id]? = some ⟨.binary op kind, .none, []⟩ := continues 0 Nat.one_pos
    have held := List.forall_mem_cons.mp holds
    exact settled_single_binary handed.descends integer found rfl own (leftKind ▸ held.1.2)
      (rightKind ▸ (List.forall_mem_singleton.mp held.2).2) writable
  next =>
    have found : g.nodes[id]? = some ⟨.convert, .convert _, [id + 1]⟩ := continues 0 Nat.two_pos
    have below : g.nodes[id + 1]? = some ⟨.binary op kind, .none, []⟩ := continues 1 Nat.one_lt_two
    obtain ⟨places, m', ran, converts, held⟩ := Node.convertSources_spec integer id 0 own kinds holds
    obtain ⟨p, _, heldLeft, rest, rfl⟩ := List.forall₂_cons_right_iff.mp held
    obtain ⟨q, _, heldRight, nothing, rfl⟩ := List.forall₂_cons_right_iff.mp rest
    obtain rfl := List.forall₂_nil_right_iff.mp nothing
    have frame : ∀ i < base, m'.regions[i]? = m.regions[i]? := fun i old => converts.frame i (.inl old)
    have computes := settled_single_binary handed.descends integer below rfl converts.own heldLeft heldRight
      (writable.congr (frame _ inside))
    have kept : (ConvertPlan.between [left.kind, right.kind] [kind, kind] (some kind) (some kind)).dst = none := by
      simp [ConvertPlan.between, ConvertPlan.step]
    have run : g.settled.single id dst [left.address, right.address] m = _ :=
      settled_single_convert handed found rfl rfl rfl kept below dst ran
    rw [run]
    exact computes.of_frame frame

/-! ## All elements -/

/-- What stands in memory once the first `q` elements are computed: their results at the destination, and
everything else of the call as it was. -/
structure Filled (start : Memory) (base : Nat) (kind : Kind) (dst : Addr)
    (computed : List (Except ExecutionFault Int)) (q : Nat) (m : Memory) : Prop where
  own : m.OwnScratch base
  frame : ∀ i < base, i ≠ dst.region → m.regions[i]? = start.regions[i]?
  writable : ∀ offset length, start.Writable (dst.advance offset) length → m.Writable (dst.advance offset) length
  results : ∀ p < q, ∃ v, computed[p]? = some (.ok v) ∧
    m.HoldsInt kind (dst.advance (kind.size * p : Nat)) (kind.wrap v)

theorem filled_step {start : Memory} {base : Nat} {dst : Addr} {computed : List (Except ExecutionFault Int)}
    {q : Nat} {m : Memory} (filled : Filled start base kind dst computed q m) {x y v : Int} (inside : dst.region < base)
    (here : computed[q]? = some (op.onInt x y)) (value : op.onInt x y = .ok v)
    (room : start.Writable (dst.advance (kind.size * q : Nat)) kind.size) {result : Except CallError Unit × Memory}
    (computes : Computes op kind base x y (dst.advance (kind.size * q : Nat)) m result) :
    ∃ m', result = (.ok (), m') ∧ Filled start base kind dst computed (q + 1) m' := by
  simp only [Computes, value] at computes
  obtain ⟨bytes, m', rfl, length, same, own, frame⟩ := computes
  have kept : m'.regions[dst.region]? = m.regions[dst.region]? := frame _ inside
  have room' : m'.Writable (dst.advance (kind.size * q : Nat)) bytes.length := by
    rw [length]
    exact (filled.writable _ _ room).congr kept
  refine ⟨_, rfl, own.put _ _, fun i below other => ?_, fun offset length free => ?_, fun p before => ?_⟩
  · have outside : i ≠ (dst.advance (kind.size * q : Nat)).region := other
    rw [Memory.getElem?_put_of_ne outside, frame i below, filled.frame i below other]
  · exact ((filled.writable offset length free).congr kept).put _ _
  · rcases Nat.lt_succ_iff_lt_or_eq.mp before with earlier | rfl
    · obtain ⟨v, found, bytes', length', stands, value⟩ := filled.results p earlier
      refine ⟨v, found, bytes', length', ?_, value⟩
      refine (stands.congr kept).put_of_disjoint room' (.inl ?_)
      have later : kind.size * (p + 1) ≤ kind.size * q := Nat.mul_le_mul_left _ earlier
      rw [Nat.mul_succ] at later
      simp only [Addr.advance, length']
      omega
    · exact ⟨v, by rw [here, value], bytes, length, room'.holds_put, same⟩

/-- A run through a list fills the destination from one position to the next, or stops with the error of
the operation where that has no result. -/
theorem forM_fills {α : Type} {list : List α} {act : α → Run Unit} {x y : α → Int} {start : Memory} {base : Nat}
    {dst : Addr} (inside : dst.region < base) (own : start.OwnScratch base)
    (room : ∀ q < list.length, start.Writable (dst.advance (kind.size * q : Nat)) kind.size)
    (computes : ∀ (q : Nat) (a : α), list[q]? = some a → ∀ m : Memory, m.OwnScratch base →
      (∀ i < base, i ≠ dst.region → m.regions[i]? = start.regions[i]?) →
      m.Writable (dst.advance (kind.size * q : Nat)) kind.size →
      Computes op kind base (x a) (y a) (dst.advance (kind.size * q : Nat)) m (act a m)) :
    ((∃ a ∈ list, op = .divide ∧ y a = 0) ∧ ∃ m', forM list act start =
        (.error (.execution (some op.name) .divisionByZero), m')) ∨
      (¬∃ a ∈ list, op = .divide ∧ y a = 0) ∧ ∃ m', forM list act start = (.ok (), m') ∧
        Filled start base kind dst (list.map fun a => op.onInt (x a) (y a)) list.length m' := by
  refine Run.forM_spec (Filled start base kind dst (list.map fun a => op.onInt (x a) (y a))) ?_
    ⟨own, fun _ _ _ => rfl, fun _ _ free => free, by simp⟩
  intro q a found m filled
  have below : q < list.length := (List.getElem?_eq_some_iff.mp found).1
  have free := filled.writable _ _ (room q below)
  have result := computes q a found m filled.own filled.frame free
  have here : (list.map fun a => op.onInt (x a) (y a))[q]? = some (op.onInt (x a) (y a)) := by
    rw [List.getElem?_map, found, Option.map_some]
  cases value : op.onInt (x a) (y a) with
  | error fault =>
    obtain ⟨divide, zero, rfl⟩ := BinaryOp.onInt_eq_error_iff.mp value
    simp only [Computes, value] at result
    exact .inl ⟨⟨divide, zero⟩, _, Prod.ext result rfl⟩
  | ok v =>
    refine .inr ⟨?_, filled_step filled inside here value (room q below) result⟩
    rintro ⟨divide, zero⟩
    rw [BinaryOp.onInt_eq_error_iff.mpr ⟨divide, zero, rfl⟩] at value
    cases value

end CallGraph

end ArrayCall
