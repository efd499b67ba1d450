import ArrayCall.Proofs.Execution.Conversion

/-!
# Kernels on elements

A kernel on elements loads its operands, one after the other, and stores what `Kernel.compute` makes of their bytes
(`Node.runSingle_of_operands`). What is to be known of its runs follows from what is known of loads and of a store, and
from this: the result has the size of its kind (`Kernel.length_of_compute`), and there is one unless the divisor is zero
(`Kernel.divides_of_compute`).
-/

namespace ArrayCall

/-! ## Results -/

/-- The one operation that has no result for all integers is division. -/
theorem BinaryOp.onInt_eq_error_iff {op : BinaryOp} {x y : Int} {fault : ExecutionFault} :
    op.onInt x y = .error fault ↔ op = .divide ∧ y = 0 ∧ fault = .divisionByZero := by
  cases op with
  | divide =>
    rw [onInt]
    split
    next zero => simp [zero, eq_comm]
    next nonzero => simp [nonzero]
  | _ => simp [onInt]

theorem BinaryOp.apply_ok_or_divides (op : BinaryOp) (k : Kind) (x y : Bytes) :
    (∃ bytes, op.apply k x y = .ok bytes ∧ bytes.length = k.size) ∨ op.apply k x y = .error .divisionByZero := by
  have discrete : ∀ a b, (∃ bytes, (op.onInt a b).map (fun n => (k.ofInt n).encode k) = .ok bytes ∧
      bytes.length = k.size) ∨ (op.onInt a b).map (fun n => (k.ofInt n).encode k) = .error .divisionByZero := by
    intro a b
    cases result : op.onInt a b with
    | ok n => exact .inl ⟨_, rfl, length_encode k _⟩
    | error fault =>
      obtain ⟨-, -, rfl⟩ := BinaryOp.onInt_eq_error_iff.mp result
      exact .inr rfl
  cases k with
  | float64 => exact .inl ⟨_, rfl, length_littleEndian 8 _⟩
  | float32 => exact .inl ⟨_, rfl, length_littleEndian 4 _⟩
  | _ => exact discrete _ _

theorem Kind.length_negate (k : Kind) (x : Bytes) : (k.negate x).length = k.size := by
  cases k with
  | float64 => exact length_littleEndian 8 _
  | float32 => exact length_littleEndian 4 _
  | _ => exact length_encode _ _

namespace Kernel

/-- The kinds of the sources that a kernel on elements reads, and that of the destination. -/
def operands? : Kernel → NodeData → Option (List Kind × Kind)
  | binary _ k, _ => some ([k, k], k)
  | negative k, _ => some ([k], k)
  | scale k, .scalar _ => some ([k], k)
  | assign, .cast source target => some ([source], target)
  | _, _ => none

/-- What a kernel makes of its operands, given as they stand in memory. -/
def compute : Kernel → NodeData → List Bytes → Except ExecutionFault Bytes
  | binary op k, _, [x, y] => op.apply k x y
  | negative k, _, [x] => .ok (k.negate x)
  | scale k, .scalar factor, [x] =>
    .ok ((Scalar.float ((k.decode x).toDouble.combine (· * ·) factor.toDouble)).encode k)
  | assign, .cast source target, [x] => .ok ((source.decode x).encode target)
  | _, _, _ => .error .notOneSource

variable {kernel : Kernel} {data : NodeData} {kinds : List Kind} {kind : Kind} {values : List Bytes} {bytes : Bytes}

/-- A result has the size of its kind. -/
theorem length_of_compute (operands : kernel.operands? data = some (kinds, kind))
    (computed : kernel.compute data values = .ok bytes) : bytes.length = kind.size := by
  revert operands computed
  fun_cases compute kernel data values with
  | case1 op _ _ x y =>
    rintro ⟨⟩ computed
    obtain ⟨bytes', same, length⟩ | divides := op.apply_ok_or_divides kind x y
    · cases same.symm.trans computed
      exact length
    · cases divides.symm.trans computed
  | case2 _ _ x =>
    rintro ⟨⟩ ⟨⟩
    exact kind.length_negate x
  | case3 _ factor x =>
    rintro ⟨⟩ ⟨⟩
    exact length_encode kind _
  | case4 source _ x =>
    rintro ⟨⟩ ⟨⟩
    exact length_encode kind _
  | case5 => rintro - ⟨⟩

/-- There is none for as many operands as are read only where the divisor is zero. -/
theorem divides_of_compute {fault : ExecutionFault} (operands : kernel.operands? data = some (kinds, kind))
    (length : values.length = kinds.length) (failed : kernel.compute data values = .error fault) :
    fault = .divisionByZero := by
  revert operands length failed
  fun_cases operands? kernel data with
  | case1 op =>
    rintro ⟨⟩ length failed
    obtain ⟨x, y, rfl⟩ := List.length_eq_two.mp length
    obtain ⟨bytes, same, -⟩ | divides := op.apply_ok_or_divides kind x y
    · cases same.symm.trans failed
    · cases divides.symm.trans failed
      rfl
  | case5 => rintro ⟨⟩
  | _ =>
    rintro ⟨⟩ length failed
    obtain ⟨x, rfl⟩ := List.length_eq_one_iff.mp length
    cases failed

end Kernel

/-! ## Operands -/

/-- Loads elements of given kinds, one after the other. -/
def Run.loadAll : List Addr → List Kind → Run (List Bytes)
  | a :: as, k :: ks => do
    let bytes ← Run.loadBytes a k.size
    return bytes :: (← Run.loadAll as ks)
  | _, _ => return []

theorem Run.loadAll_of_holds {m : Memory} {src : List Addr} {values : List Bytes} {kinds : List Kind}
    (held : List.Forall₂ m.Holds src values)
    (lengths : List.Forall₂ (fun (bytes : Bytes) (k : Kind) => bytes.length = k.size) values kinds) :
    Run.loadAll src kinds m = (.ok values, m) := by
  induction held generalizing kinds with
  | nil =>
    obtain rfl := List.forall₂_nil_left_iff.mp lengths
    rfl
  | cons here _ inductionHypothesis =>
    obtain ⟨k, ks, length, others, rfl⟩ := List.forall₂_cons_left_iff.mp lengths
    rw [loadAll, bind_apply, loadBytes_apply here length]
    dsimp only
    rw [bind_apply, inductionHypothesis others]
    rfl

namespace Node

variable {g : CallGraph} {r : Runner} {id : Nat} {n : Node} {m : Memory} {dst : Addr} {src : List Addr}
  {kinds : List Kind} {kind : Kind}

theorem runSingle_of_operands (operands : n.kernel.operands? n.data = some (kinds, kind))
    (length : src.length = kinds.length) :
    n.runSingle g r id dst src = (do
      let values ← Run.loadAll src kinds
      Run.storeBytes dst (← Run.ofExcept (n.kernel.compute n.data values))) := by
  obtain ⟨kernel, data, children⟩ := n
  revert operands length
  dsimp only
  fun_cases Kernel.operands? kernel data with
  | case1 op =>
    rintro length ⟨⟩
    obtain ⟨a, b, rfl⟩ := List.length_eq_two.mp length
    simp only [runSingle, Run.loadAll, Kernel.compute, bind_assoc, pure_bind]
  | case2 =>
    rintro length ⟨⟩
    obtain ⟨a, rfl⟩ := List.length_eq_one_iff.mp length
    simp only [runSingle, Run.loadAll, Kernel.compute, Run.ofExcept_ok, bind_assoc, pure_bind]
  | case3 factor =>
    rintro length ⟨⟩
    obtain ⟨a, rfl⟩ := List.length_eq_one_iff.mp length
    simp only [runSingle, Run.load, Run.store, Run.loadAll, Kernel.compute, Run.ofExcept_ok, bind_assoc, pure_bind]
  | case4 source =>
    rintro length ⟨⟩
    obtain ⟨a, rfl⟩ := List.length_eq_one_iff.mp length
    simp only [runSingle, Run.load, Run.store, Run.loadAll, Kernel.compute, Run.ofExcept_ok, bind_assoc, pure_bind]
  | case5 => rintro - ⟨⟩

/-- With fewer sources or more it fails before it does anything. -/
theorem runSingle_of_length_ne (operands : n.kernel.operands? n.data = some (kinds, kind))
    (length : src.length ≠ kinds.length) : ∃ fault, n.runSingle g r id dst src = Run.fail fault := by
  obtain ⟨kernel, data, children⟩ := n
  revert operands length
  dsimp only
  fun_cases Kernel.operands? kernel data with
  | case1 op =>
    rintro length ⟨⟩
    rcases src with _ | ⟨a, _ | ⟨b, _ | ⟨c, src⟩⟩⟩
    · exact ⟨_, rfl⟩
    · exact ⟨_, rfl⟩
    · exact absurd rfl length
    · exact ⟨_, rfl⟩
  | case5 => rintro - ⟨⟩
  | _ =>
    rintro length ⟨⟩
    rcases src with _ | ⟨a, _ | ⟨b, src⟩⟩
    · exact ⟨_, rfl⟩
    · exact absurd rfl length
    · exact ⟨_, rfl⟩

theorem runSingle_of_holds {values : List Bytes} (operands : n.kernel.operands? n.data = some (kinds, kind))
    (held : List.Forall₂ m.Holds src values)
    (lengths : List.Forall₂ (fun (bytes : Bytes) (k : Kind) => bytes.length = k.size) values kinds) :
    n.runSingle g r id dst src m = (Run.ofExcept (n.kernel.compute n.data values) >>= Run.storeBytes dst) m := by
  rw [runSingle_of_operands operands (held.length_eq.trans lengths.length_eq), Run.bind_apply,
    Run.loadAll_of_holds held lengths]

end Node

end ArrayCall
