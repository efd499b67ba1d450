import ArrayCall.Proofs.Indices

/-!
# The odometer

The rank of an index in row-major order (`rowMajor`) is where the index is listed (`getElem?_indices_rowMajor`). One
turn of the odometer moves an index of a shape to the one of the next rank, and the last one to all zeros
(`Layout.turn_spec`). So the indices that it comes to are all of them in order (`Layout.turns_eq_indices`), and where
the elements of an array are is found index by index (`Layout.offsets_eq_ok_iff`).
-/

namespace ArrayCall

variable {shape index : List Nat}

/-! ## Ranks -/

/-- How many indices of a shape come before one if the last number runs fastest. -/
def rowMajor : (shape index : List Nat) → Nat
  | _ :: shape, i :: index => i * shape.prod + rowMajor shape index
  | _, _ => 0

/-- Elements that stand side by side stand in the order of their ranks. -/
theorem displacement_compactStrides (size : Nat) (inside : IsIndex shape index) :
    Layout.displacement index (Layout.compactStrides size shape) = (size * rowMajor shape index : Nat) := by
  induction inside with
  | nil => rfl
  | cons _ _ inductionHypothesis =>
    rw [Layout.compactStrides, Layout.displacement, inductionHypothesis, rowMajor]
    push_cast
    ring

theorem getElem?_indices_rowMajor (inside : IsIndex shape index) :
    (indices shape)[rowMajor shape index]? = some index := by
  obtain ⟨q, found⟩ := List.mem_iff_getElem?.mp (mem_indices_iff.mpr inside)
  have place := Layout.displacement_of_getElem?_indices 1 found
  rw [displacement_compactStrides 1 inside, Nat.one_mul, Nat.one_mul, Int.natCast_inj] at place
  rw [place, found]

theorem rowMajor_zeros (shape : List Nat) : rowMajor shape (List.replicate shape.length 0) = 0 := by
  induction shape with
  | nil => rfl
  | cons n shape inductionHypothesis =>
    rw [List.length_cons, List.replicate_succ, rowMajor, inductionHypothesis, Nat.zero_mul]

theorem isIndex_zeros (full : 0 ∉ shape) : IsIndex shape (List.replicate shape.length 0) := by
  induction shape with
  | nil => exact .nil
  | cons n shape inductionHypothesis =>
    obtain ⟨filled, full⟩ := not_or.mp (List.mem_cons.not.mp full)
    exact .cons (Nat.pos_of_ne_zero (Ne.symm filled)) (inductionHypothesis full)

namespace Layout

/-! ## Turns -/

/-- What one turn comes to: the index of the next rank, if there is one, and otherwise all zeros. -/
inductive Turned (shape index : List Nat) : Bool × List Nat → Prop
  | next {later : List Nat} (inside : IsIndex shape later) (rank : rowMajor shape later = rowMajor shape index + 1)
      (below : rowMajor shape index + 1 < shape.prod) : Turned shape index (false, later)
  | back (last : rowMajor shape index + 1 = shape.prod) :
      Turned shape index (true, List.replicate shape.length 0)

/-- The step of the odometer. What the last numbers come to says whether the first one is moved on. -/
theorem turn_spec (inside : IsIndex shape index) : Turned shape index (turn shape index) := by
  induction inside with
  | nil => exact .back rfl
  | @cons i n index shape below inside inductionHypothesis =>
    have block : (i + 1) * shape.prod ≤ n * shape.prod := Nat.mul_le_mul_right _ below
    rw [Nat.succ_mul] at block
    rw [turn]
    generalize turn shape index = turned at inductionHypothesis ⊢
    cases inductionHypothesis with
    | next later rank less =>
      refine .next (.cons below later) ?_ ?_
      · rw [rowMajor, rowMajor, rank, Nat.add_assoc]
      · rw [rowMajor, List.prod_cons]
        omega
    | back last =>
      have positive : 0 < shape.prod := by omega
      have full : 0 ∉ shape := fun empty => by simp [List.prod_eq_zero empty] at positive
      dsimp only
      split
      next more =>
        refine .next (.cons more (isIndex_zeros full)) ?_ ?_
        · rw [rowMajor, rowMajor, rowMajor_zeros, Nat.succ_mul]
          omega
        · have ahead : (i + 1) * shape.prod < n * shape.prod := Nat.mul_lt_mul_of_pos_right more positive
          rw [rowMajor, List.prod_cons]
          rw [Nat.succ_mul] at ahead
          omega
      next done =>
        obtain rfl : n = i + 1 := by omega
        refine .back ?_
        rw [rowMajor, List.prod_cons, Nat.succ_mul]
        omega

/-- The run of the odometer from an index on. -/
theorem turns_eq_drop {count : Nat} (inside : IsIndex shape index) (left : rowMajor shape index + count = shape.prod) :
    turns shape count index = (indices shape).drop (rowMajor shape index) := by
  induction count generalizing index with
  | zero =>
    rw [turns, List.drop_eq_nil_of_le]
    rw [length_indices]
    omega
  | succ count inductionHypothesis =>
    obtain ⟨there, same⟩ := List.getElem?_eq_some_iff.mp (getElem?_indices_rowMajor inside)
    rw [turns, List.drop_eq_getElem_cons there, same]
    congr 1
    have turned := turn_spec inside
    generalize turn shape index = step at turned ⊢
    cases turned with
    | next later rank _ => rw [inductionHypothesis later (by omega), rank]
    | back last =>
      obtain rfl : count = 0 := by omega
      rw [turns, List.drop_eq_nil_of_le]
      rw [length_indices]
      omega

/-- From all zeros on the odometer comes to every index of the shape, in order. -/
theorem turns_eq_indices (shape : List Nat) :
    turns shape shape.prod (List.replicate shape.length 0) = indices shape := by
  by_cases empty : 0 ∈ shape
  · rw [List.prod_eq_zero empty, indices_eq_nil empty, turns]
  · have start := rowMajor_zeros shape
    rw [turns_eq_drop (isIndex_zeros empty) (by rw [start, Nat.zero_add]), start, List.drop_zero]

/-! ## Places -/

variable {start : Int} {strides : List Int} {places : List Int}

/-- The places of all elements are found if their number is, and there is room for a list of them. -/
theorem offsets_eq_ok_iff :
    offsets start shape strides = .ok places ↔
      places = (indices shape).map (start + displacement · strides) ∧
        (∀ front, front <+: shape → front.prod < 2 ^ 64) ∧ shape.prod * 8 ≤ Machine.most := by
  rw [offsets, bind_eq_ok_iff]
  constructor
  · rintro ⟨total, counted, found⟩
    obtain ⟨rfl, fits⟩ := Machine.product_eq_ok_iff.mp counted
    obtain ⟨_, room, same⟩ := bind_eq_ok_iff.mp found
    cases same
    rw [turns_eq_indices]
    exact ⟨rfl, fits, Machine.allocate_eq_ok_iff.mp room⟩
  · rintro ⟨rfl, fits, room⟩
    refine ⟨_, Machine.product_eq_ok_iff.mpr ⟨rfl, fits⟩,
      bind_eq_ok_iff.mpr ⟨(), Machine.allocate_eq_ok_iff.mpr room, ?_⟩⟩
    rw [turns_eq_indices]
    rfl

theorem Countable.offsets_eq (countable : Countable shape) (start : Int) (strides : List Int) :
    offsets start shape strides = .ok ((indices shape).map (start + displacement · strides)) := by
  refine offsets_eq_ok_iff.mpr ⟨rfl, fun front leads => ?_, countable.2⟩
  exact countable.1 shape ((List.mem_tails _ _).mpr List.suffix_rfl) front ((List.mem_inits _ _).mpr leads)

end Layout

end ArrayCall
