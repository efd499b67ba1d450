import ArrayCall.Proofs.Arrays

/-!
# Bounds of views

A view is checked for its extent alone. Each end of the extent is the end of an element at some corner of the shape
(`NdArray.exists_corners`), and no element reaches beyond it, so the views that are accepted are just those whose
elements all lie inside the buffer (`NdArray.exists_ofParts_eq_ok_iff`), as long as the extent is computed without
overflow (`NdArray.Measured`). Whatever can be built is then read without leaving the buffer
(`NdArray.Built.exists_get_eq_ok`). `NdArray.accepts_just_what_fits` is both.
-/

namespace ArrayCall

namespace NdArray

variable {t : Ty} {data : Buffer} {offset : Nat} {shape : List Nat} {strides : List Int}

/-- The extent of a view is computed without overflow: its place and its sizes are read as they are, and no sum or
product leaves a signed word. -/
structure Measured (t : Ty) (offset : Nat) (strides : List Int) : Prop where
  place : offset ≤ Machine.most
  sizes : Layout.Traversable t.shape
  extent : ∃ bounds, reach t offset strides = .ok bounds

/-! ## Corners -/

/-- The element that comes first in memory has the last number in each dimension with a negative stride and zero in the
others, and the element that comes last has it the other way round. -/
theorem exists_corners (full : 0 ∉ shape) (fits : ∀ n ∈ shape, n ≤ Machine.most)
    (strided : strides.length = shape.length)
    {place first last low high : Int} (found : extent place first last (shape.zip strides) = .ok (low, high)) :
    ∃ front back, IsIndex shape front ∧ IsIndex shape back ∧
      low = first + Layout.displacement front strides ∧ high = last + Layout.displacement back strides := by
  induction shape generalizing strides first last with
  | nil =>
    cases found
    exact ⟨[], [], .nil, .nil, by simp, by simp⟩
  | cons n shape inductionHypothesis =>
    obtain ⟨s, strides, rfl⟩ := List.exists_cons_of_length_eq_add_one strided
    obtain ⟨filled, full⟩ := not_or.mp (List.mem_cons.not.mp full)
    obtain ⟨fit, fits⟩ := List.forall_mem_cons.mp fits
    have most : ((n - 1 : Nat) : Int) = n - 1 := by omega
    rw [List.zip_cons_cons, extent, if_neg (Ne.symm filled)] at found
    obtain ⟨step, back, found⟩ := bind_eq_ok_iff.mp found
    obtain ⟨span, moved, found⟩ := bind_eq_ok_iff.mp found
    obtain ⟨rfl, -⟩ := Machine.signed_eq_ok_iff.mp back
    obtain ⟨rfl, -⟩ := Machine.signed_eq_ok_iff.mp moved
    rw [Machine.asSigned_of_le fit] at found
    split at found
    next down =>
      obtain ⟨moved, ran, found⟩ := bind_eq_ok_iff.mp found
      obtain ⟨rfl, -⟩ := Machine.signed_eq_ok_iff.mp ran
      obtain ⟨front, back, insideFront, insideBack, rfl, rfl⟩ :=
        inductionHypothesis full fits (Nat.succ.inj strided) found
      refine ⟨(n - 1) :: front, 0 :: back, .cons (by omega) insideFront, .cons (by omega) insideBack, ?_, ?_⟩
      · rw [Layout.displacement, most, Int.add_assoc]
      · simp [Layout.displacement]
    next up =>
      obtain ⟨moved, ran, found⟩ := bind_eq_ok_iff.mp found
      obtain ⟨rfl, -⟩ := Machine.signed_eq_ok_iff.mp ran
      obtain ⟨front, back, insideFront, insideBack, rfl, rfl⟩ :=
        inductionHypothesis full fits (Nat.succ.inj strided) found
      refine ⟨0 :: front, (n - 1) :: back, .cons (by omega) insideFront, .cons (by omega) insideBack, ?_, ?_⟩
      · simp [Layout.displacement]
      · rw [Layout.displacement, most, Int.add_assoc]

/-- A view without elements is checked for its place alone. -/
theorem extent_of_empty (empty : 0 ∈ shape) (strided : strides.length = shape.length) {place first last low high : Int}
    (found : extent place first last (shape.zip strides) = .ok (low, high)) : low = place ∧ high = place := by
  induction shape generalizing strides first last with
  | nil => cases empty
  | cons n shape inductionHypothesis =>
    obtain ⟨s, strides, rfl⟩ := List.exists_cons_of_length_eq_add_one strided
    rw [List.zip_cons_cons, extent] at found
    split at found
    next =>
      cases found
      exact ⟨rfl, rfl⟩
    next filled =>
      have empty := (List.mem_cons.mp empty).resolve_left (Ne.symm filled)
      obtain ⟨_, -, found⟩ := bind_eq_ok_iff.mp found
      obtain ⟨span, -, found⟩ := bind_eq_ok_iff.mp found
      split at found
      all_goals
        obtain ⟨_, -, found⟩ := bind_eq_ok_iff.mp found
        exact inductionHypothesis empty (Nat.succ.inj strided) found

/-! ## Views -/

theorem exists_ofParts_eq_ok_iff (concrete : t.isSymbolic = false) (strided : strides.length = t.shape.length)
    (measured : Measured t offset strides) (full : 0 ∉ t.shape) :
    (∃ a, ofParts t data offset strides = .ok a) ↔ ∀ index, IsIndex t.shape index →
      0 ≤ offset + Layout.displacement index strides ∧
        offset + Layout.displacement index strides + t.elementSize ≤ data.size := by
  constructor
  · rintro ⟨a, made⟩ index inside
    have word : offset < 2 ^ 64 := Nat.lt_of_le_of_lt measured.place (by decide)
    obtain ⟨-, -, rfl⟩ := ofParts_eq_ok_iff.mp made
    exact inside_of_ofParts_eq_ok word made measured.sizes inside
  · -- Only two elements are asked for, those at the corners.
    intro within
    obtain ⟨⟨low, high⟩, found⟩ := measured.extent
    obtain ⟨last, ran, extended⟩ := bind_eq_ok_iff.mp found
    obtain ⟨rfl, -⟩ := Machine.signed_eq_ok_iff.mp ran
    obtain ⟨front, back, insideFront, insideBack, rfl, rfl⟩ :=
      exists_corners full (measured.sizes.resolve_left full) strided extended
    rw [Machine.asSigned_of_le measured.place] at found
    have least := (within front insideFront).1
    have most := (within back insideBack).2
    exact ⟨_, ofParts_eq_ok_iff.mpr ⟨⟨concrete, strided⟩, ⟨_, _, found, least, by omega⟩, rfl⟩⟩

/-- A view without elements has to begin inside the buffer or at its end. -/
theorem exists_ofParts_eq_ok_iff_of_empty (concrete : t.isSymbolic = false) (strided : strides.length = t.shape.length)
    (measured : Measured t offset strides) (empty : 0 ∈ t.shape) :
    (∃ a, ofParts t data offset strides = .ok a) ↔ offset ≤ data.size := by
  obtain ⟨⟨low, high⟩, found⟩ := measured.extent
  obtain ⟨last, -, extended⟩ := bind_eq_ok_iff.mp found
  obtain ⟨rfl, rfl⟩ := extent_of_empty empty strided extended
  rw [Machine.asSigned_of_le measured.place] at found
  constructor
  · rintro ⟨a, made⟩
    obtain ⟨-, ⟨low, high, found', -, most⟩, -⟩ := ofParts_eq_ok_iff.mp made
    cases found.symm.trans found'
    omega
  · intro within
    exact ⟨_, ofParts_eq_ok_iff.mpr ⟨⟨concrete, strided⟩, ⟨_, _, found, by omega, by omega⟩, rfl⟩⟩

/-- Where all spans together fit a signed word, nothing overflows. -/
theorem exists_extent_eq_ok (fits : ∀ n ∈ shape, n ≤ Machine.most) (strides : List Int) (place first last : Int)
    (room : first.natAbs + ((shape.zip strides).map fun p => p.1 * p.2.natAbs).sum ≤ Machine.most)
    (room' : last.natAbs + ((shape.zip strides).map fun p => p.1 * p.2.natAbs).sum ≤ Machine.most) :
    ∃ bounds, extent place first last (shape.zip strides) = .ok bounds := by
  induction shape generalizing strides first last with
  | nil => exact ⟨_, rfl⟩
  | cons n shape inductionHypothesis =>
    obtain ⟨fit, fits⟩ := List.forall_mem_cons.mp fits
    cases strides with
    | nil => exact ⟨_, rfl⟩
    | cons s strides =>
      simp only [List.zip_cons_cons, List.map_cons, List.sum_cons] at room room'
      rw [List.zip_cons_cons, extent]
      split
      next => exact ⟨_, rfl⟩
      next filled =>
        have length : (((n : Int) - 1) * s).natAbs ≤ n * s.natAbs := by
          rw [Int.natAbs_mul]
          exact Nat.mul_le_mul_right _ (by omega)
        have back : Machine.signed (Machine.asSigned n - 1) = .ok ((n : Int) - 1) := by
          rw [Machine.asSigned_of_le fit]
          exact Machine.signed_eq (by omega)
        obtain ⟨span, same⟩ : ∃ span, span = ((n : Int) - 1) * s := ⟨_, rfl⟩
        rw [← same] at length
        have moved : Machine.signed (((n : Int) - 1) * s) = .ok span := same ▸ Machine.signed_eq (by omega)
        by_cases down : span < 0
        · obtain ⟨bounds, found⟩ := inductionHypothesis fits strides (first + span) last (by omega) (by omega)
          refine ⟨bounds, bind_eq_ok_iff.mpr ⟨_, back, bind_eq_ok_iff.mpr ⟨span, moved, ?_⟩⟩⟩
          rw [if_pos down]
          exact bind_eq_ok_iff.mpr ⟨_, Machine.signed_eq (by omega), found⟩
        · obtain ⟨bounds, found⟩ := inductionHypothesis fits strides first (last + span) (by omega) (by omega)
          refine ⟨bounds, bind_eq_ok_iff.mpr ⟨_, back, bind_eq_ok_iff.mpr ⟨span, moved, ?_⟩⟩⟩
          rw [if_neg down]
          exact bind_eq_ok_iff.mpr ⟨_, Machine.signed_eq (by omega), found⟩

theorem measured_of_sum_le (fits : ∀ n ∈ t.shape, n ≤ Machine.most)
    (room : offset + t.elementSize + ((t.shape.zip strides).map fun p => p.1 * p.2.natAbs).sum ≤ Machine.most) :
    Measured t offset strides where
  place := by omega
  sizes := .inr fits
  extent := by
    have begins : offset ≤ Machine.most := by omega
    have ends : Machine.signed ((offset : Int) + t.elementSize) = .ok ((offset : Int) + t.elementSize) :=
      Machine.signed_eq (by omega)
    rw [reach, Machine.asSigned_of_le begins]
    obtain ⟨bounds, found⟩ := exists_extent_eq_ok fits strides offset offset ((offset : Int) + t.elementSize)
      (by omega) (by omega)
    exact ⟨bounds, bind_eq_ok_iff.mpr ⟨_, ends, found⟩⟩

/-! ## Reading -/

variable {a : NdArray} {k : Kind}

/-- Nothing that is read of an array lies outside its buffer. -/
theorem Built.exists_get_eq_ok (built : a.Built) (traversable : Layout.Traversable a.shape) (kind : a.dtype? = some k)
    {index : List Nat} (inside : IsIndex a.shape index) : ∃ s, a.get k index = .ok s :=
  ⟨_, ((built.constructed traversable).wellFormed kind).get_eq kind inside⟩

/-- The views that are accepted are just those that fit, and whatever can be built is read to its end. -/
theorem accepts_just_what_fits :
    (∀ (t : Ty) (data : Buffer) (offset : Nat) (strides : List Int),
      t.isSymbolic = false → strides.length = t.shape.length → Measured t offset strides →
        (0 ∉ t.shape → ((∃ a, ofParts t data offset strides = .ok a) ↔ ∀ index, IsIndex t.shape index →
          0 ≤ offset + Layout.displacement index strides ∧
            offset + Layout.displacement index strides + t.elementSize ≤ data.size)) ∧
        (0 ∈ t.shape → ((∃ a, ofParts t data offset strides = .ok a) ↔ offset ≤ data.size))) ∧
    ∀ (a : NdArray) (k : Kind), a.Built → Layout.Traversable a.shape → a.dtype? = some k →
      (∀ index, IsIndex a.shape index → ∃ s, a.get k index = .ok s) ∧
        (Layout.Countable a.shape → (∃ values, a.elements k = .ok values) ∧ ∃ values, a.scalars = .ok values) := by
  constructor
  · intro t data offset strides concrete strided measured
    constructor
    · intro full
      exact exists_ofParts_eq_ok_iff concrete strided measured full
    · intro empty
      exact exists_ofParts_eq_ok_iff_of_empty concrete strided measured empty
  · intro a k built traversable kind
    refine ⟨fun index inside => built.exists_get_eq_ok traversable kind inside, fun countable => ?_⟩
    have wellFormed := (built.constructed traversable).wellFormed kind
    exact ⟨⟨_, wellFormed.elements_eq countable kind⟩, _, wellFormed.scalars_eq countable kind⟩

/-- Four bytes are read backwards from the last of them, but not from the one before. -/
theorem fits_backwards :
    let t : Ty := .withShape [4] (.scalar (.uint .w8))
    let data := Buffer.ofList [0, 1, 2, 3]
    (∃ a, ofParts t data 3 [-1] = .ok a) ∧ (¬∃ a, ofParts t data 2 [-1] = .ok a) ∧
      ∃ values, (NdArray.mk t data 3 [-1]).scalars = .ok values := by
  intro t data
  have measured : ∀ offset < 4, Measured t offset [-1] := fun offset below =>
    measured_of_sum_le (by decide) (by
      have room : 8 ≤ Machine.most := by decide
      have span : t.elementSize + ((t.shape.zip [-1]).map fun p => p.1 * p.2.natAbs).sum = 5 := by decide
      omega)
  have fits := fun offset below => (accepts_just_what_fits.1 t data offset [-1] rfl rfl (measured offset below)).1
    (by decide)
  have accepted : ∃ a, ofParts t data 3 [-1] = .ok a := by
    refine (fits 3 (by decide)).mpr fun index inside => ?_
    obtain ⟨i, index, below, none, rfl⟩ := List.forall₂_cons_right_iff.mp inside
    obtain rfl := List.forall₂_nil_right_iff.mp none
    have size : t.elementSize = 1 := rfl
    have room : data.size = 4 := rfl
    simp only [Layout.displacement, size, room]
    omega
  refine ⟨accepted, fun accepted => ?_, ?_⟩
  · have before := ((fits 2 (by decide)).mp accepted [3] (.cons (by decide) .nil)).1
    exact absurd before (by decide)
  · obtain ⟨a, made⟩ := accepted
    obtain ⟨-, -, rfl⟩ := ofParts_eq_ok_iff.mp made
    exact ((accepts_just_what_fits.2 _ (.uint .w8) (.ofParts (by decide) made) (by decide) rfl).2 (by decide)).2

end NdArray

end ArrayCall
