import ArrayCall.Proofs.Instantiation.Lifting
import ArrayCall.Proofs.Sizes
import Mathlib.Data.List.Nodup
import Mathlib.Data.List.Range
import Mathlib.Tactic.Ring

/-!
# Indices

The indices of a shape, in the order in which the elements of a contiguous array stand
(`Layout.displacement_of_getElem?_indices`) and in which those of any array are listed (`Layout.offsets_eq`), and the
index at which an array that is stretched to a shape is read for an index of that shape (`Broadcast.sourceIndex`).
-/

namespace ArrayCall

/-- One number for each dimension, below its size. -/
def IsIndex (shape index : List Nat) : Prop := List.Forall₂ (· < ·) index shape

/-- The indices of a shape, the last number running fastest. -/
def indices : (shape : List Nat) → List (List Nat)
  | [] => [[]]
  | n :: shape => (List.range n).flatMap fun i => (indices shape).map (i :: ·)

theorem mem_indices_iff {shape index : List Nat} : index ∈ indices shape ↔ IsIndex shape index := by
  induction shape generalizing index with
  | nil => rw [indices, List.mem_singleton, IsIndex, List.forall₂_nil_right_iff]
  | cons n shape inductionHypothesis =>
    rw [IsIndex, List.forall₂_cons_right_iff]
    simp only [indices, List.mem_flatMap, List.mem_range, List.mem_map, inductionHypothesis]
    constructor
    · rintro ⟨i, below, rest, inside, rfl⟩
      exact ⟨i, rest, below, inside, rfl⟩
    · rintro ⟨i, rest, below, inside, rfl⟩
      exact ⟨i, below, rest, inside, rfl⟩

/-- Each index is listed once. -/
theorem nodup_indices (shape : List Nat) : (indices shape).Nodup := by
  induction shape with
  | nil => exact List.nodup_singleton []
  | cons n shape inductionHypothesis =>
    rw [indices, List.nodup_flatMap]
    refine ⟨fun i _ => inductionHypothesis.map fun _ _ same => (List.cons.inj same).2, ?_⟩
    refine List.Pairwise.imp (fun differs => ?_) (List.nodup_range (n := n))
    intro index here there
    obtain ⟨_, -, rfl⟩ := List.mem_map.mp here
    obtain ⟨_, -, same⟩ := List.mem_map.mp there
    exact differs (List.cons.inj same).1.symm

theorem IsIndex.length_eq {shape index : List Nat} (inside : IsIndex shape index) : index.length = shape.length :=
  List.Forall₂.length_eq inside

theorem IsIndex.mono {sizes shape index : List Nat} (inside : IsIndex sizes index)
    (smaller : List.Forall₂ (· ≤ ·) sizes shape) : IsIndex shape index := by
  induction inside generalizing shape with
  | nil => cases smaller; exact .nil
  | cons below _ inductionHypothesis =>
    cases smaller with
    | cons le smaller => exact .cons (Nat.lt_of_lt_of_le below le) (inductionHypothesis smaller)

/-! ## Displacements -/

namespace Layout

@[simp] theorem displacement_nil (strides : List Int) : displacement [] strides = 0 := by
  cases strides <;> rfl

theorem displacement_append {front back : List Nat} {strides strides' : List Int}
    (same : front.length = strides.length) :
    displacement (front ++ back) (strides ++ strides') = displacement front strides + displacement back strides' := by
  induction front generalizing strides with
  | nil =>
    obtain rfl := List.length_eq_zero_iff.mp same.symm
    simp [displacement]
  | cons i front inductionHypothesis =>
    obtain ⟨s, strides, rfl⟩ := List.exists_cons_of_length_eq_add_one same.symm
    simp only [List.cons_append, displacement, inductionHypothesis (Nat.succ.inj same)]
    omega

theorem displacement_eq_zero {index : List Nat} {strides : List Int} (still : ∀ s ∈ strides, s = 0) :
    displacement index strides = 0 := by
  induction index generalizing strides with
  | nil => rw [displacement]; simp
  | cons i index inductionHypothesis =>
    cases strides with
    | nil => rw [displacement]; simp
    | cons s strides =>
      obtain ⟨zero, still⟩ := List.forall_mem_cons.mp still
      rw [displacement, inductionHypothesis still, zero, Int.mul_zero, Int.zero_add]

theorem range_mul (rows columns : Nat) :
    List.range (rows * columns) =
      (List.range rows).flatMap fun i => (List.range columns).map (i * columns + ·) := by
  induction rows with
  | zero => simp
  | succ rows inductionHypothesis =>
    rw [Nat.succ_mul, List.range_add, inductionHypothesis, List.range_succ, List.flatMap_append]
    simp

/-- Going through the indices in order goes through a contiguous array element by element. -/
theorem map_displacement_indices (size : Nat) (shape : List Nat) :
    (indices shape).map (displacement · (compactStrides size shape)) =
      (List.range shape.prod).map fun (q : Nat) => ((size * q : Nat) : Int) := by
  induction shape with
  | nil => simp [indices, displacement]
  | cons n shape inductionHypothesis =>
    rw [List.prod_cons, range_mul, indices, List.map_flatMap, List.map_flatMap]
    congr 1
    funext i
    -- The elements below the number `i` are those of the rest of the shape, moved behind the ones before.
    have moved := congrArg (List.map fun (place : Int) => i * ((size * shape.prod : Nat) : Int) + place)
      inductionHypothesis
    simp only [List.map_map] at moved ⊢
    refine moved.trans (List.map_congr_left fun q _ => ?_)
    simp only [Function.comp_apply]
    push_cast
    ring

theorem length_indices (shape : List Nat) : (indices shape).length = shape.prod := by
  simpa using congrArg List.length (map_displacement_indices 0 shape)

theorem displacement_of_getElem?_indices {shape index : List Nat} {q : Nat} (size : Nat)
    (found : (indices shape)[q]? = some index) :
    displacement index (compactStrides size shape) = (size * q : Nat) := by
  have places := congrArg (·[q]?) (map_displacement_indices size shape)
  have inside : q < shape.prod := by
    rw [← length_indices]
    exact (List.getElem?_eq_some_iff.mp found).1
  simpa [found, List.getElem?_range inside] using places

theorem indices_eq_nil {shape : List Nat} (empty : 0 ∈ shape) : indices shape = [] := by
  induction shape with
  | nil => cases empty
  | cons n shape inductionHypothesis =>
    obtain rfl | empty := List.mem_cons.mp empty
    · rfl
    · simp [indices, inductionHypothesis empty]

end Layout

/-! ## Stretched arrays -/

namespace Broadcast

/-- Where an array is read for an index of the shape that it is stretched to: the last numbers of the
index, and zero for each dimension of size one. -/
def sourceIndex (shape index : List Nat) : List Nat :=
  List.zipWith (fun i n => if n = 1 then 0 else i) (index.drop (index.length - shape.length)) shape

theorem isIndex_sourceIndex {shape target index : List Nat} (stretches : Stretches shape target)
    (inside : IsIndex target index) : IsIndex shape (sourceIndex shape index) := by
  have length := stretches.length_le
  have same := inside.length_eq
  rw [IsIndex, sourceIndex, List.forall₂_iff_get]
  refine ⟨by simp; omega, fun d below there => ?_⟩
  have place := stretches.getElem? (d := target.length - shape.length + d) (by omega) (by omega)
  have least := (List.forall₂_iff_get.mp inside).2 (target.length - shape.length + d) (by omega) (by omega)
  rw [Nat.add_sub_cancel_left, List.getElem?_eq_getElem there, List.getElem?_eq_getElem (by omega)] at place
  simp only [List.get_eq_getElem, List.getElem_zipWith, List.getElem_drop, same] at least ⊢
  split
  next one => omega
  next more =>
    obtain one | fits := place
    · exact absurd (Option.some.inj one) more
    · rwa [Option.some.inj fits]

/-- An array that has the shape already is read at the index itself. -/
theorem sourceIndex_self {shape index : List Nat} (inside : IsIndex shape index) : sourceIndex shape index = index := by
  rw [sourceIndex, inside.length_eq, Nat.sub_self, List.drop_zero]
  induction inside with
  | nil => rfl
  | @cons i n index shape below _ inductionHypothesis =>
    rw [List.zipWith_cons_cons, inductionHypothesis]
    split
    next one => rw [show i = 0 by omega]
    next => rfl

/-- A stretched array with as many dimensions as the shape. -/
theorem displacement_stretched_aligned {shape target index : List Nat} {strides : List Int}
    (length : shape.length = target.length) (fits : strides.length = shape.length)
    (stretches : ∀ d : Nat, shape[d]? = some 1 ∨ shape[d]? = target[d]?) (inside : IsIndex target index) :
    Layout.displacement index ((List.range shape.length).map fun d =>
        if shape[d]? = target[d]? then strides[d]?.getD 0 else 0) =
      Layout.displacement (List.zipWith (fun i n => if n = 1 then 0 else i) index shape) strides := by
  induction shape generalizing target index strides with
  | nil =>
    simp [Layout.displacement]
  | cons n shape inductionHypothesis =>
    obtain ⟨size, target, rfl⟩ := List.exists_cons_of_length_eq_add_one length.symm
    obtain ⟨s, strides, rfl⟩ := List.exists_cons_of_length_eq_add_one fits
    obtain ⟨i, index, below, others, rfl⟩ := List.forall₂_cons_right_iff.mp inside
    have rest := inductionHypothesis (Nat.succ.inj length) (Nat.succ.inj fits)
      (fun d => by simpa using stretches (d + 1)) others
    rw [List.length_cons, List.range_succ_eq_map, List.map_cons, List.map_map, List.zipWith_cons_cons]
    simp only [Layout.displacement, Function.comp_def, List.getElem?_cons_succ, rest]
    congr 1
    have first := stretches 0
    simp only [List.getElem?_cons_zero, Option.some.injEq, Option.getD_some] at first ⊢
    by_cases one : n = 1
    · by_cases same : n = size
      · obtain rfl : i = 0 := by omega
        simp
      · simp [one, show ¬1 = size by omega]
    · rw [if_neg one, if_pos (first.resolve_left one)]

/-- What a loop nest over a shape moves an argument by is what its own layout says at the source
index. -/
theorem displacement_stretchedStride {l : Layout} {target index : List Nat} (fits : l.Fits)
    (stretches : Stretches l.ty.shape target) (inside : IsIndex target index) :
    Layout.displacement index ((List.range target.length).map (l.stretchedStride target)) =
      Layout.displacement (sourceIndex l.ty.shape index) l.strides := by
  have length := stretches.length_le
  have same := inside.length_eq
  obtain ⟨lead, split⟩ := Nat.exists_eq_add_of_le' length
  have strides : (List.range target.length).map (l.stretchedStride target) =
      (List.range lead).map (l.stretchedStride target) ++ (List.range l.ty.shape.length).map fun d =>
        if l.ty.shape[d]? = (target.drop lead)[d]? then l.strides[d]?.getD 0 else 0 := by
    rw [split, List.range_add, List.map_append, List.map_map]
    congr 1
    refine List.map_congr_left fun d _ => ?_
    simp only [Function.comp_apply, Layout.stretchedStride, split, Nat.add_sub_cancel, List.getElem?_drop]
    rw [if_neg (by omega), Nat.add_sub_cancel_left]
  have still : ∀ s ∈ (List.range lead).map (l.stretchedStride target), s = 0 := by
    intro s member
    obtain ⟨d, below, rfl⟩ := List.mem_map.mp member
    have below := List.mem_range.mp below
    simp only [Layout.stretchedStride]
    rw [if_pos (by omega)]
  have front : (index.take lead).length = ((List.range lead).map (l.stretchedStride target)).length := by
    simp
    omega
  have back : IsIndex (target.drop lead) (index.drop lead) := List.forall₂_drop lead inside
  rw [strides, ← List.take_append_drop lead index, Layout.displacement_append front, Layout.displacement_eq_zero still,
    Int.zero_add, List.take_append_drop, sourceIndex, same, split, Nat.add_sub_cancel]
  refine displacement_stretched_aligned (by simp; omega) fits (fun d => ?_) back
  rcases Nat.lt_or_ge d l.ty.shape.length with own | beyond
  · have place := stretches.getElem? (d := lead + d) (by omega) (by omega)
    rwa [show lead + d - (target.length - l.ty.shape.length) = d by omega, ← List.getElem?_drop] at place
  · right
    rw [List.getElem?_eq_none beyond, List.getElem?_eq_none (by simp; omega)]

end Broadcast

end ArrayCall
