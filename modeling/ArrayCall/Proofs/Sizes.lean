import ArrayCall.Proofs.Machine
import ArrayCall.Proofs.Types
import Mathlib.Algebra.BigOperators.Group.List.Lemmas
import Mathlib.Algebra.BigOperators.Ring.List

/-!
# Sizes

Where no number leaves its machine word. A type is allocated, and its elements are laid side by side, as long as no
product of its last sizes is too many bytes (`Layout.Allocatable`); its elements are counted as long as no product of
neighbouring sizes is too many (`Layout.Countable`).

Strides are found from the last dimension to the first. In each of them one index goes past the bytes of all dimensions
behind it (`Layout.compactStrides`), which is what the accumulation comes to (`Layout.accumulate_eq`).
-/

namespace ArrayCall

variable {shape : List Nat} {size : Nat}

theorem Kind.size_pos (k : Kind) : 0 < k.size := by
  cases k with
  | int w => cases w <;> decide
  | uint w => cases w <;> decide
  | _ => decide

theorem Kind.size_le (k : Kind) : k.size ≤ 8 := by
  cases k with
  | int w => cases w <;> decide
  | uint w => cases w <;> decide
  | _ => decide

/-! ## Bounds -/

namespace Layout

/-- The last dimensions of a shape, however many, span no more bytes than a signed word tells. -/
def Allocatable (size : Nat) (shape : List Nat) : Prop := ∀ back ∈ shape.tails, size * back.prod ≤ Machine.most

/-- Loops over the shape get to all of its indices: each size is the same number as a signed word, unless there is no
index at all. -/
def Traversable (shape : List Nat) : Prop := 0 ∈ shape ∨ ∀ n ∈ shape, n ≤ Machine.most

/-- Dimensions that stand side by side, however many, have no more indices than a word tells, and there is room for a
word for each index of the shape. -/
def Countable (shape : List Nat) : Prop :=
  (∀ back ∈ shape.tails, ∀ part ∈ back.inits, part.prod < 2 ^ 64) ∧ shape.prod * 8 ≤ Machine.most

instance (size : Nat) (shape : List Nat) : Decidable (Allocatable size shape) :=
  inferInstanceAs (Decidable (∀ back ∈ shape.tails, size * back.prod ≤ Machine.most))

instance (shape : List Nat) : Decidable (Traversable shape) :=
  inferInstanceAs (Decidable (0 ∈ shape ∨ ∀ n ∈ shape, n ≤ Machine.most))

instance (shape : List Nat) : Decidable (Countable shape) :=
  inferInstanceAs (Decidable ((∀ back ∈ shape.tails, ∀ part ∈ back.inits, part.prod < 2 ^ 64) ∧ _))

theorem traversable_nil : Traversable [] := .inr fun _ none => nomatch none

theorem Countable.product_eq (countable : Countable shape) {back : List Nat} (behind : back <:+ shape) :
    Machine.product back = .ok back.prod := by
  refine Machine.product_eq_ok_iff.mpr ⟨rfl, fun front leads => ?_⟩
  exact countable.1 back ((List.mem_tails _ _).mpr behind) front ((List.mem_inits _ _).mpr leads)

/-- Sizes that can be counted through are signed words. -/
theorem Countable.traversable (countable : Countable shape) : Traversable shape := by
  by_contra beyond
  obtain ⟨full, n, member, beyond⟩ : 0 ∉ shape ∧ ∃ n ∈ shape, Machine.most < n := by simpa [Traversable] using beyond
  have positive : 0 < shape.prod := Nat.pos_of_ne_zero fun none => full (List.prod_eq_zero_iff.mp none)
  have factor := Nat.le_of_dvd positive (List.dvd_prod member)
  have room := countable.2
  omega

theorem allocatable_cons_iff {n : Nat} :
    Allocatable size (n :: shape) ↔ size * (n * shape.prod) ≤ Machine.most ∧ Allocatable size shape := by
  rw [Allocatable, List.tails_cons, List.forall_mem_cons, List.prod_cons]
  rfl

theorem Allocatable.le_most (allocatable : Allocatable size shape) : size * shape.prod ≤ Machine.most :=
  allocatable shape ((List.mem_tails _ _).mpr List.suffix_rfl)

theorem allocatable_scalar (k : Kind) : Allocatable k.size [] := by
  simpa [Allocatable] using k.size_le.trans (by decide)

/-- Where no size is zero, the whole shape spans most. -/
theorem allocatable_of_le_most (full : 0 ∉ shape) (room : size * shape.prod ≤ Machine.most) :
    Allocatable size shape := by
  induction shape with
  | nil => simpa [Allocatable] using room
  | cons n shape inductionHypothesis =>
    obtain ⟨filled, full⟩ := not_or.mp (List.mem_cons.not.mp full)
    rw [List.prod_cons] at room
    have behind : size * shape.prod ≤ size * (n * shape.prod) :=
      Nat.mul_le_mul_left size (Nat.le_mul_of_pos_left _ (Nat.pos_of_ne_zero (Ne.symm filled)))
    exact allocatable_cons_iff.mpr ⟨room, inductionHypothesis full (behind.trans room)⟩

/-- So do all neighbouring sizes count no more than the whole shape. -/
theorem countable_of_le_most (full : 0 ∉ shape) (room : shape.prod * 8 ≤ Machine.most) : Countable shape := by
  refine ⟨fun back behind part inside => ?_, room⟩
  have positive : 0 < shape.prod := Nat.pos_of_ne_zero fun none => full (List.prod_eq_zero_iff.mp none)
  have part_le := Nat.le_of_dvd positive
    ((((List.mem_inits _ _).mp inside).sublist.trans ((List.mem_tails _ _).mp behind).sublist).prod_dvd_prod)
  rw [Machine.most_eq] at room
  omega

/-- A size that cannot be read as a signed word stands in a shape without elements. -/
theorem Allocatable.traversable (allocatable : Allocatable size shape) (some : 0 < size) : Traversable shape := by
  by_contra beyond
  obtain ⟨full, n, member, beyond⟩ : 0 ∉ shape ∧ ∃ n ∈ shape, Machine.most < n := by simpa [Traversable] using beyond
  have positive : 0 < shape.prod := Nat.pos_of_ne_zero fun none => full (List.prod_eq_zero_iff.mp none)
  have factor := Nat.le_of_dvd positive (List.dvd_prod member)
  have bytes := Nat.le_mul_of_pos_left shape.prod some
  have room := allocatable.le_most
  omega

end Layout

namespace Ty

variable {elem t : Ty}

/-- No size of the type, nor any number that follows from its sizes, leaves its machine word. -/
structure Addressable (t : Ty) : Prop where
  allocatable : Layout.Allocatable t.elementSize t.shape
  countable : Layout.Countable t.shape

/-! ## Elements -/

theorem elementSize_withShape_of_element (element : elem.IsElement) :
    (withShape shape elem).elementSize = elem.elementSize := by
  have alone : elem.shape = [] := (shape_withShape element : (withShape [] elem).shape = [])
  rw [elementSize, elementSize, shape_withShape element, stripDims_withShape, alone]
  rfl

theorem elementSize_withShape (shape : List Nat) (k : Kind) : (withShape shape (scalar k)).elementSize = k.size :=
  elementSize_withShape_of_element (isElement_scalar k)

theorem elementSize_of_dtype {k : Kind} (concrete : t.isSymbolic = false) (dtype : t.dtype = scalar k) :
    t.elementSize = k.size := by
  rw [elementSize, stripDims_shape concrete, dtype]
  rfl

theorem IsElement.dataSize?_eq (element : elem.IsElement) : elem.dataSize? = .ok (some elem.elementSize) := by
  obtain rfl | ⟨k, rfl⟩ := element <;> rfl

/-! ## Types -/

theorem IsElement.elementSize_le (element : elem.IsElement) : elem.elementSize ≤ 8 := by
  obtain rfl | ⟨k, rfl⟩ := element
  · decide
  · exact k.size_le

theorem dataSize?_withShape_eq_ok_iff (element : elem.IsElement) {bytes : Nat} :
    (withShape shape elem).dataSize? = .ok (some bytes) ↔
      bytes = elem.elementSize * shape.prod ∧ ∀ back ∈ shape.tails, elem.elementSize * back.prod < 2 ^ 64 := by
  induction shape generalizing bytes with
  | nil =>
    have small : elem.elementSize < 2 ^ 64 := Nat.lt_of_le_of_lt element.elementSize_le (by decide)
    simp only [withShape, List.foldr_nil, element.dataSize?_eq, Except.ok.injEq, Option.some.injEq, List.tails,
      List.mem_singleton, forall_eq, List.prod_nil, Nat.mul_one, small, and_true, eq_comm]
  | cons n shape inductionHypothesis =>
    rw [withShape, List.foldr_cons, dataSize?, bind_eq_ok_iff, List.tails_cons, List.forall_mem_cons, List.prod_cons]
    constructor
    · rintro ⟨_ | inner, found, ran⟩
      · cases ran
      · obtain ⟨rfl, fits⟩ := inductionHypothesis.mp found
        obtain ⟨bytes, whole, same⟩ := bind_eq_ok_iff.mp ran
        cases same
        obtain ⟨rfl, below⟩ := Machine.size_eq_ok_iff.mp whole
        rw [Nat.mul_assoc, Nat.mul_comm shape.prod] at *
        exact ⟨rfl, below, fits⟩
    · rintro ⟨rfl, below, fits⟩
      refine ⟨_, inductionHypothesis.mpr ⟨rfl, fits⟩, bind_eq_ok_iff.mpr ⟨_, Machine.size_eq_ok_iff.mpr ⟨rfl, ?_⟩, ?_⟩⟩
      · rwa [Nat.mul_assoc, Nat.mul_comm shape.prod]
      · rw [Nat.mul_assoc, Nat.mul_comm shape.prod]
        rfl

/-- A concrete type occupies as many bytes as its elements, if no product of its last sizes leaves a word. -/
theorem dataSize?_eq_ok_iff (concrete : t.isSymbolic = false) {bytes : Nat} :
    t.dataSize? = .ok (some bytes) ↔
      bytes = t.elementSize * t.shape.prod ∧ ∀ back ∈ t.shape.tails, t.elementSize * back.prod < 2 ^ 64 := by
  obtain ⟨elem, element, same⟩ := exists_eq_withShape concrete
  generalize shaped : t.shape = shape at same ⊢
  rw [same, dataSize?_withShape_eq_ok_iff element, elementSize_withShape_of_element element]

theorem fails_dataSize? (t : Ty) : Fails (· = .overflow) t.dataSize? := by
  induction t with
  | fixedDim n elem inductionHypothesis =>
    refine fails_bind inductionHypothesis fun found _ => ?_
    cases found with
    | none => exact fails_ok none
    | some bytes => exact fails_bind (Machine.fails_size _) fun _ _ => fails_ok _
  | _ => exact fails_ok _

end Ty

/-! ## Strides -/

namespace Layout

/-- Strides of a shape whose elements stand side by side: in each dimension an index moves past the elements of all
dimensions behind it. -/
def compactStrides (size : Nat) : List Nat → List Int
  | [] => []
  | _ :: rest => (size * rest.prod : Nat) :: compactStrides size rest

/-- The layout of a type whose elements stand side by side. -/
def compact (t : Ty) : Layout := ⟨t, compactStrides t.elementSize t.shape⟩

/-- What has been accumulated is the number of bytes of the dimensions so far. A dimension of a size beyond the signed
words does no harm where there are no bytes. -/
theorem accumulate_eq (allocatable : Allocatable size shape) :
    accumulate size shape = .ok (compactStrides size shape, (size * shape.prod : Nat)) := by
  induction shape with
  | nil => simp [accumulate, compactStrides]
  | cons n shape inductionHypothesis =>
    obtain ⟨room, behind⟩ := allocatable_cons_iff.mp allocatable
    have product : ((size * shape.prod : Nat) : Int) * Machine.asSigned n = (size * (n * shape.prod) : Nat) := by
      rcases Nat.eq_zero_or_pos (size * shape.prod) with none | bytes
      · have whole : size * (n * shape.prod) = 0 := by rw [Nat.mul_left_comm, none, Nat.mul_zero]
        rw [none, whole]
        simp
      · have fits : n ≤ Machine.most := by
          rw [Nat.mul_left_comm] at room
          exact (Nat.le_mul_of_pos_right n bytes).trans room
        rw [Machine.asSigned_of_le fits, Nat.mul_left_comm, Nat.mul_comm n]
        push_cast
        rfl
    have fits : Machine.signed ((size * (n * shape.prod) : Nat) : Int) = .ok ((size * (n * shape.prod) : Nat) : Int) :=
      Machine.signed_eq room
    rw [accumulate, inductionHypothesis behind]
    refine bind_eq_ok_iff.mpr ⟨_, rfl, bind_eq_ok_iff.mpr ⟨_, by rw [product]; exact fits, ?_⟩⟩
    rw [List.prod_cons, compactStrides]
    rfl

/-- What is accumulated is never more than a signed word tells, so the strides are those of elements side by side as
long as no size is read as another number. -/
theorem allocatable_of_accumulate_eq_ok (fits : ∀ n ∈ shape, n ≤ Machine.most) (room : size ≤ Machine.most)
    {strides : List Int} {span : Int} (found : accumulate size shape = .ok (strides, span)) :
    Allocatable size shape := by
  induction shape generalizing strides span with
  | nil => simpa [Allocatable] using room
  | cons n shape inductionHypothesis =>
    obtain ⟨fit, fits⟩ := List.forall_mem_cons.mp fits
    obtain ⟨⟨behind, bytes⟩, rest, found⟩ := bind_eq_ok_iff.mp found
    obtain ⟨whole, multiplied, -⟩ := bind_eq_ok_iff.mp found
    have allocatable := inductionHypothesis fits rest
    rw [accumulate_eq allocatable] at rest
    cases rest
    obtain ⟨-, -, most⟩ := Machine.signed_eq_ok_iff.mp multiplied
    rw [Machine.asSigned_of_le fit, ← Int.natCast_mul] at most
    refine allocatable_cons_iff.mpr ⟨?_, allocatable⟩
    rw [Nat.mul_left_comm, Nat.mul_comm, Machine.most_eq]
    omega

theorem contiguous_eq {t : Ty} (allocatable : Allocatable t.elementSize t.shape) : contiguous t = .ok (compact t) := by
  rw [contiguous, accumulate_eq allocatable]
  rfl

theorem fails_accumulate (size : Nat) (shape : List Nat) : Fails (· = .overflow) (accumulate size shape) := by
  induction shape with
  | nil => exact fails_ok _
  | cons n shape inductionHypothesis =>
    exact fails_bind inductionHypothesis fun _ _ => fails_bind (Machine.fails_signed _) fun _ _ => fails_ok _

theorem length_of_accumulate_eq_ok {strides : List Int} {span : Int}
    (found : accumulate size shape = .ok (strides, span)) :
    strides.length = shape.length := by
  induction shape generalizing strides span with
  | nil =>
    cases found
    rfl
  | cons n shape inductionHypothesis =>
    obtain ⟨⟨behind, _⟩, rest, found⟩ := bind_eq_ok_iff.mp found
    obtain ⟨_, -, same⟩ := bind_eq_ok_iff.mp found
    cases same
    rw [List.length_cons, inductionHypothesis rest, List.length_cons]

theorem length_compactStrides (size : Nat) (shape : List Nat) : (compactStrides size shape).length = shape.length := by
  induction shape with
  | nil => rfl
  | cons n shape inductionHypothesis => rw [compactStrides, List.length_cons, inductionHypothesis, List.length_cons]

end Layout

end ArrayCall
