import ArrayCall.Proofs.Arrays
import ArrayCall.Proofs.ElementValues

/-!
# Row-major order

The rank of an index in row-major order (`rowMajor`) is where its element stands among those that are read
(`NdArray.WellFormed.lists`). Values that are written one by one where the elements of a contiguous array begin come to
stand side by side (`NdArray.writeEach_range`, `NdArray.ofScalars_eq`), and values side by side are read in the order in
which they were given (`NdArray.map_valueAt_sideBySide`), so that reading and building agree on the order
(`NdArray.row_major_order`).
-/

namespace ArrayCall

namespace NdArray

variable {t : Ty} {k : Kind} {shape : List Nat} {values : List Scalar}

/-! ## Reading -/

/-- What is listed of an array, and where the element of each index is in the list. -/
structure Lists (a : NdArray) (k : Kind) (values : List Scalar) : Prop where
  elements_eq : a.elements k = .ok values
  scalars_eq : a.scalars = .ok values
  length_eq : values.length = a.shape.prod
  get_eq : ∀ index, IsIndex a.shape index → ∃ s, values[rowMajor a.shape index]? = some s ∧ a.get k index = .ok s

theorem WellFormed.lists {a : NdArray} (wellFormed : a.WellFormed) (countable : Layout.Countable a.shape)
    (kind : a.dtype? = some k) : a.Lists k ((indices a.shape).map (a.valueAt k)) where
  elements_eq := wellFormed.elements_eq countable kind
  scalars_eq := wellFormed.scalars_eq countable kind
  length_eq := by rw [List.length_map, Layout.length_indices]
  get_eq index inside := by
    refine ⟨a.valueAt k index, ?_, wellFormed.get_eq kind inside⟩
    rw [List.getElem?_map, getElem?_indices_rowMajor inside, Option.map_some]

/-! ## Side by side -/

/-- The contiguous array of a type in whose buffer values stand side by side. -/
def sideBySide (t : Ty) (k : Kind) (values : List Scalar) : NdArray :=
  ⟨t, .ofList (values.flatMap (·.encode k)), 0, (Layout.compact t).strides⟩

theorem slice_flatMap_encode {q : Nat} {value : Scalar} (there : values[q]? = some value) :
    (Buffer.ofList (values.flatMap (·.encode k))).slice (k.size * q) k.size = value.encode k := by
  obtain ⟨below, rfl⟩ := List.getElem?_eq_some_iff.mp there
  have split : values = values.take q ++ values[q] :: values.drop (q + 1) := by
    rw [← List.drop_eq_getElem_cons below, List.take_append_drop]
  have front : ((values.take q).flatMap (·.encode k)).length = k.size * q := by
    rw [length_flatMap_encode, List.length_take, Nat.min_eq_left (Nat.le_of_lt below)]
  have own := length_encode k values[q]
  rw [Buffer.slice_eq, Buffer.toList_ofList]
  conv_lhs => rw [split, List.flatMap_append, List.flatMap_cons]
  rw [List.drop_left' front, List.take_left' own]

/-- The values are read in the order in which they stand. -/
theorem map_valueAt_sideBySide (size : t.elementSize = k.size) (count : values.length = t.shape.prod) :
    (indices t.shape).map ((sideBySide t k values).valueAt k) = values.map (·.cast k) := by
  rw [← Layout.length_indices] at count
  apply List.ext_getElem?
  intro q
  rw [List.getElem?_map, List.getElem?_map]
  cases found : (indices t.shape)[q]? with
  | none =>
    have beyond : values.length ≤ q := by rw [count]; exact List.getElem?_eq_none_iff.mp found
    rw [List.getElem?_eq_none beyond, Option.map_none, Option.map_none]
  | some index =>
    have below : q < values.length := by rw [count]; exact (List.getElem?_eq_some_iff.mp found).1
    have place : (sideBySide t k values).place index = (k.size * q : Nat) := by
      rw [NdArray.place, sideBySide, Layout.compact, Layout.displacement_of_getElem?_indices _ found, size]
      exact Int.zero_add _
    have there := List.getElem?_eq_getElem below
    rw [there, Option.map_some, Option.map_some, valueAt, place, Int.toNat_natCast, sideBySide,
      slice_flatMap_encode there, Kind.decode_encode]

theorem wellFormed_sideBySide (concrete : t.isSymbolic = false) (dtype : t.dtype = .scalar k)
    (size : t.elementSize = k.size) (count : values.length = t.shape.prod) : (sideBySide t k values).WellFormed :=
  (bounded_of_flatMap_encode k concrete size count.symm).wellFormed ⟨k, dtype⟩

theorem lists_sideBySide (concrete : t.isSymbolic = false) (dtype : t.dtype = .scalar k)
    (countable : Layout.Countable t.shape) (count : values.length = t.shape.prod) :
    (sideBySide t k values).Lists k (values.map (·.cast k)) := by
  have kind : (sideBySide t k values).dtype? = some k := by rw [dtype?, sideBySide, dtype]; rfl
  have size := Ty.elementSize_of_dtype concrete dtype
  have lists := (wellFormed_sideBySide concrete dtype size count).lists countable kind
  rwa [show (sideBySide t k values).shape = t.shape from rfl, map_valueAt_sideBySide size count] at lists

/-! ## Writing -/

/-- The memory of one buffer that is written. -/
def lent (data : Buffer) : Memory := ⟨[⟨.exclusive, data⟩], []⟩

theorem writeEach_append {first second : List (Int × Scalar)} {region : Nat} {m m' : Memory}
    (written : Memory.writeEach k region first m = (.ok (), m')) :
    Memory.writeEach k region (first ++ second) m = Memory.writeEach k region second m' := by
  induction first generalizing m with
  | nil =>
    cases written
    rfl
  | cons value first inductionHypothesis =>
    obtain ⟨place, value⟩ := value
    rw [List.cons_append, Memory.writeEach]
    rw [Memory.writeEach] at written
    split at written
    next next ran => exact inductionHypothesis written
    next failed =>
      rw [written] at failed
      exact absurd rfl (failed m')

/-- Values that are written one behind the other replace the first bytes of the buffer. -/
theorem writeEach_range {data : Buffer} (room : k.size * values.length ≤ data.size) :
    Memory.writeEach k 0 (((List.range values.length).map fun (q : Nat) => ((k.size * q : Nat) : Int)).zip values)
        (lent data) =
      (.ok (), lent (.ofList (values.flatMap (·.encode k) ++ data.toList.drop (k.size * values.length)))) := by
  induction values using List.reverseRecOn with
  | nil => simp [Memory.writeEach]
  | append_singleton values value inductionHypothesis =>
    rw [List.length_append, List.length_singleton, Nat.mul_succ] at room
    have front := length_flatMap_encode k values
    have own := length_encode k value
    generalize held : data.toList.drop (k.size * values.length) = rest at inductionHypothesis
    have behind : (value.encode k).length ≤ rest.length := by
      rw [← held, List.length_drop, Buffer.length_toList, own]
      omega
    have writable : (lent (.ofList (values.flatMap (·.encode k) ++ rest))).Writable
        ⟨0, (k.size * values.length : Nat)⟩ k.size := by
      refine ⟨_, rfl, Access.noConfusion, Int.natCast_nonneg _, ?_⟩
      rw [Int.toNat_natCast, Buffer.size_ofList, List.length_append, front]
      omega
    rw [List.length_append, List.length_singleton, List.range_succ, List.map_append, List.zip_append (by simp),
      writeEach_append (inductionHypothesis (by omega)), List.map_singleton, List.zip_cons_cons, List.zip_nil_left,
      Memory.writeEach, writable.write_eq value]
    have there := Buffer.overwrite_ofList_append (values.flatMap (·.encode k)) behind
    have left : data.toList.drop (k.size * (values.length + 1)) = rest.drop (value.encode k).length := by
      rw [← held, List.drop_drop, own, Nat.mul_succ]
    rw [List.flatMap_append, List.flatMap_singleton, left, ← there, front]
    rfl

theorem offsets_compact (countable : Layout.Countable t.shape) (data : Buffer) :
    offsets ⟨t, data, 0, (Layout.compact t).strides⟩ =
      .ok ((List.range t.shape.prod).map fun (q : Nat) => ((t.elementSize * q : Nat) : Int)) := by
  have zero : ∀ place : Int, ((0 : Nat) : Int) + place = place := Int.zero_add
  simp only [offsets, shape, countable.offsets_eq, zero, Layout.compact, Layout.map_displacement_indices]

/-- Filling a blank array is writing the values one by one, which leaves nothing of the zeros. -/
theorem ofScalars_eq (concrete : t.isSymbolic = false) (dtype : t.dtype = .scalar k) (addressable : t.Addressable)
    (count : values.length = t.shape.prod) : ofScalars t values = .ok (sideBySide t k values) := by
  have size := Ty.elementSize_of_dtype concrete dtype
  refine bind_eq_ok_iff.mpr ⟨_, zeros_eq concrete addressable.allocatable, ?_⟩
  simp only [dtype?, dtype, Ty.scalarKind?]
  refine bind_eq_ok_iff.mpr ⟨_, offsets_compact addressable.countable _, ?_⟩
  rw [if_pos (by rw [List.length_map, List.length_range, count]), ← count, size]
  have room : k.size * values.length ≤ (Buffer.zeros (k.size * values.length)).size := by rw [Buffer.size_zeros]
  have filled : (Buffer.zeros (k.size * values.length)).toList.drop (k.size * values.length) = [] := by
    apply List.drop_eq_nil_of_le
    rw [Buffer.length_toList, Buffer.size_zeros]
  have written := writeEach_range room
  rw [filled, List.append_nil, lent] at written
  rw [fill, written]
  rfl

/-- An array that is filled has sizes that fit their words, or no elements. -/
theorem of_ofScalars_eq_ok {a : NdArray} (made : ofScalars t values = .ok a) :
    a.ty = t ∧ values.length = t.shape.prod ∧ (0 ∈ t.shape ∨ t.Addressable) := by
  obtain ⟨blank, allocated, made⟩ := bind_eq_ok_iff.mp made
  obtain ⟨-, room, strides, span, -, rfl⟩ := of_zeros_eq_ok allocated
  split at made
  next => cases made
  next k kind =>
    obtain ⟨places, found, made⟩ := bind_eq_ok_iff.mp made
    obtain ⟨rfl, -, words⟩ := Layout.offsets_eq_ok_iff.mp found
    split at made
    next count =>
      obtain ⟨data, rfl, -⟩ := of_fill_eq_ok made
      rw [List.length_map, Layout.length_indices] at count
      refine ⟨rfl, count.symm, or_iff_not_imp_left.mpr fun full => ?_⟩
      exact ⟨Layout.allocatable_of_le_most full room, Layout.countable_of_le_most full words⟩
    next => cases made

/-- What is read of an array that is filled are the values, each cast to the kind of the elements. -/
theorem scalars_of_ofScalars_eq_ok {a : NdArray} {shown : List Scalar} (concrete : t.isSymbolic = false)
    (dtype : t.dtype = .scalar k) (made : ofScalars t values = .ok a) (read : a.scalars = .ok shown) :
    shown = values.map (·.cast k) := by
  obtain ⟨type, count, empty | addressable⟩ := of_ofScalars_eq_ok made
  · obtain rfl : values = [] := List.length_eq_zero_iff.mp (count.trans (List.prod_eq_zero empty))
    have kind : a.dtype? = some k := by rw [dtype?, type, dtype]; rfl
    rw [scalars, kind] at read
    obtain ⟨places, found, read⟩ := bind_eq_ok_iff.mp read
    obtain ⟨rfl, -⟩ := Layout.offsets_eq_ok_iff.mp found
    rw [shape, type, Layout.indices_eq_nil empty] at read
    cases read
    rfl
  · rw [ofScalars_eq concrete dtype addressable count] at made
    cases made
    exact Except.ok.inj (read.symm.trans (lists_sideBySide concrete dtype addressable.countable count).scalars_eq)

end NdArray

end ArrayCall
