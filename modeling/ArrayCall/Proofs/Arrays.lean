import ArrayCall.NdArray
import ArrayCall.Proofs.Execution.Conversion
import ArrayCall.Proofs.Odometer

/-!
# Arrays of integers

`NdArray.HoldsInt` says which integer the element at an index stands for. In a well-formed array every index of the
shape has an element (`NdArray.WellFormed.holdsInt`). The element is found in memory where the array's buffer is a
region (`NdArray.holdsInt_iff`).

Every array that can be built (`NdArray.Built`) has its elements inside its buffer (`NdArray.Built.inside`), unless it
is a view with a size that is no signed word: there the check of the view goes wrong, and may let through one whose
elements lie outside. `NdArray.Constructed` leaves just those out.
-/

namespace ArrayCall

namespace NdArray

/-- The element at an index is one of a kind, and stands for an integer. -/
def HoldsInt (a : NdArray) (k : Kind) (index : List Nat) (n : Int) : Prop :=
  ∃ s, a.get k index = .ok s ∧ s.toInt? = some n

/-- Where the element at an index begins. -/
def place (a : NdArray) (index : List Nat) : Int := a.offset + Layout.displacement index a.strides

/-- Elements of some kind, a stride for each dimension, and every element inside the buffer. -/
structure WellFormed (a : NdArray) : Prop where
  concrete : a.ty.OfScalars
  fits : a.layout.Fits
  inside : ∀ index, IsIndex a.shape index →
    0 ≤ a.place index ∧ a.place index + a.ty.elementSize ≤ a.data.size

/-- A concrete type, a stride for each dimension, and every element inside the buffer. -/
structure Bounded (a : NdArray) : Prop where
  concrete : a.ty.isSymbolic = false
  fits : a.layout.Fits
  inside : ∀ index, IsIndex a.shape index →
    0 ≤ a.place index ∧ a.place index + a.ty.elementSize ≤ a.data.size

/-- What the bytes of the element at an index are read as. -/
def valueAt (a : NdArray) (k : Kind) (index : List Nat) : Scalar :=
  k.decode (a.data.slice (a.place index).toNat k.size)

/-- The integer that the bytes of the element at an index stand for. -/
def integerAt (a : NdArray) (k : Kind) (index : List Nat) : Int :=
  k.integer (a.data.slice (a.place index).toNat k.size)

variable {a : NdArray} {k : Kind} {index : List Nat} {n : Int}

/-! ## Reading -/

theorem dtype_of_dtype? (kind : a.dtype? = some k) : a.ty.dtype = .scalar k := by
  rw [dtype?] at kind
  cases dtype : a.ty.dtype <;> rw [dtype] at kind <;> cases kind
  rfl

theorem get_eq_element (kind : a.dtype? = some k) (inside : IsIndex a.shape index) :
    a.get k index = a.element k (a.place index) := by
  have below : (index.zip a.shape).all fun p => p.1 < p.2 := by
    rw [List.all_eq_true]
    rintro ⟨i, size⟩ member
    obtain ⟨d, there, same⟩ := List.getElem_of_mem member
    rw [List.getElem_zip, Prod.mk.injEq] at same
    obtain ⟨rfl, rfl⟩ := same
    rw [List.length_zip] at there
    simpa using (List.forall₂_iff_get.mp inside).2 d (by omega) (by omega)
  have bounds : (index.length = a.shape.length && (index.zip a.shape).all fun p => p.1 < p.2) = true := by
    rw [below, inside.length_eq]
    simp
  rw [get, checkKind, if_pos kind]
  exact if_pos bounds

/-- An element is where the buffer of its array is a region of memory. -/
theorem holdsInt_iff (kind : a.dtype? = some k) (discrete : k.isFloat = false) (inside : IsIndex a.shape index)
    {m : Memory} {i : Nat} {r : Region} (there : m.regions[i]? = some r) (data : r.bytes = a.data) :
    a.HoldsInt k index n ↔ m.HoldsInt k ⟨i, a.place index⟩ n := by
  rw [HoldsInt, get_eq_element kind inside, element]
  constructor
  · rintro ⟨s, read, value⟩
    split at read
    next bounds =>
      cases read
      have length := Buffer.length_slice bounds.2
      rw [Kind.toInt?_decode discrete, Option.some.injEq] at value
      rw [← data] at bounds length value
      exact ⟨_, length, ⟨r, there, bounds.1, by rw [length]; exact bounds.2, by rw [length]⟩, value⟩
    next => cases read
  · rintro ⟨bytes, length, ⟨r', there', least, most, stands⟩, value⟩
    obtain rfl := Option.some.inj (there.symm.trans there')
    rw [data, length] at most stands
    rw [if_pos ⟨least, most⟩, stands]
    exact ⟨_, rfl, by rw [Kind.toInt?_decode discrete, value]⟩

theorem HoldsInt.unique {n' : Int} (holds : a.HoldsInt k index n) (holds' : a.HoldsInt k index n') : n = n' := by
  obtain ⟨s, read, value⟩ := holds
  obtain ⟨s', read', value'⟩ := holds'
  cases read.symm.trans read'
  exact Option.some.inj (value.symm.trans value')

/-! ## Well-formed arrays -/

theorem Bounded.wellFormed (bounded : a.Bounded) (scalars : ∃ k, a.ty.dtype = .scalar k) : a.WellFormed :=
  ⟨⟨bounded.concrete, scalars⟩, bounded.fits, bounded.inside⟩

theorem WellFormed.bounded (wellFormed : a.WellFormed) : a.Bounded :=
  ⟨wellFormed.concrete.1, wellFormed.fits, wellFormed.inside⟩

theorem WellFormed.ty_eq (wellFormed : a.WellFormed) (kind : a.dtype? = some k) :
    a.ty = .withShape a.shape (.scalar k) := by
  obtain ⟨k', same⟩ := wellFormed.concrete.eq_withShape
  have dtype := dtype_of_dtype? kind
  rw [same, Ty.dtype_withShape] at dtype
  cases dtype
  exact same

theorem WellFormed.element_place (wellFormed : a.WellFormed) (kind : a.dtype? = some k)
    (inside : IsIndex a.shape index) :
    a.element k (a.place index) = .ok (a.valueAt k index) := by
  obtain ⟨least, most⟩ := wellFormed.inside index inside
  rw [Ty.elementSize_of_dtype wellFormed.concrete.1 (dtype_of_dtype? kind)] at most
  rw [element, if_pos ⟨least, by omega⟩]
  rfl

theorem WellFormed.get_eq (wellFormed : a.WellFormed) (kind : a.dtype? = some k) (inside : IsIndex a.shape index) :
    a.get k index = .ok (a.valueAt k index) := by
  rw [get_eq_element kind inside, wellFormed.element_place kind inside]

/-- The elements are read in the order of their indices. -/
theorem WellFormed.mapM_element (wellFormed : a.WellFormed) (countable : Layout.Countable a.shape)
    (kind : a.dtype? = some k) :
    (do (← a.offsets).mapM (a.element k)) = .ok ((indices a.shape).map (a.valueAt k)) := by
  rw [offsets, countable.offsets_eq, bind_eq_ok_iff]
  refine ⟨_, rfl, ?_⟩
  rw [mapM_eq_ok_iff, List.forall₂_map_left_iff, List.forall₂_map_right_iff, List.forall₂_same]
  exact fun index member => wellFormed.element_place kind (mem_indices_iff.mp member)

theorem WellFormed.elements_eq (wellFormed : a.WellFormed) (countable : Layout.Countable a.shape)
    (kind : a.dtype? = some k) : a.elements k = .ok ((indices a.shape).map (a.valueAt k)) := by
  rw [elements, checkKind, if_pos kind]
  exact wellFormed.mapM_element countable kind

theorem WellFormed.scalars_eq (wellFormed : a.WellFormed) (countable : Layout.Countable a.shape)
    (kind : a.dtype? = some k) : a.scalars = .ok ((indices a.shape).map (a.valueAt k)) := by
  rw [scalars, kind]
  exact wellFormed.mapM_element countable kind

theorem WellFormed.holdsInt (wellFormed : a.WellFormed) (kind : a.dtype? = some k) (discrete : k.isFloat = false)
    (inside : IsIndex a.shape index) : a.HoldsInt k index (a.integerAt k index) :=
  ⟨_, wellFormed.get_eq kind inside, Kind.toInt?_decode discrete _⟩

/-- In memory, too, where the buffer of the array is a region. -/
theorem WellFormed.holdsInt_memory (wellFormed : a.WellFormed) (kind : a.dtype? = some k)
    (discrete : k.isFloat = false) (inside : IsIndex a.shape index) {m : Memory} {i : Nat} {r : Region}
    (there : m.regions[i]? = some r) (data : r.bytes = a.data) :
    m.HoldsInt k ⟨i, a.place index⟩ (a.integerAt k index) :=
  (holdsInt_iff kind discrete inside there data).mp (wellFormed.holdsInt kind discrete inside)

theorem full_of_isIndex {shape : List Nat} (inside : IsIndex shape index) : 0 ∉ shape := by
  intro empty
  have member := mem_indices_iff.mpr inside
  rw [Layout.indices_eq_nil empty] at member
  cases member

/-! ## Views -/

/-- No element reaches beyond the extent that a view is checked for, if every size was read as it is. -/
theorem extent_spec {shape : List Nat} (strides : List Int) (inside : IsIndex shape index)
    (fits : ∀ n ∈ shape, n ≤ Machine.most) {place first last low high : Int}
    (found : extent place first last (shape.zip strides) = .ok (low, high)) :
    low ≤ first + Layout.displacement index strides ∧ last + Layout.displacement index strides ≤ high := by
  induction shape generalizing index strides first last with
  | nil =>
    obtain rfl := List.forall₂_nil_right_iff.mp inside
    cases found
    simp [Layout.displacement]
  | cons size shape inductionHypothesis =>
    obtain ⟨i, index, below, others, rfl⟩ := List.forall₂_cons_right_iff.mp inside
    obtain ⟨fit, fits⟩ := List.forall_mem_cons.mp fits
    cases strides with
    | nil =>
      cases found
      simp [Layout.displacement]
    | cons s strides =>
      rw [List.zip_cons_cons, extent, if_neg (by omega)] at found
      obtain ⟨last', back, found⟩ := bind_eq_ok_iff.mp found
      obtain ⟨span, moved, found⟩ := bind_eq_ok_iff.mp found
      obtain ⟨rfl, -⟩ := Machine.signed_eq_ok_iff.mp back
      obtain ⟨rfl, -⟩ := Machine.signed_eq_ok_iff.mp moved
      rw [Machine.asSigned_of_le fit] at found
      rw [Layout.displacement]
      have most : (i : Int) ≤ size - 1 := by omega
      split at found
      next down =>
        have falling : s ≤ 0 := by
          by_contra rising
          have := Int.mul_nonneg (a := (size : Int) - 1) (b := s) (by omega) (by omega)
          omega
        have least := Int.mul_le_mul_of_nonpos_right most falling
        have highest := Int.mul_nonpos_of_nonneg_of_nonpos (Int.natCast_nonneg i) falling
        obtain ⟨moved, ran, found⟩ := bind_eq_ok_iff.mp found
        obtain ⟨rfl, -⟩ := Machine.signed_eq_ok_iff.mp ran
        have rest := inductionHypothesis strides others fits found
        omega
      next up =>
        have bounds : 0 ≤ (i : Int) * s ∧ (i : Int) * s ≤ (size - 1) * s := by
          rcases Int.lt_or_le s 0 with falling | rising
          · have single : (size : Int) - 1 = 0 := by
              by_contra more
              have := Int.mul_neg_of_pos_of_neg (a := (size : Int) - 1) (b := s) (by omega) falling
              omega
            obtain rfl : i = 0 := by omega
            simp [single]
          · exact ⟨Int.mul_nonneg (Int.natCast_nonneg i) rising, Int.mul_le_mul_of_nonneg_right most rising⟩
        obtain ⟨moved, ran, found⟩ := bind_eq_ok_iff.mp found
        obtain ⟨rfl, -⟩ := Machine.signed_eq_ok_iff.mp ran
        have rest := inductionHypothesis strides others fits found
        omega

/-- The bounds that a view is checked for. -/
def reach (t : Ty) (offset : Nat) (strides : List Int) : Except CallError (Int × Int) := do
  let place := Machine.asSigned offset
  extent place place (← Machine.signed (place + t.elementSize)) (t.shape.zip strides)

theorem ofParts_eq_ok_iff {t : Ty} {data : Buffer} {offset : Nat} {strides : List Int} :
    ofParts t data offset strides = .ok a ↔
      (t.isSymbolic = false ∧ strides.length = t.shape.length) ∧
        (∃ low high, reach t offset strides = .ok (low, high) ∧ 0 ≤ low ∧ high ≤ data.size) ∧
        a = ⟨t, data, offset, strides⟩ := by
  cases concrete : t.isSymbolic with
  | true =>
    rw [ofParts, concrete]
    simp
  | false =>
    rw [ofParts, Ty.shape?_of_concrete concrete, concrete]
    dsimp only
    by_cases length : strides.length = t.shape.length
    · rw [if_neg (by simp [length]), ← bind_assoc, ← reach, bind_eq_ok_iff]
      constructor
      · rintro ⟨⟨low, high⟩, found, made⟩
        split at made
        next => cases made
        next within =>
          cases made
          exact ⟨⟨rfl, length⟩, ⟨low, high, found, by omega, by omega⟩, rfl⟩
      · rintro ⟨-, ⟨low, high, found, least, most⟩, rfl⟩
        exact ⟨(low, high), found, if_neg (by omega)⟩
    · rw [if_pos (Ne.symm length)]
      simp [length]

/-- The lower bound is never above the place of the view. -/
theorem low_le_of_extent_eq_ok {dims : List (Nat × Int)} {place first last low high : Int} (below : first ≤ place)
    (found : extent place first last dims = .ok (low, high)) : low ≤ place := by
  induction dims generalizing first last with
  | nil =>
    cases found
    exact below
  | cons dim dims inductionHypothesis =>
    obtain ⟨n, s⟩ := dim
    rw [extent] at found
    split at found
    next =>
      cases found
      exact Int.le_refl _
    next =>
      obtain ⟨_, -, found⟩ := bind_eq_ok_iff.mp found
      obtain ⟨span, -, found⟩ := bind_eq_ok_iff.mp found
      split at found
      next down =>
        obtain ⟨moved, ran, found⟩ := bind_eq_ok_iff.mp found
        obtain ⟨rfl, -⟩ := Machine.signed_eq_ok_iff.mp ran
        exact inductionHypothesis (by omega) found
      next up =>
        obtain ⟨moved, -, found⟩ := bind_eq_ok_iff.mp found
        exact inductionHypothesis below found

/-- No element of a view that is accepted lies outside the buffer, if every size was read as it is. -/
theorem inside_of_ofParts_eq_ok {t : Ty} {data : Buffer} {offset : Nat} {strides : List Int} (word : offset < 2 ^ 64)
    (made : ofParts t data offset strides = .ok a) (traversable : Layout.Traversable a.shape) {index : List Nat}
    (inside : IsIndex a.shape index) : 0 ≤ a.place index ∧ a.place index + a.ty.elementSize ≤ a.data.size := by
  obtain ⟨-, ⟨low, high, found, least, most⟩, rfl⟩ := ofParts_eq_ok_iff.mp made
  obtain ⟨last, ran, found⟩ := bind_eq_ok_iff.mp found
  obtain ⟨rfl, -⟩ := Machine.signed_eq_ok_iff.mp ran
  have begins : Machine.asSigned offset = offset := by
    refine Machine.asSigned_of_le (Nat.le_of_not_lt fun beyond => ?_)
    have := low_le_of_extent_eq_ok (Int.le_refl _) found
    rw [Machine.asSigned_of_lt beyond] at this
    omega
  have fits := traversable.resolve_left (full_of_isIndex inside)
  have spans := extent_spec strides inside fits found
  rw [begins] at spans
  simp only [NdArray.place]
  omega

/-! ## Elements side by side -/

/-- Elements that stand side by side fit where their number does. -/
theorem bounded_compact {t : Ty} {data : Buffer} (concrete : t.isSymbolic = false)
    (size : t.elementSize * t.shape.prod ≤ data.size) : Bounded ⟨t, data, 0, (Layout.compact t).strides⟩ where
  concrete := concrete
  fits := Layout.length_compactStrides t.elementSize t.shape
  inside index inside := by
    change IsIndex t.shape index at inside
    obtain ⟨q, found⟩ := List.mem_iff_getElem?.mp (mem_indices_iff.mpr inside)
    have below : q < t.shape.prod := by
      rw [← Layout.length_indices]
      exact (List.getElem?_eq_some_iff.mp found).1
    have later : t.elementSize * (q + 1) ≤ t.elementSize * t.shape.prod := Nat.mul_le_mul_left _ below
    rw [Nat.mul_succ] at later
    simp only [place, Layout.compact, Layout.displacement_of_getElem?_indices t.elementSize found]
    omega

theorem length_flatMap_encode (k : Kind) (values : List Scalar) :
    (values.flatMap (·.encode k)).length = k.size * values.length := by
  induction values with
  | nil => rfl
  | cons value values inductionHypothesis =>
    rw [List.flatMap_cons, List.length_append, length_encode, inductionHypothesis, List.length_cons, Nat.mul_succ,
      Nat.add_comm]

/-- What stands side by side in memory is as long as the elements of its type. -/
theorem bounded_of_flatMap_encode {t : Ty} (k : Kind) {values : List Scalar} (concrete : t.isSymbolic = false)
    (size : t.elementSize = k.size) (count : t.shape.prod = values.length) :
    Bounded ⟨t, .ofList (values.flatMap (·.encode k)), 0, (Layout.compact t).strides⟩ :=
  bounded_compact concrete (by rw [Buffer.size_ofList, length_flatMap_encode, size, count])

/-! ## Zeros -/

/-- Zeros are allocated in as many bytes as all elements take. -/
theorem of_zeros_eq_ok {t : Ty} (made : zeros t = .ok a) :
    t.isSymbolic = false ∧ t.elementSize * t.shape.prod ≤ Machine.most ∧
      ∃ strides span, Layout.accumulate t.elementSize t.shape = .ok (strides, span) ∧
        a = ⟨t, .zeros (t.elementSize * t.shape.prod), 0, strides⟩ := by
  obtain ⟨size?, counted, made⟩ := bind_eq_ok_iff.mp made
  split at made
  next size concrete =>
    obtain ⟨rfl, -⟩ := (Ty.dataSize?_eq_ok_iff concrete).mp counted
    obtain ⟨_, room, made⟩ := bind_eq_ok_iff.mp made
    obtain ⟨l, laid, made⟩ := bind_eq_ok_iff.mp made
    obtain ⟨⟨strides, span⟩, accumulated, same⟩ := bind_eq_ok_iff.mp laid
    cases same
    cases made
    have room := Machine.allocate_eq_ok_iff.mp room
    rw [Nat.mul_one] at room
    exact ⟨concrete, room, strides, span, accumulated, rfl⟩
  next => cases made

theorem bounded_of_zeros_eq_ok {t : Ty} (made : zeros t = .ok a) : a.Bounded := by
  obtain ⟨concrete, room, strides, span, accumulated, rfl⟩ := of_zeros_eq_ok made
  by_cases empty : 0 ∈ t.shape
  · exact ⟨concrete, Layout.length_of_accumulate_eq_ok accumulated, fun index inside =>
      absurd empty (full_of_isIndex inside)⟩
  · rw [Layout.accumulate_eq (Layout.allocatable_of_le_most empty room)] at accumulated
    cases accumulated
    exact bounded_compact concrete (by rw [Buffer.size_zeros])

/-- Loops over zeros get to all of them. -/
theorem traversable_of_zeros_eq_ok {t : Ty} (made : zeros t = .ok a) (some : 0 < t.elementSize) :
    Layout.Traversable t.shape := by
  obtain ⟨-, room, -⟩ := of_zeros_eq_ok made
  by_cases empty : 0 ∈ t.shape
  · exact .inl empty
  · exact (Layout.allocatable_of_le_most empty room).traversable some

theorem zeros_eq {t : Ty} (concrete : t.isSymbolic = false)
    (allocatable : Layout.Allocatable t.elementSize t.shape) :
    zeros t = .ok ⟨t, .zeros (t.elementSize * t.shape.prod), 0, (Layout.compact t).strides⟩ := by
  have counted : t.dataSize? = .ok (some (t.elementSize * t.shape.prod)) := by
    refine (Ty.dataSize?_eq_ok_iff concrete).mpr ⟨rfl, fun back behind => ?_⟩
    have room := allocatable back behind
    rw [Machine.most_eq] at room
    omega
  have room : Machine.allocate (t.elementSize * t.shape.prod) 1 = .ok () := by
    rw [Machine.allocate_eq_ok_iff, Nat.mul_one]
    exact allocatable.le_most
  rw [zeros, counted, concrete, Layout.contiguous_eq allocatable]
  exact bind_eq_ok_iff.mpr ⟨_, rfl, bind_eq_ok_iff.mpr ⟨(), room, rfl⟩⟩

theorem fails_zeros (t : Ty) : Fails (fun e => e = .overflow ∨ e = .layout (.cannotAllocate t)) (zeros t) := by
  rw [zeros]
  refine fails_bind (fun e failed => .inl (Ty.fails_dataSize? t e failed)) fun size? _ => ?_
  split
  next =>
    refine fails_bind (fun e failed => .inl (Machine.fails_allocate _ 1 e failed)) fun _ _ => ?_
    refine fails_bind ?_ fun _ _ => fails_ok _
    exact fails_bind (fun e failed => .inl (Layout.fails_accumulate _ _ e failed)) fun _ _ => fails_ok _
  next => exact fails_error (.inr rfl)

/-! ## Filling -/

/-- Writing into a region, also where it fails, leaves the region as long as it was. -/
theorem size_writeEach (k : Kind) (region : Nat) (values : List (Int × Scalar)) {m : Memory} {r : Region}
    (there : m.regions[region]? = some r) :
    ∃ r', (Memory.writeEach k region values m).2.regions[region]? = some r' ∧ r'.bytes.size = r.bytes.size := by
  induction values generalizing m r with
  | nil => exact ⟨r, there, rfl⟩
  | cons value values inductionHypothesis =>
    obtain ⟨place, value⟩ := value
    rw [Memory.writeEach]
    by_cases writable : m.Writable ⟨region, place⟩ k.size
    · rw [writable.write_eq]
      have written : (m.put ⟨region, place⟩ (value.encode k)).regions[region]? =
          some { r with bytes := r.bytes.overwrite place.toNat (value.encode k) } := by
        rw [Memory.getElem?_put_self, there, Option.map_some]
      obtain ⟨r', there', size⟩ := inductionHypothesis written
      exact ⟨r', there', size.trans (Buffer.size_overwrite ..)⟩
    · rw [← length_encode k value] at writable
      obtain ⟨fault, same⟩ := Memory.writeBytes_eq_of_not_writable writable
      rw [Memory.write, same]
      exact ⟨r, there, rfl⟩

theorem of_fill_eq_ok {b : NdArray} {values : List (Int × Scalar)} (filled : a.fill k values = .ok b) :
    ∃ data, b = { a with data := data } ∧ data.size = a.data.size := by
  rw [fill] at filled
  obtain ⟨r, there, size⟩ := size_writeEach k 0 values (m := ⟨[⟨.exclusive, a.data⟩], []⟩) rfl
  split at filled
  next m ran =>
    cases filled
    rw [ran] at there
    exact ⟨_, rfl, by rw [there]; exact size⟩
  next => cases filled

theorem Bounded.congr_data (bounded : a.Bounded) {data : Buffer} (size : data.size = a.data.size) :
    Bounded { a with data := data } :=
  ⟨bounded.concrete, bounded.fits, fun index inside => by rw [size]; exact bounded.inside index inside⟩

/-! ## Constructors -/

/-- The arrays that can be built. -/
inductive Built : NdArray → Prop
  | zeros {t : Ty} {a : NdArray} (made : NdArray.zeros t = .ok a) : Built a
  | scalar (k : Kind) (value : Scalar) : Built (NdArray.scalar k value)
  | ofList (k : Kind) (values : List Scalar) : Built (NdArray.ofList k values)
  | ofShape {k : Kind} {shape : List Nat} {values : List Scalar} {a : NdArray}
      (made : NdArray.ofShape k shape values = .ok a) : Built a
  | ofScalars {t : Ty} {values : List Scalar} {a : NdArray} (made : NdArray.ofScalars t values = .ok a) : Built a
  | ofParts {t : Ty} {data : Buffer} {offset : Nat} {strides : List Int} {a : NdArray} (word : offset < 2 ^ 64)
      (made : NdArray.ofParts t data offset strides = .ok a) : Built a

/-- The arrays that can be built and have every element inside their buffer. -/
structure Constructed (a : NdArray) : Prop where
  built : a.Built
  inside : ∀ index, IsIndex a.shape index →
    0 ≤ a.place index ∧ a.place index + a.ty.elementSize ≤ a.data.size

/-- The blank array that values are filled into is as long as they are. -/
theorem bounded_of_ofScalars_eq_ok {t : Ty} {values : List Scalar} (made : ofScalars t values = .ok a) : a.Bounded := by
  obtain ⟨blank, allocated, made⟩ := bind_eq_ok_iff.mp made
  split at made
  next => cases made
  next k kind =>
    obtain ⟨places, -, made⟩ := bind_eq_ok_iff.mp made
    split at made
    next =>
      obtain ⟨data, rfl, size⟩ := of_fill_eq_ok made
      exact (bounded_of_zeros_eq_ok allocated).congr_data size
    next => cases made

theorem bounded_scalar (k : Kind) (value : Scalar) : (NdArray.scalar k value).Bounded := by
  refine bounded_compact (t := .scalar k) rfl (Nat.le_of_eq ?_)
  rw [Buffer.size_ofList, length_encode]
  exact (Nat.mul_one _).trans (Ty.elementSize_withShape [] k)

/-- A list is laid out as an array of one dimension. -/
theorem bounded_ofList (k : Kind) (values : List Scalar) : (NdArray.ofList k values).Bounded := by
  have count : (Ty.withShape [values.length] (.scalar k)).shape.prod = values.length := Nat.mul_one _
  have bounded := bounded_of_flatMap_encode k rfl (Ty.elementSize_withShape _ k) count
  rw [Layout.compact, Ty.elementSize_withShape, Ty.shape_withShape (Ty.isElement_scalar k)] at bounded
  simp only [Layout.compactStrides, List.prod_nil, Nat.mul_one] at bounded
  exact bounded

theorem of_ofShape_eq_ok {shape : List Nat} {values : List Scalar} (made : ofShape k shape values = .ok a) :
    shape.prod = values.length ∧ ∃ strides span, Layout.accumulate k.size shape = .ok (strides, span) ∧
      a = ⟨.withShape shape (.scalar k), .ofList (values.flatMap (·.encode k)), 0, strides⟩ := by
  obtain ⟨expected, counted, made⟩ := bind_eq_ok_iff.mp made
  obtain ⟨rfl, -⟩ := Machine.product_eq_ok_iff.mp counted
  split at made
  next count =>
    obtain ⟨l, laid, same⟩ := bind_eq_ok_iff.mp made
    obtain ⟨⟨strides, span⟩, accumulated, found⟩ := bind_eq_ok_iff.mp laid
    cases found
    cases same
    rw [Ty.elementSize_withShape, Ty.shape_withShape (Ty.isElement_scalar k)] at accumulated
    exact ⟨count, strides, span, accumulated, rfl⟩
  next => cases made

theorem bounded_of_ofShape_eq_ok {shape : List Nat} {values : List Scalar} (made : ofShape k shape values = .ok a)
    (traversable : Layout.Traversable shape) : a.Bounded := by
  obtain ⟨count, strides, span, accumulated, rfl⟩ := of_ofShape_eq_ok made
  have shaped : (Ty.withShape shape (.scalar k)).shape = shape := Ty.shape_withShape (Ty.isElement_scalar k)
  have size := Ty.elementSize_withShape shape k
  have concrete := Ty.isSymbolic_withShape shape (.scalar k)
  obtain empty | fits := traversable
  · refine ⟨concrete, (Layout.length_of_accumulate_eq_ok accumulated).trans (by rw [layout, shaped]), ?_⟩
    exact fun index inside => absurd (by rwa [NdArray.shape, shaped]) (full_of_isIndex inside)
  · have small : k.size ≤ Machine.most := k.size_le.trans (by decide)
    rw [Layout.accumulate_eq (Layout.allocatable_of_accumulate_eq_ok fits small accumulated)] at accumulated
    cases accumulated
    have bounded := bounded_of_flatMap_encode k concrete size (shaped.symm ▸ count)
    rwa [Layout.compact, size, shaped] at bounded

/-- An array that can be built has a concrete type and a stride for each dimension. -/
theorem Built.concrete_and_fits (built : a.Built) : a.ty.isSymbolic = false ∧ a.layout.Fits := by
  cases built with
  | zeros made => exact ⟨(bounded_of_zeros_eq_ok made).concrete, (bounded_of_zeros_eq_ok made).fits⟩
  | scalar k value => exact ⟨rfl, rfl⟩
  | ofList k values => exact ⟨rfl, rfl⟩
  | @ofShape k shape values _ made =>
    obtain ⟨-, strides, span, accumulated, rfl⟩ := of_ofShape_eq_ok made
    refine ⟨Ty.isSymbolic_withShape shape _, (Layout.length_of_accumulate_eq_ok accumulated).trans ?_⟩
    rw [layout, Ty.shape_withShape (Ty.isElement_scalar k)]
  | ofScalars made => exact ⟨(bounded_of_ofScalars_eq_ok made).concrete, (bounded_of_ofScalars_eq_ok made).fits⟩
  | ofParts _ made =>
    obtain ⟨⟨concrete, length⟩, -, rfl⟩ := ofParts_eq_ok_iff.mp made
    exact ⟨concrete, length⟩

theorem Built.inside (built : a.Built) (traversable : Layout.Traversable a.shape) {index : List Nat}
    (inside : IsIndex a.shape index) : 0 ≤ a.place index ∧ a.place index + a.ty.elementSize ≤ a.data.size := by
  cases built with
  | zeros made => exact (bounded_of_zeros_eq_ok made).inside index inside
  | scalar k value => exact (bounded_scalar k value).inside index inside
  | ofList k values => exact (bounded_ofList k values).inside index inside
  | @ofShape k shape values _ made =>
    obtain ⟨-, strides, span, -, rfl⟩ := of_ofShape_eq_ok made
    have shaped : (Ty.withShape shape (.scalar k)).shape = shape := Ty.shape_withShape (Ty.isElement_scalar k)
    exact (bounded_of_ofShape_eq_ok made (shaped ▸ traversable)).inside index inside
  | ofScalars made => exact (bounded_of_ofScalars_eq_ok made).inside index inside
  | ofParts word made => exact inside_of_ofParts_eq_ok word made traversable inside

theorem Built.constructed (built : a.Built) (traversable : Layout.Traversable a.shape) : a.Constructed :=
  ⟨built, fun _ inside => built.inside traversable inside⟩

theorem constructed_of_zeros_eq_ok {t : Ty} (made : zeros t = .ok a) : a.Constructed :=
  ⟨.zeros made, (bounded_of_zeros_eq_ok made).inside⟩

theorem constructed_scalar (k : Kind) (value : Scalar) : (NdArray.scalar k value).Constructed :=
  ⟨.scalar k value, (bounded_scalar k value).inside⟩

theorem constructed_ofList (k : Kind) (values : List Scalar) : (NdArray.ofList k values).Constructed :=
  ⟨.ofList k values, (bounded_ofList k values).inside⟩

theorem Constructed.bounded (constructed : a.Constructed) : a.Bounded :=
  ⟨constructed.built.concrete_and_fits.1, constructed.built.concrete_and_fits.2, constructed.inside⟩

theorem Constructed.wellFormed (constructed : a.Constructed) (kind : a.dtype? = some k) : a.WellFormed :=
  constructed.bounded.wellFormed ⟨k, dtype_of_dtype? kind⟩

/-! ## Results -/

/-- The zeros that a call fills. -/
def blank (shape : List Nat) (k : Kind) : NdArray :=
  ⟨.withShape shape (.scalar k), .zeros (k.size * shape.prod), 0, Layout.compactStrides k.size shape⟩

theorem zeros_eq_blank {shape : List Nat} {k : Kind} (allocatable : Layout.Allocatable k.size shape) :
    zeros (.withShape shape (.scalar k)) = .ok (blank shape k) := by
  have size := Ty.elementSize_withShape shape k
  have shaped : (Ty.withShape shape (.scalar k)).shape = shape := Ty.shape_withShape (Ty.isElement_scalar k)
  rw [zeros_eq (Ty.isSymbolic_withShape shape _) (by rwa [size, shaped]), Layout.compact, size, shaped]
  rfl

theorem wellFormed_blank (shape : List Nat) (k : Kind) : (blank shape k).WellFormed := by
  have size := Ty.elementSize_withShape shape k
  have shaped : (Ty.withShape shape (.scalar k)).shape = shape := Ty.shape_withShape (Ty.isElement_scalar k)
  have bounded : Bounded ⟨.withShape shape (.scalar k), .zeros (k.size * shape.prod), 0,
      (Layout.compact (.withShape shape (.scalar k))).strides⟩ :=
    bounded_compact (Ty.isSymbolic_withShape shape _) (by rw [size, shaped, Buffer.size_zeros])
  rw [Layout.compact, size, shaped] at bounded
  exact bounded.wellFormed ⟨k, Ty.dtype_withShape shape _⟩

theorem fits_blank (shape : List Nat) (k : Kind) : (blank shape k).layout.Fits := (wellFormed_blank shape k).fits

end NdArray

end ArrayCall
