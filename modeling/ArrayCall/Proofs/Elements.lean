import ArrayCall.Kernel
import Mathlib.Algebra.Order.Ring.Int

/-!
# Integers in elements

What is written of a value is read back as its conversion to the kind (`Kind.decode_encode`): an integer is written
modulo the number of values of the kind, and read back as the one representative that the kind has
(`Kind.integer_encode`). A kind promotes to another just if that one has all its integers
(`Kind.canPromoteTo_iff_represents`), and then it loses nothing on the way (`Kind.integer_convert`).
-/

namespace ArrayCall

/-! ## Bytes -/

theorem ofLittleEndian_littleEndian (n v : Nat) : ofLittleEndian (littleEndian n v) = v % 256 ^ n := by
  induction n generalizing v with
  | zero => rw [littleEndian, ofLittleEndian, pow_zero, Nat.mod_one]
  | succ n inductionHypothesis =>
    have lowest : (UInt8.ofNat v).toNat = v % 256 := UInt8.toNat_ofNat'
    rw [littleEndian, ofLittleEndian, inductionHypothesis, lowest, pow_succ', Nat.mod_mul]

theorem Single.ofBytes_toBytes (x : Single) : ofBytes x.toBytes = x := by
  have size : x.bits.toNat < 256 ^ 4 := x.bits.toNat_lt
  rw [toBytes, ofBytes, ofLittleEndian_littleEndian, Nat.mod_eq_of_lt size]
  exact congrArg Single.mk UInt32.ofNat_toNat

theorem Double.ofBytes_toBytes (x : Double) : ofBytes x.toBytes = x := by
  have size : x.bits.toNat < 256 ^ 8 := x.bits.toNat_lt
  rw [toBytes, ofBytes, ofLittleEndian_littleEndian, Nat.mod_eq_of_lt size]
  exact congrArg Double.mk UInt64.ofNat_toNat

theorem Width.count_eq_pow (w : Width) : w.count = 256 ^ w.bytes := by
  cases w <;> rfl

theorem Width.count_pos (w : Width) : 0 < w.count := by
  cases w <;> decide

theorem Width.bits_le_bits_iff {v w : Width} : v.bits ≤ w.bits ↔ v.count ≤ w.count := by
  cases v <;> cases w <;> decide

/-- A sign takes one bit. -/
theorem Width.bits_lt_bits_iff {v w : Width} : v.bits < w.bits ↔ v.count ≤ w.half := by
  cases v <;> cases w <;> decide

/-! ## Representatives -/

namespace Kind

/-- With a sign or without one, but an integer. -/
def IsInteger (k : Kind) : Prop := k.isSigned ∨ k.isUnsigned

instance (k : Kind) : Decidable k.IsInteger := inferInstanceAs (Decidable (_ ∨ _))

theorem isInteger_iff {k : Kind} : k.IsInteger ↔ ∃ w, k = .int w ∨ k = .uint w := by
  cases k <;> simp [IsInteger, isSigned, isUnsigned]

theorem IsInteger.not_isFloat {k : Kind} (integer : k.IsInteger) : k.isFloat = false := by
  obtain ⟨w, rfl | rfl⟩ := isInteger_iff.mp integer <;> rfl

/-- Besides the integers only the booleans have values that stand for integers. -/
theorem isInteger_or_eq_bool {k : Kind} (discrete : k.isFloat = false) : k.IsInteger ∨ k = bool := by
  cases k with
  | bool => exact .inr rfl
  | int w => exact .inl (.inl rfl)
  | uint w => exact .inl (.inr rfl)
  | _ => cases discrete

theorem wrap_wrap {k : Kind} (integer : k.IsInteger) (n : Int) : k.wrap (k.wrap n) = k.wrap n := by
  obtain ⟨w, rfl | rfl⟩ := isInteger_iff.mp integer
  · exact Int.bmod_bmod
  · exact Int.emod_emod_of_dvd n (Int.dvd_refl _)

theorem toInt?_ofInt {k : Kind} (integer : k.IsInteger) (n : Int) : (k.ofInt n).toInt? = some (k.wrap n) := by
  obtain ⟨w, rfl | rfl⟩ := isInteger_iff.mp integer
  · -- No kind is wider than the 64 bits of an element, so that wrapping once more changes nothing.
    have kept : (n.bmod w.count).bmod (2 ^ 64) = n.bmod w.count := by
      have least := Int.le_bmod (x := n) w.count_pos
      have most := Int.bmod_lt (x := n) w.count_pos
      refine Int.bmod_eq_of_le_mul_two ?_ ?_ <;> cases w <;> simp only [Width.count] at least most ⊢ <;> omega
    exact congrArg some ((Int64.toInt_ofInt ..).trans kept)
  · have least : 0 ≤ n % w.count := Int.emod_nonneg n (by have := w.count_pos; omega)
    have most : n % w.count < w.count := Int.emod_lt_of_pos n (by have := w.count_pos; omega)
    have kept : (n % w.count).toNat % 2 ^ 64 = (n % w.count).toNat := by
      refine Nat.mod_eq_of_lt ?_
      cases w <;> simp only [Width.count] at least most ⊢ <;> omega
    have value : ((UInt64.ofNat (n % w.count).toNat).toNat : Int) = n % w.count := by
      rw [UInt64.toNat_ofNat', kept, Int.toNat_of_nonneg least]
    exact congrArg some value

theorem toInt?_decode {k : Kind} (discrete : k.isFloat = false) (bytes : Bytes) :
    (k.decode bytes).toInt? = some (k.integer bytes) := by
  rw [integer]
  cases k with
  | bool => rfl
  | int w => rw [decode, toInt?_ofInt (.inl rfl), Option.getD_some]
  | uint w => rw [decode, toInt?_ofInt (.inr rfl), Option.getD_some]
  | _ => cases discrete

/-- An integer and its representative are the same element. -/
theorem ofInt_wrap {k : Kind} (integer : k.IsInteger) (n : Int) : k.ofInt (k.wrap n) = k.ofInt n := by
  obtain ⟨w, rfl | rfl⟩ := isInteger_iff.mp integer <;> simp only [ofInt, wrap_wrap integer]

theorem decode_eq_ofInt {k : Kind} (integer : k.IsInteger) (bytes : Bytes) :
    k.decode bytes = k.ofInt (ofLittleEndian bytes) := by
  obtain ⟨w, rfl | rfl⟩ := isInteger_iff.mp integer <;> rfl

theorem integer_eq_wrap {k : Kind} (integer : k.IsInteger) (bytes : Bytes) :
    k.integer bytes = k.wrap (ofLittleEndian bytes) := by
  rw [Kind.integer, decode_eq_ofInt integer, toInt?_ofInt integer, Option.getD_some]

/-! ## Reading back -/

theorem exists_cast_eq_ofInt {k : Kind} (integer : k.IsInteger) (s : Scalar) : ∃ n, s.cast k = k.ofInt n := by
  obtain ⟨w, rfl | rfl⟩ := isInteger_iff.mp integer <;> cases s <;> exact ⟨_, rfl⟩

theorem toInt?_cast {k : Kind} (integer : k.IsInteger) {s : Scalar} {n : Int} (value : s.toInt? = some n) :
    (s.cast k).toInt? = some (k.wrap n) := by
  rw [← toInt?_ofInt integer]
  obtain ⟨w, rfl | rfl⟩ := isInteger_iff.mp integer <;>
    cases s <;> simp_all [Scalar.cast, Scalar.toInt?]

/-- A negative number is written as its remainder, which has the same representative. -/
theorem wrap_ofLittleEndian_encode {k : Kind} (integer : k.IsInteger) {s : Scalar} {n : Int}
    (value : (s.cast k).toInt? = some (k.wrap n)) : k.wrap (ofLittleEndian (s.encode k)) = k.wrap n := by
  rw [Scalar.encode, ofLittleEndian_littleEndian]
  obtain ⟨w, rfl | rfl⟩ := isInteger_iff.mp integer
  all_goals
    have positive := w.count_pos
    simp only [Scalar.pattern, value, Option.getD_some, size, ← w.count_eq_pow]
    rw [Int.natCast_mod, Int.toNat_of_nonneg (Int.emod_nonneg _ (by omega))]
    simp only [wrap, Int.emod_emod_of_dvd _ (Int.dvd_refl _), Int.emod_bmod, Int.bmod_bmod]

/-- What is written of a value is read back as its conversion to the kind. -/
theorem decode_encode (k : Kind) (s : Scalar) : k.decode (s.encode k) = s.cast k := by
  by_cases integer : k.IsInteger
  · obtain ⟨n, cast⟩ := exists_cast_eq_ofInt integer s
    have value : (s.cast k).toInt? = some (k.wrap n) := by rw [cast, toInt?_ofInt integer]
    rw [decode_eq_ofInt integer, ← ofInt_wrap integer, wrap_ofLittleEndian_encode integer value, ofInt_wrap integer,
      cast]
  · cases k with
    | bool =>
      cases truth : s.isTrue <;>
        simp [decode, Scalar.encode, Scalar.pattern, Scalar.cast, truth, littleEndian, size]
    | int w => exact absurd (.inl rfl) integer
    | uint w => exact absurd (.inr rfl) integer
    | float32 => exact congrArg (fun x => Scalar.float x.widen) s.toSingle.ofBytes_toBytes
    | float64 => exact congrArg Scalar.float s.toDouble.ofBytes_toBytes

/-- What is written of an integer is read back as the representative of the kind. -/
theorem integer_encode {k : Kind} (integer : k.IsInteger) {s : Scalar} {n : Int} (value : s.toInt? = some n) :
    k.integer (s.encode k) = k.wrap n := by
  rw [Kind.integer, decode_encode, toInt?_cast integer value, Option.getD_some]

/-! ## Promotion -/

theorem canPromoteTo_self (k : Kind) : k.canPromoteTo k := by
  cases k with
  | int w => exact decide_eq_true (Nat.le_refl _)
  | uint w => exact decide_eq_true (Nat.le_refl _)
  | _ => rfl

theorem eq_of_canPromoteTo {k kind : Kind} (there : k.canPromoteTo kind) (back : kind.canPromoteTo k) : k = kind := by
  have all : ∀ k ∈ Kind.all, ∀ kind ∈ Kind.all, k.canPromoteTo kind → kind.canPromoteTo k → k = kind := by decide
  exact all k k.mem_all kind kind.mem_all there back

/-- The integers that elements of a kind stand for. -/
def Represents (k : Kind) (n : Int) : Prop :=
  match k with
  | int w => -w.half ≤ n ∧ n < w.half
  | uint w => 0 ≤ n ∧ n < w.count
  | _ => n = 0 ∨ n = 1

theorem represents_wrap {k : Kind} (integer : k.IsInteger) (n : Int) : k.Represents (k.wrap n) := by
  obtain ⟨w, rfl | rfl⟩ := isInteger_iff.mp integer
  · have least := Int.le_bmod (x := n) w.count_pos
    have most := Int.bmod_lt (x := n) w.count_pos
    have half := w.two_mul_half
    simp only [Represents, wrap]
    omega
  · exact ⟨Int.emod_nonneg n (by have := w.count_pos; omega), Int.emod_lt_of_pos n (by have := w.count_pos; omega)⟩

theorem represents_integer {k : Kind} (discrete : k.isFloat = false) (bytes : Bytes) :
    k.Represents (k.integer bytes) := by
  cases k with
  | bool =>
    simp only [Represents, integer, decode, Scalar.toInt?, Option.getD_some]
    split <;> simp
  | int w =>
    rw [integer_eq_wrap (.inl rfl)]
    exact represents_wrap (.inl rfl) _
  | uint w =>
    rw [integer_eq_wrap (.inr rfl)]
    exact represents_wrap (.inr rfl) _
  | _ => cases discrete

theorem Represents.of_canPromoteTo {k kind : Kind} {n : Int} (represents : k.Represents n)
    (discrete : k.isFloat = false) (discrete' : kind.isFloat = false) (promotes : k.canPromoteTo kind) :
    kind.Represents n := by
  cases k with
  | bool =>
    cases kind with
    | bool => exact represents
    | int w | uint w => cases w <;> simp only [Represents, Width.half, Width.count] at * <;> omega
    | _ => cases discrete'
  | int v =>
    have half := v.two_mul_half
    cases kind with
    | int w =>
      have wider : v.count ≤ w.count := Width.bits_le_bits_iff.mp (of_decide_eq_true promotes)
      have half' := w.two_mul_half
      simp only [Represents] at *
      omega
    | bool | uint w => cases promotes
    | _ => cases discrete'
  | uint v =>
    cases kind with
    | int w =>
      have wider : v.count ≤ w.half := Width.bits_lt_bits_iff.mp (of_decide_eq_true promotes)
      simp only [Represents] at *
      omega
    | uint w =>
      have wider : v.count ≤ w.count := Width.bits_le_bits_iff.mp (of_decide_eq_true promotes)
      simp only [Represents] at *
      omega
    | bool => cases promotes
    | _ => cases discrete'
  | _ => cases discrete

/-- Of the integers that a kind has, the one that the most kinds lack. -/
def farthest : Kind → Int
  | int w => -w.half
  | uint w => w.count - 1
  | _ => 1

theorem represents_farthest (k : Kind) : k.Represents k.farthest := by
  cases k with
  | int w | uint w =>
    have half := w.two_mul_half
    have positive := w.count_pos
    simp only [Represents, farthest]
    omega
  | _ => exact .inr rfl

theorem canPromoteTo_of_represents_farthest {k kind : Kind} (discrete : k.isFloat = false)
    (discrete' : kind.isFloat = false) (represents : kind.Represents k.farthest) : k.canPromoteTo kind := by
  cases k with
  | bool => rfl
  | int v =>
    have half := v.two_mul_half
    have positive := v.count_pos
    cases kind with
    | int w =>
      have half' := w.two_mul_half
      simp only [Represents, farthest] at represents
      apply decide_eq_true
      apply Width.bits_le_bits_iff.mpr
      omega
    | bool | uint w =>
      simp only [Represents, farthest] at represents
      omega
    | _ => cases discrete'
  | uint v =>
    have positive := v.count_pos
    cases kind with
    | int w =>
      simp only [Represents, farthest] at represents
      apply decide_eq_true
      apply Width.bits_lt_bits_iff.mpr
      omega
    | uint w =>
      simp only [Represents, farthest] at represents
      apply decide_eq_true
      apply Width.bits_le_bits_iff.mpr
      omega
    | bool =>
      have wide : 2 < v.count := by cases v <;> decide
      simp only [Represents, farthest] at represents
      omega
    | _ => cases discrete'
  | _ => cases discrete

/-- A kind promotes to another just if that one has all its integers. -/
theorem canPromoteTo_iff_represents {k kind : Kind} (discrete : k.isFloat = false) (discrete' : kind.isFloat = false) :
    k.canPromoteTo kind ↔ ∀ n, k.Represents n → kind.Represents n := by
  constructor
  · intro promotes n represents
    exact represents.of_canPromoteTo discrete discrete' promotes
  · intro within
    exact canPromoteTo_of_represents_farthest discrete discrete' (within _ k.represents_farthest)

theorem Represents.wrap_eq {k : Kind} {n : Int} (represents : k.Represents n) (integer : k.IsInteger) :
    k.wrap n = n := by
  obtain ⟨w, rfl | rfl⟩ := isInteger_iff.mp integer
  · have half := w.two_mul_half
    simp only [Represents] at represents
    exact Int.bmod_eq_of_le_mul_two (by omega) (by omega)
  · exact Int.emod_eq_of_lt represents.1 represents.2

theorem integer_convert {k kind : Kind} (discrete : k.isFloat = false) (integer : kind.IsInteger)
    (promotes : k.canPromoteTo kind) (bytes : Bytes) :
    kind.integer ((k.decode bytes).encode kind) = k.integer bytes := by
  rw [integer_encode integer (toInt?_decode discrete bytes)]
  exact ((represents_integer discrete bytes).of_canPromoteTo discrete integer.not_isFloat promotes).wrap_eq integer

end Kind

theorem BinaryOp.apply_of_isInteger {k : Kind} (integer : k.IsInteger) (op : BinaryOp) (a b : Bytes) :
    op.apply k a b = (op.onInt (k.integer a) (k.integer b)).map fun n => (k.ofInt n).encode k := by
  obtain ⟨w, rfl | rfl⟩ := Kind.isInteger_iff.mp integer <;> rfl

end ArrayCall
