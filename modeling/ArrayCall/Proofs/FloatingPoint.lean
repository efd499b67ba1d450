import ArrayCall.FloatingPoint
import Mathlib.Algebra.Order.Ring.Int

/-!
# Singles among doubles

A single is read as the double that it is, and that double is narrowed back to it
(`Single.narrowMagnitude_widenMagnitude`). A NaN loses its signal when it is read for the first time, and nothing
after that (`Single.widen_narrow_widen`).
-/

namespace ArrayCall

theorem roundShift_mul (n places : Nat) : roundShift (n * 2 ^ places) places = n := by
  have whole : (n * 2 ^ places) >>> places = n := by
    rw [Nat.shiftRight_eq_div_pow, Nat.mul_div_cancel _ (Nat.two_pow_pos places)]
  have unit : 1 <<< places = 2 ^ places := Nat.one_shiftLeft places
  have positive := Nat.two_pow_pos places
  simp only [roundShift, whole, unit, Nat.sub_self]
  rw [if_neg (by omega)]

namespace Double

theorem two_pow_mul_two_pow_sub {top : Nat} (few : top < 23) : 2 ^ top * 2 ^ (52 - top) = 0x10000000000000 := by
  rw [← Nat.pow_add, Nat.add_sub_cancel' (by omega)]

/-- Behind its leading one a number has a fraction's room, however far it is moved up. -/
theorem fraction_lt {top m : Nat} (few : top < 23) (most : m < 2 ^ (top + 1)) :
    (m - 2 ^ top) * 2 ^ (52 - top) < 0x10000000000000 := by
  rw [← two_pow_mul_two_pow_sub few]
  exact Nat.mul_lt_mul_of_pos_right (by omega) (Nat.two_pow_pos _)

/-- A double of an exponent that a single has in its own range. -/
theorem narrowMagnitude_of_normal {exponent fraction : Nat} (least : 1 ≤ exponent) (most : exponent < 255)
    (below : fraction < 0x800000) :
    narrowMagnitude ((exponent + 896) * 0x10000000000000 + fraction * 0x20000000) = exponent * 0x800000 + fraction := by
  have places : (exponent + 896) * 0x10000000000000 + fraction * 0x20000000 - 896 * 0x10000000000000 =
      (exponent * 0x800000 + fraction) * 2 ^ 29 := by omega
  have front : ((exponent + 896) * 0x10000000000000 + fraction * 0x20000000) / 0x10000000000000 = exponent + 896 := by
    omega
  simp only [narrowMagnitude, front, places, roundShift_mul]
  rw [if_neg (by omega), if_pos (by omega)]
  omega

/-- A double whose exponent is too small for a single has its leading one in the fraction of the single. -/
theorem narrowMagnitude_of_subnormal {top m : Nat} (few : top < 23) (least : 2 ^ top ≤ m) (most : m < 2 ^ (top + 1)) :
    narrowMagnitude ((top + 874) * 0x10000000000000 + (m - 2 ^ top) * 2 ^ (52 - top)) = m := by
  have whole : 0x10000000000000 + (m - 2 ^ top) * 2 ^ (52 - top) = m * 2 ^ (52 - top) := by
    rw [← two_pow_mul_two_pow_sub few, ← Nat.add_mul, Nat.add_sub_cancel' least]
  have below := fraction_lt few most
  have front : ((top + 874) * 0x10000000000000 + (m - 2 ^ top) * 2 ^ (52 - top)) / 0x10000000000000 = top + 874 := by
    omega
  have back : ((top + 874) * 0x10000000000000 + (m - 2 ^ top) * 2 ^ (52 - top)) % 0x10000000000000 =
      (m - 2 ^ top) * 2 ^ (52 - top) := by
    omega
  simp only [narrowMagnitude, front, back, whole]
  rw [if_neg (by omega), if_neg (by omega), if_neg (by omega), show 926 - (top + 874) = 52 - top by omega,
    roundShift_mul]

/-- A quiet NaN keeps as much of its fraction as a single has places for. -/
theorem narrowMagnitude_of_nan {payload : Nat} (below : payload < 0x400000) :
    narrowMagnitude (0x7ff8000000000000 + payload * 0x20000000) = 0x7fc00000 + payload := by
  have front : (0x7ff8000000000000 + payload * 0x20000000) / 0x10000000000000 = 2047 := by omega
  have back : (0x7ff8000000000000 + payload * 0x20000000) % 0x10000000000000 =
      0x8000000000000 + payload * 0x20000000 := by omega
  simp only [narrowMagnitude, front, back, if_true]
  rw [if_neg (by omega)]
  omega

variable {negative : Bool} {m : Nat}

theorem isNegative_mk (below : m < 0x8000000000000000) :
    isNegative ⟨if negative then UInt64.ofNat m + signBit else UInt64.ofNat m⟩ = negative := by
  cases negative <;> simp [isNegative, signBit, UInt64.le_iff_toNat_le] <;> omega

theorem toNat_magnitude_mk (below : m < 0x8000000000000000) :
    (magnitude ⟨if negative then UInt64.ofNat m + signBit else UInt64.ofNat m⟩).toNat = m := by
  rw [magnitude, isNegative_mk below]
  cases negative <;> simp [signBit] <;> omega

end Double

namespace Single

variable {negative : Bool} {m : Nat}

theorem isNegative_mk (below : m < 0x80000000) :
    isNegative ⟨if negative then UInt32.ofNat m + signBit else UInt32.ofNat m⟩ = negative := by
  cases negative <;> simp [isNegative, signBit, UInt32.le_iff_toNat_le] <;> omega

theorem toNat_magnitude_mk (below : m < 0x80000000) :
    (magnitude ⟨if negative then UInt32.ofNat m + signBit else UInt32.ofNat m⟩).toNat = m := by
  rw [magnitude, isNegative_mk below]
  cases negative <;> simp [signBit] <;> omega

theorem toNat_magnitude_lt (x : Single) : x.magnitude.toNat < 0x80000000 := by
  have size := x.bits.toNat_lt
  rw [magnitude, isNegative]
  split
  next negative =>
    have least : signBit ≤ x.bits := of_decide_eq_true negative
    rw [UInt32.toNat_sub_of_le _ _ least]
    simp only [signBit, UInt32.reduceToNat]
    omega
  next positive =>
    have most := of_decide_eq_false (Bool.not_eq_true _ ▸ positive)
    simp only [signBit, UInt32.le_iff_toNat_le, UInt32.reduceToNat] at most
    omega

/-- Numbers and infinities come back as they were. The cases are those of the exponent: the greatest one, none, and the
ones between. -/
theorem narrowMagnitude_widenMagnitude (number : m ≤ 0x7f800000) :
    Double.narrowMagnitude (widenMagnitude m) = m := by
  have parts := Nat.div_add_mod m 0x800000
  have below := Nat.mod_lt m (show 0x800000 > 0 by decide)
  simp only [widenMagnitude]
  generalize m / 0x800000 = exponent at parts
  generalize m % 0x800000 = fraction at parts below
  split
  next infinite =>
    obtain rfl : fraction = 0 := by omega
    simp [Double.narrowMagnitude]
    omega
  next finite =>
    split
    next tiny =>
      split
      next zero =>
        simp [Double.narrowMagnitude]
        omega
      next positive =>
        have few : fraction.log2 < 23 := by
          rw [Nat.log2_lt positive]
          omega
        simp only [Nat.one_shiftLeft]
        rw [Double.narrowMagnitude_of_subnormal few (Nat.log2_self_le positive) Nat.lt_log2_self]
        omega
    next normal =>
      rw [Double.narrowMagnitude_of_normal (by omega) (by omega) below]
      omega

theorem widenMagnitude_of_nan (nan : 0x7f800000 < m) (below : m < 0x80000000) :
    widenMagnitude m = 0x7ff8000000000000 + m % 0x400000 * 0x20000000 := by
  have front : m / 0x800000 = 255 := by omega
  simp only [widenMagnitude, front, if_true]
  rw [if_neg (by omega)]
  omega

theorem widenMagnitude_lt (below : m < 0x80000000) : widenMagnitude m < 0x8000000000000000 := by
  have front : m / 0x800000 ≤ 255 := by omega
  have back := Nat.mod_lt m (show 0x800000 > 0 by decide)
  simp only [widenMagnitude]
  generalize m / 0x800000 = exponent at front
  generalize m % 0x800000 = fraction at back
  split
  · split <;> omega
  · split
    · split
      next => decide
      next positive =>
        have few : fraction.log2 < 23 := by
          rw [Nat.log2_lt positive]
          omega
        have rest := Double.fraction_lt few Nat.lt_log2_self
        simp only [Nat.one_shiftLeft]
        omega
    · omega

theorem narrowMagnitude_widenMagnitude_lt (below : m < 0x80000000) :
    Double.narrowMagnitude (widenMagnitude m) < 0x80000000 := by
  rcases Nat.lt_or_ge 0x7f800000 m with nan | number
  · rw [widenMagnitude_of_nan nan below, Double.narrowMagnitude_of_nan (by omega)]
    omega
  · rwa [narrowMagnitude_widenMagnitude number]

/-- What a NaN loses is its signal, which it loses at once. -/
theorem widenMagnitude_narrowMagnitude_widenMagnitude (below : m < 0x80000000) :
    widenMagnitude (Double.narrowMagnitude (widenMagnitude m)) = widenMagnitude m := by
  rcases Nat.lt_or_ge 0x7f800000 m with nan | number
  · rw [widenMagnitude_of_nan nan below, Double.narrowMagnitude_of_nan (by omega), widenMagnitude_of_nan (by omega)
      (by omega)]
    omega
  · rw [narrowMagnitude_widenMagnitude number]

/-- A single that was read as a double is the same double when it is read again. -/
theorem widen_narrow_widen (x : Single) : x.widen.narrow.widen = x.widen := by
  have below := x.toNat_magnitude_lt
  have narrowed := narrowMagnitude_widenMagnitude_lt below
  have widened := widenMagnitude_lt below
  have sign : x.widen.narrow.isNegative = x.isNegative := by
    rw [Double.narrow, widen, Double.toNat_magnitude_mk widened, isNegative_mk narrowed, Double.isNegative_mk widened]
  have magnitude : x.widen.narrow.magnitude.toNat = Double.narrowMagnitude (widenMagnitude x.magnitude.toNat) := by
    rw [Double.narrow, widen, Double.toNat_magnitude_mk widened, toNat_magnitude_mk narrowed]
  rw [widen, sign, magnitude, widenMagnitude_narrowMagnitude_widenMagnitude below, widen]

end Single

end ArrayCall
