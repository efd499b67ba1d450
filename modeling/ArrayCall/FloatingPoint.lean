/-!
# Floating point numbers by their bits

A `Double` and a `Single` are numbers of the two binary interchange formats, given by
their bits: the sign, the exponent and the fraction. All NaNs are kept apart.

* `Single.widen` is exact. `Double.narrow` rounds to the nearest single, of two
  equally near ones to the one whose last bit is zero.
* `Double.combine` and `Single.combine` compute with two numbers. A NaN among the
  operands is the result, the first one if there are two, and an operation without a
  value has `invalid` for its result.
-/

namespace ArrayCall

/-- A number with 11 bits of exponent and 52 bits of fraction. -/
structure Double where
  bits : UInt64
  deriving DecidableEq, Inhabited

/-- A number with 8 bits of exponent and 23 bits of fraction. -/
structure Single where
  bits : UInt32
  deriving DecidableEq, Inhabited

/-- The integer nearest to `m` divided by two `places` times, the even one of two. -/
def roundShift (m places : Nat) : Nat :=
  let whole := m >>> places
  let unit := 1 <<< places
  let rest := m - whole * unit
  if unit < 2 * rest ∨ unit = 2 * rest ∧ whole % 2 = 1 then whole + 1 else whole

namespace Double

def signBit : UInt64 := 0x8000000000000000

def infinityBits : UInt64 := 0x7ff0000000000000

/-- The bit that tells quiet NaNs from signalling ones. -/
def quietBit : UInt64 := 0x8000000000000

def toFloat (x : Double) : Float := Float.ofBits x.bits

def ofFloat (x : Float) : Double := ⟨x.toBits⟩

def isNegative (x : Double) : Bool := signBit ≤ x.bits

def magnitude (x : Double) : UInt64 := if x.isNegative then x.bits - signBit else x.bits

def isNaN (x : Double) : Bool := infinityBits < x.magnitude

/-- Whether this is a number other than the infinities. -/
def isFinite (x : Double) : Bool := x.magnitude < infinityBits

def quiet (x : Double) : Double := ⟨x.bits ||| quietBit⟩

def invalid : Double := ⟨0xfff8000000000000⟩

def negate (x : Double) : Double := ⟨x.bits ^^^ signBit⟩

def combine (op : Float → Float → Float) (x y : Double) : Double :=
  if x.isNaN then x.quiet
  else if y.isNaN then y.quiet
  else
    let z := ofFloat (op x.toFloat y.toFloat)
    if z.isNaN then invalid else z

end Double

namespace Single

def signBit : UInt32 := 0x80000000

def infinityBits : UInt32 := 0x7f800000

/-- The bit that tells quiet NaNs from signalling ones. -/
def quietBit : UInt32 := 0x400000

def toFloat32 (x : Single) : Float32 := Float32.ofBits x.bits

def ofFloat32 (x : Float32) : Single := ⟨x.toBits⟩

def isNegative (x : Single) : Bool := signBit ≤ x.bits

def magnitude (x : Single) : UInt32 := if x.isNegative then x.bits - signBit else x.bits

def isNaN (x : Single) : Bool := infinityBits < x.magnitude

def quiet (x : Single) : Single := ⟨x.bits ||| quietBit⟩

def invalid : Single := ⟨0xffc00000⟩

def negate (x : Single) : Single := ⟨x.bits ^^^ signBit⟩

def combine (op : Float32 → Float32 → Float32) (x y : Single) : Single :=
  if x.isNaN then x.quiet
  else if y.isNaN then y.quiet
  else
    let z := ofFloat32 (op x.toFloat32 y.toFloat32)
    if z.isNaN then invalid else z

/-! ## Conversion between the formats -/

/-- The magnitude of the double that a single of the given magnitude is. -/
def widenMagnitude (m : Nat) : Nat :=
  let exponent := m / 0x800000
  let fraction := m % 0x800000
  if exponent = 255 then
    -- An infinity has no fraction, and a NaN is made quiet.
    0x7ff0000000000000 + (if fraction = 0 then 0 else
      0x8000000000000 + fraction % 0x400000 * 0x20000000)
  else if exponent = 0 then
    if fraction = 0 then 0
    else
      let top := fraction.log2
      (top + 874) * 0x10000000000000 + (fraction - 1 <<< top) * 1 <<< (52 - top)
  else (exponent + 896) * 0x10000000000000 + fraction * 0x20000000

/-- The double that a single is. NaNs become quiet. -/
def widen (x : Single) : Double :=
  let magnitude := UInt64.ofNat (widenMagnitude x.magnitude.toNat)
  ⟨if x.isNegative then magnitude + Double.signBit else magnitude⟩

end Single

namespace Double

/-- The magnitude of the single that is nearest to a double of the given magnitude. -/
def narrowMagnitude (m : Nat) : Nat :=
  let exponent := m / 0x10000000000000
  let fraction := m % 0x10000000000000
  if exponent = 2047 then
    -- An infinity has no fraction, and a NaN is made quiet.
    0x7f800000 + (if fraction = 0 then 0 else 0x400000 + fraction / 0x20000000 % 0x400000)
  else if 897 ≤ exponent then
    -- A carry out of the fraction goes on to the exponent.
    min 0x7f800000 (roundShift (m - 896 * 0x10000000000000) 29)
  else if exponent = 0 then 0
  else roundShift (0x10000000000000 + fraction) (926 - exponent)

/-- The single that is nearest to a double. NaNs become quiet. -/
def narrow (x : Double) : Single :=
  let magnitude := UInt32.ofNat (narrowMagnitude x.magnitude.toNat)
  ⟨if x.isNegative then magnitude + Single.signBit else magnitude⟩

end Double

end ArrayCall
