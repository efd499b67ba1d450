import ArrayCall.FloatingPoint
import ArrayCall.Kind

/-!
# Element values

A `Scalar` is the value of one element, read out of memory or given by a caller.
In memory an element is a row of bytes, the least significant first.

* `Scalar.cast` converts a value to a kind: integers keep their low bits, a floating
  number is truncated toward zero and held at the nearest end of the range (NaN
  becomes zero), and rounding to a floating kind goes to the nearest.
* `Scalar.encode` and `Kind.decode` are the writing and the reading of one element. A
  single is read as the double that it is.
-/

namespace ArrayCall

abbrev Bytes := List UInt8

/-- The value of an element. -/
inductive Scalar where
  | bool (b : Bool)
  | int (n : Int64)
  | uint (n : UInt64)
  | float (x : Double)
  deriving DecidableEq, Inhabited

/-! ## Bytes of natural numbers -/

/-- The low `n` bytes of a number, least significant first. -/
def littleEndian : (n : Nat) → Nat → Bytes
  | 0, _ => []
  | n + 1, v => UInt8.ofNat v :: littleEndian n (v / 256)

/-- The number that bytes denote, least significant first. -/
def ofLittleEndian : Bytes → Nat
  | [] => 0
  | b :: rest => b.toNat + 256 * ofLittleEndian rest

/-! ## Conversion -/

namespace Scalar

/-- The integer that a truth value or an integer stands for. -/
def toInt? : Scalar → Option Int
  | bool b => some (if b then 1 else 0)
  | int n => some n.toInt
  | uint n => some n.toNat
  | float _ => none

def isTrue : Scalar → Bool
  | bool b => b
  | int n => n ≠ 0
  | uint n => n ≠ 0
  | float x => x.toFloat != 0

/-- The nearest double. -/
def toDouble : Scalar → Double
  | bool b => .ofFloat (if b then 1 else 0)
  | int n => .ofFloat n.toFloat
  | uint n => .ofFloat n.toFloat
  | float x => x

/-- The nearest single, rounded only once. -/
def toSingle : Scalar → Single
  | bool b => .ofFloat32 (if b then 1 else 0)
  | int n => .ofFloat32 n.toFloat32
  | uint n => .ofFloat32 n.toFloat32
  | float x => x.narrow

end Scalar

namespace Kind

/-- The value of an integer kind that is congruent to `n` modulo the kind's range. -/
def wrap (k : Kind) (n : Int) : Int :=
  match k with
  | int w => n.bmod w.count
  | uint w => n % w.count
  | _ => n

/-- The element of an integer kind that an integer becomes. -/
def ofInt (k : Kind) (n : Int) : Scalar :=
  match k with
  | uint _ => .uint (UInt64.ofNat (k.wrap n).toNat)
  | _ => .int (Int64.ofInt (k.wrap n))

end Kind

/-- The integer that a floating number becomes in a signed width: truncated, and
held between the least and the greatest value. -/
def Width.clampSigned (w : Width) (x : Float) : Int :=
  max (-(w.half : Int)) (min (w.half - 1 : Int) x.toInt64.toInt)

/-- The integer that a floating number becomes in an unsigned width. -/
def Width.clampUnsigned (w : Width) (x : Float) : Int :=
  min (w.count - 1 : Int) (x.toUInt64.toNat : Int)

def Scalar.cast (k : Kind) (s : Scalar) : Scalar :=
  match k with
  | .bool => .bool s.isTrue
  | .int w =>
    match s with
    | .float x => k.ofInt (w.clampSigned x.toFloat)
    | s => k.ofInt (s.toInt?.getD 0)
  | .uint w =>
    match s with
    | .float x => k.ofInt (w.clampUnsigned x.toFloat)
    | s => k.ofInt (s.toInt?.getD 0)
  | .float32 => .float s.toSingle.widen
  | .float64 => .float s.toDouble

/-! ## Elements in memory -/

def Double.toBytes (x : Double) : Bytes := littleEndian 8 x.bits.toNat

def Double.ofBytes (bytes : Bytes) : Double := ⟨(ofLittleEndian bytes).toUInt64⟩

def Single.toBytes (x : Single) : Bytes := littleEndian 4 x.bits.toNat

def Single.ofBytes (bytes : Bytes) : Single := ⟨(ofLittleEndian bytes).toUInt32⟩

/-- The bit pattern of a value as an element of a kind. -/
def Scalar.pattern (k : Kind) (s : Scalar) : Nat :=
  match k with
  | .bool => if s.isTrue then 1 else 0
  | .int w => (((s.cast k).toInt?.getD 0) % (w.count : Int)).toNat
  | .uint w => (((s.cast k).toInt?.getD 0) % (w.count : Int)).toNat
  | .float32 => s.toSingle.bits.toNat
  | .float64 => s.toDouble.bits.toNat

def Scalar.encode (k : Kind) (s : Scalar) : Bytes := littleEndian k.size (s.pattern k)

def Kind.decode (k : Kind) (bytes : Bytes) : Scalar :=
  let n := ofLittleEndian bytes
  match k with
  | .bool => .bool (bytes.headD 0 ≠ 0)
  | .int _ => k.ofInt n
  | .uint _ => k.ofInt n
  | .float32 => .float (Single.ofBytes bytes).widen
  | .float64 => .float (Double.ofBytes bytes)

theorem length_littleEndian (n v : Nat) : (littleEndian n v).length = n := by
  induction n generalizing v with
  | zero => rfl
  | succ n ih => simp [littleEndian, ih]

theorem length_encode (k : Kind) (s : Scalar) : (s.encode k).length = k.size :=
  length_littleEndian _ _

end ArrayCall
