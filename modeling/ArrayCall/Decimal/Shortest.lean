/-!
# Shortest decimals

Of all decimals that read back to a given double, `shortest` gives one with the
fewest digits, and among those the nearest.

A finite double is `m * 2 ^ q`. In units of `10 ^ -unitPlaces` every finite double,
and every midpoint between two neighbours, is a whole number, so the decimals
that round to the double are found by comparing natural numbers.
-/

namespace ArrayCall

/-- The decimal `digits * 10 ^ exponent`. -/
structure Decimal where
  digits : Nat
  exponent : Int
  deriving DecidableEq, Inhabited

namespace Decimal

/-- Decimal places after which every finite double, and every midpoint between
two of them, has ended. -/
def unitPlaces : Nat := 1100

/-- The numbers that round to one double, in units of `10 ^ -unitPlaces`: the
double itself, and the ends of the range around it. -/
structure Rounding where
  value : Nat
  low : Nat
  high : Nat
  /-- Whether the ends themselves round to the double. -/
  closed : Bool

/-- The number `n * 2 ^ (e - 1076)` in units of `10 ^ -unitPlaces`. A quarter of
the gap between the least doubles is `2 ^ -1076`. -/
def inUnits (n e : Nat) : Nat :=
  ((n <<< e) * Nat.pow 10 unitPlaces) >>> 1076

/-- The number of doubles with one exponent, which their 52 bits of fraction tell apart. -/
def fractionCount : Nat := 4503599627370496

/-- The numbers that round to the positive double of the given bits, which hold
eleven bits of exponent over 52 bits of fraction. The range ends half a gap above
and half a gap below, and the gap below a power of two is half the gap above. -/
def Rounding.ofBits (bits : Nat) : Rounding :=
  let exponent := bits / fractionCount % 2048
  let fraction := bits % fractionCount
  let m := if exponent = 0 then fraction else fractionCount + fraction
  let below := if fraction = 0 ∧ 1 < exponent then 1 else 2
  { value := inUnits (4 * m) (exponent - 1)
    low := inUnits (4 * m - below) (exponent - 1)
    high := inUnits (4 * m + 2) (exponent - 1)
    closed := m % 2 = 0 }

def Rounding.contains (r : Rounding) (n : Nat) : Bool :=
  if r.closed then r.low ≤ n && n ≤ r.high else r.low < n && n < r.high

/-- The multiple of `step` that rounds to the double and is nearest to it, as a
count of steps. Of two that are equally near, the even count is taken. -/
def Rounding.onGrid? (r : Rounding) (step : Nat) : Option Nat :=
  let count := r.value / step
  let below := count * step
  let above := (count + 1) * step
  match r.contains below, r.contains above with
  | false, false => none
  | true, false => some count
  | false, true => some (count + 1)
  | true, true =>
    let down := r.value - below
    let up := above - r.value
    if down < up then some count
    else if up < down then some (count + 1)
    else some (if count % 2 = 0 then count else count + 1)

def digitCount (n : Nat) : Nat := (Nat.toDigits 10 n).length

/-- The same decimal without zeros at the end of its digits. Every round takes
one zero off, so as many rounds as there are digits are enough. -/
def trimZeros (d : Decimal) : Decimal :=
  (List.range (digitCount d.digits)).foldl
    (fun d _ =>
      if d.digits ≠ 0 ∧ d.digits % 10 = 0 then ⟨d.digits / 10, d.exponent + 1⟩ else d)
    d

/-- The shortest decimal that reads back to the positive double of the given
bits. Seventeen digits are always enough. -/
def shortest (bits : Nat) : Decimal :=
  let r := Rounding.ofBits bits
  let places := digitCount r.value
  let found := (List.range 17).findSome? fun i =>
    let place := places - 1 - i
    (r.onGrid? (Nat.pow 10 place)).map fun count => (⟨count, (place : Int) - unitPlaces⟩ : Decimal)
  trimZeros (found.getD ⟨r.value, -unitPlaces⟩)

end Decimal

end ArrayCall
