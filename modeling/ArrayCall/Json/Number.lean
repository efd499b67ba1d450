import ArrayCall.Json.Basic
import ArrayCall.Width

/-!
# Numbers of JSON texts

A number is digits, optionally a fraction and optionally an exponent. Digits are
gathered in 64 bits: once a digit of the integer part has no room, it and those
behind it only raise the exponent, and once a digit of the fraction has no room, it
and those behind it are dropped. The double is the gathered digits times or divided
by a power of ten, each step rounded.
-/

namespace ArrayCall.Json.Number

/-- The digits gathered so far, read as `digits * 10 ^ exponent`. -/
structure Gathered where
  digits : Nat
  exponent : Int
  /-- Whether a digit of the part being read has had no room. -/
  full : Bool

def digitsLimit : Nat := Width.w64.count

/-- The least exponent that is too large to be written out. -/
def exponentLimit : Nat := Width.w32.half

def digit? (c : Char) : Option Nat :=
  if '0' ≤ c && c ≤ '9' then some (c.toNat - '0'.toNat) else none

def spanDigits : List Char → List Nat × List Char
  | [] => ([], [])
  | c :: rest =>
    match digit? c with
    | some d => ((d :: (spanDigits rest).1), (spanDigits rest).2)
    | none => ([], c :: rest)

def Gathered.pushInteger (g : Gathered) (d : Nat) : Gathered :=
  if g.full || digitsLimit ≤ 10 * g.digits + d then
    { g with exponent := g.exponent + 1, full := true }
  else { g with digits := 10 * g.digits + d }

def Gathered.pushFraction (g : Gathered) (d : Nat) : Gathered :=
  if g.full || digitsLimit ≤ 10 * g.digits + d then { g with full := true }
  else { g with digits := 10 * g.digits + d, exponent := g.exponent - 1 }

/-- The double nearest to a power of ten. -/
def powerOfTen (n : Nat) : Float := Float.ofScientific 1 false n

/-- The greatest power of ten that doubles are multiplied or divided by. -/
def greatestPower : Nat := 308

/-- Divides by `10 ^ n`, by the greatest power as long as `n` exceeds it. -/
def divideByPower (x : Float) (n : Nat) : Float :=
  if n ≤ greatestPower then x / powerOfTen n
  else divideByPower (x / powerOfTen greatestPower) (n - greatestPower)
  termination_by n
  decreasing_by simp only [greatestPower] at *; omega

/-- The double that `digits * 10 ^ exponent` is read as, unless it is too large. -/
def toFloat? (digits : Nat) (exponent : Int) : Option Float :=
  let x := digits.toUInt64.toFloat
  if digits = 0 then some 0
  else
    match exponent with
    | .ofNat n =>
      if n ≤ greatestPower then
        let y := x * powerOfTen n
        if y.isInf then none else some y
      else none
    | .negSucc n =>
      -- Beyond this the quotient has long become zero.
      some (divideByPower x (min (n + 1) 2000))

/-- The value of exponent digits, unless it is too large to be written out. -/
def exponentValue? (digits : List Nat) : Option Nat :=
  let n := digits.foldl (fun n d => 10 * n + d) 0
  if n < exponentLimit then some n else none

def signed (negative : Bool) (x : Float) : Json := .float (if negative then -x else x)

/-- Reads what may follow an `e`: the number with its exponent, and the rest. -/
def readExponent (negative : Bool) (g : Gathered) (cs : List Char) : Option (Json × List Char) :=
  let (down, cs) :=
    match cs with
    | '+' :: rest => (false, rest)
    | '-' :: rest => (true, rest)
    | _ => (false, cs)
  match spanDigits cs with
  | ([], _) => none
  | (digits, rest) =>
    let value :=
      match exponentValue? digits with
      | some n => toFloat? g.digits (if down then g.exponent - n else g.exponent + n)
      | none => if g.digits ≠ 0 ∧ !down then none else some 0
    value.map fun x => (signed negative x, rest)

/-- Reads what may follow the integer part and the fraction. -/
def readTail (negative : Bool) (g : Gathered) : List Char → Option (Json × List Char)
  | 'e' :: rest => readExponent negative g rest
  | 'E' :: rest => readExponent negative g rest
  | rest => (toFloat? g.digits g.exponent).map fun x => (signed negative x, rest)

/-- The number that an integer part without fraction and exponent denotes. A
negative zero and integers of more than 64 bits are doubles. -/
def ofInteger (negative : Bool) (g : Gathered) (rest : List Char) : Option (Json × List Char) :=
  if g.full then readTail negative g rest
  else if !negative then some (.int g.digits, rest)
  else if g.digits = 0 ∨ Width.w64.half < g.digits then
    some (signed true g.digits.toUInt64.toFloat, rest)
  else some (.int (-g.digits), rest)

/-- Reads a number behind its sign. An integer part has no zero in front of other
digits, and a point has a digit behind it. -/
def readUnsigned (negative : Bool) (cs : List Char) : Option (Json × List Char) :=
  match spanDigits cs with
  | ([], _) => none
  | (0 :: _ :: _, _) => none
  | (whole, rest) =>
    let g := whole.foldl Gathered.pushInteger ⟨0, 0, false⟩
    match rest with
    | '.' :: rest =>
      match spanDigits rest with
      | ([], _) => none
      | (fraction, rest) =>
        readTail negative (fraction.foldl Gathered.pushFraction { g with full := false }) rest
    | 'e' :: _ => readTail negative g rest
    | 'E' :: _ => readTail negative g rest
    | _ => ofInteger negative g rest

def read : List Char → Option (Json × List Char)
  | '-' :: rest => readUnsigned true rest
  | cs => readUnsigned false cs

end ArrayCall.Json.Number
