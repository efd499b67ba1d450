import ArrayCall.Decimal.Shortest
import ArrayCall.Width

/-!
# Floating point numbers as text

A double is written with its shortest digits. `Notation` holds the decisions that
digits leave open: where positional notation ends and how an exponent looks.
-/

namespace ArrayCall.Decimal

/-- How a decimal is laid out. `point` is the number of digits in front of the
decimal point, which is negative or zero for numbers below one. -/
structure Notation where
  /-- Positional notation is used from this `point` up. -/
  leastPoint : Int
  /-- Positional notation is used up to this `point`. -/
  greatestPoint : Int
  /-- What stands in front of an exponent that is not negative. -/
  positiveExponent : String

/-- Numbers in JSON text are positional from 0.00001 up to below 10 ^ 16 and carry
a sign on every exponent. -/
def jsonNotation : Notation := ⟨-4, 16, "+"⟩

def zeros (n : Nat) : String := String.ofList (List.replicate n '0')

/-- Lays out a positive decimal. A positional number always has a point with a
digit behind it. -/
def Notation.layout (style : Notation) (d : Decimal) : String :=
  let digits := toString d.digits
  let length := digits.length
  let point : Int := length + d.exponent
  if style.leastPoint ≤ point ∧ point ≤ style.greatestPoint then
    if point ≤ 0 then "0." ++ zeros (-point).toNat ++ digits
    else if (length : Int) ≤ point then digits ++ zeros (point - length).toNat ++ ".0"
    else
      let front := point.toNat
      String.ofList (digits.toList.take front) ++ "." ++ String.ofList (digits.toList.drop front)
  else
    let mantissa :=
      match digits.toList with
      | first :: second :: rest =>
        String.ofList [first] ++ "." ++ String.ofList (second :: rest)
      | short => String.ofList short
    let exponent := point - 1
    mantissa ++ "e" ++ (if exponent < 0 then "" else style.positiveExponent) ++ toString exponent

def Notation.render (style : Notation) (x : Float) : String :=
  let bits := x.toBits.toNat
  let sign := if bits / Width.w64.half = 1 then "-" else ""
  let magnitude := bits % Width.w64.half
  if magnitude = 0 then sign ++ "0.0" else sign ++ style.layout (shortest magnitude)

end ArrayCall.Decimal
