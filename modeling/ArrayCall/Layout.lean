import ArrayCall.Machine

/-!
# Layouts

The layout of an argument is its type and one stride, in bytes, for each of its
dimensions. Strides may be zero or negative.

* `Layout.contiguous` is the layout in which elements stand side by side, the last
  dimension varying fastest.
* `Layout.inner?` is the layout of what the outer dimensions hold.
* `Layout.offsets` lists where the elements are, the last index running fastest.
-/

namespace ArrayCall

/-- The type of an argument and the distance, in bytes, from one index to the next in
each dimension. -/
structure Layout where
  ty : Ty
  strides : List Int
  deriving DecidableEq, Inhabited

/-- Bytes that a concrete type occupies when its elements stand side by side. No other
type has a size. -/
def Ty.dataSize? : Ty → Except CallError (Option Nat)
  | .void => .ok (some 0)
  | .scalar kind => .ok (some kind.size)
  | .fixedDim size elem => do
    match ← elem.dataSize? with
    | some bytes => return some (← Machine.size (bytes * size))
    | none => return none
  | _ => .ok none

/-- Bytes of one element of a type; none for a type without elements. -/
def Ty.elementSize (t : Ty) : Nat :=
  match (t.stripDims t.shape.length).map Ty.dataSize? with
  | some (.ok (some bytes)) => bytes
  | _ => 0

namespace Layout

/-- The strides of a shape whose elements, of `size` bytes, stand side by side, found
from the last dimension to the first, and the bytes that all dimensions span. -/
def accumulate (size : Nat) : (shape : List Nat) → Except CallError (List Int × Int)
  | [] => .ok ([], size)
  | n :: shape => do
    let (strides, span) ← accumulate size shape
    return (span :: strides, ← Machine.signed (span * Machine.asSigned n))

/-- The layout of a type whose elements stand side by side. -/
def contiguous (t : Ty) : Except CallError Layout := do
  return ⟨t, (← accumulate t.elementSize t.shape).1⟩

/-- The layout behind the outer `n` dimensions, if there are so many dimensions and
strides. -/
def inner? (l : Layout) (n : Nat) : Option Layout :=
  match l.ty.stripDims n with
  | some t => if n ≤ l.strides.length then some ⟨t, l.strides.drop n⟩ else none
  | none => none

/-- The distance, in bytes, of the element at an index from the first one. -/
def displacement : (index : List Nat) → (strides : List Int) → Int
  | i :: index, s :: strides => i * s + displacement index strides
  | _, _ => 0

/-- Moves an index of a shape on. A number that comes to its size starts again from
zero, and moves the number in front of it on. Says first whether all have started
again. -/
def turn : (shape index : List Nat) → Bool × List Nat
  | n :: shape, i :: index =>
    match turn shape index with
    | (true, index) => if i + 1 < n then (false, (i + 1) :: index) else (true, 0 :: index)
    | (false, index) => (false, i :: index)
  | _, _ => (true, [])

/-- An index of a shape and those that it is moved on to, so many in all. -/
def turns (shape : List Nat) : (count : Nat) → (index : List Nat) → List (List Nat)
  | 0, _ => []
  | count + 1, index => index :: turns shape count (turn shape index).2

/-- Where the elements of a shape are, the last index running fastest. The list of them
takes a word for each. -/
def offsets (start : Int) (shape : List Nat) (strides : List Int) :
    Except CallError (List Int) := do
  let total ← Machine.product shape
  Machine.allocate total 8
  return (turns shape total (List.replicate shape.length 0)).map fun index =>
    start + displacement index strides

end Layout

end ArrayCall
