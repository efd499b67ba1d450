import ArrayCall.Ty.Basic

/-!
# Broadcasting

Shapes of different rank are aligned at their last dimension. At each place all
sizes other than one must agree, and a size of one, like a dimension that is
missing, is stretched to that common size.
-/

namespace ArrayCall

/-- The first shape that does not fit those before it, with the size that disagrees
and the size it disagrees with. -/
structure BroadcastError where
  index : Nat
  size : Nat
  against : Nat
  deriving DecidableEq

namespace Broadcast

/-- The common size of two dimensions; the error is their sizes, the second first. -/
def joinSize (common size : Nat) : Except (Nat × Nat) Nat :=
  if common = 1 then .ok size
  else if size = 1 ∨ size = common then .ok common
  else .error (size, common)

def joinSizes : List Nat → List Nat → Except (Nat × Nat) (List Nat)
  | common :: commons, size :: sizes => do
    let joined ← joinSize common size
    return joined :: (← joinSizes commons sizes)
  | _, _ => .ok []

/-- A shape with as many dimensions of size one in front as `rank` asks for. -/
def pad (rank : Nat) (shape : List Nat) : List Nat :=
  List.replicate (rank - shape.length) 1 ++ shape

/-- The common shape of a shape so far and of more shapes, the first of which is
number `index`. -/
def joinFrom (rank index : Nat) (common : List Nat) :
    List (List Nat) → Except BroadcastError (List Nat)
  | [] => .ok common
  | shape :: rest =>
    match joinSizes common (pad rank shape) with
    | .ok joined => joinFrom rank (index + 1) joined rest
    | .error (size, against) => .error ⟨index, size, against⟩

def rank (shapes : List (List Nat)) : Nat := (shapes.map List.length).foldl max 0

end Broadcast

def broadcast (shapes : List (List Nat)) : Except BroadcastError (List Nat) :=
  let rank := Broadcast.rank shapes
  Broadcast.joinFrom rank 0 (List.replicate rank 1) shapes

end ArrayCall
