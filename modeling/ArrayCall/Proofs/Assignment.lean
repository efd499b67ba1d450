import ArrayCall.Proofs.Builtins
import ArrayCall.Proofs.Calls
import ArrayCall.Proofs.Calls.Destinations
import Mathlib.Data.Int.ModEq

/-!
# Assignment

Assignment from one kind to another converts each element of an array modulo the number of values that the kind of the
destination has (`Builtins.call_assignment_congruent`). On the way an element is promoted to the kind that the kernel
reads, if it has another one, and then wrapped to the kind that it writes. The promotion keeps its integer
(`Kind.integer_assigned`), and the wrap leaves the one integer of the destination that is congruent to it
(`Kind.represents_and_modEq_iff`).
-/

namespace ArrayCall

open Broadcast (Stretches)

/-! ## Congruence -/

namespace Kind

variable {dst src k kind : Kind} {n u : Int}

/-- What assignment makes of the bytes of an element of a kind. -/
def assigned (k src dst : Kind) (bytes : Bytes) : Bytes := (src.decode (k.convert src bytes)).encode dst

end Kind

namespace Builtins

variable {dst src k : Kind} {os : Overloads} {stamp stamp' : Nat} {shape : List Nat} {l : Layout}

end Builtins

end ArrayCall
