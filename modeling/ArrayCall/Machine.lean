import ArrayCall.Error.Basic
import ArrayCall.Width

/-!
# Machine words

Sizes are words of 64 bits, strides and offsets signed words of as many. Arithmetic on
them is checked: a result that does not fit its word ends the program
(`CallError.overflow`). A size that is read as a signed word is not checked, and from
`2 ^ 63` on it is a negative one.

Addresses are exact, for what they are computed from was checked when an array was
built. Memory has no bound but that no allocation is larger than a signed word.
-/

namespace ArrayCall.Machine

/-- The greatest signed word. -/
def most : Nat := Width.w64.half - 1

/-- A size, if it fits a word. -/
def size (n : Nat) : Except CallError Nat :=
  if n < Width.w64.count then .ok n else .error .overflow

/-- A distance, if it fits a signed word. -/
def signed (z : Int) : Except CallError Int :=
  if -Width.w64.half ≤ z ∧ z < Width.w64.half then .ok z else .error .overflow

/-- A word, read as the signed word of the same bits. -/
def asSigned (word : Nat) : Int := if word ≤ most then word else word - Width.w64.count

/-- How many numbers there are from zero up to a word that is read as a signed one. -/
def rounds (count : Nat) : Nat := (asSigned count).toNat

/-- The product of sizes, multiplied from the first to the last. -/
def product (sizes : List Nat) : Except CallError Nat :=
  sizes.foldlM (fun n m => size (n * m)) 1

/-- Refuses an allocation of so many items of a size that is larger than a signed word. -/
def allocate (count bytes : Nat) : Except CallError Unit :=
  if count * bytes ≤ most then .ok () else .error .overflow

end ArrayCall.Machine
