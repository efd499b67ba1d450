import ArrayCall.Scalar

/-!
# Buffers

A buffer is the bytes of an array or of a region of memory, in one piece. `toList` is
what it holds.

* `Buffer.slice` reads some of the bytes.
* `Buffer.overwrite` replaces as many bytes as it is given and keeps the size
  (`Buffer.size_overwrite`, `Buffer.toList_overwrite`).
-/

namespace ArrayCall

/-- Bytes in one piece. -/
structure Buffer where
  bytes : Array UInt8
  deriving DecidableEq, Inhabited

namespace Buffer

/-- The bytes in order. -/
def toList (b : Buffer) : Bytes := b.bytes.toList

def ofList (bytes : Bytes) : Buffer := ⟨bytes.toArray⟩

def size (b : Buffer) : Nat := b.bytes.size

def zeros (size : Nat) : Buffer := ⟨Array.replicate size 0⟩

/-- The bytes from `start` on, `length` of them if there are so many. -/
def slice (b : Buffer) (start length : Nat) : Bytes :=
  (b.bytes.extract start (start + length)).toList

/-- The buffer with bytes replaced from `start` on. Bytes behind the end are dropped. -/
def overwrite (b : Buffer) (start : Nat) : Bytes → Buffer
  | [] => b
  | x :: xs => overwrite ⟨b.bytes.setIfInBounds start x⟩ (start + 1) xs

/-- The buffer with zeros behind its bytes, up to a size. -/
def grow (b : Buffer) (size : Nat) : Buffer :=
  ⟨b.bytes ++ Array.replicate (size - b.bytes.size) 0⟩

@[simp] theorem length_toList (b : Buffer) : b.toList.length = b.size := rfl

@[simp] theorem toList_ofList (bytes : Bytes) : (ofList bytes).toList = bytes := rfl

@[simp] theorem ofList_toList (b : Buffer) : ofList b.toList = b := rfl

/-- Buffers that hold the same bytes are equal. -/
theorem ext_toList {a b : Buffer} (h : a.toList = b.toList) : a = b := by
  rw [← ofList_toList a, h, ofList_toList]

@[simp] theorem size_ofList (bytes : Bytes) : (ofList bytes).size = bytes.length := rfl

@[simp] theorem size_zeros (size : Nat) : (zeros size).size = size := Array.size_replicate

theorem toList_zeros (size : Nat) : (zeros size).toList = List.replicate size 0 :=
  Array.toList_replicate

theorem slice_eq (b : Buffer) (start length : Nat) :
    b.slice start length = (b.toList.drop start).take length := by
  simp [slice, toList, Array.toList_extract, List.extract_eq_take_drop]

@[simp] theorem size_overwrite (b : Buffer) (start : Nat) (new : Bytes) :
    (b.overwrite start new).size = b.size := by
  induction new generalizing b start with
  | nil => rfl
  | cons x xs ih => rw [overwrite, ih, size, Array.size_setIfInBounds, size]

theorem toList_overwrite {b : Buffer} {start : Nat} {new : Bytes}
    (fits : start + new.length ≤ b.size) :
    (b.overwrite start new).toList =
      b.toList.take start ++ new ++ b.toList.drop (start + new.length) := by
  induction new generalizing b start with
  | nil => simp [overwrite]
  | cons x xs ih =>
    simp only [List.length_cons] at fits
    rw [overwrite, ih (by simp only [size, Array.size_setIfInBounds]; simp only [size] at fits; omega)]
    have inside : start < b.bytes.toList.length := by
      simp only [size] at fits
      simp only [Array.length_toList]
      omega
    simp only [toList, Array.toList_setIfInBounds, List.length_cons]
    rw [List.take_succ_eq_append_getElem (by simpa using inside)]
    have behind : start < start + (xs.length + 1) := by omega
    simp [List.take_set_of_le, List.drop_set_of_lt behind, Nat.add_assoc, Nat.add_comm 1]

theorem size_grow (b : Buffer) (size : Nat) : (b.grow size).size = max b.size size := by
  simp only [grow, Buffer.size, Array.size_append, Array.size_replicate]
  omega

end Buffer

end ArrayCall
