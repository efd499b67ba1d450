import ArrayCall.Buffer
import ArrayCall.Error.Basic

/-!
# Memory of a run

The address space of one run: the buffers of the arguments, the buffer of the
destination, and scratch space that conversion nodes ask for. An address names a
region and a byte in it. Every access is checked against the bounds of its region,
and regions that are shared with the caller cannot be written.

* `Memory.read` and `Memory.write` move one element. The bounds are checked before a
  byte is written.
* `Memory.scratch` gives the same region for the same slot of the same node.
-/

namespace ArrayCall

/-- Who owns the bytes of a region. -/
inductive Access where
  /-- The caller's, to be read only. -/
  | shared
  /-- The caller's, lent for writing. -/
  | exclusive
  /-- The run's own. -/
  | owned
  deriving DecidableEq, Inhabited

/-- A row of bytes. -/
structure Region where
  access : Access
  bytes : Buffer
  deriving DecidableEq, Inhabited

/-- A byte of a region. -/
structure Addr where
  region : Nat
  offset : Int
  deriving DecidableEq, Inhabited

def Addr.advance (a : Addr) (delta : Int) : Addr := { a with offset := a.offset + delta }

/-- Regions, numbered in the order in which they were added, and the numbers of
those that serve a slot of a node as scratch. -/
structure Memory where
  regions : List Region
  slots : List ((Nat × Nat) × Nat)
  deriving DecidableEq, Inhabited

namespace Memory

def empty : Memory := ⟨[], []⟩

def add (m : Memory) (access : Access) (bytes : Buffer) : Nat × Memory :=
  (m.regions.length, { m with regions := m.regions ++ [⟨access, bytes⟩] })

/-- The scratch region of a slot of a node, at least `length` bytes long. It is added
when it is first asked for, and grows when more is asked for. -/
def scratch (m : Memory) (node slot length : Nat) : Nat × Memory :=
  match m.slots.find? (·.1 == (node, slot)) with
  | some (_, region) =>
    let enlarge (r : Region) : Region :=
      if r.access = .owned then { r with bytes := r.bytes.grow length } else r
    (region, { m with regions := m.regions.modify region enlarge })
  | none =>
    let (region, m) := m.add .owned (.zeros length)
    (region, { m with slots := m.slots ++ [((node, slot), region)] })

/-- The region of an address and the place in it, if so many bytes from there on lie
inside. -/
def locate (m : Memory) (a : Addr) (length : Nat) : Except ExecutionFault (Region × Nat) :=
  match m.regions[a.region]? with
  | none => .error (.noRegion a.region)
  | some r =>
    if 0 ≤ a.offset ∧ a.offset.toNat + length ≤ r.bytes.size then .ok (r, a.offset.toNat)
    else .error (.outsideRegion length a.offset a.region r.bytes.size)

def readBytes (m : Memory) (a : Addr) (length : Nat) : Except ExecutionFault Bytes := do
  let (r, start) ← m.locate a length
  return r.bytes.slice start length

/-- Whether so many bytes may be written from an address on; the error says why not. -/
def checkWrite (m : Memory) (a : Addr) (length : Nat) : Except ExecutionFault Unit := do
  let (r, _) ← m.locate a length
  if r.access = .shared then .error (.readOnly a.region) else .ok ()

/-- The memory with the bytes from an address on replaced. Only for a write that was
checked. -/
def put (m : Memory) (a : Addr) (new : Bytes) : Memory :=
  let replace (r : Region) : Region := { r with bytes := r.bytes.overwrite a.offset.toNat new }
  { m with regions := m.regions.modify a.region replace }

/-- Writes bytes from an address on, if they may be written. -/
def writeBytes (m : Memory) (a : Addr) (new : Bytes) : Except ExecutionFault Unit × Memory :=
  match m.checkWrite a new.length with
  | .ok () => (.ok (), m.put a new)
  | .error fault => (.error fault, m)

def read (m : Memory) (k : Kind) (a : Addr) : Except ExecutionFault Scalar :=
  (m.readBytes a k.size).map k.decode

/-- Writes a value, converted to a kind. -/
def write (m : Memory) (k : Kind) (a : Addr) (value : Scalar) :
    Except ExecutionFault Unit × Memory :=
  m.writeBytes a (value.encode k)

/-- Writes values in places of a region, one after the other until one cannot be
written. -/
def writeEach (k : Kind) (region : Nat) :
    (values : List (Int × Scalar)) → Memory → Except ExecutionFault Unit × Memory
  | [], m => (.ok (), m)
  | (place, value) :: values, m =>
    match m.write k ⟨region, place⟩ value with
    | (.ok (), m) => writeEach k region values m
    | failed => failed

end Memory

end ArrayCall
