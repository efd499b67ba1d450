import ArrayCall.Layout
import ArrayCall.Memory

/-!
# Arrays

An array is a view of a buffer of bytes: a type, the byte that its first element
begins at, and a stride for each dimension.

* `NdArray.ofParts` accepts any view whose elements all lie inside the buffer.
* The other constructors build contiguous arrays: of zeros, of one element, of a
  list, of a list in a given shape, and of a type filled in order.
* `NdArray.get`, `NdArray.elements` and `NdArray.scalars` read elements; the
  elements are listed with the last index running fastest.
-/

namespace ArrayCall

/-- A typed, strided view of a buffer. -/
structure NdArray where
  ty : Ty
  data : Buffer
  offset : Nat
  strides : List Int
  deriving DecidableEq, Inhabited

namespace NdArray

def shape (a : NdArray) : List Nat := a.ty.shape

def layout (a : NdArray) : Layout := ⟨a.ty, a.strides⟩

def dtype? (a : NdArray) : Option Kind := a.ty.dtype.scalarKind?

/-! ## Building -/

def zeros (t : Ty) : Except CallError NdArray := do
  match t.isSymbolic, ← t.dataSize? with
  | false, some size =>
    Machine.allocate size 1
    return ⟨t, .zeros size, 0, (← Layout.contiguous t).strides⟩
  | _, _ => throw (.layout (.cannotAllocate t))

def scalar (k : Kind) (value : Scalar) : NdArray := ⟨.scalar k, .ofList (value.encode k), 0, []⟩

def ofList (k : Kind) (values : List Scalar) : NdArray :=
  ⟨.fixedDim values.length (.scalar k), .ofList (values.flatMap (·.encode k)), 0, [k.size]⟩

/-- The elements of a list in a shape that holds just as many. -/
def ofShape (k : Kind) (shape : List Nat) (values : List Scalar) : Except CallError NdArray := do
  let expected ← Machine.product shape
  if expected = values.length then
    let t := Ty.withShape shape (.scalar k)
    return ⟨t, .ofList (values.flatMap (·.encode k)), 0, (← Layout.contiguous t).strides⟩
  else throw (.layout (.shapeHolds shape expected values.length))

/-- Where the elements begin, the last index running fastest. -/
def offsets (a : NdArray) : Except CallError (List Int) :=
  Layout.offsets a.offset a.shape a.strides

/-- The array with values, converted to a kind, written in the places given. -/
def fill (a : NdArray) (k : Kind) (values : List (Int × Scalar)) : Except CallError NdArray :=
  match Memory.writeEach k 0 values ⟨[⟨.exclusive, a.data⟩], []⟩ with
  | (.ok (), m) => .ok { a with data := (m.regions[0]?.map Region.bytes).getD a.data }
  | (.error fault, _) => .error (.execution none fault)

/-- The elements of a contiguous array of the given type, in order. -/
def ofScalars (t : Ty) (values : List Scalar) : Except CallError NdArray := do
  let blank ← zeros t
  match blank.dtype? with
  | none => throw (.layout (.noScalarElement t))
  | some k =>
    let offsets ← blank.offsets
    if offsets.length = values.length then blank.fill k (offsets.zip values)
    else throw (.layout (.typeHolds t offsets.length values.length))

/-- The first byte that a view with the given dimensions reaches, and the end of the
last element that it reaches; the place of the view itself if it has no elements. -/
def extent (place first last : Int) : List (Nat × Int) → Except CallError (Int × Int)
  | [] => .ok (first, last)
  | (n, s) :: rest => do
    if n = 0 then return (place, place)
    let span ← Machine.signed ((← Machine.signed (Machine.asSigned n - 1)) * s)
    if span < 0 then extent place (← Machine.signed (first + span)) last rest
    else extent place first (← Machine.signed (last + span)) rest

/-- A view of a buffer. Every element that it reaches must lie inside the buffer; a
view without elements must begin inside it or at its end. -/
def ofParts (t : Ty) (data : Buffer) (offset : Nat) (strides : List Int) :
    Except CallError NdArray :=
  match t.shape?, t.isSymbolic with
  | some shape, false =>
    if shape.length ≠ strides.length then
      .error (.layout (.strideCount t shape.length strides.length))
    else do
      let place := Machine.asSigned offset
      let (first, last) ←
        extent place place (← Machine.signed (place + t.elementSize)) (shape.zip strides)
      if first < 0 ∨ data.size < last then
        throw (.layout (.exceedsBuffer t strides offset data.size))
      else return ⟨t, data, offset, strides⟩
  | _, _ => .error (.layout (.notConcrete t))

/-! ## Reading -/

/-- The element of a kind that begins at a byte of the buffer. -/
def element (a : NdArray) (k : Kind) (place : Int) : Except CallError Scalar :=
  if 0 ≤ place ∧ place.toNat + k.size ≤ a.data.size then
    .ok (k.decode (a.data.slice place.toNat k.size))
  else .error (.execution none (.outsideRegion k.size place 0 a.data.size))

/-- Refuses a kind other than that of the elements. -/
def checkKind (a : NdArray) (k : Kind) : Except CallError Unit :=
  if a.dtype? = some k then .ok () else .error (.layout (.wrongKind a.ty k))

def get (a : NdArray) (k : Kind) (index : List Nat) : Except CallError Scalar := do
  a.checkKind k
  if index.length = a.shape.length && (index.zip a.shape).all fun (i, n) => i < n then
    a.element k (a.offset + Layout.displacement index a.strides)
  else .error (.layout (.outOfBounds index a.shape))

/-- The elements of an array of the given kind, in order. -/
def elements (a : NdArray) (k : Kind) : Except CallError (List Scalar) := do
  a.checkKind k
  (← a.offsets).mapM (a.element k)

/-- The elements of an array of scalars, in order. -/
def scalars (a : NdArray) : Except CallError (List Scalar) :=
  match a.dtype? with
  | some k => do (← a.offsets).mapM (a.element k)
  | none => .error (.layout (.noScalarElement a.ty))

end NdArray

end ArrayCall
