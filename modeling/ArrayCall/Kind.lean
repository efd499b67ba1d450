import ArrayCall.Width

/-!
# Element kinds

The fixed-size element types that arrays hold: booleans, signed and unsigned
integers of four widths, and two floating formats.

* `Kind.all` and `Kind.numeric` fix the two orders that other modules rely on:
  declaration order, and the narrowest-first order in which arithmetic is
  registered.
* `Kind.canPromoteTo` says when every value of one kind is a value of another.
-/

namespace ArrayCall

/-- The kind of an array element. -/
inductive Kind where
  | bool
  | int (w : Width)
  | uint (w : Width)
  | float32
  | float64
  deriving DecidableEq, Inhabited

namespace Kind

/-- Every kind, in declaration order. -/
def all : List Kind :=
  [bool, int .w8, int .w16, int .w32, int .w64,
    uint .w8, uint .w16, uint .w32, uint .w64, float32, float64]

/-- Every kind that arithmetic is defined for, narrowest first. Promotion takes
the first entry that fits, so this order is also the tie-break between kinds
that two arguments have in common. -/
def numeric : List Kind :=
  [int .w8, uint .w8, int .w16, uint .w16, int .w32, uint .w32,
    int .w64, uint .w64, float32, float64]

def name : Kind → String
  | bool => "bool"
  | int .w8 => "int8"
  | int .w16 => "int16"
  | int .w32 => "int32"
  | int .w64 => "int64"
  | uint .w8 => "uint8"
  | uint .w16 => "uint16"
  | uint .w32 => "uint32"
  | uint .w64 => "uint64"
  | float32 => "float32"
  | float64 => "float64"

/-- The kind that a name stands for, if it is a kind's name. -/
def ofName? (s : String) : Option Kind :=
  all.find? (·.name == s)

def size : Kind → Nat
  | bool => 1
  | int w => w.bytes
  | uint w => w.bytes
  | float32 => 4
  | float64 => 8

def isSigned : Kind → Bool
  | int _ => true
  | _ => false

def isUnsigned : Kind → Bool
  | uint _ => true
  | _ => false

def isFloat : Kind → Bool
  | float32 => true
  | float64 => true
  | _ => false

/-- Whether every value of the first kind is exactly a value of the second.
A float32 carries 24 bits of precision and a float64 carries 53, so they hold
every integer of at most 16 and 32 bits. -/
def canPromoteTo : Kind → Kind → Bool
  | bool, _ => true
  | int a, int b => a.bits ≤ b.bits
  | uint a, int b => a.bits < b.bits
  | uint a, uint b => a.bits ≤ b.bits
  | int a, float32 => a.bits ≤ 16
  | uint a, float32 => a.bits ≤ 16
  | int a, float64 => a.bits ≤ 32
  | uint a, float64 => a.bits ≤ 32
  | float32, float32 => true
  | float32, float64 => true
  | float64, float64 => true
  | _, _ => false

theorem mem_all (k : Kind) : k ∈ all := by
  cases k with
  | int w => cases w <;> decide
  | uint w => cases w <;> decide
  | _ => decide

theorem ofName?_name (k : Kind) : ofName? k.name = some k := by
  cases k with
  | int w => cases w <;> decide
  | uint w => cases w <;> decide
  | _ => decide

theorem name_of_ofName? {s : String} {k : Kind} (h : ofName? s = some k) : k.name = s := by
  simpa using List.find?_some h

end Kind

end ArrayCall
