/-!
# Widths of machine integers

An integer of a width takes `bytes` bytes and has `count` values. With a sign, `half` of
them are negative and the others reach up to `half - 1`.
-/

namespace ArrayCall

/-- The widths an integer may have. -/
inductive Width where
  | w8
  | w16
  | w32
  | w64
  deriving DecidableEq, Inhabited

namespace Width

def bytes : Width → Nat
  | w8 => 1
  | w16 => 2
  | w32 => 4
  | w64 => 8

def bits (w : Width) : Nat := 8 * w.bytes

/-- The number of values that an integer of this width has. -/
def count : Width → Nat
  | w8 => 256
  | w16 => 65536
  | w32 => 4294967296
  | w64 => 18446744073709551616

/-- The number of values that are negative in an integer with a sign. -/
def half (w : Width) : Nat := w.count / 2

theorem two_mul_half (w : Width) : 2 * w.half = w.count := by
  cases w <;> decide

end Width

end ArrayCall
