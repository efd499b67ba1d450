import ArrayCall.Proofs.FloatingPoint
import ArrayCall.Proofs.Memory

/-!
# Values of elements

A kind has the values that its bytes can be read as (`Kind.HasValue`). Conversion to the kind changes none of them
(`Kind.hasValue_iff`), so each is read back as it was written (`Memory.Writable.read_put_of_hasValue`).

A value may be carried from one kind to another through memory (`Memory.carry`). For booleans and integers the table of
promotions says exactly when no value is lost by that (`Kind.canPromoteTo_iff_lossless`).
-/

namespace ArrayCall

namespace Kind

/-- A value that elements of a kind have: what some bytes are read as. -/
def HasValue (k : Kind) (s : Scalar) : Prop := ∃ bytes : Bytes, bytes.length = k.size ∧ k.decode bytes = s

variable {k : Kind} {s : Scalar} {n : Int}

theorem cast_ofInt (integer : k.IsInteger) (n : Int) : (k.ofInt n).cast k = k.ofInt n := by
  have value := toInt?_ofInt integer n
  obtain ⟨w, rfl | rfl⟩ := isInteger_iff.mp integer
  · change (int w).ofInt (((int w).ofInt n).toInt?.getD 0) = _
    rw [value, Option.getD_some, ofInt_wrap integer]
  · change (uint w).ofInt (((uint w).ofInt n).toInt?.getD 0) = _
    rw [value, Option.getD_some, ofInt_wrap integer]

theorem cast_decode (k : Kind) (bytes : Bytes) : (k.decode bytes).cast k = k.decode bytes := by
  cases k with
  | int w => exact cast_ofInt (.inl rfl) _
  | uint w => exact cast_ofInt (.inr rfl) _
  | float32 => exact congrArg Scalar.float (Single.widen_narrow_widen _)
  | bool | float64 => rfl

theorem hasValue_cast (k : Kind) (s : Scalar) : k.HasValue (s.cast k) :=
  ⟨s.encode k, length_encode k s, decode_encode k s⟩

/-- The values of a kind are those that conversion to it leaves as they are. -/
theorem hasValue_iff : k.HasValue s ↔ s.cast k = s := by
  constructor
  · rintro ⟨bytes, -, rfl⟩
    exact cast_decode k bytes
  · intro same
    have has := hasValue_cast k s
    rwa [same] at has

theorem HasValue.exists_toInt? (has : k.HasValue s) (discrete : k.isFloat = false) :
    ∃ n, k.Represents n ∧ s.toInt? = some n := by
  obtain ⟨bytes, -, rfl⟩ := has
  exact ⟨_, represents_integer discrete bytes, toInt?_decode discrete bytes⟩

theorem Represents.exists_hasValue (represents : k.Represents n) (discrete : k.isFloat = false) :
    ∃ s, k.HasValue s ∧ s.toInt? = some n := by
  obtain integer | rfl := isInteger_or_eq_bool discrete
  · have value := toInt?_ofInt integer n
    rw [represents.wrap_eq integer] at value
    exact ⟨k.ofInt n, hasValue_iff.mpr (cast_ofInt integer n), value⟩
  · refine ⟨.bool (n ≠ 0), hasValue_iff.mpr rfl, ?_⟩
    obtain rfl | rfl := represents <;> rfl

/-! ## Conversion -/

theorem isTrue_iff (value : s.toInt? = some n) : s.isTrue ↔ n ≠ 0 := by
  cases s with
  | bool b =>
    obtain rfl := Option.some.inj value
    cases b <;> simp [Scalar.isTrue]
  | int x =>
    obtain rfl := Option.some.inj value
    simp [Scalar.isTrue, ← Int64.toInt_inj]
  | uint x =>
    obtain rfl := Option.some.inj value
    simp [Scalar.isTrue, ← UInt64.toNat_inj]
  | float x => cases value

/-- A conversion keeps an integer just if the kind has it. -/
theorem toInt?_cast_eq_iff (discrete : k.isFloat = false) (value : s.toInt? = some n) :
    (s.cast k).toInt? = some n ↔ k.Represents n := by
  obtain integer | rfl := isInteger_or_eq_bool discrete
  · rw [toInt?_cast integer value, Option.some.injEq]
    constructor
    · intro same
      rw [← same]
      exact represents_wrap integer n
    · intro represents
      exact represents.wrap_eq integer
  · have converted : (s.cast bool).toInt? = some (if s.isTrue then 1 else 0) := rfl
    change _ ↔ n = 0 ∨ n = 1
    rw [converted, Option.some.injEq]
    simp only [isTrue_iff value]
    split <;> omega

end Kind

namespace Memory

variable {m : Memory} {a b : Kind} {p q : Addr} {s : Scalar}

theorem Writable.read_put_of_hasValue (writable : m.Writable p a.size) (has : a.HasValue s) :
    (m.put p (s.encode a)).read a p = .ok s := by
  rw [writable.read_put, Kind.hasValue_iff.mp has]

/-- A value that is written as one kind and read back, then written as another one and read back again. -/
def carry (m : Memory) (a b : Kind) (p q : Addr) (s : Scalar) : Except ExecutionFault Scalar := do
  let (written, m) := m.write a p s
  written
  let (converted, m) := m.write b q (← m.read a p)
  converted
  m.read b q

/-- The two places may overlap: the first one is read before the second one is written. -/
theorem carry_eq (source : m.Writable p a.size) (target : m.Writable q b.size) (s : Scalar) :
    m.carry a b p q s = .ok ((s.cast a).cast b) := by
  have target' := target.put p (s.encode a)
  rw [carry, source.write_eq]
  apply bind_eq_ok_iff.mpr ⟨(), rfl, ?_⟩
  apply bind_eq_ok_iff.mpr ⟨_, source.read_put s, ?_⟩
  rw [target'.write_eq]
  exact bind_eq_ok_iff.mpr ⟨(), rfl, target'.read_put _⟩

end Memory

/-! ## Promotion -/

/-- A kind promotes to another just if every value of the one is the same integer as the other one. -/
theorem Kind.canPromoteTo_iff_lossless {a b : Kind} (discrete : a.isFloat = false) (discrete' : b.isFloat = false)
    {m : Memory} {p q : Addr} (source : m.Writable p a.size) (target : m.Writable q b.size) :
    a.canPromoteTo b ↔ ∀ s, a.HasValue s → ∃ s', m.carry a b p q s = .ok s' ∧ s'.toInt? = s.toInt? := by
  rw [canPromoteTo_iff_represents discrete discrete']
  constructor
  · intro within s has
    obtain ⟨n, represents, value⟩ := has.exists_toInt? discrete
    refine ⟨s.cast b, ?_, ?_⟩
    · rw [m.carry_eq source target, hasValue_iff.mp has]
    · rw [value, toInt?_cast_eq_iff discrete' value]
      exact within n represents
  · intro lossless n represents
    -- The integer is the value of some element, which would come out as another one if the kind lacked it.
    obtain ⟨s, has, value⟩ := represents.exists_hasValue discrete
    obtain ⟨s', carried, same⟩ := lossless s has
    rw [m.carry_eq source target, hasValue_iff.mp has] at carried
    cases carried
    rw [value, toInt?_cast_eq_iff discrete' value] at same
    exact same

/-- Bytes go into integers with a sign of twice the width, but not into those of their own. -/
theorem Kind.lossless_of_uint8 :
    let m : Memory := ⟨[⟨.owned, .zeros 4⟩], []⟩
    (∀ s, (uint .w8).HasValue s →
      ∃ s', m.carry (.uint .w8) (.int .w16) ⟨0, 0⟩ ⟨0, 2⟩ s = .ok s' ∧ s'.toInt? = s.toInt?) ∧
    ¬∀ s, (uint .w8).HasValue s →
      ∃ s', m.carry (.uint .w8) (.int .w8) ⟨0, 0⟩ ⟨0, 2⟩ s = .ok s' ∧ s'.toInt? = s.toInt? := by
  intro m
  have source : m.Writable ⟨0, 0⟩ (uint .w8).size := ⟨_, rfl, by decide, by decide, by decide⟩
  have wide : m.Writable ⟨0, 2⟩ (int .w16).size := ⟨_, rfl, by decide, by decide, by decide⟩
  have narrow : m.Writable ⟨0, 2⟩ (int .w8).size := ⟨_, rfl, by decide, by decide, by decide⟩
  constructor
  · exact (canPromoteTo_iff_lossless rfl rfl source wide).mp rfl
  · intro lossless
    exact absurd ((canPromoteTo_iff_lossless rfl rfl source narrow).mpr lossless) (by decide)

end ArrayCall
