import ArrayCall.Proofs.CommandLine.Nesting
import ArrayCall.Proofs.RowMajorOrder

/-!
# Reports of arrays

An array of truth values or integers is shown as JSON that is nested as its type is, and JSON that is nested so is read
as an array of the type. What is shown of an array is read back as an array with the same elements. The other way
around only the nesting is kept in every case: leaves are taken for elements by category, and an integer that the kind
of elements does not have becomes one that it has.
-/

namespace ArrayCall

open CommandLine

/-! ## Elements as JSON -/

namespace Kind

/-- JSON that is taken for an element: truth values for any kind, integers for any other kind than truth values, and
other numbers for floating kinds. -/
def Takes (k : Kind) : Json → Prop
  | .bool _ => True
  | .int _ => k ≠ bool
  | .float _ => k.isFloat
  | _ => False

/-- JSON that writes an element of a kind of truth values or integers -/
def Writes (k : Kind) : Json → Prop
  | .bool _ => k = bool
  | .int n => k.IsInteger ∧ k.Represents n
  | _ => False

/-- What becomes of JSON in an element of a kind of truth values or integers. A truth value is one or zero among
integers, and integers are taken modulo the number of values of the kind. -/
def stored (k : Kind) : Json → Json
  | .bool b => if k = bool then .bool b else .int (if b then 1 else 0)
  | .int n => .int (k.wrap n)
  | v => v

variable {k : Kind} {v : Json} {s : Scalar} {n : Int}

theorem Takes.isList (takes : k.Takes v) : v.isList = false := by
  cases v <;> first | rfl | cases takes

theorem Takes.exists_scalarOf? (takes : k.Takes v) : ∃ s, scalarOf? v = some s := by
  cases v with
  | bool | int | float => exact ⟨_, rfl⟩
  | _ => cases takes

/-- An integer is read as a scalar of 64 bits, with or without a sign. -/
theorem scalarOf?_int (n : Int) :
    (∃ i : Int64, scalarOf? (.int n) = some (.int i) ∧ i.toInt % Width.w64.count = n % Width.w64.count) ∨
      ∃ u : UInt64, scalarOf? (.int n) = some (.uint u) ∧ (u.toNat : Int) % Width.w64.count = n % Width.w64.count := by
  by_cases small : n < Width.w64.half
  · refine .inl ⟨_, by rw [scalarOf?, if_pos small], ?_⟩
    rw [Int64.toInt_ofInt]
    exact Int.bmod_emod
  · have natural : (n.toNat : Int) = n := Int.toNat_of_nonneg (by omega)
    refine .inr ⟨_, by rw [scalarOf?, if_neg small], ?_⟩
    rw [UInt64.toNat_ofNat', Int.natCast_mod, natural]
    exact Int.emod_emod_of_dvd n (Int.dvd_refl _)

theorem elementOf_eq_ok_iff : elementOf k v = .ok s ↔ k.Takes v ∧ scalarOf? v = some s := by
  cases v with
  | bool b => cases k <;> simp [elementOf, scalarOf?, Takes]
  | int n =>
    obtain ⟨_, read, -⟩ | ⟨_, read, -⟩ := scalarOf?_int n <;> cases k <;> simp [elementOf, read, Takes]
  | float x => cases k <;> simp [elementOf, scalarOf?, Takes, isFloat]
  | _ =>
    refine iff_of_false (fun ran => ?_) And.left
    cases ran

/-- No kind has more bits than 64. -/
theorem ofInt_congr (integer : k.IsInteger) {m : Int} (same : m % Width.w64.count = n % Width.w64.count) :
    k.ofInt m = k.ofInt n := by
  obtain ⟨w, wide⟩ := isInteger_iff.mp integer
  -- So what is left of an integer among 64 bits decides what is left of it among fewer.
  have divides : (w.count : Int) ∣ Width.w64.count := by cases w <;> decide
  have low : m % w.count = n % w.count := by
    rw [← Int.emod_emod_of_dvd m divides, same, Int.emod_emod_of_dvd n divides]
  have wrapped : k.wrap m = k.wrap n := by
    obtain rfl | rfl := wide
    · rw [wrap, wrap, ← Int.emod_bmod, low, Int.emod_bmod]
    · exact low
  rw [← ofInt_wrap integer m, wrapped, ofInt_wrap integer]

theorem cast_of_toInt? (integer : k.IsInteger) (value : s.toInt? = some n) : s.cast k = k.ofInt n := by
  obtain ⟨w, rfl | rfl⟩ := isInteger_iff.mp integer <;> cases s <;> cases value <;> rfl

theorem cast_scalarOf?_int (integer : k.IsInteger) (read : scalarOf? (.int n) = some s) : s.cast k = k.ofInt n := by
  obtain ⟨_, read', same⟩ | ⟨_, read', same⟩ := scalarOf?_int n
  all_goals
    cases read.symm.trans read'
    rw [cast_of_toInt? integer rfl, ofInt_congr integer same]

theorem jsonOf_ofInt (integer : k.IsInteger) (n : Int) : jsonOf (k.ofInt n) = .int (k.wrap n) := by
  have value := toInt?_ofInt integer n
  obtain ⟨w, rfl | rfl⟩ := isInteger_iff.mp integer <;> exact congrArg Json.int (Option.some.inj value)

theorem IsInteger.ne_bool (integer : k.IsInteger) : k ≠ bool := by
  rintro rfl
  exact absurd integer (by decide)

/-- One and zero are among the integers of every kind. -/
theorem IsInteger.represents_bit (integer : k.IsInteger) (b : Bool) : k.Represents (if b then 1 else 0) := by
  have bit : bool.Represents (if b then 1 else 0) := by cases b <;> simp [Represents]
  exact bit.of_canPromoteTo rfl integer.not_isFloat rfl

theorem jsonOf_cast (discrete : k.isFloat = false) (takes : k.Takes v) (read : scalarOf? v = some s) :
    jsonOf (s.cast k) = k.stored v := by
  cases v with
  | bool b =>
    cases read
    obtain integer | rfl := isInteger_or_eq_bool discrete
    · rw [cast_of_toInt? integer rfl, jsonOf_ofInt integer, stored, if_neg integer.ne_bool,
        (integer.represents_bit b).wrap_eq integer]
    · rfl
  | int n =>
    have integer := (isInteger_or_eq_bool discrete).resolve_right takes
    rw [cast_scalarOf?_int integer read, jsonOf_ofInt integer, stored]
  | float => cases discrete.symm.trans takes
  | _ => cases takes

theorem stored_eq_iff (discrete : k.isFloat = false) (takes : k.Takes v) : k.stored v = v ↔ k.Writes v := by
  cases v with
  | bool b =>
    rw [stored, Writes]
    split <;> simp [*]
  | int n =>
    have integer := (isInteger_or_eq_bool discrete).resolve_right takes
    rw [stored, Writes, Json.int.injEq]
    refine ⟨fun same => ⟨integer, ?_⟩, fun own => own.2.wrap_eq integer⟩
    rw [← same]
    exact represents_wrap integer n
  | float => cases discrete.symm.trans takes
  | _ => cases takes

end Kind

/-! ## Arrays -/

namespace CommandLine

variable {t : Ty} {k : Kind} {v : Json} {a : NdArray}

theorem elementsOf_eq (concrete : t.isSymbolic = false) (dtype : t.dtype = .scalar k) (v : Json) :
    elementsOf t v = (flatten t.shape v >>= fun leaves => leaves.mapM (elementOf k)) := by
  simp only [elementsOf, Ty.shape?_of_concrete concrete, concrete, dtype, Ty.scalarKind?]

/-- There are as many elements as the type has, if each belongs to a leaf. -/
theorem length_of_hasLeaves {R : Json → Scalar → Prop} {leaves : List Json} {elements : List Scalar}
    (has : v.HasLeaves t.shape leaves) (each : List.Forall₂ R leaves elements) : elements.length = t.shape.prod := by
  rw [← each.length_eq, has.length_eq]

/-- JSON is read as an array if it is nested as the type is, each leaf is taken for an element, and the type can be
filled. -/
theorem arrayOf_eq_ok_iff (concrete : t.isSymbolic = false) (dtype : t.dtype = .scalar k) :
    arrayOf t v = .ok a ↔ ∃ leaves elements, v.HasLeaves t.shape leaves ∧
      List.Forall₂ (fun leaf s => k.Takes leaf ∧ scalarOf? leaf = some s) leaves elements ∧
      NdArray.ofScalars t elements = .ok a := by
  simp only [arrayOf, bind_eq_ok_iff, mapError_eq_ok_iff, elementsOf_eq concrete dtype, mapM_eq_ok_iff,
    Kind.elementOf_eq_ok_iff, flatten_eq_ok_iff]
  constructor
  · rintro ⟨elements, ⟨leaves, ⟨has, -⟩, each⟩, made⟩
    exact ⟨leaves, elements, has, each, made⟩
  · rintro ⟨leaves, elements, has, each, made⟩
    have flat : ∀ leaf ∈ leaves, leaf.isList = false := fun leaf member => by
      obtain ⟨takes, -⟩ := (List.forall₂_and_left _ _).mp each
      exact (takes leaf member).isList
    exact ⟨elements, ⟨leaves, ⟨has, flat⟩, each⟩, made⟩

theorem report_eq_ok_iff {report : ArrayReport} :
    ArrayReport.of a = .ok report ↔ ∃ elements, a.scalars = .ok elements ∧
      nest (elements.map jsonOf) a.shape = .ok report.values ∧ report.ty = a.ty ∧ report.shape = a.shape := by
  simp only [ArrayReport.of, bind_eq_ok_iff, mapError_eq_ok_iff]
  constructor
  · rintro ⟨elements, read, values, nested, same⟩
    cases same
    exact ⟨elements, read, nested, rfl, rfl⟩
  · obtain ⟨ty, shape, values⟩ := report
    rintro ⟨elements, read, nested, rfl, rfl⟩
    exact ⟨elements, read, values, nested, rfl⟩

theorem exists_report (countable : Layout.Countable a.shape) {elements : List Scalar}
    (read : a.scalars = .ok elements) :
    ∃ report, ArrayReport.of a = .ok report := by
  obtain ⟨values, nested⟩ := Json.nest_succeeds countable (elements.map jsonOf) List.suffix_rfl
  exact ⟨⟨a.ty, a.shape, values⟩, report_eq_ok_iff.mpr ⟨elements, read, nested, rfl, rfl⟩⟩

theorem exists_elements {leaves : List Json} (takes : ∀ leaf ∈ leaves, k.Takes leaf) :
    ∃ elements, List.Forall₂ (fun leaf s => k.Takes leaf ∧ scalarOf? leaf = some s) leaves elements := by
  choose! element read using fun leaf member => (takes leaf member).exists_scalarOf?
  refine ⟨leaves.map element, ?_⟩
  rw [List.forall₂_map_right_iff, List.forall₂_same]
  exact fun leaf member => ⟨takes leaf member, read leaf member⟩

/-- Reading and showing again shows what became of each leaf. -/
theorem report_of_arrayOf (concrete : t.isSymbolic = false) (dtype : t.dtype = .scalar k)
    (discrete : k.isFloat = false) (made : arrayOf t v = .ok a) {report : ArrayReport}
    (shown : ArrayReport.of a = .ok report) : report.values = v.mapLeaves k.stored t.shape := by
  obtain ⟨leaves, elements, has, each, filled⟩ := (arrayOf_eq_ok_iff concrete dtype).mp made
  obtain ⟨values, read, nested, -⟩ := report_eq_ok_iff.mp shown
  obtain ⟨type, count, -⟩ := NdArray.of_ofScalars_eq_ok filled
  obtain rfl := NdArray.scalars_of_ofScalars_eq_ok concrete dtype filled read
  have stored : (elements.map (·.cast k)).map jsonOf = leaves.map k.stored := by
    rw [List.map_map, ← List.forall₂_eq_eq_eq, List.forall₂_map_left_iff, List.forall₂_map_right_iff]
    exact (each.imp fun leaf s ⟨takes, read⟩ => Kind.jsonOf_cast discrete takes read).flip
  rw [stored, NdArray.shape, type] at nested
  have listed : (leaves.map k.stored).length = t.shape.prod := by rw [List.length_map, has.length_eq]
  exact (Json.hasLeaves_of_nest_eq_ok listed nested).eq_of_leaves (has.mapLeaves k.stored)

/-! ## Showing and reading -/

/-- JSON is read as an array of truth values or integers just if it is nested as the type is and each leaf is taken for
an element; only sizes that leave their machine words may stand in the way. The report of the array shows what became
of each leaf, so it shows the same JSON just if each leaf writes an element of the kind. -/
theorem reported_as_stored (concrete : t.isSymbolic = false) (dtype : t.dtype = .scalar k)
    (discrete : k.isFloat = false) (v : Json) :
    (t.Addressable → v.Nested k.Takes t.shape → ∃ a, arrayOf t v = .ok a) ∧
    ∀ a, arrayOf t v = .ok a → v.Nested k.Takes t.shape ∧
      (Layout.Countable t.shape → ∃ report, ArrayReport.of a = .ok report) ∧
      ∀ report, ArrayReport.of a = .ok report →
        report.values = v.mapLeaves k.stored t.shape ∧ (report.values = v ↔ v.Nested k.Writes t.shape) := by
  constructor
  · intro addressable nested
    obtain ⟨leaves, has⟩ := nested.exists_leaves
    obtain ⟨elements, each⟩ := exists_elements (has.nested_iff.mp nested)
    have filled := NdArray.ofScalars_eq concrete dtype addressable (length_of_hasLeaves has each)
    exact ⟨_, (arrayOf_eq_ok_iff concrete dtype).mpr ⟨leaves, elements, has, each, filled⟩⟩
  · intro a made
    obtain ⟨leaves, elements, has, each, filled⟩ := (arrayOf_eq_ok_iff concrete dtype).mp made
    have takes := ((List.forall₂_and_left _ _).mp each).1
    refine ⟨has.nested_iff.mpr takes, fun countable => ?_, fun report shown => ?_⟩
    · obtain ⟨type, -⟩ := NdArray.of_ofScalars_eq_ok filled
      have kind : a.dtype? = some k := by rw [NdArray.dtype?, type, dtype]; rfl
      rw [← type] at countable
      have wellFormed := ((NdArray.Built.ofScalars filled).constructed countable.traversable).wellFormed kind
      exact exists_report countable (wellFormed.scalars_eq countable kind)
    · have values := report_of_arrayOf concrete dtype discrete made shown
      refine ⟨values, ?_⟩
      rw [values, has.mapLeaves_eq_iff, has.nested_iff]
      exact forall₂_congr fun leaf member => Kind.stored_eq_iff discrete (takes leaf member)

/-- Among integers of one byte a larger one is shown as what is left of it, and a truth value as one. -/
theorem reported_as_stored_of_bytes :
    let t := Ty.withShape [2, 2] (.scalar (.int .w8))
    let v := Json.arr [.arr [.int 1, .int 300], .arr [.bool true, .int (-1)]]
    ∃ a report, arrayOf t v = .ok a ∧ ArrayReport.of a = .ok report ∧
      report.values = .arr [.arr [.int 1, .int 44], .arr [.int 1, .int (-1)]] := by
  intro t v
  obtain ⟨reads, shows⟩ := reported_as_stored (t := t) (k := .int .w8) rfl rfl rfl v
  have nested : v.Nested (Kind.int .w8).Takes [2, 2] := by simp [v, Json.Nested, Kind.Takes]
  obtain ⟨a, made⟩ := reads ⟨by decide, by decide⟩ nested
  obtain ⟨-, reported, shows⟩ := shows a made
  obtain ⟨report, shown⟩ := reported (by decide)
  exact ⟨a, report, made, shown, (shows report shown).1⟩

/-- An integer that a byte does not have is not refused, but read as another one. -/
theorem arrayOf_alters_large_integer :
    ¬(Kind.uint .w8).Writes (.int 300) ∧ ∃ a report, arrayOf (.scalar (.uint .w8)) (.int 300) = .ok a ∧
      ArrayReport.of a = .ok report ∧ report.values = .int 44 := by
  exact ⟨fun writes => absurd writes.2.2 (by decide), _, _, rfl, rfl, rfl⟩

end CommandLine

end ArrayCall
