import ArrayCall.Layout
import ArrayCall.Proofs.Elements

/-!
# Concrete types

A concrete type is a shape in front of one element. `Ty.OfScalars` are those whose element has a
kind, `Ty.IsElement` those without dimensions, `void` among them.
-/

namespace ArrayCall.Ty

/-- Concrete, with elements of some kind. -/
def OfScalars (t : Ty) : Prop := t.isSymbolic = false ∧ ∃ k, t.dtype = .scalar k

/-- Concrete and without dimensions. -/
def IsElement (t : Ty) : Prop := t = .void ∨ ∃ k, t = .scalar k

/-! ## Shapes -/

variable {shape : List Nat} {elem t : Ty}

theorem shape?_withShape (element : elem.shape? = some []) : (withShape shape elem).shape? = some shape := by
  induction shape with
  | nil => exact element
  | cons n shape inductionHypothesis => exact congrArg (Option.map (n :: ·)) inductionHypothesis

theorem IsElement.shape? (element : elem.IsElement) : elem.shape? = some [] := by
  obtain rfl | ⟨k, rfl⟩ := element <;> rfl

theorem shape_withShape (element : elem.IsElement) : (withShape shape elem).shape = shape := by
  rw [Ty.shape, shape?_withShape element.shape?, Option.getD_some]

theorem withShape_append (outer inner : List Nat) (elem : Ty) :
    withShape (outer ++ inner) elem = withShape outer (withShape inner elem) := List.foldr_append

theorem ndim_withShape (shape : List Nat) (elem : Ty) : (withShape shape elem).ndim = shape.length + elem.ndim := by
  induction shape with
  | nil => exact (Nat.zero_add _).symm
  | cons n shape inductionHypothesis =>
    change (withShape shape elem).ndim + 1 = _
    rw [inductionHypothesis, List.length_cons, Nat.add_right_comm]

theorem stripDims_withShape_of_le {n : Nat} (within : n ≤ shape.length) (elem : Ty) :
    (withShape shape elem).stripDims n = some (withShape (shape.drop n) elem) := by
  induction shape generalizing n with
  | nil =>
    obtain rfl := Nat.le_zero.mp within
    rfl
  | cons size shape inductionHypothesis =>
    cases n with
    | zero => rfl
    | succ n => exact inductionHypothesis (Nat.le_of_succ_le_succ within)

theorem stripDims_withShape (shape : List Nat) (elem : Ty) :
    (withShape shape elem).stripDims shape.length = some elem := by
  rw [stripDims_withShape_of_le (Nat.le_refl _), List.drop_length]
  rfl

theorem dtype_withShape (shape : List Nat) (elem : Ty) : (withShape shape elem).dtype = elem.dtype := by
  induction shape with
  | nil => rfl
  | cons n shape inductionHypothesis => exact inductionHypothesis

theorem isSymbolic_withShape (shape : List Nat) (elem : Ty) :
    (withShape shape elem).isSymbolic = elem.isSymbolic := by
  induction shape with
  | nil => rfl
  | cons n shape inductionHypothesis => exact inductionHypothesis

/-- A concrete type is a shape in front of an element. -/
theorem exists_eq_withShape (concrete : t.isSymbolic = false) :
    ∃ elem : Ty, elem.IsElement ∧ t = withShape t.shape elem := by
  induction t with
  | void => exact ⟨.void, .inl rfl, rfl⟩
  | scalar k => exact ⟨.scalar k, .inr ⟨k, rfl⟩, rfl⟩
  | fixedDim n inner inductionHypothesis =>
    obtain ⟨elem, element, same⟩ := inductionHypothesis concrete
    generalize inner.shape = shape at same
    subst same
    have shaped : (withShape (n :: shape) elem).shape = n :: shape := shape_withShape element
    exact ⟨elem, element, congrArg (withShape · elem) shaped.symm⟩
  | _ => cases concrete

theorem shape?_of_concrete (concrete : t.isSymbolic = false) : t.shape? = some t.shape := by
  obtain ⟨elem, element, same⟩ := exists_eq_withShape concrete
  rw [same, shape?_withShape element.shape?, ← same]

theorem stripDims_shape (concrete : t.isSymbolic = false) : t.stripDims t.shape.length = some t.dtype := by
  obtain ⟨elem, element, same⟩ := exists_eq_withShape concrete
  generalize t.shape = shape at same ⊢
  rw [same, stripDims_withShape, dtype_withShape]
  obtain rfl | ⟨k, rfl⟩ := element <;> rfl

theorem IsElement.isSymbolic (element : t.IsElement) : t.isSymbolic = false := by
  obtain rfl | ⟨k, rfl⟩ := element <;> rfl

theorem IsElement.isDim (element : t.IsElement) : t.isDim = false := by
  obtain rfl | ⟨k, rfl⟩ := element <;> rfl

theorem IsElement.dtype (element : t.IsElement) : t.dtype = t := by
  obtain rfl | ⟨k, rfl⟩ := element <;> rfl

theorem ndim_of_flat (flat : t.isDim = false) : t.ndim = 0 := by
  cases t <;> first | rfl | cases flat

theorem shape_of_flat (flat : t.isDim = false) : t.shape = [] := by
  cases t <;> first | rfl | cases flat

theorem ownDims_of_flat (flat : t.isDim = false) : t.ownDims = 0 := by
  cases t <;> first | rfl | cases flat

theorem isElement_dtype (concrete : t.isSymbolic = false) : t.dtype.IsElement := by
  obtain ⟨elem, element, same⟩ := exists_eq_withShape concrete
  rw [same, dtype_withShape]
  obtain rfl | ⟨k, rfl⟩ := element
  · exact .inl rfl
  · exact .inr ⟨k, rfl⟩

theorem shape?_of_stripDims {rest : Ty} (shaped : t.shape? = some shape)
    (stripped : t.stripDims shape.length = some rest) :
    rest.shape? = some [] := by
  induction t generalizing shape with
  | fixedDim n elem inductionHypothesis =>
    obtain ⟨sizes, inner, rfl⟩ := Option.map_eq_some_iff.mp shaped
    exact inductionHypothesis inner stripped
  | symbolicDim | ellipsis => cases shaped
  | _ =>
    cases shaped
    cases stripped
    rfl

/-- Behind all dimensions there are none. -/
theorem shape_of_stripDims {rest : Ty} (stripped : t.stripDims t.shape.length = some rest) : rest.shape = [] := by
  cases shaped : t.shape? with
  | some shape =>
    rw [Ty.shape, shaped, Option.getD_some] at stripped
    rw [Ty.shape, shape?_of_stripDims shaped stripped, Option.getD_some]
  | none =>
    have point : t.shape = [] := by rw [Ty.shape, shaped, Option.getD_none]
    rw [point] at stripped
    cases stripped
    exact point

/-! ## Arrays of scalars -/

theorem ofScalars_iff : t.OfScalars ↔ ∃ shape k, t = withShape shape (.scalar k) := by
  constructor
  · rintro ⟨concrete, k, elements⟩
    induction t with
    | scalar kind => exact ⟨[], kind, rfl⟩
    | fixedDim n elem inductionHypothesis =>
      obtain ⟨shape, k, rfl⟩ := inductionHypothesis concrete elements
      exact ⟨n :: shape, k, rfl⟩
    | void => cases elements
    | _ => cases concrete
  · rintro ⟨shape, k, rfl⟩
    exact ⟨isSymbolic_withShape shape _, k, dtype_withShape shape _⟩

theorem isElement_scalar (k : Kind) : (scalar k).IsElement := .inr ⟨k, rfl⟩

theorem ofScalars_scalar (k : Kind) : (scalar k).OfScalars := ⟨rfl, k, rfl⟩

theorem OfScalars.eq_scalar (concrete : t.OfScalars) (flat : t.isDim = false) : ∃ k, t = .scalar k := by
  obtain ⟨shape, k, rfl⟩ := ofScalars_iff.mp concrete
  cases shape with
  | nil => exact ⟨k, rfl⟩
  | cons n shape => cases flat

theorem OfScalars.eq_withShape (concrete : t.OfScalars) : ∃ k, t = withShape t.shape (.scalar k) := by
  obtain ⟨shape, k, rfl⟩ := ofScalars_iff.mp concrete
  exact ⟨k, by rw [shape_withShape (isElement_scalar k)]⟩

/-! ## Promotion -/

theorem canPromoteTo_self (t : Ty) : t.canPromoteTo t := by
  induction t with
  | scalar k => exact k.canPromoteTo_self
  | fixedDim n elem inductionHypothesis => simpa [canPromoteTo] using inductionHypothesis
  | _ => simp [canPromoteTo]

theorem canPromoteTo_withShape_iff {a b : Ty} :
    (withShape shape a).canPromoteTo (withShape shape b) ↔ a.canPromoteTo b := by
  induction shape with
  | nil => rfl
  | cons n shape inductionHypothesis =>
    rw [← inductionHypothesis]
    simp [withShape, canPromoteTo]

/-- What an array of elements of a kind converts to is of the same shape, and of elements of a kind, too. -/
theorem eq_withShape_of_canPromoteTo {k : Kind} (promotes : (withShape shape (scalar k)).canPromoteTo t) :
    ∃ k', t = withShape shape (scalar k') ∧ k.canPromoteTo k' := by
  induction shape generalizing t with
  | nil =>
    cases t with
    | scalar k' => exact ⟨k', rfl, promotes⟩
    | _ => simp [withShape, canPromoteTo] at promotes
  | cons n shape inductionHypothesis =>
    cases t with
    | fixedDim n' elem =>
      simp only [withShape, List.foldr_cons, canPromoteTo, Bool.and_eq_true, decide_eq_true_eq] at promotes
      obtain ⟨rfl, inside⟩ := promotes
      obtain ⟨k', rfl, kinds⟩ := inductionHypothesis inside
      exact ⟨k', rfl, kinds⟩
    | _ => simp [withShape, canPromoteTo] at promotes

end ArrayCall.Ty
