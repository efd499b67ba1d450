import ArrayCall.Bindings
import ArrayCall.Proofs.Types
import Mathlib.Order.Defs.Unbundled

/-!
# The order of promotion

A type promotes to another just if the other one differs at most in the kind of its elements, which promotes
(`Ty.Promotes`). This orders types (`Ty.Promotes.trans`, `Ty.Promotes.antisymm`), and a concrete pattern matches just
the types below it, without a binding (`Bindings.unify_concrete`).
-/

namespace ArrayCall

theorem Kind.canPromoteTo_trans {a b c : Kind} (first : a.canPromoteTo b) (second : b.canPromoteTo c) :
    a.canPromoteTo c := by
  have all : ∀ a ∈ Kind.all, ∀ b ∈ Kind.all, ∀ c ∈ Kind.all, a.canPromoteTo b → b.canPromoteTo c →
    a.canPromoteTo c := by
    decide
  exact all a a.mem_all b b.mem_all c c.mem_all first second

namespace Ty

/-! ## Promotion as a relation -/

/-- A type promotes to itself, a kind as kinds do, and a dimension to one of the same size. -/
inductive Promotes : Ty → Ty → Prop
  | same (t : Ty) : Promotes t t
  | scalar {a b : Kind} (kinds : a.canPromoteTo b) : Promotes (.scalar a) (.scalar b)
  | fixedDim (size : Nat) {s t : Ty} (elements : Promotes s t) : Promotes (.fixedDim size s) (.fixedDim size t)

variable {s t u : Ty}

theorem promotes_of_canPromoteTo (promotes : s.canPromoteTo t) : s.Promotes t := by
  induction s generalizing t with
  | scalar a =>
    cases t with
    | scalar b => exact .scalar promotes
    | _ => cases of_decide_eq_true promotes
  | fixedDim m elem inductionHypothesis =>
    cases t with
    | fixedDim n elem' =>
      rw [canPromoteTo, Bool.and_eq_true, decide_eq_true_eq] at promotes
      obtain ⟨rfl, elements⟩ := promotes
      exact .fixedDim m (inductionHypothesis elements)
    | _ => cases of_decide_eq_true promotes
  | _ =>
    obtain rfl : _ = t := of_decide_eq_true (by simpa only [canPromoteTo] using promotes)
    exact .same _

theorem Promotes.canPromoteTo (promotes : s.Promotes t) : s.canPromoteTo t := by
  induction promotes with
  | same t => exact t.canPromoteTo_self
  | scalar kinds => exact kinds
  | fixedDim size _ inductionHypothesis =>
    rw [Ty.canPromoteTo, inductionHypothesis, Bool.and_true, decide_eq_true rfl]

theorem canPromoteTo_iff_promotes : s.canPromoteTo t ↔ s.Promotes t :=
  ⟨promotes_of_canPromoteTo, Promotes.canPromoteTo⟩

theorem promotes_scalar_iff {a b : Kind} : (scalar a).Promotes (scalar b) ↔ a.canPromoteTo b := by
  constructor
  · intro promotes
    cases promotes with
    | same => exact a.canPromoteTo_self
    | scalar kinds => exact kinds
  · exact .scalar

theorem promotes_fixedDim_iff {m n : Nat} : (fixedDim m s).Promotes (fixedDim n t) ↔ m = n ∧ s.Promotes t := by
  constructor
  · intro promotes
    cases promotes with
    | same => exact ⟨rfl, .same s⟩
    | fixedDim _ elements => exact ⟨rfl, elements⟩
  · rintro ⟨rfl, elements⟩
    exact .fixedDim m elements

theorem Promotes.trans (first : s.Promotes t) (second : t.Promotes u) : s.Promotes u := by
  induction first generalizing u with
  | same t => exact second
  | scalar kinds =>
    cases second with
    | same => exact .scalar kinds
    | scalar kinds' => exact .scalar (Kind.canPromoteTo_trans kinds kinds')
  | fixedDim size elements inductionHypothesis =>
    cases second with
    | same => exact .fixedDim size elements
    | fixedDim _ elements' => exact .fixedDim size (inductionHypothesis elements')

theorem Promotes.antisymm (there : s.Promotes t) (back : t.Promotes s) : s = t := by
  induction there with
  | same t => rfl
  | scalar kinds =>
    cases back with
    | same => rfl
    | scalar kinds' => rw [Kind.eq_of_canPromoteTo kinds kinds']
  | fixedDim size _ inductionHypothesis =>
    cases back with
    | same => rfl
    | fixedDim _ elements => rw [inductionHypothesis elements]

end Ty

/-! ## Promotion and matching -/

namespace Bindings

/-- A concrete pattern binds nothing, and matches just the types that promote to it. -/
theorem unify_concrete (b : Bindings) {p : Ty} (concrete : p.isSymbolic = false) (a : Ty) :
    a.Promotes p ∧ b.unify p a = .ok b ∨ ¬a.Promotes p ∧ ∃ e, b.unify p a = .error ⟨e, b⟩ := by
  induction p generalizing a with
  | void =>
    by_cases same : a = .void
    · subst same
      exact .inl ⟨.same _, rfl⟩
    · exact .inr ⟨fun promotes => same (by cases promotes; rfl), _, if_neg same⟩
  | scalar want =>
    cases a with
    | scalar found =>
      rw [Ty.promotes_scalar_iff]
      by_cases kinds : found.canPromoteTo want
      · exact .inl ⟨kinds, if_pos kinds⟩
      · exact .inr ⟨kinds, _, if_neg kinds⟩
    | _ => exact .inr ⟨nofun, _, rfl⟩
  | fixedDim want elem inductionHypothesis =>
    cases a with
    | fixedDim found inner =>
      rw [Ty.promotes_fixedDim_iff]
      by_cases same : found = want
      · have matched : b.unify (.fixedDim want elem) (.fixedDim found inner) = b.unify elem inner := if_pos same
        rw [matched]
        rcases inductionHypothesis concrete inner with ⟨elements, ran⟩ | ⟨differ, failed⟩
        · exact .inl ⟨⟨same, elements⟩, ran⟩
        · exact .inr ⟨fun promotes => differ promotes.2, failed⟩
      · exact .inr ⟨fun promotes => same promotes.1, _, if_neg same⟩
    | _ => exact .inr ⟨nofun, _, rfl⟩
  | _ => cases concrete

/-- Promotion is a partial order of types, and a concrete pattern matches just the types that promote to it. Either way
the bindings stay as they are. -/
theorem unify_follows_promotion_order :
    IsPartialOrder Ty (fun s t => s.canPromoteTo t) ∧
    ∀ (b : Bindings) (p a : Ty), p.isSymbolic = false →
      ((∃ b', b.unify p a = .ok b') ↔ a.canPromoteTo p) ∧ (∀ b', b.unify p a = .ok b' → b' = b) ∧
        ∀ clash, b.unify p a = .error clash → clash.bindings = b := by
  simp only [Ty.canPromoteTo_iff_promotes]
  refine ⟨?_, fun b p a concrete => ?_⟩
  · exact {
      refl := .same
      trans := fun _ _ _ => .trans
      antisymm := fun _ _ => Ty.Promotes.antisymm }
  · rcases unify_concrete b concrete a with ⟨promotes, ran⟩ | ⟨differ, e, failed⟩
    · refine ⟨iff_of_true ⟨b, ran⟩ promotes, fun b' ran' => ?_, fun clash failed => ?_⟩
      · exact Except.ok.inj (ran'.symm.trans ran)
      · cases ran.symm.trans failed
    · refine ⟨iff_of_false ?_ differ, fun b' ran => ?_, fun clash failed' => ?_⟩
      · rintro ⟨b', ran⟩
        cases failed.symm.trans ran
      · cases failed.symm.trans ran
      · cases failed.symm.trans failed'
        rfl

/-- Bytes promote to singles by way of integers. They match a pattern of singles, and singles do not match a pattern of
bytes; a binding that is there already stays. -/
theorem unify_singles_with_bytes :
    let bytes := Ty.fixedDim 3 (.scalar (.uint .w8))
    let singles := Ty.fixedDim 3 (.scalar .float32)
    let b : Bindings := NameTable.empty.insert "N" (.dim 5)
    bytes.canPromoteTo singles ∧ b.unify singles bytes = .ok b ∧ ¬∃ b', b.unify bytes singles = .ok b' := by
  intro bytes singles b
  obtain ⟨order, below⟩ := unify_follows_promotion_order
  have promotes : bytes.canPromoteTo singles := order.trans bytes (.fixedDim 3 (.scalar (.int .w16))) singles rfl rfl
  obtain ⟨matches', same, -⟩ := below b singles bytes rfl
  obtain ⟨b', ran⟩ := matches'.mpr promotes
  refine ⟨promotes, by rw [ran, same b' ran], fun ran => ?_⟩
  exact absurd ((below b bytes singles rfl).1.mp ran) (by decide)

end Bindings

end ArrayCall
