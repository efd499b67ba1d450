import ArrayCall.Machine
import ArrayCall.Proofs.Results
import Mathlib.Algebra.BigOperators.Group.List.Basic
import Mathlib.Data.List.Infix

/-!
# Arithmetic on machine words

Checked arithmetic gives the exact result where it gives one (`Machine.size_eq_ok_iff`, `Machine.signed_eq_ok_iff`,
`Machine.product_eq_ok_iff`), and ends the program otherwise. A size that a signed word holds is the same number as
a signed word, and a loop up to it runs as often (`Machine.rounds_of_le`); a loop up to a greater one may run less
often, and never runs more often (`Machine.rounds_le`).
-/

namespace ArrayCall.Machine

variable {n m : Nat} {z w : Int} {sizes : List Nat}

theorem count_w64 : Width.w64.count = 2 ^ 64 := rfl

theorem half_w64 : (Width.w64.half : Int) = 2 ^ 63 := rfl

theorem most_eq : most = 2 ^ 63 - 1 := rfl

/-! ## Checked results -/

theorem size_eq_ok_iff : size n = .ok m ↔ m = n ∧ n < 2 ^ 64 := by
  rw [size, count_w64]
  split
  next fits => simp only [Except.ok.injEq, fits, and_true, eq_comm]
  next beyond => simp only [reduceCtorEq, beyond, and_false]

theorem signed_eq_ok_iff : signed z = .ok w ↔ w = z ∧ -2 ^ 63 ≤ z ∧ z < 2 ^ 63 := by
  rw [signed, half_w64]
  split
  next fits => simp only [Except.ok.injEq, fits, and_true, eq_comm]
  next beyond => simp only [reduceCtorEq, beyond, and_false]

theorem signed_eq (fits : z.natAbs ≤ most) : signed z = .ok z := by
  rw [most_eq] at fits
  exact signed_eq_ok_iff.mpr ⟨rfl, by omega, by omega⟩

theorem allocate_eq_ok_iff {count bytes : Nat} : allocate count bytes = .ok () ↔ count * bytes ≤ most := by
  simp [allocate]

/-- A product is found just if no product of leading sizes leaves a word. -/
theorem product_eq_ok_iff :
    product sizes = .ok n ↔ n = sizes.prod ∧ ∀ front, front <+: sizes → front.prod < 2 ^ 64 := by
  induction sizes using List.reverseRecOn generalizing n with
  | nil => simp [product, pure, Except.pure, eq_comm]
  | append_singleton sizes last inductionHypothesis =>
    have step : product (sizes ++ [last]) = (product sizes >>= fun front => size (front * last)) := by
      rw [product, List.foldlM_append]
      exact bind_congr fun front => bind_pure _
    rw [step, bind_eq_ok_iff, List.prod_append, List.prod_singleton]
    constructor
    · rintro ⟨front, found, fits⟩
      obtain ⟨rfl, earlier⟩ := inductionHypothesis.mp found
      obtain ⟨rfl, fits⟩ := size_eq_ok_iff.mp fits
      refine ⟨rfl, fun front leads => ?_⟩
      obtain rfl | leads := List.prefix_concat_iff.mp leads
      · rwa [List.prod_append, List.prod_singleton]
      · exact earlier front leads
    · rintro ⟨rfl, fits⟩
      have whole := fits _ (List.prefix_refl _)
      rw [List.prod_append, List.prod_singleton] at whole
      refine ⟨sizes.prod, inductionHypothesis.mpr ⟨rfl, fun front leads => ?_⟩, size_eq_ok_iff.mpr ⟨rfl, whole⟩⟩
      exact fits front (leads.trans (List.prefix_append _ _))

/-! ## Overflow -/

theorem fails_size (n : Nat) : Fails (· = .overflow) (size n) := by
  rw [size]
  split
  · exact fails_ok _
  · exact fails_error rfl

theorem fails_signed (z : Int) : Fails (· = .overflow) (signed z) := by
  rw [signed]
  split
  · exact fails_ok _
  · exact fails_error rfl

theorem fails_allocate (count bytes : Nat) : Fails (· = .overflow) (allocate count bytes) := by
  rw [allocate]
  split
  · exact fails_ok _
  · exact fails_error rfl

/-! ## Signed words -/

theorem asSigned_of_le (fits : n ≤ most) : asSigned n = n := if_pos fits

theorem asSigned_of_lt (beyond : most < n) : asSigned n = n - 2 ^ 64 := if_neg (Nat.not_le_of_gt beyond)

theorem rounds_of_le (fits : n ≤ most) : rounds n = n := by
  rw [rounds, asSigned_of_le fits, Int.toNat_natCast]

theorem rounds_le (n : Nat) : rounds n ≤ n := by
  rw [rounds, asSigned]
  split <;> omega

/-- A loop up to a word that is no signed word does not run. -/
theorem rounds_of_lt (beyond : most < n) (word : n < 2 ^ 64) : rounds n = 0 := by
  rw [rounds, asSigned_of_lt beyond]
  omega

end ArrayCall.Machine
