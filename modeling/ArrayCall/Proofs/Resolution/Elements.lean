import ArrayCall.Callable.Infer
import ArrayCall.Callable.Resolve
import ArrayCall.Proofs.Types

/-!
# Matching elements

The parameters of a leaf are kinds and type variables. Matching arguments against them binds each
variable that occurs to the type of an argument, so that what holds of all arguments holds of all
that is bound (`Bindings.All`), and afterwards every parameter can be made concrete.
-/

namespace ArrayCall

/-- A kind or a type variable. -/
def Ty.IsElementPattern (p : Ty) : Prop := (∃ k, p = .scalar k) ∨ ∃ name, p = .typeVar name

namespace Bindings

/-- Every variable stands for a type with a property. -/
def All (P : Ty → Prop) (b : Bindings) : Prop := ∀ name v, b.get? name = some v → ∃ t, v = .type t ∧ P t

/-- What is bound stays bound. -/
def Extends (b b' : Bindings) : Prop := ∀ name v, b.get? name = some v → b'.get? name = some v

variable {P : Ty → Prop} {b b' b'' : Bindings} {p a t : Ty}

theorem all_empty : All P .empty := fun name v bound => by simp at bound

theorem Extends.refl (b : Bindings) : b.Extends b := fun _ _ bound => bound

theorem Extends.trans (first : b.Extends b') (second : b'.Extends b'') : b.Extends b'' :=
  fun name v bound => second name v (first name v bound)

theorem extends_insert {name : String} {v : Binding} (unbound : b.get? name = none) : b.Extends (b.insert name v) := by
  intro other v' bound
  rw [NameTable.get?_insert, if_neg, bound]
  rintro rfl
  rw [unbound] at bound
  cases bound

theorem bind_type {name : String} (ran : b.bind name (.type a) = .ok b') (all : b.All P) (holds : P a) :
    b'.All P ∧ b.Extends b' ∧ b'.get? name = some (.type a) := by
  rw [bind] at ran
  split at ran
  next unbound =>
    cases ran
    refine ⟨fun other v bound => ?_, extends_insert unbound, NameTable.get?_insert_self ..⟩
    rw [NameTable.get?_insert] at bound
    split at bound
    · cases bound
      exact ⟨a, rfl, holds⟩
    · exact all other v bound
  next bound found =>
    split at ran
    next same =>
      cases ran
      exact ⟨all, .refl b, same ▸ found⟩
    next => cases ran

theorem unify_element (pattern : p.IsElementPattern) (ran : b.unify p a = .ok b') (all : b.All P) (holds : P a) :
    b'.All P ∧ b.Extends b' ∧ ∃ t, b'.substitute p = .ok t := by
  obtain ⟨k, rfl⟩ | ⟨name, rfl⟩ := pattern
  · cases a with
    | scalar found =>
      rw [unify] at ran
      split at ran
      · cases ran
        exact ⟨all, .refl b, _, rfl⟩
      · cases ran
    | _ => cases ran
  · obtain ⟨all, more, found⟩ := bind_type ran all holds
    exact ⟨all, more, a, by rw [substitute, found]⟩

/-- What an element pattern is replaced by: a kind, or the type of an argument. -/
theorem substitute_element (pattern : p.IsElementPattern) (all : b.All P) (ran : b.substitute p = .ok t) :
    P t ∨ ∃ k, t = .scalar k := by
  obtain ⟨k, rfl⟩ | ⟨name, rfl⟩ := pattern
  · cases ran
    exact .inr ⟨k, rfl⟩
  · rw [substitute] at ran
    split at ran
    next t' found =>
      cases ran
      obtain ⟨t, same, holds⟩ := all name _ found
      cases same
      exact .inl holds
    next => cases ran
    next => cases ran

theorem Extends.substitute (more : b.Extends b') (pattern : p.IsElementPattern) (ran : b.substitute p = .ok t) :
    b'.substitute p = .ok t := by
  obtain ⟨k, rfl⟩ | ⟨name, rfl⟩ := pattern
  · exact ran
  · rw [Bindings.substitute] at ran ⊢
    cases bound : b.get? name with
    | none => rw [bound] at ran; cases ran
    | some v => rwa [more name v bound, ← bound]

end Bindings

namespace Callable

open Bindings

variable {P : Ty → Prop} {params args : List Ty}

theorem bindArgs_elements {c : Callable} {index : Nat} {b b' : Bindings}
    (patterns : ∀ p ∈ params, p.IsElementPattern) (length : args.length = params.length)
    (ran : c.bindArgs index b params args = .ok b') (all : b.All P) (holds : ∀ a ∈ args, P a) :
    b'.All P ∧ b.Extends b' ∧ ∀ p ∈ params, ∃ t, b'.substitute p = .ok t := by
  induction params generalizing args index b with
  | nil =>
    cases ran
    exact ⟨all, .refl _, by simp⟩
  | cons p params inductionHypothesis =>
    cases args with
    | nil => cases length
    | cons a args =>
      obtain ⟨pattern, patterns⟩ := List.forall_mem_cons.mp patterns
      obtain ⟨first, holds⟩ := List.forall_mem_cons.mp holds
      rw [bindArgs] at ran
      split at ran
      next next unified =>
        obtain ⟨all, here, t, substituted⟩ := unify_element pattern unified all first
        obtain ⟨all, later, others⟩ :=
          inductionHypothesis patterns (Nat.succ.inj length) ran all holds
        refine ⟨all, here.trans later, List.forall_mem_cons.mpr ⟨⟨t, ?_⟩, others⟩⟩
        exact later.substitute pattern substituted
      next => cases ran

theorem bindKnown?_elements {known : List (Option Ty)} {b b' : Bindings}
    (patterns : ∀ p ∈ params, p.IsElementPattern) (ran : bindKnown? b params known = some b')
    (all : b.All P) (holds : ∀ t, some t ∈ known → P t) : b'.All P := by
  induction params generalizing known b with
  | nil => cases ran; exact all
  | cons p params inductionHypothesis =>
    obtain ⟨pattern, patterns⟩ := List.forall_mem_cons.mp patterns
    cases known with
    | nil => cases ran; exact all
    | cons first known =>
      have others : ∀ t, some t ∈ known → P t := fun t member => holds t (List.mem_cons_of_mem _ member)
      cases first with
      | none => exact inductionHypothesis patterns ran all others
      | some t =>
        rw [bindKnown?] at ran
        split at ran
        next next unified =>
          exact inductionHypothesis patterns ran (unify_element pattern unified all (holds t (by simp))).1 others
        next => cases ran

end Callable

end ArrayCall
