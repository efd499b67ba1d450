import ArrayCall.Proofs.Callable.Built
import ArrayCall.Proofs.Resolution.Elements
import ArrayCall.Proofs.Results

/-!
# What variables come to stand for

Matching binds the variables of a pattern, each type variable to a type that stands behind dimensions of
the argument, and leaves all others as they were (`Bindings.Binds`). Patterns are arbitrary here, as those
of keyword parameters are; the parameters of a leaf have no dimensions, and so neither has what is inferred
for one of them from elements (`Callable.Formed.inferParam?_holds`).
-/

namespace ArrayCall

namespace Ty

/-- The second type stands behind some dimensions of the first. -/
def Behind (a t : Ty) : Prop := ∃ n, a.stripDims n = some t

variable {a rest t : Ty}

theorem Behind.of_stripDims {n : Nat} (stripped : a.stripDims n = some rest) (behind : rest.Behind t) : a.Behind t := by
  obtain ⟨m, found⟩ := behind
  induction n generalizing a with
  | zero =>
    cases stripped
    exact ⟨m, found⟩
  | succ n inductionHypothesis =>
    obtain ⟨elem, element, stripped⟩ := Option.bind_eq_some_iff.mp stripped
    obtain ⟨k, found⟩ := inductionHypothesis stripped
    exact ⟨k + 1, Option.bind_eq_some_iff.mpr ⟨elem, element, found⟩⟩

theorem Behind.of_fixedDim {size : Nat} (behind : rest.Behind t) : (fixedDim size rest).Behind t :=
  .of_stripDims (n := 1) rfl behind

/-- Behind something without dimensions stands nothing else. -/
theorem Behind.eq_of_flat (behind : a.Behind t) (flat : a.isDim = false) : t = a := by
  obtain ⟨n, found⟩ := behind
  cases n with
  | zero => exact (Option.some.inj found).symm
  | succ n =>
    obtain ⟨elem, element, -⟩ := Option.bind_eq_some_iff.mp found
    rw [isDim, element] at flat
    cases flat

theorem Behind.isSymbolic (behind : a.Behind t) (concrete : a.isSymbolic = false) : t.isSymbolic = false := by
  obtain ⟨n, found⟩ := behind
  induction n generalizing a with
  | zero =>
    cases found
    exact concrete
  | succ n inductionHypothesis =>
    cases a with
    | fixedDim size elem => exact inductionHypothesis (a := elem) concrete found
    | _ => first | cases found | cases concrete

end Ty

namespace Bindings

open Ty (Behind)

/-- What `b` becomes when variables of a pattern are bound: nothing is bound anew or lost but these, and
those that are types stand for types that `met` allows. -/
structure Binds (b : Bindings) (names : List String) (met : Ty → Prop) (b' : Bindings) : Prop where
  keeps : b.Extends b'
  others : ∀ name, name ∉ names → b'.get? name = b.get? name
  bound : ∀ name ∈ names, ∃ v, b'.get? name = some v ∧ ∀ t, v = .type t → met t

variable {b b' b'' : Bindings} {p a t : Ty} {names names' : List String} {met : Ty → Prop}

theorem Binds.refl (b : Bindings) (met : Ty → Prop) : Binds b [] met b where
  keeps := .refl b
  others _ _ := rfl
  bound _ none := nomatch none

theorem Binds.trans (first : Binds b names met b') (second : Binds b' names' met b'') :
    Binds b (names ++ names') met b'' where
  keeps := first.keeps.trans second.keeps
  others name other := by
    rw [List.mem_append, not_or] at other
    rw [second.others name other.2, first.others name other.1]
  bound name member := by
    by_cases later : name ∈ names'
    · exact second.bound name later
    · obtain ⟨v, found, allowed⟩ := first.bound name ((List.mem_append.mp member).resolve_right later)
      exact ⟨v, second.keeps name v found, allowed⟩

theorem binds_bind {name : String} {value : Binding} (ran : b.bind name value = .ok b')
    (allowed : ∀ t, value = .type t → met t) : Binds b [name] met b' := by
  rw [bind] at ran
  split at ran
  next unbound =>
    cases ran
    refine ⟨extends_insert unbound, fun other differs => ?_, ?_⟩
    · rw [NameTable.get?_insert, if_neg (by simpa using differs)]
    · intro other member
      rw [List.mem_singleton.mp member]
      exact ⟨value, NameTable.get?_insert_self .., allowed⟩
  next v found =>
    split at ran
    next same =>
      cases ran
      subst same
      refine ⟨.refl b, fun _ _ => rfl, fun other member => ⟨v, ?_, allowed⟩⟩
      rw [List.mem_singleton.mp member, found]
    next => cases ran

theorem Binds.mono {met' : Ty → Prop} (binds : Binds b names met b') (weaker : ∀ t, met t → met' t) :
    Binds b names met' b' :=
  ⟨binds.keeps, binds.others, fun name member =>
    let ⟨v, found, allowed⟩ := binds.bound name member
    ⟨v, found, fun t same => weaker t (allowed t same)⟩⟩

/-- Matching binds the variables of the pattern to what stands behind dimensions of the argument. -/
theorem binds_unify (ran : b.unify p a = .ok b') : Binds b p.mentions (Behind a) b' := by
  induction p generalizing a b with
  | any =>
    cases ran
    exact .refl _ _
  | typeVar name =>
    refine binds_bind ran fun t same => ?_
    cases same
    exact ⟨0, rfl⟩
  | void =>
    rw [unify] at ran
    split at ran <;> cases ran
    exact .refl _ _
  | scalar want =>
    cases a with
    | scalar found =>
      rw [unify] at ran
      split at ran <;> cases ran
      exact .refl _ _
    | _ => cases ran
  | fixedDim want elem inductionHypothesis =>
    cases a with
    | fixedDim found inner =>
      rw [unify] at ran
      split at ran
      · exact (inductionHypothesis ran).mono fun t behind => behind.of_fixedDim
      · cases ran
    | _ => cases ran
  | symbolicDim name elem inductionHypothesis =>
    cases a with
    | fixedDim size inner =>
      obtain ⟨between, first, ran⟩ := bind_eq_ok_iff.mp ran
      refine (binds_bind first (by rintro _ ⟨⟩)).trans ?_
      exact (inductionHypothesis ran).mono fun t behind => behind.of_fixedDim
    | _ => cases ran
  | ellipsis name elem inductionHypothesis =>
    have stripped : ∀ {b : Bindings} {n : Nat} {rest : Ty}, a.stripDims n = some rest → b.unify elem rest = .ok b' →
        Binds b elem.mentions (Behind a) b' :=
      fun found ran => (inductionHypothesis ran).mono fun t behind => behind.of_stripDims found
    rw [unify] at ran
    split at ran
    next => cases ran
    next =>
      cases name with
      | none =>
        dsimp only at ran
        split at ran
        next rest found => exact stripped found ran
        next => cases ran
      | some name =>
        obtain ⟨between, first, ran⟩ := bind_eq_ok_iff.mp ran
        refine (binds_bind first (by rintro _ ⟨⟩)).trans ?_
        split at ran
        next rest found => exact stripped found ran
        next => cases ran

/-- Each type that a variable stands for is one that `P` allows it. -/
def Within (P : String → Ty → Prop) (b : Bindings) : Prop := ∀ name t, b.get? name = some (.type t) → P name t

variable {P : String → Ty → Prop}

theorem within_empty : Within P .empty := fun name t bound => by simp at bound

theorem Binds.within (binds : Binds b names met b') (within : b.Within P)
    (allowed : ∀ name ∈ names, ∀ t, met t → P name t) : b'.Within P := by
  intro name t found
  by_cases member : name ∈ names
  · obtain ⟨v, same, fits⟩ := binds.bound name member
    exact allowed name member t (fits t (Option.some.inj (same.symm.trans found)))
  · exact within name t (by rwa [← binds.others name member])

/-- Without dimensions a pattern is replaced by itself, or by what its one variable stands for. -/
theorem of_substitute_eq_ok (flat : p.isDim = false) (ran : b.substitute p = .ok t) :
    (p = t ∧ t.IsElement) ∨ ∃ name, p = .typeVar name ∧ b.get? name = some (.type t) := by
  cases p with
  | void =>
    cases ran
    exact .inl ⟨rfl, .inl rfl⟩
  | scalar k =>
    cases ran
    exact .inl ⟨rfl, .inr ⟨k, rfl⟩⟩
  | typeVar name =>
    rw [substitute] at ran
    split at ran
    next found =>
      cases ran
      exact .inr ⟨name, rfl, found⟩
    next => cases ran
    next => cases ran
  | any => cases ran
  | _ => cases flat

end Bindings

namespace Callable

open Bindings

variable {P : String → Ty → Prop} {c : Callable} {b b' : Bindings} {kwds : Keywords}

theorem bindArgs_within {index : Nat} {params args : List Ty} (ran : c.bindArgs index b params args = .ok b')
    (within : b.Within P) (allowed : ∀ a ∈ args, ∀ t, a.Behind t → ∀ name, P name t) : b'.Within P := by
  induction params generalizing args index b with
  | nil =>
    cases ran
    exact within
  | cons p params inductionHypothesis =>
    cases args with
    | nil =>
      cases ran
      exact within
    | cons a args =>
      obtain ⟨first, others⟩ := List.forall_mem_cons.mp allowed
      rw [bindArgs] at ran
      split at ran
      next next unified =>
        exact inductionHypothesis ran ((binds_unify unified).within within fun name _ t met => first t met name) others
      next => cases ran

theorem bindKnown?_within {params : List Ty} {known : List (Option Ty)} (ran : bindKnown? b params known = some b')
    (within : b.Within P) (allowed : ∀ a, some a ∈ known → ∀ t, a.Behind t → ∀ name, P name t) : b'.Within P := by
  induction params generalizing known b with
  | nil =>
    cases ran
    exact within
  | cons p params inductionHypothesis =>
    cases known with
    | nil =>
      cases ran
      exact within
    | cons first known =>
      have others : ∀ a, some a ∈ known → ∀ t, a.Behind t → ∀ name, P name t :=
        fun a member => allowed a (List.mem_cons_of_mem _ member)
      cases first with
      | none => exact inductionHypothesis ran within others
      | some a =>
        rw [bindKnown?] at ran
        split at ran
        next next unified =>
          have here := (binds_unify unified).within within fun name _ t met => allowed a (by simp) t met name
          exact inductionHypothesis ran here others
        next => cases ran

/-- The variables of a keyword parameter are bound to what its value presents. -/
theorem bindKwds_within {declared : List KeywordParam} (ran : c.bindKwds kwds b declared = .ok b') (within : b.Within P)
    (allowed : ∀ k ∈ declared, ∀ value, kwds.get? k.name = some value →
      ∀ name ∈ k.ty.mentions, ∀ t, value.ty.Behind t → P name t) : b'.Within P := by
  induction declared generalizing b with
  | nil =>
    cases ran
    exact within
  | cons k declared inductionHypothesis =>
    obtain ⟨first, others⟩ := List.forall_mem_cons.mp allowed
    rw [bindKwds] at ran
    split at ran
    next => exact inductionHypothesis ran within others
    next value given =>
      split at ran
      next next unified =>
        exact inductionHypothesis ran ((binds_unify unified).within within (first value given)) others
      next => cases ran

theorem bindKwds_extends {declared : List KeywordParam} (ran : c.bindKwds kwds b declared = .ok b') : b.Extends b' := by
  induction declared generalizing b with
  | nil =>
    cases ran
    exact .refl _
  | cons k declared inductionHypothesis =>
    rw [bindKwds] at ran
    split at ran
    next => exact inductionHypothesis ran
    next value given =>
      split at ran
      next next unified => exact (binds_unify unified).keeps.trans (inductionHypothesis ran)
      next => cases ran

/-- A variable of a keyword parameter that stands for a type stands for one that the value presents. -/
theorem behind_of_bindKwds {declared : List KeywordParam} (ran : c.bindKwds kwds b declared = .ok b') {k : KeywordParam}
    (member : k ∈ declared) {value : KeywordValue} (given : kwds.get? k.name = some value) {name : String}
    (mentioned : name ∈ k.ty.mentions) {t : Ty} (found : b'.get? name = some (.type t)) : value.ty.Behind t := by
  induction declared generalizing b with
  | nil => cases member
  | cons first declared inductionHypothesis =>
    rw [bindKwds] at ran
    rcases List.mem_cons.mp member with rfl | later
    · rw [given] at ran
      dsimp only at ran
      split at ran
      next next unified =>
        obtain ⟨v, bound, fits⟩ := (binds_unify unified).bound name mentioned
        exact fits t (Option.some.inj ((bindKwds_extends ran name v bound).symm.trans found))
      next => cases ran
    · split at ran
      next => exact inductionHypothesis ran later
      next =>
        split at ran
        next => exact inductionHypothesis ran later
        next => cases ran

/-! ## Inference -/

/-- What is inferred for a slot stands behind a type that is known, or is an element. -/
theorem Formed.inferParam?_holds {element : Signature → Leaf → Prop} {liftable : Callable → Prop} {P : Ty → Prop}
    (formed : c.Formed element liftable) (elements : ∀ t : Ty, t.IsElement → P t) {known : List (Option Ty)}
    (holds : ∀ a, some a ∈ known → ∀ t, a.Behind t → P t) {slot : Nat} {d : Ty}
    (inferred : c.inferParam? known slot = some d) : P d := by
  induction formed with
  | @leaf _ _ sig _ _ flat =>
    rw [inferParam?] at inferred
    obtain ⟨b, bound, inferred⟩ := Option.bind_eq_some_iff.mp inferred
    obtain ⟨p, param, inferred⟩ := Option.bind_eq_some_iff.mp inferred
    have within : b.Within fun _ t => P t :=
      bindKnown?_within bound within_empty fun a member t behind _ => holds a member t behind
    have member : p ∈ sig.params ++ [sig.ret] := List.mem_append_left _ (List.mem_of_getElem? param)
    cases substituted : b.substitute p with
    | error e => rw [substituted] at inferred; cases inferred
    | ok t =>
      rw [substituted] at inferred
      cases inferred
      obtain ⟨-, element⟩ | ⟨name, -, found⟩ := of_substitute_eq_ok (by simpa using (flat p member).1) substituted
      · exact elements _ element
      · exact within name _ found
  | @dispatch _ _ _ _ table _ _ inductionHypothesis =>
    rw [inferParam?] at inferred
    split at inferred
    next => cases inferred
    next key target candidate =>
      have member := Dispatcher.mem_of_candidate? candidate
      split at inferred
      next t found =>
        cases inferred
        exact inductionHypothesis _ member found
      next =>
        obtain ⟨id, -, scalar⟩ := Option.bind_eq_some_iff.mp inferred
        obtain ⟨k, -, rfl⟩ := Option.map_eq_some_iff.mp scalar
        exact elements _ (.inr ⟨k, rfl⟩)
  | _ =>
    rw [inferParam?] at inferred
    · cases inferred
    all_goals simp

end Callable

end ArrayCall
