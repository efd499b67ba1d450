import Mathlib.Data.List.Forall2

/-!
# Results and errors

When a sequence of computations that may fail gives a result, and what it is.
-/

namespace ArrayCall

variable {ε α β : Type}

theorem bind_eq_ok_iff {first : Except ε α} {next : α → Except ε β} {b : β} :
    (first >>= next) = .ok b ↔ ∃ a, first = .ok a ∧ next a = .ok b := by
  constructor
  · intro ran
    cases first with
    | error e => cases ran
    | ok a => exact ⟨a, rfl, ran⟩
  · rintro ⟨a, rfl, ran⟩
    exact ran

theorem bind_congr_of_eq_ok {x : Except ε α} {next next' : α → Except ε β} (same : ∀ a, x = .ok a → next a = next' a) :
    (x >>= next) = (x >>= next') := by
  cases x with
  | error e => rfl
  | ok a => exact same a rfl

theorem map_eq_ok_iff {f : α → β} {x : Except ε α} {b : β} : x.map f = .ok b ↔ ∃ a, x = .ok a ∧ f a = b := by
  cases x <;> simp [Except.map]

theorem mapError_eq_ok_iff {ε' : Type} {f : ε → ε'} {x : Except ε α} {a : α} :
    x.mapError f = .ok a ↔ x = .ok a := by
  cases x <;> simp [Except.mapError]

/-- A list is gone through to its end just if each element gives its result. -/
theorem mapM_eq_ok_iff {f : α → Except ε β} {list : List α} {results : List β} :
    list.mapM f = .ok results ↔ List.Forall₂ (fun a b => f a = .ok b) list results := by
  induction list generalizing results with
  | nil => cases results <;> simp [pure, Except.pure]
  | cons a list inductionHypothesis =>
    rw [List.mapM_cons, bind_eq_ok_iff, List.forall₂_cons_left_iff]
    constructor
    · rintro ⟨b, first, ran⟩
      obtain ⟨rest, others, same⟩ := bind_eq_ok_iff.mp ran
      cases same
      exact ⟨b, rest, first, inductionHypothesis.mp others, rfl⟩
    · rintro ⟨b, rest, first, others, rfl⟩
      exact ⟨b, first, bind_eq_ok_iff.mpr ⟨rest, inductionHypothesis.mpr others, rfl⟩⟩

theorem length_of_mapM_eq_ok {f : α → Except ε β} {list : List α} {results : List β}
    (succeeded : list.mapM f = .ok results) : results.length = list.length :=
  (mapM_eq_ok_iff.mp succeeded).length_eq.symm

theorem mapM_succeeds {f : α → Except ε β} {list : List α}
    (each : ∀ a ∈ list, ∃ b, f a = .ok b) : ∃ results, list.mapM f = .ok results := by
  induction list with
  | nil => exact ⟨[], rfl⟩
  | cons a list inductionHypothesis =>
    obtain ⟨⟨b, first⟩, others⟩ := List.forall_mem_cons.mp each
    obtain ⟨results, rest⟩ := inductionHypothesis others
    exact ⟨b :: results, mapM_eq_ok_iff.mpr (.cons first (mapM_eq_ok_iff.mp rest))⟩

/-- Where each element and its result are two views of one thing, there is a list of those things. -/
theorem exists_map_eq_of_forall₂ {γ : Type} {f : γ → α} {g : γ → β} {list : List α} {results : List β}
    (each : List.Forall₂ (fun a b => ∃ c, f c = a ∧ g c = b) list results) :
    ∃ views : List γ, views.map f = list ∧ views.map g = results := by
  induction each with
  | nil => exact ⟨[], rfl, rfl⟩
  | cons first _ inductionHypothesis =>
    obtain ⟨c, rfl, rfl⟩ := first
    obtain ⟨views, rfl, rfl⟩ := inductionHypothesis
    exact ⟨c :: views, rfl, rfl⟩

/-! ## Errors -/

/-- Whatever error there is has a property. -/
def Fails (P : ε → Prop) (x : Except ε α) : Prop := ∀ e, x = .error e → P e

variable {P : ε → Prop}

theorem fails_ok (a : α) : Fails P (.ok a) := fun _ failed => nomatch failed

theorem fails_error {e : ε} (holds : P e) : Fails P (.error e : Except ε α) := by
  intro e' failed
  cases failed
  exact holds

theorem fails_bind {first : Except ε α} {next : α → Except ε β} (here : Fails P first)
    (later : ∀ a, first = .ok a → Fails P (next a)) : Fails P (first >>= next) := by
  cases first with
  | error e => exact fails_error (here e rfl)
  | ok a => exact later a rfl

theorem fails_mapError {ε' : Type} {Q : ε' → Prop} {f : ε → ε'} {x : Except ε α} (fails : Fails P x)
    (takes : ∀ e, P e → Q (f e)) : Fails Q (x.mapError f) := by
  cases x with
  | error e => exact fails_error (takes e (fails e rfl))
  | ok a => exact fails_ok a

theorem fails_mapM {f : α → Except ε β} {list : List α} (each : ∀ a ∈ list, Fails P (f a)) : Fails P (list.mapM f) := by
  induction list with
  | nil => exact fails_ok _
  | cons a list inductionHypothesis =>
    obtain ⟨first, others⟩ := List.forall_mem_cons.mp each
    rw [List.mapM_cons]
    exact fails_bind first fun b _ => fails_bind (inductionHypothesis others) fun _ _ => fails_ok _

/-! ## Two computations -/

/-- Both computations fail with one error, or both give a result and the results are related. -/
inductive Alike (R : α → β → Prop) : Except ε α → Except ε β → Prop
  | error (e : ε) : Alike R (.error e) (.error e)
  | ok {a : α} {b : β} (related : R a b) : Alike R (.ok a) (.ok b)

variable {γ δ : Type} {R : α → β → Prop} {S : γ → δ → Prop}

theorem Alike.bind {x : Except ε α} {y : Except ε β} {next : α → Except ε γ} {next' : β → Except ε δ}
    (alike : Alike R x y) (later : ∀ a b, R a b → Alike S (next a) (next' b)) :
    Alike S (x >>= next) (y >>= next') := by
  cases alike with
  | error e => exact .error e
  | ok related => exact later _ _ related

theorem Alike.imp {R' : α → β → Prop} {x : Except ε α} {y : Except ε β} (alike : Alike R x y)
    (weaker : ∀ a b, x = .ok a → y = .ok b → R a b → R' a b) : Alike R' x y := by
  cases alike with
  | error e => exact .error e
  | ok related => exact .ok (weaker _ _ rfl rfl related)

/-- Where two computations give two views of one thing for each element, they do so for a list. -/
theorem alike_mapM {κ ι : Type} {list : List κ} {f : κ → Except ε α} {g : κ → Except ε β} {view : κ → ι} {key : γ → ι}
    {left : γ → α} {right : γ → β}
    (each : ∀ k ∈ list, Alike (fun a b => ∃ c, key c = view k ∧ left c = a ∧ right c = b) (f k) (g k)) :
    Alike (fun as bs => ∃ cs : List γ, cs.map key = list.map view ∧ cs.map left = as ∧ cs.map right = bs)
      (list.mapM f) (list.mapM g) := by
  induction list with
  | nil => exact .ok ⟨[], rfl, rfl, rfl⟩
  | cons k list inductionHypothesis =>
    obtain ⟨first, others⟩ := List.forall_mem_cons.mp each
    rw [List.mapM_cons, List.mapM_cons]
    refine first.bind fun a b here => (inductionHypothesis others).bind fun as bs rest => ?_
    obtain ⟨c, same, rfl, rfl⟩ := here
    obtain ⟨cs, all, rfl, rfl⟩ := rest
    exact .ok ⟨c :: cs, by rw [List.map_cons, List.map_cons, same, all], rfl, rfl⟩

theorem alike_mapM_of_alike {κ : Type} {list : List κ} {f : κ → Except ε α} {g : κ → Except ε β}
    (each : ∀ k ∈ list, Alike (fun _ _ => True) (f k) (g k)) : Alike (fun _ _ => True) (list.mapM f) (list.mapM g) := by
  have pairs : ∀ k ∈ list, Alike (fun a b => ∃ c : α × β, () = () ∧ c.1 = a ∧ c.2 = b) (f k) (g k) :=
    fun k member => (each k member).imp fun a b _ _ _ => ⟨(a, b), rfl, rfl, rfl⟩
  exact (alike_mapM pairs).imp fun _ _ _ _ _ => trivial

end ArrayCall
