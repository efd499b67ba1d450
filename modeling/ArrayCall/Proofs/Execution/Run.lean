import ArrayCall.Execution

/-!
# Actions on memory

How actions compose when seen from one memory, and how naming a kernel in their errors goes
through them: it goes into a sequence step by step (`Run.within_bind`, `Run.within_forEach`), and
of two names the inner one stays (`Run.within_within`).
-/

namespace ArrayCall.Run

variable {α β : Type}

/-! ## Composition -/

/-- A sequence on one memory: the first action, and unless it fails the second on the memory
that the first leaves. -/
theorem bind_apply (first : Run α) (next : α → Run β) (m : Memory) :
    (first >>= next) m = match first m with
      | (.ok a, m') => next a m'
      | (.error e, m') => (.error e, m') := by
  rcases ran : first m with ⟨_ | a, m'⟩
  · simp [bind, ExceptT.bind, ExceptT.mk, ExceptT.bindCont, StateT.bind, ran]
    rfl
  · simp [bind, ExceptT.bind, ExceptT.mk, ExceptT.bindCont, StateT.bind, ran]

@[simp] theorem pure_apply (a : α) (m : Memory) : (pure a : Run α) m = (.ok a, m) := rfl

@[simp] theorem fail_apply (fault : ExecutionFault) (m : Memory) :
    (fail fault : Run α) m = (.error (.execution none fault), m) := rfl

@[simp] theorem ofExcept_ok (a : α) : ofExcept (.ok a : Except ExecutionFault α) = pure a := rfl

@[simp] theorem ofExcept_error (fault : ExecutionFault) :
    ofExcept (.error fault : Except ExecutionFault α) = fail fault := rfl

@[simp] theorem fail_bind (fault : ExecutionFault) (next : α → Run β) : (fail fault >>= next) = fail fault := rfl

theorem forFrom_congr {act act' : Nat → Run Unit} (start count : Nat)
    (same : ∀ i, start ≤ i → i < start + count → act i = act' i) :
    forFrom act start count = forFrom act' start count := by
  induction count generalizing start with
  | zero => rfl
  | succ count inductionHypothesis =>
    rw [forFrom, forFrom, same start (Nat.le_refl _) (by omega),
      inductionHypothesis (start + 1) fun i least below => same i (by omega) (by omega)]

theorem forEach_congr {act act' : Nat → Run Unit} {count : Nat} (same : ∀ i < count, act i = act' i) :
    forEach count act = forEach count act' :=
  forFrom_congr 0 count fun i _ below => same i (by omega)

/-- Reordering and the like of a list of sources, when no source is missing. -/
theorem mapM_ofExcept_ok {f : α → Except ExecutionFault β} {g : α → β} {list : List α}
    (succeeds : ∀ a ∈ list, f a = .ok (g a)) :
    list.mapM (fun a => ofExcept (f a)) = (pure (list.map g) : Run (List β)) := by
  induction list with
  | nil => rfl
  | cons a list inductionHypothesis =>
    rw [List.mapM_cons, succeeds a List.mem_cons_self, ofExcept_ok, pure_bind,
      inductionHypothesis fun b member => succeeds b (List.mem_cons_of_mem a member), pure_bind, List.map_cons]

/-! ## Naming the kernel -/

theorem within_apply (kernel : Kernel) (act : Run α) (m : Memory) :
    within kernel act m = ((act m).1.mapError (·.withKernel kernel.name), (act m).2) := rfl

theorem within_bind (kernel : Kernel) (first : Run α) (next : α → Run β) :
    within kernel (first >>= next) = within kernel first >>= fun a => within kernel (next a) := by
  funext m
  rw [within_apply, bind_apply, bind_apply, within_apply]
  obtain ⟨result, m'⟩ := first m
  cases result <;> rfl

theorem withKernel_withKernel (e : CallError) (inner outer : String) :
    (e.withKernel inner).withKernel outer = e.withKernel inner := by
  cases e with
  | execution kernel fault => cases kernel <;> rfl
  | _ => rfl

/-- The innermost kernel that an error passed through is the one that it names. -/
@[simp] theorem within_within (outer inner : Kernel) (act : Run α) :
    within outer (within inner act) = within inner act := by
  funext m
  rw [within_apply, within_apply]
  obtain ⟨result, m'⟩ := act m
  cases result with
  | ok a => rfl
  | error e => exact congrArg (fun e => (Except.error e, m')) (withKernel_withKernel e _ _)

theorem within_forFrom (kernel : Kernel) (act : Nat → Run Unit) (start count : Nat) :
    within kernel (forFrom act start count) = forFrom (fun i => within kernel (act i)) start count := by
  induction count generalizing start with
  | zero => rfl
  | succ count inductionHypothesis => rw [forFrom, forFrom, within_bind, inductionHypothesis]

theorem within_forEach (kernel : Kernel) (count : Nat) (act : Nat → Run Unit) :
    within kernel (forEach count act) = forEach count fun i => within kernel (act i) :=
  within_forFrom kernel act 0 count

end ArrayCall.Run
