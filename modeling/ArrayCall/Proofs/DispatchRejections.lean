import ArrayCall.Proofs.DispatchTables

/-!
# Where dispatch fails

Each argument of a call rules out entries of a dispatch table, until there are none left. The place at which
dispatch fails is that of the argument which ruled out the last of them: an entry of the key's length takes
the arguments in front of it, and none takes them together with this one (`Dispatcher.TakesFront`).

* `Dispatcher.firstRejected_eq_iff`: what the search for that place finds, as long as no entry takes all arguments.
* `Dispatcher.dispatch_after_eq_error_iff`: so dispatch fails at a place just if the arguments are ruled out there.
-/

namespace ArrayCall.Dispatcher

variable {α : Type} {d : Dispatcher α} {key entry : DispatchKey} {promotion : Bool} {position m n : Nat}

/-- An entry for as many arguments as the key has takes the first `n` of them: they are of its categories or, with
promotion, convert to these. -/
def TakesFirst (promotion : Bool) (entry key : DispatchKey) (n : Nat) : Prop :=
  entry.length = key.length ∧
    if promotion then DispatchKey.Promotes (key.take n) (entry.take n) else entry.take n = key.take n

/-- Some entry of the table takes the first `n` arguments. -/
def TakesFront (d : Dispatcher α) (key : DispatchKey) (n : Nat) : Prop :=
  ∃ e ∈ d.entries, TakesFirst d.config.promotion e.1 key n

theorem TakesFirst.of_le (takes : TakesFirst promotion entry key n) (less : m ≤ n) :
    TakesFirst promotion entry key m := by
  obtain ⟨length, fits⟩ := takes
  refine ⟨length, ?_⟩
  rw [← Nat.min_eq_left less, ← List.take_take, ← List.take_take]
  cases promotion with
  | true => exact List.forall₂_take m fits
  | false => exact congrArg (List.take m) fits

theorem TakesFront.of_le (takes : d.TakesFront key n) (less : m ≤ n) : d.TakesFront key m := by
  obtain ⟨e, member, first⟩ := takes
  exact ⟨e, member, first.of_le less⟩

theorem takesFirst_iff_accepts :
    TakesFirst promotion entry key n ↔
      entry.length = key.length ∧ accepts promotion (entry.take n) (key.take n) := by
  rw [TakesFirst, accepts_iff]

instance : Decidable (TakesFirst promotion entry key n) := decidable_of_iff _ takesFirst_iff_accepts.symm

theorem takesFirst_length_iff : TakesFirst promotion entry key key.length ↔ accepts promotion entry key := by
  rw [takesFirst_iff_accepts, List.take_length]
  constructor
  · rintro ⟨length, accepted⟩
    rwa [List.take_of_length_le (Nat.le_of_eq length)] at accepted
  · intro accepted
    have length : entry.length = key.length := by simp_all [accepts]
    rw [List.take_of_length_le (Nat.le_of_eq length)]
    exact ⟨length, accepted⟩

theorem accepts_self (promotion : Bool) (key : DispatchKey) : accepts promotion key key := by
  rw [accepts_iff]
  cases promotion with
  | true => exact List.forall₂_same.mpr fun id _ => id.canPromoteTo_self
  | false => rfl

/-- Dispatch fails where no entry takes all arguments. -/
theorem dispatch_eq_error_iff_firstRejected :
    d.dispatch key = .error position ↔ ¬d.TakesFront key key.length ∧ d.firstRejected key = position := by
  simp only [TakesFront, takesFirst_length_iff, not_exists, not_and]
  rw [dispatch]
  cases known : d.find? key with
  | some value =>
    refine iff_of_false (fun failed => by cases failed) fun ruled => ?_
    exact ruled.1 (key, value) (find?_eq_some_iff.mp known) (accepts_self _ _)
  | none =>
    dsimp only
    cases found : d.entries.find? (fun e => accepts d.config.promotion e.1 key) with
    | some e =>
      refine iff_of_false (fun failed => by cases failed) fun ruled => ?_
      exact ruled.1 e (List.mem_of_find?_eq_some found) (by simpa using List.find?_some found)
    | none =>
      rw [Except.error.injEq]
      exact (and_iff_right (List.find?_eq_none.mp found)).symm

/-- The arguments are ruled out at one place at most. -/
theorem TakesFront.unique (ruled : ¬d.TakesFront key (m + 1)) (before : 0 < m → d.TakesFront key m)
    (ruled' : ¬d.TakesFront key (n + 1)) (before' : 0 < n → d.TakesFront key n) : m = n := by
  apply Nat.le_antisymm
  · exact Nat.le_of_not_lt fun less => ruled' ((before (by omega)).of_le less)
  · exact Nat.le_of_not_lt fun less => ruled ((before' (by omega)).of_le less)

/-- The search stops at the first argument up to which no entry is left. -/
theorem firstRejected_eq_iff (some : key ≠ []) (missed : ¬d.TakesFront key key.length) :
    d.firstRejected key = position ↔
      position < key.length ∧ ¬d.TakesFront key (position + 1) ∧ (0 < position → d.TakesFront key position) := by
  have rejected : ∀ i, (!((d.entries.map (·.1)).filter (·.length = key.length)).any fun entry =>
      accepts d.config.promotion (entry.take (i + 1)) (key.take (i + 1))) = true ↔ ¬d.TakesFront key (i + 1) := by
    intro i
    simp [TakesFront, takesFirst_iff_accepts]
  have length := List.length_pos_of_ne_nil some
  rw [firstRejected]
  generalize found : List.find? _ (List.range key.length) = first
  cases first with
  | none =>
    have last := List.find?_eq_none.mp found (key.length - 1) (List.mem_range.mpr (by omega))
    rw [rejected, not_not, Nat.sub_add_cancel length] at last
    exact absurd last missed
  | some i =>
    obtain ⟨ruled, inside, before⟩ := List.find?_range_eq_some.mp found
    have inside := List.mem_range.mp inside
    have ruled := (rejected i).mp ruled
    have before : 0 < i → d.TakesFront key i := by
      intro positive
      have here := before (i - 1) (by omega)
      rwa [Bool.not_eq_true', ← Bool.not_eq_true, rejected, not_not, Nat.sub_add_cancel positive] at here
    rw [Option.getD_some]
    constructor
    · rintro rfl
      exact ⟨inside, ruled, before⟩
    · rintro ⟨-, ruled', before'⟩
      exact TakesFront.unique ruled before ruled' before'

theorem dispatch_eq_error_iff (some : key ≠ []) :
    d.dispatch key = .error position ↔
      position < key.length ∧ ¬d.TakesFront key (position + 1) ∧ (0 < position → d.TakesFront key position) := by
  rw [dispatch_eq_error_iff_firstRejected]
  constructor
  · rintro ⟨missed, found⟩
    exact (firstRejected_eq_iff some missed).mp found
  · intro ruled
    have missed : ¬d.TakesFront key key.length := mt (TakesFront.of_le · ruled.1) ruled.2.1
    exact ⟨missed, (firstRejected_eq_iff some missed).mpr ruled⟩

/-- Whatever was inserted in a table, dispatch fails at an argument just if some entry for as many arguments takes
those in front of it and none takes them together with it. -/
theorem dispatch_after_eq_error_iff (config : DispatchConfig) (history : List (DispatchKey × α)) {key : DispatchKey}
    (some : key ≠ []) (position : Nat) :
    (after config history).dispatch key = .error position ↔
      position < key.length ∧
        (∀ e ∈ (after config history).entries, ¬TakesFirst config.promotion e.1 key (position + 1)) ∧
        (0 < position → ∃ e ∈ (after config history).entries, TakesFirst config.promotion e.1 key position) := by
  rw [dispatch_eq_error_iff some, TakesFront, TakesFront, config_after, not_exists]
  simp only [not_and]

/-- Of an `int16` and a `float32` the first is taken by one entry and the second by another, but no entry for two
arguments takes both. -/
theorem dispatch_after_rejects_second_argument :
    let int (w : Width) : TypeId := .scalar (.int w)
    let history : List (DispatchKey × Nat) :=
      [([int .w64, int .w64], 0), ([.scalar .bool, .scalar .float32], 1), ([int .w16, .scalar .float32, int .w8], 2)]
    let key : DispatchKey := [int .w16, .scalar .float32]
    key ≠ [] ∧ (after ⟨.reject, true⟩ history).dispatch key = .error 1 := by
  intro int history key
  have some : key ≠ [] := List.cons_ne_nil _ _
  exact ⟨some, (dispatch_after_eq_error_iff ⟨.reject, true⟩ history some 1).mpr (by decide)⟩

end ArrayCall.Dispatcher
