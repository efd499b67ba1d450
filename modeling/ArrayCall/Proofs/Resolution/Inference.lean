import ArrayCall.Callable.Build
import ArrayCall.Callable.Infer
import ArrayCall.Proofs.Callable.Built
import ArrayCall.Proofs.DispatchTables

/-!
# What is inferred for a slot

A dispatch table guesses the entry for a call of which one argument is not known: the first that is for the
others exactly, else the first that they promote to. Completed with the category that the entry has for the
missing one, the call is dispatched to that entry. Completion can neither turn the call into one that
another entry is for exactly, nor make an earlier entry accept it.

* `DispatchKey.Completes`: a key has the categories that are known of a call.
* `Dispatcher.dispatch_of_candidate?`, `Dispatcher.dispatch_of_candidate?_eq_none`: the guess and dispatch agree.
* `Callable.inferParam?_dispatch_iff`: over leaves that are declared for their keys, what is inferred is the kind of
  the entry that is guessed.
* `Callable.inferParam?_agrees_with_dispatch`: so what is inferred is what dispatch takes.
-/

namespace ArrayCall

/-- A key has all categories that are known. -/
def DispatchKey.Completes (key : DispatchKey) (known : List (Option TypeId)) : Prop :=
  List.Forall₂ (fun want given => ∀ id ∈ given, id = want) key known

namespace Dispatcher

variable {α : Type} {d : Dispatcher α} {e : DispatchKey × α} {known : List (Option TypeId)} {entry key : DispatchKey}

/-! ## Entries that fit -/

theorem fits_iff {exact : Bool} :
    fits exact entry known ↔
      List.Forall₂ (fun want given => ∀ id ∈ given, id = want ∨ exact = false ∧ id.canPromoteTo want) entry known := by
  rw [fits, Bool.and_eq_true, decide_eq_true_iff, List.forall₂_iff_zip, List.all_eq_true]
  simp only [Prod.forall, Option.all_eq_true, Bool.or_eq_true, Bool.and_eq_true, Bool.not_eq_true', decide_eq_true_iff]
  rfl

theorem fits_exactly_iff : fits true entry known ↔ entry.Completes known := by
  simp [fits_iff, DispatchKey.Completes]

theorem fits_promoted_iff :
    fits false entry known ↔ List.Forall₂ (fun want given => ∀ id ∈ given, id.canPromoteTo want) entry known := by
  have same {id want : TypeId} : id = want → id.canPromoteTo want := fun same => same ▸ id.canPromoteTo_self
  simp [fits_iff, or_iff_right_of_imp same]

/-- An entry that takes a completed key fits what was known. -/
theorem fits_of_promotes (completes : key.Completes known) (promotes : key.Promotes entry) :
    fits false entry known := by
  rw [fits_promoted_iff]
  induction promotes generalizing known with
  | nil =>
    cases completes
    exact .nil
  | cons head _ inductionHypothesis =>
    cases completes with
    | cons agrees completes => exact .cons (fun id given => agrees id given ▸ head) (inductionHypothesis completes)

/-! ## Completion by the entry itself -/

/-- The key has the entry's categories where none was known. -/
def FilledFrom (entry : DispatchKey) (known : List (Option TypeId)) (key : DispatchKey) : Prop :=
  ∀ i : Nat, known[i]? = some none → key[i]? = entry[i]?

theorem eq_of_filledFrom (completes : key.Completes known) (exact : entry.Completes known)
    (filled : FilledFrom entry known key) : key = entry := by
  induction completes generalizing entry with
  | nil =>
    cases exact
    rfl
  | @cons want given key known agrees _ inductionHypothesis =>
    cases exact with
    | @cons want' _ entry _ agrees' exact =>
      have same : want = want' := by
        cases given with
        | none => exact Option.some.inj (filled 0 rfl)
        | some id => exact (agrees id rfl).symm.trans (agrees' id rfl)
      rw [same, inductionHypothesis exact fun i => filled (i + 1)]

theorem promotes_of_filledFrom (completes : key.Completes known) (fit : fits false entry known)
    (filled : FilledFrom entry known key) : key.Promotes entry := by
  rw [fits_promoted_iff] at fit
  induction completes generalizing entry with
  | nil =>
    cases fit
    exact .nil
  | @cons want given key known agrees _ inductionHypothesis =>
    cases fit with
    | @cons want' _ entry _ takes fit =>
      refine .cons ?_ (inductionHypothesis fit fun i => filled (i + 1))
      cases given with
      | none =>
        have same : want = want' := Option.some.inj (filled 0 rfl)
        exact same ▸ want.canPromoteTo_self
      | some id => exact agrees id rfl ▸ takes id rfl

/-! ## The guess -/

theorem candidate?_eq_some_iff :
    d.candidate? known = some e ↔
      d.entries.find? (fun e => fits true e.1 known) = some e ∨
        (∀ e ∈ d.entries, ¬e.1.Completes known) ∧ d.entries.find? (fun e => fits false e.1 known) = some e := by
  simp only [← fits_exactly_iff]
  rw [candidate?]
  cases found : d.entries.find? (fun e => fits true e.1 known) with
  | some exact =>
    have fit := List.find?_some found
    have member := List.mem_of_find?_eq_some found
    simp only [Option.some.injEq, iff_self_or, and_imp]
    exact fun none => absurd fit (none exact member)
  | none => simpa using fun _ => List.find?_eq_none.mp found

theorem length_of_candidate? (guessed : d.candidate? known = some e) : e.1.length = known.length := by
  obtain exact | ⟨-, promoted⟩ := candidate?_eq_some_iff.mp guessed
  · have fit : fits true e.1 known := (List.find?_eq_some_iff_append.mp exact).1
    exact (fits_iff.mp fit).length_eq
  · have fit : fits false e.1 known := (List.find?_eq_some_iff_append.mp promoted).1
    exact (fits_iff.mp fit).length_eq

/-- Completed from the guessed entry, a call is dispatched to that entry. -/
theorem dispatch_of_candidate? (promotion : d.config.promotion = true) (guessed : d.candidate? known = some e)
    (completes : key.Completes known) (filled : FilledFrom e.1 known key) :
    d.dispatch key = .ok e.2 := by
  rw [dispatch_eq_ok_iff, Selects]
  obtain exact | ⟨none, promoted⟩ := candidate?_eq_some_iff.mp guessed
  · have fit : fits true e.1 known := (List.find?_eq_some_iff_append.mp exact).1
    have same := eq_of_filledFrom completes (fits_exactly_iff.mp fit) filled
    exact .inl (same ▸ List.mem_of_find?_eq_some exact)
  · right
    obtain ⟨fit, before, behind, split, earlier⟩ := List.find?_eq_some_iff_append.mp promoted
    refine ⟨?_, promotion, e.1, before, behind, split, promotes_of_filledFrom completes fit filled, ?_⟩
    · intro listed
      obtain ⟨other, member, rfl⟩ := List.mem_map.mp listed
      exact none other member completes
    · intro other member promotes
      have passed := earlier other member
      rw [fits_of_promotes completes promotes] at passed
      cases passed

/-- A call for which no entry can be guessed is not dispatched, whatever completes it. -/
theorem dispatch_of_candidate?_eq_none (none : d.candidate? known = none) (completes : key.Completes known) :
    ∃ position, d.dispatch key = .error position := by
  have unfit : ∀ e ∈ d.entries, ¬fits false e.1 known := by
    rw [candidate?] at none
    split at none
    · cases none
    · simpa using none
  rw [dispatch_fails_iff]
  rintro value (member | ⟨-, -, entry, before, behind, split, promotes, -⟩)
  · have self : key.Promotes key := List.forall₂_same.mpr fun id _ => id.canPromoteTo_self
    exact unfit _ member (fits_of_promotes completes self)
  · exact unfit (entry, value) (by simp [split]) (fits_of_promotes completes promotes)

end Dispatcher

namespace Callable

variable {known : List (Option Ty)} {slot : Nat} {t : Ty} {table : Dispatcher Callable}

/-- A leaf that is declared with just the kinds of a key. -/
inductive DeclaredFor : DispatchKey → Callable → Prop where
  | leaf {kinds : List Kind} {stamp : Nat} {name : String} {sig : Signature} {kernel : Leaf}
    (params : sig.params = kinds.map .scalar) : DeclaredFor (kinds.map .scalar) (.leaf stamp name sig kernel)

theorem DeclaredFor.eq {key key' : DispatchKey} {c : Callable} (declared : DeclaredFor key c)
    (declared' : DeclaredFor key' c) : key = key' := by
  cases declared with
  | @leaf kinds _ _ _ _ params =>
    cases declared' with
    | @leaf kinds' _ _ _ _ params' =>
      have scalars : Function.Injective Ty.scalar := fun _ _ same => Ty.scalar.inj same
      rw [List.map_injective_iff.mpr scalars (params.symm.trans params')]

theorem DeclaredFor.exists_kind {key : DispatchKey} {c : Callable} (declared : DeclaredFor key c)
    (inside : slot < key.length) : ∃ kind, key[slot]? = some (.scalar kind) := by
  cases declared with
  | @leaf kinds =>
    rw [List.length_map] at inside
    exact ⟨kinds[slot], by rw [List.getElem?_map, List.getElem?_eq_getElem inside]; rfl⟩

/-- A leaf over kinds can only infer the kind that it is declared with. -/
theorem DeclaredFor.of_inferParam? {key : DispatchKey} {c : Callable} (declared : DeclaredFor key c)
    (inferred : c.inferParam? known slot = some t) : ∃ kind, key[slot]? = some (.scalar kind) ∧ t = .scalar kind := by
  cases declared with
  | @leaf kinds _ _ sig _ params =>
    rw [inferParam?] at inferred
    obtain ⟨b, -, inferred⟩ := Option.bind_eq_some_iff.mp inferred
    obtain ⟨p, param, inferred⟩ := Option.bind_eq_some_iff.mp inferred
    rw [params, List.getElem?_map] at param
    obtain ⟨kind, found, rfl⟩ := Option.map_eq_some_iff.mp param
    exact ⟨kind, by rw [List.getElem?_map, found]; rfl, (Option.some.inj inferred).symm⟩

/-- What a table over such leaves infers is the kind of the entry that it guesses. -/
theorem inferParam?_dispatch_iff {stamp : Nat} {name : String} {sig : Signature}
    (declared : ∀ e ∈ table.entries, DeclaredFor e.1 e.2) :
    (dispatch stamp name sig table).inferParam? known slot = some t ↔
      ∃ e kind, table.candidate? (known.map (·.map Ty.typeId)) = some e ∧ e.1[slot]? = some (.scalar kind) ∧
        t = .scalar kind := by
  rw [inferParam?]
  split
  next none => simp [none]
  next key target guessed =>
    have leaf := declared (key, target) (Dispatcher.mem_of_candidate? guessed)
    simp only [guessed, Option.some.injEq, exists_and_left, exists_eq_left']
    split
    next t' inferred =>
      obtain ⟨kind, found, rfl⟩ := leaf.of_inferParam? inferred
      simp [found, eq_comm]
    next =>
      cases found : key[slot]? with
      | none => simp
      | some id => cases id <;> simp [TypeId.scalarKind?, eq_comm]

/-- The categories of a call of which nothing else is missing than one type. -/
def completed (known : List (Option Ty)) (t : Ty) : DispatchKey := known.map fun given => (given.getD t).typeId

theorem completes_completed (known : List (Option Ty)) (t : Ty) :
    (completed known t).Completes (known.map (·.map Ty.typeId)) := by
  rw [DispatchKey.Completes, completed, List.forall₂_map_left_iff, List.forall₂_map_right_iff, List.forall₂_same]
  rintro (_ | given) - id member <;> cases member
  rfl

/-- A type is the kind that an entry has at a slot, and this entry is the one that is guessed from the other
arguments, the one that the completed call is dispatched to, and the only one with its leaf. -/
structure InferredFrom (table : Dispatcher Callable) (known : List (Option Ty)) (slot : Nat) (t : Ty)
    (e : DispatchKey × Callable) : Prop where
  member : e ∈ table.entries
  guessed : table.candidate? (known.map (·.map Ty.typeId)) = some e
  kind : ∃ kind, e.1[slot]? = some (.scalar kind) ∧ t = .scalar kind
  dispatched : table.dispatch (completed known t) = .ok e.2
  only : ∀ e' ∈ table.entries, e'.2 = e.2 → e' = e

section

variable {stamp : Nat} {name : String} {sig : Signature} (declared : ∀ e ∈ table.entries, DeclaredFor e.1 e.2)
  (asked : ∀ i, known[i]? = some none ↔ i = slot)

include declared asked

theorem inferParam?_eq_some_iff (promotion : table.config.promotion = true) :
    (dispatch stamp name sig table).inferParam? known slot = some t ↔ ∃ e, InferredFrom table known slot t e := by
  rw [inferParam?_dispatch_iff declared]
  constructor
  · rintro ⟨e, kind, guessed, found, rfl⟩
    have member := Dispatcher.mem_of_candidate? guessed
    refine ⟨e, member, guessed, ⟨kind, found, rfl⟩, ?_, fun e' member' same => ?_⟩
    · refine Dispatcher.dispatch_of_candidate? promotion guessed (completes_completed known _) ?_
      intro i missing
      obtain rfl : i = slot := (asked i).mp (by simpa using missing)
      rw [found, completed, List.getElem?_map, (asked i).mpr rfl]
      rfl
    · have declared' := declared e' member'
      exact List.inj_on_of_nodup_map table.nodup_keys member' member ((same ▸ declared').eq (declared e member))
  · rintro ⟨e, -, guessed, ⟨kind, found, same⟩, -, -⟩
    exact ⟨e, kind, guessed, found, same⟩

theorem dispatch_of_inferParam?_eq_none (none : (dispatch stamp name sig table).inferParam? known slot = none)
    (t : Ty) :
    ∃ position, table.dispatch (completed known t) = .error position := by
  refine Dispatcher.dispatch_of_candidate?_eq_none ?_ (completes_completed known t)
  by_contra guesses
  obtain ⟨e, guessed⟩ := Option.ne_none_iff_exists'.mp guesses
  have inside : slot < e.1.length := by
    rw [Dispatcher.length_of_candidate? guessed, List.length_map]
    exact (List.getElem?_eq_some_iff.mp ((asked slot).mpr rfl)).1
  obtain ⟨kind, found⟩ := (declared e (Dispatcher.mem_of_candidate? guessed)).exists_kind inside
  cases none.symm.trans ((inferParam?_dispatch_iff declared).mpr ⟨e, kind, guessed, found, rfl⟩)

end

/-- Inference and dispatch agree. What is inferred for the one slot that is missing is the kind of the very entry to
which the call is dispatched that is completed with it, and nothing is inferred just if there is no type with which
the call would be dispatched at all. -/
theorem inferParam?_agrees_with_dispatch {stamp : Nat} {name : String} {arity : Nat} {config : DispatchConfig}
    {history : List (DispatchKey × Callable)} {c : Callable} {known : List (Option Ty)} {slot : Nat}
    (promotion : config.promotion = true)
    (built : ofTable stamp name arity (Dispatcher.after config history) = .ok c)
    (declared : ∀ e ∈ (Dispatcher.after config history).entries, DeclaredFor e.1 e.2)
    (asked : ∀ i, known[i]? = some none ↔ i = slot) :
    (∀ t, c.inferParam? known slot = some t ↔ ∃ e, InferredFrom (Dispatcher.after config history) known slot t e) ∧
      (c.inferParam? known slot = none ↔
        ∀ t, ∃ position, (Dispatcher.after config history).dispatch (completed known t) = .error position) := by
  obtain ⟨rfl, -⟩ := of_ofTable_eq_ok built
  have promotes := (congrArg DispatchConfig.promotion (Dispatcher.config_after config history)).trans promotion
  refine ⟨fun t => inferParam?_eq_some_iff declared asked promotes, ?_⟩
  constructor
  · exact dispatch_of_inferParam?_eq_none declared asked
  · intro fails
    rw [Option.eq_none_iff_forall_ne_some]
    intro t inferred
    obtain ⟨e, entry⟩ := (inferParam?_eq_some_iff declared asked promotes).mp inferred
    obtain ⟨position, failed⟩ := fails t
    cases failed.symm.trans entry.dispatched

/-- Beside a small integer the slot is inferred from the first entry that takes it, although a later one would
take it as well. Beside a large integer nothing is inferred, and nothing is dispatched. -/
theorem inferParam?_beside_integers :
    let single : List Kind := [.int .w32, .int .w32]
    let double : List Kind := [.float64, .float64]
    let leafOver (name : String) (kinds : List Kind) : Callable :=
      .leaf 0 name ⟨kinds.map .scalar, [], .scalar .float64⟩ ⟨.fixed .assign, none⟩
    let history := [(double.map .scalar, leafOver "double" double), (single.map .scalar, leafOver "single" single)]
    let table := Dispatcher.after {} history
    let c : Callable := .dispatch 0 "f" ⟨[.any, .any], [], .any⟩ table
    ofTable 0 "f" 2 table = .ok c ∧
      c.inferParam? [some (.scalar (.int .w16)), none] 1 = some (.scalar .float64) ∧
      table.dispatch [.scalar (.int .w16), .scalar .float64] = .ok (leafOver "double" double) ∧
      c.inferParam? [some (.scalar (.int .w64)), none] 1 = none ∧
      ∀ t : Ty, ∃ position, table.dispatch [.scalar (.int .w64), t.typeId] = .error position := by
  intro single double leafOver history table c
  have built : ofTable 0 "f" 2 table = .ok c := rfl
  have declared : ∀ e ∈ table.entries, DeclaredFor e.1 e.2 := by
    have listed : table.entries = history := rfl
    rw [listed]
    simp only [history, List.forall_mem_cons, List.not_mem_nil, false_imp_iff, implies_true, and_true]
    exact ⟨.leaf rfl, .leaf rfl⟩
  have asked (given : Ty) (i : Nat) : [some given, none][i]? = some none ↔ i = 1 := by
    match i with
    | 0 => simp
    | 1 => simp
    | i + 2 => simp
  have agrees := fun given => inferParam?_agrees_with_dispatch rfl built declared (asked given)
  have inferred : c.inferParam? [some (.scalar (.int .w16)), none] 1 = some (.scalar .float64) :=
    (inferParam?_dispatch_iff declared).mpr ⟨_, .float64, rfl, rfl, rfl⟩
  have missing : c.inferParam? [some (.scalar (.int .w64)), none] 1 = none := by
    rw [Option.eq_none_iff_forall_ne_some]
    intro t found
    obtain ⟨e, kind, guessed, -⟩ := (inferParam?_dispatch_iff declared).mp found
    cases guessed
  obtain ⟨e, entry⟩ := ((agrees (.scalar (.int .w16))).1 _).mp inferred
  cases entry.guessed
  exact ⟨built, inferred, entry.dispatched, missing, (agrees (.scalar (.int .w64))).2.mp missing⟩

end Callable

end ArrayCall
