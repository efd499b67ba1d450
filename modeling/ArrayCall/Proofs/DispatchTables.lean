import ArrayCall.Dispatcher
import ArrayCall.Proofs.Elements
import Mathlib.Data.List.Forall2
import Mathlib.Data.List.Induction
import Mathlib.Data.List.Nodup

/-!
# Dispatch tables after a history of insertions

A dispatch table is filled by insertions, some of which may be refused. What it holds then follows from
the sequence of insertions alone: it is an ordered table (`Dispatcher.Tabulates`) of the distinct keys.

* `Dispatcher.Tabulates.offer`: what one insertion, accepted or refused, does to an ordered table.
* `Dispatcher.tabulates_after`: what a whole history comes to.
* `Dispatcher.after_refines_orderedTable`: a table is known by its history, in what it lists, in what it
  refuses and in what it dispatches to.
-/

namespace ArrayCall

theorem TypeId.canPromoteTo_self (id : TypeId) : id.canPromoteTo id := by
  cases id with
  | scalar k => exact k.canPromoteTo_self
  | _ => rfl

/-- Arguments of the categories `key` can be converted to the categories `entry`, one by one. -/
def DispatchKey.Promotes (key entry : DispatchKey) : Prop :=
  List.Forall₂ (fun given want => given.canPromoteTo want) key entry

/-- The index of keys that are all different. -/
def KeyIndex.ofDistinct (keys : List DispatchKey) (distinct : keys.Nodup) : KeyIndex where
  keys := keys
  places := keys.zipIdx
  inStep key i := by
    have listed {j : Nat} : (key, j) ∈ keys.zipIdx ↔ keys[j]? = some key := List.mem_zipIdx_iff_getElem?
    have found {j : Nat} (place : keys.zipIdx.lookup key = some j) : keys[j]? = some key := by
      obtain ⟨before, behind, split, -⟩ := List.lookup_eq_some_iff.mp place
      exact listed.mp (split ▸ List.mem_append_right _ List.mem_cons_self)
    refine ⟨found, fun there => ?_⟩
    cases place : keys.zipIdx.lookup key with
    | none => simpa using List.lookup_eq_none_iff.mp place _ (listed.mpr there)
    | some j =>
      have inside := (List.getElem?_eq_some_iff.mp there).1
      exact congrArg some ((List.getElem?_inj inside distinct).mp (there.trans (found place).symm)).symm

namespace Dispatcher

variable {α : Type} {d : Dispatcher α} {key : DispatchKey} {value : α}

/-! ## Look-up by key -/

theorem getElem?_entries {i : Nat} :
    d.entries[i]? = some (key, value) ↔ d.index.find? key = some i ∧ d.values[i]? = some value := by
  rw [entries, List.getElem?_zip_eq_some, KeyIndex.find?_eq_some_iff]

/-- The index knows one place for a key, so the table has the key no more than once. -/
theorem nodup_keys (d : Dispatcher α) : (d.entries.map (·.1)).Nodup := by
  rw [List.nodup_iff_getElem?_ne_getElem?]
  intro i j before inside same
  rw [List.length_map] at inside
  have later : d.entries[j]? = some (d.entries[j].1, d.entries[j].2) := List.getElem?_eq_getElem inside
  rw [List.getElem?_map, List.getElem?_map, later, Option.map_some, Option.map_eq_some_iff] at same
  obtain ⟨⟨key, value⟩, earlier, equal⟩ := same
  have place := (getElem?_entries.mp earlier).1.symm.trans (equal ▸ (getElem?_entries.mp later).1)
  exact before.ne (Option.some.inj place)

theorem find?_eq_some_iff : d.find? key = some value ↔ (key, value) ∈ d.entries := by
  simp only [find?, Option.bind_eq_some_iff, List.mem_iff_getElem?, getElem?_entries]

theorem find?_eq_none_iff : d.find? key = none ↔ key ∉ d.entries.map (·.1) := by
  simp [Option.eq_none_iff_forall_ne_some, find?_eq_some_iff]

/-- Looking a key up in the index is searching the entries for it. -/
theorem find?_eq_find?_entries (d : Dispatcher α) (key : DispatchKey) :
    d.find? key = (d.entries.find? (·.1 == key)).map (·.2) := by
  cases found : d.entries.find? (·.1 == key) with
  | none =>
    rw [Option.map_none, find?_eq_none_iff]
    rintro listed
    obtain ⟨e, member, same⟩ := List.mem_map.mp listed
    exact List.find?_eq_none.mp found e member (beq_iff_eq.mpr same)
  | some e =>
    obtain rfl : e.1 = key := by simpa using List.find?_some found
    exact find?_eq_some_iff.mpr (List.mem_of_find?_eq_some found)

/-! ## One insertion -/

/-- A table that has a value for each of its keys. -/
def Balanced (d : Dispatcher α) : Prop := d.values.length = d.index.keys.length

theorem Balanced.keys_eq (balanced : d.Balanced) : d.entries.map (·.1) = d.index.keys :=
  List.map_fst_zip balanced.ge

theorem Balanced.find?_index_eq_none_iff (balanced : d.Balanced) :
    d.index.find? key = none ↔ key ∉ d.entries.map (·.1) := by
  rw [balanced.keys_eq, KeyIndex.find?_eq_none_iff]

theorem insert_of_new (new : d.index.find? key = none) :
    d.insert key value = (.ok (), { d with index := d.index.push key new, values := d.values ++ [value] }) := by
  unfold insert
  split
  next => rfl
  next i known => cases new.symm.trans known

theorem insert_of_known {i : Nat} (known : d.index.find? key = some i) :
    d.insert key value =
      match d.config.policy with
      | .firstWins => (.ok (), d)
      | .lastWins => (.ok (), { d with values := d.values.set i value })
      | .reject => (.error key, d) := by
  unfold insert
  split
  next new => cases new.symm.trans known
  next j found =>
    cases known.symm.trans found
    rfl

/-- An insertion is refused for the one reason that its key is there and may not come again. -/
theorem insert_eq_error_iff (balanced : d.Balanced) {refused : DispatchKey} :
    (d.insert key value).1 = .error refused ↔
      refused = key ∧ d.config.policy = .reject ∧ key ∈ d.entries.map (·.1) := by
  have listed : ¬d.index.find? key = none ↔ key ∈ d.entries.map (·.1) := by
    rw [balanced.find?_index_eq_none_iff, not_not]
  rw [← listed]
  cases found : d.index.find? key with
  | none => simp [insert_of_new found]
  | some i =>
    rw [insert_of_known found]
    cases d.config.policy <;> simp [eq_comm]

/-- A refused insertion leaves the table as it was. -/
theorem insert_of_error {refused : DispatchKey} (failed : (d.insert key value).1 = .error refused) :
    (d.insert key value).2 = d := by
  cases found : d.index.find? key with
  | none =>
    rw [insert_of_new found] at failed
    cases failed
  | some i =>
    rw [insert_of_known found] at failed ⊢
    revert failed
    cases d.config.policy <;> simp

/-- The entries with the value of one key replaced. -/
def replace (key : DispatchKey) (value : α) (entries : List (DispatchKey × α)) : List (DispatchKey × α) :=
  entries.map fun e => if e.1 = key then (e.1, value) else e

/-- The value that takes the place of another one is that of the same key. -/
theorem entries_set {i : Nat} (known : d.index.find? key = some i) (value : α) :
    entries { d with values := d.values.set i value } = replace key value d.entries := by
  have own : ∀ other j, d.index.keys[j]? = some other → (other = key ↔ j = i) := by
    intro other j there
    constructor
    · rintro rfl
      exact Option.some.inj ((KeyIndex.find?_eq_some_iff.mpr there).symm.trans known)
    · rintro rfl
      exact Option.some.inj (there.symm.trans (KeyIndex.find?_eq_some_iff.mp known))
  refine List.ext_getElem? fun j => ?_
  simp only [entries, replace, List.zip, List.getElem?_map, List.getElem?_zipWith, List.getElem?_set]
  cases there : d.index.keys[j]? with
  | none => rfl
  | some other =>
    have same := own other j there
    cases held : d.values[j]? <;> grind

/-- The table that an insertion leaves, accepted or refused. -/
def offer (d : Dispatcher α) (e : DispatchKey × α) : Dispatcher α := (d.insert e.1 e.2).2

theorem Balanced.offer (balanced : d.Balanced) (e : DispatchKey × α) : (d.offer e).Balanced := by
  rw [Dispatcher.offer]
  cases found : d.index.find? e.1 with
  | none =>
    rw [insert_of_new found]
    simpa [Balanced, KeyIndex.push] using balanced
  | some i =>
    rw [insert_of_known found]
    cases d.config.policy <;> simpa [Balanced] using balanced

theorem entries_offer_of_new {e : DispatchKey × α} (balanced : d.Balanced) (new : e.1 ∉ d.entries.map (·.1)) :
    (d.offer e).entries = d.entries ++ [e] := by
  rw [offer, insert_of_new (balanced.find?_index_eq_none_iff.mpr new)]
  exact List.zip_append balanced.symm

theorem entries_offer_of_known {e : DispatchKey × α} (known : e.1 ∈ d.entries.map (·.1)) :
    (d.offer e).entries = if d.config.policy = .lastWins then replace e.1 e.2 d.entries else d.entries := by
  obtain ⟨⟨key, value⟩, member, rfl⟩ := List.mem_map.mp known
  obtain ⟨i, there⟩ := List.mem_iff_getElem?.mp member
  have place := (getElem?_entries.mp there).1
  rw [offer, insert_of_known place]
  cases d.config.policy with
  | lastWins => exact entries_set place e.2
  | _ => rfl

theorem config_offer (d : Dispatcher α) (e : DispatchKey × α) : (d.offer e).config = d.config := by
  rw [offer]
  cases found : d.index.find? e.1 with
  | none => rw [insert_of_new found]
  | some i =>
    rw [insert_of_known found]
    cases d.config.policy <;> rfl

/-- The table that a sequence of insertions leaves. -/
def after (config : DispatchConfig) (history : List (DispatchKey × α)) : Dispatcher α :=
  history.foldl offer (empty config)

theorem after_concat (config : DispatchConfig) (history : List (DispatchKey × α)) (e : DispatchKey × α) :
    after config (history ++ [e]) = (after config history).offer e := by
  rw [after, List.foldl_append]
  rfl

/-- A table that is made of entries, none of which is refused, is what their insertion leaves. -/
theorem after_eq_of_ofEntries_eq_ok {config : DispatchConfig} {history : List (DispatchKey × α)}
    (made : ofEntries config history = .ok d) : after config history = d := by
  rw [ofEntries] at made
  rw [after]
  generalize empty config = start at made ⊢
  induction history generalizing start with
  | nil => exact Except.ok.inj made
  | cons e history inductionHypothesis =>
    rw [List.foldlM_cons] at made
    rw [List.foldl_cons, offer]
    rcases step : start.insert e.1 e.2 with ⟨_ | _, next⟩ <;> rw [step] at made
    · cases made
    · exact inductionHypothesis next made

theorem config_after (config : DispatchConfig) (history : List (DispatchKey × α)) :
    (after config history).config = config := by
  induction history using List.reverseRecOn with
  | nil => rfl
  | append_singleton history e inductionHypothesis =>
    rw [after_concat, config_offer, inductionHypothesis]

/-! ## Ordered tables -/

/-- The insertions of a history in the order in which they count: the first of a key stays, unless the
last is to take its place. -/
def ranked (policy : DuplicatePolicy) (history : List (DispatchKey × α)) : List (DispatchKey × α) :=
  match policy with
  | .lastWins => history.reverse
  | _ => history

/-- The distinct keys of a history in the order in which they came, each with the value that counts. -/
structure Tabulates (policy : DuplicatePolicy) (history entries : List (DispatchKey × α)) : Prop where
  keys : entries.map (·.1) = (history.map (·.1)).eraseDups
  values : ∀ e ∈ entries, (ranked policy history).find? (·.1 == e.1) = some e

theorem eraseDups_concat {β : Type} [BEq β] [LawfulBEq β] (list : List β) (b : β) [Decidable (b ∈ list)] :
    (list ++ [b]).eraseDups = if b ∈ list then list.eraseDups else list.eraseDups ++ [b] := by
  rw [List.eraseDups_append, List.removeAll]
  by_cases member : b ∈ list
  · simp [member]
  · simp [member, List.eraseDups_cons]

variable {policy : DuplicatePolicy} {history : List (DispatchKey × α)}

theorem Tabulates.mem_keys_iff (tabulates : Tabulates policy history d.entries) :
    key ∈ d.entries.map (·.1) ↔ key ∈ history.map (·.1) := by
  rw [tabulates.keys, List.mem_eraseDups]

/-- What counts for a key does not change with the insertion of another one. -/
theorem find?_ranked_concat_of_ne {e : DispatchKey × α} (other : e.1 ≠ key) :
    (ranked policy (history ++ [e])).find? (·.1 == key) = (ranked policy history).find? (·.1 == key) := by
  cases policy <;> simp [ranked, List.find?_append, other]

/-- The first insertion of a key counts. -/
theorem find?_ranked_concat_of_new {e : DispatchKey × α} (new : e.1 ∉ history.map (·.1)) :
    (ranked policy (history ++ [e])).find? (·.1 == e.1) = some e := by
  have none : history.find? (·.1 == e.1) = none := by
    rw [List.find?_eq_none]
    intro earlier member same
    exact new (beq_iff_eq.mp same ▸ List.mem_map_of_mem member)
  cases policy <;> simp [ranked, List.find?_append, none]

/-- A later insertion counts only if the last of a key is to take the place of the first. -/
theorem find?_ranked_concat_of_found {e found : DispatchKey × α} (stays : policy ≠ .lastWins)
    (known : (ranked policy history).find? (·.1 == key) = some found) :
    (ranked policy (history ++ [e])).find? (·.1 == key) = some found := by
  have order (other : List (DispatchKey × α)) : ranked policy other = other := by
    cases policy with
    | lastWins => exact absurd rfl stays
    | _ => rfl
  rw [order] at known
  rw [order, List.find?_append, known, Option.some_or]

theorem find?_ranked_concat_of_lastWins (history : List (DispatchKey × α)) (e : DispatchKey × α) :
    (ranked .lastWins (history ++ [e])).find? (·.1 == e.1) = some e := by
  simp [ranked]

theorem map_fst_replace (key : DispatchKey) (value : α) (entries : List (DispatchKey × α)) :
    (replace key value entries).map (·.1) = entries.map (·.1) := by
  rw [replace, List.map_map]
  refine List.map_congr_left fun e _ => ?_
  rw [Function.comp_apply]
  split <;> rfl

/-- One insertion, accepted or refused, keeps a table ordered. -/
theorem Tabulates.offer (tabulates : Tabulates d.config.policy history d.entries) (balanced : d.Balanced)
    (e : DispatchKey × α) :
    Tabulates d.config.policy (history ++ [e]) (d.offer e).entries := by
  by_cases known : e.1 ∈ d.entries.map (·.1)
  · have keys : d.entries.map (·.1) = ((history ++ [e]).map (·.1)).eraseDups := by
      rw [List.map_append, List.map_singleton, eraseDups_concat, if_pos (tabulates.mem_keys_iff.mp known),
        tabulates.keys]
    rw [entries_offer_of_known known]
    split
    next last =>
      refine ⟨(map_fst_replace ..).trans keys, fun entry member => ?_⟩
      obtain ⟨old, listed, rfl⟩ := List.mem_map.mp member
      split
      next same => exact same ▸ last ▸ find?_ranked_concat_of_lastWins history e
      next differs => exact (find?_ranked_concat_of_ne (Ne.symm differs)).trans (tabulates.values old listed)
    next stays => exact ⟨keys, fun entry member => find?_ranked_concat_of_found stays (tabulates.values entry member)⟩
  · have new := mt tabulates.mem_keys_iff.mpr known
    rw [entries_offer_of_new balanced known]
    refine ⟨?_, fun entry member => ?_⟩
    · rw [List.map_append, List.map_append, List.map_singleton, eraseDups_concat, if_neg new, tabulates.keys]
    · rcases List.mem_append.mp member with member | member
      · have other : e.1 ≠ entry.1 := by
          intro same
          exact known (same ▸ List.mem_map_of_mem member)
        exact (find?_ranked_concat_of_ne other).trans (tabulates.values entry member)
      · obtain rfl := List.mem_singleton.mp member
        exact find?_ranked_concat_of_new new

theorem balanced_after (config : DispatchConfig) (history : List (DispatchKey × α)) :
    (after config history).Balanced := by
  induction history using List.reverseRecOn with
  | nil => rfl
  | append_singleton history e inductionHypothesis =>
    rw [after_concat]
    exact inductionHypothesis.offer e

/-- Whatever was inserted, the table is ordered. -/
theorem tabulates_after (config : DispatchConfig) (history : List (DispatchKey × α)) :
    Tabulates config.policy history (after config history).entries := by
  induction history using List.reverseRecOn with
  | nil => exact ⟨rfl, fun e none => nomatch none⟩
  | append_singleton history e inductionHypothesis =>
    have step := Tabulates.offer (d := after config history) (by rwa [config_after]) (balanced_after config history) e
    rwa [config_after, ← after_concat] at step

/-! ## Dispatch -/

/-- Without promotion an entry accepts its own key alone, with promotion all that promotes to its categories. -/
theorem accepts_iff {promotion : Bool} {entry : DispatchKey} :
    accepts promotion entry key ↔ if promotion then key.Promotes entry else entry = key := by
  induction entry generalizing key with
  | nil => cases key <;> cases promotion <;> simp [accepts, DispatchKey.Promotes]
  | cons want entry inductionHypothesis =>
    cases key with
    | nil => cases promotion <;> simp [accepts, DispatchKey.Promotes]
    | cons given key =>
      have step : accepts promotion (want :: entry) (given :: key) ↔
          (given = want ∨ promotion ∧ given.canPromoteTo want) ∧ accepts promotion entry key := by
        simp [accepts]
        tauto
      rw [step, inductionHypothesis]
      cases promotion with
      | false => simp [@eq_comm _ given want]
      | true =>
        have same : given = want → given.canPromoteTo want := fun same => same ▸ given.canPromoteTo_self
        simp only [if_true, DispatchKey.Promotes, List.forall₂_cons, true_and, or_iff_right_of_imp same]

/-- What an ordered table gives for a key: the value of that key, else with promotion that of the first
entry that the key promotes to. -/
def Selects (promotion : Bool) (entries : List (DispatchKey × α)) (key : DispatchKey) (value : α) : Prop :=
  (key, value) ∈ entries ∨
    key ∉ entries.map (·.1) ∧ promotion ∧ ∃ entry before behind, entries = before ++ (entry, value) :: behind ∧
      key.Promotes entry ∧ ∀ e ∈ before, ¬key.Promotes e.1

theorem exists_find?_accepts_iff {promotion : Bool} {entries : List (DispatchKey × α)}
    (new : key ∉ entries.map (·.1)) :
    (∃ entry, entries.find? (fun e => accepts promotion e.1 key) = some (entry, value)) ↔
      promotion ∧ ∃ entry before behind, entries = before ++ (entry, value) :: behind ∧
        key.Promotes entry ∧ ∀ e ∈ before, ¬key.Promotes e.1 := by
  rw [← exists_and_left]
  refine exists_congr fun entry => ?_
  rw [List.find?_eq_some_iff_append]
  simp only [accepts_iff, Bool.not_eq_true', ← Bool.not_eq_true]
  cases promotion with
  | true => simp only [if_true, true_and]; tauto
  | false =>
    simp only [Bool.false_eq_true, if_false, false_and, iff_false]
    rintro ⟨same, before, behind, split, -⟩
    exact new (split ▸ by simp [same])

/-- Dispatch gives what the table selects. -/
theorem dispatch_eq_ok_iff :
    d.dispatch key = .ok value ↔ Selects d.config.promotion d.entries key value := by
  rw [dispatch, Selects, ← find?_eq_some_iff, ← find?_eq_none_iff]
  cases found : d.find? key with
  | some kept => simp
  | none =>
    rw [← exists_find?_accepts_iff (find?_eq_none_iff.mp found)]
    simp only [reduceCtorEq, false_or, true_and]
    cases d.entries.find? (fun e => accepts d.config.promotion e.1 key) with
    | none => simp
    | some e => simp [Prod.ext_iff, eq_comm]

theorem dispatch_fails_iff :
    (∃ position, d.dispatch key = .error position) ↔ ∀ value, ¬Selects d.config.promotion d.entries key value := by
  simp only [← dispatch_eq_ok_iff]
  cases d.dispatch key <;> simp

/-- A table is known by its history: it lists the distinct keys in the order in which they first came, each
with the value that the policy keeps; it refuses just the keys that it has already, if they may not come
again, and is then as it was; and it gives for a key what it has for just that key, else what its first
entry has that the key promotes to. -/
theorem after_refines_orderedTable (config : DispatchConfig) (history : List (DispatchKey × α)) :
    Tabulates config.policy history (after config history).entries ∧
      (∀ key value refused, ((after config history).insert key value).1 = .error refused ↔
        refused = key ∧ config.policy = .reject ∧ key ∈ history.map (·.1)) ∧
      (∀ key value refused, ((after config history).insert key value).1 = .error refused →
        ((after config history).insert key value).2 = after config history) ∧
      (∀ key value, (after config history).dispatch key = .ok value ↔
        Selects config.promotion (after config history).entries key value) ∧
      ∀ key, (∃ position, (after config history).dispatch key = .error position) ↔
        ∀ value, ¬Selects config.promotion (after config history).entries key value := by
  have tabulates := tabulates_after config history
  refine ⟨tabulates, fun key value refused => ?_, fun key value refused failed => ?_, fun key value => ?_,
    fun key => ?_⟩
  · rw [insert_eq_error_iff (balanced_after config history), config_after, tabulates.mem_keys_iff]
  · exact insert_of_error failed
  · rw [dispatch_eq_ok_iff, config_after]
  · rw [dispatch_fails_iff, config_after]

/-- A repeated key is refused and changes nothing. An entry for just the key given comes before an earlier
one that it promotes to, and without such an entry promotion decides. -/
theorem after_refuses_repeated_key :
    let single : DispatchKey := [.scalar (.int .w32)]
    let double : DispatchKey := [.scalar .float64]
    let history : List (DispatchKey × Nat) := [(double, 0), (single, 1)]
    let d : Dispatcher Nat := after ⟨.reject, true⟩ history
    (d.insert single 2).1 = .error single ∧ (d.insert single 2).2 = d ∧
      d.dispatch single = .ok 1 ∧ d.dispatch [.scalar (.int .w16)] = .ok 0 ∧
      ∃ position, d.dispatch [.scalar (.int .w64)] = .error position := by
  intro single double history d
  obtain ⟨-, refuses, unchanged, selects, -⟩ := after_refines_orderedTable ⟨.reject, true⟩ history
  have refused : (d.insert single 2).1 = .error single := (refuses ..).mpr ⟨rfl, rfl, by decide⟩
  refine ⟨refused, unchanged _ _ _ refused, (selects ..).mpr (.inl (by decide)), (selects ..).mpr (.inr ?_), ?_⟩
  · exact ⟨by decide, rfl, double, [], [(single, 1)], rfl, .cons (by decide) .nil, by simp⟩
  · exact ⟨0, rfl⟩

end Dispatcher

end ArrayCall
