import ArrayCall.Ty.Basic

/-!
# Dispatch tables

A dispatch table finds a value by the categories of a call's arguments. Entries
keep the order in which they were first inserted.

* `Dispatcher.insert` treats a repeated key as the table's policy says.
* `Dispatcher.dispatch` takes the entry of just that key; otherwise, if promotion
  is on, the first entry that every argument promotes to.
-/

namespace ArrayCall

/-- What happens when a key or a name is registered twice. -/
inductive DuplicatePolicy where
  /-- The first registration stays. -/
  | firstWins
  /-- The last registration takes the place of the first. -/
  | lastWins
  /-- A second registration fails. -/
  | reject
  deriving DecidableEq, Inhabited

/-- How dispatch tables behave. -/
structure DispatchConfig where
  policy : DuplicatePolicy := .firstWins
  promotion : Bool := true
  deriving DecidableEq, Inhabited

/-- The categories of the arguments that an entry is for. -/
abbrev DispatchKey := List TypeId

def DispatchKey.render (key : DispatchKey) : String :=
  ", ".intercalate (key.map TypeId.render)

/-- The keys of a table in the order of first insertion, and a map from each to its
place, which is always in step with them. -/
structure KeyIndex where
  keys : List DispatchKey
  places : List (DispatchKey × Nat)
  inStep : ∀ key i, places.lookup key = some i ↔ keys[i]? = some key

namespace KeyIndex

def empty : KeyIndex := ⟨[], [], by simp⟩

instance : Inhabited KeyIndex := ⟨empty⟩

def find? (x : KeyIndex) (key : DispatchKey) : Option Nat := x.places.lookup key

theorem find?_eq_some_iff {x : KeyIndex} {key : DispatchKey} {i : Nat} :
    x.find? key = some i ↔ x.keys[i]? = some key := x.inStep key i

theorem find?_eq_none_iff {x : KeyIndex} {key : DispatchKey} : x.find? key = none ↔ key ∉ x.keys := by
  rw [List.mem_iff_getElem?]
  simp only [← find?_eq_some_iff, ← Option.eq_none_iff_forall_ne_some, not_exists]

/-- Puts a new key behind the others. -/
def push (x : KeyIndex) (key : DispatchKey) (new : x.find? key = none) : KeyIndex where
  keys := x.keys ++ [key]
  places := x.places ++ [(key, x.keys.length)]
  inStep other i := by
    have old := x.inStep other i
    have unknown : x.places.lookup key = none := new
    rw [List.lookup_append]
    by_cases same : other = key
    · subst same
      rw [unknown] at old ⊢
      grind
    · grind

end KeyIndex

/-- Values by key, in the order of first insertion: at the place that the index knows for
a key stands its value. -/
structure Dispatcher (α : Type) where
  index : KeyIndex
  values : List α
  config : DispatchConfig

namespace Dispatcher

variable {α : Type}

def empty (config : DispatchConfig) : Dispatcher α := ⟨.empty, [], config⟩

def entries (d : Dispatcher α) : List (DispatchKey × α) := d.index.keys.zip d.values

/-- The value of a key, which the index knows the place of. -/
def find? (d : Dispatcher α) (key : DispatchKey) : Option α :=
  (d.index.find? key).bind (d.values[·]?)

/-- Adds an entry, unless it is refused. A key that the table has already is treated as
the policy says; the error is the key that was refused. -/
def insert (d : Dispatcher α) (key : DispatchKey) (value : α) :
    Except DispatchKey Unit × Dispatcher α :=
  match found : d.index.find? key with
  | none => (.ok (), { d with index := d.index.push key found, values := d.values ++ [value] })
  | some i =>
    match d.config.policy with
    | .firstWins => (.ok (), d)
    | .lastWins => (.ok (), { d with values := d.values.set i value })
    | .reject => (.error key, d)

/-- The table of the given entries, inserted in order. -/
def ofEntries (config : DispatchConfig) (entries : List (DispatchKey × α)) :
    Except DispatchKey (Dispatcher α) :=
  entries.foldlM
    (fun d e =>
      match d.insert e.1 e.2 with
      | (.ok (), d) => .ok d
      | (.error key, _) => .error key)
    (empty config)

/-- Whether arguments of the categories `key` can be given to an entry for `entry`:
each is the category asked for or, if promotion is on, promotes to it. -/
def accepts (promotion : Bool) (entry key : DispatchKey) : Bool :=
  entry.length = key.length &&
    (entry.zip key).all fun (want, given) =>
      given = want || (promotion && given.canPromoteTo want)

/-- The first argument at which no entry of the right length is left. -/
def firstRejected (d : Dispatcher α) (key : DispatchKey) : Nat :=
  let candidates := (d.entries.map (·.1)).filter (·.length = key.length)
  let rejected (i : Nat) : Bool :=
    !candidates.any fun entry => accepts d.config.promotion (entry.take (i + 1)) (key.take (i + 1))
  ((List.range key.length).find? rejected).getD 0

/-- The value that arguments of the categories `key` are given to. The error is the
place of the first argument that rules out all entries. -/
def dispatch (d : Dispatcher α) (key : DispatchKey) : Except Nat α :=
  match d.find? key with
  | some value => .ok value
  | none =>
    match d.entries.find? (fun e => accepts d.config.promotion e.1 key) with
    | some e => .ok e.2
    | none => .error (d.firstRejected key)

/-- Whether an entry for `key` can take arguments of which some categories are known:
they are the categories asked for or, unless an exact fit is wanted, promote to them. -/
def fits (exact : Bool) (key : DispatchKey) (known : List (Option TypeId)) : Bool :=
  key.length = known.length &&
    (key.zip known).all fun (want, given) =>
      given.all fun given => given = want || (!exact && given.canPromoteTo want)

/-- The first entry that fits known categories exactly, else the first that they
promote to. -/
def candidate? (d : Dispatcher α) (known : List (Option TypeId)) : Option (DispatchKey × α) :=
  match d.entries.find? (fun e => fits true e.1 known) with
  | some e => some e
  | none => d.entries.find? (fun e => fits false e.1 known)

theorem mem_of_candidate? {d : Dispatcher α} {known : List (Option TypeId)}
    {e : DispatchKey × α} (h : d.candidate? known = some e) : e ∈ d.entries := by
  unfold candidate? at h
  split at h
  next found =>
    cases h
    exact List.mem_of_find?_eq_some found
  next => exact List.mem_of_find?_eq_some h

theorem mem_of_find? {d : Dispatcher α} {key : DispatchKey} {value : α} (found : d.find? key = some value) :
    (key, value) ∈ d.entries := by
  obtain ⟨i, place, there⟩ := Option.bind_eq_some_iff.mp found
  have both : d.entries[i]? = some (key, value) :=
    List.getElem?_zip_eq_some.mpr ⟨KeyIndex.find?_eq_some_iff.mp place, there⟩
  exact List.mem_of_getElem? both

/-- What dispatch finds is in the table. -/
theorem exists_mem_of_dispatch {d : Dispatcher α} {key : DispatchKey} {value : α}
    (h : d.dispatch key = .ok value) : ∃ entry, (entry, value) ∈ d.entries := by
  unfold dispatch at h
  split at h
  next found =>
    cases h
    exact ⟨key, mem_of_find? found⟩
  next =>
    split at h
    next e found =>
      cases h
      exact ⟨e.1, List.mem_of_find?_eq_some found⟩
    next => cases h

end Dispatcher

end ArrayCall
