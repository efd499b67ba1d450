/-!
# Tables keyed by name

A `NameTable` maps names to values and lists them in the order of their
characters. Keyword arguments, variable bindings and the registry of callables
are such tables; a set of names is a table of units.

* The order of the entries is part of the type, so two tables that answer every
  look-up alike are equal (`NameTable.ext_get?`).
* `get?_insert` and `get?_erase` say what each operation does to look-up.
-/

namespace ArrayCall

/-- Names with values, strictly ascending by name. -/
structure NameTable (α : Type) where
  entries : List (String × α)
  ordered : entries.Pairwise fun a b => a.1 < b.1
  deriving DecidableEq

namespace NameTable

variable {α : Type}

def empty : NameTable α := ⟨[], .nil⟩

instance : Inhabited (NameTable α) := ⟨empty⟩

/-- The value that a list of entries gives for a name. -/
def lookup (name : String) : List (String × α) → Option α
  | [] => none
  | (n, v) :: rest => if n = name then some v else lookup name rest

def get? (t : NameTable α) (name : String) : Option α := lookup name t.entries

def contains (t : NameTable α) (name : String) : Bool := (t.get? name).isSome

/-- The names of the table, ascending. -/
def names (t : NameTable α) : List String := t.entries.map (·.1)

def size (t : NameTable α) : Nat := t.entries.length

def isEmpty (t : NameTable α) : Bool := t.entries.isEmpty

/-- Puts an entry at its place in an ascending list, over an entry of the same
name. -/
def place (name : String) (value : α) : List (String × α) → List (String × α)
  | [] => [(name, value)]
  | (n, v) :: rest =>
    if name < n then (name, value) :: (n, v) :: rest
    else if name = n then (name, value) :: rest
    else (n, v) :: place name value rest

private theorem lt_of_not_lt_of_ne {a b : String} (h : ¬a < b) (h' : a ≠ b) : b < a := by
  have := String.not_lt.mp h
  rcases Std.le_iff_lt_or_eq.mp this with h | h
  · exact h
  · exact absurd h.symm h'

theorem mem_place {name : String} {value : α} {entries : List (String × α)} {e : String × α}
    (h : e ∈ place name value entries) : e = (name, value) ∨ e ∈ entries := by
  induction entries with
  | nil => simpa [place] using h
  | cons head rest ih =>
    obtain ⟨n, v⟩ := head
    unfold place at h
    split at h
    · simpa using h
    · split at h
      · rcases List.mem_cons.mp h with h | h
        · exact .inl h
        · exact .inr (List.mem_cons_of_mem _ h)
      · rcases List.mem_cons.mp h with h | h
        · exact .inr (h ▸ List.mem_cons_self)
        · exact (ih h).imp_right (List.mem_cons_of_mem _)

theorem ordered_place (name : String) (value : α) {entries : List (String × α)}
    (h : entries.Pairwise fun a b => a.1 < b.1) :
    (place name value entries).Pairwise fun a b => a.1 < b.1 := by
  induction entries with
  | nil => simp [place]
  | cons head rest ih =>
    obtain ⟨n, v⟩ := head
    obtain ⟨first, tail⟩ := List.pairwise_cons.mp h
    unfold place
    split
    next lt =>
      refine List.pairwise_cons.mpr ⟨fun e he => ?_, h⟩
      rcases List.mem_cons.mp he with rfl | he
      · exact lt
      · exact String.lt_trans lt (first e he)
    next notLt =>
      split
      next eq =>
        subst eq
        exact List.pairwise_cons.mpr ⟨first, tail⟩
      next ne =>
        refine List.pairwise_cons.mpr ⟨fun e he => ?_, ih tail⟩
        rcases mem_place he with rfl | he
        · exact lt_of_not_lt_of_ne notLt ne
        · exact first e he

/-- The table with `name` bound to `value`, in place of what it was bound to. -/
def insert (t : NameTable α) (name : String) (value : α) : NameTable α :=
  ⟨place name value t.entries, ordered_place name value t.ordered⟩

/-- The table without the entry of `name`. -/
def erase (t : NameTable α) (name : String) : NameTable α :=
  ⟨t.entries.filter (·.1 ≠ name), t.ordered.filter _⟩

/-- The table that binds each name in turn, later entries winning. -/
def ofList (entries : List (String × α)) : NameTable α :=
  entries.foldl (fun t e => t.insert e.1 e.2) empty

/-- The distinct names of a list, ascending. -/
def sortedNames (names : List String) : List String :=
  (ofList (names.map fun n => (n, ()))).names

theorem lookup_place (name other : String) (value : α) (entries : List (String × α)) :
    lookup other (place name value entries) =
      if other = name then some value else lookup other entries := by
  induction entries with
  | nil => simp [place, lookup, eq_comm]
  | cons head rest ih =>
    obtain ⟨n, v⟩ := head
    unfold place
    split
    · simp [lookup, eq_comm]
    · split
      next eq =>
        subst eq
        by_cases h : other = name
        · simp [lookup, h]
        · simp [lookup, h, Ne.symm h]
      next ne =>
        simp only [lookup, ih]
        by_cases h : other = name
        · subst h
          simp [Ne.symm ne]
        · simp [h]

theorem get?_insert (t : NameTable α) (name other : String) (value : α) :
    (t.insert name value).get? other = if other = name then some value else t.get? other :=
  lookup_place name other value t.entries

@[simp]
theorem get?_insert_self (t : NameTable α) (name : String) (value : α) :
    (t.insert name value).get? name = some value := by
  simp [get?_insert]

@[simp]
theorem get?_empty (name : String) : (empty : NameTable α).get? name = none := rfl

theorem get?_erase (t : NameTable α) (name other : String) :
    (t.erase name).get? other = if other = name then none else t.get? other := by
  obtain ⟨entries, ordered⟩ := t
  simp only [get?, erase]
  clear ordered
  induction entries with
  | nil => simp [lookup]
  | cons head rest ih =>
    obtain ⟨n, v⟩ := head
    by_cases hn : n = name <;> by_cases ho : other = name <;> by_cases hno : n = other <;>
      simp_all [lookup]

theorem lookup_eq_none {name : String} {entries : List (String × α)}
    (h : ∀ e ∈ entries, name < e.1) : lookup name entries = none := by
  induction entries with
  | nil => rfl
  | cons head rest ih =>
    obtain ⟨n, v⟩ := head
    have lt : name < n := h (n, v) List.mem_cons_self
    have ne : n ≠ name := fun eq => String.lt_irrefl name (eq ▸ lt)
    simpa [lookup, ne] using ih fun e he => h e (List.mem_cons_of_mem _ he)

theorem lookup_head (name : String) (value : α) (rest : List (String × α)) :
    lookup name ((name, value) :: rest) = some value := if_pos rfl

/-- A name that is found does not come before the first one. -/
theorem not_lt_of_lookup {name n : String} {value v : α} {rest : List (String × α)}
    (ordered : ((n, v) :: rest).Pairwise fun a b => a.1 < b.1)
    (found : lookup name ((n, v) :: rest) = some value) : ¬name < n := by
  intro lt
  have missing : lookup name ((n, v) :: rest) = none := by
    refine lookup_eq_none fun e member => ?_
    rcases List.mem_cons.mp member with rfl | member
    · exact lt
    · exact String.lt_trans lt ((List.pairwise_cons.mp ordered).1 e member)
  rw [missing] at found
  cases found

/-- Tables are equal if every look-up gives the same answer in both. -/
theorem ext_get? {s t : NameTable α} (h : ∀ name, s.get? name = t.get? name) : s = t := by
  obtain ⟨xs, hx⟩ := s
  obtain ⟨ys, hy⟩ := t
  congr 1
  simp only [get?] at h
  induction xs generalizing ys with
  | nil =>
    cases ys with
    | nil => rfl
    | cons y ys => simpa [lookup] using h y.1
  | cons x xs ih =>
    cases ys with
    | nil => simpa [lookup] using h x.1
    | cons y ys =>
      obtain ⟨xn, xv⟩ := x
      obtain ⟨yn, yv⟩ := y
      obtain ⟨firstX, tailX⟩ := List.pairwise_cons.mp hx
      obtain ⟨firstY, tailY⟩ := List.pairwise_cons.mp hy
      have same : xn = yn := by
        have notBefore : ¬xn < yn := not_lt_of_lookup hy ((h xn).symm.trans (lookup_head xn xv xs))
        have notAfter : ¬yn < xn := not_lt_of_lookup hx ((h yn).trans (lookup_head yn yv ys))
        exact Decidable.byContradiction fun ne => notAfter (lt_of_not_lt_of_ne notBefore ne)
      subst same
      have value : xv = yv := by simpa [lookup] using h xn
      subst value
      have tails : xs = ys := by
        refine ih tailX ys tailY fun name => ?_
        by_cases eq : xn = name
        · subst eq
          rw [lookup_eq_none fun e he => firstX e he, lookup_eq_none fun e he => firstY e he]
        · simpa [lookup, eq] using h name
      rw [tails]

end NameTable

end ArrayCall
