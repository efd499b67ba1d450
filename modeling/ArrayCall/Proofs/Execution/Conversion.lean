import ArrayCall.Proofs.Elements
import ArrayCall.Proofs.Execution.Run
import ArrayCall.Proofs.Memory
import Mathlib.Data.List.Forall2
import Mathlib.Tactic.Choose

/-!
# Conversion

Sources of a kind other than the kernel's are converted into scratch before the kernel runs.
`Node.convertSources_holds` says that the kernel then finds the converted elements at other addresses, and that
no region of the call has changed; integers are still the same ones there (`Node.convertSources_spec`).
-/

namespace ArrayCall

/-- An element of a kind at an address, that stands for an integer. -/
def Memory.HoldsInt (m : Memory) (k : Kind) (a : Addr) (n : Int) : Prop :=
  ∃ bytes, bytes.length = k.size ∧ m.Holds a bytes ∧ k.integer bytes = n

theorem Memory.HoldsInt.congr {m m' : Memory} {k : Kind} {a : Addr} {n : Int} (holds : m.HoldsInt k a n)
    (same : m'.regions[a.region]? = m.regions[a.region]?) : m'.HoldsInt k a n := by
  obtain ⟨bytes, length, stands, value⟩ := holds
  exact ⟨bytes, length, stands.congr same, value⟩

/-! ## Single accesses -/

namespace Run

variable {m : Memory} {a : Addr} {bytes new : Bytes} {k : Kind}

theorem loadBytes_apply (holds : m.Holds a bytes) (length : bytes.length = n) :
    loadBytes a n m = (.ok bytes, m) := by
  have ran : (get : Run Memory) m = (.ok m, m) := rfl
  rw [loadBytes, bind_apply, ran]
  simp only [← length, holds.readBytes_eq, ofExcept_ok, pure_apply]

theorem load_apply (holds : m.Holds a bytes) (length : bytes.length = k.size) :
    load k a m = (.ok (k.decode bytes), m) := by
  rw [load, bind_apply, loadBytes_apply holds length]
  rfl

theorem storeBytes_apply (writable : m.Writable a new.length) : storeBytes a new m = (.ok (), m.put a new) := by
  have ran : (get : Run Memory) m = (.ok m, m) := rfl
  rw [storeBytes, bind_apply, ran]
  simp only [writable.checkWrite_eq, ofExcept_ok, pure_bind]
  rfl

theorem store_apply {value : Scalar} (writable : m.Writable a k.size) :
    store k a value m = (.ok (), m.put a (value.encode k)) :=
  storeBytes_apply ((length_encode k value).symm ▸ writable)

theorem scratch_apply {base : Nat} (own : m.OwnScratch base) (node slot length : Nat) :
    ∃ region m', scratch node slot length m = (.ok ⟨region, 0⟩, m') ∧ m'.OwnScratch base ∧
      m.Reserves (node, slot) length region m' :=
  ⟨_, _, rfl, Memory.scratch_spec own node slot length⟩

end Run

/-! ## Sources -/

/-- Each source has a step of its own, from the kind that it has to the one that the kernel wants. -/
theorem ConvertPlan.between_map {α : Type} (elements : List α) (given want : α → Kind) (actual kernel : Kind) :
    ConvertPlan.between (elements.map given) (elements.map want) (some actual) (some kernel) =
      ⟨elements.map fun e => ConvertPlan.step (given e) (want e), ConvertPlan.step actual kernel⟩ := by
  rw [ConvertPlan.between, List.zipWith_map, List.zipWith_self]

/-- The bytes of an element of one kind, read as that kind and written as another. Nothing is done to them where the
kinds are the same. -/
def Kind.convert (k kind : Kind) (bytes : Bytes) : Bytes :=
  if k = kind then bytes else (k.decode bytes).encode kind

theorem Kind.length_convert {k kind : Kind} {bytes : Bytes} (length : bytes.length = k.size) :
    (k.convert kind bytes).length = kind.size := by
  unfold convert
  split
  next same => rw [length, same]
  next => exact length_encode kind _

theorem Kind.map_convert_self {ε : Type} (k : Kind) (x : Except ε Bytes) : x.map (k.convert k) = x := by
  have same : k.convert k = id := funext fun _ => if_pos rfl
  rw [same]
  cases x <;> rfl

/-- An element that a kernel is given: where it is, the kind that it has, the kind that the kernel takes, and its
bytes. -/
structure SourceElement where
  address : Addr
  given : Kind
  want : Kind
  bytes : Bytes

/-- It stands in a region of the call. -/
structure SourceElement.Held (base : Nat) (m : Memory) (e : SourceElement) : Prop where
  inside : e.address.region < base
  length_eq : e.bytes.length = e.given.size
  holds : m.Holds e.address e.bytes

theorem SourceElement.Held.congr {base : Nat} {m m' : Memory} {e : SourceElement} (held : e.Held base m)
    (same : m'.regions[e.address.region]? = m.regions[e.address.region]?) : e.Held base m' :=
  ⟨held.inside, held.length_eq, held.holds.congr same⟩

/-- A region of the call, or one that serves a slot of a node before a given one. -/
def Memory.InUse (m : Memory) (base id slot region : Nat) : Prop :=
  region < base ∨ ∃ earlier < slot, m.slotRegion? (id, earlier) = some region

/-- The scratch of a slot is no region that is in use before that slot. -/
theorem Memory.InUse.ne {m m' : Memory} {base id slot length place region : Nat}
    (used : m.InUse base id slot place) (own : m'.OwnScratch base) (reserves : m.Reserves (id, slot) length region m') :
    place ≠ region := by
  rintro rfl
  obtain below | ⟨earlier, before, there⟩ := used
  · obtain ⟨least, -⟩ := own.owned _ _ reserves.slotRegion?_eq
    omega
  · have same := own.distinct _ _ _ (reserves.kept _ _ there) reserves.slotRegion?_eq
    exact absurd (congrArg Prod.snd same) (Nat.ne_of_lt before)

/-- An element that a kernel is given, that stands for an integer. -/
structure Operand where
  address : Addr
  kind : Kind
  value : Int

namespace Node

/-- Converts one element into the scratch of a slot. -/
def converted (id slot : Nat) (given want : Kind) (a : Addr) : Run Addr := do
  let place ← Run.scratch id slot want.size
  Run.store want place (← Run.load given a)
  return place

theorem convertSources_cons_some {id slot : Nat} {given want : Kind} {a : Addr} {src : List Addr}
    {plan : List (Option (Kind × Kind))} :
    convertSources id slot (a :: src) (some (given, want) :: plan) = (do
      let place ← converted id slot given want a
      return place :: (← convertSources id (slot + 1) src plan)) := by
  simp only [convertSources, converted, bind_assoc, pure_bind]

theorem converted_spec {m : Memory} {base : Nat} (own : m.OwnScratch base) (id slot : Nat) {e : SourceElement}
    (held : e.Held base m) :
    ∃ region m', converted id slot e.given e.want e.address m = (.ok ⟨region, 0⟩, m') ∧ m'.OwnScratch base ∧
      m.Reserves (id, slot) e.want.size region m' ∧ m'.Holds ⟨region, 0⟩ ((e.given.decode e.bytes).encode e.want) := by
  obtain ⟨region, m', reserved, own', reserves⟩ := Run.scratch_apply own id slot e.want.size
  -- Scratch stands behind the regions of the call, so asking for it leaves the element where it is.
  obtain ⟨least, -⟩ := own'.owned _ _ reserves.slotRegion?_eq
  have inside := held.inside
  have held' := held.congr (reserves.frame _ (by omega))
  have encoded := length_encode e.want (e.given.decode e.bytes)
  have writable := reserves.writable
  refine ⟨region, _, ?_, own'.put ⟨region, 0⟩ ((e.given.decode e.bytes).encode e.want), ?_, ?_⟩
  · rw [converted, Run.bind_apply, reserved]
    simp only [Run.bind_apply, Run.load_apply held'.holds held'.length_eq, Run.store_apply writable]
    rfl
  · refine ⟨reserves.slotRegion?_eq, writable.put _ _, reserves.kept, fun i differs => ?_⟩
    rw [Memory.getElem?_put_of_ne differs, reserves.frame i differs]
  · exact Memory.Writable.holds_put (encoded.symm ▸ writable)

/-- What the conversion of sources leaves of a memory: the regions of the call, and those of the slots
that came before. -/
structure Converts (m : Memory) (base id slot : Nat) (m' : Memory) : Prop where
  own : m'.OwnScratch base
  kept : ∀ other r, m.slotRegion? other = some r → m'.slotRegion? other = some r
  frame : ∀ i, (i < base ∨ ∃ earlier < slot, m.slotRegion? (id, earlier) = some i) →
    m'.regions[i]? = m.regions[i]?

section Converts

variable {m m₁ m' : Memory} {base id slot : Nat}

theorem Converts.of_succ (converts : Converts m base id (slot + 1) m') : Converts m base id slot m' where
  own := converts.own
  kept := converts.kept
  frame i old := converts.frame i (old.imp_right fun ⟨earlier, before, there⟩ => ⟨earlier, by omega, there⟩)

/-- Slots have regions of their own, so the scratch of a slot is no region of the call or of another slot. -/
theorem Converts.after {length region : Nat} (own : m₁.OwnScratch base)
    (reserves : m.Reserves (id, slot) length region m₁) (converts : Converts m₁ base id (slot + 1) m') :
    Converts m base id slot m' where
  own := converts.own
  kept other r found := converts.kept other r (reserves.kept other r found)
  frame i old := by
    have other : i ≠ region := by
      rintro rfl
      obtain below | ⟨earlier, before, there⟩ := old
      · obtain ⟨least, -⟩ := own.owned _ _ reserves.slotRegion?_eq
        omega
      · have same := own.distinct _ _ _ (reserves.kept _ _ there) reserves.slotRegion?_eq
        exact absurd (congrArg Prod.snd same) (Nat.ne_of_lt before)
    rw [converts.frame i, reserves.frame i other]
    exact old.imp_right fun ⟨earlier, before, there⟩ => ⟨earlier, by omega, reserves.kept _ _ there⟩

end Converts

/-- By induction over the sources: a converted one stays as it is while those behind it are converted,
since their slots are others. -/
theorem convertSources_holds {base : Nat} (id slot : Nat) {bound : Nat} {elements : List SourceElement} {m : Memory}
    (own : m.OwnScratch base) (held : ∀ e ∈ elements, e.Held base m) (within : slot + elements.length ≤ bound) :
    ∃ places m', convertSources id slot (elements.map (·.address))
        (elements.map fun e => ConvertPlan.step e.given e.want) m = (.ok places, m') ∧
      Converts m base id slot m' ∧
      List.Forall₂ (fun (place : Addr) (e : SourceElement) => m'.Holds place (e.given.convert e.want e.bytes) ∧
        m'.InUse base id bound place.region) places elements := by
  induction elements generalizing slot m with
  | nil => exact ⟨[], m, rfl, ⟨own, fun _ _ found => found, fun _ _ => rfl⟩, .nil⟩
  | cons e elements inductionHypothesis =>
    obtain ⟨first, held⟩ := List.forall_mem_cons.mp held
    rw [List.length_cons] at within
    have later : slot + 1 + elements.length ≤ bound := by omega
    rw [List.map_cons, List.map_cons, ConvertPlan.step]
    split
    next same =>
      obtain ⟨places, m', ran, converts, rest⟩ := inductionHypothesis (slot + 1) own held later
      refine ⟨e.address :: places, m', ?_, converts.of_succ, .cons ⟨?_, .inl first.inside⟩ rest⟩
      · rw [convertSources, Run.bind_apply, ran]
        rfl
      · rw [Kind.convert, if_pos same]
        exact first.holds.congr (converts.frame _ (.inl first.inside))
    next differs =>
      obtain ⟨region, m₁, ran, own₁, reserves, held₁⟩ := converted_spec own id slot first
      obtain ⟨least, -⟩ := own₁.owned _ _ reserves.slotRegion?_eq
      have others : ∀ e ∈ elements, e.Held base m₁ := by
        intro e member
        have inside := (held e member).inside
        exact (held e member).congr (reserves.frame _ (by omega))
      obtain ⟨places, m', ranRest, converts, rest⟩ := inductionHypothesis (slot + 1) own₁ others later
      refine ⟨⟨region, 0⟩ :: places, m', ?_, converts.after own₁ reserves, .cons ⟨?_, .inr ⟨slot, by omega, ?_⟩⟩ rest⟩
      · simp only [convertSources_cons_some, Run.bind_apply, ran, ranRest]
        rfl
      · rw [Kind.convert, if_neg differs]
        exact held₁.congr (converts.frame region (.inr ⟨slot, by omega, reserves.slotRegion?_eq⟩))
      · exact converts.kept _ _ reserves.slotRegion?_eq

/-- Elements of integer kinds stand for the same integers once they are converted. -/
theorem convertSources_spec {kind : Kind} (integer : kind.IsInteger) {base : Nat} (id slot : Nat)
    {operands : List Operand} {m : Memory} (own : m.OwnScratch base)
    (kinds : ∀ o ∈ operands, o.kind.isFloat = false ∧ o.kind.canPromoteTo kind)
    (holds : ∀ o ∈ operands, o.address.region < base ∧ m.HoldsInt o.kind o.address o.value) :
    ∃ places m', convertSources id slot (operands.map (·.address))
        (operands.map fun o => ConvertPlan.step o.kind kind) m = (.ok places, m') ∧
      Converts m base id slot m' ∧
      List.Forall₂ (fun place (o : Operand) => m'.HoldsInt kind place o.value) places operands := by
  have stands : ∀ o ∈ operands, ∃ bytes, bytes.length = o.kind.size ∧ m.Holds o.address bytes ∧
      o.kind.integer bytes = o.value := fun o member => (holds o member).2
  choose! bytes length stands value using stands
  have held : ∀ e ∈ operands.map fun o => ⟨o.address, o.kind, kind, bytes o⟩, SourceElement.Held base m e := by
    intro e member
    obtain ⟨o, listed, rfl⟩ := List.mem_map.mp member
    exact ⟨(holds o listed).1, length o listed, stands o listed⟩
  obtain ⟨places, m', ran, converts, found⟩ := convertSources_holds id slot own held (Nat.le_refl _)
  simp only [List.map_map, Function.comp_def] at ran
  refine ⟨places, m', ran, converts, ?_⟩
  rw [List.forall₂_map_right_iff] at found
  refine (List.Forall₂.flip ((List.forall₂_and_left _ _).mpr ⟨fun o member => member, found.flip⟩)).imp ?_
  rintro place o ⟨member, there, -⟩
  refine ⟨_, Kind.length_convert (length o member), there, ?_⟩
  unfold Kind.convert
  split
  next same => rw [← value o member, same]
  next => rw [Kind.integer_convert (kinds o member).1 integer (kinds o member).2, value o member]

end Node

end ArrayCall
