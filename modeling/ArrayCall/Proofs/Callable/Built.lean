import ArrayCall.Builtins
import Mathlib.Data.List.Nodup
import Mathlib.Data.List.Perm.Subperm

/-!
# Callables as they are built

The builders refuse callables that cannot work. `Callable.Built` are the callables that pass all
of them, over leaves of a given sort and with children of a given sort under each lift.

* `Callable.SlotsFit` is what a permutation was checked for: one slot for each parameter of the
  child, each source named once, and at most one slot for the destination.
* `Callable.Formed` follows the constructors of `Callable` where `Callable.Built` follows the
  builders; proofs go by induction over it.
-/

namespace ArrayCall.Callable

/-! ## What the builders check -/

theorem checkArity_eq_ok_iff {c : Callable} {n : Nat} : c.checkArity n = .ok () ↔ n = c.arity := by
  rw [checkArity]
  split
  next same => simp [same]
  next differs => simp [differs]

theorem of_ofLeaf_eq_ok {stamp : Nat} {name : String} {sig : Signature} {kernel : Leaf} {c : Callable}
    (built : ofLeaf stamp name sig kernel = .ok c) :
    c = .leaf stamp name sig kernel ∧ ∀ t ∈ sig.params ++ [sig.ret], ¬t.isDim ∧ t ≠ .any := by
  rw [ofLeaf] at built
  split at built
  next => cases built
  next none =>
    cases built
    refine ⟨rfl, fun t member => ?_⟩
    have := List.find?_eq_none.mp none t member
    simp_all

theorem of_ofTable_eq_ok {stamp : Nat} {name : String} {arity : Nat} {table : Dispatcher Callable}
    {c : Callable} (built : ofTable stamp name arity table = .ok c) :
    c = .dispatch stamp name
        ⟨List.replicate arity .any, joinKwds (table.entries.map (·.2.signature.kwds)), .any⟩ table ∧
      ∀ e ∈ table.entries, e.1.length = arity ∧ e.2.arity = arity := by
  rw [ofTable] at built
  split at built
  next => cases built
  next =>
    split at built
    next => cases built
    next none =>
      cases built
      refine ⟨rfl, fun e member => ?_⟩
      have := List.find?_eq_none.mp none e member
      simp_all

/-- What the slots of a permutation are checked for. -/
structure SlotsFit (slots : List Int) (arity : Nat) : Prop where
  length_eq : slots.length = arity
  least : ∀ slot ∈ slots, -1 ≤ slot
  one_destination : slots.length ≤ (sourcesOf slots).length + 1
  nodup : (sourcesOf slots).Nodup
  lt : ∀ j ∈ sourcesOf slots, j < (sourcesOf slots).length

theorem of_permuted_eq_ok {stamp : Nat} {child c : Callable} {slots : List Int}
    (built : child.permuted stamp slots = .ok c) :
    c = .permute stamp child slots ∧ SlotsFit slots child.arity := by
  simp only [permuted] at built
  split at built
  next => cases built
  next length =>
    split at built
    next => cases built
    next none =>
      split at built
      next => cases built
      next destinations =>
        split at built
        next distinct =>
          cases built
          refine ⟨rfl, ⟨by simpa using length, fun slot member => ?_, by omega, distinct.1, distinct.2⟩⟩
          have := List.find?_eq_none.mp none slot member
          simpa using this
        next => cases built

theorem of_liftTo_eq_ok {stamp : Nat} {child c : Callable} {types : List Ty}
    (built : child.liftTo stamp types = .ok c) :
    c = .lift stamp child (some types) ∧ types.length = child.arity ∧
      ∀ pair ∈ types.zip child.signature.params, pair.2.ownDims ≤ pair.1.ndim := by
  simp only [liftTo] at built
  split at built
  next => cases built
  next length =>
    split at built
    next => cases built
    next none =>
      cases built
      refine ⟨rfl, by simpa using length, fun pair member => ?_⟩
      obtain ⟨i, found⟩ := List.mem_iff_getElem?.mp member
      have member : (pair, i) ∈ (types.zip child.signature.params).zipIdx :=
        List.mk_mem_zipIdx_iff_getElem?.mpr found
      have := List.find?_eq_none.mp none (pair, i) member
      simpa using this

theorem of_reduced_eq_ok {stamp foldStamp : Nat} {child c : Callable} {assoc : Associativity}
    {identity : Option Scalar} (built : child.reduced stamp foldStamp assoc identity = .ok c) :
    c = .reduce stamp (.permute foldStamp child assoc.slots) identity ∧ child.arity = 2 := by
  rw [reduced] at built
  split at built
  next => cases built
  next arity =>
    cases permuted : child.permuted foldStamp assoc.slots with
    | error e => rw [permuted] at built; cases built
    | ok fold =>
      rw [permuted] at built
      cases built
      obtain ⟨rfl, -⟩ := of_permuted_eq_ok permuted
      exact ⟨rfl, by simpa using arity⟩

/-! ## Slots -/

theorem length_sourcesOf (slots : List Int) : (sourcesOf slots).length = slots.countP (0 ≤ ·) := by
  rw [sourcesOf, List.length_map, List.countP_eq_length_filter]

theorem mem_sourcesOf {slots : List Int} {slot : Int} (member : slot ∈ slots) (source : 0 ≤ slot) :
    slot.toNat ∈ sourcesOf slots :=
  List.mem_map_of_mem (List.mem_filter.mpr ⟨member, by simpa using source⟩)

section SlotsFit

variable {slots : List Int} {arity : Nat} (fit : SlotsFit slots arity)
include fit

/-- Each slot reads the destination or one of the sources that there are. -/
theorem SlotsFit.lt_countP : ∀ slot ∈ slots, slot < (slots.countP (0 ≤ ·) : Nat) := by
  intro slot member
  rcases Int.lt_or_le slot 0 with destination | source
  · omega
  · have := fit.lt _ (mem_sourcesOf member source)
    rw [length_sourcesOf] at this
    omega

/-- A source is read by one slot alone, and so is the destination. -/
theorem SlotsFit.nodup_slots : slots.Nodup := by
  have sources : (slots.filter (0 ≤ ·)).Nodup := fit.nodup.of_map _
  have others : (slots.filter fun slot => !decide (0 ≤ slot)).Nodup := by
    have count := List.length_eq_length_filter_add (l := slots) (0 ≤ ·)
    have one := fit.one_destination
    rw [sourcesOf, List.length_map] at one
    match rest : slots.filter (fun slot => !decide (0 ≤ slot)) with
    | [] => exact .nil
    | [_] => exact List.nodup_singleton _
    | _ :: _ :: _ =>
      rw [rest, List.length_cons, List.length_cons] at count
      omega
  refine (List.filter_append_perm (0 ≤ ·) slots).nodup_iff.mp (sources.append others ?_)
  intro slot source other
  simp at source other
  omega

/-- Every source is read by a slot. -/
theorem SlotsFit.mem_of_lt {k : Nat} (below : k < (sourcesOf slots).length) : (k : Int) ∈ slots := by
  have subset : sourcesOf slots ⊆ List.range (sourcesOf slots).length :=
    fun j member => List.mem_range.mpr (fit.lt j member)
  have all := (fit.nodup.subperm subset).perm_of_length_le (by simp)
  obtain ⟨slot, member, same⟩ := List.mem_map.mp (all.mem_iff.mpr (List.mem_range.mpr below))
  obtain ⟨listed, source⟩ := List.mem_filter.mp member
  have source : 0 ≤ slot := by simpa using source
  rwa [show slot = (k : Int) by omega] at listed

theorem SlotsFit.length_of_destination (reads : -1 ∈ slots) : slots.length = (sourcesOf slots).length + 1 := by
  have differs : (sourcesOf slots).length ≠ slots.length := by
    rw [length_sourcesOf]
    intro all
    have := List.countP_eq_length.mp all (-1) reads
    simp at this
  have least : (sourcesOf slots).length ≤ slots.length := by
    rw [length_sourcesOf]
    exact List.countP_le_length
  have := fit.one_destination
  omega

end SlotsFit

theorem Associativity.slotsFit (assoc : Associativity) : SlotsFit assoc.slots 2 := by
  cases assoc <;>
    exact ⟨by decide, by decide, by decide, by decide, by decide⟩

/-! ## Built callables -/

/-- The callables that the builders accept, if leaves satisfy `element` and the children of
lifts satisfy `liftable`. -/
inductive Built (element : Signature → Leaf → Prop) (liftable : Callable → Prop) : Callable → Prop
  | leaf {stamp : Nat} {name : String} {sig : Signature} {kernel : Leaf} {c : Callable}
      (fits : element sig kernel) (built : ofLeaf stamp name sig kernel = .ok c) :
      Built element liftable c
  | table {stamp : Nat} {name : String} {arity : Nat} {table : Dispatcher Callable} {c : Callable}
      (entries : ∀ e ∈ table.entries, Built element liftable e.2)
      (built : ofTable stamp name arity table = .ok c) : Built element liftable c
  | permuted {stamp : Nat} {child c : Callable} {slots : List Int} (below : Built element liftable child)
      (built : child.permuted stamp slots = .ok c) : Built element liftable c
  | elwise {stamp : Nat} {child : Callable} (below : Built element liftable child)
      (fits : liftable child) : Built element liftable (child.elwise stamp)
  | liftTo {stamp : Nat} {child c : Callable} {types : List Ty} (below : Built element liftable child)
      (fits : liftable child) (built : child.liftTo stamp types = .ok c) : Built element liftable c
  | reduced {stamp foldStamp : Nat} {child c : Callable} {assoc : Associativity}
      {identity : Option Scalar} (below : Built element liftable child)
      (built : child.reduced stamp foldStamp assoc identity = .ok c) : Built element liftable c

theorem Built.mono {element element' : Signature → Leaf → Prop} {liftable : Callable → Prop} {c : Callable}
    (built : Built element liftable c) (imp : ∀ {sig leaf}, element sig leaf → element' sig leaf) :
    Built element' liftable c := by
  induction built with
  | leaf fits built => exact .leaf (imp fits) built
  | table _ built inductionHypothesis => exact .table inductionHypothesis built
  | permuted _ built inductionHypothesis => exact .permuted inductionHypothesis built
  | elwise _ fits inductionHypothesis => exact .elwise inductionHypothesis fits
  | liftTo _ fits built inductionHypothesis => exact .liftTo inductionHypothesis fits built
  | reduced _ built inductionHypothesis => exact .reduced inductionHypothesis built

/-- What is known of a built callable, by its form. The fold of a reduction is of a form itself, a
permutation. -/
inductive Formed (element : Signature → Leaf → Prop) (liftable : Callable → Prop) : Callable → Prop
  | leaf {stamp : Nat} {name : String} {sig : Signature} {kernel : Leaf} (fits : element sig kernel)
      (elements : ∀ t ∈ sig.params ++ [sig.ret], ¬t.isDim ∧ t ≠ .any) :
      Formed element liftable (.leaf stamp name sig kernel)
  | dispatch {stamp : Nat} {name : String} {arity : Nat} {kwds : List KeywordParam}
      {table : Dispatcher Callable} (arities : ∀ e ∈ table.entries, e.1.length = arity ∧ e.2.arity = arity)
      (entries : ∀ e ∈ table.entries, Formed element liftable e.2) :
      Formed element liftable (.dispatch stamp name ⟨List.replicate arity .any, kwds, .any⟩ table)
  | permute {stamp : Nat} {child : Callable} {slots : List Int} (fit : SlotsFit slots child.arity)
      (below : Formed element liftable child) : Formed element liftable (.permute stamp child slots)
  | lift {stamp : Nat} {child : Callable} {types : Option (List Ty)} (fits : liftable child)
      (shaped : ∀ ts ∈ types, ts.length = child.arity ∧
        ∀ pair ∈ ts.zip child.signature.params, pair.2.ownDims ≤ pair.1.ndim)
      (below : Formed element liftable child) : Formed element liftable (.lift stamp child types)
  | reduce {stamp foldStamp : Nat} {child : Callable} {assoc : Associativity} {identity : Option Scalar}
      (below : Formed element liftable (.permute foldStamp child assoc.slots)) :
      Formed element liftable (.reduce stamp (.permute foldStamp child assoc.slots) identity)

theorem Formed.mono {element element' : Signature → Leaf → Prop} {liftable : Callable → Prop} {c : Callable}
    (formed : Formed element liftable c) (imp : ∀ {sig leaf}, element sig leaf → element' sig leaf) :
    Formed element' liftable c := by
  induction formed with
  | leaf fits elements => exact .leaf (imp fits) elements
  | dispatch arities _ inductionHypothesis => exact .dispatch arities inductionHypothesis
  | permute fit _ inductionHypothesis => exact .permute fit inductionHypothesis
  | lift fits shaped _ inductionHypothesis => exact .lift fits shaped inductionHypothesis
  | reduce _ inductionHypothesis => exact .reduce inductionHypothesis

theorem Built.formed {element : Signature → Leaf → Prop} {liftable : Callable → Prop} {c : Callable}
    (built : Built element liftable c) : Formed element liftable c := by
  induction built with
  | leaf fits built =>
    obtain ⟨rfl, elements⟩ := of_ofLeaf_eq_ok built
    exact .leaf fits elements
  | table entries built inductionHypothesis =>
    obtain ⟨rfl, arities⟩ := of_ofTable_eq_ok built
    exact .dispatch arities inductionHypothesis
  | permuted below built inductionHypothesis =>
    obtain ⟨rfl, fit⟩ := of_permuted_eq_ok built
    exact .permute fit inductionHypothesis
  | elwise below fits inductionHypothesis =>
    exact .lift fits (fun ts none => by cases none) inductionHypothesis
  | liftTo below fits built inductionHypothesis =>
    obtain ⟨rfl, shaped⟩ := of_liftTo_eq_ok built
    refine .lift fits (fun ts given => ?_) inductionHypothesis
    cases given
    exact shaped
  | @reduced _ _ child _ assoc _ below built inductionHypothesis =>
    -- The fold is not checked on its own, but the slots of both associativities fit a binary child.
    obtain ⟨rfl, binary⟩ := of_reduced_eq_ok built
    exact .reduce (.permute (binary ▸ assoc.slotsFit) inductionHypothesis)

end ArrayCall.Callable
