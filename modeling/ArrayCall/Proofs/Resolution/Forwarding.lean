import ArrayCall.Proofs.Resolution.Plain
import ArrayCall.Proofs.Resolution.Reordering
import ArrayCall.Proofs.Resolution.Variables

/-!
# Where a resolved type comes from

Where nothing is asked of the result, a dispatch callable takes it from the entry that it selects, a
permutation that does not read the destination from its child, and a lift from its child behind outer
dimensions. `Callable.Forwards` follows these steps down to the callable whose result it is
(`Callable.Forwards.resolves`). They end at leaves, and where a slot reads the destination: its type is
inferred and the result is that type.
-/

namespace ArrayCall

namespace Callable

variable {c c' child : Callable} {stamp : Nat} {name : String} {sig : Signature} {table : Dispatcher Callable}
  {slots : List Int} {types : Option (List Ty)} {params args args' : List Ty} {dst : Option Ty} {kwds : Keywords}
  {parts : List (List Nat × Ty)} {t : Ty}

/-! ## Permutations -/

theorem resolveTypes_permute_of_sources_eq_ok_iff (sources : ∀ slot ∈ slots, 0 ≤ slot) :
    (permute stamp child slots).resolveTypes dst args kwds = .ok t ↔
      (permute stamp child slots).Takes args kwds ∧ child.resolveTypes dst (arranged slots args) kwds = .ok t := by
  rw [resolveTypes_permute_eq_ok_iff]
  refine and_congr_right fun _ => ⟨?_, fun resolved => ?_⟩
  · rintro ⟨slotDst, found, chosen, resolved, -, rfl⟩
    obtain ⟨rfl, -⟩ | ⟨d, -, ⟨slot, member, negative⟩, -⟩ := of_slotDestination_eq_ok chosen
    · rwa [Option.none_or, filterMap_slotTypes_of_sources sources] at resolved
    · have := sources slot member
      omega
  · refine ⟨none, t, ?_, ?_, by simp, rfl⟩
    · have none : slots.findIdx? (· < 0) = none := List.findIdx?_eq_none_iff.mpr (by simpa using sources)
      rw [slotDestination, none]
    · rwa [Option.none_or, filterMap_slotTypes_of_sources sources]

/-- What is asked for is what a slot reads. -/
theorem slotDestination_of_destination (reads : ∃ slot ∈ slots, slot < 0) (known : List (Option Ty)) :
    c.slotDestination child slots (some t) known = .ok (some t) := by
  rw [slotDestination]
  split
  next none =>
    obtain ⟨slot, member, negative⟩ := reads
    have := List.findIdx?_eq_none_iff.mp none slot member
    simp at this
    omega
  next => rfl

/-- Where a slot reads the destination, the result has the type that is asked for or else inferred, and
may as well have been asked for. -/
theorem of_resolveTypes_permute_of_destination (reads : ∃ slot ∈ slots, slot < 0)
    (resolved : (permute stamp child slots).resolveTypes dst args kwds = .ok t) :
    (dst = some t ∨ dst = none ∧ ∃ slot, child.inferParam? (slotTypes slots args) slot = some t) ∧
      (permute stamp child slots).resolveTypes (some t) args kwds = .ok t := by
  obtain ⟨takes, slotDst, found, chosen, below, promotes, rfl⟩ := resolveTypes_permute_eq_ok_iff.mp resolved
  obtain ⟨rfl, sources⟩ | ⟨d, rfl, -, given⟩ := of_slotDestination_eq_ok chosen
  · obtain ⟨slot, member, negative⟩ := reads
    have := sources slot member
    omega
  · exact ⟨given, resolveTypes_permute_eq_ok_iff.mpr
      ⟨takes, some d, found, slotDestination_of_destination reads _, below, promotes, rfl⟩⟩

theorem Associativity.reads_destination (assoc : Associativity) : ∃ slot ∈ assoc.slots, slot < 0 := by
  cases assoc <;> decide

theorem forall_mem_arranged {α : Type} {P : α → Prop} {list : List α} (holds : ∀ a ∈ list, P a) :
    ∀ a ∈ arranged slots list, P a := by
  intro a member
  obtain ⟨slot, -, found⟩ := List.mem_filterMap.mp member
  exact holds a (List.mem_of_getElem? found)

/-- An inferred result has what all elements have, and all types behind those of the sources. -/
theorem Formed.holds_of_destination {element : Signature → Leaf → Prop} {liftable : Callable → Prop} {P : Ty → Prop}
    (formed : child.Formed element liftable) (reads : ∃ slot ∈ slots, slot < 0) (elements : ∀ t : Ty, t.IsElement → P t)
    (holds : ∀ a ∈ args, ∀ t, a.Behind t → P t)
    (resolved : (Callable.permute stamp child slots).resolveTypes none args kwds = .ok t) : P t := by
  obtain ⟨asked | ⟨-, slot, inferred⟩, -⟩ := of_resolveTypes_permute_of_destination reads resolved
  · cases asked
  · exact formed.inferParam?_holds elements (fun a known => holds a (mem_of_mem_slotTypes known)) inferred

/-- The result of a fold over elements, which reads its destination, is an element. -/
theorem Formed.isElement_of_fold {element : Signature → Leaf → Prop} {liftable : Callable → Prop}
    {assoc : Associativity} (formed : (Callable.permute stamp child assoc.slots).Formed element liftable)
    (concrete : ∀ a ∈ args, a.isSymbolic = false)
    (resolved : (Callable.permute stamp child assoc.slots).resolveTypes none [(args.headD .void).dtype] kwds = .ok t) :
    t.IsElement := by
  have elements : (args.headD .void).dtype.IsElement := by
    cases args with
    | nil => exact .inl rfl
    | cons a args => exact Ty.isElement_dtype (concrete a List.mem_cons_self)
  cases formed with
  | permute fit below =>
    refine below.holds_of_destination assoc.reads_destination (fun t element => element) ?_ resolved
    intro a member t behind
    obtain rfl := List.mem_singleton.mp member
    rwa [behind.eq_of_flat elements.isDim]

/-- The parameter that a source has is that of the slot which reads it. -/
theorem permutedParams_getElem? {arity k : Nat} {slot : Int} (fit : SlotsFit slots arity)
    (length : params.length = arity)
    (source : 0 ≤ slot) (reads : slots[k]? = some slot) : (permutedParams slots params)[slot.toNat]? = params[k]? := by
  obtain ⟨inside, same⟩ := List.getElem?_eq_some_iff.mp reads
  have within : k < params.length := by rwa [length, ← fit.length_eq]
  have bound : slot.toNat < slots.countP (0 ≤ ·) := by
    have := fit.lt_countP slot (List.mem_of_getElem? reads)
    omega
  have pair : (slot, params[k]) ∈ slots.zip params := by
    refine List.mem_iff_getElem.mpr ⟨k, by rw [List.length_zip]; omega, ?_⟩
    rw [List.getElem_zip, same]
  rw [permutedParams, List.getElem?_map, List.getElem?_range bound, Option.map_some, List.getElem?_eq_getElem within,
    Int.toNat_of_nonneg source]
  cases found : (slots.zip params).find? (·.1 == slot) with
  | none => exact absurd (List.find?_eq_none.mp found _ pair) (by simp)
  | some other =>
    have named : other.1 = slot := by simpa using List.find?_some found
    obtain ⟨k', inside', at'⟩ := List.getElem_of_mem (List.mem_of_find?_eq_some found)
    rw [List.getElem_zip] at at'
    have slots' : slots[k']? = some slot := by
      rw [List.getElem?_eq_getElem (by simp at inside'; omega), ← named, ← at']
    obtain rfl := (List.getElem?_inj (List.getElem?_eq_some_iff.mp reads).1 fit.nodup_slots).mp
      (reads.trans slots'.symm)
    rw [← at']
    rfl

/-- Each parameter of a permutation is that of a slot, or takes anything. -/
theorem of_permutedParams_getElem? {i : Nat} {p : Ty} (found : (permutedParams slots params)[i]? = some p) :
    p = .any ∨ ∃ k : Nat, slots[k]? = some (i : Int) ∧ params[k]? = some p := by
  rw [permutedParams, List.getElem?_map] at found
  obtain ⟨j, listed, rfl⟩ := Option.map_eq_some_iff.mp found
  obtain ⟨inside, same⟩ := List.getElem?_eq_some_iff.mp listed
  rw [List.getElem_range] at same
  subst same
  cases read : (slots.zip params).find? (·.1 == (i : Int)) with
  | none => exact .inl rfl
  | some pair =>
    have named : pair.1 = i := by simpa using List.find?_some read
    obtain ⟨k, there⟩ := List.mem_iff_getElem?.mp (List.mem_of_find?_eq_some read)
    obtain ⟨slot, param⟩ := List.getElem?_zip_eq_some.mp there
    exact .inr ⟨k, named ▸ slot, param⟩

/-! ## Arguments of a lift -/

/-- An argument of a lift is its outer dimensions in front of what the parameter takes for itself. -/
theorem of_splitArg_eq_ok {index : Nat} {a p : Ty} {part : List Nat × Ty} (concrete : a.isSymbolic = false)
    (ran : c.splitArg index a p = .ok part) :
    ∃ outer inner elem, elem.IsElement ∧ a = .withShape (outer ++ inner) elem ∧ inner.length = p.ownDims ∧
      part = (outer, .withShape inner elem) := by
  obtain ⟨elem, element, same⟩ := Ty.exists_eq_withShape concrete
  rw [splitArg] at ran
  split at ran
  next => cases ran
  next enough =>
    cases ran
    generalize a.shape = shape at same enough ⊢
    subst same
    refine ⟨shape.take (shape.length - p.ownDims), shape.drop (shape.length - p.ownDims), elem, element, ?_, ?_, ?_⟩
    · rw [List.take_append_drop]
    · rw [List.length_drop]
      omega
    · rw [Ty.stripDims_withShape_of_le (Nat.sub_le _ _), Option.getD_some]

/-- What a child sees is concrete, too, and has just the dimensions that its parameters take. -/
theorem of_splitArgs_eq_ok (concrete : ∀ a ∈ args, a.isSymbolic = false) (length : args.length = params.length)
    (ran : c.splitArgs params args = .ok parts) :
    (∀ a ∈ parts.map (·.2), a.isSymbolic = false) ∧
      List.Forall₂ (fun p a => a.shape.length = p.ownDims) params (parts.map (·.2)) := by
  rw [splitArgs, mapM_eq_ok_iff, List.forall₂_iff_get] at ran
  obtain ⟨same, each⟩ := ran
  have count : parts.length = params.length := by simpa [length] using same.symm
  have part : ∀ (i : Nat) (inside : i < parts.length) (inside' : i < params.length),
      parts[i].2.isSymbolic = false ∧ parts[i].2.shape.length = params[i].ownDims := by
    intro i inside inside'
    have split := each i (by simpa [length] using inside') inside
    simp only [List.get_eq_getElem, List.getElem_zipIdx, List.getElem_zip] at split
    obtain ⟨outer, inner, elem, element, -, own, part⟩ := of_splitArg_eq_ok (concrete _ (List.getElem_mem _)) split
    rw [part]
    exact ⟨(Ty.isSymbolic_withShape inner elem).trans element.isSymbolic, by rw [Ty.shape_withShape element]; exact own⟩
  constructor
  · intro a member
    obtain ⟨i, inside, rfl⟩ := List.getElem_of_mem member
    rw [List.length_map] at inside
    rw [List.getElem_map]
    exact (part i inside (count ▸ inside)).1
  · refine List.forall₂_iff_get.mpr ⟨by rw [List.length_map, count], fun i inside inside' => ?_⟩
    rw [List.length_map] at inside'
    simp only [List.get_eq_getElem, List.getElem_map]
    exact (part i inside' inside).2

/-- Without a destination the shapes broadcast, and nothing is asked of the child. -/
theorem liftShape_none_eq_ok_iff {shapes : List (List Nat)} {shape : List Nat} {childDst : Option Ty} :
    c.liftShape child none shapes = .ok (shape, childDst) ↔ Broadcast.Common shapes shape ∧ childDst = none := by
  rw [liftShape, ← broadcast_eq_ok_iff]
  cases broadcast shapes with
  | error e => simp
  | ok found => simp [eq_comm]

/-- With a destination all its dimensions are outer ones, and the child is asked for what stands behind. -/
theorem liftShape_some_eq_ok_iff (own : child.signature.ret.ownDims = 0) {d : Ty} {shapes : List (List Nat)}
    {shape : List Nat} {childDst : Option Ty} :
    c.liftShape child (some d) shapes = .ok (shape, childDst) ↔
      Broadcast.Common (shapes ++ [d.shape]) shape ∧ d.shape = shape ∧ childDst = d.stripDims d.shape.length := by
  simp only [liftShape, own, Nat.not_lt_zero, if_false, Nat.sub_zero, List.take_length, ← broadcast_eq_ok_iff]
  cases broadcast (shapes ++ [d.shape]) with
  | error e => simp
  | ok found =>
    dsimp only
    split
    next same => simp [same, eq_comm]
    next differs =>
      simp only [reduceCtorEq, Except.ok.injEq, false_iff, not_and]
      rintro rfl same
      exact absurd same.symm differs

/-! ## Forwarding -/

/-- The result of a callable is, behind outer dimensions, that of another one for other arguments. -/
inductive Forwards : Callable → List Ty → Callable → List Ty → Prop
  | refl (c : Callable) (args : List Ty) : Forwards c args c args
  | dispatch {stamp : Nat} {name : String} {sig : Signature} {table : Dispatcher Callable} {target c : Callable}
      {args args' : List Ty} (selected : table.dispatch (args.map Ty.typeId) = .ok target)
      (below : Forwards target args c args') : Forwards (.dispatch stamp name sig table) args c args'
  | permute {stamp : Nat} {child c : Callable} {slots : List Int} {args args' : List Ty}
      (sources : ∀ slot ∈ slots, 0 ≤ slot) (below : Forwards child (arranged slots args) c args') :
      Forwards (.permute stamp child slots) args c args'
  | lift {stamp : Nat} {child c : Callable} {types : Option (List Ty)} {args args' : List Ty}
      {parts : List (List Nat × Ty)}
      (split : (Callable.lift stamp child types).splitArgs child.signature.params args = .ok parts)
      (below : Forwards child (parts.map (·.2)) c args') : Forwards (.lift stamp child types) args c args'

theorem Forwards.trans {c'' : Callable} {args'' : List Ty} (first : c.Forwards args c' args')
    (second : c'.Forwards args' c'' args'') : c.Forwards args c'' args'' := by
  induction first with
  | refl => exact second
  | dispatch selected _ inductionHypothesis => exact .dispatch selected (inductionHypothesis second)
  | permute sources _ inductionHypothesis => exact .permute sources (inductionHypothesis second)
  | lift split _ inductionHypothesis => exact .lift split (inductionHypothesis second)

theorem Forwards.resolves (forwards : c.Forwards args c' args') (resolved : c.resolveTypes none args kwds = .ok t) :
    ∃ shape t', c'.resolveTypes none args' kwds = .ok t' ∧ t = .withShape shape t' := by
  induction forwards generalizing t with
  | refl => exact ⟨[], t, resolved, rfl⟩
  | dispatch selected _ inductionHypothesis =>
    obtain ⟨-, target, found, resolved⟩ := resolveTypes_dispatch_eq_ok_iff.mp resolved
    cases selected.symm.trans found
    exact inductionHypothesis resolved
  | permute sources _ inductionHypothesis =>
    exact inductionHypothesis ((resolveTypes_permute_of_sources_eq_ok_iff sources).mp resolved).2
  | lift split _ inductionHypothesis =>
    obtain ⟨-, -, parts, outer, childDst, found, parted, shaped, resolved, rfl⟩ :=
      resolveTypes_lift_eq_ok_iff.mp resolved
    cases split.symm.trans parted
    obtain rfl : childDst = none := (liftShape_none_eq_ok_iff.mp shaped).2
    obtain ⟨shape, t', below, rfl⟩ := inductionHypothesis resolved
    exact ⟨outer ++ shape, t', below, by simp [Ty.withShape]⟩

end Callable

end ArrayCall
