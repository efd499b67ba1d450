import ArrayCall.Proofs.Instantiation.Sources
import ArrayCall.Proofs.Resolution.Elements
import ArrayCall.Proofs.Resolution.Lifting

/-!
# Callables over plain leaves

A plain leaf has a fixed kernel, no keywords and no data of its own, and takes kinds and type
variables. Callables over plain leaves whose lifts are over scalar children (`Callable.Plain`) give
elements for elements (`Callable.resolveTypes_element`), and what is inferred for a slot that reads
the destination is the type of an array of scalars again (`Callable.inferParam?_holds`).
-/

namespace ArrayCall

/-- A fixed kernel without data of its own, over kinds and type variables, without keywords. -/
structure Leaf.Plain (sig : Signature) (leaf : Leaf) : Prop where
  kwds : sig.kwds = []
  kernel : ∃ k, leaf.kernel = .fixed k
  dataInit : leaf.dataInit = none
  params : ∀ p ∈ sig.params, p.IsElementPattern

namespace Callable

/-- Built over plain leaves, with scalar children under every lift. -/
def Plain (c : Callable) : Prop := c.Built Leaf.Plain ScalarParams

variable {c child : Callable} {slots : List Int} {dst : Option Ty} {args : List Ty} {kwds : Keywords} {ret : Ty}

/-- No result has dimensions of its own, except behind those of a lift. -/
theorem ownDims_ret {element : Signature → Leaf → Prop} {liftable : Callable → Prop}
    (formed : c.Formed element liftable) : c.signature.ret.ownDims = 0 := by
  induction formed with
  | @leaf _ _ sig _ _ elements =>
    change sig.ret.ownDims = 0
    have flat := (elements sig.ret (by simp)).1
    cases ret : sig.ret <;> rw [ret] at flat <;> first | rfl | exact absurd rfl flat
  | dispatch => rfl
  | permute _ _ inductionHypothesis => exact inductionHypothesis
  | lift => rfl
  | reduce _ inductionHypothesis => exact inductionHypothesis

/-! ## Slots for the destination -/

/-- What an inferred slot has in common with all kinds and all types that are known. -/
theorem inferParam?_holds {P : Ty → Prop} (scalars : ∀ k, P (.scalar k))
    (formed : c.Formed Leaf.Plain ScalarParams) {known : List (Option Ty)} (holds : ∀ t, some t ∈ known → P t)
    {slot : Nat} {d : Ty} (inferred : c.inferParam? known slot = some d) : P d := by
  induction formed with
  | @leaf _ _ sig _ plain _ =>
    rw [inferParam?] at inferred
    obtain ⟨b, bound, inferred⟩ := Option.bind_eq_some_iff.mp inferred
    obtain ⟨p, param, inferred⟩ := Option.bind_eq_some_iff.mp inferred
    have all := bindKnown?_elements plain.params bound Bindings.all_empty holds
    have pattern := plain.params p (List.mem_of_getElem? param)
    cases substituted : b.substitute p with
    | error e => rw [substituted] at inferred; cases inferred
    | ok t =>
      rw [substituted] at inferred
      cases inferred
      obtain found | ⟨k, rfl⟩ := Bindings.substitute_element pattern all substituted
      · exact found
      · exact scalars k
  | @dispatch _ _ _ _ table _ entries inductionHypothesis =>
    rw [inferParam?] at inferred
    split at inferred
    next => cases inferred
    next key target candidate =>
      have member := Dispatcher.mem_of_candidate? candidate
      split at inferred
      next t found =>
        cases inferred
        exact inductionHypothesis (key, target) member found
      next =>
        obtain ⟨id, -, scalar⟩ := Option.bind_eq_some_iff.mp inferred
        obtain ⟨k, -, rfl⟩ := Option.map_eq_some_iff.mp scalar
        exact scalars k
  | _ =>
    rw [inferParam?] at inferred
    · cases inferred
    all_goals simp

theorem of_slotDestination_eq_ok {known : List (Option Ty)} {slotDst : Option Ty}
    (ran : c.slotDestination child slots dst known = .ok slotDst) :
    (slotDst = none ∧ ∀ slot ∈ slots, 0 ≤ slot) ∨
      ∃ d, slotDst = some d ∧ (∃ slot ∈ slots, slot < 0) ∧
        (dst = some d ∨ dst = none ∧ ∃ slot, child.inferParam? known slot = some d) := by
  rw [slotDestination] at ran
  split at ran
  next found =>
    cases ran
    exact .inl ⟨rfl, by simpa using List.findIdx?_eq_none_iff.mp found⟩
  next slot found =>
    have negative : ∃ slot ∈ slots, slot < 0 := by
      have : (slots.findIdx? (· < 0)).isSome := by rw [found]; rfl
      simpa using this
    split at ran
    next d =>
      cases ran
      exact .inr ⟨d, rfl, negative, .inl rfl⟩
    next =>
      split at ran
      next d inferred =>
        cases ran
        exact .inr ⟨d, rfl, negative, .inr ⟨rfl, slot, inferred⟩⟩
      next => cases ran

/-- What a slot is known to have is the type of a source. -/
theorem mem_of_mem_slotTypes {t : Ty} (member : some t ∈ slotTypes slots args) : t ∈ args := by
  obtain ⟨slot, -, found⟩ := List.mem_map.mp member
  split at found
  · cases found
  · exact List.mem_of_getElem? found

/-- The types that the child of a permutation is resolved for, if `d` stands in for a destination. -/
theorem filterMap_slotTypes {d : Ty} {slotDst : Option Ty} (inside : ∀ slot ∈ slots, slot < args.length)
    (stands : slotDst = some d ∨ ∀ slot ∈ slots, 0 ≤ slot) :
    (slotTypes slots args).filterMap (·.or slotDst) = slots.map (Node.slotAt d args) := by
  rw [slotTypes, List.filterMap_map, ← List.filterMap_eq_map']
  refine List.filterMap_congr fun slot member => ?_
  have bound := inside slot member
  simp only [Function.comp_apply, Node.slotAt]
  split
  next negative =>
    rcases stands with rfl | sources
    · rfl
    · have := sources slot member
      omega
  next => rw [List.getElem?_eq_getElem (by omega), Option.some_or, Option.getD_some]

/-- What holds of all sources, and of the destination unless no slot reads it, holds at all slots. -/
theorem forall_slotAt {α : Type} {P : α → Prop} {d : α} {list : List α} (holds : ∀ a ∈ list, P a)
    (inside : ∀ slot ∈ slots, slot < list.length) (target : (∀ slot ∈ slots, 0 ≤ slot) ∨ P d) :
    ∀ a ∈ slots.map (Node.slotAt d list), P a := by
  intro a member
  obtain ⟨slot, there, rfl⟩ := List.mem_map.mp member
  have bound := inside slot there
  rw [Node.slotAt]
  split
  next negative =>
    refine target.resolve_left fun sources => ?_
    have := sources slot there
    omega
  next =>
    rw [List.getElem?_eq_getElem (by omega), Option.getD_some]
    exact holds _ (List.getElem_mem _)

/-- What a permutation of a plain callable resolves, where `P` holds of all arguments: the child is
resolved for the types that its slots read, all of which satisfy `P` as well. -/
theorem resolveTypes_permute_plain {P : Ty → Prop} (scalars : ∀ k, P (.scalar k)) {stamp : Nat}
    (fit : SlotsFit slots child.arity) (formed : child.Formed Leaf.Plain ScalarParams)
    (holds : ∀ a ∈ args, P a) (asked : ∀ d ∈ dst, P d)
    (resolved : (permute stamp child slots).resolveTypes dst args kwds = .ok ret) :
    (∀ slot ∈ slots, slot < args.length) ∧
      (((∀ slot ∈ slots, 0 ≤ slot) ∧
          ∀ d, child.resolveTypes dst (slots.map (Node.slotAt d args)) kwds = .ok ret) ∨
        ((∃ slot ∈ slots, slot < 0) ∧ P ret ∧ (∀ d ∈ dst, d = ret) ∧
          ∃ found, child.resolveTypes (some ret) (slots.map (Node.slotAt ret args)) kwds = .ok found ∧
            found.canPromoteTo ret)) := by
  obtain ⟨⟨length, -⟩, slotDst, found, chosen, resolved, promotes, rfl⟩ :=
    resolveTypes_permute_eq_ok_iff.mp resolved
  have inside := fit.lt_of_arity length
  refine ⟨inside, ?_⟩
  obtain ⟨rfl, sources⟩ | ⟨d, rfl, negative, given⟩ := of_slotDestination_eq_ok chosen
  · refine .inl ⟨sources, fun d => ?_⟩
    rwa [← filterMap_slotTypes inside (.inr sources)]
  · right
    have deliver : P d := by
      obtain same | ⟨-, slot, inferred⟩ := given
      · exact asked d same
      · exact inferParam?_holds scalars formed (fun t known => holds t (mem_of_mem_slotTypes known)) inferred
    refine ⟨negative, deliver, fun d' same => ?_, found, ?_, promotes d rfl⟩
    · obtain rfl | ⟨rfl, -⟩ := given
      · exact (Option.some.inj same).symm
      · cases same
    · rwa [← filterMap_slotTypes inside (.inl rfl)]

/-- A leaf makes its parameters and its result concrete by the same bindings. -/
theorem resolveTypes_leaf_plain {stamp : Nat} {name : String} {sig : Signature} {kernel : Leaf}
    (plain : kernel.Plain sig) (elements : ∀ t ∈ sig.params ++ [sig.ret], ¬t.isDim ∧ t ≠ .any)
    (concrete : ∀ a ∈ args, a.OfScalars)
    (resolved : (leaf stamp name sig kernel).resolveTypes dst args kwds = .ok ret) :
    args.length = sig.params.length ∧ (∀ a ∈ args, ∃ k, a = .scalar k) ∧ ret.IsElement ∧
      ∃ b, (leaf stamp name sig kernel).bindParams args = .ok b ∧ b.substitute sig.ret = .ok ret ∧
        ∀ p ∈ sig.params, ∃ k, b.substitute p = .ok (.scalar k) := by
  obtain ⟨⟨length, -⟩, flat, b, b', bound, keywords, substituted⟩ := resolveTypes_leaf_eq_ok_iff.mp resolved
  rw [plain.kwds] at keywords
  cases keywords
  have scalars : ∀ a ∈ args, ∃ k, a = .scalar k := fun a member => (concrete a member).eq_scalar (flat a member)
  obtain ⟨all, -, substitutes⟩ := bindArgs_elements plain.params length bound
    (Bindings.all_empty (P := fun t => ∃ k, t = .scalar k)) scalars
  refine ⟨length, scalars, ?_, b, bound, substituted, fun p member => ?_⟩
  · -- A result that is no array and not `Any` is `void`, a kind, or a variable that an argument is bound to.
    have flat := elements sig.ret (by simp)
    cases declared : sig.ret with
    | void =>
      rw [declared] at substituted
      cases substituted
      exact .inl rfl
    | scalar k =>
      rw [declared] at substituted
      cases substituted
      exact .inr ⟨k, rfl⟩
    | typeVar name =>
      rw [declared] at substituted
      exact .inr (or_self_iff.mp (Bindings.substitute_element (.inr ⟨name, rfl⟩) all substituted))
    | any => exact absurd declared flat.2
    | _ => rw [declared] at flat; exact absurd rfl flat.1
  · obtain ⟨t, found⟩ := substitutes p member
    obtain ⟨k, rfl⟩ := or_self_iff.mp (Bindings.substitute_element (plain.params p member) all found)
    exact ⟨k, found⟩

/-- Elements give an element. -/
theorem resolveTypes_element (formed : c.Formed Leaf.Plain ScalarParams)
    (scalars : ∀ a ∈ args, ∃ k, a = .scalar k) (asked : ∀ d ∈ dst, ∃ k, d = .scalar k)
    (resolved : c.resolveTypes dst args kwds = .ok ret) : ret.IsElement := by
  have concrete : ∀ t : Ty, (∃ k, t = .scalar k) → t.OfScalars := by
    rintro t ⟨k, rfl⟩
    exact Ty.ofScalars_scalar k
  induction formed generalizing dst args ret with
  | leaf plain elements =>
    exact (resolveTypes_leaf_plain plain elements (fun a member => concrete a (scalars a member)) resolved).2.2.1
  | @dispatch _ _ _ _ table _ _ inductionHypothesis =>
    obtain ⟨-, target, found, resolved⟩ := resolveTypes_dispatch_eq_ok_iff.mp resolved
    obtain ⟨key, member⟩ := Dispatcher.exists_mem_of_dispatch found
    exact inductionHypothesis (key, target) member scalars asked resolved
  | permute fit below inductionHypothesis =>
    obtain ⟨inside, ⟨sources, resolved⟩ | ⟨-, scalar, -⟩⟩ :=
      resolveTypes_permute_plain (fun k => ⟨k, rfl⟩) fit below scalars asked resolved
    · exact inductionHypothesis (forall_slotAt scalars inside (.inl sources)) asked (resolved .void)
    · exact .inr scalar
  | @lift _ child _ scalarParams shaped below inductionHypothesis =>
    have length := (resolveTypes_lift_eq_ok_iff.mp resolved).1.1
    rw [arity_lift fun ts given => (shaped ts given).1] at length
    obtain ⟨shape, found, common, -, rfl, below⟩ := resolveTypes_lift_scalar scalarParams
      (ownDims_ret below) length (fun a member => concrete a (scalars a member))
      (fun d given => concrete d (asked d given)) resolved
    have points : ∀ s ∈ args.map Ty.shape ++ (dst.map Ty.shape).toList, s = [] := by
      intro s member
      rcases List.mem_append.mp member with source | target
      · obtain ⟨a, there, rfl⟩ := List.mem_map.mp source
        obtain ⟨k, rfl⟩ := scalars a there
        rfl
      · obtain ⟨d, given, rfl⟩ := Option.map_eq_some_iff.mp (Option.mem_toList.mp target)
        obtain ⟨k, rfl⟩ := asked d given
        rfl
    obtain rfl := List.eq_nil_of_length_eq_zero (common.length_eq.trans (Broadcast.rank_eq_zero points))
    refine inductionHypothesis (fun a member => ?_) (fun d given => ?_) below
    · obtain ⟨a, there, rfl⟩ := List.mem_map.mp member
      obtain ⟨k, rfl⟩ := scalars a there
      exact ⟨k, rfl⟩
    · obtain ⟨d, there, rfl⟩ := Option.map_eq_some_iff.mp given
      obtain ⟨k, rfl⟩ := asked d there
      exact ⟨k, rfl⟩
  | reduce below inductionHypothesis =>
    obtain ⟨⟨length, -⟩, -, resolved⟩ := resolveTypes_reduce_eq_ok_iff.mp resolved
    obtain ⟨a, rfl⟩ := List.length_eq_one_iff.mp length
    obtain ⟨k, rfl⟩ := scalars a (by simp)
    exact inductionHypothesis (List.forall_mem_singleton.mpr ⟨k, rfl⟩) asked resolved

end Callable

end ArrayCall
