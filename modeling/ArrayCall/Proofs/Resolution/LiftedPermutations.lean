import ArrayCall.Proofs.Calls.NestedLifts
import ArrayCall.Proofs.Resolution.Concreteness
import ArrayCall.Proofs.Resolution.Hints
import ArrayCall.Proofs.Resolution.Unification

/-!
# Resolution of lifted permutations

A callable of elements resolves in the same way whether it is lifted first and then permuted, or the other
way round (`Callable.resolve_permute_elwise_iff`). The lift on the outside sees one shape less if a slot reads
the destination, and that shape is the destination's own. It matches fewer arguments against parameters, and in
another order, but the callable itself matches them all, and parameters without dimensions may be matched in
any order (`Callable.bindParams_permute`).
-/

namespace ArrayCall

namespace Callable

open Broadcast (Common)

variable {c child : Callable} {stamp s₁ s₂ s₃ s₄ : Nat} {slots : List Int} {params args : List Ty} {kwds : Keywords}
  {dst hint : Option Ty} {t d : Ty}

/-- Parameters without dimensions bind their variables if there is an assignment that fits each argument, in
whatever order they come. -/
theorem bindParams_succeeds_iff (scalars : c.OverScalars) :
    (∃ b, c.bindParams args = .ok b) ↔ ∃ σ, ∀ pair ∈ c.signature.params.zip args, Bindings.Fits σ pair.1 pair.2 := by
  have flat : ∀ pair ∈ c.signature.params.zip args, pair.1.isDim = false ∨ pair.2.isSymbolic = false :=
    fun pair member => .inl (scalars pair.1 (List.mem_append_left _ (List.of_mem_zip member).1))
  have unbound : ∀ σ, Bindings.Admits .empty σ := fun σ name v bound => by simp at bound
  simp only [bindParams, bindArgs_eq_ok_iff, (Bindings.solves_unifyAll .empty flat).succeeds_iff, unbound, true_and]

/-! ## Shapes -/

/-- A slot reads each source, and no slot reads anything else but the destination. -/
theorem mem_map_slotAt_iff {α : Type} {arity : Nat} (fit : SlotsFit slots arity) {list : List α}
    (length : list.length = slots.countP (0 ≤ ·)) {d a : α} :
    a ∈ slots.map (Node.slotAt d list) ↔ a ∈ list ∨ -1 ∈ slots ∧ a = d := by
  rw [List.mem_map]
  constructor
  · rintro ⟨slot, member, rfl⟩
    have least := fit.least slot member
    have bound := fit.lt_countP slot member
    rw [Node.slotAt]
    split
    next negative => exact .inr ⟨by rwa [show slot = -1 by omega] at member, rfl⟩
    next source =>
      rw [List.getElem?_eq_getElem (by omega)]
      exact .inl (List.getElem_mem _)
  · rintro (source | ⟨reads, rfl⟩)
    · obtain ⟨j, inside, rfl⟩ := List.getElem_of_mem source
      have read : (j : Int) ∈ slots := fit.mem_of_lt (by rw [length_sourcesOf, ← length]; exact inside)
      refine ⟨j, read, ?_⟩
      rw [Node.slotAt, if_neg (by omega), Int.toNat_natCast, List.getElem?_eq_getElem inside, Option.getD_some]
    · exact ⟨-1, reads, rfl⟩

/-- The shapes that the slots of a permutation read are those of the sources, and that of the destination. -/
theorem common_permuted_iff (fit : SlotsFit slots child.arity) (length : args.length = slots.countP (0 ≤ ·))
    (asked : -1 ∈ slots → dst.isSome) {shape : List Nat} :
    Common ((slots.map (Node.slotAt (dst.getD .void) args)).map Ty.shape ++ (dst.map Ty.shape).toList) shape ↔
      Common (args.map Ty.shape ++ (dst.map Ty.shape).toList) shape := by
  have inside : ∀ slot ∈ slots, slot < args.length := by
    rw [length]
    exact fit.lt_countP
  rw [map_slots _ inside]
  refine Broadcast.common_congr fun s => ?_
  rw [List.mem_append, List.mem_append, mem_map_slotAt_iff fit ((List.length_map _).trans length), or_assoc]
  refine or_congr_right (or_iff_right_of_imp ?_)
  rintro ⟨reads, rfl⟩
  obtain ⟨d, rfl⟩ := Option.isSome_iff_exists.mp (asked reads)
  exact List.mem_singleton_self _

/-! ## Callables of elements -/

/-- A leaf or a dispatch callable. -/
inductive Elementary : Callable → Prop
  | leaf {stamp : Nat} {name : String} {sig : Signature} {kernel : Leaf} {c : Callable}
      (built : ofLeaf stamp name sig kernel = .ok c) : Elementary c
  | table {stamp : Nat} {name : String} {arity : Nat} {table : Dispatcher Callable} {c : Callable}
      (built : ofTable stamp name arity table = .ok c) : Elementary c

theorem Elementary.overScalars (elementary : c.Elementary) : c.OverScalars := by
  cases elementary with
  | leaf built => exact overScalars_ofLeaf built
  | table built => exact overScalars_ofTable built

/-- What resolves has matched its arguments, or would have. -/
theorem Elementary.bindParams (elementary : c.Elementary) (resolved : c.resolveTypes dst args kwds = .ok t) :
    ∃ b, c.bindParams args = .ok b := by
  cases elementary with
  | leaf built =>
    obtain ⟨rfl, -⟩ := of_ofLeaf_eq_ok built
    obtain ⟨-, -, b, -, bound, -⟩ := resolveTypes_leaf_eq_ok_iff.mp resolved
    exact ⟨b, bound⟩
  | table built =>
    rw [bindParams_succeeds_iff (overScalars_ofTable built)]
    obtain ⟨rfl, -⟩ := of_ofTable_eq_ok built
    refine ⟨fun _ => none, fun pair member => ?_⟩
    rw [List.eq_of_mem_replicate (List.of_mem_zip member).1]
    trivial

theorem overScalars_permute (scalars : c.OverScalars) : (permute stamp c slots).OverScalars := by
  intro t member
  rcases List.mem_append.mp member with param | ret
  · obtain ⟨j, found⟩ := List.mem_iff_getElem?.mp param
    obtain rfl | ⟨k, -, found⟩ := of_permutedParams_getElem? found
    · rfl
    · exact scalars t (List.mem_append_left _ (List.mem_of_getElem? found))
  · exact scalars t (List.mem_append_right _ ret)

/-- Each parameter of a permutation is matched by the argument that some slot reads. -/
theorem bindParams_permute (scalars : c.OverScalars)
    (bound : ∃ b, c.bindParams (slots.map (Node.slotAt d args)) = .ok b) :
    ∃ b, (permute stamp c slots).bindParams args = .ok b := by
  rw [bindParams_succeeds_iff scalars] at bound
  rw [bindParams_succeeds_iff (overScalars_permute scalars)]
  obtain ⟨σ, fits⟩ := bound
  refine ⟨σ, fun ⟨p, a⟩ member => ?_⟩
  obtain ⟨i, there⟩ := List.mem_iff_getElem?.mp member
  obtain ⟨param, source⟩ := List.getElem?_zip_eq_some.mp there
  obtain rfl | ⟨k, slot, param⟩ := of_permutedParams_getElem? param
  · trivial
  · refine fits (p, a) (List.mem_iff_getElem?.mpr ⟨k, List.getElem?_zip_eq_some.mpr ⟨param, ?_⟩⟩)
    rw [List.getElem?_map, slot, Option.map_some, Node.slotAt, if_neg (by omega), Int.toNat_natCast, source,
      Option.getD_some]

/-! ## Asking for a type -/

/-- Where the type of a destination that is read is known, a permutation resolves as its child does for what the
slots read. -/
theorem resolveTypes_permute_of_asked (fit : SlotsFit slots child.arity) (asked : -1 ∈ slots → dst.isSome) :
    (permute stamp child slots).resolveTypes dst args kwds = .ok t ↔
      (permute stamp child slots).Takes args kwds ∧
        ∃ found, child.resolveTypes dst (slots.map (Node.slotAt (dst.getD .void) args)) kwds = .ok found ∧
          if -1 ∈ slots then Delivers dst found t else t = found := by
  rw [resolveTypes_permute_eq_ok_iff]
  refine and_congr_right fun takes => ?_
  have inside : ∀ slot ∈ slots, slot < args.length := by
    rw [takes.1, arity_permute]
    exact fit.lt_countP
  by_cases reads : -1 ∈ slots
  case pos =>
    obtain ⟨d, rfl⟩ := Option.isSome_iff_exists.mp (asked reads)
    simp only [slotDestination_of_destination ⟨-1, reads, by decide⟩, if_pos reads, delivers_some_iff, Except.ok.injEq,
      exists_and_left, exists_eq_left', Option.some_or, Option.getD_some, Option.mem_def, Option.some.injEq, forall_eq',
      filterMap_slotTypes inside (.inl rfl)]
    exact exists_congr fun found => and_congr_right fun _ => and_comm
  case neg =>
    have sources : ∀ slot ∈ slots, 0 ≤ slot := by
      intro slot member
      have least := fit.least slot member
      by_contra negative
      exact reads (by rwa [show slot = -1 by omega] at member)
    have chosen : (permute stamp child slots).slotDestination child slots dst (slotTypes slots args) = .ok none := by
      rw [slotDestination, List.findIdx?_eq_none_iff.mpr (by simpa using sources)]
    have reordered : (slotTypes slots args).filterMap (·.or none) = slots.map (Node.slotAt (dst.getD .void) args) :=
      filterMap_slotTypes inside (.inr sources)
    simp only [chosen, if_neg reads, Except.ok.injEq, exists_and_left, exists_eq_left', Option.none_or,
      Option.not_mem_none,
      Option.getD_none, IsEmpty.forall_iff, implies_true, true_and, reordered]

theorem takes_permute_iff : (permute stamp child slots).Takes args kwds ↔
    args.length = slots.countP (0 ≤ ·) ∧ kwds.checkAgainst child.name child.signature = .ok () := by
  rw [Takes, arity_permute, Keywords.checkAgainst_eq_ok_iff, Keywords.checkAgainst_eq_ok_iff]
  rfl

/-- What is delivered behind dimensions is delivered with them. -/
theorem delivers_withShape_iff {shape : List Nat} {found : Ty} (solid : ∀ d ∈ dst, d.isSymbolic = false)
    (same : ∀ d ∈ dst, d.shape = shape) :
    Delivers dst (.withShape shape found) t ↔ ∃ elem, Delivers (dst.map Ty.dtype) found elem ∧
      t = .withShape shape elem := by
  cases dst with
  | none => simp [Delivers]
  | some d =>
    obtain ⟨elem, element, whole⟩ := Ty.exists_eq_withShape (solid d rfl)
    rw [same d rfl] at whole
    subst whole
    have last : (Ty.withShape shape elem).dtype = elem := (Ty.dtype_withShape _ _).trans element.dtype
    simp only [Option.map_some, last, delivers_some_iff, Ty.canPromoteTo_withShape_iff]
    constructor
    · rintro ⟨rfl, promotes⟩
      exact ⟨elem, ⟨rfl, promotes⟩, rfl⟩
    · rintro ⟨_, ⟨rfl, promotes⟩, rfl⟩
      exact ⟨rfl, promotes⟩

variable (elementary : c.Elementary) (fit : SlotsFit slots c.arity)
include elementary fit

/-- The lift hands the element of the destination to a permutation below it, and the permutation hands the
destination itself to a lift below it. -/
theorem resolveTypes_permute_elwise_iff (asked : -1 ∈ slots → dst.isSome) (concrete : ∀ a ∈ args, a.isSymbolic = false)
    (solid : ∀ d ∈ dst, d.isSymbolic = false) :
    (permute s₂ (c.elwise s₁) slots).resolveTypes dst args kwds = .ok t ↔
      ((permute s₃ c slots).elwise s₄).resolveTypes dst args kwds = .ok t := by
  have scalars := elementary.overScalars
  have arity : (c.elwise s₁).arity = c.arity := List.length_map _
  by_cases length : args.length = slots.countP (0 ≤ ·)
  case neg =>
    refine iff_of_false (fun ran => length ?_) (fun ran => length ?_)
    · exact (takes_of_resolveTypes_eq_ok ran).1.trans (arity_permute ..)
    · exact ((takes_elwise_iff _).mp (takes_of_resolveTypes_eq_ok ran)).1.trans (arity_permute ..)
  have inside : ∀ slot ∈ slots, slot < args.length := by
    rw [length]
    exact fit.lt_countP
  have behind : (dst.bind fun d => d.stripDims d.shape.length) = dst.map Ty.dtype := by
    cases dst with
    | none => rfl
    | some d => exact Ty.stripDims_shape (solid d rfl)
  have last : (dst.map Ty.dtype).getD .void = (dst.getD .void).dtype := by cases dst <;> rfl
  have arguments : (slots.map (Node.slotAt (dst.getD .void) args)).map Ty.dtype =
      slots.map (Node.slotAt ((dst.map Ty.dtype).getD .void) (args.map Ty.dtype)) := by rw [map_slots _ inside, last]
  have known : ∀ a ∈ slots.map (Node.slotAt (dst.getD .void) args), a.isSymbolic = false := by
    refine forall_slotAt concrete inside (.inr ?_)
    cases dst with
    | none => rfl
    | some d => exact solid d rfl
  have count : (slots.map (Node.slotAt (dst.getD .void) args)).length = c.arity :=
    (List.length_map _).trans fit.length_eq
  have askedBelow : -1 ∈ slots → (dst.map Ty.dtype).isSome := fun reads => by rw [Option.isSome_map]; exact asked reads
  have within : args.length = (permute s₃ c slots).arity := length.trans (arity_permute ..).symm
  have whole : (permute s₃ c slots).OverScalars := overScalars_permute scalars
  rw [resolveTypes_permute_of_asked (arity ▸ fit) asked,
    resolveTypes_elwise_iff whole.scalarParams whole.ownDims_ret within concrete]
  simp only [resolveTypes_elwise_iff scalars.scalarParams scalars.ownDims_ret count known,
    resolveTypes_permute_of_asked fit askedBelow, behind, arguments, common_permuted_iff fit length asked,
    bindParams_elwise_eq_ok_iff scalars count known, bindParams_elwise_eq_ok_iff whole within concrete]
  -- What remains is where the result is compared with the destination: as a whole above the lift, or its
  -- element below it.
  constructor
  · rintro ⟨-, found, ⟨takes, -, shape, elem, common, same, resolved, rfl⟩, delivers⟩
    have keywords := takes.2
    refine ⟨takes_permute_iff.mpr ⟨length, keywords⟩, bindParams_permute scalars (elementary.bindParams resolved),
      shape, ?_⟩
    have taken : (permute s₃ c slots).Takes (args.map Ty.dtype) kwds :=
      takes_permute_iff.mpr ⟨(List.length_map _).trans length, keywords⟩
    by_cases reads : -1 ∈ slots
    · rw [if_pos reads, delivers_withShape_iff solid same] at delivers
      obtain ⟨ret, delivers, rfl⟩ := delivers
      exact ⟨ret, common, same, ⟨taken, elem, resolved, by rwa [if_pos reads]⟩, rfl⟩
    · rw [if_neg reads] at delivers
      exact ⟨elem, common, same, ⟨taken, elem, resolved, by rw [if_neg reads]⟩, delivers⟩
  · rintro ⟨takes, -, shape, ret, common, same, ⟨-, elem, resolved, delivers⟩, rfl⟩
    have keywords := (takes_permute_iff.mp takes).2
    have lifted := (takes_elwise_iff s₁).mpr (takes_of_resolveTypes_eq_ok resolved)
    refine ⟨takes_permute_iff.mpr ⟨length, ?_⟩, .withShape shape elem, ?_, ?_⟩
    · exact Keywords.checkAgainst_eq_ok_iff.mpr (Keywords.checkAgainst_eq_ok_iff.mp lifted.2)
    · exact ⟨⟨count, keywords⟩, elementary.bindParams resolved, shape, elem, common, same, resolved, rfl⟩
    · by_cases reads : -1 ∈ slots
      · rw [if_pos reads] at delivers ⊢
        exact (delivers_withShape_iff solid same).mpr ⟨ret, delivers, rfl⟩
      · rw [if_neg reads] at delivers ⊢
        rw [delivers]

omit elementary fit in
/-- A keyword that is about the destination asks for its type. -/
theorem isSome_of_requestedType {request : Option (Ty × ArgPosition)}
    (given : kwds.contains Keywords.dstName ∨ kwds.contains Keywords.dstTypeName)
    (requested : c.requestedType hint kwds = .ok request) : request.isSome := by
  obtain ⟨found, asked, requested⟩ := bind_eq_ok_iff.mp requested
  obtain ⟨array, arrays, asked⟩ := bind_eq_ok_iff.mp asked
  obtain ⟨type, types, asked⟩ := bind_eq_ok_iff.mp asked
  have some : found.isSome := by
    rcases array with _ | a <;> rcases type with _ | t
    · rw [NameTable.contains, NameTable.contains] at given
      rcases given with array | type
      · obtain ⟨value, given⟩ := Option.isSome_iff_exists.mp array
        rw [Keywords.arrayType?, given] at arrays
        cases value <;> cases arrays
      · obtain ⟨value, given⟩ := Option.isSome_iff_exists.mp type
        rw [Keywords.requestedType?, given] at types
        cases value with
        | type t =>
          dsimp only at types
          split at types <;> cases types
        | _ => cases types
    · cases asked
      rfl
    · cases asked
      rfl
    · dsimp only at asked
      split at asked <;> cases asked
      rfl
  obtain ⟨pair, rfl⟩ := Option.isSome_iff_exists.mp some
  cases requested
  rfl

/-- Whether a callable of elements is lifted before or after its arguments are reordered makes no difference to
the type of its result, if the type of a destination that is read is asked for. -/
theorem resolve_permute_elwise_iff
    (asked : -1 ∈ slots → kwds.contains Keywords.dstName ∨ kwds.contains Keywords.dstTypeName)
    (given : ∀ a, kwds.get? Keywords.dstName = some (.array a) → a.ty.isSymbolic = false) :
    (permute s₂ (c.elwise s₁) slots).resolve hint args kwds = .ok t ↔
      ((permute s₃ c slots).elwise s₄).resolve hint args kwds = .ok t := by
  rw [resolve_eq_ok_iff, resolve_eq_ok_iff]
  refine and_congr_right fun concrete => exists_congr fun request => exists_congr fun ret => ?_
  rw [requestedType_eq_ok_iff_of _ ((permute s₃ c slots).elwise s₄)]
  refine and_congr_right fun requested => and_congr_left fun _ => ?_
  apply resolveTypes_permute_elwise_iff elementary fit _ concrete
  · rintro d found
    obtain ⟨⟨d, position⟩, rfl, rfl⟩ := Option.map_eq_some_iff.mp found
    exact isSymbolic_of_requestedType_of_array given requested
  · intro reads
    rw [Option.isSome_map]
    exact isSome_of_requestedType (asked reads) requested

end Callable

end ArrayCall
