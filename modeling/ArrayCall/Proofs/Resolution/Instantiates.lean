import ArrayCall.Proofs.DispatchTables
import ArrayCall.Proofs.Instantiation.Lifting
import ArrayCall.Proofs.Resolution.Plain
import ArrayCall.Proofs.Resolution.Requests

/-!
# What resolves can be instantiated

Resolution and instantiation walk a callable separately: the one over types, the other over layouts.
For plain callables the second walk succeeds where the first one did, with a destination of the type
that was resolved or asked for (`Callable.Delivers`). The induction is over the callable, for all
types at once, since every adapter changes them before it goes on to its child.
-/

namespace ArrayCall

namespace Callable

/-- An element is delivered as `void` or as an element of a kind that it promotes to. -/
theorem Delivers.element {dst : Option Ty} {ret t : Ty} (delivers : Delivers dst ret t)
    (element : ret.IsElement) (asked : ∀ d ∈ dst, d.OfScalars) :
    (t = .void ∧ ret = .void) ∨ ∃ a b, t = .scalar a ∧ ret = .scalar b := by
  cases dst with
  | none =>
    rw [delivers.1 rfl]
    exact element.imp (fun void => ⟨void, void⟩) (fun ⟨k, scalar⟩ => ⟨k, k, scalar, scalar⟩)
  | some d =>
    obtain ⟨rfl, promotes⟩ := delivers_some_iff.mp delivers
    obtain ⟨concrete, k, scalars⟩ := asked t rfl
    obtain rfl | ⟨b, rfl⟩ := element
    · cases t <;> cases promotes
      cases scalars
    · cases t with
      | scalar a => exact .inr ⟨a, b, rfl, rfl⟩
      | _ => cases promotes

/-- Behind the dimensions of a lift stands what the child is to deliver. -/
theorem Delivers.lifted {request : Option Ty} {shape : List Nat} {found t : Ty}
    (delivers : Delivers request (.withShape shape found) t) (element : found.IsElement)
    (asked : ∀ d ∈ request, d.OfScalars) (shaped : ∀ d ∈ request, d.shape = shape) :
    ∃ elem : Ty, t = .withShape shape elem ∧ elem.IsElement ∧ Delivers (request.map Ty.dtype) found elem := by
  cases request with
  | none => exact ⟨found, delivers.1 rfl, element, fun _ => rfl, fun d none => nomatch none⟩
  | some d =>
    obtain ⟨rfl, promotes⟩ := delivers_some_iff.mp delivers
    obtain ⟨k, same⟩ := (asked t rfl).eq_withShape
    rw [shaped t rfl] at same
    rw [same, Ty.canPromoteTo_withShape_iff] at promotes
    have dtype : t.dtype = .scalar k := by
      rw [same, Ty.dtype_withShape]
      rfl
    refine ⟨.scalar k, same, Ty.isElement_scalar k, ?_⟩
    rw [Option.map_some, dtype]
    exact delivers_some_iff.mpr ⟨rfl, promotes⟩

/-! ## Leaves -/

theorem sourceKinds_succeeds {c : Callable} {b : Bindings} {params args : List Ty}
    (substitutes : ∀ p ∈ params, ∃ k, b.substitute p = .ok (.scalar k))
    (scalars : ∀ a ∈ args, ∃ k, a = .scalar k) : ∃ kinds, c.sourceKinds b params args = .ok kinds := by
  refine mapM_succeeds fun ⟨⟨p, a⟩, i⟩ member => ?_
  obtain ⟨param, arg⟩ := List.of_mem_zip (List.mem_of_getElem? (List.mk_mem_zipIdx_iff_getElem?.mp member))
  obtain ⟨k, substituted⟩ := substitutes p param
  obtain ⟨actual, rfl⟩ := scalars a arg
  refine ⟨(actual, k), ?_⟩
  simp only [scalarKind, Ty.scalarKind?, declared, substituted]
  rfl

theorem destinationKinds_succeeds {c : Callable} {t ret : Ty}
    (alike : (t = .void ∧ ret = .void) ∨ ∃ a b, t = .scalar a ∧ ret = .scalar b) :
    ∃ kinds, c.destinationKinds t ret = .ok kinds := by
  obtain ⟨rfl, rfl⟩ | ⟨a, b, rfl, rfl⟩ := alike
  · exact ⟨none, rfl⟩
  · exact ⟨some (a, b), rfl⟩

theorem planLeaf_eq_ok {c : Callable} {kernel : Leaf} {t ret : Ty} {args : List Ty} {kwds : Keywords}
    {b : Bindings} {kinds : List (Kind × Kind)} {dstKinds : Option (Kind × Kind)} {k : Kernel} {data : NodeData}
    (bound : c.bindParams args = .ok b) (sources : c.sourceKinds b c.signature.params args = .ok kinds)
    (result : c.declared b c.signature.ret .destination = .ok ret)
    (destination : c.destinationKinds t ret = .ok dstKinds)
    (picked : c.pickKernel kernel.kernel args ((kinds.map (·.2)).head?.or (dstKinds.map (·.2))) = .ok k)
    (given : initData kernel.dataInit kwds (kinds.map (·.2)) (dstKinds.map (·.2)) = .ok data) :
    c.planLeaf kernel t args kwds =
      .ok (k, data, .between (kinds.map (·.1)) (kinds.map (·.2)) (dstKinds.map (·.1)) (dstKinds.map (·.2))) := by
  refine bind_eq_ok_iff.mpr ⟨b, bound, bind_eq_ok_iff.mpr ⟨kinds, sources, ?_⟩⟩
  refine bind_eq_ok_iff.mpr ⟨ret, result, bind_eq_ok_iff.mpr ⟨dstKinds, destination, ?_⟩⟩
  exact bind_eq_ok_iff.mpr ⟨k, picked, bind_eq_ok_iff.mpr ⟨data, given, rfl⟩⟩

/-! ## All callables -/

/-- For concrete sources with scalar elements, and a destination that what is resolved delivers, resolution
leads to a chain. -/
def FollowsResolution (kwds kwds' : Keywords) (jump : OutlineJump) (c : Callable) : Prop :=
  ∀ {request : Option Ty} {dst : Layout} {src : List Layout} {ret : Ty}, (∀ s ∈ src, s.ty.OfScalars) →
    (∀ d ∈ request, d.OfScalars) → c.resolveTypes request (src.map (·.ty)) kwds = .ok ret →
    Delivers request ret dst.ty → dst.Fits → (∀ s ∈ src, s.Fits) → (c.outlineNode [] kwds' jump dst src).Succeeds

variable {kwds kwds' : Keywords} {jump : OutlineJump}

theorem followsResolution_leaf {stamp : Nat} {name : String} {sig : Signature} {kernel : Leaf}
    (plain : Leaf.Plain sig kernel) (elements : ∀ t ∈ sig.params ++ [sig.ret], ¬t.isDim ∧ t ≠ .any) :
    FollowsResolution kwds kwds' jump (.leaf stamp name sig kernel) := by
  intro request dst src ret concrete asked resolved delivers fits srcFits
  have types : ∀ a ∈ src.map (·.ty), a.OfScalars := List.forall_mem_map.mpr concrete
  obtain ⟨length, scalars, element, b, bound, substituted, substitutes⟩ :=
    resolveTypes_leaf_plain plain elements types resolved
  obtain ⟨kinds, sources⟩ := sourceKinds_succeeds (c := .leaf stamp name sig kernel) substitutes scalars
  obtain ⟨dstKinds, destination⟩ :=
    destinationKinds_succeeds (c := .leaf stamp name sig kernel) (delivers.element element asked)
  obtain ⟨k, fixed⟩ := plain.kernel
  have result : (Callable.leaf stamp name sig kernel).declared b sig.ret .destination = .ok ret := by
    rw [declared, substituted]
  have picked : (Callable.leaf stamp name sig kernel).pickKernel kernel.kernel (src.map (·.ty))
      ((kinds.map (·.2)).head?.or (dstKinds.map (·.2))) = .ok k := by
    rw [fixed]
    rfl
  have given : initData kernel.dataInit kwds' (kinds.map (·.2)) (dstKinds.map (·.2)) = .ok .none := by
    rw [plain.dataInit]
    rfl
  rw [List.length_map] at length
  rw [outlineNode_leaf]
  refine Outline.succeeds_ofExcept_bind (checkArity_eq_ok_iff.mpr length) ?_
  exact Outline.succeeds_ofExcept_bind (planLeaf_eq_ok bound sources result destination picked given)
    (Outline.succeeds_pure _)

theorem followsResolution_dispatch {stamp : Nat} {name : String} {sig : Signature} {table : Dispatcher Callable}
    (entries : ∀ e ∈ table.entries, FollowsResolution kwds kwds' jump e.2) :
    FollowsResolution kwds kwds' jump (.dispatch stamp name sig table) := by
  intro request dst src ret concrete asked resolved delivers fits srcFits
  obtain ⟨⟨arity, -⟩, target, found, resolved⟩ := resolveTypes_dispatch_eq_ok_iff.mp resolved
  obtain ⟨key, member⟩ := Dispatcher.exists_mem_of_dispatch found
  have below := entries (key, target) member concrete asked resolved delivers fits srcFits
  rw [List.length_map] at arity
  rw [outlineNode_dispatch]
  refine Outline.succeeds_ofExcept_bind (checkArity_eq_ok_iff.mpr arity) ?_
  -- Both walks look the same types up, so they go on to the same entry.
  cases selected : table.dispatch ((src.map (·.ty)).map Ty.typeId) with
  | error position => rw [found] at selected; cases selected
  | ok other =>
    obtain rfl := Except.ok.inj (found.symm.trans selected)
    exact below

theorem followsResolution_permute {stamp : Nat} {child : Callable} {slots : List Int}
    (fit : SlotsFit slots child.arity) (formed : child.Formed Leaf.Plain ScalarParams)
    (below : FollowsResolution kwds kwds' jump child) :
    FollowsResolution kwds kwds' jump (.permute stamp child slots) := by
  intro request dst src ret concrete asked resolved delivers fits srcFits
  have arity := (resolveTypes_permute_eq_ok_iff.mp resolved).1.1
  obtain ⟨inside, read⟩ := resolveTypes_permute_plain Ty.ofScalars_scalar fit formed
    (List.forall_mem_map.mpr concrete) asked resolved
  rw [List.length_map] at arity inside
  rw [outlineNode_permute]
  refine Outline.succeeds_ofExcept_bind (checkArity_eq_ok_iff.mpr arity) ?_
  dsimp only
  rw [filterMap_slots dst inside]
  refine Outline.succeeds_above_iff.mpr ?_
  obtain ⟨sources, resolved⟩ | ⟨-, target, same, found, resolved, promotes⟩ := read
  · have resolved := resolved dst.ty
    rw [← map_slots (·.ty) inside] at resolved
    exact below (forall_slotAt concrete inside (.inl sources)) asked resolved delivers fits
      (forall_slotAt srcFits inside (.inl sources))
  · have given : dst.ty = ret := by
      cases request with
      | none => exact delivers.1 rfl
      | some d => exact (delivers_some_iff.mp delivers).1.trans (same d rfl)
    subst given
    rw [← map_slots (·.ty) inside] at resolved
    exact below (forall_slotAt concrete inside (.inr target)) (by simpa using target) resolved
      (delivers_some_iff.mpr ⟨rfl, promotes⟩) fits (forall_slotAt srcFits inside (.inr fits))

theorem followsResolution_lift {stamp : Nat} {child : Callable} {types : Option (List Ty)}
    (scalarParams : child.ScalarParams) (lengths : ∀ ts ∈ types, ts.length = child.arity)
    (formed : child.Formed Leaf.Plain ScalarParams) (below : FollowsResolution kwds kwds' jump child) :
    FollowsResolution kwds kwds' jump (.lift stamp child types) := by
  intro request dst src ret concrete asked resolved delivers fits srcFits
  have arity := (resolveTypes_lift_eq_ok_iff.mp resolved).1.1
  have length : src.length = child.arity := by
    rw [← arity_lift lengths, ← arity, List.length_map]
  have sources : ∀ a ∈ src.map (·.ty), a.OfScalars := List.forall_mem_map.mpr concrete
  obtain ⟨shape, found, common, sameShape, rfl, resolvedChild⟩ := resolveTypes_lift_scalar scalarParams
    (ownDims_ret formed) (by rw [List.length_map, length]) sources asked resolved
  have elements : ∀ a ∈ (src.map (·.ty)).map Ty.dtype, ∃ k, a = .scalar k :=
    List.forall_mem_map.mpr fun a member => (sources a member).2
  have elementsAsked : ∀ d ∈ request.map Ty.dtype, ∃ k, d = .scalar k := by
    intro d given
    obtain ⟨d, there, rfl⟩ := Option.map_eq_some_iff.mp given
    exact (asked d there).2
  obtain ⟨elem, result, element, delivers⟩ :=
    delivers.lifted (resolveTypes_element formed elements elementsAsked resolvedChild) asked sameShape
  have stretches : ∀ s ∈ src, Broadcast.Stretches s.ty.shape shape := by
    intro s member
    exact common.stretches (List.mem_append_left _ (List.mem_map_of_mem (List.mem_map_of_mem member)))
  have elementTypes : (src.map Layout.inside).map (·.ty) = (src.map (·.ty)).map Ty.dtype := by
    rw [List.map_map, List.map_map]
    rfl
  rw [← elementTypes] at resolvedChild
  have succeeds : (child.outlineNode [] kwds' jump ⟨elem, []⟩ (src.map Layout.inside)).Succeeds :=
    below (List.forall_mem_map.mpr fun s member => Layout.ofScalars_inside (concrete s member))
      (fun d given => (elementsAsked d given).elim fun k scalar => scalar ▸ Ty.ofScalars_scalar k) resolvedChild
      delivers (Layout.fits_element element)
      (List.forall_mem_map.mpr fun s member => Layout.fits_inside (concrete s member))
  obtain ⟨chain, written⟩ := succeeds
  obtain ⟨lifted, written, -⟩ := outlineNode_lift_scalar (by simp) scalarParams (ownDims_ret formed)
    ((List.length_map _).symm.trans arity) length result element fits concrete srcFits stretches written
  exact ⟨lifted, written⟩

/-- A fold delivers into its destination, which is an element. -/
theorem exists_scalar_of_fold {stamp : Nat} {child : Callable} {assoc : Associativity} {request : Option Ty}
    {elem ret t : Ty} (formed : (Callable.permute stamp child assoc.slots).Formed Leaf.Plain ScalarParams)
    (element : ∃ k, elem = .scalar k) (asked : ∀ d ∈ request, ∃ k, d = .scalar k)
    (resolved : (Callable.permute stamp child assoc.slots).resolveTypes request [elem] kwds = .ok ret)
    (delivers : Delivers request ret t) : ∃ k, t = .scalar k := by
  cases formed with
  | permute fit formed =>
    obtain ⟨-, ⟨sources, -⟩ | ⟨-, ⟨k, rfl⟩, same, -⟩⟩ := resolveTypes_permute_plain (fun k => ⟨k, rfl⟩) fit formed
      (List.forall_mem_singleton.mpr element) asked resolved
    · exact absurd (sources (-1) (by cases assoc <;> decide)) (by decide)
    · cases request with
      | none => exact ⟨k, delivers.1 rfl⟩
      | some d => exact ⟨k, (delivers_some_iff.mp delivers).1.trans (same d rfl)⟩

theorem followsResolution_reduce {stamp foldStamp : Nat} {child : Callable} {assoc : Associativity}
    {identity : Option Scalar} (formed : (Callable.permute foldStamp child assoc.slots).Formed Leaf.Plain ScalarParams)
    (below : FollowsResolution kwds kwds' jump (.permute foldStamp child assoc.slots)) :
    FollowsResolution kwds kwds' jump (.reduce stamp (.permute foldStamp child assoc.slots) identity) := by
  intro request dst src ret concrete asked resolved delivers fits srcFits
  obtain ⟨⟨arity, -⟩, flat, folded⟩ := resolveTypes_reduce_eq_ok_iff.mp resolved
  rw [List.length_map] at arity
  obtain ⟨s, rfl⟩ := List.length_eq_one_iff.mp arity
  have concrete := concrete s (by simp)
  have elementsAsked : ∀ d ∈ request, ∃ k, d = .scalar k := fun d given => (asked d given).eq_scalar (flat d given)
  obtain ⟨kind, result⟩ := exists_scalar_of_fold formed concrete.2 elementsAsked folded delivers
  rw [outlineNode_reduce]
  refine Outline.succeeds_ofExcept_bind (checkArity_eq_ok_iff.mpr rfl) ?_
  refine Outline.succeeds_ofExcept_bind (reductionPlan_scalar result concrete (srcFits s (by simp))) ?_
  refine Outline.succeeds_above_iff.mpr ?_
  exact below (List.forall_mem_singleton.mpr (Layout.ofScalars_inside concrete)) asked folded delivers fits
    (List.forall_mem_singleton.mpr (Layout.fits_inside concrete))

theorem Formed.followsResolution {c : Callable} (formed : c.Formed Leaf.Plain ScalarParams) :
    FollowsResolution kwds kwds' jump c := by
  induction formed with
  | leaf plain elements => exact followsResolution_leaf plain elements
  | dispatch _ _ inductionHypothesis => exact followsResolution_dispatch inductionHypothesis
  | permute fit below inductionHypothesis => exact followsResolution_permute fit below inductionHypothesis
  | lift scalarParams shaped below inductionHypothesis =>
    exact followsResolution_lift scalarParams (fun ts given => (shaped ts given).1) below inductionHypothesis
  | reduce below inductionHypothesis => exact followsResolution_reduce below inductionHypothesis

/-! ## The result -/

theorem of_resolve_eq_ok {c : Callable} {hint : Option Ty} {args : List Ty} {t : Ty}
    (concrete : ∀ d ∈ hint, d.isSymbolic = false) (resolved : c.resolve hint args .empty = .ok t) :
    ∃ ret, c.resolveTypes hint args .empty = .ok ret ∧ Delivers hint ret t := by
  have request : (hint.filter fun d => !d.isSymbolic) = hint := by
    cases hint with
    | none => rfl
    | some d => rw [Option.filter_some, if_pos (by simp [concrete d rfl])]
  have asked : c.requestedType hint .empty = .ok (hint.map fun d => (d, .destination)) := by
    change Except.ok _ = _
    rw [request]
  obtain ⟨-, request, ret, same, found, delivers⟩ := resolve_eq_ok_iff.mp resolved
  obtain rfl := Except.ok.inj (asked.symm.trans same)
  cases hint with
  | none => exact ⟨ret, found, delivers⟩
  | some d => exact ⟨ret, found, delivers⟩

/-- What resolves can be instantiated, into every graph: a plain callable, for sources of concrete types
with scalar elements and a destination of the type that it resolved to, each with one stride for each
dimension. -/
theorem instantiate_of_resolve {c : Callable} (plain : c.Plain) {hint : Option Ty} {dst : Layout}
    {src : List Layout} (concrete : ∀ s ∈ src, s.ty.OfScalars) (asked : ∀ d ∈ hint, d.OfScalars)
    (resolved : c.resolve hint (src.map (·.ty)) .empty = .ok dst.ty) (fits : dst.Fits)
    (srcFits : ∀ s ∈ src, s.Fits) (kwds : Keywords) (g : CallGraph) :
    ∃ root g', c.instantiate [] dst src kwds g = some (.ok root, g') := by
  obtain ⟨ret, found, delivers⟩ := of_resolve_eq_ok (fun d given => (asked d given).1) resolved
  have succeeds : (outline [] c dst src kwds).Succeeds :=
    plain.formed.followsResolution concrete asked found delivers fits srcFits
  obtain ⟨chain, outlined⟩ := succeeds
  exact ⟨_, _, instantiate_of_outline outlined g⟩

/-- Accumulation into a destination of two dimensions from an argument that is stretched and converted. -/
theorem instantiate_of_resolve_of_accumulation :
    let long : Ty := .scalar (.int .w64)
    let add : Callable := .leaf 0 "add[int64]" (Builtins.uniform 2 long) ⟨.fixed (.binary .add (.int .w64)), none⟩
    let table : Dispatcher Callable := .after {} [([.scalar (.int .w64), .scalar (.int .w64)], add)]
    let c : Callable := .permute 3 (.lift 2 (.dispatch 1 "add" ⟨[.any, .any], [], .any⟩ table) none) [-1, 0]
    let dst : Layout := ⟨.withShape [2, 3] long, [24, 8]⟩
    let src : List Layout := [⟨.withShape [2, 1] (.scalar (.int .w16)), [-2, 0]⟩]
    c.Plain ∧ (∀ s ∈ src, s.ty.OfScalars) ∧ dst.ty.OfScalars ∧
      c.resolve (some dst.ty) (src.map (·.ty)) .empty = .ok dst.ty ∧ dst.Fits ∧ (∀ s ∈ src, s.Fits) ∧
      ∃ root g', c.instantiate [] dst src .empty .empty = some (.ok root, g') := by
  intro long add table c dst src
  have builtLeaf : ofLeaf 0 "add[int64]" (Builtins.uniform 2 long) ⟨.fixed (.binary .add (.int .w64)), none⟩ =
    .ok add := rfl
  have builtTable : ofTable 1 "add" 2 table = .ok (.dispatch 1 "add" ⟨[.any, .any], [], .any⟩ table) := rfl
  have builtPermutation : (elwise 2 (.dispatch 1 "add" ⟨[.any, .any], [], .any⟩ table)).permuted 3 [-1, 0] =
    .ok c := rfl
  have params : ∀ p ∈ (Builtins.uniform 2 long).params, p.IsElementPattern := by
    intro p member
    exact .inl ⟨_, List.eq_of_mem_replicate member⟩
  have leaf : add.Plain := .leaf ⟨rfl, ⟨_, rfl⟩, rfl, params⟩ builtLeaf
  have entries : ∀ e ∈ table.entries, e.2.Plain := by
    intro e member
    obtain rfl := List.mem_singleton.mp member
    exact leaf
  have scalars : (Callable.dispatch 1 "add" ⟨[.any, .any], [], .any⟩ table).ScalarParams := by
    unfold ScalarParams
    decide
  have plain : c.Plain := .permuted (.elwise (.table entries builtTable) scalars) builtPermutation
  have concrete : ∀ s ∈ src, s.ty.OfScalars := by
    intro s member
    obtain rfl := List.mem_singleton.mp member
    exact Ty.ofScalars_iff.mpr ⟨[2, 1], .int .w16, rfl⟩
  have result : dst.ty.OfScalars := Ty.ofScalars_iff.mpr ⟨[2, 3], .int .w64, rfl⟩
  have resolved : c.resolve (some dst.ty) (src.map (·.ty)) .empty = .ok dst.ty := by cbv
  have srcFits : ∀ s ∈ src, s.Fits := by
    intro s member
    obtain rfl := List.mem_singleton.mp member
    rfl
  exact ⟨plain, concrete, result, resolved, rfl, srcFits,
    instantiate_of_resolve plain concrete (by simpa using result) resolved rfl srcFits .empty .empty⟩

end Callable

end ArrayCall
