import ArrayCall.Proofs.Instantiation.Sources
import ArrayCall.Proofs.Resolution.Lifting

/-!
# Adapters over scalar callables

Where the arguments stretch to the shape of the destination, a lift over a child without dimensions
of its own takes every dimension for a loop (`Callable.loopNest_scalar`) and leaves single elements
to the child (`Callable.liftPlan_scalar`). An argument moves in a loop by its own stride, and not at
all where it is stretched (`Layout.stretchedStride`). A permutation and a reduction put their nodes above
those of their child (`Callable.run_outlineNode_permute`, `Callable.outlineNode_reduce_scalar`).
-/

namespace ArrayCall

namespace Layout

/-- One stride for each dimension. -/
def Fits (l : Layout) : Prop := l.strides.length = l.ty.shape.length

/-- How far an argument that is stretched to a shape moves in dimension `d` of it. -/
def stretchedStride (l : Layout) (target : List Nat) (d : Nat) : Int :=
  let lead := target.length - l.ty.shape.length
  if d < lead then 0
  else if l.ty.shape[d - lead]? = target[d]? then l.strides[d - lead]?.getD 0 else 0

/-- One element of what a layout holds. -/
def inside (l : Layout) : Layout := ⟨l.ty.dtype, []⟩

theorem fits_element {elem : Ty} (element : elem.IsElement) : Fits ⟨elem, []⟩ := by
  obtain rfl | ⟨k, rfl⟩ := element <;> rfl

theorem inside_of_elements {l : Layout} {shape : List Nat} {k : Kind} (type : l.ty = .withShape shape (.scalar k)) :
    l.inside = ⟨.scalar k, []⟩ := by
  rw [inside, type, Ty.dtype_withShape, (Ty.isElement_scalar k).dtype]

theorem ofScalars_inside {l : Layout} (concrete : l.ty.OfScalars) : l.inside.ty.OfScalars := by
  obtain ⟨-, k, element⟩ := concrete
  rw [inside, element]
  exact Ty.ofScalars_scalar k

theorem fits_inside {l : Layout} (concrete : l.ty.OfScalars) : l.inside.Fits := by
  obtain ⟨-, k, element⟩ := concrete
  exact fits_element (.inr ⟨k, element⟩)

theorem inner?_eq_inside {l : Layout} (concrete : l.ty.OfScalars) (fits : l.Fits) :
    l.inner? l.ty.shape.length = some l.inside := by
  rw [inner?, concrete.stripDims_eq]
  dsimp only
  rw [← fits, if_pos (Nat.le_refl _), List.drop_length, inside]

theorem inner?_zero (l : Layout) : l.inner? 0 = some l := by
  simp [inner?, Ty.stripDims]

theorem shape_of_inner? {l behind : Layout} (found : l.inner? l.ty.shape.length = some behind) :
    behind.ty.shape = [] := by
  rw [inner?] at found
  split at found
  next stripped =>
    split at found <;> cases found
    exact Ty.shape_of_stripDims stripped
  next => cases found

end Layout

open Broadcast

/-- The size of a stretched shape in a dimension that it has. -/
theorem Broadcast.Stretches.getElem? {shape target : List Nat} (stretches : Stretches shape target) {d : Nat}
    (inside : d < target.length) (own : target.length - shape.length ≤ d) :
    shape[d - (target.length - shape.length)]? = some 1 ∨
      shape[d - (target.length - shape.length)]? = target[d]? := by
  have length := stretches.length_le
  have place := stretches.size_eq (target.length - 1 - d)
  rw [sizeAt_eq_getElem? (by omega : target.length - 1 - d < shape.length),
    sizeAt_eq_getElem? (by omega : target.length - 1 - d < target.length),
    show shape.length - 1 - (target.length - 1 - d) = d - (target.length - shape.length) by omega,
    show target.length - 1 - (target.length - 1 - d) = d by omega] at place
  rw [List.getElem?_eq_getElem (by omega), List.getElem?_eq_getElem inside] at place ⊢
  exact place.imp (congrArg some) (congrArg some)

namespace Callable

variable {c child : Callable} {dst : Layout} {src : List Layout} {shape : List Nat} {elem : Ty}

theorem liftSource_scalar {outer index : Nat} {l : Layout} {param : Ty} (scalar : param.ownDims = 0)
    (concrete : l.ty.OfScalars) (fits : l.Fits) (shallow : l.ty.shape.length ≤ outer) :
    c.liftSource outer index l param = .ok (l.ty.shape.length, l.inside) := by
  rw [liftSource, scalar, if_neg (by omega), Nat.sub_zero, l.inner?_eq_inside concrete fits]

theorem liftPlan_scalar (scalars : child.ScalarParams) (scalar : child.signature.ret.ownDims = 0)
    (length : src.length = child.arity) (result : dst.ty = .withShape shape elem) (element : elem.IsElement)
    (fits : dst.Fits) (concrete : ∀ s ∈ src, s.ty.OfScalars) (srcFits : ∀ s ∈ src, s.Fits)
    (stretches : ∀ s ∈ src, Stretches s.ty.shape shape) :
    c.liftPlan child dst src =
      .ok ⟨shape.length, src.map (·.ty.shape.length), ⟨elem, []⟩, src.map Layout.inside⟩ := by
  have shaped : dst.ty.shape = shape := by rw [result, Ty.shape_withShape element]
  have parts : (src.zip child.signature.params).zipIdx.mapM
        (fun p => c.liftSource shape.length p.2 p.1.1 p.1.2) =
      .ok (src.map fun s => (s.ty.shape.length, s.inside)) := by
    rw [mapM_eq_ok_iff, List.forall₂_iff_get]
    have params : child.signature.params.length = src.length := length.symm
    refine ⟨by simp [params], fun i inside _ => ?_⟩
    simp only [List.get_eq_getElem, List.getElem_zipIdx, List.getElem_zip, List.getElem_map, Nat.zero_add]
    have member : ∀ h : i < src.length, src[i] ∈ src := fun _ => List.getElem_mem _
    exact liftSource_scalar (scalars _ (List.getElem_mem _)) (concrete _ (member _)) (srcFits _ (member _))
      (stretches _ (member _)).length_le
  have inner : dst.inner? shape.length = some ⟨elem, []⟩ := by
    rw [Layout.inner?, result, Ty.stripDims_withShape]
    dsimp only
    rw [Layout.Fits, shaped] at fits
    rw [← fits, if_pos (Nat.le_refl _), List.drop_length]
  rw [liftPlan]
  simp only [shaped, scalar, Nat.not_lt_zero, if_false, Nat.sub_zero, parts, inner]
  simp [bind, Except.bind, pure, Except.pure, Function.comp_def]

theorem loopStride_scalar {d index : Nat} {l : Layout} (inside : d < shape.length)
    (stretches : Stretches l.ty.shape shape) :
    c.loopStride shape.length d shape[d] index l.ty.shape.length l = .ok (l.stretchedStride shape d) := by
  rw [loopStride, Layout.stretchedStride]
  dsimp only
  split
  · rfl
  next own =>
    rw [List.getElem?_eq_getElem inside]
    -- The program compares with the extent before it looks for one; where both fit, both give a stride.
    rcases stretches.getElem? inside (Nat.le_of_not_lt own) with one | same
    · rw [one, Option.getD_some]
      by_cases fits : 1 = shape[d]
      · rw [if_pos fits, if_pos (congrArg some fits)]
      · rw [if_neg fits, if_pos rfl, if_neg (fun same => fits (Option.some.inj same))]
    · rw [List.getElem?_eq_getElem inside] at same
      rw [same, Option.getD_some, if_pos rfl, if_pos rfl]

/-- The loops over a shape, each with the strides of the destination and the arguments in it. -/
def loopsOver (shape : List Nat) (dst : Layout) (src : List Layout) : List DimLoop :=
  shape.zipIdx.map fun (extent, d) =>
    ⟨extent, dst.strides[d]?.getD 0, src.map (·.stretchedStride shape d), d + 1 = shape.length⟩

theorem loopNest_scalar (shaped : dst.ty.shape = shape) (stretches : ∀ s ∈ src, Stretches s.ty.shape shape) :
    c.loopNest shape.length (src.map (·.ty.shape.length)) dst src = .ok (loopsOver shape dst src) := by
  rw [loopNest, shaped, List.take_length, mapM_eq_ok_iff, List.forall₂_iff_get]
  refine ⟨by simp [loopsOver], fun d inside _ => ?_⟩
  rw [List.length_zipIdx] at inside
  have strides : ((src.map (·.ty.shape.length)).zip src).zipIdx.mapM
        (fun p => c.loopStride shape.length d shape[d] p.2 p.1.1 p.1.2) =
      .ok (src.map (·.stretchedStride shape d)) := by
    rw [mapM_eq_ok_iff, List.forall₂_iff_get]
    refine ⟨by simp, fun i there _ => ?_⟩
    simp only [List.get_eq_getElem, List.getElem_zipIdx, List.getElem_zip, List.getElem_map, Nat.zero_add]
    exact loopStride_scalar inside (stretches _ (List.getElem_mem _))
  simp only [List.get_eq_getElem, List.getElem_zipIdx, loopsOver, List.getElem_map, Nat.zero_add]
  rw [bind_eq_ok_iff]
  exact ⟨_, strides, rfl⟩

/-- A lift writes its loops above what its child writes for single elements. -/
theorem outlineNode_lift_scalar {os : Overloads} {stamp : Nat} {types : Option (List Ty)} {kwds : Keywords}
    {jump : OutlineJump} {chain : Chain} (unnamed : ∀ o ∈ os, o.subject ≠ child.stamp)
    (scalars : child.ScalarParams) (scalar : child.signature.ret.ownDims = 0)
    (arity : src.length = (lift stamp child types).arity) (length : src.length = child.arity)
    (result : dst.ty = .withShape shape elem) (element : elem.IsElement) (fits : dst.Fits)
    (concrete : ∀ s ∈ src, s.ty.OfScalars) (srcFits : ∀ s ∈ src, s.Fits)
    (stretches : ∀ s ∈ src, Stretches s.ty.shape shape)
    (below : (child.outlineNode os kwds jump ⟨elem, []⟩ (src.map Layout.inside)).run = some (.ok chain)) :
    ∃ lifted : Chain, ((lift stamp child types).outlineNode os kwds jump dst src).run = some (.ok lifted) ∧
      lifted.toList = loopNodes (loopsOver shape dst src) ++ chain.toList := by
  have shaped : dst.ty.shape = shape := by rw [result, Ty.shape_withShape element]
  rw [outlineNode_lift]
  rw [Outline.run_ofExcept_bind (checkArity_eq_ok_iff.mpr arity)]
  rw [Outline.run_ofExcept_bind (liftPlan_scalar scalars scalar length result element fits concrete srcFits stretches)]
  rw [Outline.run_ofExcept_bind (loopNest_scalar shaped stretches)]
  simp only [Overloads.find?_eq_none unnamed]
  cases loopsOver shape dst src with
  | nil => exact ⟨chain, Outline.run_adapt_eq_ok_iff.mpr below, rfl⟩
  | cons outermost loops => exact ⟨_, Outline.run_above_eq_ok_iff.mpr ⟨chain, below, rfl⟩, rfl⟩

/-! ## Permutations and reductions -/

/-- A permutation writes its node above what its child writes for the reordered sources. -/
theorem run_outlineNode_permute {os : Overloads} {stamp : Nat} {slots : List Int} {kwds : Keywords} {jump : OutlineJump}
    {chain : Chain} (unnamed : ∀ o ∈ os, o.subject ≠ child.stamp)
    (arity : src.length = (permute stamp child slots).arity) (inside : ∀ slot ∈ slots, slot < src.length)
    (below : (child.outlineNode os kwds jump dst (slots.map (Node.slotAt dst src))).run = some (.ok chain)) :
    ((permute stamp child slots).outlineNode os kwds jump dst src).run =
      some (.ok (chain.under (.permute, .permutation slots) [])) := by
  rw [outlineNode_permute, Outline.run_ofExcept_bind (checkArity_eq_ok_iff.mpr arity)]
  simp only [Overloads.find?_eq_none unnamed, filterMap_slots dst inside]
  exact Outline.run_above_eq_ok_iff.mpr ⟨chain, below, rfl⟩

/-- A reduction accumulates in the kind of its destination and leaves single elements to its fold. -/
theorem reductionPlan_scalar {l : Layout} {kind : Kind} (result : dst.ty = .scalar kind)
    (concrete : l.ty.OfScalars) (fits : l.Fits) : c.reductionPlan dst l = .ok (kind, l.inside) := by
  rw [reductionPlan, result]
  simp only [Ty.scalarKind?, l.inner?_eq_inside concrete fits]

/-- A reduction writes its fold and its loops above what the fold writes for one element. -/
theorem outlineNode_reduce_scalar {os : Overloads} {stamp : Nat} {fold : Callable} {identity : Option Scalar}
    {kwds : Keywords} {jump : OutlineJump} {l : Layout} {kind : Kind} {chain : Chain}
    (unnamed : ∀ o ∈ os, o.subject ≠ fold.stamp) (result : dst.ty = .scalar kind) (concrete : l.ty.OfScalars)
    (fits : l.Fits) (below : (fold.outlineNode os kwds jump dst [l.inside]).run = some (.ok chain)) :
    ((reduce stamp fold identity).outlineNode os kwds jump dst [l]).run =
      some (.ok (chain.under (.fold, .fold identity kind) ((reductionLoops l).map fun l => (.loop, .loop l)))) := by
  have arity : [l].length = (reduce stamp fold identity).arity := rfl
  rw [outlineNode_reduce, Outline.run_ofExcept_bind (checkArity_eq_ok_iff.mpr arity)]
  simp only [List.headD_cons, Outline.run_ofExcept_bind (reductionPlan_scalar result concrete fits),
    Overloads.find?_eq_none unnamed]
  exact Outline.run_above_eq_ok_iff.mpr ⟨chain, below, rfl⟩

end Callable

end ArrayCall
