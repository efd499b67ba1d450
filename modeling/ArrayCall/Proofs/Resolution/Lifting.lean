import ArrayCall.Proofs.Broadcast
import ArrayCall.Proofs.Resolution.Steps

/-!
# Resolving lifts of scalar callables

A child whose parameters and result have no dimensions of their own sees one element of each
argument. `Callable.resolveTypes_lift_scalar` says what is left of resolution then: the shapes
broadcast, to the shape of the destination where one is asked for, and the child resolves for the
kinds of the elements.
-/

namespace ArrayCall

/-- The parameters take no dimensions for themselves. -/
def Callable.ScalarParams (c : Callable) : Prop := ∀ p ∈ c.signature.params, p.ownDims = 0

theorem Ty.OfScalars.stripDims_eq {t : Ty} (concrete : t.OfScalars) :
    t.stripDims t.shape.length = some t.dtype :=
  stripDims_shape concrete.1

namespace Callable

open Broadcast

variable {stamp : Nat} {c child : Callable} {types : Option (List Ty)} {dst : Option Ty} {params args : List Ty}
  {kwds : Keywords} {ret : Ty}

theorem splitArg_scalar {index : Nat} {arg param : Ty} (scalar : param.ownDims = 0)
    (concrete : arg.isSymbolic = false) :
    c.splitArg index arg param = .ok (arg.shape, arg.dtype) := by
  rw [splitArg, scalar]
  simp only [Nat.not_lt_zero, if_false, Nat.sub_zero, List.take_length, Ty.stripDims_shape concrete,
    Option.getD_some]

theorem splitArgs_scalar (scalars : ∀ p ∈ params, p.ownDims = 0) (length : args.length = params.length)
    (concrete : ∀ a ∈ args, a.isSymbolic = false) :
    c.splitArgs params args = .ok (args.map fun a => (a.shape, a.dtype)) := by
  rw [splitArgs, mapM_eq_ok_iff, List.forall₂_iff_get]
  refine ⟨by simp [length], fun i inside _ => ?_⟩
  simp only [List.get_eq_getElem, List.getElem_zipIdx, List.getElem_zip, List.getElem_map, Nat.zero_add]
  exact splitArg_scalar (scalars _ (List.getElem_mem _)) (concrete _ (List.getElem_mem _))

theorem liftShape_scalar {shapes : List (List Nat)} {shape : List Nat} {childDst : Option Ty}
    (scalar : child.signature.ret.ownDims = 0) (asked : ∀ d ∈ dst, d.OfScalars)
    (ran : c.liftShape child dst shapes = .ok (shape, childDst)) :
    Common (shapes ++ (dst.map Ty.shape).toList) shape ∧ (∀ d ∈ dst, d.shape = shape) ∧
      childDst = dst.map Ty.dtype := by
  cases dst with
  | none =>
    rw [liftShape] at ran
    split at ran
    next found =>
      cases ran
      exact ⟨by simpa using broadcast_eq_ok_iff.mp found, by simp, rfl⟩
    next => cases ran
  | some d =>
    have concrete := asked d rfl
    simp only [liftShape, scalar, Nat.not_lt_zero, if_false, Nat.sub_zero, List.take_length,
      concrete.stripDims_eq] at ran
    split at ran
    next => cases ran
    next found =>
      split at ran
      next same =>
        cases ran
        exact ⟨by simpa [same] using broadcast_eq_ok_iff.mp found, by simp [same], rfl⟩
      next => cases ran

theorem resolveTypes_lift_scalar (scalars : child.ScalarParams) (scalar : child.signature.ret.ownDims = 0)
    (length : args.length = child.arity) (concrete : ∀ a ∈ args, a.OfScalars)
    (asked : ∀ d ∈ dst, d.OfScalars)
    (resolved : (lift stamp child types).resolveTypes dst args kwds = .ok ret) :
    ∃ shape found, Common (args.map Ty.shape ++ (dst.map Ty.shape).toList) shape ∧
      (∀ d ∈ dst, d.shape = shape) ∧ ret = .withShape shape found ∧
      child.resolveTypes (dst.map Ty.dtype) (args.map Ty.dtype) kwds = .ok found := by
  obtain ⟨-, -, parts, shape, childDst, found, split, shaped, resolved, rfl⟩ :=
    resolveTypes_lift_eq_ok_iff.mp resolved
  rw [splitArgs_scalar scalars length fun a member => (concrete a member).1] at split
  cases split
  simp only [List.map_map, Function.comp_def] at shaped resolved
  obtain ⟨common, same, rfl⟩ := liftShape_scalar scalar asked shaped
  exact ⟨shape, found, common, same, rfl, resolved⟩

/-- Without a destination, arguments whose shapes broadcast resolve to the common shape. -/
theorem resolveTypes_lift_of_common {shape : List Nat} (takes : (lift stamp child types).Takes args kwds)
    (bound : ∃ b, (lift stamp child types).bindParams args = .ok b) (scalars : child.ScalarParams)
    (length : args.length = child.arity) (concrete : ∀ a ∈ args, a.OfScalars)
    (common : Common (args.map Ty.shape) shape)
    (resolved : child.resolveTypes none (args.map Ty.dtype) kwds = .ok ret) :
    (lift stamp child types).resolveTypes none args kwds = .ok (.withShape shape ret) := by
  refine resolveTypes_lift_eq_ok_iff.mpr ⟨takes, bound, _, shape, none, ret,
    splitArgs_scalar scalars length fun a member => (concrete a member).1, ?_, ?_, rfl⟩
  · simp only [List.map_map, Function.comp_def, liftShape, broadcast_eq_ok_iff.mpr common]
  · simpa only [List.map_map, Function.comp_def] using resolved

/-- Where the shapes do not broadcast, the types of the arguments are to blame. -/
theorem resolveTypes_lift_of_not_common (takes : (lift stamp child types).Takes args kwds)
    (bound : ∃ b, (lift stamp child types).bindParams args = .ok b) (scalars : child.ScalarParams)
    (length : args.length = child.arity) (concrete : ∀ a ∈ args, a.OfScalars)
    (apart : ¬∃ shape, Common (args.map Ty.shape) shape) :
    ∃ e, (lift stamp child types).resolveTypes none args kwds = .error e ∧ e.kind = .typeMismatch := by
  obtain ⟨arity, keywords⟩ := takes_iff.mpr takes
  obtain ⟨b, bound⟩ := bound
  cases shaped : broadcast (args.map Ty.shape) with
  | ok shape => exact absurd ⟨shape, broadcast_eq_ok_iff.mp shaped⟩ apart
  | error e =>
    have failed : (lift stamp child types).resolveTypes none args kwds =
        .error ((lift stamp child types).broadcastFault args.length e) := by
      rw [resolveTypes, arity, keywords]
      dsimp only [bind, Except.bind]
      rw [bound, splitArgs_scalar scalars length fun a member => (concrete a member).1]
      simp only [List.map_map, Function.comp_def, liftShape, shaped, List.length_map]
    exact ⟨_, failed, rfl⟩

end Callable

end ArrayCall
