import ArrayCall.Proofs.Calls.NestedLifts
import ArrayCall.Proofs.Resolution.LiftedPermutations

/-!
# Lifts to declared types

A leaf or a dispatch callable may be lifted over any number of dimensions, or to types that the arguments must
have, such as `N * int32` twice. Both leave the same loops to do and hand the same elements to the child. The
declared types are matched before anything else and are not looked at again, so that a lift to them does what
the other lift does, for those arguments which they match.

* `Callable.Elementary.bindParams_elwise`: the parameters that a lift over any dimensions declares match whatever
  its child resolves.
* `Callable.liftTo_eq_ok_iff`: what a lift to declared types resolves and calls.
-/

namespace ArrayCall.Callable

variable {c l : Callable} {os : Overloads} {stamp stamp' : Nat} {types : List Ty} {hint : Option Ty}

section

variable {dst : Option Ty} {args : List Ty} {kwds : Keywords} {t : Ty}

/-- What resolves behind all dimensions is matched by the parameters of a lift over any number of them. -/
theorem Elementary.bindParams_elwise (elementary : c.Elementary) (length : args.length = c.arity)
    (concrete : ∀ a ∈ args, a.isSymbolic = false) (resolved : c.resolveTypes dst (args.map Ty.dtype) kwds = .ok t) :
    ∃ b, (c.elwise stamp).bindParams args = .ok b := by
  simp only [bindParams_elwise_eq_ok_iff elementary.overScalars length concrete]
  exact elementary.bindParams resolved

theorem takes_liftTo_iff (length : types.length = c.arity) :
    (lift stamp c (some types)).Takes args kwds ↔ c.Takes args kwds := by
  have arity : (lift stamp c (some types)).arity = c.arity := length
  rw [Takes, Takes, arity, Keywords.checkAgainst_eq_ok_iff, Keywords.checkAgainst_eq_ok_iff]
  rfl

theorem resolveTypes_liftTo_iff (elementary : c.Elementary) (length : types.length = c.arity)
    (concrete : ∀ a ∈ args, a.isSymbolic = false) :
    (lift stamp c (some types)).resolveTypes dst args kwds = .ok t ↔
      (∃ b, Bindings.unifyAll .empty (types.zip args) = .ok b) ∧
        (c.elwise stamp').resolveTypes dst args kwds = .ok t := by
  by_cases count : args.length = c.arity
  case neg =>
    refine iff_of_false (fun ran => count ?_) (fun ran => count ?_)
    · exact (takes_of_resolveTypes_eq_ok ran).1.trans length
    · exact ((takes_elwise_iff _).mp (takes_of_resolveTypes_eq_ok ran.2)).1
  have scalars := elementary.overScalars
  have matched : (∃ b, (lift stamp c (some types)).bindParams args = .ok b) ↔
      ∃ b, Bindings.unifyAll .empty (types.zip args) = .ok b := exists_congr fun _ => bindArgs_eq_ok_iff
  rw [resolveTypes_elwise_iff scalars.scalarParams scalars.ownDims_ret count concrete,
    resolveTypes_lift_scalar_iff scalars.scalarParams scalars.ownDims_ret count concrete, matched,
    takes_liftTo_iff length]
  constructor
  · rintro ⟨takes, bound, shape, found, common, same, resolved, rfl⟩
    exact ⟨bound, takes, elementary.bindParams_elwise count concrete resolved, shape, found, common, same,
      resolved, rfl⟩
  · rintro ⟨bound, takes, -, lifted⟩
    exact ⟨takes, bound, lifted⟩

theorem resolve_liftTo_iff (stamp' : Nat) (elementary : c.Elementary) (length : types.length = c.arity) :
    (lift stamp c (some types)).resolve hint args kwds = .ok t ↔
      (∃ b, Bindings.unifyAll .empty (types.zip args) = .ok b) ∧ (c.elwise stamp').resolve hint args kwds = .ok t := by
  rw [resolve_eq_ok_iff, resolve_eq_ok_iff]
  simp only [requestedType_eq_ok_iff_of _ (c.elwise stamp')]
  constructor
  · rintro ⟨concrete, request, ret, asked, resolved, delivers⟩
    obtain ⟨bound, resolved⟩ := (resolveTypes_liftTo_iff elementary length concrete).mp resolved
    exact ⟨bound, concrete, request, ret, asked, resolved, delivers⟩
  · rintro ⟨bound, concrete, request, ret, asked, resolved, delivers⟩
    exact ⟨concrete, request, ret, asked,
      (resolveTypes_liftTo_iff elementary length concrete).mpr ⟨bound, resolved⟩, delivers⟩

end

/-- The declared types are not looked at when loops are planned. -/
theorem run_outline_liftTo_iff {dst : Layout} {src : List Layout} {kwds : Keywords} {chain : Chain}
    (unnamed : ∀ o ∈ os, o.subject ≠ stamp) (unnamed' : ∀ o ∈ os, o.subject ≠ stamp') (scalars : c.OverScalars)
    (length : types.length = c.arity) :
    (outline os (lift stamp c (some types)) dst src kwds).run = some (.ok chain) ↔
      (outline os (c.elwise stamp') dst src kwds).run = some (.ok chain) := by
  have arity : (lift stamp c (some types)).arity = c.arity := length
  rw [run_outline_elwise_eq_ok_iff unnamed', outline_eq_outlineNode unnamed, run_outlineNode_lift_eq_ok_iff, arity]
  refine and_congr_right fun count => exists_congr fun plan => exists_congr fun loops => exists_congr fun below => ?_
  rw [liftPlan_scalar_eq_ok_iff count scalars.scalarParams scalars.ownDims_ret,
    liftPlan_scalar_eq_ok_iff count scalars.scalarParams scalars.ownDims_ret, loopNest_eq_ok_iff_of _ (c.elwise stamp')]
  rfl

/-- A leaf or a dispatch callable that is lifted to declared types calls what it calls lifted over any number of
dimensions, for arguments that match the types one after the other. -/
theorem liftTo_call_eq_ok_iff (elementary : c.Elementary) (unnamed : ∀ o ∈ os, o.subject ≠ stamp)
    (unnamed' : ∀ o ∈ os, o.subject ≠ stamp') (lifted : c.liftTo stamp types = .ok l) (args : List NdArray)
    (kwds : Keywords) (r : NdArray) :
    l.call os args kwds = .ok r ↔
      (∃ b, Bindings.unifyAll .empty (types.zip (args.map (·.ty))) = .ok b) ∧
        (c.elwise stamp').call os args kwds = .ok r := by
  obtain ⟨rfl, length, -⟩ := of_liftTo_eq_ok lifted
  simp only [call_eq_ok_iff, resolve_liftTo_iff stamp' elementary length, runInto_eq_ok_iff,
    run_outline_liftTo_iff unnamed unnamed' elementary.overScalars length, and_assoc, exists_and_left]

/-- Two vectors are to have the same length `N`, which a lift over any dimensions does not ask for. -/
theorem liftTo_call_of_shared_dimension :
    let int : Ty := .scalar (.int .w32)
    let subtract : Callable :=
      .leaf 0 "subtract[int32]" (Builtins.uniform 2 int) ⟨.fixed (.binary .subtract (.int .w32)), none⟩
    let types : List Ty := [.symbolicDim "N" int, .symbolicDim "N" int]
    let l : Callable := .lift 1 subtract (some types)
    let numbers : NdArray := .ofList (.int .w32) [.int 7, .int 5]
    let small : NdArray := .ofList (.int .w32) [.int 1, .int 2]
    let one : NdArray := .ofList (.int .w32) [.int 1]
    (subtract.Elementary ∧ subtract.liftTo 1 types = .ok l) ∧
      l.call [] [numbers, small] .empty = .ok (.ofList (.int .w32) [.int 6, .int 3]) ∧
      (subtract.elwise 2).call [] [numbers, one] .empty = .ok (.ofList (.int .w32) [.int 6, .int 4]) ∧
      ∀ r, l.call [] [numbers, one] .empty ≠ .ok r := by
  intro int subtract types l numbers small one
  have elementary : subtract.Elementary := .leaf (show ofLeaf 0 "subtract[int32]" (Builtins.uniform 2 int)
    ⟨.fixed (.binary .subtract (.int .w32)), none⟩ = .ok subtract from rfl)
  have lifted : subtract.liftTo 1 types = .ok l := rfl
  have unnamed : ∀ stamp : Nat, ∀ o ∈ ([] : Overloads), o.subject ≠ stamp := by simp
  have restricted := liftTo_call_eq_ok_iff elementary (unnamed 1) (unnamed 2) lifted
  have matched : ∃ b, Bindings.unifyAll .empty (types.zip ([numbers, small].map (·.ty))) = .ok b := ⟨_, rfl⟩
  refine ⟨⟨elementary, lifted⟩, (restricted _ _ _).mpr ⟨matched, by cbv⟩, by cbv, fun r ran => ?_⟩
  obtain ⟨⟨b, matched⟩, -⟩ := (restricted _ _ _).mp ran
  cases matched

end ArrayCall.Callable
