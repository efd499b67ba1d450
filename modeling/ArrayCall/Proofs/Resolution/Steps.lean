import ArrayCall.Callable.Resolve
import ArrayCall.Proofs.Callable.Built
import ArrayCall.Proofs.Results
import ArrayCall.Proofs.Types

/-!
# When resolution succeeds

For each form of callables what a successful resolution consists of: what is asked of the children
and how the result comes of theirs. Proofs about resolved types go by these equivalences and do not
open `Callable.resolveTypes`.
-/

namespace ArrayCall.Callable

/-- The number of arguments is right, and so are the names of the keywords. -/
def Takes (c : Callable) (args : List Ty) (kwds : Keywords) : Prop :=
  args.length = c.arity ∧ kwds.checkAgainst c.name c.signature = .ok ()

theorem firstWhere_eq_none_iff {test : Ty → Bool} {types : List Ty} :
    firstWhere test types = none ↔ ∀ t ∈ types, test t = false := by
  rw [firstWhere, List.find?_eq_none]
  constructor
  · intro none t member
    obtain ⟨i, found⟩ := List.mem_iff_getElem?.mp member
    simpa using none (t, i) (List.mk_mem_zipIdx_iff_getElem?.mpr found)
  · rintro all ⟨t, i⟩ member
    simp [all t (List.mem_of_getElem? (List.mk_mem_zipIdx_iff_getElem?.mp member))]

variable {stamp : Nat} {name : String} {sig : Signature} {kernel : Leaf} {table : Dispatcher Callable}
  {child fold : Callable} {slots : List Int} {types : Option (List Ty)} {identity : Option Scalar}
  {dst : Option Ty} {args : List Ty} {kwds : Keywords} {ret : Ty}

theorem takes_iff {c : Callable} :
    (c.checkArity args.length = .ok () ∧ kwds.checkAgainst c.name c.signature = .ok ()) ↔ c.Takes args kwds := by
  rw [Takes, checkArity_eq_ok_iff]

/-- Both checks come first, for every form. -/
theorem checked_bind_eq_ok_iff {α : Type} {c : Callable} {next : Except CallError α} {a : α} :
    (do c.checkArity args.length; kwds.checkAgainst c.name c.signature; next) = .ok a ↔
      c.Takes args kwds ∧ next = .ok a := by
  rw [bind_eq_ok_iff, ← takes_iff]
  constructor
  · rintro ⟨_, arity, ran⟩
    obtain ⟨_, keywords, ran⟩ := bind_eq_ok_iff.mp ran
    exact ⟨⟨arity, keywords⟩, ran⟩
  · rintro ⟨⟨arity, keywords⟩, ran⟩
    exact ⟨(), arity, bind_eq_ok_iff.mpr ⟨(), keywords, ran⟩⟩

/-! ## Leaves -/

theorem resolveTypes_leaf_eq_ok_iff :
    (leaf stamp name sig kernel).resolveTypes dst args kwds = .ok ret ↔
      (leaf stamp name sig kernel).Takes args kwds ∧ (∀ a ∈ args, a.isDim = false) ∧
        ∃ b b', (leaf stamp name sig kernel).bindParams args = .ok b ∧
          (leaf stamp name sig kernel).bindKwds kwds b sig.kwds = .ok b' ∧ b'.substitute sig.ret = .ok ret := by
  rw [resolveTypes, checked_bind_eq_ok_iff]
  refine and_congr_right fun _ => ?_
  rw [← firstWhere_eq_none_iff, resolveLeaf]
  cases firstWhere Ty.isDim args with
  | some found => exact iff_of_false (fun ran => by cases ran) (fun ran => by cases ran.1)
  | none =>
    simp only [true_and]
    rw [bind_eq_ok_iff]
    refine exists_congr fun b => ?_
    rw [bind_eq_ok_iff, ← exists_and_left]
    refine exists_congr fun b' => and_congr_right fun _ => and_congr_right fun _ => ?_
    change _ ↔ b'.substitute (leaf stamp name sig kernel).signature.ret = .ok ret
    cases b'.substitute (leaf stamp name sig kernel).signature.ret with
    | ok t => exact ⟨fun ran => by cases ran; rfl, fun ran => by cases ran; rfl⟩
    | error e => exact iff_of_false (fun ran => by cases ran) (fun ran => by cases ran)

/-! ## Dispatch -/

theorem resolveTypes_dispatch_eq_ok_iff :
    (dispatch stamp name sig table).resolveTypes dst args kwds = .ok ret ↔
      (dispatch stamp name sig table).Takes args kwds ∧
        ∃ target, table.dispatch (args.map Ty.typeId) = .ok target ∧
          target.resolveTypes dst args kwds = .ok ret := by
  rw [resolveTypes, checked_bind_eq_ok_iff]
  refine and_congr_right fun _ => ?_
  dsimp only
  cases found : table.dispatch (args.map Ty.typeId) with
  | error position =>
    refine iff_of_false (fun ran => by cases ran) ?_
    rintro ⟨_, other, -⟩
    cases other
  | ok target => simp only [Except.ok.injEq, exists_eq_left']

/-! ## Permutations -/

theorem resolveTypes_permute_eq_ok_iff :
    (permute stamp child slots).resolveTypes dst args kwds = .ok ret ↔
      (permute stamp child slots).Takes args kwds ∧
        ∃ slotDst found,
          (permute stamp child slots).slotDestination child slots dst (slotTypes slots args) = .ok slotDst ∧
          child.resolveTypes (slotDst.or dst) ((slotTypes slots args).filterMap (·.or slotDst)) kwds = .ok found ∧
          (∀ d ∈ slotDst, found.canPromoteTo d) ∧ ret = slotDst.getD found := by
  rw [resolveTypes, checked_bind_eq_ok_iff]
  refine and_congr_right fun _ => ?_
  dsimp only
  rw [bind_eq_ok_iff]
  refine exists_congr fun slotDst => ?_
  rw [bind_eq_ok_iff, ← exists_and_left]
  refine exists_congr fun found => and_congr_right fun _ => ?_
  rw [mapError_eq_ok_iff]
  refine and_congr_right fun _ => ?_
  cases slotDst with
  | none => exact ⟨fun same => by cases same; simp, fun same => by rw [same.2]; rfl⟩
  | some d =>
    change (if found.canPromoteTo d then _ else _) = _ ↔ _
    split
    next promotes => exact ⟨fun same => by cases same; simp [promotes], fun same => by rw [same.2]; rfl⟩
    next refused => exact iff_of_false (fun ran => by cases ran) (fun ran => refused (ran.1 d rfl))

/-! ## Lifts -/

theorem resolveTypes_lift_eq_ok_iff :
    (lift stamp child types).resolveTypes dst args kwds = .ok ret ↔
      (lift stamp child types).Takes args kwds ∧ (∃ b, (lift stamp child types).bindParams args = .ok b) ∧
        ∃ parts shape childDst found,
          (lift stamp child types).splitArgs child.signature.params args = .ok parts ∧
          (lift stamp child types).liftShape child dst (parts.map (·.1)) = .ok (shape, childDst) ∧
          child.resolveTypes childDst (parts.map (·.2)) kwds = .ok found ∧ ret = .withShape shape found := by
  rw [resolveTypes, checked_bind_eq_ok_iff]
  refine and_congr_right fun _ => ?_
  dsimp only
  constructor
  · intro ran
    obtain ⟨b, bound, ran⟩ := bind_eq_ok_iff.mp ran
    obtain ⟨parts, split, ran⟩ := bind_eq_ok_iff.mp ran
    obtain ⟨⟨shape, childDst⟩, shaped, ran⟩ := bind_eq_ok_iff.mp ran
    obtain ⟨found, resolved, ran⟩ := bind_eq_ok_iff.mp ran
    cases ran
    exact ⟨⟨b, bound⟩, parts, shape, childDst, found, split, shaped, resolved, rfl⟩
  · rintro ⟨⟨b, bound⟩, parts, shape, childDst, found, split, shaped, resolved, rfl⟩
    refine bind_eq_ok_iff.mpr ⟨b, bound, bind_eq_ok_iff.mpr ⟨parts, split, ?_⟩⟩
    exact bind_eq_ok_iff.mpr ⟨(shape, childDst), shaped, bind_eq_ok_iff.mpr ⟨found, resolved, rfl⟩⟩

/-! ## Reductions -/

theorem resolveTypes_reduce_eq_ok_iff :
    (reduce stamp fold identity).resolveTypes dst args kwds = .ok ret ↔
      (reduce stamp fold identity).Takes args kwds ∧ (∀ d ∈ dst, d.isDim = false) ∧
        fold.resolveTypes dst [(args.headD .void).dtype] kwds = .ok ret := by
  rw [resolveTypes, checked_bind_eq_ok_iff]
  refine and_congr_right fun _ => ?_
  cases dst with
  | none => exact ⟨fun ran => ⟨by simp, ran⟩, fun ran => ran.2⟩
  | some d =>
    cases dim : d.isDim with
    | true =>
      refine iff_of_false (fun ran => ?_) (fun ran => ?_)
      · rw [Option.filter_some, if_pos dim] at ran
        cases ran
      · have := ran.1 d rfl
        simp_all
    | false =>
      rw [Option.filter_some, if_neg (by simp [dim])]
      exact ⟨fun ran => ⟨by simpa using dim, ran⟩, fun ran => ran.2⟩

/-! ## All callables -/

theorem takes_of_resolveTypes_eq_ok {c : Callable} (resolved : c.resolveTypes dst args kwds = .ok ret) :
    c.Takes args kwds := by
  cases c with
  | leaf => exact (resolveTypes_leaf_eq_ok_iff.mp resolved).1
  | dispatch => exact (resolveTypes_dispatch_eq_ok_iff.mp resolved).1
  | permute => exact (resolveTypes_permute_eq_ok_iff.mp resolved).1
  | lift => exact (resolveTypes_lift_eq_ok_iff.mp resolved).1
  | reduce => exact (resolveTypes_reduce_eq_ok_iff.mp resolved).1

end ArrayCall.Callable
