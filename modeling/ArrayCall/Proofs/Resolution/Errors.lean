import ArrayCall.Proofs.Resolution.Requests

/-!
# Errors before the run

Nothing is executed while a call is resolved, so no error of resolution comes of an execution
(`Callable.fails_resolve`), however it is wrapped or moved to another position.
-/

namespace ArrayCall

/-- An error that does not come of an execution. -/
def CallError.IsStatic (e : CallError) : Prop := e.rootCause.kind ≠ .execution

namespace CallError.IsStatic

theorem mapPosition (f : ArgPosition → ArgPosition) {e : CallError} (static : e.IsStatic) :
    (e.mapPosition f).IsStatic := by
  induction e with
  | instantiation callable source inductionHypothesis => exact inductionHypothesis static
  | _ => exact static

theorem wrap (callable : String) {e : CallError} (static : e.IsStatic) : (e.wrap callable).IsStatic := by
  cases e <;> exact static

end CallError.IsStatic

open CallError (IsStatic)

namespace Callable

variable {c child : Callable} {args params : List Ty} {kwds : Keywords}

theorem isStatic_mismatch (c : Callable) (position : ArgPosition) (fault : TypeFault) :
    (c.mismatch position fault).IsStatic := by
  rintro ⟨⟩

/-! ## Checks -/

theorem fails_checkArity (c : Callable) (n : Nat) : Fails IsStatic (c.checkArity n) := by
  rw [checkArity]
  split
  · exact fails_ok _
  · exact fails_error (by rintro ⟨⟩)

theorem fails_checkAgainst (kwds : Keywords) (name : String) (sig : Signature) :
    Fails IsStatic (kwds.checkAgainst name sig) := by
  rw [Keywords.checkAgainst]
  split
  · exact fails_error (by rintro ⟨⟩)
  · split
    · exact fails_error (by rintro ⟨⟩)
    · exact fails_ok _

theorem fails_requestedType (c : Callable) (hint : Option Ty) (kwds : Keywords) :
    Fails IsStatic (c.requestedType hint kwds) := by
  obtain ⟨request, same, -⟩ := exists_requestedType_eq hint kwds
  rw [same]
  cases request with
  | ok found => exact fails_ok _
  | error e => exact fails_error (by rintro ⟨⟩)

/-! ## Leaves -/

theorem fails_bindArgs {index : Nat} {b : Bindings} : Fails IsStatic (c.bindArgs index b params args) := by
  induction params generalizing index b args with
  | nil => exact fails_ok _
  | cons p params inductionHypothesis =>
    cases args with
    | nil => exact fails_ok _
    | cons a args =>
      rw [bindArgs]
      split
      · exact inductionHypothesis
      · exact fails_error (isStatic_mismatch c _ _)

theorem fails_bindKwds {b : Bindings} {declared : List KeywordParam} : Fails IsStatic (c.bindKwds kwds b declared) := by
  induction declared generalizing b with
  | nil => exact fails_ok _
  | cons k rest inductionHypothesis =>
    rw [bindKwds]
    split
    · exact inductionHypothesis
    · split
      · exact inductionHypothesis
      · exact fails_error (isStatic_mismatch c _ _)

theorem fails_resolveLeaf : Fails IsStatic (c.resolveLeaf args kwds) := by
  rw [resolveLeaf]
  split
  · exact fails_error (isStatic_mismatch c _ _)
  · refine fails_bind fails_bindArgs fun b _ => fails_bind fails_bindKwds fun b _ => ?_
    split
    · exact fails_ok _
    · exact fails_error (isStatic_mismatch c _ _)

/-! ## Adapters -/

theorem fails_slotDestination {slots : List Int} {dst : Option Ty} {known : List (Option Ty)} :
    Fails IsStatic (c.slotDestination child slots dst known) := by
  rw [slotDestination]
  split
  · exact fails_ok _
  · split
    · exact fails_ok _
    · split
      · exact fails_ok _
      · exact fails_error (isStatic_mismatch c _ _)

theorem fails_splitArgs : Fails IsStatic (c.splitArgs params args) := by
  refine fails_mapM fun ⟨⟨a, p⟩, i⟩ _ => ?_
  simp only [splitArg]
  split
  · exact fails_error (isStatic_mismatch c _ _)
  · exact fails_ok _

theorem fails_liftShape {dst : Option Ty} {shapes : List (List Nat)} :
    Fails IsStatic (c.liftShape child dst shapes) := by
  cases dst with
  | none =>
    rw [liftShape]
    split
    · exact fails_ok _
    · exact fails_error (isStatic_mismatch c _ _)
  | some d =>
    rw [liftShape]
    dsimp only
    split
    · exact fails_error (isStatic_mismatch c _ _)
    · split
      · exact fails_error (isStatic_mismatch c _ _)
      · split
        · exact fails_ok _
        · exact fails_error (isStatic_mismatch c _ _)

/-! ## All callables -/

theorem fails_resolveTypes (c : Callable) (dst : Option Ty) (args : List Ty) (kwds : Keywords) :
    Fails IsStatic (c.resolveTypes dst args kwds) := by
  induction c generalizing dst args with
  | leaf =>
    rw [resolveTypes]
    exact fails_bind (fails_checkArity _ _) fun _ _ =>
      fails_bind (fails_checkAgainst _ _ _) fun _ _ => fails_resolveLeaf
  | dispatch stamp name sig table entries =>
    rw [resolveTypes]
    refine fails_bind (fails_checkArity _ _) fun _ _ => fails_bind (fails_checkAgainst _ _ _) fun _ _ => ?_
    dsimp only
    cases found : table.dispatch (args.map Ty.typeId) with
    | ok target =>
      obtain ⟨key, member⟩ := Dispatcher.exists_mem_of_dispatch found
      exact entries (key, target) member dst args
    | error position => exact fails_error (by rintro ⟨⟩)
  | permute stamp child slots below =>
    rw [resolveTypes]
    refine fails_bind (fails_checkArity _ _) fun _ _ => fails_bind (fails_checkAgainst _ _ _) fun _ _ => ?_
    refine fails_bind fails_slotDestination fun slotDst _ => ?_
    refine fails_bind (fails_mapError (below _ _) fun e static => static.mapPosition _) fun ret _ => ?_
    split
    · exact fails_ok _
    · split
      · exact fails_ok _
      · exact fails_error (isStatic_mismatch _ _ _)
  | lift stamp child types below =>
    rw [resolveTypes]
    refine fails_bind (fails_checkArity _ _) fun _ _ => fails_bind (fails_checkAgainst _ _ _) fun _ _ => ?_
    refine fails_bind fails_bindArgs fun _ _ => fails_bind fails_splitArgs fun parts _ => ?_
    refine fails_bind fails_liftShape fun shaped _ => ?_
    obtain ⟨shape, childDst⟩ := shaped
    exact fails_bind (below _ _) fun _ _ => fails_ok _
  | reduce stamp fold identity below =>
    rw [resolveTypes]
    refine fails_bind (fails_checkArity _ _) fun _ _ => fails_bind (fails_checkAgainst _ _ _) fun _ _ => ?_
    split
    · exact fails_error (isStatic_mismatch _ _ _)
    · exact below _ _

theorem fails_resolve (c : Callable) (hint : Option Ty) (args : List Ty) (kwds : Keywords) :
    Fails IsStatic (c.resolve hint args kwds) := by
  rw [resolve]
  split
  · exact fails_error (isStatic_mismatch c _ _)
  · refine fails_bind (fails_requestedType c hint kwds) fun request _ => ?_
    split
    · exact fails_resolveTypes c none args kwds
    · refine fails_bind (fails_mapError (fails_resolveTypes c _ args kwds) fun e static =>
        static.mapPosition _) fun _ _ => ?_
      split
      · exact fails_ok _
      · exact fails_error (isStatic_mismatch c _ _)

end Callable

end ArrayCall
