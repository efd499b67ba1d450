import ArrayCall.Proofs.Instantiation.Outline
import ArrayCall.Proofs.Resolution.Errors

/-!
# Errors of instantiation

Instantiation writes nodes and runs none, so none of its errors comes of an execution
(`Callable.refuses_outline`).
-/

namespace ArrayCall

open CallError (IsStatic)

namespace Outline

/-- Whatever error there is in the end has a property. -/
def Refuses (P : CallError → Prop) (o : Outline) : Prop := ∀ e, o.run = some (.error e) → P e

variable {P : CallError → Prop}

theorem refuses_throw {e : CallError} (holds : P e) : Refuses P (throw e) := by
  intro e' ran
  cases ran
  exact holds

theorem refuses_endless : Refuses P endless := fun _ ran => nomatch ran

theorem refuses_pure (chain : Chain) : Refuses P (pure chain) := fun _ ran => nomatch ran

theorem refuses_ofExcept_bind {α : Type} {x : Except CallError α} {next : α → Outline} (fails : Fails P x)
    (refuses : ∀ a, (next a).Refuses P) : Refuses P (ofExcept x >>= next) := by
  cases x with
  | error e => exact refuses_throw (fails e rfl)
  | ok a => exact refuses a

theorem refuses_adapt {o : Outline} {f : CallError → CallError} (refuses : o.Refuses P) (keeps : ∀ e, P e → P (f e)) :
    Refuses P (ExceptT.adapt f o) := by
  rcases o with _ | e | chain
  · exact refuses_endless
  · exact refuses_throw (keeps e (refuses e rfl))
  · exact refuses_pure chain

theorem refuses_above {first : Kernel × NodeData} {rest : List (Kernel × NodeData)} {child : Outline}
    {onError : CallError → CallError} (refuses : child.Refuses P) (keeps : ∀ e, P e → P (onError e)) :
    (above first rest child onError).Refuses P := by
  rcases child with _ | e | chain
  · exact refuses_endless
  · exact refuses_throw (keeps e (refuses e rfl))
  · exact refuses_pure _

end Outline

namespace Callable

variable {c child : Callable} {os : Overloads} {kwds : Keywords} {jump : OutlineJump}

/-! ## Leaves -/

theorem fails_scalarKind (c : Callable) (t : Ty) (position : ArgPosition) :
    Fails IsStatic (c.scalarKind t position) := by
  rw [scalarKind]
  split
  · exact fails_ok _
  · exact fails_error (isStatic_mismatch c _ _)

theorem fails_declared (c : Callable) (b : Bindings) (t : Ty) (position : ArgPosition) :
    Fails IsStatic (c.declared b t position) := by
  rw [declared]
  split
  · exact fails_ok _
  · exact fails_error (isStatic_mismatch c _ _)

theorem fails_sourceKinds {b : Bindings} {params args : List Ty} : Fails IsStatic (c.sourceKinds b params args) :=
  fails_mapM fun _ _ => fails_bind (fails_scalarKind c _ _) fun _ _ => fails_bind (fails_declared c _ _ _) fun _ _ =>
    fails_bind (fails_scalarKind c _ _) fun _ _ => fails_ok _

theorem fails_destinationKinds {dst ret : Ty} : Fails IsStatic (c.destinationKinds dst ret) := by
  unfold destinationKinds
  split
  · exact fails_ok _
  · exact fails_bind (fails_scalarKind c _ _) fun _ _ => fails_bind (fails_scalarKind c _ _) fun _ _ => fails_ok _

theorem fails_pickKernel {k : LeafKernel} {args : List Ty} {kind : Option Kind} :
    Fails IsStatic (c.pickKernel k args kind) := by
  cases k with
  | fixed k => exact fails_ok _
  | perKind f =>
    rw [pickKernel]
    split
    · exact fails_ok _
    · exact fails_error (by rintro ⟨⟩)

theorem fails_initData {init : Option DataInit} {src : List Kind} {dst : Option Kind} :
    Fails IsStatic (initData init kwds src dst) := by
  rcases init with _ | _ | _
  · exact fails_ok _
  · have factor : Fails IsStatic (factorOf kwds) := by
      simp only [factorOf]
      split <;> first | exact fails_ok _ | exact fails_error (by rintro ⟨⟩)
    rw [initData]
    cases given : factorOf kwds with
    | error e => exact fails_error (factor e given)
    | ok s => exact fails_ok _
  · simp only [initData]
    split
    · exact fails_ok _
    · exact fails_error (by rintro ⟨⟩)

theorem fails_planLeaf {kernel : Leaf} {dst : Ty} {args : List Ty} :
    Fails IsStatic (c.planLeaf kernel dst args kwds) :=
  fails_bind fails_bindArgs fun _ _ => fails_bind fails_sourceKinds fun _ _ => fails_bind (fails_declared c _ _ _)
    fun _ _ => fails_bind fails_destinationKinds fun _ _ => fails_bind fails_pickKernel fun _ _ =>
      fails_bind fails_initData fun _ _ => fails_ok _

/-! ## Adapters -/

theorem fails_liftPlan {dst : Layout} {src : List Layout} : Fails IsStatic (c.liftPlan child dst src) := by
  have sources : ∀ outer index l param, Fails IsStatic (c.liftSource outer index l param) := by
    intro outer index l param
    simp only [liftSource]
    split
    · exact fails_error (isStatic_mismatch c _ _)
    · split
      · exact fails_ok _
      · exact fails_error (by rintro ⟨⟩)
  simp only [liftPlan]
  split
  · exact fails_error (isStatic_mismatch c _ _)
  · refine fails_bind (fails_mapM fun _ _ => sources _ _ _ _) fun parts _ => ?_
    split
    · exact fails_ok _
    · exact fails_error (by rintro ⟨⟩)

theorem fails_loopNest {outer : Nat} {own : List Nat} {dst : Layout} {src : List Layout} :
    Fails IsStatic (c.loopNest outer own dst src) := by
  refine fails_mapM fun _ _ => fails_bind (fails_mapM fun _ _ => ?_) fun _ _ => fails_ok _
  simp only [loopStride]
  split
  · exact fails_ok _
  · split
    · exact fails_ok _
    · split
      · exact fails_ok _
      · exact fails_error (isStatic_mismatch c _ _)

theorem fails_reductionPlan {dst src : Layout} : Fails IsStatic (c.reductionPlan dst src) := by
  rw [reductionPlan]
  split
  · exact fails_error (isStatic_mismatch c _ _)
  · split
    · exact fails_ok _
    · exact fails_error (by rintro ⟨⟩)

/-! ## All callables -/

theorem refuses_outlineNode (jumps : ∀ o ∈ os, ∀ dst src, (jump o.target dst src).Refuses IsStatic) (c : Callable)
    (dst : Layout) (src : List Layout) : (c.outlineNode os kwds jump dst src).Refuses IsStatic := by
  induction c generalizing dst src with
  | leaf stamp name sig kernel =>
    rw [outlineNode_leaf]
    exact Outline.refuses_ofExcept_bind (fails_checkArity _ _) fun _ =>
      Outline.refuses_ofExcept_bind fails_planLeaf fun plan => Outline.refuses_pure _
  | dispatch stamp name sig table entries =>
    rw [outlineNode_dispatch]
    refine Outline.refuses_ofExcept_bind (fails_checkArity _ _) fun _ => ?_
    cases found : table.dispatch ((src.map (·.ty)).map Ty.typeId) with
    | error position => exact Outline.refuses_throw (by rintro ⟨⟩)
    | ok target =>
      obtain ⟨key, member⟩ := Dispatcher.exists_mem_of_dispatch found
      exact of_match_find? target dst.ty (src.map (·.ty)) (fun o there _ => jumps o there dst src)
        (entries (key, target) member dst src)
  | permute stamp child slots below =>
    rw [outlineNode_permute]
    refine Outline.refuses_ofExcept_bind (fails_checkArity _ _) fun _ => ?_
    exact Outline.refuses_above (of_match_find? child _ _ (fun o there _ => jumps o there _ _) (below _ _))
      fun e static => (static.mapPosition _).wrap _
  | lift stamp child types below =>
    rw [outlineNode_lift]
    refine Outline.refuses_ofExcept_bind (fails_checkArity _ _) fun _ =>
      Outline.refuses_ofExcept_bind fails_liftPlan fun plan =>
        Outline.refuses_ofExcept_bind fails_loopNest fun loops => ?_
    have refuses := of_match_find? (P := Outline.Refuses IsStatic) child plan.dst.ty (plan.src.map (·.ty))
      (fun o there _ => jumps o there plan.dst plan.src) (below plan.dst plan.src)
    cases loops with
    | nil => exact Outline.refuses_adapt refuses fun e static => static.wrap _
    | cons outermost loops => exact Outline.refuses_above refuses fun e static => static.wrap _
  | reduce stamp fold identity below =>
    rw [outlineNode_reduce]
    refine Outline.refuses_ofExcept_bind (fails_checkArity _ _) fun _ =>
      Outline.refuses_ofExcept_bind fails_reductionPlan fun plan => ?_
    exact Outline.refuses_above (of_match_find? fold _ _ (fun o there _ => jumps o there _ _) (below _ _))
      fun e static => static.wrap _

theorem refuses_outlineWithin (jumps : Nat) (c : Callable) (dst : Layout) (src : List Layout) :
    (outlineWithin os kwds jumps c dst src).Refuses IsStatic := by
  induction jumps generalizing c dst src with
  | zero => exact Outline.refuses_endless
  | succ jumps inductionHypothesis => exact refuses_outlineNode (fun o _ => inductionHypothesis o.target) c dst src

theorem refuses_outline (os : Overloads) (c : Callable) (dst : Layout) (src : List Layout) (kwds : Keywords) :
    (outline os c dst src kwds).Refuses IsStatic :=
  of_match_find? _ _ _ (fun o _ _ => refuses_outlineWithin _ o.target dst src)
    (refuses_outlineNode (fun o _ => refuses_outlineWithin _ o.target) c dst src)

end Callable

end ArrayCall
