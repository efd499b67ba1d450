import ArrayCall.Proofs.Calls.Stages
import ArrayCall.Proofs.Instantiation.Lifting
import ArrayCall.Proofs.Resolution.Forwarding

/-!
# Lifts of lifts

A callable without dimensions of its own, a leaf or a dispatch callable, may be lifted over any number of
dimensions twice. The outer lift takes all of them and hands elements to the inner one, which has no loops
then, so both come to the same. But the parameter of the outer lift asks for a dimension, that of the inner
one, so that arguments without dimensions are refused.

* `Callable.elwise_elwise_eq_ok_iff`: what the outer lift resolves and calls is what the inner one does for
  arguments that have dimensions.
* `Callable.elwise_elwise_refuses_elements`: an addition that is lifted twice does not add two numbers.
-/

namespace ArrayCall

open Broadcast (Common)

namespace Bindings

variable {b b' : Bindings} {p a : Ty}

/-- Dimensions of any number leave the last ones to what stands behind them. -/
theorem unify_ellipsis_eq_ok_iff (concrete : a.isSymbolic = false) :
    b.unify (.ellipsis none p) a = .ok b' ↔
      p.ndim ≤ a.shape.length ∧ b.unify p (.withShape (a.shape.drop (a.shape.length - p.ndim)) a.dtype) = .ok b' := by
  obtain ⟨elem, element, same⟩ := Ty.exists_eq_withShape concrete
  have last : a.dtype = elem := by
    rw [same, Ty.dtype_withShape]
    obtain rfl | ⟨k, rfl⟩ := element <;> rfl
  rw [unify, last]
  dsimp only
  generalize a.shape = shape at same ⊢
  subst same
  split
  next few => exact iff_of_false (fun ran => by cases ran) (fun ran => by omega)
  next enough =>
    rw [Ty.stripDims_withShape_of_le (Nat.sub_le _ _)]
    exact ⟨fun ran => ⟨Nat.le_of_not_lt enough, ran⟩, fun ran => ran.2⟩

theorem unify_ellipsis_of_flat (flat : p.ndim = 0) (concrete : a.isSymbolic = false) :
    b.unify (.ellipsis none p) a = .ok b' ↔ b.unify p a.dtype = .ok b' := by
  rw [unify_ellipsis_eq_ok_iff concrete, flat, Nat.sub_zero, List.drop_length]
  exact and_iff_right (Nat.zero_le _)

theorem unify_ellipsis_ellipsis_of_flat (flat : p.ndim = 0) (concrete : a.isSymbolic = false) :
    b.unify (.ellipsis none (.ellipsis none p)) a = .ok b' ↔ b.unify p a.dtype = .ok b' ∧ a.shape ≠ [] := by
  have element := Ty.isElement_dtype concrete
  have behind : ∀ shape, (Ty.withShape shape a.dtype).isSymbolic = false :=
    fun shape => (Ty.isSymbolic_withShape _ _).trans element.isSymbolic
  have nonempty : 0 + 1 ≤ a.shape.length ↔ a.shape ≠ [] := List.length_pos_iff
  rw [unify_ellipsis_eq_ok_iff concrete, unify_ellipsis_of_flat flat (behind _), Ty.dtype_withShape, element.dtype,
    Ty.ndim, flat, nonempty, and_comm]

end Bindings

namespace Callable

/-- Neither the parameters nor the result have dimensions. -/
def OverScalars (c : Callable) : Prop := ∀ t ∈ c.signature.params ++ [c.signature.ret], t.isDim = false

variable {c c' : Callable} {os : Overloads} {stamp stamp' : Nat} {dst hint : Option Ty}
  {params args : List Ty} {kwds : Keywords} {t : Ty} {b b' : Bindings}

theorem overScalars_ofLeaf {name : String} {sig : Signature} {kernel : Leaf}
    (built : ofLeaf stamp name sig kernel = .ok c) : c.OverScalars := by
  obtain ⟨rfl, elements⟩ := of_ofLeaf_eq_ok built
  exact fun t member => by simpa using (elements t member).1

theorem overScalars_ofTable {name : String} {arity : Nat} {table : Dispatcher Callable}
    (built : ofTable stamp name arity table = .ok c) : c.OverScalars := by
  obtain ⟨rfl, -⟩ := of_ofTable_eq_ok built
  intro t member
  rcases List.mem_append.mp member with param | ret
  · rw [List.eq_of_mem_replicate param]
    rfl
  · rw [List.mem_singleton.mp ret]
    rfl

theorem OverScalars.scalarParams (scalars : c.OverScalars) : c.ScalarParams := fun p member =>
  Ty.ownDims_of_flat (scalars p (List.mem_append_left _ member))

theorem OverScalars.ownDims_ret (scalars : c.OverScalars) : c.signature.ret.ownDims = 0 :=
  Ty.ownDims_of_flat (scalars _ (by simp))

theorem OverScalars.ndim_params (scalars : c.OverScalars) : ∀ p ∈ c.signature.params, p.ndim = 0 := fun p member =>
  Ty.ndim_of_flat (scalars p (List.mem_append_left _ member))

theorem scalarParams_elwise (c : Callable) (stamp : Nat) : (c.elwise stamp).ScalarParams := by
  intro p member
  obtain ⟨inner, -, rfl⟩ := List.mem_map.mp member
  rfl

/-! ## Resolution -/

/-- Arguments are matched one by one, each with the bindings of those before it. -/
theorem bindArgs_map_eq_ok_iff {pattern inside : Ty → Ty} {P : Ty → Prop} {index index' : Nat}
    (matched : ∀ p ∈ params, ∀ a ∈ args, ∀ b b' : Bindings,
      b.unify (pattern p) a = .ok b' ↔ b.unify p (inside a) = .ok b' ∧ P a) (length : args.length = params.length) :
    c.bindArgs index b (params.map pattern) args = .ok b' ↔
      c'.bindArgs index' b params (args.map inside) = .ok b' ∧ ∀ a ∈ args, P a := by
  induction params generalizing args index index' b with
  | nil =>
    obtain rfl := List.eq_nil_of_length_eq_zero length
    simp [bindArgs]
  | cons p params inductionHypothesis =>
    cases args with
    | nil => cases length
    | cons a args =>
      have first := matched p List.mem_cons_self a List.mem_cons_self b
      have others := fun p' member a' member' =>
        matched p' (List.mem_cons_of_mem p member) a' (List.mem_cons_of_mem a member')
      rw [List.map_cons, List.map_cons, List.forall_mem_cons, bindArgs, bindArgs]
      cases here : b.unify (pattern p) a with
      | ok next =>
        obtain ⟨same, holds⟩ := (first next).mp here
        rw [same]
        simp only [holds, true_and]
        exact inductionHypothesis others (Nat.succ.inj length)
      | error clash =>
        refine iff_of_false (fun ran => by cases ran) fun ran => ?_
        cases there : b.unify p (inside a) with
        | ok next => exact absurd ((first next).mpr ⟨there, ran.2.1⟩) (by simp [here])
        | error clash' =>
          rw [there] at ran
          cases ran.1

theorem bindParams_elwise_eq_ok_iff (scalars : c.OverScalars) (length : args.length = c.arity)
    (concrete : ∀ a ∈ args, a.isSymbolic = false) :
    (c.elwise stamp).bindParams args = .ok b ↔ c.bindParams (args.map Ty.dtype) = .ok b := by
  have matched : (c.elwise stamp).bindArgs 0 .empty (c.signature.params.map (Ty.ellipsis none)) args = .ok b ↔
      c.bindArgs 0 .empty c.signature.params (args.map Ty.dtype) = .ok b ∧ ∀ a ∈ args, True := by
    refine bindArgs_map_eq_ok_iff (fun p member a member' b b' => ?_) length
    rw [Bindings.unify_ellipsis_of_flat (scalars.ndim_params p member) (concrete a member'), and_true]
  exact matched.trans (and_iff_left fun _ _ => trivial)

theorem bindParams_elwise_elwise_eq_ok_iff (scalars : c.OverScalars) (length : args.length = c.arity)
    (concrete : ∀ a ∈ args, a.isSymbolic = false) :
    ((c.elwise stamp).elwise stamp').bindParams args = .ok b ↔
      c.bindParams (args.map Ty.dtype) = .ok b ∧ ∀ a ∈ args, a.shape ≠ [] := by
  have params : ((c.elwise stamp).elwise stamp').signature.params =
      c.signature.params.map (Ty.ellipsis none ∘ Ty.ellipsis none) := List.map_map
  rw [bindParams, params]
  exact bindArgs_map_eq_ok_iff (fun p member a member' b b' =>
    Bindings.unify_ellipsis_ellipsis_of_flat (scalars.ndim_params p member) (concrete a member')) length

theorem takes_elwise_iff (stamp : Nat) : (c.elwise stamp).Takes args kwds ↔ c.Takes args kwds := by
  have arity : (c.elwise stamp).arity = c.arity := List.length_map _
  rw [Takes, Takes, arity, Keywords.checkAgainst_eq_ok_iff, Keywords.checkAgainst_eq_ok_iff]
  rfl

/-- What a lift makes of concrete arguments, if its child takes elements: the shapes broadcast, and the child
resolves for what stands behind them. -/
theorem resolveTypes_lift_scalar_iff {child : Callable} {types : Option (List Ty)} (scalars : child.ScalarParams)
    (scalar : child.signature.ret.ownDims = 0) (length : args.length = child.arity)
    (concrete : ∀ a ∈ args, a.isSymbolic = false) :
    (lift stamp child types).resolveTypes dst args kwds = .ok t ↔
      (lift stamp child types).Takes args kwds ∧ (∃ b, (lift stamp child types).bindParams args = .ok b) ∧
        ∃ shape found, Common (args.map Ty.shape ++ (dst.map Ty.shape).toList) shape ∧ (∀ d ∈ dst, d.shape = shape) ∧
          child.resolveTypes (dst.bind fun d => d.stripDims d.shape.length) (args.map Ty.dtype) kwds = .ok found ∧
          t = .withShape shape found := by
  rw [resolveTypes_lift_eq_ok_iff, splitArgs_scalar scalars length concrete]
  refine and_congr_right fun _ => and_congr_right fun _ => ?_
  simp only [Except.ok.injEq, exists_and_left, exists_eq_left', List.map_map, Function.comp_def]
  refine exists_congr fun shape => ?_
  cases dst with
  | none => simp [liftShape_none_eq_ok_iff]
  | some d => simp [liftShape_some_eq_ok_iff scalar, and_assoc]

theorem resolveTypes_elwise_iff (scalars : c.ScalarParams) (scalar : c.signature.ret.ownDims = 0)
    (length : args.length = c.arity) (concrete : ∀ a ∈ args, a.isSymbolic = false) :
    (c.elwise stamp).resolveTypes dst args kwds = .ok t ↔
      c.Takes args kwds ∧ (∃ b, (c.elwise stamp).bindParams args = .ok b) ∧
        ∃ shape found, Common (args.map Ty.shape ++ (dst.map Ty.shape).toList) shape ∧ (∀ d ∈ dst, d.shape = shape) ∧
          c.resolveTypes (dst.bind fun d => d.stripDims d.shape.length) (args.map Ty.dtype) kwds = .ok found ∧
          t = .withShape shape found := by
  rw [← takes_elwise_iff stamp]
  exact resolveTypes_lift_scalar_iff scalars scalar length concrete

/-- The inner lift resolves elements as its child does. -/
theorem resolveTypes_elwise_of_elements (scalars : c.OverScalars) (length : args.length = c.arity)
    (elements : ∀ a ∈ args, a.IsElement) (asked : ∀ d ∈ dst, d.shape = []) :
    (c.elwise stamp).resolveTypes dst args kwds = .ok t ↔
      (∃ b, c.bindParams args = .ok b) ∧ c.resolveTypes dst args kwds = .ok t := by
  have concrete : ∀ a ∈ args, a.isSymbolic = false := fun a member => (elements a member).isSymbolic
  have same : args.map Ty.dtype = args :=
    (List.map_congr_left fun a member => (elements a member).dtype).trans (List.map_id _)
  have points : ∀ shape ∈ args.map Ty.shape ++ (dst.map Ty.shape).toList, shape = [] := by
    intro shape member
    rcases List.mem_append.mp member with source | target
    · obtain ⟨a, there, rfl⟩ := List.mem_map.mp source
      exact Ty.shape_of_flat (elements a there).isDim
    · obtain ⟨d, given, rfl⟩ := Option.map_eq_some_iff.mp (Option.mem_toList.mp target)
      exact asked d given
  have behind : (dst.bind fun d => d.stripDims d.shape.length) = dst := by
    cases dst with
    | none => rfl
    | some d =>
      rw [Option.bind_some, asked d rfl]
      rfl
  rw [resolveTypes_elwise_iff scalars.scalarParams scalars.ownDims_ret length concrete]
  simp only [bindParams_elwise_eq_ok_iff scalars length concrete, same, behind]
  constructor
  · rintro ⟨-, bound, shape, found, common, -, resolved, rfl⟩
    obtain rfl := List.eq_nil_of_length_eq_zero (common.length_eq.trans (Broadcast.rank_eq_zero points))
    exact ⟨bound, resolved⟩
  · rintro ⟨bound, resolved⟩
    exact ⟨takes_of_resolveTypes_eq_ok resolved, bound, [], t, Broadcast.common_nil points, asked, resolved, rfl⟩

theorem resolveTypes_elwise_elwise_iff (scalars : c.OverScalars) (concrete : ∀ a ∈ args, a.isSymbolic = false) :
    ((c.elwise stamp).elwise stamp').resolveTypes dst args kwds = .ok t ↔
      (c.elwise stamp).resolveTypes dst args kwds = .ok t ∧ ∀ a ∈ args, a.shape ≠ [] := by
  by_cases length : args.length = c.arity
  case neg =>
    refine iff_of_false (fun ran => length ?_) (fun ran => length ?_)
    · exact ((takes_elwise_iff _).mp ((takes_elwise_iff _).mp (takes_of_resolveTypes_eq_ok ran))).1
    · exact ((takes_elwise_iff _).mp (takes_of_resolveTypes_eq_ok ran.1)).1
  have length' : args.length = (c.elwise stamp).arity := length.trans (List.length_map _).symm
  have elements : ∀ a ∈ args.map Ty.dtype, a.IsElement := by
    intro a member
    obtain ⟨whole, there, rfl⟩ := List.mem_map.mp member
    exact Ty.isElement_dtype (concrete whole there)
  have asked : ∀ d ∈ dst.bind fun d => d.stripDims d.shape.length, d.shape = [] := by
    intro d member
    obtain ⟨whole, -, stripped⟩ := Option.bind_eq_some_iff.mp member
    exact Ty.shape_of_stripDims stripped
  have count : (args.map Ty.dtype).length = c.arity := (List.length_map _).trans length
  rw [resolveTypes_elwise_iff (scalarParams_elwise c stamp) rfl length' concrete,
    resolveTypes_elwise_iff scalars.scalarParams scalars.ownDims_ret length concrete]
  simp only [takes_elwise_iff, bindParams_elwise_eq_ok_iff scalars length concrete,
    bindParams_elwise_elwise_eq_ok_iff scalars length concrete,
    resolveTypes_elwise_of_elements scalars count elements asked]
  constructor
  · rintro ⟨takes, ⟨b, matched, ranks⟩, shape, found, common, same, ⟨-, resolved⟩, rfl⟩
    exact ⟨⟨takes, ⟨b, matched⟩, shape, found, common, same, resolved, rfl⟩, ranks⟩
  · rintro ⟨⟨takes, ⟨b, matched⟩, shape, found, common, same, resolved, rfl⟩, ranks⟩
    exact ⟨takes, ⟨b, matched, ranks⟩, shape, found, common, same, ⟨⟨b, matched⟩, resolved⟩, rfl⟩

/-! ## Instantiation -/

variable {child child' : Callable} {src : List Layout} {jump : OutlineJump} {chain : Chain}

theorem liftSource_scalar_eq_ok_iff {outer index : Nat} {l : Layout} {p : Ty} {part : Nat × Layout}
    (scalar : p.ownDims = 0) :
    c.liftSource outer index l p = .ok part ↔
      l.ty.shape.length ≤ outer ∧ part.1 = l.ty.shape.length ∧ l.inner? l.ty.shape.length = some part.2 := by
  simp only [liftSource, scalar, Nat.not_lt_zero, false_or, Nat.sub_zero]
  split
  next deep => exact iff_of_false (fun ran => by cases ran) (fun ran => by omega)
  next fits =>
    cases l.inner? l.ty.shape.length with
    | none => simp
    | some behind =>
      obtain ⟨own, behind'⟩ := part
      simp [Nat.le_of_not_lt fits, eq_comm]

/-- A lift whose child takes elements leaves to it what stands behind all dimensions, whatever the child is. -/
theorem liftPlan_scalar_eq_ok_iff {dst : Layout} {plan : LiftPlan} (length : src.length = child.arity)
    (scalars : child.ScalarParams) (scalar : child.signature.ret.ownDims = 0) :
    c.liftPlan child dst src = .ok plan ↔
      plan.outer = dst.ty.shape.length ∧ dst.inner? dst.ty.shape.length = some plan.dst ∧
        ∃ parts : List (Nat × Layout), plan.own = parts.map (·.1) ∧ plan.src = parts.map (·.2) ∧
          List.Forall₂ (fun l part => l.ty.shape.length ≤ dst.ty.shape.length ∧ part.1 = l.ty.shape.length ∧
            l.inner? l.ty.shape.length = some part.2) src parts := by
  have split : ∀ parts, (src.zip child.signature.params).zipIdx.mapM
        (fun p => c.liftSource dst.ty.shape.length p.2 p.1.1 p.1.2) = .ok parts ↔
      List.Forall₂ (fun l part => l.ty.shape.length ≤ dst.ty.shape.length ∧ part.1 = l.ty.shape.length ∧
        l.inner? l.ty.shape.length = some part.2) src parts := by
    intro parts
    have params : child.signature.params.length = src.length := length.symm
    rw [mapM_eq_ok_iff, List.forall₂_iff_get, List.forall₂_iff_get]
    simp only [List.length_zipIdx, List.length_zip, params, Nat.min_self, List.get_eq_getElem, List.getElem_zipIdx,
      List.getElem_zip, liftSource_scalar_eq_ok_iff (scalars _ (List.getElem_mem _))]
  simp only [liftPlan, scalar, Nat.not_lt_zero, if_false, Nat.sub_zero, bind_eq_ok_iff, split]
  cases dst.inner? dst.ty.shape.length with
  | none => simp
  | some inner =>
    obtain ⟨outer, own, planDst, behind⟩ := plan
    simp only [pure, Except.pure, Except.ok.injEq, LiftPlan.mk.injEq, Option.some.injEq]
    constructor
    · rintro ⟨parts, each, rfl, rfl, rfl, rfl⟩
      exact ⟨rfl, rfl, parts, rfl, rfl, each⟩
    · rintro ⟨rfl, rfl, parts, rfl, rfl, each⟩
      exact ⟨parts, each, rfl, rfl, rfl, rfl⟩

theorem loopNest_eq_ok_iff_of (c c' : Callable) {outer : Nat} {own : List Nat} {dst : Layout} {loops : List DimLoop} :
    c.loopNest outer own dst src = .ok loops ↔ c'.loopNest outer own dst src = .ok loops := by
  have stride : ∀ d extent index own (l : Layout) stride,
      c.loopStride outer d extent index own l = .ok stride ↔ c'.loopStride outer d extent index own l = .ok stride := by
    intro d extent index own l stride
    simp only [loopStride]
    split
    · rfl
    · split
      · rfl
      · split <;> simp
  rw [loopNest, loopNest, mapM_eq_ok_iff, mapM_eq_ok_iff]
  simp only [bind_eq_ok_iff, mapM_eq_ok_iff, stride]

/-- A lift writes its loops above what its child comes to. -/
theorem run_outlineNode_lift_eq_ok_iff {dst : Layout} {types : Option (List Ty)} :
    ((lift stamp child types).outlineNode os kwds jump dst src).run = some (.ok chain) ↔
      src.length = (lift stamp child types).arity ∧
        ∃ plan loops below, (lift stamp child types).liftPlan child dst src = .ok plan ∧
          (lift stamp child types).loopNest plan.outer plan.own dst src = .ok loops ∧
          ExceptT.run (match os.find? child plan.dst.ty (plan.src.map (·.ty)) with
            | none => child.outlineNode os kwds jump plan.dst plan.src
            | some other => jump other plan.dst plan.src) = some (.ok below) ∧
          below.underLoops loops = chain := by
  have checked : (∃ u, (lift stamp child types).checkArity src.length = .ok u) ↔
      src.length = (lift stamp child types).arity := by
    rw [← checkArity_eq_ok_iff]
    exact ⟨fun ⟨_, ran⟩ => ran, fun ran => ⟨_, ran⟩⟩
  rw [← checked, outlineNode_lift, Outline.run_ofExcept_bind_eq_ok_iff]
  constructor
  · rintro ⟨u, ran, planned⟩
    obtain ⟨plan, planned, nested⟩ := Outline.run_ofExcept_bind_eq_ok_iff.mp planned
    obtain ⟨loops, nested, written⟩ := Outline.run_ofExcept_bind_eq_ok_iff.mp nested
    refine ⟨⟨u, ran⟩, plan, loops, ?_⟩
    cases loops with
    | nil => exact ⟨chain, planned, nested, Outline.run_adapt_eq_ok_iff.mp written, rfl⟩
    | cons outermost loops =>
      obtain ⟨below, ran, same⟩ := Outline.run_above_eq_ok_iff.mp written
      exact ⟨below, planned, nested, ran, same⟩
  · rintro ⟨⟨u, ran⟩, plan, loops, below, planned, nested, written, rfl⟩
    refine ⟨u, ran, Outline.run_ofExcept_bind_eq_ok_iff.mpr ⟨plan, planned, ?_⟩⟩
    refine Outline.run_ofExcept_bind_eq_ok_iff.mpr ⟨loops, nested, ?_⟩
    cases loops with
    | nil => exact Outline.run_adapt_eq_ok_iff.mpr written
    | cons outermost loops => exact Outline.run_above_eq_ok_iff.mpr ⟨below, written, rfl⟩

theorem run_outline_elwise_eq_ok_iff {dst : Layout} (unnamed : ∀ o ∈ os, o.subject ≠ stamp) :
    (outline os (child.elwise stamp) dst src kwds).run = some (.ok chain) ↔
      src.length = child.arity ∧
        ∃ plan loops below, (child.elwise stamp).liftPlan child dst src = .ok plan ∧
          (child.elwise stamp).loopNest plan.outer plan.own dst src = .ok loops ∧
          (outline os child plan.dst plan.src kwds).run = some (.ok below) ∧ below.underLoops loops = chain := by
  have arity : (child.elwise stamp).arity = child.arity := List.length_map _
  rw [outline_eq_outlineNode unnamed, ← arity]
  exact run_outlineNode_lift_eq_ok_iff

/-- Where there are no dimensions a lift comes to what its child comes to. -/
theorem run_outline_elwise_of_elements {dst : Layout} (unnamed : ∀ o ∈ os, o.subject ≠ stamp) (scalars : c.OverScalars)
    (length : src.length = c.arity) (point : dst.ty.shape = []) (points : ∀ l ∈ src, l.ty.shape = []) :
    (outline os (c.elwise stamp) dst src kwds).run = some (.ok chain) ↔
      (outline os c dst src kwds).run = some (.ok chain) := by
  have noLoops : ∀ own, (c.elwise stamp).loopNest 0 own dst src = .ok [] := fun own => rfl
  rw [run_outline_elwise_eq_ok_iff unnamed]
  simp only [liftPlan_scalar_eq_ok_iff length scalars.scalarParams scalars.ownDims_ret, point, List.length_nil,
    Layout.inner?_zero, Option.some.injEq]
  constructor
  · rintro ⟨-, plan, loops, below, ⟨outer, rfl, parts, own, behind, each⟩, nested, written, rfl⟩
    have same : plan.src = src := by
      rw [behind, ← List.forall₂_eq_eq_eq, List.forall₂_map_left_iff]
      refine (List.Forall₂.flip each).imp fun part l ⟨shallow, _, found⟩ => ?_
      rw [Nat.le_zero.mp shallow, Layout.inner?_zero] at found
      exact (Option.some.inj found).symm
    rw [outer, noLoops] at nested
    cases nested
    rwa [same] at written
  · intro written
    refine ⟨length, ⟨0, src.map fun _ => 0, dst, src⟩, [], chain, ⟨rfl, rfl, src.map fun l => (0, l), ?_, ?_, ?_⟩, rfl,
      written, rfl⟩
    · rw [List.map_map]
      rfl
    · rw [List.map_map]
      exact (List.map_id src).symm
    · rw [List.forall₂_map_right_iff, List.forall₂_same]
      intro l member
      rw [points l member]
      exact ⟨Nat.le_refl _, rfl, Layout.inner?_zero l⟩

theorem run_outline_elwise_elwise {dst : Layout} (unnamed : ∀ o ∈ os, o.subject ≠ stamp)
    (unnamed' : ∀ o ∈ os, o.subject ≠ stamp') (scalars : c.OverScalars) :
    (outline os ((c.elwise stamp).elwise stamp') dst src kwds).run = some (.ok chain) ↔
      (outline os (c.elwise stamp) dst src kwds).run = some (.ok chain) := by
  have arity : (c.elwise stamp).arity = c.arity := List.length_map _
  rw [run_outline_elwise_eq_ok_iff unnamed', run_outline_elwise_eq_ok_iff unnamed, arity]
  refine and_congr_right fun length => exists_congr fun plan => exists_congr fun loops => exists_congr fun below => ?_
  rw [liftPlan_scalar_eq_ok_iff (length.trans arity.symm) (scalarParams_elwise c stamp) rfl,
    liftPlan_scalar_eq_ok_iff length scalars.scalarParams scalars.ownDims_ret,
    loopNest_eq_ok_iff_of _ (c.elwise stamp)]
  refine and_congr_right fun ⟨_, found, parts, _, behind, each⟩ => and_congr_right fun _ => and_congr_left fun _ => ?_
  refine run_outline_elwise_of_elements unnamed scalars ?_ (Layout.shape_of_inner? found) ?_
  · rw [behind, List.length_map, ← each.length_eq, length]
  · rw [behind]
    intro l member
    obtain ⟨part, listed, rfl⟩ := List.mem_map.mp member
    obtain ⟨i, inside, rfl⟩ := List.getElem_of_mem listed
    exact Layout.shape_of_inner? ((List.forall₂_iff_get.mp each).2 i (each.length_eq ▸ inside) inside).2.2

/-! ## Calls -/

/-- A lift of a lift of a leaf or a dispatch callable resolves and calls what the lift itself does, for
arguments that all have dimensions. -/
theorem elwise_elwise_eq_ok_iff (scalars : c.OverScalars) (unnamed : ∀ o ∈ os, o.subject ≠ stamp)
    (unnamed' : ∀ o ∈ os, o.subject ≠ stamp') :
    (∀ hint args kwds t, ((c.elwise stamp).elwise stamp').resolve hint args kwds = .ok t ↔
      (c.elwise stamp).resolve hint args kwds = .ok t ∧ ∀ a ∈ args, a.shape ≠ []) ∧
    ∀ args kwds r, ((c.elwise stamp).elwise stamp').call os args kwds = .ok r ↔
      (c.elwise stamp).call os args kwds = .ok r ∧ ∀ a ∈ args, a.ty.shape ≠ [] := by
  have resolves : ∀ hint args kwds t, ((c.elwise stamp).elwise stamp').resolve hint args kwds = .ok t ↔
      (c.elwise stamp).resolve hint args kwds = .ok t ∧ ∀ a ∈ args, a.shape ≠ [] := by
    intro hint args kwds t
    simp only [resolve_eq_ok_iff, requestedType_eq_ok_iff_of _ (c.elwise stamp)]
    constructor
    · rintro ⟨concrete, request, ret, asked, resolved, delivers⟩
      obtain ⟨resolved, ranks⟩ := (resolveTypes_elwise_elwise_iff scalars concrete).mp resolved
      exact ⟨⟨concrete, request, ret, asked, resolved, delivers⟩, ranks⟩
    · rintro ⟨⟨concrete, request, ret, asked, resolved, delivers⟩, ranks⟩
      exact ⟨concrete, request, ret, asked,
        (resolveTypes_elwise_elwise_iff scalars concrete).mpr ⟨resolved, ranks⟩, delivers⟩
  refine ⟨resolves, fun args kwds r => ?_⟩
  simp only [call_eq_ok_iff, resolves, runInto_eq_ok_iff, run_outline_elwise_elwise unnamed unnamed' scalars,
    List.forall_mem_map]
  constructor
  · rintro ⟨ret, dst, ⟨resolved, ranks⟩, ran⟩
    exact ⟨⟨ret, dst, resolved, ran⟩, ranks⟩
  · rintro ⟨⟨ret, dst, resolved, ran⟩, ranks⟩
    exact ⟨ret, dst, ⟨resolved, ranks⟩, ran⟩

/-- Two numbers are each multiplied by a third, by an overload of the callable below both lifts. -/
theorem elwise_elwise_of_overloaded_subtraction :
    let int : Ty := .scalar (.int .w32)
    let subtract : Callable :=
      .leaf 0 "subtract[int32]" (Builtins.uniform 2 int) ⟨.fixed (.binary .subtract (.int .w32)), none⟩
    let multiply : Callable :=
      .leaf 1 "multiply[int32]" (Builtins.uniform 2 int) ⟨.fixed (.binary .multiply (.int .w32)), none⟩
    let os : Overloads := [⟨0, int, [int, int], multiply⟩]
    let numbers : NdArray := .ofList (.int .w32) [.int 3, .int 4]
    let ten : NdArray := .ofList (.int .w32) [.int 10]
    subtract.OverScalars ∧ (∀ o ∈ os, o.subject ≠ 2) ∧ (∀ o ∈ os, o.subject ≠ 3) ∧
      ((subtract.elwise 2).elwise 3).call os [numbers, ten] .empty = .ok (.ofList (.int .w32) [.int 30, .int 40]) := by
  intro int subtract multiply os numbers ten
  have built : ofLeaf 0 "subtract[int32]" (Builtins.uniform 2 int) ⟨.fixed (.binary .subtract (.int .w32)), none⟩ =
    .ok subtract := rfl
  have scalars : subtract.OverScalars := overScalars_ofLeaf built
  have unnamed : ∀ o ∈ os, o.subject ≠ 2 := by simp [os]
  have unnamed' : ∀ o ∈ os, o.subject ≠ 3 := by simp [os]
  have lifted : (subtract.elwise 2).call os [numbers, ten] .empty = .ok (.ofList (.int .w32) [.int 30, .int 40]) := by
    cbv
  have ranks : ∀ a ∈ [numbers, ten], a.ty.shape ≠ [] := by
    simp only [List.forall_mem_cons, numbers, ten]
    decide
  exact ⟨scalars, unnamed, unnamed', ((elwise_elwise_eq_ok_iff scalars unnamed unnamed').2 _ _ _).mpr ⟨lifted, ranks⟩⟩

/-- An addition that is lifted twice does not take two numbers, which it takes lifted once. -/
theorem elwise_elwise_refuses_elements :
    let int : Ty := .scalar (.int .w32)
    let add : Callable := .leaf 0 "add[int32]" (Builtins.uniform 2 int) ⟨.fixed (.binary .add (.int .w32)), none⟩
    let three : NdArray := .scalar (.int .w32) (.int 3)
    let four : NdArray := .scalar (.int .w32) (.int 4)
    let seven : NdArray := .scalar (.int .w32) (.int 7)
    add.OverScalars ∧ (add.elwise 1).resolve none [int, int] .empty = .ok int ∧
      ((add.elwise 1).elwise 2).resolve none [int, int] .empty ≠ .ok int ∧
      (add.elwise 1).call [] [three, four] .empty = .ok seven ∧
      ((add.elwise 1).elwise 2).call [] [three, four] .empty ≠ .ok seven := by
  intro int add three four seven
  have built : ofLeaf 0 "add[int32]" (Builtins.uniform 2 int) ⟨.fixed (.binary .add (.int .w32)), none⟩ = .ok add := rfl
  refine ⟨overScalars_ofLeaf built, by cbv, ?_, by cbv, ?_⟩
  · cbv
    simp
  · cbv
    simp

end Callable

end ArrayCall
