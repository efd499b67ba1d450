import ArrayCall.Proofs.Instantiation.Lockstep
import ArrayCall.Proofs.Instantiation.Values
import ArrayCall.Proofs.Resolution.Hints

/-!
# Results for any destination

A callable without reductions, none of whose permutations reads the destination (`Callable.Pointwise`), makes the same
of its sources whatever it writes into. Where it can be instantiated for the type that it resolves to on its own, it
resolves to that type and can be instantiated for every destination of that shape, and what it stores there are the
elements that it computes otherwise, converted to the kind of the destination (`Callable.Formed.fills`).
-/

namespace ArrayCall

open Broadcast

/-! ## Keywords -/

/-- Keywords that give a destination, besides those that others give, which give none. -/
structure Keywords.AddsDestination (kwds kwds' : Keywords) : Prop where
  none : kwds.get? dstName = none
  others : ∀ name, name ≠ dstName → kwds'.get? name = kwds.get? name

theorem Keywords.AddsDestination.checkAgainst {kwds kwds' : Keywords} (adds : kwds.AddsDestination kwds')
    {callable : String} {sig : Signature} (checked : kwds.checkAgainst callable sig = .ok ()) :
    kwds'.checkAgainst callable sig = .ok () := by
  have contains : ∀ name, name ≠ dstName → kwds'.contains name = kwds.contains name := fun name other => by
    rw [NameTable.contains, NameTable.contains, adds.others name other]
  obtain ⟨known, given⟩ := checkAgainst_eq_ok_iff.mp checked
  refine checkAgainst_eq_ok_iff.mpr
    ⟨fun name user => ?_, fun k declared => (given k declared).imp_right fun there => ?_⟩
  · obtain ⟨there, other, other'⟩ := mem_userNames_iff.mp user
    exact known name (mem_userNames_iff.mpr ⟨contains name other ▸ there, other, other'⟩)
  · have other : k.name ≠ dstName := by
      intro same
      rw [same, NameTable.contains, adds.none] at there
      cases there
    rwa [contains _ other]

theorem Keywords.addsDestination_insert {kwds : Keywords} (none : kwds.get? dstName = none) (value : KeywordValue) :
    kwds.AddsDestination (kwds.insert dstName value) where
  none := none
  others name other := by rw [NameTable.get?_insert, if_neg other]

namespace Callable

/-- Callables each element of whose result comes of elements of the arguments alone. -/
inductive Pointwise : Callable → Prop
  | leaf {stamp : Nat} {name : String} {sig : Signature} {kernel : Leaf} : Pointwise (.leaf stamp name sig kernel)
  | dispatch {stamp : Nat} {name : String} {sig : Signature} {table : Dispatcher Callable}
      (entries : ∀ e ∈ table.entries, Pointwise e.2) : Pointwise (.dispatch stamp name sig table)
  | permute {stamp : Nat} {child : Callable} {slots : List Int} (sources : ∀ slot ∈ slots, 0 ≤ slot)
      (below : Pointwise child) : Pointwise (.permute stamp child slots)
  | lift {stamp : Nat} {child : Callable} {types : Option (List Ty)} (below : Pointwise child) :
      Pointwise (.lift stamp child types)

variable {c child : Callable} {kwds kwds' : Keywords} {args params : List Ty} {t : Ty} {b : Bindings}

theorem Takes.of_addsDestination (takes : c.Takes args kwds) (adds : kwds.AddsDestination kwds') : c.Takes args kwds' :=
  ⟨takes.1, adds.checkAgainst takes.2⟩

theorem bindKwds_congr {declared : List KeywordParam} (same : ∀ k ∈ declared, kwds'.get? k.name = kwds.get? k.name) :
    c.bindKwds kwds' b declared = c.bindKwds kwds b declared := by
  induction declared generalizing b with
  | nil => rfl
  | cons k rest inductionHypothesis =>
    obtain ⟨here, others⟩ := List.forall_mem_cons.mp same
    rw [bindKwds, bindKwds, here]
    split
    next => exact inductionHypothesis others
    next =>
      split
      next => exact inductionHypothesis others
      next => rfl

/-! ## Flat results -/

/-- Arguments without dimensions are taken apart into themselves. -/
theorem splitArgs_flat {parts : List (List Nat × Ty)} (flat : ∀ a ∈ args, a.isDim = false)
    (length : args.length = params.length) (split : c.splitArgs params args = .ok parts) :
    parts = args.map fun a => ([], a) := by
  obtain ⟨count, each⟩ := List.forall₂_iff_get.mp (mapM_eq_ok_iff.mp split)
  simp only [List.length_zipIdx, List.length_zip, length, Nat.min_self] at count
  refine List.ext_getElem (by rw [List.length_map, length, count]) fun i inside inside' => ?_
  rw [List.length_map] at inside'
  have part := each i (by simp [length, count, inside]) inside
  simp only [List.get_eq_getElem, List.getElem_zipIdx, List.getElem_zip, splitArg,
    Ty.shape_of_flat (flat _ (List.getElem_mem inside')), List.length_nil, Nat.zero_sub, List.take_nil, Ty.stripDims,
    Option.getD_some] at part
  split at part
  next => cases part
  next =>
    rw [List.getElem_map]
    exact (Except.ok.inj part).symm

/-- Elements give an element, if no keyword binds a variable. -/
theorem Formed.flat_of_flat {liftable : Callable → Prop} (formed : c.Formed (fun sig _ => sig.OwnKeywords) liftable)
    (pointwise : c.Pointwise) (flat : ∀ a ∈ args, a.isDim = false) (resolved : c.resolveTypes none args kwds = .ok t) :
    t.isDim = false := by
  induction formed generalizing args t with
  | leaf own elements =>
    obtain ⟨-, -, b, b', bound, keywords, result⟩ := resolveTypes_leaf_eq_ok_iff.mp resolved
    have within : b.Within fun _ t => t.isDim = false := bindArgs_within bound Bindings.within_empty
      fun a member t behind _ => (behind.eq_of_flat (flat a member)).symm ▸ flat a member
    have within' : b'.Within fun _ t => t.isDim = false := by
      refine bindKwds_within keywords within fun k declared _ _ name mentioned => ?_
      rw [(own k declared).1] at mentioned
      cases mentioned
    have ret := elements _ (List.mem_append_right _ List.mem_cons_self)
    obtain ⟨-, element⟩ | ⟨name, -, found⟩ := Bindings.of_substitute_eq_ok (by simpa using ret.1) result
    · exact element.isDim
    · exact within' name t found
  | dispatch _ _ inductionHypothesis =>
    obtain ⟨-, target, selected, resolved⟩ := resolveTypes_dispatch_eq_ok_iff.mp resolved
    obtain ⟨key, member⟩ := Dispatcher.exists_mem_of_dispatch selected
    cases pointwise with
    | dispatch entries => exact inductionHypothesis (key, target) member (entries _ member) flat resolved
  | permute _ _ inductionHypothesis =>
    cases pointwise with
    | permute sources below =>
      obtain ⟨-, resolved⟩ := (resolveTypes_permute_of_sources_eq_ok_iff sources).mp resolved
      exact inductionHypothesis below (forall_mem_arranged flat) resolved
  | lift _ listed _ inductionHypothesis =>
    cases pointwise with
    | lift below =>
      have lengths := fun ts given => (listed ts given).1
      obtain ⟨takes, -, parts, shape, childDst, found, split, shaped, resolved, rfl⟩ :=
        resolveTypes_lift_eq_ok_iff.mp resolved
      have length := takes.1.trans (arity_lift lengths)
      obtain rfl := splitArgs_flat flat length split
      obtain ⟨common, rfl⟩ := liftShape_none_eq_ok_iff.mp shaped
      simp only [List.map_map, Function.comp_def, List.map_id'] at common resolved
      have point : shape = [] := by
        refine List.eq_nil_of_length_eq_zero (common.length_eq.trans (Broadcast.rank_eq_zero fun s member => ?_))
        obtain ⟨-, -, rfl⟩ := List.mem_map.mp member
        rfl
      rw [point]
      exact inductionHypothesis below flat resolved
  | reduce => cases pointwise

/-! ## Any destination -/

/-- A callable that resolves to elements of a kind in a shape gives them the same values in every destination of that
shape, converted to the kind of the destination. -/
structure Fills (c : Callable) (kwds kwds' : Keywords) (jump : OutlineJump) (src : List Layout) (shape : List Nat)
    (k : Kind) (value : Valuation) : Prop where
  resolves : ∀ kind : Kind, c.resolveTypes (some (.withShape shape (.scalar kind))) (src.map (·.ty)) kwds =
    .ok (.withShape shape (.scalar k))
  outlines : ∀ {kind : Kind} {l : Layout}, l.Fits → l.ty = .withShape shape (.scalar kind) →
    ∃ chain : Chain, (c.outlineNode [] kwds' jump l src).run = some (.ok chain) ∧
      Chain.Computes (fun contents index => (value contents index).map (k.convert kind)) l src chain.toList

variable {kwdsOut : Keywords} {jump : OutlineJump} {src : List Layout} {dst : Layout} {chain : Chain} {stamp : Nat}
  {name : String} {sig : Signature} {value : Valuation} {shape : List Nat} {k : Kind}

theorem fills_leaf {kernel : Leaf} (native : Leaf.Native sig kernel) (own : sig.OwnKeywords)
    (elements : ∀ t ∈ sig.params ++ [sig.ret], ¬t.isDim ∧ t ≠ .any) (adds : kwds.AddsDestination kwds')
    (resolved : (leaf stamp name sig kernel).resolveTypes none (src.map (·.ty)) kwds = .ok dst.ty)
    (outlined : ((leaf stamp name sig kernel).outlineNode [] kwdsOut jump dst src).run = some (.ok chain)) :
    ∃ k value, dst.ty = .scalar k ∧ (leaf stamp name sig kernel).Fills kwds' kwdsOut jump src [] k value := by
  obtain ⟨takes, points, b, b', bound, keywords, result⟩ := resolveTypes_leaf_eq_ok_iff.mp resolved
  rw [outlineNode_leaf] at outlined
  obtain ⟨_, arity, outlined⟩ := Outline.run_ofExcept_bind_eq_ok_iff.mp outlined
  obtain ⟨⟨node, data, conversions⟩, planned, -⟩ := Outline.run_ofExcept_bind_eq_ok_iff.mp outlined
  obtain ⟨b₀, kinds, given, want, sources, destination, operands, bound₀, declared, elsewhere⟩ :=
    exists_kinds_of_planLeaf native takes.1 planned
  cases bound.symm.trans bound₀
  have ret := elements _ (List.mem_append_right _ List.mem_cons_self)
  have pattern : sig.ret.IsElementPattern := by
    obtain ⟨same, -⟩ | ⟨name, same, -⟩ := Bindings.of_substitute_eq_ok (by simpa using ret.1) declared
    · exact .inl ⟨want, same⟩
    · exact .inr ⟨name, same⟩
  have same : dst.ty = .scalar want :=
    Except.ok.inj (result.symm.trans ((bindKwds_extends keywords).substitute pattern declared))
  refine ⟨want, Chain.leafValue node data kinds, same, fun kind => ?_, fun {kind l} _ type => ?_⟩
  · refine resolveTypes_leaf_eq_ok_iff.mpr ⟨takes.of_addsDestination adds, points, b, b', bound, ?_, same ▸ result⟩
    rw [bindKwds_congr fun k declared => adds.others k.name (own k declared).2]
    exact keywords
  · refine ⟨Chain.ofLeaf (node, data, _), ?_, Chain.computes_ofLeaf operands sources type⟩
    rw [outlineNode_leaf, Outline.run_ofExcept_bind arity, type]
    exact Outline.run_ofExcept_bind (elsewhere kind)

theorem Fills.dispatch {table : Dispatcher Callable} {target : Callable}
    (takes : (Callable.dispatch stamp name sig table).Takes (src.map (·.ty)) kwds)
    (selected : table.dispatch ((src.map (·.ty)).map Ty.typeId) = .ok target)
    (below : target.Fills kwds kwdsOut jump src shape k value) :
    (Callable.dispatch stamp name sig table).Fills kwds kwdsOut jump src shape k value where
  resolves kind := resolveTypes_dispatch_eq_ok_iff.mpr ⟨takes, target, selected, below.resolves kind⟩
  outlines {kind l} fits type := by
    obtain ⟨chain, outlined, computes⟩ := below.outlines fits type
    refine ⟨chain, ?_, computes⟩
    have arity : src.length = _ := (List.length_map _).symm.trans takes.1
    rw [outlineNode_dispatch, Outline.run_ofExcept_bind (checkArity_eq_ok_iff.mpr arity), selected]
    exact outlined

theorem Fills.permute {slots : List Int} (takes : (Callable.permute stamp child slots).Takes (src.map (·.ty)) kwds)
    (inside : ∀ slot ∈ slots, slot < src.length) (sources : ∀ slot ∈ slots, 0 ≤ slot)
    (below : child.Fills kwds kwdsOut jump (arranged slots src) shape k value) :
    (Callable.permute stamp child slots).Fills kwds kwdsOut jump src shape k
      fun contents => value (arranged slots contents) where
  resolves kind := by
    refine (resolveTypes_permute_of_sources_eq_ok_iff sources).mpr ⟨takes, ?_⟩
    rw [← arranged_map]
    exact below.resolves kind
  outlines {kind l} fits type := by
    obtain ⟨chain, outlined, computes⟩ := below.outlines fits type
    have arity : src.length = _ := (List.length_map _).symm.trans takes.1
    rw [arranged_eq l sources inside] at outlined
    exact ⟨_, run_outlineNode_permute (by simp) arity inside outlined,
      Chain.computes_permute (arity.trans (arity_permute ..)) inside sources computes⟩

theorem Fills.lift {types : Option (List Ty)} (takes : (Callable.lift stamp child types).Takes (src.map (·.ty)) kwds)
    (bound : ∃ b, (Callable.lift stamp child types).bindParams (src.map (·.ty)) = .ok b)
    (count : (Callable.lift stamp child types).arity = child.arity) (scalars : child.ScalarParams)
    (scalar : child.signature.ret.ownDims = 0) (concrete : ∀ l ∈ src, l.Concrete)
    (common : Common (src.map (·.ty.shape)) shape)
    (below : child.Fills kwds kwdsOut jump (src.map Layout.inside) [] k value) :
    (Callable.lift stamp child types).Fills kwds kwdsOut jump src shape k
      (Chain.liftedValue value (src.map (·.ty.shape))) where
  resolves kind := by
    have element : (Ty.withShape shape (.scalar kind)).shape = shape := Ty.shape_withShape (Ty.isElement_scalar kind)
    refine (resolveTypes_lift_scalar_iff scalars scalar (takes.1.trans count)
      (List.forall_mem_map.mpr fun l member => (concrete l member).isSymbolic_eq)).mpr
        ⟨takes, bound, shape, .scalar k, ?_, ?_, ?_, rfl⟩
    · simpa [Function.comp_def, element] using common.append_self
    · rintro _ ⟨⟩
      exact element
    · rw [Option.bind_some, element, Ty.stripDims_withShape]
      simpa [Function.comp_def, Layout.inside, Ty.withShape] using below.resolves kind
  outlines {kind l} fits type := by
    have dst : l.Concrete := ⟨by rw [type, Ty.isSymbolic_withShape]; rfl, fits⟩
    have shaped : l.ty.shape = shape := type ▸ Ty.shape_withShape (Ty.isElement_scalar kind)
    have inside : l.inside.ty = .withShape [] (.scalar kind) := congrArg Layout.ty (Layout.inside_of_elements type)
    have stretches : ∀ s ∈ src, Stretches s.ty.shape l.ty.shape :=
      fun s member => shaped ▸ common.stretches (List.mem_map_of_mem member)
    obtain ⟨chain, outlined, computes⟩ :=
      below.outlines (l := l.inside) (dst.of_inner? (Nat.le_refl _) dst.inner?_eq_inside).1.fits inside
    have length : src.length = child.arity := (List.length_map _).symm.trans (takes.1.trans count)
    refine ⟨_, (run_outlineNode_lift_of_concrete count scalars scalar dst concrete).mpr
      ⟨length, stretches, chain, outlined, rfl⟩, ?_⟩
    rw [Chain.toList_underLoops]
    exact Chain.computes_lift dst concrete stretches computes

/-- A lift is instantiated only over a callable of elements. -/
theorem Formed.scalarParams_of_outlineNode {types : Option (List Ty)} (typed : child.Formed Leaf.Typed fun _ => True)
    (count : (Callable.lift stamp child types).arity = child.arity) (concrete : dst.Concrete)
    (srcConcrete : ∀ l ∈ src, l.Concrete)
    (outlined : ((Callable.lift stamp child types).outlineNode [] kwds jump dst src).run = some (.ok chain)) :
    child.ScalarParams := by
  obtain ⟨arity, plan, loops, below, planned, -, ran, -⟩ := run_outlineNode_lift_eq_ok_iff.mp outlined
  have arity := arity.trans count
  have points := typed.flat_of_yields arity concrete srcConcrete planned below ran
  intro p member
  obtain ⟨length, ranks⟩ := List.forall₂_iff_get.mp (length_shape_of_liftPlan arity srcConcrete planned)
  obtain ⟨i, inside, rfl⟩ := List.getElem_of_mem member
  exact (ranks i inside (length ▸ inside)).symm.trans (congrArg List.length (points _ (List.get_mem ..)))

theorem fills_permute {slots : List Int} (fit : SlotsFit slots child.arity) (sources : ∀ slot ∈ slots, 0 ≤ slot)
    (adds : kwds.AddsDestination kwds') (srcConcrete : ∀ l ∈ src, l.Concrete)
    (resolved : (Callable.permute stamp child slots).resolveTypes none (src.map (·.ty)) kwds = .ok dst.ty)
    (outlined : ((Callable.permute stamp child slots).outlineNode [] kwdsOut jump dst src).run = some (.ok chain))
    (below : ∀ {src : List Layout} {chain : Chain}, (∀ l ∈ src, l.Concrete) →
      child.resolveTypes none (src.map (·.ty)) kwds = .ok dst.ty →
      (child.outlineNode [] kwdsOut jump dst src).run = some (.ok chain) →
        ∃ shape k value, dst.ty = .withShape shape (.scalar k) ∧ child.Fills kwds' kwdsOut jump src shape k value) :
    ∃ shape k value, dst.ty = .withShape shape (.scalar k) ∧
      (Callable.permute stamp child slots).Fills kwds' kwdsOut jump src shape k value := by
  obtain ⟨takes, resolved⟩ := (resolveTypes_permute_of_sources_eq_ok_iff sources).mp resolved
  have arity : src.length = _ := (List.length_map _).symm.trans takes.1
  have inside := fit.lt_of_arity arity
  rw [outlineNode_permute] at outlined
  obtain ⟨-, -, outlined⟩ := Outline.run_ofExcept_bind_eq_ok_iff.mp outlined
  dsimp only at outlined
  rw [filterMap_slots dst inside, ← arranged_eq dst sources inside] at outlined
  obtain ⟨inner, outlined, -⟩ := Outline.run_above_eq_ok_iff.mp outlined
  rw [← arranged_map] at resolved
  obtain ⟨shape, k, value, type, fills⟩ := below (forall_mem_arranged srcConcrete) resolved outlined
  exact ⟨shape, k, _, type, fills.permute (takes.of_addsDestination adds) inside sources⟩

/-- What is instantiated below a lift writes a single element. -/
theorem fills_lift {types : Option (List Ty)}
    (formed : child.Formed (fun sig leaf => Leaf.Native sig leaf ∧ sig.OwnKeywords) fun _ => True)
    (pointwise : child.Pointwise) (count : (Callable.lift stamp child types).arity = child.arity)
    (adds : kwds.AddsDestination kwds') (concrete : dst.Concrete) (srcConcrete : ∀ l ∈ src, l.Concrete)
    (resolved : (Callable.lift stamp child types).resolveTypes none (src.map (·.ty)) kwds = .ok dst.ty)
    (outlined : ((Callable.lift stamp child types).outlineNode [] kwdsOut jump dst src).run = some (.ok chain))
    (below : ∀ {dst : Layout} {src : List Layout} {chain : Chain}, dst.Concrete → (∀ l ∈ src, l.Concrete) →
      child.resolveTypes none (src.map (·.ty)) kwds = .ok dst.ty →
      (child.outlineNode [] kwdsOut jump dst src).run = some (.ok chain) →
        ∃ shape k value, dst.ty = .withShape shape (.scalar k) ∧ child.Fills kwds' kwdsOut jump src shape k value) :
    ∃ shape k value, dst.ty = .withShape shape (.scalar k) ∧
      (Callable.lift stamp child types).Fills kwds' kwdsOut jump src shape k value := by
  have typed : child.Formed Leaf.Typed fun _ => True := formed.mono fun fits => fits.1.typed
  have scalars := typed.scalarParams_of_outlineNode count concrete srcConcrete outlined
  have scalar := ownDims_ret formed
  obtain ⟨length, -, inner, outlined, -⟩ :=
    (run_outlineNode_lift_of_concrete count scalars scalar concrete srcConcrete).mp outlined
  obtain ⟨takes, bound, shape, found, common, -, resolved, type⟩ := (resolveTypes_lift_scalar_iff scalars scalar
    ((List.length_map _).trans length)
    (List.forall_mem_map.mpr fun l member => (srcConcrete l member).isSymbolic_eq)).mp resolved
  simp only [Option.map_none, Option.toList_none, List.append_nil, Option.bind_none, List.map_map,
    Function.comp_def] at common resolved
  have flat : found.isDim = false := by
    refine (formed.mono fun fits => fits.2).flat_of_flat pointwise ?_ resolved
    exact List.forall_mem_map.mpr fun l member => (Ty.isElement_dtype (srcConcrete l member).isSymbolic_eq).isDim
  have element : found.IsElement := by
    refine Ty.isElement_of_flat ?_ flat
    rw [← Ty.isSymbolic_withShape shape, ← type, concrete.isSymbolic_eq]
  have inside : dst.inside.ty = found := by rw [Layout.inside, type, Ty.dtype_withShape, element.dtype]
  have behind {l : Layout} (concrete : l.Concrete) : l.inside.Concrete :=
    (concrete.of_inner? (Nat.le_refl _) concrete.inner?_eq_inside).1
  obtain ⟨point, k, value, same, fills⟩ := below (behind concrete)
    (List.forall_mem_map.mpr fun l member => behind (srcConcrete l member))
    (by rw [inside, List.map_map]; exact resolved) outlined
  obtain rfl : point = [] := by
    have none := concrete.shape_inside
    rwa [same, Ty.shape_withShape (Ty.isElement_scalar k)] at none
  rw [inside] at same
  subst same
  exact ⟨shape, k, _, type, fills.lift (takes.of_addsDestination adds) bound count scalars scalar srcConcrete common⟩

theorem Formed.fills (formed : c.Formed (fun sig leaf => Leaf.Native sig leaf ∧ sig.OwnKeywords) fun _ => True)
    (pointwise : c.Pointwise) (adds : kwds.AddsDestination kwds') (concrete : dst.Concrete)
    (srcConcrete : ∀ l ∈ src, l.Concrete) (resolved : c.resolveTypes none (src.map (·.ty)) kwds = .ok dst.ty)
    (outlined : (c.outlineNode [] kwdsOut jump dst src).run = some (.ok chain)) :
    ∃ shape k value, dst.ty = .withShape shape (.scalar k) ∧ c.Fills kwds' kwdsOut jump src shape k value := by
  induction formed generalizing dst src chain with
  | leaf fits elements =>
    obtain ⟨k, value, type, fills⟩ := fills_leaf fits.1 fits.2 elements adds resolved outlined
    exact ⟨[], k, value, type, fills⟩
  | @dispatch _ _ _ _ table arities entries inductionHypothesis =>
    obtain ⟨takes, target, selected, resolved⟩ := resolveTypes_dispatch_eq_ok_iff.mp resolved
    rw [outlineNode_dispatch, selected] at outlined
    obtain ⟨-, -, outlined⟩ := Outline.run_ofExcept_bind_eq_ok_iff.mp outlined
    obtain ⟨key, member⟩ := Dispatcher.exists_mem_of_dispatch selected
    cases pointwise with
    | dispatch pointwise =>
      obtain ⟨shape, k, value, type, fills⟩ :=
        inductionHypothesis (key, target) member (pointwise _ member) concrete srcConcrete resolved outlined
      exact ⟨shape, k, value, type, fills.dispatch (takes.of_addsDestination adds) selected⟩
  | permute fit below inductionHypothesis =>
    cases pointwise with
    | permute sources pointwise =>
      exact fills_permute fit sources adds srcConcrete resolved outlined (inductionHypothesis pointwise concrete)
  | lift _ shaped below inductionHypothesis =>
    cases pointwise with
    | lift pointwise =>
      exact fills_lift below pointwise (arity_lift fun ts given => (shaped ts given).1) adds concrete srcConcrete
        resolved outlined (inductionHypothesis pointwise)
  | reduce => cases pointwise

end Callable

end ArrayCall
