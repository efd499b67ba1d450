import ArrayCall.Proofs.Resolution.Forwarding

/-!
# Asking for what is resolved anyway

A lift gives its result the outer dimensions of its arguments in front of the dimensions of its child's
result. Where the result is asked for, the lift takes all its dimensions for outer ones, since the declared
result of a child never says how many it has, and asks its child for an element. The two agree unless the
child of a lift has a result with dimensions (`Callable.StacksDims`).

* `Callable.resolve_hint_eq_ok_iff`: a resolved type is accepted as a hint just where no dimensions are
  stacked.
* `Callable.resolve_refuses_hint`: a lift of a lift whose result is refused.
-/

namespace ArrayCall

namespace Ty

theorem isDim_of_canPromoteTo {a b : Ty} (promotes : a.canPromoteTo b) : a.isDim = b.isDim := by
  cases a <;> cases b <;> simp_all [canPromoteTo, isDim, element?]

/-- A concrete type without dimensions is an element. -/
theorem isElement_of_flat {t : Ty} (concrete : t.isSymbolic = false) (flat : t.isDim = false) : t.IsElement := by
  cases t with
  | void => exact .inl rfl
  | scalar k => exact .inr ⟨k, rfl⟩
  | fixedDim => cases flat
  | _ => cases concrete

end Ty

namespace Callable

open Broadcast (Common)

variable {c child : Callable} {stamp : Nat} {types : Option (List Ty)} {hint : Option Ty} {args : List Ty}
  {kwds : Keywords} {d t t' : Ty} {element : Signature → Leaf → Prop} {liftable : Callable → Prop}

/-- The result comes from a lift above a child whose result has dimensions. -/
def StacksDims (c : Callable) (args : List Ty) (kwds : Keywords) : Prop :=
  ∃ stamp child types args' parts found, c.Forwards args (lift stamp child types) args' ∧
    (lift stamp child types).splitArgs child.signature.params args' = .ok parts ∧
    child.resolveTypes none (parts.map (·.2)) kwds = .ok found ∧ found.isDim

theorem Forwards.stacksDims {c' : Callable} {args' : List Ty} (forwards : c.Forwards args c' args')
    (below : c'.StacksDims args' kwds) : c.StacksDims args kwds := by
  obtain ⟨stamp, child, types, args'', parts, found, further, stacked⟩ := below
  exact ⟨stamp, child, types, args'', parts, found, forwards.trans further, stacked⟩

/-- The dimensions of such a child are found in the result. -/
theorem StacksDims.isDim (stacked : c.StacksDims args kwds) (resolved : c.resolveTypes none args kwds = .ok t) :
    t.isDim := by
  obtain ⟨stamp, child, types, args', parts, found, forwards, split, below, dim⟩ := stacked
  obtain ⟨outer, t', lifted, rfl⟩ := forwards.resolves resolved
  obtain ⟨-, -, parts', shape, childDst, found', split', shaped, inner, rfl⟩ := resolveTypes_lift_eq_ok_iff.mp lifted
  cases split.symm.trans split'
  obtain rfl := (liftShape_none_eq_ok_iff.mp shaped).2
  cases below.symm.trans inner
  cases outer with
  | cons n outer => rfl
  | nil =>
    cases shape with
    | cons n shape => rfl
    | nil => exact dim

/-! ## Hints that are accepted -/

theorem resolveTypes_of_hint (formed : c.Formed element liftable) (concrete : ∀ a ∈ args, a.isSymbolic = false)
    (solid : t.isSymbolic = false) (resolved : c.resolveTypes none args kwds = .ok t)
    (flat : ¬c.StacksDims args kwds) :
    ∃ found, c.resolveTypes (some t) args kwds = .ok found ∧ found.canPromoteTo t := by
  induction formed generalizing args t with
  | leaf => exact ⟨t, resolveTypes_leaf_eq_ok_iff.mpr (resolveTypes_leaf_eq_ok_iff.mp resolved), t.canPromoteTo_self⟩
  | dispatch _ _ inductionHypothesis =>
    obtain ⟨takes, target, selected, resolved⟩ := resolveTypes_dispatch_eq_ok_iff.mp resolved
    obtain ⟨key, member⟩ := Dispatcher.exists_mem_of_dispatch selected
    have below : ¬target.StacksDims args kwds := mt (Forwards.dispatch selected (.refl target args)).stacksDims flat
    obtain ⟨found, accepted, promotes⟩ := inductionHypothesis _ member concrete solid resolved below
    exact ⟨found, resolveTypes_dispatch_eq_ok_iff.mpr ⟨takes, target, selected, accepted⟩, promotes⟩
  | @permute stamp child slots fit _ inductionHypothesis =>
    by_cases sources : ∀ slot ∈ slots, 0 ≤ slot
    · obtain ⟨takes, resolved⟩ := (resolveTypes_permute_of_sources_eq_ok_iff sources).mp resolved
      have below : ¬child.StacksDims (arranged slots args) kwds :=
        mt (Forwards.permute sources (.refl child _)).stacksDims flat
      obtain ⟨found, accepted, promotes⟩ :=
        inductionHypothesis (forall_mem_arranged concrete) solid resolved below
      exact ⟨found, (resolveTypes_permute_of_sources_eq_ok_iff sources).mpr ⟨takes, accepted⟩, promotes⟩
    · have reads : ∃ slot ∈ slots, slot < 0 := by simpa using sources
      exact ⟨t, (of_resolveTypes_permute_of_destination reads resolved).2, t.canPromoteTo_self⟩
  | @lift stamp child types _ shaped below inductionHypothesis =>
    obtain ⟨takes, bound, parts, shape, childDst, found, split, outer, resolved, rfl⟩ :=
      resolveTypes_lift_eq_ok_iff.mp resolved
    obtain ⟨common, rfl⟩ := liftShape_none_eq_ok_iff.mp outer
    -- The child's result has no dimensions, or they would be stacked; the hint asks it for just that element.
    have element : found.IsElement := by
      refine Ty.isElement_of_flat (by rwa [Ty.isSymbolic_withShape] at solid) (by_contra fun dim => flat ?_)
      exact ⟨stamp, child, types, args, parts, found, .refl _ _, split, resolved, by simpa using dim⟩
    have length := takes.1
    rw [arity_lift fun ts given => (shaped ts given).1] at length
    have inner := (of_splitArgs_eq_ok concrete length split).1
    obtain ⟨accepted, asked, promotes⟩ := inductionHypothesis inner element.isSymbolic resolved fun stacked =>
      absurd (stacked.isDim resolved) (by simp [element.isDim])
    refine ⟨.withShape shape accepted,
      resolveTypes_lift_eq_ok_iff.mpr ⟨takes, bound, parts, shape, some found, accepted,
      split, ?_, asked, rfl⟩, Ty.canPromoteTo_withShape_iff.mpr promotes⟩
    refine (liftShape_some_eq_ok_iff (ownDims_ret below)).mpr ?_
    rw [Ty.shape_withShape element, Ty.stripDims_withShape]
    exact ⟨common.append_self, rfl, rfl⟩
  | reduce below inductionHypothesis =>
    obtain ⟨takes, -, resolved⟩ := resolveTypes_reduce_eq_ok_iff.mp resolved
    have element := below.isElement_of_fold concrete resolved
    refine ⟨t, resolveTypes_reduce_eq_ok_iff.mpr ⟨takes, ?_, ?_⟩, t.canPromoteTo_self⟩
    · intro d asked
      cases asked
      exact element.isDim
    · exact (of_resolveTypes_permute_of_destination (Associativity.reads_destination _) resolved).2

/-! ## Hints that are refused -/

/-- No argument has more dimensions than its parameter takes for itself. -/
def FitsParams (c : Callable) (args : List Ty) : Prop :=
  List.Forall₂ (fun p a => a.shape.length ≤ p.ownDims) c.signature.params args

theorem fitsParams_of_flat (length : args.length = c.arity) (flat : ∀ a ∈ args, a.isDim = false) :
    c.FitsParams args := by
  refine List.forall₂_iff_get.mpr ⟨length.symm, fun i inside inside' => ?_⟩
  rw [Ty.shape_of_flat (flat _ (List.get_mem _ _))]
  exact Nat.zero_le _

theorem FitsParams.flat (fits : c.FitsParams args) (scalars : c.ScalarParams)
    (concrete : ∀ a ∈ args, a.isSymbolic = false) :
    ∀ a ∈ args, a.isDim = false := by
  intro a member
  obtain ⟨i, inside, rfl⟩ := List.getElem_of_mem member
  obtain ⟨length, each⟩ := List.forall₂_iff_get.mp fits
  have points := each i (length ▸ inside) inside
  rw [scalars _ (List.get_mem _ _)] at points
  obtain ⟨elem, element, same⟩ := Ty.exists_eq_withShape (concrete _ member)
  have point : args[i].shape = [] := List.eq_nil_of_length_eq_zero (Nat.le_zero.mp points)
  rw [same, point]
  exact element.isDim

theorem FitsParams.arranged {slots : List Int} (fits : (permute stamp child slots).FitsParams args)
    (fit : SlotsFit slots child.arity) (sources : ∀ slot ∈ slots, 0 ≤ slot) :
    child.FitsParams (arranged slots args) := by
  obtain ⟨count, each⟩ := List.forall₂_iff_get.mp fits
  have inside : ∀ slot ∈ slots, slot < args.length := by
    intro slot member
    have bound := fit.lt_countP slot member
    rw [← arity_permute stamp child slots] at bound
    exact count ▸ bound
  rw [arranged_eq .void sources inside]
  refine List.forall₂_iff_get.mpr ⟨by rw [List.length_map, fit.length_eq]; rfl, fun k bound bound' => ?_⟩
  rw [List.length_map] at bound'
  have reads : slots[k]? = some slots[k] := List.getElem?_eq_getElem bound'
  have source := sources _ (List.getElem_mem bound')
  have below := inside _ (List.getElem_mem bound')
  have param : (permutedParams slots child.signature.params)[slots[k].toNat]? = child.signature.params[k]? :=
    permutedParams_getElem? fit rfl source reads
  rw [List.getElem?_eq_getElem bound] at param
  obtain ⟨within, same⟩ := List.getElem?_eq_some_iff.mp param
  have stands := each slots[k].toNat within (by omega)
  simp only [List.get_eq_getElem, List.getElem_map] at stands ⊢
  rw [Node.slotAt, if_neg (by omega), List.getElem?_eq_getElem (by omega), Option.getD_some, ← same]
  exact stands

theorem scalarParams_permute {slots : List Int} (scalars : child.ScalarParams) :
    (permute stamp child slots).ScalarParams := by
  intro p member
  obtain ⟨j, -, rfl⟩ := List.mem_map.mp member
  cases found : (slots.zip child.signature.params).find? (·.1 == (j : Int)) with
  | none => rfl
  | some pair => exact scalars pair.2 (List.of_mem_zip (List.mem_of_find?_eq_some found)).2

theorem resolveTypes_leaf_dst {name : String} {sig : Signature} {kernel : Leaf} {dst : Option Ty}
    (resolved : (leaf stamp name sig kernel).resolveTypes dst args kwds = .ok t) (dst' : Option Ty) :
    (leaf stamp name sig kernel).resolveTypes dst' args kwds = .ok t :=
  resolveTypes_leaf_eq_ok_iff.mpr (resolveTypes_leaf_eq_ok_iff.mp resolved)

theorem scalarParams_of_inferParam? (formed : c.Formed element liftable) {known : List (Option Ty)} {slot : Nat}
    (inferred : c.inferParam? known slot = some d) : c.ScalarParams := by
  cases formed with
  | leaf _ elements =>
    intro p member
    have flat := (elements p (List.mem_append_left _ member)).1
    cases p <;> first | rfl | exact absurd rfl flat
  | dispatch =>
    intro p member
    rw [List.eq_of_mem_replicate member]
    rfl
  | _ =>
    rw [inferParam?] at inferred
    · cases inferred
    all_goals simp

/-- Where a child gives an element if it is asked for one, it does not give dimensions otherwise. -/
theorem flat_of_resolveTypes (formed : c.Formed element liftable) (concrete : ∀ a ∈ args, a.isSymbolic = false)
    (fits : c.FitsParams args) (flat : d.isDim = false) (resolved : c.resolveTypes none args kwds = .ok t)
    (asked : c.resolveTypes (some d) args kwds = .ok t') (element : t'.isDim = false) : t.isDim = false := by
  induction formed generalizing args d t t' with
  | leaf =>
    cases (resolveTypes_leaf_dst resolved (some d)).symm.trans asked
    exact element
  | @dispatch _ _ arity _ _ arities _ inductionHypothesis =>
    obtain ⟨-, target, selected, resolved⟩ := resolveTypes_dispatch_eq_ok_iff.mp resolved
    obtain ⟨-, target', selected', asked⟩ := resolveTypes_dispatch_eq_ok_iff.mp asked
    cases selected.symm.trans selected'
    obtain ⟨key, member⟩ := Dispatcher.exists_mem_of_dispatch selected
    have points : ∀ a ∈ args, a.isDim = false := fits.flat (fun p member => by
      rw [List.eq_of_mem_replicate member]
      rfl) concrete
    have length := (takes_of_resolveTypes_eq_ok resolved).1
    exact inductionHypothesis _ member concrete (fitsParams_of_flat length points) flat resolved asked element
  | @permute stamp child slots fit below inductionHypothesis =>
    by_cases sources : ∀ slot ∈ slots, 0 ≤ slot
    · have resolved := ((resolveTypes_permute_of_sources_eq_ok_iff sources).mp resolved).2
      have asked := ((resolveTypes_permute_of_sources_eq_ok_iff sources).mp asked).2
      exact inductionHypothesis (forall_mem_arranged concrete) (fits.arranged fit sources) flat resolved asked element
    · have reads : ∃ slot ∈ slots, slot < 0 := by simpa using sources
      obtain ⟨none | ⟨-, slot, inferred⟩, -⟩ := of_resolveTypes_permute_of_destination reads resolved
      · cases none
      · have points := fits.flat (scalarParams_permute (scalarParams_of_inferParam? below inferred)) concrete
        refine below.holds_of_destination reads (fun t element => element.isDim) (fun a member t behind => ?_) resolved
        rw [behind.eq_of_flat (points a member)]
        exact points a member
  | @lift stamp child types _ shaped below inductionHypothesis =>
    obtain ⟨takes, -, parts, shape, childDst, found, split, outer, free, rfl⟩ := resolveTypes_lift_eq_ok_iff.mp resolved
    obtain ⟨-, -, parts', shape', childDst', found', split', outer', hinted, rfl⟩ :=
      resolveTypes_lift_eq_ok_iff.mp asked
    cases split.symm.trans split'
    obtain ⟨common, rfl⟩ := liftShape_none_eq_ok_iff.mp outer
    obtain ⟨common', same, rfl⟩ := (liftShape_some_eq_ok_iff (ownDims_ret below)).mp outer'
    rw [Ty.shape_of_flat flat] at same common' hinted
    subst same
    have points : ∀ s ∈ parts.map (·.1), s = [] := fun s member => common'.nil_of_mem (List.mem_append_left _ member)
    obtain rfl := List.eq_nil_of_length_eq_zero (common.length_eq.trans (Broadcast.rank_eq_zero points))
    have length := takes.1
    rw [arity_lift fun ts given => (shaped ts given).1] at length
    obtain ⟨inner, own⟩ := of_splitArgs_eq_ok concrete length split
    exact inductionHypothesis inner (own.imp fun p a same => Nat.le_of_eq same) flat free hinted element
  | reduce below _ =>
    obtain ⟨-, -, resolved⟩ := resolveTypes_reduce_eq_ok_iff.mp resolved
    exact (below.isElement_of_fold concrete resolved).isDim

/-- Below a lift whose result is accepted as a hint nothing has dimensions. -/
theorem flat_of_hint (below : child.Formed element liftable) (shaped : ∀ ts ∈ types, ts.length = child.arity)
    (concrete : ∀ a ∈ args, a.isSymbolic = false) (solid : t.isSymbolic = false)
    (resolved : (lift stamp child types).resolveTypes none args kwds = .ok t)
    (asked : (lift stamp child types).resolveTypes (some t) args kwds = .ok t') (promotes : t'.canPromoteTo t) :
    ∃ parts found, (lift stamp child types).splitArgs child.signature.params args = .ok parts ∧
      child.resolveTypes none (parts.map (·.2)) kwds = .ok found ∧ found.isDim = false := by
  obtain ⟨takes, -, parts, shape, childDst, found, split, outer, free, same⟩ := resolveTypes_lift_eq_ok_iff.mp resolved
  obtain ⟨-, -, parts', shape', childDst', found', split', outer', hinted, rfl⟩ := resolveTypes_lift_eq_ok_iff.mp asked
  cases split.symm.trans split'
  obtain ⟨-, rfl⟩ := liftShape_none_eq_ok_iff.mp outer
  obtain ⟨-, rfl, rfl⟩ := (liftShape_some_eq_ok_iff (ownDims_ret below)).mp outer'
  obtain ⟨elem, elementary, whole⟩ := Ty.exists_eq_withShape solid
  have last : t.stripDims t.shape.length = some elem := by
    generalize t.shape = dims at whole ⊢
    rw [whole, Ty.stripDims_withShape]
  rw [last] at hinted
  have delivered : found'.canPromoteTo elem := by
    generalize t.shape = dims at whole promotes
    rw [whole] at promotes
    exact Ty.canPromoteTo_withShape_iff.mp promotes
  have length := takes.1
  rw [arity_lift shaped] at length
  obtain ⟨inner, own⟩ := of_splitArgs_eq_ok concrete length split
  refine ⟨parts, found, split, free, ?_⟩
  exact flat_of_resolveTypes below inner (own.imp fun p a same => Nat.le_of_eq same) elementary.isDim free hinted
    ((Ty.isDim_of_canPromoteTo delivered).trans elementary.isDim)

theorem not_stacksDims_of_hint (formed : c.Formed element liftable) (concrete : ∀ a ∈ args, a.isSymbolic = false)
    (solid : t.isSymbolic = false) (resolved : c.resolveTypes none args kwds = .ok t)
    (asked : c.resolveTypes (some t) args kwds = .ok t') (promotes : t'.canPromoteTo t) : ¬c.StacksDims args kwds := by
  intro stacked
  induction formed generalizing args t t' with
  | leaf =>
    obtain ⟨_, _, _, _, _, _, forwards, _⟩ := stacked
    cases forwards
  | dispatch _ _ inductionHypothesis =>
    obtain ⟨-, target, selected, resolved⟩ := resolveTypes_dispatch_eq_ok_iff.mp resolved
    obtain ⟨-, target', selected', asked⟩ := resolveTypes_dispatch_eq_ok_iff.mp asked
    cases selected.symm.trans selected'
    obtain ⟨key, member⟩ := Dispatcher.exists_mem_of_dispatch selected
    obtain ⟨stamp, child, types, args', parts, found, forwards, stacked⟩ := stacked
    cases forwards with
    | dispatch selected' forwards =>
      cases selected.symm.trans selected'
      exact inductionHypothesis _ member concrete solid resolved asked promotes
        ⟨stamp, child, types, args', parts, found, forwards, stacked⟩
  | permute _ _ inductionHypothesis =>
    obtain ⟨stamp, child, types, args', parts, found, forwards, stacked⟩ := stacked
    cases forwards with
    | permute sources forwards =>
      have resolved := ((resolveTypes_permute_of_sources_eq_ok_iff sources).mp resolved).2
      have asked := ((resolveTypes_permute_of_sources_eq_ok_iff sources).mp asked).2
      exact inductionHypothesis (forall_mem_arranged concrete) solid resolved asked promotes
        ⟨stamp, child, types, args', parts, found, forwards, stacked⟩
  | lift _ shaped below _ =>
    obtain ⟨parts, found, split, free, flat⟩ :=
      flat_of_hint below (fun ts given => (shaped ts given).1) concrete solid resolved asked promotes
    obtain ⟨stamp, child, types, args', parts', found', forwards, split', free', dim⟩ := stacked
    have stacked : found.isDim := by
      cases forwards with
      | refl =>
        cases split.symm.trans split'
        cases free.symm.trans free'
        exact dim
      | lift split'' forwards =>
        cases split.symm.trans split''
        exact StacksDims.isDim ⟨stamp, child, types, args', parts', found', forwards, split', free', dim⟩ free
    rw [flat] at stacked
    cases stacked
  | reduce =>
    obtain ⟨_, _, _, _, _, _, forwards, _⟩ := stacked
    cases forwards

/-- A concrete type that is resolved with nothing asked of it is accepted where it is asked for, and comes
out again, just if no lift that the result comes from stands above a child whose result has dimensions. -/
theorem resolve_hint_eq_ok_iff (built : c.Built element liftable) (noDst : kwds.get? Keywords.dstName = none)
    (noType : kwds.get? Keywords.dstTypeName = none) (resolved : c.resolve none args kwds = .ok t)
    (solid : t.isSymbolic = false) : c.resolve (some t) args kwds = .ok t ↔ ¬c.StacksDims args kwds := by
  have unasked : c.requestedType none kwds = .ok none := requestedType_of_none noDst noType
  have hinted : c.requestedType (some t) kwds = .ok (some (t, .destination)) := by
    rw [requestedType, Keywords.dstType?_of_none noDst noType]
    simp [solid, bind, Except.bind, pure, Except.pure]
  obtain ⟨concrete, request, ret, asked, resolved, delivers⟩ := resolve_eq_ok_iff.mp resolved
  cases unasked.symm.trans asked
  obtain rfl := delivers.1 rfl
  rw [resolve_eq_ok_iff]
  simp only [hinted, Except.ok.injEq, exists_and_left, exists_eq_left', Option.map_some, delivers_some_iff]
  constructor
  · rintro ⟨-, found, asked, -, promotes⟩
    exact not_stacksDims_of_hint built.formed concrete solid resolved asked promotes
  · intro flat
    obtain ⟨found, asked, promotes⟩ := resolveTypes_of_hint built.formed concrete solid resolved flat
    exact ⟨concrete, found, asked, trivial, promotes⟩

/-- A lift over a lift of any rank stacks nothing, since each argument of the inner one is an element. -/
theorem not_stacksDims_elwise_elwise :
    let int : Ty := .scalar (.int .w32)
    let row : Ty := .fixedDim 4 int
    let matrix : Ty := .fixedDim 3 row
    let add : Callable := .leaf 0 "add[int32]" (Builtins.uniform 2 int) ⟨.fixed (.binary .add (.int .w32)), none⟩
    let c : Callable := (add.elwise 1).elwise 2
    c.Built (fun _ _ => True) (fun _ => True) ∧ c.resolve none [matrix, row] .empty = .ok matrix ∧
      c.resolve (some matrix) [matrix, row] .empty = .ok matrix ∧ ¬c.StacksDims [matrix, row] .empty := by
  intro int row matrix add c
  have leafBuilt : ofLeaf 0 "add[int32]" (Builtins.uniform 2 int) ⟨.fixed (.binary .add (.int .w32)), none⟩ =
    .ok add := rfl
  have built : c.Built (fun _ _ => True) (fun _ => True) := .elwise (.elwise (.leaf trivial leafBuilt) trivial) trivial
  have resolved : c.resolve none [matrix, row] .empty = .ok matrix := by cbv
  have accepted : c.resolve (some matrix) [matrix, row] .empty = .ok matrix := by cbv
  exact ⟨built, resolved, accepted, (resolve_hint_eq_ok_iff built rfl rfl resolved rfl).mp accepted⟩

/-- A lift over a lift to rows gives a matrix for two matrices, and refuses it when it is asked for. -/
theorem resolve_refuses_hint :
    let int : Ty := .scalar (.int .w32)
    let row : Ty := .symbolicDim "N" int
    let matrix : Ty := .fixedDim 3 (.fixedDim 4 int)
    let add : Callable := .leaf 0 "add[int32]" (Builtins.uniform 2 int) ⟨.fixed (.binary .add (.int .w32)), none⟩
    let rows : Callable := .lift 1 add (some [row, row])
    let c : Callable := rows.elwise 2
    c.Built (fun _ _ => True) (fun _ => True) ∧ matrix.isSymbolic = false ∧
      c.resolve none [matrix, matrix] .empty = .ok matrix ∧
        c.resolve (some matrix) [matrix, matrix] .empty ≠ .ok matrix := by
  intro int row matrix add rows c
  have leafBuilt : ofLeaf 0 "add[int32]" (Builtins.uniform 2 int) ⟨.fixed (.binary .add (.int .w32)), none⟩ =
    .ok add := rfl
  have rowsBuilt : add.liftTo 1 [row, row] = .ok rows := rfl
  refine ⟨.elwise (.liftTo (.leaf trivial leafBuilt) trivial rowsBuilt) trivial, rfl, by cbv, ?_⟩
  cbv
  simp

end Callable

end ArrayCall
