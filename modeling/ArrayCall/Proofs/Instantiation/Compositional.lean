import ArrayCall.Proofs.Instantiation.Leaves
import ArrayCall.Proofs.Instantiation.Levels
import ArrayCall.Proofs.Resolution.Forwarding

/-!
# Induction over what is instantiated

What a callable writes is a leaf below permutations, loops and folds. A property of chains and the layouts
that they are written for is `Chain.Compositional` if it passes from what stands below such a node to the
whole; then every chain that a callable of typed leaves writes has it (`Callable.Formed.yields`).

A lift leaves single elements to its child. Its own loops go through all dimensions of the destination,
and where nothing is left of those no callable has a use for arguments with dimensions that are not its
own to go through (`Callable.Formed.flat_sources`).
-/

namespace ArrayCall

/-- The kernel that a leaf is planned with reads and writes elements of the kinds that its signature comes to. -/
def Leaf.Typed (sig : Signature) (leaf : Leaf) : Prop :=
  ∀ {stamp : Nat} {name : String} {dst : Ty} {args : List Ty} {kwds : Keywords} {kernel : Kernel} {data : NodeData}
    {conversions : ConvertPlan}, args.length = sig.arity →
    (Callable.leaf stamp name sig leaf).planLeaf leaf dst args kwds = .ok (kernel, data, conversions) →
    ∃ (kinds : List (Kind × Kind)) (given want : Kind), args = kinds.map (fun p => .scalar p.1) ∧ dst = .scalar given ∧
      kernel.operands? data = some (kinds.map (·.2), want) ∧
      conversions = .between (kinds.map (·.1)) (kinds.map (·.2)) (some given) (some want)

theorem Leaf.Native.typed {sig : Signature} {leaf : Leaf} (native : Leaf.Native sig leaf) : leaf.Typed sig :=
  Callable.of_planLeaf_eq_ok native

/-- Some reduction within a callable starts from a value. -/
inductive Callable.SeededBy (s : Scalar) : Callable → Prop
  | reduce {stamp : Nat} {fold : Callable} : SeededBy s (.reduce stamp fold (some s))
  | fold {stamp : Nat} {fold : Callable} {identity : Option Scalar} (below : SeededBy s fold) :
      SeededBy s (.reduce stamp fold identity)
  | dispatch {stamp : Nat} {name : String} {sig : Signature} {table : Dispatcher Callable} {e : DispatchKey × Callable}
      (member : e ∈ table.entries) (below : SeededBy s e.2) : SeededBy s (.dispatch stamp name sig table)
  | permute {stamp : Nat} {child : Callable} {slots : List Int} (below : SeededBy s child) :
      SeededBy s (.permute stamp child slots)
  | lift {stamp : Nat} {child : Callable} {types : Option (List Ty)} (below : SeededBy s child) :
      SeededBy s (.lift stamp child types)

/-- A property that passes from what stands below a node to the whole chain. The reductions in it start
from such values. -/
structure Chain.Compositional (seeds : Scalar → Prop) (P : Layout → List Layout → List (Kernel × NodeData) → Prop) :
    Prop where
  leaf : ∀ {dst : Layout} {src : List Layout} {kernel : Kernel} {data : NodeData} {kinds : List (Kind × Kind)}
    {given want : Kind}, kernel.operands? data = some (kinds.map (·.2), want) →
    src.map (·.ty) = kinds.map (fun p => .scalar p.1) → dst.ty = .scalar given →
    P dst src (Chain.ofLeaf (kernel, data,
      .between (kinds.map (·.1)) (kinds.map (·.2)) (some given) (some want))).toList
  permute : ∀ {dst : Layout} {src : List Layout} {slots : List Int} {chain : List (Kernel × NodeData)},
    src.length = slots.countP (0 ≤ ·) → (∀ slot ∈ slots, slot < src.length) →
    P dst (slots.map (Node.slotAt dst src)) chain → P dst src ((.permute, .permutation slots) :: chain)
  lift : ∀ {dst inner : Layout} {outer : Nat} {sources : List (LiftedSource outer)}
    {chain : List (Kernel × NodeData)}, dst.Concrete → outer ≤ dst.ty.shape.length → dst.inner? outer = some inner →
    (∀ s ∈ sources, s.layout.Concrete) →
    (∀ s ∈ sources, Broadcast.Stretches s.front.ty.shape (dst.ty.shape.take outer)) → inner.ty.shape = [] →
    (∀ s ∈ sources, s.behind.ty.shape = []) → P inner (sources.map (·.behind)) chain →
    P dst (sources.map (·.layout)) ((Callable.loopsOver (dst.ty.shape.take outer) (dst.outer outer)
      (sources.map (·.front))).map (fun l => (.loop, .loop l)) ++ chain)
  reduce : ∀ {dst l inner : Layout} {identity : Option Scalar} {acc : Kind} {chain : List (Kernel × NodeData)},
    dst.ty = .scalar acc → l.Concrete → l.inner? l.ty.shape.length = some inner → (∀ s ∈ identity, seeds s) →
    P dst [inner] chain → P dst [l] ((.fold, .fold identity acc) ::
      ((Callable.reductionLoops l).map (fun l => (.loop, .loop l)) ++ chain))

namespace Callable

variable {c child : Callable} {kwds : Keywords} {jump : OutlineJump} {dst : Layout} {src : List Layout}

/-! ## Elements below lifts -/

theorem length_shape_of_liftSource {outer index : Nat} {l : Layout} {param : Ty} {part : Nat × Layout}
    (concrete : l.Concrete) (split : c.liftSource outer index l param = .ok part) :
    part.2.ty.shape.length = param.ownDims := by
  simp only [liftSource] at split
  split at split
  next => cases split
  next fits =>
    split at split
    next behind found =>
      cases split
      obtain ⟨-, shape, -, -⟩ := concrete.of_inner? (Nat.sub_le _ _) found
      rw [shape, List.length_drop]
      omega
    next => cases split

/-- What a lift leaves of its arguments has the dimensions that the parameters take for themselves. -/
theorem length_shape_of_liftPlan {plan : LiftPlan} (arity : src.length = child.arity)
    (srcConcrete : ∀ l ∈ src, l.Concrete) (planned : c.liftPlan child dst src = .ok plan) :
    List.Forall₂ (fun (p : Ty) (l : Layout) => l.ty.shape.length = p.ownDims) child.signature.params plan.src := by
  simp only [liftPlan] at planned
  split at planned
  · cases planned
  obtain ⟨parts, split, planned⟩ := bind_eq_ok_iff.mp planned
  obtain ⟨length, each⟩ := List.forall₂_iff_get.mp (mapM_eq_ok_iff.mp split)
  have arity : src.length = child.signature.params.length := arity
  simp only [List.length_zipIdx, List.length_zip, arity, Nat.min_self] at length
  split at planned
  next inner found =>
    cases planned
    rw [List.forall₂_map_right_iff]
    refine List.forall₂_iff_get.mpr ⟨length, fun i inside there => ?_⟩
    have here := each i (by simpa [arity] using inside) there
    simp only [List.get_eq_getElem, List.getElem_zipIdx, List.getElem_zip] at here
    exact length_shape_of_liftSource (srcConcrete _ (List.getElem_mem (arity ▸ inside))) here
  next => cases planned

theorem of_reductionPlan_eq_ok {l : Layout} {plan : Kind × Layout} (planned : c.reductionPlan dst l = .ok plan) :
    dst.ty = .scalar plan.1 ∧ l.inner? l.ty.shape.length = some plan.2 := by
  rw [reductionPlan] at planned
  split at planned
  next => cases planned
  next acc kind =>
    split at planned
    next inner found =>
      cases planned
      refine ⟨?_, found⟩
      cases type : dst.ty <;> rw [type] at kind <;> cases kind
      rfl
    next => cases planned

theorem concrete_of_liftPlan {plan : LiftPlan} (arity : src.length = child.arity) (concrete : dst.Concrete)
    (srcConcrete : ∀ l ∈ src, l.Concrete) (planned : c.liftPlan child dst src = .ok plan) :
    plan.dst.Concrete ∧ ∀ l ∈ plan.src, l.Concrete := by
  obtain ⟨within, found, sources, rfl, -, behind⟩ := of_liftPlan_eq_ok arity planned
  refine ⟨(concrete.of_inner? within found).1, ?_⟩
  rw [behind]
  intro l member
  obtain ⟨s, listed, rfl⟩ := List.mem_map.mp member
  exact ((srcConcrete _ (List.mem_map_of_mem listed)).of_inner? s.own_le_length s.inner?_eq).1

/-- No result has dimensions of its own, so a lift goes through all those of the destination. -/
theorem Formed.flat_of_liftPlan {element : Signature → Leaf → Prop} {liftable : Callable → Prop}
    (formed : child.Formed element liftable) {plan : LiftPlan} (planned : c.liftPlan child dst src = .ok plan) :
    plan.dst.ty.shape = [] := by
  simp only [liftPlan, ownDims_ret formed, Nat.not_lt_zero, if_false, Nat.sub_zero] at planned
  obtain ⟨parts, -, planned⟩ := bind_eq_ok_iff.mp planned
  split at planned
  next inner found =>
    cases planned
    exact Layout.shape_of_inner? found
  next => cases planned

theorem flat_of_ranks {params : List Ty} {layouts : List Layout}
    (ranks : List.Forall₂ (fun (p : Ty) (l : Layout) => l.ty.shape.length = p.ownDims) params layouts)
    (flats : ∀ (i : Nat) (p : Ty) (l : Layout), params[i]? = some p → layouts[i]? = some l →
      p.ownDims = 0 ∨ l.ty.shape = []) : ∀ l ∈ layouts, l.ty.shape = [] := by
  intro l member
  obtain ⟨i, inside, rfl⟩ := List.getElem_of_mem member
  obtain ⟨length, ranks⟩ := List.forall₂_iff_get.mp ranks
  have param : params[i]? = some params[i] := List.getElem?_eq_getElem (length ▸ inside)
  obtain none | point := flats i _ _ param (List.getElem?_eq_getElem inside)
  · exact List.eq_nil_of_length_eq_zero ((ranks i (length ▸ inside) inside).trans none)
  · exact point

/-- A lift over a destination without dimensions hands its sources on as they are. -/
theorem src_of_flat_liftPlan {plan : LiftPlan} (arity : src.length = child.arity) (flat : dst.ty.shape = [])
    (planned : c.liftPlan child dst src = .ok plan) : plan.src = src := by
  obtain ⟨within, found, sources, rfl, -, behind⟩ := of_liftPlan_eq_ok arity planned
  have outer : plan.outer = 0 := by simpa [flat] using within
  rw [behind]
  refine List.map_congr_left fun s _ => ?_
  have none : s.own = 0 := Nat.le_zero.mp (Nat.le_trans s.own_le (Nat.le_of_eq outer))
  have through := s.inner?_eq
  rw [none, Layout.inner?_zero] at through
  exact (Option.some.inj through).symm

/-- Where the destination is an element, an argument has dimensions only if its parameter takes any number. -/
theorem Formed.flat_sources (typed : c.Formed Leaf.Typed fun _ => True) (srcConcrete : ∀ l ∈ src, l.Concrete)
    (concrete : dst.Concrete) (flat : dst.ty.shape = []) :
    (c.outlineNode [] kwds jump dst src).Yields fun _ => ∀ (i : Nat) (p : Ty) (l : Layout),
      c.signature.params[i]? = some p → src[i]? = some l → p.ownDims = 0 ∨ l.ty.shape = [] := by
  induction typed generalizing dst src with
  | leaf fits elements =>
    refine yields_leaf fun plan arity planned i p l _ there => .inr ?_
    obtain ⟨kernel, data, conversions⟩ := plan
    obtain ⟨kinds, given, want, sources, -⟩ := fits ((List.length_map _).trans arity) planned
    have type := congrArg (·[i]?) sources
    simp only [List.getElem?_map, there, Option.map_some] at type
    obtain ⟨k, -, same⟩ := Option.map_eq_some_iff.mp type.symm
    rw [← same]
    rfl
  | dispatch =>
    intro _ _ i p l param _
    obtain rfl := List.eq_of_mem_replicate (List.mem_of_getElem? param)
    exact .inl rfl
  | permute fit below inductionHypothesis =>
    refine yields_permute fit (fun o none => nomatch none)
      (fun inside => inductionHypothesis (forall_slotAt srcConcrete inside (.inr concrete)) concrete flat)
      fun _ _ flats i p l param there => ?_
    obtain rfl | ⟨k, slot, param⟩ := of_permutedParams_getElem? param
    · exact .inl rfl
    · refine flats k p l param ?_
      rw [List.getElem?_map, slot, Option.map_some, Node.slotAt, if_neg (by omega), Int.toNat_natCast, there,
        Option.getD_some]
  | @lift _ child _ _ shaped below inductionHypothesis =>
    refine yields_lift (Q := fun plan _ => ∀ (i : Nat) (p : Ty) (l : Layout),
        child.signature.params[i]? = some p → plan.src[i]? = some l → p.ownDims = 0 ∨ l.ty.shape = [])
      (arity_lift fun ts given => (shaped ts given).1) (fun _ o none => nomatch none)
      (fun plan arity planned => ?_) fun plan _ arity planned _ _ flats i _ l _ there => .inr ?_
    · obtain ⟨innerConcrete, behindConcrete⟩ := concrete_of_liftPlan arity concrete srcConcrete planned
      exact inductionHypothesis behindConcrete innerConcrete (below.flat_of_liftPlan planned)
    · refine flat_of_ranks (length_shape_of_liftPlan arity srcConcrete planned) flats l ?_
      rw [src_of_flat_liftPlan arity flat planned]
      exact List.mem_of_getElem? there
  | reduce =>
    intro _ _ i p l param _
    obtain rfl := List.mem_singleton.mp (List.mem_of_getElem? param)
    exact .inl rfl

/-- What is behind the outer dimensions of a lift are elements, if its child can be instantiated for them. -/
theorem Formed.flat_of_yields {plan : LiftPlan} (typed : child.Formed Leaf.Typed fun _ => True)
    (arity : src.length = child.arity) (concrete : dst.Concrete) (srcConcrete : ∀ l ∈ src, l.Concrete)
    (planned : c.liftPlan child dst src = .ok plan) :
    (child.outlineNode [] kwds jump plan.dst plan.src).Yields fun _ => ∀ l ∈ plan.src, l.ty.shape = [] := by
  intro chain ran
  obtain ⟨innerConcrete, behindConcrete⟩ := concrete_of_liftPlan arity concrete srcConcrete planned
  exact flat_of_ranks (length_shape_of_liftPlan arity srcConcrete planned)
    (typed.flat_sources behindConcrete innerConcrete (typed.flat_of_liftPlan planned) chain ran)

/-! ## Induction -/

/-- Whatever adapters are around the leaves, and for all concrete layouts. -/
theorem Formed.yields {seeds : Scalar → Prop} {P : Layout → List Layout → List (Kernel × NodeData) → Prop}
    (compositional : Chain.Compositional seeds P) (typed : c.Formed Leaf.Typed fun _ => True)
    (seeded : ∀ s, c.SeededBy s → seeds s) (concrete : dst.Concrete) (srcConcrete : ∀ l ∈ src, l.Concrete) :
    (c.outlineNode [] kwds jump dst src).Yields fun chain => P dst src chain.toList := by
  induction typed generalizing dst src with
  | leaf fits elements =>
    refine yields_leaf fun plan arity planned => ?_
    obtain ⟨kernel, data, conversions⟩ := plan
    obtain ⟨kinds, given, want, sources, destination, operands, rfl⟩ := fits ((List.length_map _).trans arity) planned
    exact compositional.leaf operands sources destination
  | dispatch arities entries inductionHypothesis =>
    exact yields_dispatch (fun o none => nomatch none) fun e member =>
      inductionHypothesis e member (fun s below => seeded s (.dispatch member below)) concrete srcConcrete
  | permute fit below inductionHypothesis =>
    exact yields_permute fit (fun o none => nomatch none)
      (fun inside => inductionHypothesis (fun s below => seeded s (.permute below)) concrete
        (forall_slotAt srcConcrete inside (.inr concrete)))
      fun length chain holds => compositional.permute length (length ▸ fit.lt_countP) holds
  | lift _ shaped below inductionHypothesis =>
    refine yields_lift (Q := fun plan chain => P plan.dst plan.src chain.toList ∧ ∀ l ∈ plan.src, l.ty.shape = [])
      (arity_lift fun ts given => (shaped ts given).1) (fun _ o none => nomatch none)
      (fun plan arity planned chain ran => ?_) fun plan loops arity planned nested chain holds => ?_
    · obtain ⟨innerConcrete, behindConcrete⟩ := concrete_of_liftPlan arity concrete srcConcrete planned
      exact ⟨inductionHypothesis (fun s below => seeded s (.lift below)) innerConcrete behindConcrete chain ran,
        below.flat_of_yields arity concrete srcConcrete planned chain ran⟩
    · obtain ⟨holds, points⟩ := holds
      have point := below.flat_of_liftPlan planned
      obtain ⟨within, found, sources, rfl, own, behind⟩ := of_liftPlan_eq_ok arity planned
      rw [own] at nested
      obtain ⟨rfl, stretches⟩ := of_loopNest_eq_ok within nested
      rw [behind] at holds points
      rw [Chain.toList_underLoops]
      exact compositional.lift concrete within found
        (fun s member => srcConcrete _ (List.mem_map_of_mem member)) stretches point
        (fun s member => points _ (List.mem_map_of_mem member)) holds
  | reduce below inductionHypothesis =>
    refine yields_reduce (Q := fun plan chain => P dst [plan.2] chain.toList) (fun _ o none => nomatch none) ?_ ?_
    · rintro l plan rfl planned
      obtain ⟨-, found⟩ := of_reductionPlan_eq_ok planned
      have inner := ((srcConcrete l List.mem_cons_self).of_inner? (Nat.le_refl _) found).1
      exact inductionHypothesis (fun s below => seeded s (.fold below)) concrete (by simpa using inner)
    · rintro l plan rfl planned chain holds
      obtain ⟨destination, found⟩ := of_reductionPlan_eq_ok planned
      exact compositional.reduce destination (srcConcrete l List.mem_cons_self) found
        (fun s same => seeded s (same ▸ .reduce)) holds

end Callable

end ArrayCall
