import ArrayCall.Proofs.Instantiation.Compositional
import ArrayCall.Proofs.Instantiation.Paths

/-!
# When instantiation has an end

Instantiation has no end just if its path comes to an overloaded callable for the types of the overload
and, below it, to the same callable for the same types again (`Site.Recurs`). Between two visits for the
same types no dimension is taken off, so that every step in between depends on types alone and can be
made again and again (`Site.not_ends_of_recurs`).
-/

namespace ArrayCall

/-! ## Dimensions -/

namespace Ty

theorem ndim_of_element? {t elem : Ty} (found : t.element? = some elem) : t.ndim = elem.ndim + 1 := by
  cases t <;> cases found <;> rfl

/-- Each dimension that is taken off is one less. -/
theorem ndim_of_stripDims {t rest : Ty} {n : Nat} (stripped : t.stripDims n = some rest) : t.ndim = rest.ndim + n := by
  induction n generalizing t with
  | zero =>
    cases stripped
    rfl
  | succ n inductionHypothesis =>
    obtain ⟨elem, found, stripped⟩ := Option.bind_eq_some_iff.mp stripped
    rw [ndim_of_element? found, inductionHypothesis stripped]
    rfl

theorem length_of_shape?_eq_some {t : Ty} {shape : List Nat} (shaped : t.shape? = some shape) :
    shape.length = t.ndim := by
  induction t generalizing shape with
  | fixedDim n elem inductionHypothesis =>
    obtain ⟨sizes, inner, rfl⟩ := Option.map_eq_some_iff.mp shaped
    exact congrArg (· + 1) (inductionHypothesis inner)
  | symbolicDim | ellipsis => cases shaped
  | _ =>
    cases shaped
    rfl

/-- A type with a shape has no dimensions but those. -/
theorem length_shape (t : Ty) : t.shape.length = 0 ∨ t.shape.length = t.ndim := by
  cases shaped : t.shape? with
  | none =>
    left
    rw [shape, shaped, Option.getD_none, List.length_nil]
  | some sizes =>
    right
    rw [shape, shaped, Option.getD_some, length_of_shape?_eq_some shaped]

end Ty

theorem Layout.of_inner?_eq_some {l behind : Layout} {n : Nat} (found : l.inner? n = some behind) :
    l.ty.stripDims n = some behind.ty := by
  rw [Layout.inner?] at found
  split at found
  next t stripped =>
    split at found
    next => cases found; exact stripped
    next => cases found
  next => cases found

/-! ## Steps that take off no dimension -/

namespace Callable

variable {c child : Callable} {dst dst' : Layout} {src src' : List Layout} {plan : LiftPlan} {s : Site} {n : Nat}

theorem liftSource_zero_eq_ok_iff {index : Nat} {l : Layout} {param : Ty} {part : Nat × Layout} :
    c.liftSource 0 index l param = .ok part ↔ l.ty.shape.length = param.ownDims ∧ (0, l) = part := by
  rw [liftSource]
  split
  next wrong =>
    refine iff_of_false (by rintro ⟨⟩) ?_
    rintro ⟨same, -⟩
    omega
  next fits =>
    have same : l.ty.shape.length = param.ownDims := by omega
    rw [show l.ty.shape.length - param.ownDims = 0 by omega, Layout.inner?_zero]
    constructor
    · exact fun split => ⟨same, Except.ok.inj split⟩
    · rintro ⟨-, split⟩
      exact congrArg Except.ok split

theorem liftPlan_eq_ok_iff :
    c.liftPlan child dst src = .ok plan ↔
      child.signature.ret.ownDims ≤ dst.ty.shape.length ∧
        plan.outer = dst.ty.shape.length - child.signature.ret.ownDims ∧ dst.inner? plan.outer = some plan.dst ∧
        ∃ parts : List (Nat × Layout), plan.own = parts.map (·.1) ∧ plan.src = parts.map (·.2) ∧
          List.Forall₂ (fun x part => c.liftSource plan.outer x.2 x.1.1 x.1.2 = .ok part)
            (src.zip child.signature.params).zipIdx parts := by
  rw [liftPlan]
  dsimp only
  split
  next shallow =>
    refine iff_of_false (by rintro ⟨⟩) ?_
    rintro ⟨enough, -⟩
    omega
  next deep =>
    rw [and_iff_right (Nat.le_of_not_lt deep)]
    obtain ⟨outer, own, planDst, behind⟩ := plan
    constructor
    · intro planned
      obtain ⟨parts, split, planned⟩ := bind_eq_ok_iff.mp planned
      cases found : dst.inner? (dst.ty.shape.length - child.signature.ret.ownDims) with
      | none => rw [found] at planned; cases planned
      | some inner =>
        rw [found] at planned
        cases planned
        exact ⟨rfl, found, parts, rfl, rfl, mapM_eq_ok_iff.mp split⟩
    · rintro ⟨rfl, found, parts, rfl, rfl, split⟩
      dsimp only at found split
      refine bind_eq_ok_iff.mpr ⟨parts, mapM_eq_ok_iff.mpr split, ?_⟩
      rw [found]
      rfl

/-- A lift whose destination has no dimensions outside hands everything on as it is; whether it does
depends on types alone. -/
theorem liftPlan_outer_zero_eq_ok_iff :
    c.liftPlan child dst src = .ok plan ∧ plan.outer = 0 ↔
      dst.ty.shape.length = child.signature.ret.ownDims ∧
        (∀ pair ∈ (src.map (·.ty)).zip child.signature.params, pair.1.shape.length = pair.2.ownDims) ∧
        plan = ⟨0, (src.zip child.signature.params).map fun _ => 0, dst,
          (src.zip child.signature.params).map Prod.fst⟩ := by
  have firsts {β : Type} (f : Layout × Ty → β) : (src.zip child.signature.params).zipIdx.map (fun x => f x.1) =
      (src.zip child.signature.params).map f := by
    conv_rhs => rw [← List.zipIdx_map_fst 0 (src.zip _), List.map_map]
    rfl
  have each : ∀ parts : List (Nat × Layout), List.Forall₂ (fun x part => c.liftSource 0 x.2 x.1.1 x.1.2 = .ok part)
        (src.zip child.signature.params).zipIdx parts ↔
      (∀ pair ∈ (src.map (·.ty)).zip child.signature.params, pair.1.shape.length = pair.2.ownDims) ∧
        parts = (src.zip child.signature.params).map fun x => (0, x.1) := by
    intro parts
    have ranks : (∀ x ∈ (src.zip child.signature.params).zipIdx, x.1.1.ty.shape.length = x.1.2.ownDims) ↔
        ∀ pair ∈ (src.map (·.ty)).zip child.signature.params, pair.1.shape.length = pair.2.ownDims := by
      conv_rhs => rw [List.zip_map_left, List.forall_mem_map, ← List.zipIdx_map_fst 0 (src.zip _), List.forall_mem_map]
      rfl
    simp only [liftSource_zero_eq_ok_iff, List.forall₂_and_left]
    rw [← List.forall₂_map_left_iff (f := fun x : (Layout × Ty) × Nat => ((0 : Nat), x.1.1)), List.forall₂_eq_eq_eq,
      firsts fun pair => ((0 : Nat), pair.1), ranks, eq_comm]
  rw [liftPlan_eq_ok_iff]
  obtain ⟨outer, own, planDst, behind⟩ := plan
  dsimp only
  constructor
  · rintro ⟨⟨enough, flat, found, parts, rfl, rfl, split⟩, rfl⟩
    obtain ⟨ranks, rfl⟩ := (each parts).mp split
    cases found
    refine ⟨by omega, ranks, ?_⟩
    rw [List.map_map, List.map_map]
    rfl
  · rintro ⟨rank, ranks, same⟩
    cases same
    refine ⟨⟨Nat.le_of_eq rank.symm, by omega, rfl, _, ?_, ?_, (each _).mpr ⟨ranks, rfl⟩⟩, rfl⟩ <;>
      rw [List.map_map] <;> rfl

theorem ndim_of_inner? {l behind : Layout} (found : l.inner? n = some behind) : l.ty.ndim = behind.ty.ndim + n :=
  Ty.ndim_of_stripDims (Layout.of_inner?_eq_some found)

/-- A child has a part of the destination. -/
theorem Below.ndim_dst_le (below : c.Below dst src s) : s.dst.ty.ndim ≤ dst.ty.ndim := by
  cases below with
  | lift arity planned nested =>
    obtain ⟨-, -, found, -⟩ := liftPlan_eq_ok_iff.mp planned
    have := ndim_of_inner? found
    dsimp only
    omega
  | dispatch | permute | reduce => exact Nat.le_refl _

/-- No source of a child has more dimensions than there are above. -/
theorem Below.shallow (below : c.Below dst src s) (shallow : ∀ l ∈ dst :: src, l.ty.ndim ≤ n) :
    ∀ l ∈ s.dst :: s.src, l.ty.ndim ≤ n := by
  have ofDst := below.ndim_dst_le.trans (shallow dst List.mem_cons_self)
  rw [List.forall_mem_cons] at shallow ⊢
  refine ⟨ofDst, ?_⟩
  obtain ⟨ofDst, ofSrc⟩ := shallow
  cases below with
  | dispatch arity selected => exact ofSrc
  | permute arity =>
    intro l member
    obtain ⟨j, -, read⟩ := List.mem_filterMap.mp member
    split at read
    next => cases read; exact ofDst
    next => exact ofSrc l (List.mem_of_getElem? read)
  | lift arity planned nested =>
    obtain ⟨-, -, -, parts, -, same, split⟩ := liftPlan_eq_ok_iff.mp planned
    intro l member
    dsimp only at member
    rw [same] at member
    obtain ⟨part, listed, rfl⟩ := List.mem_map.mp member
    obtain ⟨i, inside, rfl⟩ := List.getElem_of_mem listed
    have taken := split.get (split.length_eq ▸ inside) inside
    obtain ⟨source, layout, same⟩ := of_liftSource_eq_ok taken
    have lower := ndim_of_inner? source.inner?_eq
    have given : source.layout ∈ src := by
      rw [layout]
      exact (List.of_mem_zip (List.fst_mem_of_mem_zipIdx (List.get_mem _ _))).1
    have := ofSrc _ given
    rw [List.get_eq_getElem] at same
    rw [← same]
    dsimp only
    omega
  | @reduce stamp fold identity dst inner src acc arity planned =>
    intro l member
    obtain rfl := List.mem_singleton.mp member
    have lower := ndim_of_inner? (of_reductionPlan_eq_ok planned).2
    obtain ⟨arg, rfl⟩ := List.length_eq_one_iff.mp arity
    have := ofSrc arg List.mem_cons_self
    dsimp only [List.headD_cons] at lower
    omega

/-- Where no dimension is taken off, the child depends on types alone. -/
theorem Below.again {dst' : Layout} {src' : List Layout} (below : c.Below dst src s)
    (whole : dst.ty.ndim ≤ s.dst.ty.ndim)
    (deep : (∀ l ∈ s.dst :: s.src, l.ty.ndim ≤ 0) → ∀ l ∈ src, l.ty.ndim ≤ 0) (sameDst : dst'.ty = dst.ty)
    (sameSrc : src'.map (·.ty) = src.map (·.ty)) :
    ∃ t, c.Below dst' src' t ∧ t.callable = s.callable ∧ t.dst.ty = s.dst.ty ∧ t.args = s.args := by
  have length : src'.length = src.length := by simpa using congrArg List.length sameSrc
  cases below with
  | dispatch arity selected =>
    rw [← sameSrc] at selected
    exact ⟨_, .dispatch (length.trans arity) selected, rfl, sameDst, sameSrc⟩
  | @permute stamp child slots dst src arity =>
    refine ⟨_, .permute (length.trans arity), rfl, sameDst, ?_⟩
    have read (j : Nat) : (src'[j]?).map Layout.ty = (src[j]?).map Layout.ty := by
      rw [← List.getElem?_map, ← List.getElem?_map, sameSrc]
    simp only [Site.args, List.map_filterMap]
    refine List.filterMap_congr fun j _ => ?_
    split
    · exact congrArg some sameDst
    · exact read j.toNat
  | @lift stamp child types dst src plan loops arity planned nested =>
    have flat : plan.outer = 0 := by
      have := ndim_of_inner? (liftPlan_eq_ok_iff.mp planned).2.2.1
      dsimp only at whole
      omega
    obtain ⟨rank, ranks, rfl⟩ := liftPlan_outer_zero_eq_ok_iff.mp ⟨planned, flat⟩
    rw [← sameDst] at rank
    rw [← sameSrc] at ranks
    have planned' := (liftPlan_outer_zero_eq_ok_iff (c := .lift stamp child types)).mpr ⟨rank, ranks, rfl⟩
    have nested' (own : List Nat) : (Callable.lift stamp child types).loopNest 0 own dst' src' = .ok [] := rfl
    refine ⟨_, .lift (length.trans arity) planned'.1 (nested' _), rfl, sameDst, ?_⟩
    have types : ∀ src : List Layout, ((src.zip child.signature.params).map Prod.fst).map (·.ty) =
        ((src.map (·.ty)).zip child.signature.params).map Prod.fst := by
      intro src
      rw [List.zip_map_left, List.map_map, List.map_map]
      rfl
    simp only [Site.args, types, sameSrc]
  | @reduce stamp fold identity dst inner src acc arity planned =>
    obtain ⟨arg, rfl⟩ := List.length_eq_one_iff.mp arity
    obtain ⟨arg', rfl⟩ := List.length_eq_one_iff.mp length
    obtain ⟨destination, found⟩ := of_reductionPlan_eq_ok planned
    dsimp only [List.headD_cons] at destination found
    have sameArg : arg'.ty = arg.ty := List.head_eq_of_cons_eq sameSrc
    have rank : arg.ty.shape.length = 0 := by
      -- Dimensions taken off here would be missing below.
      have lower := ndim_of_inner? found
      rcases Ty.length_shape arg.ty with point | all
      · exact point
      · have elements : ∀ l ∈ [dst, inner], l.ty.ndim ≤ 0 := by
          simp only [List.forall_mem_cons, destination, Ty.ndim]
          exact ⟨Nat.le_refl _, by omega, fun l none => absurd none List.not_mem_nil⟩
        have := deep elements arg List.mem_cons_self
        omega
    rw [rank, Layout.inner?_zero] at found
    cases found
    have planned' : (Callable.reduce stamp fold identity).reductionPlan dst' arg' = .ok (acc, arg') := by
      rw [reductionPlan, sameDst, destination, sameArg, rank, Layout.inner?_zero]
      rfl
    exact ⟨_, .reduce arity planned', rfl, sameDst, congrArg (fun t => [t]) sameArg⟩

end Callable

namespace Site

variable {os : Overloads} {kwds : Keywords} {jumps : Nat} {s t e : Site}

/-! ## Paths that recur -/

/-- The same is instantiated, for the same types. -/
structure Alike (os : Overloads) (s t : Site) : Prop extends s.Again t where
  specialize_eq : os.specialize t.callable t.dst.ty t.args = os.specialize s.callable s.dst.ty s.args

theorem Again.alike (again : s.Again t) (overloaded : s.Overloaded os) : s.Alike os t := by
  obtain ⟨other, found⟩ := Option.isSome_iff_exists.mp overloaded
  refine ⟨again, ?_⟩
  rw [Overloads.specialize, Overloads.specialize, again.find?_eq, found, Option.getD_some, Option.getD_some]

theorem Alike.trans (first : s.Alike os t) (second : t.Alike os e) : s.Alike os e :=
  ⟨⟨second.stamp_eq.trans first.stamp_eq, second.dst_eq.trans first.dst_eq, second.args_eq.trans first.args_eq⟩,
    second.specialize_eq.trans first.specialize_eq⟩

theorem Alike.overloaded (alike : s.Alike os t) (overloaded : s.Overloaded os) : t.Overloaded os := by
  rwa [Overloaded, alike.find?_eq]

/-- What is in reach has no more dimensions than there are on the way. -/
theorem ndim_dst_le_of_reaches (reaches : Relation.ReflTransGen (Comes os) s e) : e.dst.ty.ndim ≤ s.dst.ty.ndim := by
  induction reaches with
  | refl => exact Nat.le_refl _
  | tail _ comes inductionHypothesis => exact comes.ndim_dst_le.trans inductionHypothesis

theorem shallow_of_reaches {n : Nat} (reaches : Relation.ReflTransGen (Comes os) s e)
    (shallow : ∀ l ∈ s.dst :: s.src, l.ty.ndim ≤ n) : ∀ l ∈ e.dst :: e.src, l.ty.ndim ≤ n := by
  induction reaches with
  | refl => exact shallow
  | tail _ comes inductionHypothesis => exact comes.shallow inductionHypothesis

/-- A way on which no dimension is taken off can be gone from wherever the same is instantiated for the
same types. -/
theorem exists_alike (reaches : Relation.TransGen (Comes os) s e) (whole : s.dst.ty.ndim ≤ e.dst.ty.ndim)
    (deep : (∀ l ∈ e.dst :: e.src, l.ty.ndim ≤ 0) → ∀ l ∈ s.dst :: s.src, l.ty.ndim ≤ 0) (alike : s.Alike os t) :
    ∃ u, Relation.TransGen (Comes os) t u ∧ e.Alike os u := by
  have step : ∀ {s next}, Comes os s next → Relation.ReflTransGen (Comes os) next e →
      s.dst.ty.ndim ≤ e.dst.ty.ndim → ((∀ l ∈ e.dst :: e.src, l.ty.ndim ≤ 0) → ∀ l ∈ s.dst :: s.src, l.ty.ndim ≤ 0) →
      ∀ {t}, s.Alike os t → ∃ u, Comes os t u ∧ next.Alike os u := by
    intro s next comes reaches whole deep t alike
    obtain ⟨u, comesToo, callable, dst, args⟩ := comes.again (whole.trans (ndim_dst_le_of_reaches reaches))
      (fun points => (List.forall_mem_cons.mp (deep (shallow_of_reaches reaches points))).2) alike.dst_eq alike.args_eq
    refine ⟨u, ?_, ⟨by rw [callable], dst, args⟩, by rw [callable, dst, args]⟩
    rwa [Comes, alike.specialize_eq]
  induction reaches using Relation.TransGen.head_induction_on generalizing t with
  | single comes =>
    obtain ⟨u, comesToo, alikeToo⟩ := step comes .refl whole deep alike
    exact ⟨u, .single comesToo, alikeToo⟩
  | head comes reaches inductionHypothesis =>
    obtain ⟨u, comesToo, alikeToo⟩ := step comes reaches.to_reflTransGen whole deep alike
    obtain ⟨v, reachesToo, alikeLast⟩ := inductionHypothesis (comes.ndim_dst_le.trans whole)
      (fun points => comes.shallow (deep points)) alikeToo
    exact ⟨v, .head comesToo reachesToo, alikeLast⟩

/-- If there is an end above, there is one below, and an overload that is taken is a jump. -/
theorem ends_of_comes (comes : Comes os s t) (ends : (s.outline os kwds jumps).Ends) :
    ∃ left ≤ jumps, (t.outline os kwds left).Ends ∧ (s.Overloaded os → left < jumps) := by
  cases found : os.find? s.callable s.dst.ty s.args with
  | none =>
    rw [outline_of_find?_eq_none found, Callable.ends_outlineNode_iff] at ends
    refine ⟨jumps, Nat.le_refl _, ends t ?_, fun overloaded => ?_⟩
    · rwa [Comes, Overloads.specialize, found] at comes
    · rw [Overloaded, found] at overloaded
      cases overloaded
  | some other =>
    rw [outline_of_find? found] at ends
    cases jumps with
    | zero => cases ends
    | succ left =>
      rw [Callable.outlineWithin_succ, Callable.ends_outlineNode_iff] at ends
      refine ⟨left, Nat.le_succ _, ends t ?_, fun _ => Nat.lt_succ_self _⟩
      rwa [Comes, Overloads.specialize, found] at comes

theorem ends_of_reaches (reaches : Relation.ReflTransGen (Comes os) s t) (ends : (s.outline os kwds jumps).Ends) :
    ∃ left ≤ jumps, (t.outline os kwds left).Ends := by
  induction reaches with
  | refl => exact ⟨jumps, Nat.le_refl _, ends⟩
  | tail _ comes inductionHypothesis =>
    obtain ⟨left, le, ends⟩ := inductionHypothesis
    obtain ⟨left', le', ends, -⟩ := ends_of_comes comes ends
    exact ⟨left', le'.trans le, ends⟩

/-- The way from a site back to it is gone again and again, and takes at least one jump each time. -/
theorem not_ends_of_returns (overloaded : s.Overloaded os) (returns : Relation.TransGen (Comes os) s e)
    (again : s.Again e) (alike : s.Alike os t) : ¬(t.outline os kwds jumps).Ends := by
  induction jumps using Nat.strong_induction_on generalizing t with
  | _ jumps inductionHypothesis =>
    intro ends
    have points : (∀ l ∈ e.dst :: e.src, l.ty.ndim ≤ 0) → ∀ l ∈ s.dst :: s.src, l.ty.ndim ≤ 0 := by
      have types : (e.dst :: e.src).map (·.ty) = (s.dst :: s.src).map (·.ty) :=
        congrArg₂ List.cons again.dst_eq again.args_eq
      have ranks : ∀ layouts : List Layout,
          (∀ l ∈ layouts, l.ty.ndim ≤ 0) ↔ ∀ t ∈ layouts.map (·.ty), t.ndim ≤ 0 := by simp
      rw [ranks, ranks, types]
      exact id
    obtain ⟨u, reaches, alikeLast⟩ :=
      exists_alike returns (Nat.le_of_eq (congrArg Ty.ndim again.dst_eq.symm)) points alike
    obtain ⟨next, comes, rest⟩ := Relation.TransGen.head'_iff.mp reaches
    obtain ⟨left, -, ends, fewer⟩ := ends_of_comes comes ends
    obtain ⟨left', le, ends⟩ := ends_of_reaches rest ends
    have fewer := fewer (alike.overloaded overloaded)
    exact inductionHypothesis left' (by omega) ((again.alike overloaded).trans alikeLast) ends

/-- Where instantiation comes back to what it has taken an overload for, no number of jumps is enough. -/
theorem not_ends_of_recurs (recurs : s.Recurs os) (jumps : Nat) : ¬(s.outline os kwds jumps).Ends := by
  obtain ⟨a, e, reaches, overloaded, returns, again⟩ := recurs
  intro ends
  obtain ⟨left, -, ends⟩ := ends_of_reaches reaches ends
  have itself : a.Again a := ⟨rfl, rfl, rfl⟩
  exact not_ends_of_returns overloaded returns again (itself.alike overloaded) ends

end Site

/-! ## The result -/

namespace Build

/-- A build has an end just where its outline has one, from whatever graph. -/
def EndsAs (build : Build Nat) (outline : Outline) : Prop := ∀ g, (build.run g).isSome ↔ outline.Ends

theorem endsAs_leaf (plan : Kernel × NodeData × ConvertPlan) : EndsAs (leaf plan) (Outline.writer.leaf plan) := by
  obtain ⟨kernel, data, conversions⟩ := plan
  refine fun g => iff_of_true ?_ rfl
  rw [leaf]
  split <;> rfl

theorem endsAs_adapt (f : CallError → CallError) {build : Build Nat} {outline : Outline}
    (alike : EndsAs build outline) : EndsAs (ExceptT.adapt f build) (ExceptT.adapt f outline) := by
  intro g
  rw [run_adapt, Outline.ends_adapt_iff, ← alike g]
  cases build.run g <;> rfl

/-- The nodes of a composite are written, and released again, in so many steps as there are nodes. -/
theorem endsAs_above (first : Kernel × NodeData) (rest : List (Kernel × NodeData)) (onError : CallError → CallError)
    {child : Build Nat} {outline : Outline} (alike : EndsAs child outline) :
    EndsAs (above first rest child onError) (Outline.above first rest outline onError) := by
  intro g
  have before : (mark : Build Nat).run g = some (.ok g.size, g) := rfl
  simp only [above, run_bind, before, run_pushChain, run_tryCatch, Option.bind_some]
  rw [Outline.ends_above_iff, ← alike (g.append (first :: rest))]
  rcases child.run (g.append (first :: rest)) with _ | ⟨_ | root, g'⟩
  · rfl
  · rfl
  · rfl

theorem endsAs_related : Writer.Related EndsAs (.ofArena CallGraph) Outline.writer where
  endless _ := iff_of_false nofun nofun
  fail _ _ := iff_of_true rfl rfl
  adapt := endsAs_adapt
  leaf := endsAs_leaf
  above := endsAs_above

end Build

namespace Callable

variable {os : Overloads} {kwds : Keywords} {c : Callable} {dst : Layout} {src : List Layout}

/-- With whatever number of jumps, instantiation has an end just where the outline has one. -/
theorem isSome_run_instantiateWithin_iff {jumps : Nat} {g : CallGraph} :
    ((c.instantiateWithin os kwds jumps dst src).run g).isSome ↔ (Site.outline os kwds jumps ⟨c, dst, src⟩).Ends :=
  Build.endsAs_related.writeWithin os kwds jumps c dst src g

theorem run_instantiateWithin_of_recurs (recurs : Site.Recurs os ⟨c, dst, src⟩) (kwds : Keywords) (jumps : Nat)
    (g : CallGraph) : (c.instantiateWithin os kwds jumps dst src).run g = none := by
  rw [← Option.not_isSome_iff_eq_none, isSome_run_instantiateWithin_iff]
  exact Site.not_ends_of_recurs recurs jumps

/-- Instantiation gives a root or an error, unless on its way it takes an overload and comes back to
the overloaded callable for the same types; then there is no end, whatever number of jumps is made. -/
theorem instantiate_ends_unless_overload_recurs (os : Overloads) (c : Callable) (dst : Layout) (src : List Layout)
    (kwds : Keywords) (g : CallGraph) :
    (¬Site.Recurs os ⟨c, dst, src⟩ → ∃ result g', instantiate os c dst src kwds g = some (result, g')) ∧
    (Site.Recurs os ⟨c, dst, src⟩ → ∀ jumps, (c.instantiateWithin os kwds jumps dst src).run g = none) := by
  constructor
  · intro never
    have ends : (instantiate os c dst src kwds g).isSome :=
      isSome_run_instantiateWithin_iff.mpr (Site.outline_ends_of_not_recurs never)
    obtain ⟨⟨result, g'⟩, ran⟩ := Option.isSome_iff_exists.mp ends
    exact ⟨result, g', ran⟩
  · exact fun recurs jumps => run_instantiateWithin_of_recurs recurs kwds jumps g

/-- An addition that is overloaded by itself for one list of types has an end for another list, and none for
that one. -/
theorem instantiate_ends_beside_overload :
    let int32 : Ty := .scalar (.int .w32)
    let add : Callable := .leaf 0 "add[int32]" (Builtins.uniform 2 int32) ⟨.fixed (.binary .add (.int .w32)), none⟩
    let os : Overloads := [⟨0, int32, [int32, int32], .permute 1 add [1, 0]⟩]
    (∃ result g', instantiate os add ⟨int32, []⟩ [⟨int32, []⟩, ⟨.scalar (.int .w16), []⟩] .empty .empty =
        some (result, g')) ∧
      ∀ jumps, (add.instantiateWithin os .empty jumps ⟨int32, []⟩ [⟨int32, []⟩, ⟨int32, []⟩]).run .empty = none := by
  intro int32 add os
  refine ⟨(instantiate_ends_unless_overload_recurs os add ⟨int32, []⟩ _ .empty .empty).1 ?_,
    (instantiate_ends_unless_overload_recurs os add ⟨int32, []⟩ _ .empty .empty).2 ?_⟩
  · have last : ∀ t, ¬Site.Comes os ⟨add, ⟨int32, []⟩, [⟨int32, []⟩, ⟨.scalar (.int .w16), []⟩]⟩ t := by
      intro t comes
      cases comes
    rintro ⟨s, e, reaches, -, returns, -⟩
    have first : ∃ t, Site.Comes os ⟨add, ⟨int32, []⟩, [⟨int32, []⟩, ⟨.scalar (.int .w16), []⟩]⟩ t := by
      rcases Relation.ReflTransGen.cases_head reaches with rfl | ⟨t, comes, -⟩
      · obtain ⟨t, comes, -⟩ := Relation.TransGen.head'_iff.mp returns
        exact ⟨t, comes⟩
      · exact ⟨t, comes⟩
    obtain ⟨t, comes⟩ := first
    exact last t comes
  · have comes : Site.Comes os ⟨add, ⟨int32, []⟩, [⟨int32, []⟩, ⟨int32, []⟩]⟩
        ⟨add, ⟨int32, []⟩, [⟨int32, []⟩, ⟨int32, []⟩]⟩ := by
      have taken : os.specialize add int32 [int32, int32] = .permute 1 add [1, 0] := rfl
      change (os.specialize add int32 [int32, int32]).Below _ _ _
      rw [taken]
      exact Below.permute rfl
    exact ⟨_, _, .refl, rfl, .single comes, rfl, rfl, rfl⟩

/-- An addition that is overloaded, for two arguments of its own kind, by itself with the arguments in their
places has no end for such arguments. -/
theorem instantiate_endless_of_overload_wrapping_itself :
    let int32 : Ty := .scalar (.int .w32)
    let add : Callable := .leaf 0 "add[int32]" (Builtins.uniform 2 int32) ⟨.fixed (.binary .add (.int .w32)), none⟩
    let wrapped : Callable := .permute 1 add [0, 1]
    let os : Overloads := [⟨0, int32, [int32, int32], wrapped⟩]
    Builtins.binaryKernel .add (.int .w32) 0 = .ok (add, 1) ∧ add.permuted 1 [0, 1] = .ok wrapped ∧
      Overloads.register [] add int32 [int32, int32] wrapped = .ok os ∧
      instantiate os add ⟨int32, []⟩ [⟨int32, []⟩, ⟨int32, []⟩] .empty .empty = none ∧
      ∀ jumps, (add.instantiateWithin os .empty jumps ⟨int32, []⟩ [⟨int32, []⟩, ⟨int32, []⟩]).run .empty = none := by
  intro int32 add wrapped os
  let start : Site := ⟨add, ⟨int32, []⟩, [⟨int32, []⟩, ⟨int32, []⟩]⟩
  have comes : Site.Comes os start start := by
    have taken : os.specialize start.callable start.dst.ty start.args = wrapped := rfl
    rw [Site.Comes, taken]
    exact Below.permute rfl
  have recurs : start.Recurs os := ⟨start, start, .refl, rfl, .single comes, rfl, rfl, rfl⟩
  have endless : ∀ jumps, (add.instantiateWithin os .empty jumps ⟨int32, []⟩ [⟨int32, []⟩, ⟨int32, []⟩]).run
    .empty = none :=
    fun jumps => run_instantiateWithin_of_recurs recurs .empty jumps .empty
  exact ⟨rfl, rfl, rfl, endless os.length, endless⟩

end Callable

end ArrayCall
