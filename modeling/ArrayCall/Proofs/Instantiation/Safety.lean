import ArrayCall.Proofs.Instantiation.Compositional

/-!
# Chains that stay within memory

A chain is safe for a destination and sources of given layouts (`Chain.Safe`) if it runs contained in
every graph that it stands in, from every addresses behind which memory serves all elements of those
layouts (`Memory.Serves`). Each adapter writes a safe chain above one that is safe for what it leaves to
its child, so a callable of native leaves is safe for all concrete layouts (`Callable.Formed.safe`).
-/

namespace ArrayCall

/-! ## What memory serves -/

namespace Layout.Throughout

variable {l : Layout} {P Q : Addr → Nat → Prop} {a : Addr}

theorem imp (throughout : l.Throughout P a) (each : ∀ a length, P a length → Q a length) : l.Throughout Q a :=
  fun index inside => each _ _ (throughout index inside)

/-- An array without dimensions has one element, at its own address. -/
theorem here {k : Kind} (throughout : l.Throughout P a) (scalar : l.ty = .scalar k) : P a k.size := by
  have first := throughout [] (scalar ▸ .nil)
  rwa [displacement_nil, Addr.advance_zero, scalar] at first

end Layout.Throughout

namespace Memory

/-- All elements of the destination can be written, and all those of the sources can be read. -/
structure Serves (m : Memory) (dst : Layout) (src : List Layout) (a : Addr) (addresses : List Addr) : Prop where
  writable : dst.Throughout m.Writable a
  readable : List.Forall₂ (fun a l => l.Throughout m.Readable a) addresses src

theorem Serves.of_grows {m m' : Memory} {dst : Layout} {src : List Layout} {a : Addr} {addresses : List Addr}
    (serves : m.Serves dst src a addresses) (grows : m.Grows m') : m'.Serves dst src a addresses where
  writable := serves.writable.imp fun _ _ writable => writable.of_grows grows
  readable := serves.readable.imp fun _ _ throughout => throughout.imp fun _ _ readable => readable.of_grows grows

end Memory

/-! ## Safe chains -/

namespace Chain

/-- Wherever the chain stands, it takes the sources and stays within the memory that serves them. -/
structure Safe (dst : Layout) (src : List Layout) (chain : List (Kernel × NodeData)) : Prop where
  takes : Takes chain src.length
  contained : ∀ {g : CallGraph} {id base : Nat} {m : Memory} {a : Addr} {addresses : List Addr}, g.Handed →
    g.Continues id chain → m.OwnScratch base → m.Serves dst src a addresses →
    Run.Contained base m (g.settled.single id a addresses m)

variable {dst : Layout} {src : List Layout} {chain : List (Kernel × NodeData)}

theorem safe_ofLeaf {kernel : Kernel} {data : NodeData} {kinds : List (Kind × Kind)} {given want : Kind}
    (operands : kernel.operands? data = some (kinds.map (·.2), want))
    (sources : src.map (·.ty) = kinds.map fun p => .scalar p.1) (destination : dst.ty = .scalar given) :
    Safe dst src (ofLeaf (kernel, data,
      .between (kinds.map (·.1)) (kinds.map (·.2)) (some given) (some want))).toList where
  takes := by
    have length : src.length = (kinds.map (·.2)).length := by
      simpa using congrArg List.length sources
    exact takes_ofLeaf_of_reads? (length ▸ Kernel.reads?_of_operands? operands)
      (by simpa [ConvertPlan.between] using length.symm)
  contained := by
    intro g id base m a addresses handed continues own serves
    refine CallGraph.contained_ofLeaf handed.descends operands continues own ?_ (serves.writable.here destination)
    obtain ⟨length, readable⟩ := List.forall₂_iff_get.mp serves.readable
    have count : src.length = kinds.length := by simpa using congrArg List.length sources
    refine List.forall₂_iff_get.mpr
      ⟨length.trans count, fun i there inside => (readable i there (count ▸ inside)).here ?_⟩
    have type := congrArg (·[i]?) sources
    simpa [List.getElem?_eq_getElem, count, inside, length ▸ there] using type

/-- A slot that reads the destination reads what can be written. -/
theorem safe_permute {slots : List Int} (count : src.length = slots.countP (0 ≤ ·))
    (inside : ∀ slot ∈ slots, slot < src.length) (below : Safe dst (slots.map (Node.slotAt dst src)) chain) :
    Safe dst src ((.permute, .permutation slots) :: chain) where
  takes := by
    rw [count] at inside ⊢
    exact .permute inside (by simpa using below.takes)
  contained := by
    intro g id base m a addresses handed continues own serves
    have given := serves.readable.length_eq
    have handedOn : Takes chain slots.length := by simpa using below.takes
    obtain ⟨found, ⟨child, there, -⟩, rest⟩ := continues.parent handedOn
    rw [CallGraph.settled_single_permute handed.descends found rfl rfl rfl there a (given ▸ inside)]
    have target := serves.writable.imp fun _ _ writable => writable.readable
    exact below.contained handed rest own ⟨serves.writable, Callable.forall₂_slots target serves.readable inside⟩

/-- Each index of the loops leads to the elements that a lift leaves to its child. -/
theorem safe_lift {outer : Nat} {sources : List (LiftedSource outer)} {inner : Layout} (concrete : dst.Concrete)
    (within : outer ≤ dst.ty.shape.length) (found : dst.inner? outer = some inner)
    (srcConcrete : ∀ s ∈ sources, s.layout.Concrete)
    (stretches : ∀ s ∈ sources, Broadcast.Stretches s.front.ty.shape (dst.ty.shape.take outer))
    (below : Safe inner (sources.map (·.behind)) chain) :
    Safe dst (sources.map (·.layout)) (loopNodes (Callable.loopsOver (dst.ty.shape.take outer) (dst.outer outer)
      (sources.map (·.front))) ++ chain) where
  takes := takes_loopsOver (by simpa using below.takes) (by simp) _ _
  contained := by
    intro g id base m a addresses handed continues own serves
    obtain ⟨views, rfl, rfl⟩ : ∃ views : List (Addr × LiftedSource outer), views.map (·.1) = addresses ∧
        views.map (·.2) = sources :=
      exists_map_eq_of_forall₂ ((List.forall₂_map_right_iff.mp serves.readable).imp fun a s _ => ⟨(a, s), rfl, rfl⟩)
    have fits : ∀ v ∈ views, v.2.layout.Fits ∧ Broadcast.Stretches v.2.front.ty.shape (dst.ty.shape.take outer) :=
      fun v listed => ⟨(srcConcrete v.2 (List.mem_map_of_mem listed)).fits, stretches v.2 (List.mem_map_of_mem listed)⟩
    have nested : g.Continues id (loopNodes (Callable.loopsOver (dst.ty.shape.take outer) (dst.outer outer)
        (views.map (·.2.front))) ++ chain) := by
      simpa [Function.comp_def] using continues
    have rest := continues.of_loopsOver
    rw [CallGraph.settled_single_lifted handed views (·.1) (·.2) (by simpa using below.takes) nested concrete.fits
      fits a]
    refine Run.contained_forM own fun index member m' grows own' => ?_
    have inside := isIndex_of_mem_reached member
    have serves := serves.of_grows grows
    refine below.contained handed rest own' ⟨serves.writable.inner concrete within found inside, ?_⟩
    have readable := serves.readable
    simp only [List.forall₂_map_left_iff, List.forall₂_map_right_iff, List.forall₂_same] at readable ⊢
    intro v listed
    have source := Broadcast.isIndex_sourceIndex (fits v listed).2 inside
    rw [v.2.shape_front] at source ⊢
    have concrete := srcConcrete v.2 (List.mem_map_of_mem listed)
    exact (readable v listed).inner concrete v.2.own_le_length v.2.inner?_eq source

/-- A fold writes to its destination only, and its loops lead to each element of the argument. -/
theorem safe_reduce {identity : Option Scalar} {acc : Kind} {l inner : Layout} (destination : dst.ty = .scalar acc)
    (concrete : l.Concrete) (found : l.inner? l.ty.shape.length = some inner) (below : Safe dst [inner] chain) :
    Safe dst [l] ((.fold, .fold identity acc) ::
      (loopNodes (Callable.reductionLoops l) ++ chain)) where
  takes := .fold (takes_loops below.takes (Callable.length_srcStride_reductionLoops l))
  contained := by
    intro g id base m a addresses handed continues own serves
    obtain ⟨source, _, readable, nothing, rfl⟩ := List.forall₂_cons_right_iff.mp serves.readable
    obtain rfl := List.forall₂_nil_right_iff.mp nothing
    have loops := takes_loops below.takes (Callable.length_srcStride_reductionLoops l)
    obtain ⟨fold, ⟨child, there, -⟩, nest⟩ := continues.parent loops
    have writable := serves.writable.here destination
    rw [CallGraph.settled_single_fold handed fold rfl rfl rfl there fun _ _ => writable]
    have rest := nest.of_append
    rw [List.length_map, Callable.reductionLoops, List.length_map, List.length_zipIdx] at rest
    rw [CallGraph.settled_single_reductionLoops handed below.takes nest concrete.fits]
    have seeded : m.Grows (identity.elim m fun s => m.put a (s.encode acc)) ∧
        (identity.elim m fun s => m.put a (s.encode acc)).OwnScratch base := by
      cases identity with
      | none => exact ⟨.refl m, own⟩
      | some s => exact ⟨m.grows_put _ _, own.put _ _⟩
    generalize (identity.elim m fun s => m.put a (s.encode acc)) = m₁ at seeded ⊢
    obtain ⟨grows₁, own₁⟩ := seeded
    refine Run.Contained.of_grows (Run.contained_forM own₁ fun index member m₂ grows₂ own₂ => ?_) grows₁
    have inside := isIndex_of_mem_reached member
    have serves := serves.of_grows (grows₁.trans grows₂)
    obtain ⟨readable, -⟩ := List.forall₂_cons.mp serves.readable
    rw [← List.take_length (l := l.ty.shape)] at inside
    have element := readable.inner concrete (Nat.le_refl _) found inside
    rw [← concrete.fits, List.take_length] at element
    exact below.contained handed rest own₂ ⟨serves.writable, .cons element .nil⟩

theorem compositional_safe : Compositional (fun _ => True) Safe where
  leaf := safe_ofLeaf
  permute := safe_permute
  lift concrete within found srcConcrete stretches _ _ := safe_lift concrete within found srcConcrete stretches
  reduce destination concrete found _ := safe_reduce destination concrete found

end Chain

/-- A callable of native leaves writes a safe chain for all concrete layouts, whatever adapters are around
the leaves. -/
theorem Callable.Formed.safe {c : Callable} (native : c.Formed Leaf.Native fun _ => True) {kwds : Keywords}
    {jump : OutlineJump} {dst : Layout} {src : List Layout} (concrete : dst.Concrete)
    (srcConcrete : ∀ l ∈ src, l.Concrete) :
    (c.outlineNode [] kwds jump dst src).Yields fun chain => Chain.Safe dst src chain.toList :=
  (native.mono Leaf.Native.typed).yields Chain.compositional_safe (fun _ _ => trivial) concrete srcConcrete

end ArrayCall
