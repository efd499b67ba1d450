import ArrayCall.Proofs.Execution.Rereading
import ArrayCall.Proofs.Instantiation.Compositional

/-!
# Chains that read before they write

A source with the layout and the contents of the destination may stand in a region of its own, or be the
destination itself. A chain that starts from no identity tells no difference (`Chain.ReadsFirst`): each
element of the destination is read by the leaf that writes it, and by no other. So it is for every callable
of typed leaves, if no two elements of the destination share a byte (`Callable.Formed.readsFirst`).
-/

namespace ArrayCall

open Layout (displacement)

/-- No two elements have a byte in common. -/
def Layout.Separate (l : Layout) : Prop :=
  ∀ index index', IsIndex l.ty.shape index → IsIndex l.ty.shape index' → index ≠ index' →
    displacement index l.strides + l.ty.elementSize ≤ displacement index' l.strides ∨
      displacement index' l.strides + l.ty.elementSize ≤ displacement index l.strides

instance (l : Layout) : Decidable l.Separate :=
  decidable_of_iff (∀ index ∈ indices l.ty.shape, ∀ index' ∈ indices l.ty.shape, index ≠ index' →
      displacement index l.strides + l.ty.elementSize ≤ displacement index' l.strides ∨
        displacement index' l.strides + l.ty.elementSize ≤ displacement index l.strides) (by
    simp only [mem_indices_iff]
    exact ⟨fun all index index' inside inside' => all index inside index' inside',
      fun all index inside index' inside' => all index index' inside inside'⟩)

/-- There is no second element where there are no dimensions. -/
theorem Layout.separate_of_flat {l : Layout} (flat : l.ty.shape = []) : l.Separate := by
  intro index index' inside inside' differs
  rw [flat] at inside inside'
  exact absurd ((List.forall₂_nil_right_iff.mp inside).trans (List.forall₂_nil_right_iff.mp inside').symm) differs

namespace Memory

/-- Some elements of an array stand at an address as they do at that of its copy, in another region. -/
structure Copied (base : Nat) (m : Memory) (l : Layout) (among : List Nat → Prop) (copy a : Addr) : Prop where
  copy_lt : copy.region < base
  lt : a.region < base
  ne : copy.region ≠ a.region
  elements : ∀ index, among index → m.Matches l.ty.elementSize (copy.advance (displacement index l.strides))
    (a.advance (displacement index l.strides))

variable {m m' : Memory} {base : Nat} {l inner : Layout} {among among' : List Nat → Prop} {copy a : Addr}
  {index : List Nat}

/-- One element of an array that was copied. -/
theorem Copied.element (copied : m.Copied base l among copy a) (member : among index) (flat : inner.ty.shape = [])
    (size : inner.ty.elementSize = l.ty.elementSize) :
    m.Copied base inner (IsIndex inner.ty.shape) (copy.advance (displacement index l.strides))
      (a.advance (displacement index l.strides)) where
  copy_lt := copied.copy_lt
  lt := copied.lt
  ne := copied.ne
  elements index' inside := by
    rw [flat] at inside
    obtain rfl := List.forall₂_nil_right_iff.mp inside
    rw [Layout.displacement_nil, Addr.advance_zero, Addr.advance_zero, size]
    exact copied.elements index member

/-- An element without dimensions stands at the address itself. -/
theorem Copied.here {k : Kind} (copied : m.Copied base l (IsIndex l.ty.shape) copy a) (scalar : l.ty = .scalar k) :
    m.Interchangeable base k.size copy a := by
  have first := copied.elements [] (scalar ▸ .nil)
  rw [Layout.displacement_nil, Addr.advance_zero, Addr.advance_zero, scalar] at first
  exact .inr ⟨copied.copy_lt, copied.lt, first⟩

/-- Where one element of the destination is written, the others stand as before, and so does the copy. -/
theorem Copied.after (copied : m.Copied base l among copy a) (separate : l.Separate) (inside : IsIndex l.ty.shape index)
    (others : ∀ other, among' other → among other ∧ IsIndex l.ty.shape other ∧ other ≠ index)
    (spares : m.Spares ((a.advance (displacement index l.strides)).Apart l.ty.elementSize) base m') :
    m'.Copied base l among' copy a where
  copy_lt := copied.copy_lt
  lt := copied.lt
  ne := copied.ne
  elements other member := by
    obtain ⟨listed, inside', differs⟩ := others other member
    obtain ⟨bytes, length, here, there⟩ := copied.elements other listed
    refine ⟨bytes, length, spares.kept copied.copy_lt (fun same => absurd same.symm copied.ne) here, ?_⟩
    refine spares.kept copied.lt (fun _ => ?_) there
    have apart := separate index other inside inside' (Ne.symm differs)
    rw [length]
    simp only [Addr.advance]
    omega

/-- Two addresses to read a source at: they are one, or those of a copy of the destination and of the destination. -/
def Twin (base : Nat) (m : Memory) (dst : Layout) (among : List Nat → Prop) (a : Addr) (p : Addr × Addr)
    (l : Layout) : Prop :=
  p.1 = p.2 ∨ l = dst ∧ p.2 = a ∧ m.Copied base dst among p.1 a

variable {dst : Layout} {p : Addr × Addr}

theorem Twin.mono (twin : m.Twin base dst among a p l) (weaker : ∀ index, among' index → among index) :
    m.Twin base dst among' a p l :=
  twin.imp_right fun ⟨copy, target, copied⟩ =>
    ⟨copy, target, copied.copy_lt, copied.lt, copied.ne, fun index member =>
      copied.elements index (weaker index member)⟩

theorem Twin.after (twin : m.Twin base dst among a p l) (separate : dst.Separate) (inside : IsIndex dst.ty.shape index)
    (others : ∀ other, among' other → among other ∧ IsIndex dst.ty.shape other ∧ other ≠ index)
    (spares : m.Spares ((a.advance (displacement index dst.strides)).Apart dst.ty.elementSize) base m') :
    m'.Twin base dst among' a p l :=
  twin.imp_right fun ⟨copy, target, copied⟩ => ⟨copy, target, copied.after separate inside others spares⟩

/-- A lift through all dimensions leaves to its child elements of a source, and of a copy of the destination just the
one that the child writes. -/
theorem Twin.element {s : LiftedSource dst.ty.shape.length} (twin : m.Twin base dst among a p s.layout)
    (concrete : dst.Concrete) (found : dst.inner? dst.ty.shape.length = some inner) (flat : inner.ty.shape = [])
    (srcConcrete : s.layout.Concrete) (behind : s.behind.ty.shape = []) (member : among index)
    (inside : IsIndex dst.ty.shape index) :
    m.Twin base inner (IsIndex inner.ty.shape) (a.advance (displacement index dst.strides))
      (p.1.advance (displacement (Broadcast.sourceIndex s.front.ty.shape index) s.front.strides),
        p.2.advance (displacement (Broadcast.sourceIndex s.front.ty.shape index) s.front.strides)) s.behind := by
  obtain same | ⟨copy, target, copied⟩ := twin
  · exact .inl (by rw [same])
  · have own : s.own = dst.ty.shape.length := by
      have none := congrArg List.length ((srcConcrete.of_inner? s.own_le_length s.inner?_eq).2.1.symm.trans behind)
      rw [List.length_drop, List.length_nil, copy] at none
      exact Nat.le_antisymm s.own_le (by omega)
    have element := s.inner?_eq
    rw [own, copy, found, Option.some.injEq] at element
    have here : displacement (Broadcast.sourceIndex s.front.ty.shape index) s.front.strides =
        displacement index dst.strides := by
      rw [LiftedSource.front, own, copy, Layout.shape_outer, List.take_length, Broadcast.sourceIndex_self inside,
        Layout.outer, ← concrete.fits, List.take_length]
    obtain ⟨-, -, -, size⟩ := concrete.of_inner? (Nat.le_refl _) found
    rw [here, target]
    exact .inr ⟨element.symm, rfl, copied.element member flat size⟩

end Memory

namespace Chain

/-- Wherever the chain stands, what it writes for a single element is that element, and it comes to the same
if a source that is a copy of the destination is the destination itself. -/
structure ReadsFirst (dst : Layout) (src : List Layout) (chain : List (Kernel × NodeData)) : Prop where
  takes : Takes chain src.length
  sparing : dst.ty.shape = [] → ∀ {g : CallGraph} {id base : Nat} {m : Memory} {a : Addr} {addresses : List Addr},
    g.Handed → g.Continues id chain → m.OwnScratch base → addresses.length = src.length →
    Run.Sparing (a.Apart dst.ty.elementSize) base m (g.settled.single id a addresses m)
  rereads : dst.Separate → ∀ {g : CallGraph} {id base : Nat} {m : Memory} {a : Addr} {reads : List (Addr × Addr)},
    g.Handed → g.Continues id chain → m.OwnScratch base →
    List.Forall₂ (fun p l => p.1 = p.2 ∨ l = dst ∧ p.2 = a ∧ m.Copied base dst (IsIndex dst.ty.shape) p.1 a) reads src →
    g.settled.single id a (reads.map (·.1)) m = g.settled.single id a (reads.map (·.2)) m

variable {dst : Layout} {src : List Layout} {chain : List (Kernel × NodeData)}

theorem readsFirst_ofLeaf {kernel : Kernel} {data : NodeData} {kinds : List (Kind × Kind)} {given want : Kind}
    (operands : kernel.operands? data = some (kinds.map (·.2), want))
    (sources : src.map (·.ty) = kinds.map fun p => .scalar p.1) (destination : dst.ty = .scalar given) :
    ReadsFirst dst src (ofLeaf (kernel, data,
      .between (kinds.map (·.1)) (kinds.map (·.2)) (some given) (some want))).toList where
  takes := by
    have length : src.length = (kinds.map (·.2)).length := by
      simpa using congrArg List.length sources
    exact takes_ofLeaf_of_reads? (length ▸ Kernel.reads?_of_operands? operands)
      (by simpa [ConvertPlan.between] using length.symm)
  sparing _ g id base m a addresses handed continues own _ := by
    refine CallGraph.sparing_ofLeaf handed.descends operands continues own (fun b length _ apart => ?_) addresses
    rwa [destination] at apart
  rereads _ g id base m a reads handed continues own copies := by
    refine CallGraph.settled_single_ofLeaf_interchanged handed.descends operands continues own ?_ a
    obtain ⟨length, each⟩ := List.forall₂_iff_get.mp copies
    have count : src.length = kinds.length := by simpa using congrArg List.length sources
    refine List.forall₂_iff_get.mpr ⟨length.trans count, fun i inside there => ?_⟩
    have type := congrArg (·[i]?) sources
    obtain same | ⟨copy, target, copied⟩ := each i inside (count ▸ there)
    · exact .inl same
    · simp only [List.get_eq_getElem] at copy target copied ⊢
      simp only [List.getElem?_map, List.getElem?_eq_getElem, count ▸ there, there, Option.map_some,
        Option.some.injEq, copy] at type
      rw [target]
      exact copied.here type

theorem readsFirst_permute {slots : List Int} (count : src.length = slots.countP (0 ≤ ·))
    (inside : ∀ slot ∈ slots, slot < src.length) (below : ReadsFirst dst (slots.map (Node.slotAt dst src)) chain) :
    ReadsFirst dst src ((.permute, .permutation slots) :: chain) where
  takes := by
    rw [count] at inside ⊢
    exact .permute inside (by simpa using below.takes)
  sparing flat g id base m a addresses handed continues own length := by
    have handedOn : Takes chain slots.length := by simpa using below.takes
    obtain ⟨found, ⟨child, there, -⟩, rest⟩ := continues.parent handedOn
    rw [CallGraph.settled_single_permute handed.descends found rfl rfl rfl there a (length ▸ inside)]
    exact below.sparing flat handed rest own (by simp)
  rereads separate g id base m a reads handed continues own copies := by
    have length := copies.length_eq
    have handedOn : Takes chain slots.length := by simpa using below.takes
    obtain ⟨found, ⟨child, there, -⟩, rest⟩ := continues.parent handedOn
    have permuted : ∀ side : Addr × Addr → Addr, side (a, a) = a →
        g.settled.single id a (reads.map side) =
          g.settled.single (id + 1) a ((slots.map (Node.slotAt (a, a) reads)).map side) := by
      intro side target
      rw [CallGraph.settled_single_permute handed.descends found rfl rfl rfl there a (by simpa [length] using inside),
        Callable.map_slots side (length ▸ inside), target]
    rw [permuted _ rfl, permuted _ rfl]
    exact below.rereads separate handed rest own (Callable.forall₂_slots (.inl rfl) copies inside)

/-- A reduction that starts from no identity, and folds a single element if that is the copy. -/
theorem readsFirst_reduce {acc : Kind} {l inner : Layout} (destination : dst.ty = .scalar acc)
    (concrete : l.Concrete) (found : l.inner? l.ty.shape.length = some inner) (below : ReadsFirst dst [inner] chain) :
    ReadsFirst dst [l] ((.fold, .fold none acc) ::
      (loopNodes (Callable.reductionLoops l) ++ chain)) where
  takes := .fold (takes_loops below.takes (Callable.length_srcStride_reductionLoops l))
  sparing flat g id base m a addresses handed continues own length := by
    obtain ⟨source, rfl⟩ := List.length_eq_one_iff.mp length
    have loops := takes_loops below.takes (Callable.length_srcStride_reductionLoops l)
    obtain ⟨fold, ⟨child, there, -⟩, nest⟩ := continues.parent loops
    have rest := nest.of_append
    rw [CallGraph.settled_single_fold handed fold rfl rfl rfl there nofun,
      CallGraph.settled_single_reductionLoops handed below.takes nest concrete.fits]
    rw [List.length_map, Callable.reductionLoops, List.length_map, List.length_zipIdx] at rest
    exact Run.sparing_forM own fun index _ m' own' => below.sparing flat handed rest own' rfl
  rereads separate g id base m a reads handed continues own copies := by
    obtain ⟨p, _, only, nothing, rfl⟩ := List.forall₂_cons_right_iff.mp copies
    obtain rfl := List.forall₂_nil_right_iff.mp nothing
    obtain same | ⟨rfl, target, copied⟩ := only
    · rw [List.map_singleton, List.map_singleton, same]
    · have point : l.ty.shape = [] := by rw [destination]; rfl
      rw [point, List.length_nil, Layout.inner?_zero, Option.some.injEq] at found
      subst found
      have noLoops : Callable.reductionLoops l = [] := by simp [Callable.reductionLoops, point]
      rw [noLoops] at continues
      obtain ⟨fold, ⟨child, there, -⟩, rest⟩ := continues.parent below.takes
      rw [CallGraph.settled_single_fold handed fold rfl rfl rfl there nofun,
        CallGraph.settled_single_fold handed fold rfl rfl rfl there nofun]
      exact below.rereads separate handed rest own copies

/-- The loops of a lift whose child takes elements. -/
theorem readsFirst_lift {inner : Layout} {outer : Nat} {sources : List (LiftedSource outer)} (concrete : dst.Concrete)
    (within : outer ≤ dst.ty.shape.length) (found : dst.inner? outer = some inner)
    (srcConcrete : ∀ s ∈ sources, s.layout.Concrete)
    (stretches : ∀ s ∈ sources, Broadcast.Stretches s.front.ty.shape (dst.ty.shape.take outer))
    (flat : inner.ty.shape = []) (flats : ∀ s ∈ sources, s.behind.ty.shape = [])
    (below : ReadsFirst inner (sources.map (·.behind)) chain) :
    ReadsFirst dst (sources.map (·.layout)) (loopNodes (Callable.loopsOver (dst.ty.shape.take outer) (dst.outer outer)
      (sources.map (·.front))) ++ chain) where
  takes := takes_loopsOver (by simpa using below.takes) (by simp) _ _
  sparing point g id base m a addresses handed continues own length := by
    have noLoops : Callable.loopsOver (dst.ty.shape.take outer) (dst.outer outer) (sources.map (·.front)) = [] := by
      simp [Callable.loopsOver, point]
    rw [noLoops] at continues
    obtain ⟨-, -, -, size⟩ := concrete.of_inner? within found
    rw [← size]
    exact below.sparing flat handed continues own (by simpa using length)
  rereads separate g id base m a reads handed continues own copies := by
    obtain ⟨views, rfl, rfl⟩ : ∃ views : List ((Addr × Addr) × LiftedSource outer), views.map (·.1) = reads ∧
        views.map (·.2) = sources :=
      exists_map_eq_of_forall₂ ((List.forall₂_map_right_iff.mp copies).imp fun p s _ => ⟨(p, s), rfl, rfl⟩)
    rw [List.map_map, List.forall₂_map_left_iff, List.forall₂_map_right_iff, List.forall₂_same] at copies
    rw [List.forall_mem_map] at srcConcrete stretches flats
    obtain ⟨-, shape, -, size⟩ := concrete.of_inner? within found
    obtain rfl : outer = dst.ty.shape.length := by
      have none := congrArg List.length (shape.symm.trans flat)
      rw [List.length_drop, List.length_nil] at none
      omega
    have nested : g.Continues id (loopNodes (Callable.loopsOver (dst.ty.shape.take dst.ty.shape.length)
        (dst.outer dst.ty.shape.length) (views.map fun v => v.2.front)) ++ chain) := by
      simpa [Function.comp_def] using continues
    have run (side : Addr × Addr → Addr) := CallGraph.settled_single_lifted handed views (fun v => side v.1) (·.2)
      (by simpa using below.takes) nested concrete.fits
      (fun v listed => ⟨(srcConcrete v listed).fits, stretches v listed⟩) a
    have rest := continues.of_loopsOver
    have strides : dst.strides.take dst.ty.shape.length = dst.strides :=
      List.take_of_length_le (Nat.le_of_eq concrete.fits)
    simp only [List.take_length, strides] at run rest
    simp only [List.map_map, Function.comp_def]
    rw [run Prod.fst, run Prod.snd]
    -- At the indices that are still to come nothing was written yet, and there the copy is one.
    refine Run.forM_apply_congr (fun ahead m => ahead.Nodup ∧ (∀ index ∈ ahead, IsIndex dst.ty.shape index) ∧
      m.OwnScratch base ∧ ∀ v ∈ views, m.Twin base dst (· ∈ ahead) a v.1 v.2.layout) ?_
      ⟨nodup_indices _, fun _ => isIndex_of_mem_reached, own, fun v listed =>
        Memory.Twin.mono (copies v listed) fun _ => isIndex_of_mem_reached⟩
    rintro index ahead m ⟨distinct, all, own, twins⟩
    obtain ⟨new, distinct⟩ := List.nodup_cons.mp distinct
    obtain ⟨inside, all⟩ := List.forall_mem_cons.mp all
    constructor
    · let moved (v : (Addr × Addr) × LiftedSource dst.ty.shape.length) : Addr × Addr :=
        (v.1.1.advance (displacement (Broadcast.sourceIndex v.2.front.ty.shape index) v.2.front.strides),
          v.1.2.advance (displacement (Broadcast.sourceIndex v.2.front.ty.shape index) v.2.front.strides))
      have elements : List.Forall₂ (m.Twin base inner (IsIndex inner.ty.shape)
          (a.advance (displacement index dst.strides))) (views.map moved) ((views.map (·.2)).map (·.behind)) := by
        rw [List.map_map, List.forall₂_map_left_iff, List.forall₂_map_right_iff, List.forall₂_same]
        exact fun v listed => (twins v listed).element concrete found flat (srcConcrete v listed) (flats v listed)
          List.mem_cons_self inside
      simpa only [List.map_map, Function.comp_def, moved] using
        below.rereads (Layout.separate_of_flat flat) handed rest own elements
    · intro m' ran
      have spares := below.sparing flat handed rest own (by simp) () m' ran
      rw [size] at spares
      refine ⟨distinct, all, spares.own, fun v listed =>
        (twins v listed).after separate inside (fun other member => ?_) spares⟩
      exact ⟨List.mem_cons_of_mem _ member, all other member, fun same => new (same ▸ member)⟩

theorem compositional_readsFirst : Compositional (fun _ => False) ReadsFirst where
  leaf := readsFirst_ofLeaf
  permute := readsFirst_permute
  lift concrete within found srcConcrete stretches flat flats below :=
    readsFirst_lift concrete within found srcConcrete stretches flat flats below
  reduce {_ _ _ identity _ _} destination concrete found seeds below := by
    cases identity with
    | none => exact readsFirst_reduce destination concrete found below
    | some s => exact (seeds s rfl).elim

end Chain

namespace Callable

/-- Every callable of typed leaves reads its sources first, if none of its reductions starts from an identity. -/
theorem Formed.readsFirst {c : Callable} {kwds : Keywords} {jump : OutlineJump} {dst : Layout} {src : List Layout}
    (typed : c.Formed Leaf.Typed fun _ => True) (unseeded : ∀ s, ¬c.SeededBy s) (concrete : dst.Concrete)
    (srcConcrete : ∀ l ∈ src, l.Concrete) :
    (c.outlineNode [] kwds jump dst src).Yields fun chain => Chain.ReadsFirst dst src chain.toList :=
  typed.yields Chain.compositional_readsFirst unseeded concrete srcConcrete

end Callable

end ArrayCall
