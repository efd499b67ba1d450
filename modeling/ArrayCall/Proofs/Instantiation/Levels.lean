import ArrayCall.Proofs.Execution.Loops
import ArrayCall.Proofs.Indices

/-!
# Levels of an array

A lift runs through the outer dimensions of its arguments and leaves the inner ones to its child. An index
of an array is one of the outer dimensions followed by one of the inner, so a predicate of all elements
(`Layout.Throughout`) holds of all elements behind each outer index (`Layout.Throughout.inner`). The loops
of any lift are those of a lift over the outer dimensions alone (`Callable.of_loopNest_eq_ok`).
-/

namespace ArrayCall

open Broadcast

namespace Layout

/-- A concrete type, and a stride for each of its dimensions. -/
structure Concrete (l : Layout) : Prop where
  isSymbolic_eq : l.ty.isSymbolic = false
  fits : l.Fits

/-- The outer `n` dimensions, in front of nothing. -/
def outer (l : Layout) (n : Nat) : Layout := ⟨.withShape (l.ty.shape.take n) .void, l.strides.take n⟩

/-- A predicate of addresses and numbers of bytes holds of every element, if the first one is at an address. -/
def Throughout (l : Layout) (P : Addr → Nat → Prop) (a : Addr) : Prop :=
  ∀ index, IsIndex l.ty.shape index → P (a.advance (displacement index l.strides)) l.ty.elementSize

variable {l behind : Layout} {n : Nat}

theorem shape_outer (l : Layout) (n : Nat) : (l.outer n).ty.shape = l.ty.shape.take n :=
  Ty.shape_withShape (.inl rfl)

theorem Fits.outer (fits : l.Fits) (n : Nat) : (l.outer n).Fits := by
  rw [Fits, shape_outer, Layout.outer, List.length_take, List.length_take, fits]

/-- What stands behind the outer dimensions. -/
theorem Concrete.of_inner? (concrete : l.Concrete) (within : n ≤ l.ty.shape.length) (found : l.inner? n = some behind) :
    behind.Concrete ∧ behind.ty.shape = l.ty.shape.drop n ∧ behind.strides = l.strides.drop n ∧
      behind.ty.elementSize = l.ty.elementSize := by
  obtain ⟨ty, strides⟩ := l
  obtain ⟨symbolic, fits⟩ := concrete
  obtain ⟨elem, element, same⟩ := Ty.exists_eq_withShape symbolic
  dsimp only at symbolic within same ⊢
  generalize ty.shape = shape at within same
  subst same
  rw [Ty.isSymbolic_withShape] at symbolic
  have shaped : (Ty.withShape shape elem).shape = shape := Ty.shape_withShape element
  rw [Fits, shaped] at fits
  rw [inner?, Ty.stripDims_withShape_of_le within] at found
  dsimp only at found fits
  rw [if_pos (fits ▸ within)] at found
  cases found
  have dropped : (Ty.withShape (shape.drop n) elem).shape = shape.drop n := Ty.shape_withShape element
  refine ⟨⟨by rwa [Ty.isSymbolic_withShape], ?_⟩, dropped, rfl, ?_⟩
  · rw [Fits, dropped, List.length_drop, List.length_drop, fits]
  · rw [Ty.elementSize_withShape_of_element element, Ty.elementSize_withShape_of_element element]

theorem stripDims_of_inner? (found : l.inner? n = some behind) : l.ty.stripDims n = some behind.ty := by
  rw [inner?] at found
  split at found
  next stripped =>
    split at found <;> cases found
    exact stripped
  next => cases found

theorem Concrete.exists_inner? (concrete : l.Concrete) (within : n ≤ l.ty.shape.length) :
    ∃ behind, l.inner? n = some behind := by
  obtain ⟨elem, -, same⟩ := Ty.exists_eq_withShape concrete.isSymbolic_eq
  have stripped : l.ty.stripDims n = some (.withShape (l.ty.shape.drop n) elem) := by
    have stripped := Ty.stripDims_withShape_of_le within elem
    rwa [← same] at stripped
  rw [inner?, stripped]
  exact ⟨_, if_pos (concrete.fits ▸ within)⟩

/-- Behind all dimensions of a concrete type stands one element. -/
theorem Concrete.inner?_eq_inside (concrete : l.Concrete) : l.inner? l.ty.shape.length = some l.inside := by
  rw [inner?, Ty.stripDims_shape concrete.isSymbolic_eq]
  dsimp only
  rw [← concrete.fits, if_pos (Nat.le_refl _), List.drop_length, inside]

/-- An index is one of the outer dimensions followed by one of what stands behind them, and so are its strides. -/
theorem Concrete.displacement_of_inner? (concrete : l.Concrete) (within : n ≤ l.ty.shape.length)
    (found : l.inner? n = some behind) {index index' : List Nat} (inside : IsIndex (l.ty.shape.take n) index)
    (inside' : IsIndex behind.ty.shape index') :
    IsIndex l.ty.shape (index ++ index') ∧ displacement (index ++ index') l.strides =
      displacement index (l.strides.take n) + displacement index' behind.strides := by
  obtain ⟨-, shape, strides, -⟩ := concrete.of_inner? within found
  rw [shape] at inside'
  have whole : IsIndex l.ty.shape (index ++ index') := by
    rw [← List.take_append_drop n l.ty.shape]
    exact List.rel_append inside inside'
  have length : index.length = (l.strides.take n).length := by
    rw [inside.length_eq, List.length_take, List.length_take, concrete.fits]
  have moved : displacement (index ++ index') (l.strides.take n ++ l.strides.drop n) = _ := displacement_append length
  rw [List.take_append_drop] at moved
  exact ⟨whole, by rw [moved, strides]⟩

/-- Behind an outer index stand the elements whose index begins with it. -/
theorem Throughout.inner {P : Addr → Nat → Prop} {a : Addr} (throughout : l.Throughout P a) (concrete : l.Concrete)
    (within : n ≤ l.ty.shape.length) (found : l.inner? n = some behind) {index : List Nat}
    (inside : IsIndex (l.ty.shape.take n) index) :
    behind.Throughout P (a.advance (displacement index (l.strides.take n))) := by
  intro index' inside'
  obtain ⟨whole, moved⟩ := concrete.displacement_of_inner? within found inside inside'
  have element := throughout _ whole
  rwa [moved, ← Addr.advance_advance, ← (concrete.of_inner? within found).2.2.2] at element

end Layout

/-! ## Loops of a lift -/

/-- Dimension by dimension, a shape is stretched if each size is one or that of the target. -/
theorem Broadcast.stretches_of_getElem? {shape target : List Nat} (length : shape.length ≤ target.length)
    (each : ∀ d < target.length, target.length - shape.length ≤ d →
      shape[d - (target.length - shape.length)]? = some 1 ∨ shape[d - (target.length - shape.length)]? = target[d]?) :
    Stretches shape target where
  length_le := length
  size_eq place := by
    rcases Nat.lt_or_ge place shape.length with own | missing
    · have size := each (target.length - 1 - place) (by omega) (by omega)
      rw [sizeAt_eq_getElem? own, sizeAt_eq_getElem? (own.trans_le length)]
      rw [show target.length - 1 - place - (target.length - shape.length) = shape.length - 1 - place by omega] at size
      rw [List.getElem?_eq_getElem (by omega), List.getElem?_eq_getElem (by omega)] at size ⊢
      exact size.imp Option.some.inj Option.some.inj
    · left
      rw [sizeAt, List.getElem?_eq_none (by simpa using missing), Option.getD_none]

/-- A source of a lift: its layout, how many of its dimensions are outer ones, and the layout behind them. -/
structure LiftedSource (outer : Nat) where
  layout : Layout
  own : Nat
  behind : Layout
  own_le_length : own ≤ layout.ty.shape.length
  own_le : own ≤ outer
  inner?_eq : layout.inner? own = some behind

/-- The outer dimensions of a source. -/
def LiftedSource.front {outer : Nat} (s : LiftedSource outer) : Layout := s.layout.outer s.own

theorem LiftedSource.shape_front {outer : Nat} (s : LiftedSource outer) :
    s.front.ty.shape = s.layout.ty.shape.take s.own :=
  s.layout.shape_outer s.own

namespace Callable

variable {c child : Callable} {dst : Layout} {src : List Layout}

/-- The stride that is chosen in a loop is that of the outer dimensions, stretched to the shape of the loops. -/
theorem of_loopStride_eq_ok {shape : List Nat} {outer d index own : Nat} {l : Layout} {stride : Int}
    (rank : shape.length = outer) (inside : d < shape.length) (shallow : own ≤ outer)
    (within : own ≤ l.ty.shape.length) (chosen : c.loopStride outer d shape[d] index own l = .ok stride) :
    stride = (l.outer own).stretchedStride shape d ∧ (shape.length - (l.outer own).ty.shape.length ≤ d →
      (l.outer own).ty.shape[d - (shape.length - (l.outer own).ty.shape.length)]? = some 1 ∨
        (l.outer own).ty.shape[d - (shape.length - (l.outer own).ty.shape.length)]? = shape[d]?) := by
  subst rank
  have length : (l.outer own).ty.shape.length = own := by
    rw [l.shape_outer, List.length_take, Nat.min_eq_left within]
  rw [loopStride] at chosen
  dsimp only at chosen
  rw [Layout.stretchedStride, length]
  split at chosen
  next missing =>
    cases chosen
    exact ⟨(if_pos missing).symm, fun own => absurd missing (Nat.not_lt_of_ge own)⟩
  next there =>
    have below : d - (shape.length - own) < own := by omega
    have bound : d - (shape.length - own) < l.ty.shape.length := by omega
    have size : (l.outer own).ty.shape[d - (shape.length - own)]? = some l.ty.shape[d - (shape.length - own)] := by
      rw [l.shape_outer, List.getElem?_take_of_lt below, List.getElem?_eq_getElem]
    rw [if_neg there, size, List.getElem?_eq_getElem inside]
    rw [List.getElem?_eq_getElem bound, Option.getD_some] at chosen
    split at chosen
    next same =>
      cases chosen
      have moves : (l.outer own).strides[d - (shape.length - own)]? = l.strides[d - (shape.length - own)]? :=
        List.getElem?_take_of_lt below
      exact ⟨by rw [if_pos (congrArg some same), moves], fun _ => .inr (congrArg some same)⟩
    next differs =>
      split at chosen
      next one =>
        cases chosen
        exact ⟨(if_neg fun same => differs (Option.some.inj same)).symm, fun _ => .inl (congrArg some one)⟩
      next => cases chosen

theorem of_liftSource_eq_ok {outer index : Nat} {l : Layout} {param : Ty} {part : Nat × Layout}
    (split : c.liftSource outer index l param = .ok part) :
    ∃ s : LiftedSource outer, s.layout = l ∧ (s.own, s.behind) = part := by
  simp only [liftSource] at split
  split at split
  next => cases split
  next fits =>
    rw [not_or] at fits
    split at split
    next behind found =>
      cases split
      exact ⟨⟨l, _, behind, Nat.sub_le _ _, Nat.le_of_not_lt fits.2, found⟩, rfl, rfl⟩
    next => cases split

theorem map_fst_zipIdx_zip {α β : Type} {l : List α} {l' : List β} (length : l.length ≤ l'.length) :
    (l.zip l').zipIdx.map (fun x => x.1.1) = l := by
  have zipped : (l.zip l').map Prod.fst = l := List.map_fst_zip length
  rw [← List.zipIdx_map_fst 0 (l.zip l'), List.map_map] at zipped
  exact zipped

/-- The sources of a lift, of which the plan has what is outside and what is inside. -/
theorem of_liftPlan_eq_ok {plan : LiftPlan} (arity : src.length = child.arity)
    (planned : c.liftPlan child dst src = .ok plan) :
    plan.outer ≤ dst.ty.shape.length ∧ dst.inner? plan.outer = some plan.dst ∧
      ∃ sources : List (LiftedSource plan.outer), src = sources.map (·.layout) ∧ plan.own = sources.map (·.own) ∧
        plan.src = sources.map (·.behind) := by
  simp only [liftPlan] at planned
  split at planned
  · cases planned
  have within := Nat.sub_le dst.ty.shape.length child.signature.ret.ownDims
  generalize dst.ty.shape.length - child.signature.ret.ownDims = outer at within planned
  obtain ⟨parts, split, planned⟩ := bind_eq_ok_iff.mp planned
  have each : List.Forall₂ (fun l part => ∃ s : LiftedSource outer, s.layout = l ∧ (s.own, s.behind) = part) src
    parts := by
    rw [← map_fst_zipIdx_zip (Nat.le_of_eq arity), List.forall₂_map_left_iff]
    exact (mapM_eq_ok_iff.mp split).imp fun _ _ split => of_liftSource_eq_ok split
  obtain ⟨sources, layouts, rfl⟩ := exists_map_eq_of_forall₂ each
  split at planned
  next inner found =>
    cases planned
    exact ⟨within, found, sources, layouts.symm, List.map_map, List.map_map⟩
  next => cases planned

/-- In each loop every source has the stride of its outer dimensions, and a size that stretches. -/
theorem of_loopLevel_eq_ok {shape : List Nat} {outer d : Nat} {sources : List (LiftedSource outer)} {strides : List Int}
    (rank : shape.length = outer) (inside : d < shape.length)
    (level : ((sources.map (·.own)).zip (sources.map (·.layout))).zipIdx.mapM
      (fun p => c.loopStride outer d shape[d] p.2 p.1.1 p.1.2) = .ok strides) :
    strides = sources.map (·.front.stretchedStride shape d) ∧
      ∀ s ∈ sources, shape.length - s.front.ty.shape.length ≤ d →
        s.front.ty.shape[d - (shape.length - s.front.ty.shape.length)]? = some 1 ∨
          s.front.ty.shape[d - (shape.length - s.front.ty.shape.length)]? = shape[d]? := by
  obtain ⟨count, chosen⟩ := List.forall₂_iff_get.mp (mapM_eq_ok_iff.mp level)
  simp only [List.length_zipIdx, List.length_zip, List.length_map, Nat.min_self] at count
  have stride : ∀ (i : Nat) (there : i < sources.length) (here : i < strides.length),
      c.loopStride outer d shape[d] i sources[i].own sources[i].layout = .ok strides[i] := by
    intro i there here
    simpa using chosen i (by simpa using there) here
  constructor
  · refine List.ext_getElem (by rw [List.length_map, count]) fun i here there => ?_
    rw [List.getElem_map]
    rw [List.length_map] at there
    exact (of_loopStride_eq_ok rank inside sources[i].own_le sources[i].own_le_length (stride i there here)).1
  · intro s member
    obtain ⟨i, there, rfl⟩ := List.getElem_of_mem member
    exact (of_loopStride_eq_ok rank inside sources[i].own_le sources[i].own_le_length
      (stride i there (count ▸ there))).2

/-- The loops of a lift are those over its outer dimensions, to which the sources are stretched. -/
theorem of_loopNest_eq_ok {outer : Nat} {sources : List (LiftedSource outer)} {loops : List DimLoop}
    (within : outer ≤ dst.ty.shape.length)
    (nested : c.loopNest outer (sources.map (·.own)) dst (sources.map (·.layout)) = .ok loops) :
    loops = loopsOver (dst.ty.shape.take outer) (dst.outer outer) (sources.map (·.front)) ∧
      ∀ s ∈ sources, Stretches s.front.ty.shape (dst.ty.shape.take outer) := by
  have rank : (dst.ty.shape.take outer).length = outer := by rw [List.length_take, Nat.min_eq_left within]
  obtain ⟨count, levels⟩ := List.forall₂_iff_get.mp (mapM_eq_ok_iff.mp nested)
  generalize dst.ty.shape.take outer = shape at count levels rank ⊢
  rw [List.length_zipIdx] at count
  have level : ∀ (d : Nat) (inside : d < shape.length) (there : d < loops.length), ∃ strides,
      ((sources.map (·.own)).zip (sources.map (·.layout))).zipIdx.mapM
        (fun p => c.loopStride outer d shape[d] p.2 p.1.1 p.1.2) = .ok strides ∧
        ⟨shape[d], dst.strides[d]?.getD 0, strides, d + 1 = outer⟩ = loops[d] := by
    intro d inside there
    have level := levels d (by rwa [List.length_zipIdx]) there
    simp only [List.get_eq_getElem, List.getElem_zipIdx, Nat.zero_add] at level
    obtain ⟨strides, chosen, same⟩ := bind_eq_ok_iff.mp level
    exact ⟨strides, chosen, Except.ok.inj same⟩
  constructor
  · refine List.ext_getElem (by simp [loopsOver, count]) fun d there _ => ?_
    obtain ⟨strides, chosen, same⟩ := level d (count ▸ there) there
    obtain ⟨rfl, -⟩ := of_loopLevel_eq_ok rank (count ▸ there) chosen
    have moves : (dst.outer outer).strides[d]? = dst.strides[d]? := List.getElem?_take_of_lt (by omega)
    simp only [← same, loopsOver, List.getElem_map, List.getElem_zipIdx, Nat.zero_add, moves, rank, List.map_map]
    rfl
  · intro s member
    refine stretches_of_getElem? ?_ fun d inside own => ?_
    · rw [s.shape_front, List.length_take, rank]
      exact (Nat.min_le_left _ _).trans s.own_le
    · obtain ⟨strides, chosen, -⟩ := level d inside (count ▸ inside)
      exact (of_loopLevel_eq_ok rank inside chosen).2 s member own

end Callable

/-- The loops of a lift run what stands below them once for each outer index that they get to. There a source is read
where its own outer dimensions have the index that it is stretched to. -/
theorem CallGraph.settled_single_lifted {g : CallGraph} (handed : g.Handed) {outer : Nat} {dst : Layout} {ι : Type}
    (views : List ι) (address : ι → Addr) (source : ι → LiftedSource outer) {chain : List (Kernel × NodeData)}
    (takes : Chain.Takes chain views.length) {id : Nat}
    (continues : g.Continues id (loopNodes (Callable.loopsOver (dst.ty.shape.take outer) (dst.outer outer)
      (views.map fun v => (source v).front)) ++ chain)) (fits : dst.Fits)
    (sources : ∀ v ∈ views, (source v).layout.Fits ∧
      Stretches (source v).front.ty.shape (dst.ty.shape.take outer)) (a : Addr) :
    g.settled.single id a (views.map address) =
      forM (indices (Chain.reached chain (dst.ty.shape.take outer))) fun index =>
      g.settled.single (id + (dst.ty.shape.take outer).length)
        (a.advance (Layout.displacement index (dst.strides.take outer)))
        (views.map fun v => (address v).advance
          (Layout.displacement (sourceIndex (source v).front.ty.shape index) (source v).front.strides)) := by
  have strides : (dst.outer outer).strides.length = (dst.ty.shape.take outer).length :=
    (fits.outer outer).trans (congrArg List.length (dst.shape_outer outer))
  have fronts : ∀ s ∈ views.map fun v => (address v, (source v).front), s.2.Fits ∧
      Stretches s.2.ty.shape (dst.ty.shape.take outer) := by
    rw [List.forall_mem_map]
    exact fun v listed => ⟨(sources v listed).1.outer _, (sources v listed).2⟩
  have handedOn : Chain.Takes chain (views.map fun v => (address v, (source v).front)).length := by simpa using takes
  have run := settled_single_loopsOver handed handedOn (by simpa [Function.comp_def] using continues) strides fronts a
  simp only [List.map_map, Function.comp_def] at run
  exact run

/-- The loops of a lift take as many sources as what stands below them. -/
theorem Chain.takes_loopsOver {chain : List (Kernel × NodeData)} {count : Nat} (takes : Takes chain count)
    {src : List Layout} (length : src.length = count) (shape : List Nat) (dst : Layout) :
    Takes (loopNodes (Callable.loopsOver shape dst src) ++ chain) count := by
  refine takes_loops takes fun l member => ?_
  obtain ⟨level, -, rfl⟩ := List.mem_map.mp member
  rw [List.length_map, length]

/-- What stands below the loops of a lift. -/
theorem CallGraph.Continues.of_loopsOver {g : CallGraph} {shape : List Nat} {dst : Layout} {src : List Layout}
    {id : Nat} {chain : List (Kernel × NodeData)}
    (continues : g.Continues id (loopNodes (Callable.loopsOver shape dst src) ++ chain)) :
    g.Continues (id + shape.length) chain := by
  have rest := continues.of_append
  rwa [List.length_map, Callable.loopsOver, List.length_map, List.length_zipIdx] at rest

end ArrayCall
