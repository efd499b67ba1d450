import ArrayCall.Proofs.Calls.LiftedPermutations
import ArrayCall.Proofs.Execution.Stores

/-!
# What instantiated chains compute

A chain of a callable without reductions gives each element of its destination a value, made of the elements of its
sources. `Chain.Computes` says that a run of the chain stores these values, whatever stands at the destination, with
one lemma for each kind of node.
-/

namespace ArrayCall

open Broadcast

/-- The bytes of the elements of an array, by their indices. -/
abbrev Content := List Nat → Bytes

/-- What the elements of a result are, by their indices, for given sources; it is an error where an operation has no
result. -/
abbrev Valuation := List Content → List Nat → Except ExecutionFault Bytes

/-- A source of a run: where its first element is, its layout, and what its elements are. -/
structure SourceView where
  address : Addr
  layout : Layout
  content : Content

/-- The elements of a source stand in a region of the call that the destination is not in. -/
structure SourceView.Stands (base : Nat) (m : Memory) (dst : Addr) (v : SourceView) : Prop where
  inside : v.address.region < base
  ne : v.address.region ≠ dst.region
  elements : ∀ index, IsIndex v.layout.ty.shape index →
    (v.content index).length = v.layout.ty.elementSize ∧
      m.Holds (v.address.advance (Layout.displacement index v.layout.strides)) (v.content index)

/-- A source that is one element has it at its address. -/
theorem SourceView.Stands.here {base : Nat} {m : Memory} {dst : Addr} {v : SourceView} {k : Kind}
    (stands : v.Stands base m dst) (scalar : v.layout.ty = .scalar k) :
    (v.content []).length = k.size ∧ m.Holds v.address (v.content []) := by
  have element := stands.elements [] (by rw [scalar]; exact .nil)
  rwa [Layout.displacement_nil, Addr.advance_zero, scalar] at element

/-- The elements of a destination can be written, and those of the sources stand elsewhere. -/
structure Memory.Offers (m : Memory) (base : Nat) (dst : Layout) (a : Addr) (views : List SourceView) : Prop where
  own : m.OwnScratch base
  inside : a.region < base
  writable : dst.Throughout m.Writable a
  stands : ∀ v ∈ views, v.Stands base m a

/-- Stores into the destination leave it so. -/
theorem Memory.Offers.after {m m' : Memory} {base : Nat} {dst : Layout} {a : Addr} {views : List SourceView}
    (offers : m.Offers base dst a views) {stores : List (Addr × Bytes)} (here : ∀ s ∈ stores, s.1.region = a.region)
    (own : m'.OwnScratch base) (same : (m.putAll stores).SameBelow base m') : m'.Offers base dst a views where
  own := own
  inside := offers.inside
  writable index inside := ((offers.writable index inside).putAll stores).congr (same _ offers.inside)
  stands v member := by
    have stands := offers.stands v member
    have kept : m'.regions[v.address.region]? = m.regions[v.address.region]? :=
      (same _ stands.inside).trans (getElem?_putAll_of_ne fun s listed => (here s listed).symm ▸ stands.ne.symm)
    exact ⟨stands.inside, stands.ne, fun index inside =>
      ⟨(stands.elements index inside).1, (stands.elements index inside).2.congr kept⟩⟩

/-- The stores that give each element of a destination its value. -/
def Layout.stores (l : Layout) (a : Addr) (value : List Nat → Except ExecutionFault Bytes) :
    List (Addr × Except ExecutionFault Bytes) :=
  (indices l.ty.shape).map fun index => (a.advance (displacement index l.strides), value index)

/-- What a lift leaves of a source to its child at an index of the result: the one element that stands at the index
that the source is stretched to. -/
def contentAt (index shape : List Nat) (content : Content) : Content := fun _ => content (sourceIndex shape index)

/-- The one element of a source that a lift leaves to its child at an index of the result. -/
def SourceView.element (v : SourceView) (index : List Nat) : SourceView :=
  ⟨v.address.advance (Layout.displacement (sourceIndex v.layout.ty.shape index) v.layout.strides), v.layout.inside,
    contentAt index v.layout.ty.shape v.content⟩

theorem Layout.Concrete.shape_inside {l : Layout} (concrete : l.Concrete) : l.inside.ty.shape = [] :=
  Layout.shape_of_inner? concrete.inner?_eq_inside

theorem Layout.Concrete.elementSize_inside {l : Layout} (concrete : l.Concrete) :
    l.inside.ty.elementSize = l.ty.elementSize :=
  (concrete.of_inner? (Nat.le_refl _) concrete.inner?_eq_inside).2.2.2

/-- At each index there is an element for the child. -/
theorem Memory.Offers.element {m : Memory} {base : Nat} {dst : Layout} {a : Addr} {views : List SourceView}
    {index : List Nat} (offers : m.Offers base dst a views) (concrete : dst.Concrete)
    (inside : IsIndex dst.ty.shape index)
    (sources : ∀ v ∈ views, v.layout.Concrete ∧ Stretches v.layout.ty.shape dst.ty.shape) :
    m.Offers base dst.inside (a.advance (Layout.displacement index dst.strides)) (views.map (·.element index)) where
  own := offers.own
  inside := offers.inside
  writable index' inside' := by
    rw [concrete.shape_inside] at inside'
    obtain rfl := List.forall₂_nil_right_iff.mp inside'
    rw [Layout.displacement_nil, Addr.advance_zero, concrete.elementSize_inside]
    exact offers.writable index inside
  stands := by
    intro e member
    obtain ⟨v, listed, rfl⟩ := List.mem_map.mp member
    have stands := offers.stands v listed
    obtain ⟨srcConcrete, stretches⟩ := sources v listed
    refine ⟨stands.inside, stands.ne, fun index' inside' => ?_⟩
    simp only [SourceView.element] at inside' ⊢
    rw [srcConcrete.shape_inside] at inside'
    obtain rfl := List.forall₂_nil_right_iff.mp inside'
    rw [Layout.displacement_nil, Addr.advance_zero, srcConcrete.elementSize_inside]
    exact stands.elements _ (isIndex_sourceIndex stretches inside)

theorem Layout.stores_of_flat {l : Layout} (flat : l.ty.shape = []) (a : Addr)
    (value : List Nat → Except ExecutionFault Bytes) : l.stores a value = [(a, value [])] := by
  rw [stores, flat, indices, List.map_singleton, displacement_nil, Addr.advance_zero]

namespace Chain

/-- A run of a chain stores the values that a valuation gives, each as long as an element of the destination, if loops
get to all elements of the destination. -/
structure Computes (value : Valuation) (dst : Layout) (src : List Layout) (chain : List (Kernel × NodeData)) :
    Prop where
  takes : Takes chain src.length
  length_eq : ∀ {contents : List Content} {index : List Nat} {bytes : Bytes}, value contents index = .ok bytes →
    bytes.length = dst.ty.elementSize
  performs : ∀ {g : CallGraph} {id base : Nat} {m : Memory} {a : Addr} {views : List SourceView}, g.Handed →
    g.Continues id chain → views.map (·.layout) = src → m.Offers base dst a views → Layout.Traversable dst.ty.shape →
    Run.Performs base (dst.stores a (value (views.map (·.content)))) m
      (g.settled.single id a (views.map (·.address)) m)

variable {dst : Layout} {src : List Layout} {chain : List (Kernel × NodeData)}

/-- What a leaf makes of sources of given kinds, the first of each pair, that its kernel takes in other kinds, the
second of each pair. -/
def leafValue (kernel : Kernel) (data : NodeData) (kinds : List (Kind × Kind)) : Valuation := fun contents _ =>
  kernel.compute data (List.zipWith (fun p content => p.1.convert p.2 (content [])) kinds contents)

theorem computes_ofLeaf {kernel : Kernel} {data : NodeData} {kinds : List (Kind × Kind)} {given want : Kind}
    (operands : kernel.operands? data = some (kinds.map (·.2), want))
    (sources : src.map (·.ty) = kinds.map fun p => .scalar p.1) (destination : dst.ty = .scalar given) :
    Computes (fun contents index => (leafValue kernel data kinds contents index).map (want.convert given)) dst src
      (ofLeaf (kernel, data, .between (kinds.map (·.1)) (kinds.map (·.2)) (some given) (some want))).toList where
  takes := by
    have length : src.length = (kinds.map (·.2)).length := by
      simpa using congrArg List.length sources
    exact takes_ofLeaf_of_reads? (length ▸ Kernel.reads?_of_operands? operands)
      (by simpa [ConvertPlan.between] using length.symm)
  length_eq := by
    intro contents index bytes computed
    obtain ⟨result, value, rfl⟩ := map_eq_ok_iff.mp computed
    rw [Kind.length_convert (Kernel.length_of_compute operands value), destination]
    exact (Ty.elementSize_withShape [] given).symm
  performs := by
    intro g id base m a views handed continues layouts offers _
    obtain ⟨pairs, rfl, rfl⟩ : ∃ pairs : List { c : SourceView × (Kind × Kind) // c.1.layout.ty = .scalar c.2.1 },
        pairs.map (·.1.1) = views ∧ pairs.map (·.1.2) = kinds := by
      rw [← layouts, List.map_map] at sources
      refine exists_map_eq_of_forall₂ ?_
      have same : List.Forall₂ Eq (views.map fun v => v.layout.ty) (kinds.map fun p => .scalar p.1) := by
        rw [List.forall₂_eq_eq_eq]
        exact sources
      rw [List.forall₂_map_left_iff, List.forall₂_map_right_iff] at same
      exact same.imp fun v p type => ⟨⟨(v, p), type⟩, rfl, rfl⟩
    obtain ⟨elements, same⟩ : ∃ elements : List SourceElement,
        elements = pairs.map fun c => ⟨c.1.1.address, c.1.2.1, c.1.2.2, c.1.1.content []⟩ := ⟨_, rfl⟩
    have held : ∀ e ∈ elements, e.Held base m := by
      rw [same, List.forall_mem_map]
      intro c listed
      have stands := offers.stands _ (List.mem_map_of_mem listed)
      exact ⟨stands.inside, (stands.here c.2).1, (stands.here c.2).2⟩
    have takes : kernel.operands? data = some (elements.map (·.want), want) := by
      simpa [same, Function.comp_def] using operands
    have written : g.Continues id (ofLeaf (kernel, data, .between (elements.map (·.given)) (elements.map (·.want))
        (some given) (some want))).toList := by
      simpa [same, Function.comp_def] using continues
    have performs := CallGraph.performs_ofLeaf handed takes written offers.own held offers.inside
      (offers.writable.here destination)
    rw [Layout.stores_of_flat (by rw [destination]; rfl)]
    simpa [same, leafValue, Function.comp_def, List.zipWith_map, List.zipWith_self] using performs

/-- A permutation hands its sources on, in the order of its slots. -/
theorem computes_permute {slots : List Int} {value : Valuation} (count : src.length = slots.countP (0 ≤ ·))
    (inside : ∀ slot ∈ slots, slot < src.length) (sources : ∀ slot ∈ slots, 0 ≤ slot)
    (below : Computes value dst (Callable.arranged slots src) chain) :
    Computes (fun contents => value (Callable.arranged slots contents)) dst src
      ((.permute, .permutation slots) :: chain) where
  takes := by
    have takes := below.takes
    rw [Callable.arranged_eq dst sources inside, List.length_map] at takes
    rw [count] at inside ⊢
    exact .permute inside takes
  length_eq := below.length_eq
  performs := by
    intro g id base m a views handed continues layouts offers traversable
    have length : views.length = src.length := by rw [← layouts, List.length_map]
    have handedOn := below.takes
    rw [Callable.arranged_eq dst sources inside, List.length_map] at handedOn
    obtain ⟨found, ⟨child, there, -⟩, rest⟩ := continues.parent handedOn
    have given : ∀ slot ∈ slots, slot < (views.map (·.address)).length := by
      rw [List.length_map, length]
      exact inside
    rw [CallGraph.settled_single_permute handed.descends found rfl rfl rfl there a given,
      ← Callable.arranged_eq a sources given, ← Callable.arranged_map, ← Callable.arranged_map]
    refine below.performs handed rest (by rw [Callable.arranged_map, layouts]) ?_ traversable
    exact ⟨offers.own, offers.inside, offers.writable, Callable.forall_mem_arranged offers.stands⟩

/-- What a lift makes of sources of given shapes: at each index what its child makes of single elements. -/
def liftedValue (value : Valuation) (shapes : List (List Nat)) : Valuation := fun contents index =>
  value (List.zipWith (contentAt index) shapes contents) []

/-- A lift leaves to its child the elements at each index of its destination. -/
theorem computes_lift {value : Valuation} (concrete : dst.Concrete) (srcConcrete : ∀ l ∈ src, l.Concrete)
    (stretches : ∀ l ∈ src, Stretches l.ty.shape dst.ty.shape)
    (below : Computes value dst.inside (src.map Layout.inside) chain) :
    Computes (liftedValue value (src.map (·.ty.shape))) dst src
      (loopNodes (Callable.loopsOver dst.ty.shape dst src) ++ chain) where
  takes := takes_loopsOver (by simpa using below.takes) rfl _ _
  length_eq computed := (below.length_eq computed).trans concrete.elementSize_inside
  performs := by
    intro g id base m a views handed continues layouts offers traversable
    subst layouts
    have fits : ∀ s ∈ views.map fun v => (v.address, v.layout), s.2.Fits ∧ Stretches s.2.ty.shape dst.ty.shape := by
      intro s member
      obtain ⟨v, listed, rfl⟩ := List.mem_map.mp member
      exact ⟨(srcConcrete _ (List.mem_map_of_mem listed)).fits, stretches _ (List.mem_map_of_mem listed)⟩
    have rest := continues.of_loopsOver
    have takes : Takes chain (views.map fun v => (v.address, v.layout)).length := by simpa using below.takes
    have nested : g.Continues id (loopNodes (Callable.loopsOver dst.ty.shape dst
        ((views.map fun v => (v.address, v.layout)).map (·.2))) ++ chain) := by
      simpa [Function.comp_def] using continues
    have run := CallGraph.settled_single_loopsOver handed takes nested concrete.fits fits a
    simp only [List.map_map, Function.comp_def] at run
    rw [run, indices_reached chain traversable, Layout.stores, List.map_eq_flatMap]
    refine Run.performs_forM (·.Offers base dst a views) (fun _ offers => offers.own) (fun index member m' offers => ?_)
      (fun index _ m₁ m₂ stores offers all own same => offers.after (fun s listed => ?_) own same) offers
    · have inside := mem_indices_iff.mp member
      have point : Layout.Traversable dst.inside.ty.shape := concrete.shape_inside ▸ Layout.traversable_nil
      have performs := below.performs handed rest (by simp [Function.comp_def, SourceView.element])
        (offers.element concrete inside fun v listed =>
          ⟨srcConcrete _ (List.mem_map_of_mem listed), stretches _ (List.mem_map_of_mem listed)⟩) point
      rw [Layout.stores_of_flat concrete.shape_inside] at performs
      simpa [liftedValue, SourceView.element, Function.comp_def, List.zipWith_map, List.zipWith_self] using performs
    · have stored := List.mem_map_of_mem
        (f := fun s : Addr × Bytes => (s.1, (.ok s.2 : Except ExecutionFault Bytes))) listed
      rw [← all, List.mem_singleton] at stored
      rw [congrArg Prod.fst stored]
      rfl

end Chain

end ArrayCall
