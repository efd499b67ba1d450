import ArrayCall.Proofs.Calls.Layouts
import ArrayCall.Proofs.Instantiation.Destinations
import ArrayCall.Proofs.Instantiation.ReadingFirst

/-!
# Writing into a destination

Passing an array to write into is converting what the call gives without it: the elements of the array become those
of that result, converted to its kind, and nothing else of its buffer changes.

* `Layout.stored_of_performs`: what stands in memory after a run that stores a value for each element.
* `Callable.execute_of_computes`: the run of a call.
* `Callable.call_into_destination`: the call.
-/

namespace ArrayCall

open Layout (displacement)

/-! ## Arrays that are written into -/

namespace NdArray

/-- A byte of the buffer is one of an element. -/
def Covers (a : NdArray) (p : Nat) : Prop :=
  ∃ index, IsIndex a.shape index ∧ a.place index ≤ p ∧ p < a.place index + a.ty.elementSize

/-- An array after its elements were written: the same view of a buffer of the same length, in which no byte outside
the elements has changed. -/
structure Refilled (a b : NdArray) : Prop where
  ty_eq : b.ty = a.ty
  offset_eq : b.offset = a.offset
  strides_eq : b.strides = a.strides
  size_eq : b.data.size = a.data.size
  kept : ∀ p, ¬a.Covers p → b.data.toList[p]? = a.data.toList[p]?

/-- The bytes of the element at an index. -/
def bytesAt (a : NdArray) : Content := fun index => a.data.slice (a.place index).toNat a.ty.elementSize

theorem Refilled.wellFormed {a b : NdArray} (refilled : a.Refilled b) (wellFormed : a.WellFormed) : b.WellFormed := by
  obtain ⟨ty, data, offset, strides⟩ := b
  obtain ⟨rfl, rfl, rfl, size, -⟩ := refilled
  exact ⟨wellFormed.concrete, wellFormed.fits, fun index inside => size ▸ wellFormed.inside index inside⟩

end NdArray

/-! ## Separate elements -/

/-- Elements side by side have no byte in common. -/
theorem Layout.separate_compact (t : Ty) : (Layout.compact t).Separate := by
  intro index index' inside inside' differs
  obtain ⟨q, found⟩ := List.mem_iff_getElem?.mp (mem_indices_iff.mpr inside)
  obtain ⟨q', found'⟩ := List.mem_iff_getElem?.mp (mem_indices_iff.mpr inside')
  simp only [Layout.compact] at found found' ⊢
  rw [displacement_of_getElem?_indices _ found, displacement_of_getElem?_indices _ found']
  rcases Nat.lt_trichotomy q q' with before | rfl | behind
  · have later := Nat.mul_le_mul_left t.elementSize before
    rw [Nat.mul_succ] at later
    omega
  · exact absurd (Option.some.inj (found.symm.trans found')) differs
  · have later := Nat.mul_le_mul_left t.elementSize behind
    rw [Nat.mul_succ] at later
    omega

theorem NdArray.separate_of_zeros_eq_ok {t : Ty} {a : NdArray} (made : NdArray.zeros t = .ok a) :
    a.layout.Separate := by
  obtain ⟨-, room, strides, span, accumulated, rfl⟩ := NdArray.of_zeros_eq_ok made
  by_cases empty : 0 ∈ t.shape
  · exact fun index _ inside => absurd empty (NdArray.full_of_isIndex inside)
  · rw [Layout.accumulate_eq (Layout.allocatable_of_le_most empty room)] at accumulated
    cases accumulated
    exact Layout.separate_compact t

theorem Layout.Separate.pairwise_apart {l : Layout} (separate : l.Separate) (a : Addr) {bytes : List Nat → Bytes}
    (lengths : ∀ index, IsIndex l.ty.shape index → (bytes index).length = l.ty.elementSize) :
    ((indices l.ty.shape).map fun index => (a.advance (displacement index l.strides), bytes index)).Pairwise
      fun s t => t.1.Apart t.2.length s.1 s.2.length := by
  rw [List.pairwise_map]
  refine (nodup_indices l.ty.shape).imp_of_mem fun {index index'} member member' differs _ => ?_
  have inside := mem_indices_iff.mp member
  have inside' := mem_indices_iff.mp member'
  simp only [Addr.advance, lengths _ inside, lengths _ inside']
  rcases separate index index' inside inside' differs with before | behind <;> omega

/-- What stands in memory after a run that stores a value for each element: these values, and what it holds of other
bytes. -/
theorem Layout.stored_of_performs {l : Layout} {a : Addr} {base : Nat} {m m' : Memory}
    {value : List Nat → Except ExecutionFault Bytes} (separate : l.Separate) (inside : a.region < base)
    (writable : l.Throughout m.Writable a)
    (lengths : ∀ {index bytes}, value index = .ok bytes → bytes.length = l.ty.elementSize)
    (performs : Run.Performs base (l.stores a value) m (.ok (), m')) :
    ∃ bytes : List Nat → Bytes,
      (∀ index, IsIndex l.ty.shape index → value index = .ok (bytes index) ∧
        m'.Holds (a.advance (displacement index l.strides)) (bytes index)) ∧
      (∀ (b : Addr) (kept : Bytes), b.region < base → m.Holds b kept →
        (∀ index, IsIndex l.ty.shape index →
          (a.advance (displacement index l.strides)).Apart l.ty.elementSize b kept.length) → m'.Holds b kept) ∧
      m'.regions[a.region]?.map (·.bytes.size) = m.regions[a.region]?.map (·.bytes.size) := by
  obtain ⟨stores, all, -, same⟩ := performs
  have values : ∀ index ∈ indices l.ty.shape, ∃ bytes, value index = .ok bytes := by
    intro index member
    have listed : (a.advance (displacement index l.strides), value index) ∈ l.stores a value :=
      List.mem_map.mpr ⟨index, member, rfl⟩
    rw [all] at listed
    obtain ⟨s, -, stored⟩ := List.mem_map.mp listed
    exact ⟨s.2, (congrArg Prod.snd stored).symm⟩
  choose! bytes value_eq using values
  have stored : (indices l.ty.shape).map (fun index => (a.advance (displacement index l.strides), bytes index)) =
      stores := by
    have injective : Function.Injective fun s : Addr × Bytes =>
      (s.1, (Except.ok s.2 : Except ExecutionFault Bytes)) := by
      rintro ⟨a, x⟩ ⟨b, y⟩ same
      simpa using same
    refine List.map_injective_iff.mpr injective (Eq.trans ?_ all)
    rw [List.map_map]
    exact List.map_congr_left fun index member => by simp [value_eq index member]
  subst stored
  have sized : ∀ index, IsIndex l.ty.shape index → (bytes index).length = l.ty.elementSize :=
    fun index within => lengths (value_eq index (mem_indices_iff.mpr within))
  have writes : ∀ s ∈ (indices l.ty.shape).map
      (fun index => (a.advance (displacement index l.strides), bytes index)), m.Writable s.1 s.2.length := by
    rw [List.forall_mem_map]
    intro index member
    rw [sized index (mem_indices_iff.mp member)]
    exact writable index (mem_indices_iff.mp member)
  refine ⟨bytes, fun index within =>
    ⟨value_eq index (mem_indices_iff.mpr within), ?_⟩, fun b kept old holds apart => ?_, ?_⟩
  · have member := mem_indices_iff.mpr within
    exact (Memory.holds_putAll writes (separate.pairwise_apart a sized) _ (List.mem_map.mpr ⟨index, member, rfl⟩)).congr
      (same _ inside)
  · refine (holds.putAll writes ?_).congr (same _ old)
    rw [List.forall_mem_map]
    intro index member
    rw [sized index (mem_indices_iff.mp member)]
    exact apart index (mem_indices_iff.mp member)
  · rw [same _ inside, Memory.map_size_putAll]

theorem Memory.holds_singleton_iff {m : Memory} {i : Nat} {r : Region} (there : m.regions[i]? = some r) {p : Nat}
    {x : UInt8} : m.Holds ⟨i, p⟩ [x] ↔ r.bytes.toList[p]? = some x := by
  simp only [Memory.Holds, there, Option.some.injEq, exists_eq_left', Int.toNat_natCast, List.length_singleton]
  rw [Buffer.slice_eq, ← Buffer.length_toList, List.take_one, List.head?_drop]
  constructor
  · rintro ⟨-, -, same⟩
    cases found : r.bytes.toList[p]? <;> simp_all
  · intro found
    have inside := (List.getElem?_eq_some_iff.mp found).1
    exact ⟨by omega, inside, by rw [found]; rfl⟩

namespace Callable

variable {c : Callable} {args : List NdArray} {dst r : NdArray} {kwds : Keywords} {value : Valuation} {chain : Chain}

/-! ## The run -/

/-- The arguments as a run finds them. -/
def sourceViews (args : List NdArray) : List SourceView :=
  args.zipIdx.map fun (a, i) => ⟨⟨i, a.offset⟩, a.layout, a.bytesAt⟩

theorem map_address_sourceViews (args : List NdArray) : (sourceViews args).map (·.address) = sourceAddrs args := by
  simp [sourceViews, sourceAddrs, Function.comp_def]

theorem map_layout_sourceViews (args : List NdArray) : (sourceViews args).map (·.layout) = args.map (·.layout) := by
  refine List.ext_getElem? fun i => ?_
  simp [sourceViews, List.getElem?_zipIdx, Function.comp_def]

theorem map_content_sourceViews (args : List NdArray) :
    (sourceViews args).map (·.content) = args.map NdArray.bytesAt := by
  refine List.ext_getElem? fun i => ?_
  simp [sourceViews, List.getElem?_zipIdx, Function.comp_def]

/-- All elements of the arguments stand in the memory of a call, and those of the destination can be written. -/
theorem offers_callMemory (bounded : ∀ a ∈ args, a.Bounded) (target : dst.Bounded) :
    (callMemory dst args).Offers (args.length + 1) dst.layout ⟨args.length, dst.offset⟩ (sourceViews args) where
  own := Memory.ownScratch_of_slots_eq_nil rfl (by simp [callMemory])
  inside := Nat.lt_succ_self _
  writable := (serves_callMemory bounded target).writable
  stands := by
    intro v member
    obtain ⟨⟨a, i⟩, listed, rfl⟩ := List.mem_map.mp member
    have found : args[i]? = some a := List.mk_mem_zipIdx_iff_getElem?.mp listed
    have below : i < args.length := (List.getElem?_eq_some_iff.mp found).1
    have region : (callMemory dst args).regions[i]? = some ⟨.shared, a.data⟩ := by
      rw [callMemory, List.getElem?_append_left (by simpa using below), List.getElem?_map, found]
      rfl
    refine ⟨Nat.lt_succ_of_lt below, Nat.ne_of_lt below, fun index inside => ?_⟩
    obtain ⟨least, most⟩ := (bounded a (List.mem_of_getElem? found)).inside index inside
    have length : (a.bytesAt index).length = a.ty.elementSize := Buffer.length_slice (by omega)
    refine ⟨length, ⟨.shared, a.data⟩, region, least, ?_, ?_⟩
    · rw [length]
      change (a.place index).toNat + a.ty.elementSize ≤ a.data.size
      omega
    · rw [length]
      rfl

/-- A run of a chain that computes values stores them in the elements of the destination and changes nothing else, or
one of them is none. -/
theorem execute_of_computes (computes : Chain.Computes value dst.layout (args.map (·.layout)) chain.toList)
    (bounded : ∀ a ∈ args, a.Bounded) (target : dst.Bounded) (traversable : Layout.Traversable dst.shape)
    (separate : dst.layout.Separate) :
    (∃ r, execute (CallGraph.empty.append chain.toList) 0 dst args = .ok r ∧ dst.Refilled r ∧
        ∀ index, IsIndex dst.shape index → value (args.map NdArray.bytesAt) index = .ok (r.bytesAt index)) ∨
      ∃ e index fault, execute (CallGraph.empty.append chain.toList) 0 dst args = .error e ∧
        IsIndex dst.shape index ∧ value (args.map NdArray.bytesAt) index = .error fault := by
  have handed : (CallGraph.empty.append chain.toList).Handed :=
    CallGraph.handed_append (CallGraph.handed_of_assembled .empty) computes.takes
  have continues : (CallGraph.empty.append chain.toList).Continues 0 chain.toList :=
    CallGraph.continues_append .empty chain.toList
  have nonempty : 0 < (CallGraph.empty.append chain.toList).size := CallGraph.size_append_toList_pos _ _
  have performs := computes.performs handed continues (map_layout_sourceViews args)
    (offers_callMemory bounded target) traversable
  rw [map_address_sourceViews, map_content_sourceViews] at performs
  simp only [execute, CallGraph.single_eq_settled handed.descends nonempty]
  generalize (CallGraph.empty.append chain.toList).settled.single 0 _ _ _ = outcome at performs ⊢
  obtain ⟨e | _, m⟩ := outcome
  · obtain ⟨p, listed, fault, none⟩ := performs
    obtain ⟨index, member, rfl⟩ := List.mem_map.mp listed
    exact .inr ⟨e, index, fault, rfl, mem_indices_iff.mp member, none⟩
  · have there : (callMemory dst args).regions[args.length]? = some ⟨.exclusive, dst.data⟩ := by simp [callMemory]
    obtain ⟨bytes, stored, kept, size⟩ := Layout.stored_of_performs separate (Nat.lt_succ_self _)
      (serves_callMemory bounded target).writable computes.length_eq performs
    rw [there, Option.map_some] at size
    obtain ⟨region, found, size⟩ := Option.map_eq_some_iff.mp size
    dsimp only at found size
    left
    simp only [found, Option.map_some, Option.getD_some]
    refine ⟨_, rfl, ⟨rfl, rfl, rfl, size, fun p uncovered => ?_⟩, fun index inside => ?_⟩
    · cases old : dst.data.toList[p]? with
      | none =>
        rw [List.getElem?_eq_none_iff, Buffer.length_toList] at old ⊢
        exact size ▸ old
      | some x =>
        refine (Memory.holds_singleton_iff found).mp (kept _ _ (Nat.lt_succ_self _)
          ((Memory.holds_singleton_iff there).mpr old) fun index inside _ => ?_)
        have apart : ¬(dst.offset + displacement index dst.layout.strides ≤ p ∧
            (p : Int) < dst.offset + displacement index dst.layout.strides + dst.layout.ty.elementSize) :=
          fun covers => uncovered ⟨index, inside, covers⟩
        simp only [Addr.advance, List.length_singleton]
        omega
    · obtain ⟨value_eq, r, there', least, most, same⟩ := stored index inside
      cases found.symm.trans there'
      rw [value_eq, NdArray.bytesAt]
      rw [computes.length_eq value_eq] at same
      exact congrArg Except.ok same.symm

/-- Where there is a value for each element, the call gets as far as to deliver them. -/
theorem runInto_of_computes {os : Overloads} {element : List Nat → Bytes}
    (outlined : (outline os c dst.layout (args.map (·.layout)) kwds).run = some (.ok chain))
    (computes : Chain.Computes value dst.layout (args.map (·.layout)) chain.toList) (bounded : ∀ a ∈ args, a.Bounded)
    (target : dst.Bounded) (traversable : Layout.Traversable dst.shape) (separate : dst.layout.Separate)
    (values : ∀ index, IsIndex dst.shape index → value (args.map NdArray.bytesAt) index = .ok (element index)) :
    ∃ r, runInto os c kwds args dst = .ok r ∧ dst.Refilled r ∧
      ∀ index, IsIndex dst.shape index → r.bytesAt index = element index := by
  obtain ⟨r, delivered, refilled, stored⟩ | ⟨_, index, fault, -, inside, none⟩ :=
    execute_of_computes computes bounded target traversable separate
  case inr =>
    rw [values index inside] at none
    cases none
  refine ⟨r, runInto_eq_ok_iff.mpr ⟨chain, outlined, delivered⟩, refilled, fun index inside => ?_⟩
  have same := stored index inside
  rw [values index inside] at same
  exact (Except.ok.inj same).symm

/-! ## The call -/

theorem requestedType_of_destination {d : NdArray} (given : kwds.get? Keywords.dstName = some (.array d))
    (noType : kwds.get? Keywords.dstTypeName = none) :
    c.requestedType none kwds = .ok (some (d.ty, .keyword Keywords.dstName)) := by
  rw [requestedType, Keywords.dstType?_of_array given noType]
  rfl

theorem erase_insert_self (kwds : Keywords) (name : String) (v : KeywordValue) :
    (kwds.insert name v).erase name = kwds.erase name := by
  refine NameTable.ext_get? fun other => ?_
  rw [NameTable.get?_erase, NameTable.get?_erase, NameTable.get?_insert]
  split <;> rfl

/-- Where a call without a destination delivers, the callable fills any array that it is given instead with the values
of the result. -/
theorem exists_fills_of_call (composed : c.Composed) (pointwise : c.Pointwise) (bounded : ∀ a ∈ args, a.Bounded)
    (noDst : kwds.get? Keywords.dstName = none) (noType : kwds.get? Keywords.dstTypeName = none)
    (called : c.call [] args kwds = .ok r) (d : NdArray) :
    ∃ shape k value, r.ty = .withShape shape (.scalar k) ∧
      c.Fills (kwds.insert Keywords.dstName (.array d)) (kwds.erase Keywords.dstName)
        (outlineWithin [] (kwds.erase Keywords.dstName) 0) (args.map (·.layout)) shape k value ∧
      Layout.Traversable shape ∧ ∀ index, IsIndex shape index →
        value (args.map NdArray.bytesAt) index = .ok (r.bytesAt index) := by
  have srcConcrete : ∀ l ∈ args.map (·.layout), l.Concrete :=
    List.forall_mem_map.mpr fun a member => concrete_layout (bounded a member)
  have types : (args.map (·.layout)).map (·.ty) = args.map (·.ty) := List.map_map
  obtain ⟨ret, blank, resolved, destined, ran⟩ := call_eq_ok_iff.mp called
  obtain ⟨-, request, _, asked, resolved, delivers⟩ := resolve_eq_ok_iff.mp resolved
  cases (requestedType_of_none noDst noType).symm.trans asked
  obtain rfl := delivers.1 rfl
  rw [destination, noDst] at destined
  have target := NdArray.bounded_of_zeros_eq_ok destined
  have separate := NdArray.separate_of_zeros_eq_ok destined
  have zeros := destined
  obtain ⟨-, -, strides, span, -, rfl⟩ := NdArray.of_zeros_eq_ok destined
  obtain ⟨chain, outlined, executed⟩ := runInto_eq_ok_iff.mp ran
  rw [outline_eq_outlineNode (by simp)] at outlined
  obtain ⟨shape, k, value, type, fills⟩ := composed.built_ownKeywords.formed.fills pointwise
    (Keywords.addsDestination_insert noDst (.array d)) (concrete_layout target) srcConcrete (types ▸ resolved) outlined
  obtain ⟨_, same, computes⟩ := fills.outlines target.fits type
  cases outlined.symm.trans same
  have some : 0 < ret.elementSize := by
    rw [show ret = _ from type, Ty.elementSize_withShape]
    exact k.size_pos
  have traversable := NdArray.traversable_of_zeros_eq_ok zeros some
  obtain ⟨_, delivered, refilled, values⟩ | ⟨_, _, _, failed, -⟩ :=
    execute_of_computes computes bounded target traversable separate
  case inr => cases failed.symm.trans executed
  cases delivered.symm.trans executed
  simp only [Kind.map_convert_self] at values
  have shaped : ret.shape = shape := (congrArg Ty.shape type).trans (Ty.shape_withShape (Ty.isElement_scalar k))
  rw [shaped] at traversable
  refine ⟨shape, k, value, refilled.ty_eq.trans type, fills, traversable, fun index inside => values index ?_⟩
  rwa [NdArray.shape, shaped]

/-- A call with a destination stores the values that its callable fills it with. -/
theorem call_of_fills {shape : List Nat} {k₀ k : Kind} {d : NdArray}
    (fills : c.Fills kwds (kwds.erase Keywords.dstName) (outlineWithin [] (kwds.erase Keywords.dstName) 0)
      (args.map (·.layout)) shape k₀ value) (bounded : ∀ a ∈ args, a.Bounded)
    (given : kwds.get? Keywords.dstName = some (.array d)) (noType : kwds.get? Keywords.dstTypeName = none)
    (target : d.Bounded) (type : d.ty = .withShape shape (.scalar k)) (promotes : k₀.canPromoteTo k)
    (traversable : Layout.Traversable shape) (separate : d.layout.Separate) {element : List Nat → Bytes}
    (values : ∀ index, IsIndex shape index → value (args.map NdArray.bytesAt) index = .ok (element index)) :
    ∃ r, c.call [] args kwds = .ok r ∧ d.Refilled r ∧
      ∀ index, IsIndex shape index → r.bytesAt index = k₀.convert k (element index) := by
  have types : (args.map (·.layout)).map (·.ty) = args.map (·.ty) := List.map_map
  have shaped : d.shape = shape := (congrArg Ty.shape type).trans (Ty.shape_withShape (Ty.isElement_scalar k))
  have concrete : ∀ t ∈ args.map (·.ty), t.isSymbolic = false :=
    List.forall_mem_map.mpr fun a member => (bounded a member).concrete
  have resolved : c.resolve none (args.map (·.ty)) kwds = .ok d.ty := by
    refine resolve_eq_ok_iff.mpr ⟨concrete, _, .withShape shape (.scalar k₀), requestedType_of_destination given noType,
      ?_, delivers_some_iff.mpr ⟨rfl, ?_⟩⟩
    · rw [← types, Option.map_some, type]
      exact fills.resolves k
    · rw [type]
      exact Ty.canPromoteTo_withShape_iff.mpr promotes
  obtain ⟨chain, outlined, computes⟩ := fills.outlines target.fits type
  have written : (outline [] c d.layout (args.map (·.layout)) (kwds.erase Keywords.dstName)).run =
    some (.ok chain) := by
    rw [outline_eq_outlineNode (by simp)]
    exact outlined
  rw [← shaped] at values traversable ⊢
  obtain ⟨r, delivered, refilled, elements⟩ := runInto_of_computes written computes bounded target traversable separate
    fun index inside => congrArg (Except.map (k₀.convert k)) (values index inside)
  exact ⟨r, call_eq_ok_iff.mpr ⟨d.ty, d, resolved, by rw [destination, given], delivered⟩, refilled, elements⟩

/-- A callable of own kernels without reductions, whose permutations read sources only, does for an array that it is
given to write into what it does without it. Where the call delivers, so does the call with the array, if the type of
the result converts to that of the array and the elements of the array have no byte in common: it returns the array,
with each element that of the result, read as the kind of the result and written as the kind of the array, and with
all other bytes as they were. -/
theorem call_into_destination (composed : c.Composed) (pointwise : c.Pointwise)
    (constructed : ∀ a ∈ args, a.Constructed)
    (noDst : kwds.get? Keywords.dstName = none) (noType : kwds.get? Keywords.dstTypeName = none) {r₀ d : NdArray}
    (called : c.call [] args kwds = .ok r₀) (target : d.Constructed) (promotes : r₀.ty.canPromoteTo d.ty)
    (separate : d.layout.Separate) :
    ∃ r k₀ k, c.call [] args (kwds.insert Keywords.dstName (.array d)) = .ok r ∧ d.Refilled r ∧
      r₀.dtype? = some k₀ ∧ d.dtype? = some k ∧ r₀.shape = d.shape ∧
      ∀ index, IsIndex d.shape index → r.bytesAt index = k₀.convert k (r₀.bytesAt index) := by
  have bounded : ∀ a ∈ args, a.Bounded := fun a member => (constructed a member).bounded
  obtain ⟨shape, k₀, value, type₀, fills, traversable, values⟩ :=
    exists_fills_of_call composed pointwise bounded noDst noType called d
  rw [type₀] at promotes
  obtain ⟨k, type, kinds⟩ := Ty.eq_withShape_of_canPromoteTo promotes
  have shape₀ : r₀.shape = shape := (congrArg Ty.shape type₀).trans (Ty.shape_withShape (Ty.isElement_scalar k₀))
  have shaped : d.shape = shape := (congrArg Ty.shape type).trans (Ty.shape_withShape (Ty.isElement_scalar k))
  rw [← erase_insert_self kwds Keywords.dstName (.array d)] at fills
  have other : (kwds.insert Keywords.dstName (.array d)).get? Keywords.dstTypeName = none := by
    rw [NameTable.get?_insert, if_neg (by decide), noType]
  obtain ⟨r, delivered, refilled, elements⟩ :=
    call_of_fills fills bounded (NameTable.get?_insert_self ..) other target.bounded type kinds traversable separate
      values
  refine ⟨r, k₀, k, delivered, refilled, ?_, ?_, shape₀.trans shaped.symm, fun index inside => ?_⟩
  · rw [NdArray.dtype?, type₀, Ty.dtype_withShape]
    rfl
  · rw [NdArray.dtype?, type, Ty.dtype_withShape]
    rfl
  · exact elements index (shaped ▸ inside)

/-- An array is subtracted from a number of a wider kind, into an array of a still wider one that is stored backwards,
with gaps. -/
theorem call_into_reversed_destination :
    let byte : Kind := .int .w8
    let short : Kind := .int .w16
    let wide : Kind := .int .w32
    let a : NdArray := NdArray.ofList byte [.int 3, .int 5]
    let four : NdArray := .scalar short (.int 4)
    let c : Callable := .permute 12 (.lift 11 (Builtins.binaryOver {} .subtract 0) none) [1, 0]
    let d : NdArray := ⟨.fixedDim 2 (.scalar wide), .ofList [9, 1, 2, 3, 4, 8, 5, 6, 7, 7], 6, [-5]⟩
    let r₀ : NdArray := ⟨.fixedDim 2 (.scalar short), .ofList [1, 0, 255, 255], 0, [2]⟩
    let r : NdArray := { d with data := .ofList [9, 255, 255, 255, 255, 8, 1, 0, 0, 0] }
    let kwds : Keywords := .empty
    (c.Composed ∧ c.Pointwise) ∧ (∀ x ∈ [a, four], x.Constructed) ∧
      (kwds.get? Keywords.dstName = none ∧ kwds.get? Keywords.dstTypeName = none) ∧
      c.call [] [a, four] kwds = .ok r₀ ∧ (d.Constructed ∧ r₀.ty.canPromoteTo d.ty ∧ d.layout.Separate) ∧
      c.call [] [a, four] (kwds.insert Keywords.dstName (.array d)) = .ok r ∧
      ∃ r k₀ k, c.call [] [a, four] (kwds.insert Keywords.dstName (.array d)) = .ok r ∧ d.Refilled r ∧
        r₀.dtype? = some k₀ ∧ d.dtype? = some k ∧ r₀.shape = d.shape ∧
        ∀ index, IsIndex d.shape index → r.bytesAt index = k₀.convert k (r₀.bytesAt index) := by
  intro byte short wide a four c d r₀ r kwds
  have composed : c.Composed :=
    .permute (.elwise (.binaryDispatch (Builtins.binaryDispatch_eq {} .subtract 0)))
      (show Callable.permuted 12 (.elwise 11 (Builtins.binaryOver {} .subtract 0)) [1, 0] = .ok c from rfl)
  have pointwise : c.Pointwise := by
    refine .permute (by decide) (.lift (.dispatch fun e member => ?_))
    obtain ⟨p, -, rfl⟩ := List.mem_map.mp (Builtins.entries_binaryTable .. ▸ member)
    exact .leaf
  have constructed : ∀ x ∈ [a, four], x.Constructed := by
    simpa using ⟨NdArray.constructed_ofList byte _, NdArray.constructed_scalar short _⟩
  have viewed : d.Built := .ofParts (by decide)
    (show NdArray.ofParts (.fixedDim 2 (.scalar wide)) (.ofList [9, 1, 2, 3, 4, 8, 5, 6, 7, 7]) 6 [-5] =
      .ok d from by cbv)
  have view : d.Constructed := viewed.constructed (by decide)
  have separate : d.layout.Separate := by decide
  have called : c.call [] [a, four] kwds = .ok r₀ := by cbv
  have written : c.call [] [a, four] (kwds.insert Keywords.dstName (.array d)) = .ok r := by cbv
  exact ⟨⟨composed, pointwise⟩, constructed, ⟨rfl, rfl⟩, called, ⟨view, rfl, separate⟩, written,
    call_into_destination composed pointwise constructed rfl rfl called view rfl separate⟩

end Callable

end ArrayCall
