import ArrayCall.Proofs.Calls.Reordering
import ArrayCall.Proofs.Calls.Safety
import ArrayCall.Proofs.Instantiation.ReadingFirst
import ArrayCall.Proofs.Resolution.Hints

/-!
# Slots that read the destination

A slot `-1` hands a child the destination itself, where the child could as well be handed a copy of it. The
destination must have been read before it is written for that to come to the same, and so it is unless a
reduction puts its identity there first.

* `Callable.execute_permute_of_destination`: the run, by `Chain.ReadsFirst` and `CallGraph.mirrors_under`.
* `Callable.destination_slot_reads_value_at_entry`: the call.
* `Callable.identity_overwrites_destination_slot`: a reduction from an identity, which loses what it was given.
-/

namespace ArrayCall

namespace Run

variable {α α' : Type} {rel : α → α' → Prop} {ρ : Nat → Nat} {run : Run α} {run' : Run α'} {m m' : Memory}

theorem Mirrors.exists_of_ok (mirrors : Mirrors ρ rel run run') (renumbered : m.Renumbered ρ m') {a : α} {n : Memory}
    (ran : run m = (.ok a, n)) : ∃ a' n', run' m' = (.ok a', n') ∧ rel a a' ∧ n.Renumbered ρ n' := by
  obtain ⟨_, a', _, n', same, ran', related, renumbered⟩ | ⟨_, _, _, _, failed, -⟩ := mirrors m m' renumbered
  · cases same.symm.trans ran
    exact ⟨a', n', ran', related, renumbered⟩
  · cases failed.symm.trans ran

theorem Mirrors.exists_of_image_ok (mirrors : Mirrors ρ rel run run') (renumbered : m.Renumbered ρ m') {a' : α'}
    {n' : Memory} (ran : run' m' = (.ok a', n')) : ∃ a n, run m = (.ok a, n) ∧ rel a a' ∧ n.Renumbered ρ n' := by
  obtain ⟨a, _, n, _, ran', same, related, renumbered⟩ | ⟨_, _, _, _, -, failed, -⟩ := mirrors m m' renumbered
  · cases same.symm.trans ran
    exact ⟨a, n, ran', related, renumbered⟩
  · cases failed.symm.trans ran

end Run

/-- What a graph does below one more node, from memory without scratch. -/
theorem CallGraph.exists_single_under {chain : Chain} (first : Kernel × NodeData) {dst : Addr} {src : List Addr}
    {m n : Memory} (unused : m.slots = []) (ran : (empty.append chain.toList).single 0 dst src m = (.ok (), n)) :
    ∃ n', (empty.append (chain.under first []).toList).settled.single 1 dst src m = (.ok (), n') ∧
      ∀ k : Nat, n'.regions[k]? = n.regions[k]? := by
  have renumbered : m.Renumbered id m := ⟨fun _ => rfl, by simp [unused], fun _ => rfl⟩
  obtain ⟨_, n', ran', -, same⟩ := (mirrors_under Function.injective_id first chain dst src).exists_of_ok renumbered ran
  have still : src.map (Addr.renumber id) = src := List.map_id src
  rw [still] at ran'
  exact ⟨n', ran', same.regions⟩

namespace Callable

variable {slots : List Int} {stamp : Nat} {child : Callable} {kwds : Keywords}

/-! ## Memory -/

/-- An argument that is the destination itself is a copy of it in the memory of the call. -/
theorem copied_callMemory {d : NdArray} {args : List NdArray} {i : Nat} (there : args[i]? = some d)
    (bounded : d.Bounded) :
    (callMemory d args).Copied (args.length + 1) d.layout (IsIndex d.layout.ty.shape) ⟨i, d.offset⟩
      ⟨args.length, d.offset⟩ where
  copy_lt := Nat.lt_succ_of_lt (List.getElem?_eq_some_iff.mp there).1
  lt := Nat.lt_succ_self _
  ne := Nat.ne_of_lt (List.getElem?_eq_some_iff.mp there).1
  elements index inside := by
    obtain ⟨least, most⟩ := bounded.inside index inside
    have within : (d.place index).toNat + d.ty.elementSize ≤ d.data.size := by omega
    have holds : ∀ {region : Nat} {access : Access}, (callMemory d args).regions[region]? = some ⟨access, d.data⟩ →
        (callMemory d args).Holds ⟨region, d.place index⟩ (d.data.slice (d.place index).toNat d.ty.elementSize) := by
      intro region access found
      refine ⟨_, found, least, ?_, ?_⟩
      · rwa [Buffer.length_slice within]
      · rw [Buffer.length_slice within]
    have copy : (callMemory d args).regions[i]? = some ⟨.shared, d.data⟩ := by
      have inside := (List.getElem?_eq_some_iff.mp there).1
      rw [callMemory, List.getElem?_append_left (by simpa using inside), List.getElem?_map, there]
      rfl
    have target : (callMemory d args).regions[args.length]? = some ⟨.exclusive, d.data⟩ := by simp [callMemory]
    exact ⟨_, Buffer.length_slice within, holds copy, holds target⟩

/-- The number that a region of the call of a permutation has where the child is called instead, with a copy
of the destination among its arguments. -/
def regionBeside (slots : List Int) (k : Nat) : Nat :=
  if k < (sourcesOf slots).length then slots.idxOf (k : Int) else k + 1

/-- Where the sources of the child stand, and where the permutation reads them instead. -/
def readings (slots : List Int) (d : NdArray) (others : List NdArray) : List (Addr × Addr) :=
  (sourceAddrs (slots.map (Node.slotAt d others))).zip
    ((slots.map (Node.slotAt ⟨others.length, d.offset⟩ (sourceAddrs others))).map (Addr.renumber (regionBeside slots)))

theorem readings_fst (slots : List Int) (d : NdArray) (others : List NdArray) :
    (readings slots d others).map (·.1) = sourceAddrs (slots.map (Node.slotAt d others)) :=
  List.map_fst_zip (by simp [sourceAddrs])

theorem readings_snd (slots : List Int) (d : NdArray) (others : List NdArray) :
    (readings slots d others).map (·.2) =
    (slots.map (Node.slotAt ⟨others.length, d.offset⟩ (sourceAddrs others))).map (Addr.renumber (regionBeside slots)) :=
  List.map_snd_zip (by simp [sourceAddrs])

section Regions

variable (fit : SlotsFit slots child.arity) (reads : -1 ∈ slots)
include fit reads

theorem regionBeside_lt {k : Nat} (below : k < (sourcesOf slots).length) :
    regionBeside slots k < (sourcesOf slots).length + 1 := by
  rw [regionBeside, if_pos below, ← fit.length_of_destination reads]
  exact List.idxOf_lt_length_of_mem (fit.mem_of_lt below)

theorem regionBeside_injective : Function.Injective (regionBeside slots) := by
  intro i j same
  rcases Nat.lt_or_ge i (sourcesOf slots).length with inI | outI
  · rcases Nat.lt_or_ge j (sourcesOf slots).length with inJ | outJ
    · rw [regionBeside, regionBeside, if_pos inI, if_pos inJ, List.idxOf_inj (fit.mem_of_lt inI)] at same
      exact_mod_cast same
    · have := regionBeside_lt fit reads inI
      rw [same, regionBeside, if_neg (by omega)] at this
      omega
  · rcases Nat.lt_or_ge j (sourcesOf slots).length with inJ | outJ
    · have := regionBeside_lt fit reads inJ
      rw [← same, regionBeside, if_neg (by omega)] at this
      omega
    · rw [regionBeside, regionBeside, if_neg (by omega), if_neg (by omega)] at same
      omega

variable {others : List NdArray} {d : NdArray} (length : others.length = (sourcesOf slots).length)
include length

theorem renumbered_callMemory_of_destination :
    (callMemory d others).Renumbered (regionBeside slots) (callMemory d (slots.map (Node.slotAt d others))) where
  regions := by
    intro k
    have count := fit.length_of_destination reads
    rcases Nat.lt_or_ge k others.length with inside | outside
    · have there := regionBeside_lt fit reads (length ▸ inside)
      have place : slots[regionBeside slots k]? = some (k : Int) := by
        rw [regionBeside, if_pos (length ▸ inside)]
        exact List.getElem?_idxOf (fit.mem_of_lt (length ▸ inside))
      simp only [callMemory]
      rw [List.getElem?_append_left (by simpa [count] using there), List.getElem?_append_left (by simpa using inside)]
      simp only [List.getElem?_map, place, Option.map_some, Node.slotAt, if_neg (Int.not_lt.mpr (Int.natCast_nonneg k)),
        Int.toNat_natCast, List.getElem?_eq_getElem inside, Option.getD_some]
    · rw [regionBeside, if_neg (by omega), callMemory, callMemory, List.getElem?_append_right (by simp; omega),
        List.getElem?_append_right (by simpa using outside)]
      simp only [List.length_map]
      congr 1
      omega
  slots := rfl
  fresh := by
    intro k
    simp only [callMemory, List.length_append, List.length_map, List.length_singleton, fit.length_of_destination reads,
      regionBeside]
    rw [if_neg (by omega)]
    omega

/-- Only the source that is a copy of the destination is read elsewhere, which is in the destination. -/
theorem copied_readings (bounded : d.Bounded) :
    List.Forall₂ (fun p l => p.1 = p.2 ∨ l = d.layout ∧ p.2 = ⟨slots.length, d.offset⟩ ∧
        (callMemory d (slots.map (Node.slotAt d others))).Copied (slots.length + 1) d.layout (IsIndex d.layout.ty.shape)
          p.1 ⟨slots.length, d.offset⟩)
      (readings slots d others) ((slots.map (Node.slotAt d others)).map (·.layout)) := by
  have count := fit.length_of_destination reads
  refine List.forall₂_iff_get.mpr ⟨by simp [readings, sourceAddrs], fun i inside there => ?_⟩
  have slot : i < slots.length := by simpa using there
  have member := List.getElem_mem slot
  have bound := fit.lt_countP _ member
  rw [← length_sourcesOf, ← length] at bound
  have address : i < (sourceAddrs (slots.map (Node.slotAt d others))).length := by simpa [sourceAddrs] using slot
  have first : (sourceAddrs (slots.map (Node.slotAt d others)))[i] = ⟨i, (Node.slotAt d others slots[i]).offset⟩ := by
    simp [sourceAddrs]
  simp only [List.get_eq_getElem, readings, List.getElem_zip, List.getElem_map, first]
  rcases Int.lt_or_le slots[i] 0 with destination | source
  · right
    simp only [Node.slotAt, if_pos destination, Addr.renumber, regionBeside, length, lt_irrefl, if_false, count]
    refine ⟨trivial, trivial, ?_⟩
    have there : (slots.map (Node.slotAt d others))[i]? = some d := by
      rw [List.getElem?_map, List.getElem?_eq_getElem slot, Option.map_some, Node.slotAt, if_pos destination]
    simpa only [List.length_map, count] using copied_callMemory there bounded
  · left
    have region : regionBeside slots slots[i].toNat = i := by
      rw [regionBeside, if_pos (by omega), Int.toNat_of_nonneg source, fit.nodup_slots.idxOf_getElem]
    have other : slots[i].toNat < others.length := by omega
    rw [Node.slotAt, Node.slotAt, if_neg (by omega), if_neg (by omega), getElem?_sourceAddrs,
      List.getElem?_eq_getElem other]
    simp only [Option.map_some, Option.getD_some, Addr.renumber, region]

end Regions

/-! ## The run -/

theorem execute_eq_ok_iff {g : CallGraph} {root : Nat} {dst r : NdArray} {args : List NdArray} :
    execute g root dst args = .ok r ↔
      ∃ m, g.single root ⟨args.length, dst.offset⟩ (sourceAddrs args) (callMemory dst args) = (.ok (), m) ∧
        { dst with data := (m.regions[args.length]?.map Region.bytes).getD dst.data } = r := by
  simp only [execute]
  generalize g.single root ⟨args.length, dst.offset⟩ (sourceAddrs args) (callMemory dst args) = outcome
  obtain ⟨e | _, m⟩ := outcome
  · refine iff_of_false (by rintro ⟨⟩) ?_
    rintro ⟨_, ran, -⟩
    cases ran
  · refine ⟨fun ran => ⟨m, rfl, Except.ok.inj ran⟩, ?_⟩
    rintro ⟨_, ran, rfl⟩
    cases ran
    rfl

/-- From the run of the child to that of the permutation: first the child below the permutation, then with the
destination for its copy, then in the memory that has no copy. -/
theorem execute_permute_of_destination (fit : SlotsFit slots child.arity) (reads : -1 ∈ slots)
    {others : List NdArray} (length : others.length = (sourcesOf slots).length) {d r : NdArray} (bounded : d.Bounded)
    (separate : d.layout.Separate) {chain : Chain}
    (readsFirst : Chain.ReadsFirst d.layout ((slots.map (Node.slotAt d others)).map (·.layout)) chain.toList)
    (ran : execute (.append .empty chain.toList) 0 d (slots.map (Node.slotAt d others)) = .ok r) :
    execute (.append .empty (chain.under (.permute, .permutation slots) []).toList) 0 d others = .ok r := by
  have count := fit.length_of_destination reads
  have inside : ∀ slot ∈ slots, slot < (sourceAddrs others).length := by
    have sources : (sourceAddrs others).length = slots.countP (0 ≤ ·) := by
      rw [← length_sourcesOf, ← length]
      simp [sourceAddrs]
    rw [sources]
    exact fit.lt_countP
  have takes : Chain.Takes chain.toList slots.length := by simpa using readsFirst.takes
  have handed : (CallGraph.append .empty (chain.under (.permute, .permutation slots) []).toList).Handed :=
    CallGraph.handed_append (CallGraph.handed_of_assembled .empty) (.permute fit.lt_countP takes)
  have continues : (CallGraph.append .empty (chain.under (.permute, .permutation slots) []).toList).Continues 1
      chain.toList :=
    ((CallGraph.continues_append .empty (chain.under (.permute, .permutation slots) []).toList).parent takes).2.2
  have own : (callMemory d (slots.map (Node.slotAt d others))).OwnScratch (slots.length + 1) :=
    Memory.ownScratch_of_slots_eq_nil rfl (by simp [callMemory])
  have last : regionBeside slots others.length = slots.length := by simp [regionBeside, length, count]
  obtain ⟨m, called, rfl⟩ := execute_eq_ok_iff.mp ran
  obtain ⟨m₁, below, same₁⟩ := CallGraph.exists_single_under (.permute, .permutation slots) rfl called
  have moved := readsFirst.rereads separate handed continues own (copied_readings fit reads length bounded)
  rw [readings_fst, readings_snd] at moved
  rw [List.length_map, moved, ← last] at below
  have mirrors := CallGraph.mirrors_under (regionBeside_injective fit reads) (.permute, .permutation slots) chain
    ⟨others.length, d.offset⟩ (slots.map (Node.slotAt ⟨others.length, d.offset⟩ (sourceAddrs others)))
  -- Without the copy the regions have other numbers, and that is all that the permutation makes of it.
  obtain ⟨_, m₂, beside, -, same₂⟩ :=
    mirrors.exists_of_image_ok (renumbered_callMemory_of_destination fit reads length) below
  obtain ⟨m₃, permuted, same₃⟩ := CallGraph.exists_single_under (.permute, .permutation slots) rfl beside
  refine execute_eq_ok_iff.mpr ⟨m₃, ?_, ?_⟩
  · rw [CallGraph.single_under_permutation chain _ inside]
    exact permuted
  · have region : m₃.regions[others.length]? = m.regions[slots.length]? := by
      calc m₃.regions[others.length]? = m₂.regions[others.length]? := same₃ _
        _ = m₁.regions[slots.length]? := by rw [← last]; exact (same₂.regions _).symm
        _ = m.regions[slots.length]? := same₁ _
    rw [region, List.length_map]

/-! ## The call -/

/-- Where a destination is passed, a permutation resolves if its child does for the type of it. -/
theorem resolve_permute_of_destination (fit : SlotsFit slots child.arity) (reads : -1 ∈ slots) {others : List Ty}
    (length : others.length = (permute stamp child slots).arity) (concrete : ∀ t ∈ others, t.isSymbolic = false)
    {d : NdArray} (given : kwds.get? Keywords.dstName = some (.array d)) {t : Ty}
    (resolved : child.resolve none (slots.map (Node.slotAt d.ty others)) kwds = .ok t) :
    (permute stamp child slots).resolve none others kwds = .ok t := by
  obtain ⟨-, request, ret, asked, below, delivers⟩ := resolve_eq_ok_iff.mp resolved
  have type := requestedType_of_array given asked
  rw [type] at below delivers
  obtain ⟨rfl, promotes⟩ := delivers_some_iff.mp delivers
  have inside := fit.lt_of_arity length
  have keywords : kwds.checkAgainst (permute stamp child slots).name (permute stamp child slots).signature = .ok () :=
    Keywords.checkAgainst_eq_ok_iff.mpr (Keywords.checkAgainst_eq_ok_iff.mp (takes_of_resolveTypes_eq_ok below).2)
  refine resolve_eq_ok_iff.mpr ⟨concrete, request, d.ty, (requestedType_eq_ok_iff_of _ _).mp asked, ?_, ?_⟩
  · rw [type, resolveTypes_permute_eq_ok_iff]
    refine ⟨⟨length, keywords⟩, some d.ty, ret, slotDestination_of_destination ⟨-1, reads, by decide⟩ _, ?_, ?_, rfl⟩
    · rwa [filterMap_slotTypes inside (.inl rfl)]
    · rintro _ ⟨⟩
      exact promotes
  · rw [type]
    exact delivers_some_iff.mpr ⟨rfl, d.ty.canPromoteTo_self⟩

/-- A callable of typed leaves in which no reduction starts from an identity does with its destination in a
slot what it does with a copy of it: where the child returns an array, so does the permutation, and it is the
same one. The destination may be any array whose elements have no byte in common. -/
theorem destination_slot_reads_value_at_entry {c : Callable} (built : child.Built Leaf.Typed fun _ => True)
    (unseeded : ∀ s, ¬child.SeededBy s) (permuted : child.permuted stamp slots = .ok c) (reads : -1 ∈ slots)
    {d : NdArray} (constructed : d.Constructed) (separate : d.layout.Separate)
    (given : kwds.get? Keywords.dstName = some (.array d)) {others : List NdArray} (length : others.length = c.arity)
    (arrays : ∀ a ∈ others, a.Constructed) {r : NdArray}
    (called : child.call [] (slots.map (Node.slotAt d others)) kwds = .ok r) : c.call [] others kwds = .ok r := by
  obtain ⟨rfl, fit⟩ := of_permuted_eq_ok permuted
  have count : others.length = (sourcesOf slots).length := by rw [length, arity_permute, length_sourcesOf]
  have inside := fit.lt_of_arity length
  obtain ⟨ret, dst, resolved, destined, ran⟩ := call_eq_ok_iff.mp called
  obtain rfl : d = dst := by
    rw [destination, given] at destined
    exact Except.ok.inj destined
  obtain ⟨chain, outlined, executed⟩ := runInto_eq_ok_iff.mp ran
  have bounded : ∀ a ∈ slots.map (Node.slotAt d others), a.Bounded :=
    forall_slotAt (fun a member => (arrays a member).bounded) inside (.inr constructed.bounded)
  have readsFirst : Chain.ReadsFirst d.layout ((slots.map (Node.slotAt d others)).map (·.layout)) chain.toList := by
    rw [outline_eq_outlineNode (by simp)] at outlined
    refine built.formed.readsFirst unseeded (concrete_layout constructed.bounded) ?_ chain outlined
    simpa using fun slot member => concrete_layout (bounded _ (List.mem_map_of_mem member))
  rw [map_slots _ inside] at resolved outlined
  refine call_eq_ok_iff.mpr ⟨ret, d, ?_, destined,
    runInto_eq_ok_iff.mpr ⟨chain.under (.permute, .permutation slots) [], ?_, ?_⟩⟩
  · exact resolve_permute_of_destination fit reads (by simpa using length)
      (by simpa using fun a member => (arrays a member).bounded.concrete) given resolved
  · rw [run_outline_permute (by simp) d.layout (by simpa using length) (by simpa using inside)]
    generalize outline [] child d.layout _ _ = below at outlined
    rcases below with _ | _ | _ <;> cases outlined
    rfl
  · exact execute_permute_of_destination fit reads count constructed.bounded separate readsFirst executed

/-- An array that is read backwards is subtracted from a number of a narrower kind, and takes the result. -/
theorem destination_slot_of_reversed_array :
    let int : Kind := .int .w32
    let subtract : Callable :=
      .leaf 0 "subtract[int32]" (Builtins.uniform 2 (.scalar int)) ⟨.fixed (.binary .subtract int), none⟩
    let child : Callable := .lift 1 subtract none
    let c : Callable := .permute 2 child [0, -1]
    let d : NdArray := ⟨.fixedDim 2 (.scalar int), .ofList [3, 0, 0, 0, 4, 0, 0, 0], 4, [-4]⟩
    let ten : NdArray := .scalar (.int .w16) (.int 10)
    let kwds : Keywords := NameTable.empty.insert Keywords.dstName (.array d)
    let r : NdArray := { d with data := .ofList [7, 0, 0, 0, 6, 0, 0, 0] }
    (child.Built Leaf.Typed (fun _ => True) ∧ ∀ s, ¬child.SeededBy s) ∧
      (child.permuted 2 [0, -1] = .ok c ∧ (-1 : Int) ∈ ([0, -1] : List Int)) ∧ (d.Constructed ∧ d.layout.Separate) ∧
      kwds.get? Keywords.dstName = some (.array d) ∧ ([ten].length = c.arity ∧ ∀ a ∈ [ten], a.Constructed) ∧
      child.call [] ([0, -1].map (Node.slotAt d [ten])) kwds = .ok r ∧ c.call [] [ten] kwds = .ok r := by
  intro int subtract child c d ten kwds r
  have native : Leaf.Native (Builtins.uniform 2 (.scalar int)) ⟨.fixed (.binary .subtract int), none⟩ :=
    .ofKind (show KernelFamily.kernel? (.binary .subtract) int = some (.binary .subtract int) from rfl)
  have built : child.Built Leaf.Typed fun _ => True := .elwise (.leaf native.typed rfl) trivial
  have unseeded : ∀ s, ¬child.SeededBy s := by
    intro s seeded
    simp only [child, subtract] at seeded
    cases seeded with
    | lift below => cases below
  have permuted : child.permuted 2 [0, -1] = .ok c := rfl
  have viewed : d.Built := .ofParts (by decide)
    (show NdArray.ofParts (.fixedDim 2 (.scalar int)) (.ofList [3, 0, 0, 0, 4, 0, 0, 0]) 4 [-4] = .ok d from by cbv)
  have view : d.Constructed := viewed.constructed (by decide)
  have separate : d.layout.Separate := by decide
  have given : kwds.get? Keywords.dstName = some (.array d) := NameTable.get?_insert_self ..
  have arrays : ∀ a ∈ [ten], a.Constructed := by simpa using NdArray.constructed_scalar _ _
  have called : child.call [] ([0, -1].map (Node.slotAt d [ten])) kwds = .ok r := by cbv
  exact ⟨⟨built, unseeded⟩, ⟨permuted, by decide⟩, ⟨view, separate⟩, given, ⟨rfl, arrays⟩, called,
    destination_slot_reads_value_at_entry built unseeded permuted (by decide) view separate given rfl arrays called⟩

/-- A sum from zero is given the destination, but puts zero there before it reads it. -/
theorem identity_overwrites_destination_slot :
    let int : Kind := .int .w32
    let add : Callable := .leaf 0 "add[int32]" (Builtins.uniform 2 (.scalar int)) ⟨.fixed (.binary .add int), none⟩
    let sum : Callable := .reduce 1 (.permute 2 add [-1, 0]) (some (.int 0))
    let c : Callable := .permute 3 sum [-1]
    let d : NdArray := .scalar int (.int 5)
    let kwds : Keywords := NameTable.empty.insert Keywords.dstName (.array d)
    sum.Built Leaf.Typed (fun _ => True) ∧ sum.permuted 3 [-1] = .ok c ∧ (d.Constructed ∧ d.layout.Separate) ∧
      kwds.get? Keywords.dstName = some (.array d) ∧ sum.call [] ([-1].map (Node.slotAt d [])) kwds = .ok d ∧
      c.call [] [] kwds = .ok (.scalar int (.int 0)) ∧ c.call [] [] kwds ≠ .ok d := by
  intro int add sum c d kwds
  have native : Leaf.Native (Builtins.uniform 2 (.scalar int)) ⟨.fixed (.binary .add int), none⟩ :=
    .ofKind (show KernelFamily.kernel? (.binary .add) int = some (.binary .add int) from rfl)
  have leaf : add.Built Leaf.Typed fun _ => True := .leaf native.typed rfl
  have built : sum.Built Leaf.Typed fun _ => True :=
    .reduced leaf (show add.reduced 1 2 .left (some (.int 0)) = .ok sum from rfl)
  have kept : sum.call [] [NdArray.scalar int (.int 5)] kwds = .ok (.scalar int (.int 5)) := by cbv
  have lost : c.call [] [] kwds = .ok (.scalar int (.int 0)) := by cbv
  refine ⟨built, rfl, ⟨NdArray.constructed_scalar _ _, by decide⟩, NameTable.get?_insert_self .., kept, lost, ?_⟩
  rw [lost]
  decide

end Callable

end ArrayCall
