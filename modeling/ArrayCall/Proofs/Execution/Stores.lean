import ArrayCall.Proofs.Execution.Footprint

/-!
# What a run stores

`Kernel.compute` is what a kernel makes of the bytes of its operands. A leaf stores that at its destination, converted
where its kernel is of another kind (`CallGraph.performs_ofLeaf`), and nothing else that can be seen from outside its
scratch. `Run.Performs` says so for a run of any number of stores: it makes all of them, in order, or one of them has
no value and the run fails.
-/

namespace ArrayCall

/-! ## Stores in order -/

namespace Memory

/-- The memory with bytes put to one address after the other. Only for stores that were checked. -/
def putAll (m : Memory) (stores : List (Addr × Bytes)) : Memory := stores.foldl (fun m s => m.put s.1 s.2) m

/-- Two memories agree on the regions before a number, those of a call. -/
def SameBelow (base : Nat) (m m' : Memory) : Prop := ∀ i < base, m'.regions[i]? = m.regions[i]?

variable {m m' m'' : Memory} {a b : Addr} {base length i : Nat} {bytes : Bytes} {stores stores' : List (Addr × Bytes)}

theorem SameBelow.refl (base : Nat) (m : Memory) : m.SameBelow base m := fun _ _ => rfl

theorem SameBelow.trans (first : SameBelow base m m') (second : SameBelow base m' m'') : SameBelow base m m'' :=
  fun i below => (second i below).trans (first i below)

theorem SameBelow.put (same : SameBelow base m m') (a : Addr) (bytes : Bytes) :
    SameBelow base (m.put a bytes) (m'.put a bytes) := by
  intro i below
  by_cases here : i = a.region
  · rw [here, getElem?_put_self, getElem?_put_self, same _ (here ▸ below)]
  · rw [getElem?_put_of_ne here, getElem?_put_of_ne here, same i below]

theorem SameBelow.putAll (same : SameBelow base m m') (stores : List (Addr × Bytes)) :
    SameBelow base (m.putAll stores) (m'.putAll stores) := by
  induction stores generalizing m m' with
  | nil => exact same
  | cons s stores inductionHypothesis => exact inductionHypothesis (same.put s.1 s.2)

/-- What is put behind the regions of a call is not seen there. -/
theorem sameBelow_put_of_le (behind : base ≤ a.region) (bytes : Bytes) : SameBelow base m (m.put a bytes) :=
  fun _ below => getElem?_put_of_ne (by omega) bytes

theorem putAll_append : m.putAll (stores ++ stores') = (m.putAll stores).putAll stores' := List.foldl_append

theorem getElem?_putAll_of_ne (others : ∀ s ∈ stores, s.1.region ≠ i) :
    (m.putAll stores).regions[i]? = m.regions[i]? := by
  induction stores generalizing m with
  | nil => rfl
  | cons s stores inductionHypothesis =>
    obtain ⟨here, others⟩ := List.forall_mem_cons.mp others
    exact (inductionHypothesis others).trans (getElem?_put_of_ne (Ne.symm here) s.2)

theorem Writable.putAll (writable : m.Writable b length) (stores : List (Addr × Bytes)) :
    (m.putAll stores).Writable b length := by
  induction stores generalizing m with
  | nil => exact writable
  | cons s stores inductionHypothesis => exact inductionHypothesis (writable.put s.1 s.2)

/-- Stores keep the size of every region. -/
theorem map_size_putAll (m : Memory) (stores : List (Addr × Bytes)) (i : Nat) :
    (m.putAll stores).regions[i]?.map (·.bytes.size) = m.regions[i]?.map (·.bytes.size) := by
  induction stores generalizing m with
  | nil => rfl
  | cons s stores inductionHypothesis =>
    refine (inductionHypothesis (m.put s.1 s.2)).trans ?_
    by_cases here : i = s.1.region
    · rw [here, getElem?_put_self, Option.map_map]
      simp only [Function.comp_def, Buffer.size_overwrite]
    · rw [getElem?_put_of_ne here]

/-- What lies apart from all stores stays. -/
theorem Holds.putAll (holds : m.Holds b bytes) (writable : ∀ s ∈ stores, m.Writable s.1 s.2.length)
    (apart : ∀ s ∈ stores, s.1.Apart s.2.length b bytes.length) : (m.putAll stores).Holds b bytes := by
  induction stores generalizing m with
  | nil => exact holds
  | cons s stores inductionHypothesis =>
    obtain ⟨first, writable⟩ := List.forall_mem_cons.mp writable
    obtain ⟨here, apart⟩ := List.forall_mem_cons.mp apart
    exact inductionHypothesis (holds.put_of_apart first here) (fun t member => (writable t member).put s.1 s.2) apart

/-- Where no two stores meet, each is there in the end. -/
theorem holds_putAll (writable : ∀ s ∈ stores, m.Writable s.1 s.2.length)
    (apart : stores.Pairwise fun s t => t.1.Apart t.2.length s.1 s.2.length) :
    ∀ s ∈ stores, (m.putAll stores).Holds s.1 s.2 := by
  induction stores generalizing m with
  | nil => simp
  | cons s stores inductionHypothesis =>
    obtain ⟨first, writable⟩ := List.forall_mem_cons.mp writable
    obtain ⟨here, apart⟩ := List.pairwise_cons.mp apart
    have later : ∀ t ∈ stores, (m.put s.1 s.2).Writable t.1 t.2.length :=
      fun t member => (writable t member).put s.1 s.2
    exact List.forall_mem_cons.mpr ⟨first.holds_put.putAll later here, inductionHypothesis later apart⟩

end Memory

/-! ## Runs of stores -/

namespace Run

/-- A run stores all the values that there are for it to store, one after the other, and changes nothing else that is
no scratch; it fails only if one of them is none. -/
def Performs (base : Nat) (pending : List (Addr × Except ExecutionFault Bytes)) (m : Memory)
    (outcome : Except CallError Unit × Memory) : Prop :=
  match outcome with
  | (.ok _, m') => ∃ stores : List (Addr × Bytes), pending = stores.map (fun s => (s.1, .ok s.2)) ∧
    m'.OwnScratch base ∧ (m.putAll stores).SameBelow base m'
  | (.error _, _) => ∃ p ∈ pending, ∃ fault, p.2 = .error fault

variable {base : Nat} {m m₁ : Memory} {pending pending' : List (Addr × Except ExecutionFault Bytes)}

theorem Performs.of_sameBelow {outcome : Except CallError Unit × Memory} (performs : Performs base pending m₁ outcome)
    (same : m.SameBelow base m₁) : Performs base pending m outcome := by
  obtain ⟨e | _, m'⟩ := outcome
  · exact performs
  · obtain ⟨stores, all, own, kept⟩ := performs
    exact ⟨stores, all, own, (same.putAll stores).trans kept⟩

/-- A run of runs, each of which leaves what the others need. -/
theorem performs_forM {α : Type} {list : List α} {act : α → Run Unit}
    {pending : α → List (Addr × Except ExecutionFault Bytes)} (ready : Memory → Prop)
    (own : ∀ m, ready m → m.OwnScratch base) (each : ∀ x ∈ list, ∀ m, ready m → Performs base (pending x) m (act x m))
    (keeps : ∀ x ∈ list, ∀ (m m' : Memory) (stores : List (Addr × Bytes)), ready m →
      pending x = stores.map (fun s => (s.1, .ok s.2)) → m'.OwnScratch base → (m.putAll stores).SameBelow base m' →
      ready m')
    (start : ready m) : Performs base (list.flatMap pending) m (forM list act m) := by
  induction list generalizing m with
  | nil => exact ⟨[], rfl, own m start, .refl base m⟩
  | cons x list inductionHypothesis =>
    obtain ⟨here, each⟩ := List.forall_mem_cons.mp each
    obtain ⟨keepsHere, keeps⟩ := List.forall_mem_cons.mp keeps
    have first := here m start
    rw [List.forM_cons, bind_apply]
    rcases ran : act x m with ⟨e | _, m₁⟩
    · rw [ran] at first
      obtain ⟨p, member, none⟩ := first
      exact ⟨p, List.mem_append_left _ member, none⟩
    · rw [ran] at first
      obtain ⟨stores, all, own₁, same⟩ := first
      have rest := inductionHypothesis each keeps (keepsHere m m₁ stores start all own₁ same)
      dsimp only
      rcases ranRest : forM list act m₁ with ⟨e | _, m'⟩ <;> rw [ranRest] at rest
      · obtain ⟨p, member, none⟩ := rest
        exact ⟨p, List.mem_append_right _ member, none⟩
      · obtain ⟨stores', all', own', same'⟩ := rest
        refine ⟨stores ++ stores', by rw [List.flatMap_cons, all, all', List.map_append], own', ?_⟩
        rw [Memory.putAll_append]
        exact (same.putAll stores').trans same'

end Run

/-! ## Leaves -/

namespace CallGraph

variable {g : CallGraph} {id base : Nat} {m : Memory} {dst : Addr} {src : List Addr} {kernel : Kernel} {data : NodeData}
  {kind : Kind} {kinds : List Kind} {values : List Bytes}

/-- Of a node that is a kernel on elements. -/
theorem settled_single_of_holds (descends : g.Descends) (found : g.nodes[id]? = some ⟨kernel, data, []⟩)
    (operands : kernel.operands? data = some (kinds, kind)) (held : List.Forall₂ m.Holds src values)
    (lengths : List.Forall₂ (fun (bytes : Bytes) (k : Kind) => bytes.length = k.size) values kinds)
    (writable : m.Writable dst kind.size) :
    (∃ fault e, kernel.compute data values = .error fault ∧ g.settled.single id dst src m = (.error e, m)) ∨
      ∃ bytes, kernel.compute data values = .ok bytes ∧ bytes.length = kind.size ∧
        g.settled.single id dst src m = (.ok (), m.put dst bytes) := by
  have ran : Node.runSingle g g.settled id ⟨kernel, data, []⟩ dst src m =
      (Run.ofExcept (kernel.compute data values) >>= Run.storeBytes dst) m :=
    Node.runSingle_of_holds operands held lengths
  rw [(settled_eq descends found).1, Run.within_apply, ran]
  cases computed : kernel.compute data values with
  | error fault => exact .inl ⟨fault, _, rfl, rfl⟩
  | ok bytes =>
    have length := Kernel.length_of_compute operands computed
    rw [Run.ofExcept_ok, pure_bind, Run.storeBytes_apply (length ▸ writable)]
    exact .inr ⟨bytes, rfl, length, rfl⟩

theorem performs_element (descends : g.Descends) (found : g.nodes[id]? = some ⟨kernel, data, []⟩)
    (operands : kernel.operands? data = some (kinds, kind)) (held : List.Forall₂ m.Holds src values)
    (lengths : List.Forall₂ (fun (bytes : Bytes) (k : Kind) => bytes.length = k.size) values kinds)
    (own : m.OwnScratch base) (writable : m.Writable dst kind.size) :
    Run.Performs base [(dst, kernel.compute data values)] m (g.settled.single id dst src m) := by
  obtain ⟨fault, e, none, ran⟩ | ⟨bytes, value, -, ran⟩ :=
    settled_single_of_holds descends found operands held lengths writable
  · rw [ran]
    exact ⟨_, List.mem_singleton_self _, fault, none⟩
  · rw [ran, value]
    exact ⟨[(dst, bytes)], rfl, own.put dst bytes, .refl base _⟩

/-- A conversion whose child writes another kind than the destination's: the child writes into scratch, which starts
from the destination's value, and from there the result is converted. -/
theorem settled_single_convert_destination (descends : g.Descends) {c : Nat} {n child : Node}
    {steps : List (Option (Kind × Kind))} {given want : Kind} (found : g.nodes[id]? = some n)
    (kernel : n.kernel = .convert) (data : n.data = .convert ⟨steps, some (given, want)⟩)
    (listed : n.children[0]? = some c) (there : g.nodes[c]? = some child) (dst : Addr) (src : List Addr) (m : Memory) :
    g.settled.single id dst src m = Run.within .convert (do
      let places ← Node.convertSources id 0 src steps
      let place ← Node.converted id src.length given want dst
      g.settled.single c place places
      Run.store given dst (← Run.load want place)) m := by
  have present : g.child id n 0 = .ok c := child_of_getElem? listed there
  rw [(settled_eq descends found).1, kernel]
  simp only [Node.runSingle, kernel, Node.runConvert, data, present, Run.ofExcept_ok, pure_bind, Node.converted,
    bind_assoc]

section Conversions

variable {elements : List SourceElement} {given want : Kind}

theorem length_converted (held : ∀ e ∈ elements, e.Held base m) :
    List.Forall₂ (fun (bytes : Bytes) (k : Kind) => bytes.length = k.size)
      (elements.map fun e => e.given.convert e.want e.bytes) (elements.map (·.want)) := by
  rw [List.forall₂_map_left_iff, List.forall₂_map_right_iff, List.forall₂_same]
  exact fun e member => Kind.length_convert (held e member).length_eq

/-- A kernel behind a conversion of sources is given what that leaves in scratch. -/
theorem performs_convert (handed : g.Handed)
    (found : g.nodes[id]? =
      some ⟨.convert, .convert ⟨elements.map fun e => ConvertPlan.step e.given e.want, none⟩, [id + 1]⟩)
    (below : g.nodes[id + 1]? = some ⟨kernel, data, []⟩)
    (operands : kernel.operands? data = some (elements.map (·.want), want)) (own : m.OwnScratch base)
    (held : ∀ e ∈ elements, e.Held base m) (inside : dst.region < base) (writable : m.Writable dst want.size) :
    Run.Performs base [(dst, kernel.compute data (elements.map fun e => e.given.convert e.want e.bytes))] m
      (g.settled.single id dst (elements.map (·.address)) m) := by
  obtain ⟨places, m₁, converted, converts, stands⟩ :=
    Node.convertSources_holds id 0 own held (Nat.le_of_eq (Nat.zero_add elements.length))
  have same : m.SameBelow base m₁ := fun i old => converts.frame i (.inl old)
  have ran := settled_single_convert handed found rfl rfl rfl rfl below dst converted
  have places : List.Forall₂ m₁.Holds places (elements.map fun e => e.given.convert e.want e.bytes) :=
    List.forall₂_map_right_iff.mpr (stands.imp fun _ _ there => there.1)
  rw [ran]
  exact (performs_element handed.descends below operands places (length_converted held) converts.own
    (writable.congr (same _ inside))).of_sameBelow same

/-- If the kernel writes another kind than the destination's, it writes into scratch, apart from that of the sources,
and from there the result is converted. -/
theorem performs_convert_destination (handed : g.Handed) (kinds : given ≠ want)
    (found : g.nodes[id]? =
      some ⟨.convert, .convert ⟨elements.map fun e => ConvertPlan.step e.given e.want, some (given, want)⟩, [id + 1]⟩)
    (below : g.nodes[id + 1]? = some ⟨kernel, data, []⟩)
    (operands : kernel.operands? data = some (elements.map (·.want), want)) (own : m.OwnScratch base)
    (held : ∀ e ∈ elements, e.Held base m) (inside : dst.region < base) (writable : m.Writable dst given.size) :
    Run.Performs base
      [(dst, (kernel.compute data (elements.map fun e => e.given.convert e.want e.bytes)).map (want.convert given))] m
      (g.settled.single id dst (elements.map (·.address)) m) := by
  obtain ⟨places, m₁, ran₁, converts, stands⟩ :=
    Node.convertSources_holds id 0 own held (Nat.le_of_eq (Nat.zero_add elements.length))
  have same₁ : m.SameBelow base m₁ := fun i old => converts.frame i (.inl old)
  obtain ⟨seed, length, seeded⟩ := (writable.congr (same₁ _ inside)).readable.exists_holds
  obtain ⟨region, m₂, ran₂, own₂, reserves, -⟩ := Node.converted_spec converts.own id elements.length
    (e := ⟨dst, given, want, seed⟩) ⟨inside, length, seeded⟩
  have behind : base ≤ region := (own₂.owned _ _ reserves.slotRegion?_eq).1
  have same₂ : m.SameBelow base m₂ := same₁.trans fun i old => reserves.frame i (by omega)
  have places : List.Forall₂ m₂.Holds places (elements.map fun e => e.given.convert e.want e.bytes) :=
    List.forall₂_map_right_iff.mpr
      (stands.imp fun _ _ there => there.1.congr (reserves.frame _ (there.2.ne own₂ reserves)))
  have run := settled_single_convert_destination handed.descends found rfl rfl rfl below dst
    (elements.map (·.address)) m
  rw [List.length_map] at run
  rw [run, Run.within_apply]
  simp only [Run.bind_apply, ran₁, ran₂]
  obtain ⟨fault, e, none, ran⟩ | ⟨bytes, value, length, ran⟩ :=
    settled_single_of_holds handed.descends below operands places (length_converted held) reserves.writable
  · rw [ran, none]
    exact ⟨_, List.mem_singleton_self _, fault, rfl⟩
  · have written := Memory.Writable.holds_put (length.symm ▸ reserves.writable)
    have writable₃ : (m₂.put ⟨region, 0⟩ bytes).Writable dst given.size :=
      (writable.congr (same₂ _ inside)).put _ _
    simp only [ran, value, Run.load_apply written length, Run.store_apply writable₃]
    refine ⟨[(dst, want.convert given bytes)], rfl, (own₂.put _ _).put _ _, ?_⟩
    rw [Kind.convert, if_neg (Ne.symm kinds)]
    exact (same₂.trans (Memory.sameBelow_put_of_le behind bytes)).put dst _

/-- A leaf stores what its kernel makes of the converted sources, converted to the kind of the destination. -/
theorem performs_ofLeaf (handed : g.Handed) (operands : kernel.operands? data = some (elements.map (·.want), want))
    (continues : g.Continues id (Chain.ofLeaf (kernel, data,
      .between (elements.map (·.given)) (elements.map (·.want)) (some given) (some want))).toList)
    (own : m.OwnScratch base) (held : ∀ e ∈ elements, e.Held base m) (inside : dst.region < base)
    (writable : m.Writable dst given.size) :
    Run.Performs base
      [(dst, (kernel.compute data (elements.map fun e => e.given.convert e.want e.bytes)).map (want.convert given))] m
      (g.settled.single id dst (elements.map (·.address)) m) := by
  have identity := isIdentity_between_iff (elements.map fun e => (e.given, e.want)) given want
  simp only [List.map_map, Function.comp_def, List.forall_mem_map] at identity
  rw [Chain.ofLeaf] at continues
  split at continues
  next plain =>
    rw [identity] at plain
    obtain ⟨rfl, same⟩ := plain
    rw [Kind.map_convert_self]
    refine performs_element handed.descends (continues 0 Nat.one_pos) operands ?_ (length_converted held) own writable
    rw [List.forall₂_map_left_iff, List.forall₂_map_right_iff, List.forall₂_same]
    intro e member
    rw [Kind.convert, if_pos (same e member)]
    exact (held e member).holds
  next =>
    have found : g.nodes[id]? = some ⟨.convert, .convert _, [id + 1]⟩ := continues 0 Nat.two_pos
    have below : g.nodes[id + 1]? = some ⟨kernel, data, []⟩ := continues 1 Nat.one_lt_two
    rw [ConvertPlan.between_map, ConvertPlan.step] at found
    by_cases kinds : given = want
    · subst kinds
      rw [if_pos rfl] at found
      rw [Kind.map_convert_self]
      exact performs_convert handed found below operands own held inside writable
    · rw [if_neg kinds] at found
      exact performs_convert_destination handed kinds found below operands own held inside writable

end Conversions

end CallGraph

end ArrayCall
