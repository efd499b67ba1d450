import ArrayCall.Proofs.Execution.Containment

/-!
# What a run writes

Whatever stands in the memory of a call and is not written stays where it is. `Memory.Spares` says what
of one memory is still there in another one, and `Run.Sparing` says it of a run that ends. A kernel on
elements writes one element (`Node.sparing_runSingle`), and a conversion around it writes scratch besides,
which lies behind the memory of the call (`CallGraph.sparing_ofLeaf`).
-/

namespace ArrayCall

/-- The bytes from one address on lie before or behind those from another address on. -/
def Addr.Apart (a : Addr) (length : Nat) (b : Addr) (length' : Nat) : Prop :=
  a.region = b.region → a.offset + length ≤ b.offset ∨ b.offset + length' ≤ a.offset

/-! ## Memory -/

namespace Memory

/-- The bytes at spared addresses of a call, whose regions have numbers below `base`, stay. -/
structure Spares (spared : Addr → Nat → Prop) (base : Nat) (m m' : Memory) : Prop where
  own : m'.OwnScratch base
  kept : ∀ {b : Addr} {bytes : Bytes}, b.region < base → spared b bytes.length → m.Holds b bytes → m'.Holds b bytes

variable {m m' m'' : Memory} {base : Nat} {spared spared' : Addr → Nat → Prop} {a : Addr} {new : Bytes}

theorem Spares.refl (own : m.OwnScratch base) : m.Spares spared base m := ⟨own, fun _ _ holds => holds⟩

theorem Spares.trans (first : m.Spares spared base m') (second : m'.Spares spared base m'') :
    m.Spares spared base m'' :=
  ⟨second.own, fun below apart holds => second.kept below apart (first.kept below apart holds)⟩

theorem Spares.mono (spares : m.Spares spared base m') (fewer : ∀ b length, spared' b length → spared b length) :
    m.Spares spared' base m' :=
  ⟨spares.own, fun below apart holds => spares.kept below (fewer _ _ apart) holds⟩

theorem Holds.put_of_apart {b : Addr} {bytes : Bytes} (holds : m.Holds b bytes) (writable : m.Writable a new.length)
    (apart : a.Apart new.length b bytes.length) : (m.put a new).Holds b bytes := by
  by_cases same : b.region = a.region
  · exact holds.put_of_disjoint writable (apart same.symm).symm
  · exact holds.congr (getElem?_put_of_ne same new)

theorem spares_put (own : m.OwnScratch base) (writable : m.Writable a new.length)
    (apart : ∀ b length, b.region < base → spared b length → a.Apart new.length b length) :
    m.Spares spared base (m.put a new) :=
  ⟨own.put a new, fun below given holds => holds.put_of_apart writable (apart _ _ below given)⟩

theorem spares_scratch (own : m.OwnScratch base) (node slot length : Nat) :
    m.Spares spared base (m.scratch node slot length).2 := by
  obtain ⟨own', reserves⟩ := scratch_spec own node slot length
  obtain ⟨least, -⟩ := own'.owned _ _ reserves.slotRegion?_eq
  exact ⟨own', fun below _ holds => holds.congr (reserves.frame _ (by omega))⟩

end Memory

/-! ## Runs -/

namespace Run

variable {α β : Type} {m : Memory} {base : Nat} {spared : Addr → Nat → Prop} {a : Addr}

/-- A run that ends has spared such addresses. -/
def Sparing (spared : Addr → Nat → Prop) (base : Nat) (m : Memory) (outcome : Except CallError α × Memory) : Prop :=
  ∀ v m', outcome = (.ok v, m') → m.Spares spared base m'

theorem sparing_of_snd_eq (own : m.OwnScratch base) {outcome : Except CallError α × Memory} (same : outcome.2 = m) :
    Sparing spared base m outcome := by
  rintro v m' rfl
  obtain rfl : m' = m := same
  exact .refl own

theorem snd_ofExcept (x : Except ExecutionFault α) (m : Memory) : (ofExcept x m).2 = m := by
  cases x <;> rfl

theorem loadBytes_eq (a : Addr) (length : Nat) (m : Memory) :
    loadBytes a length m = ofExcept (m.readBytes a length) m := rfl

theorem snd_loadBytes (a : Addr) (length : Nat) (m : Memory) : (loadBytes a length m).2 = m :=
  snd_ofExcept _ m

theorem load_eq (k : Kind) (a : Addr) (m : Memory) : load k a m = ofExcept ((m.readBytes a k.size).map k.decode) m := by
  rw [load, bind_apply, loadBytes_eq]
  cases m.readBytes a k.size <;> rfl

theorem snd_bind {first : Run α} {next : α → Run β} (here : (first m).2 = m) (later : ∀ v, (next v m).2 = m) :
    ((first >>= next) m).2 = m := by
  rw [bind_apply]
  rcases ran : first m with ⟨e | v, m'⟩
  · rwa [ran] at here
  · rw [ran] at here
    obtain rfl : m' = m := here
    exact later v

theorem snd_loadAll (src : List Addr) (kinds : List Kind) (m : Memory) : (loadAll src kinds m).2 = m := by
  induction src generalizing kinds with
  | nil => rfl
  | cons a src inductionHypothesis =>
    cases kinds with
    | nil => rfl
    | cons k kinds =>
      exact snd_bind (snd_loadBytes a k.size m) fun bytes => snd_bind (inductionHypothesis kinds) fun values => rfl

theorem snd_load (k : Kind) (a : Addr) (m : Memory) : (load k a m).2 = m := by
  rw [load_eq, snd_ofExcept]

theorem sparing_bind {first : Run α} {next : α → Run β} (here : Sparing spared base m (first m))
    (later : ∀ v m', first m = (.ok v, m') → m'.OwnScratch base → Sparing spared base m' (next v m')) :
    Sparing spared base m ((first >>= next) m) := by
  intro v m'' ran
  rw [bind_apply] at ran
  split at ran
  next v' m' ran' =>
    have spares := here v' m' ran'
    exact spares.trans (later v' m' ran' spares.own v m'' ran)
  next => cases ran

/-- What comes after an action that only looks. -/
theorem sparing_bind_of_snd_eq (own : m.OwnScratch base) {first : Run α} {next : α → Run β} (same : (first m).2 = m)
    (later : ∀ v, first m = (.ok v, m) → Sparing spared base m (next v m)) :
    Sparing spared base m ((first >>= next) m) := by
  refine sparing_bind (sparing_of_snd_eq own same) fun v m' ran _ => ?_
  rw [ran] at same
  cases same
  exact later v ran

theorem sparing_within (kernel : Kernel) {act : Run α} (sparing : Sparing spared base m (act m)) :
    Sparing spared base m (within kernel act m) := by
  intro v m' ran
  rw [within_apply] at ran
  generalize act m = outcome at sparing ran
  obtain ⟨e | v', m''⟩ := outcome
  · cases ran
  · cases ran
    exact sparing _ _ rfl

theorem sparing_forM (own : m.OwnScratch base) {list : List α} {act : α → Run Unit}
    (each : ∀ x ∈ list, ∀ m', m'.OwnScratch base → Sparing spared base m' (act x m')) :
    Sparing spared base m (forM list act m) := by
  induction list generalizing m with
  | nil => exact sparing_of_snd_eq own rfl
  | cons x list inductionHypothesis =>
    obtain ⟨first, others⟩ := List.forall_mem_cons.mp each
    rw [List.forM_cons]
    exact sparing_bind (first m own) fun _ m' _ own' => inductionHypothesis own' others

theorem sparing_storeBytes (own : m.OwnScratch base) {new : Bytes}
    (apart : ∀ b length, b.region < base → spared b length → a.Apart new.length b length) :
    Sparing spared base m (storeBytes a new m) := by
  intro v m' ran
  change (ofExcept (m.checkWrite a new.length) >>= fun _ => modify (·.put a new) : Run Unit) m = _ at ran
  cases checked : m.checkWrite a new.length with
  | error fault =>
    rw [checked] at ran
    cases ran
  | ok u =>
    rw [checked] at ran
    cases ran
    exact Memory.spares_put own (Memory.writable_of_checkWrite_eq checked) apart

theorem sparing_store (own : m.OwnScratch base) {k : Kind} {value : Scalar}
    (apart : ∀ b length, b.region < base → spared b length → a.Apart k.size b length) :
    Sparing spared base m (store k a value m) := by
  refine sparing_storeBytes own ?_
  rwa [length_encode]

/-- Scratch lies behind all that belongs to the call. -/
theorem sparing_store_of_le (own : m.OwnScratch base) (behind : base ≤ a.region) (k : Kind) (value : Scalar) :
    Sparing spared base m (store k a value m) :=
  sparing_store own fun _ _ below _ same => by omega

theorem sparing_scratch (own : m.OwnScratch base) (node slot length : Nat) :
    Sparing spared base m (scratch node slot length m) := by
  intro v m' ran
  cases ran
  exact Memory.spares_scratch own node slot length

theorem base_le_of_scratch (own : m.OwnScratch base) {node slot length : Nat} {place : Addr} {m' : Memory}
    (ran : scratch node slot length m = (.ok place, m')) : base ≤ place.region := by
  cases ran
  obtain ⟨own', reserves⟩ := Memory.scratch_spec own node slot length
  exact (own'.owned _ _ reserves.slotRegion?_eq).1

end Run

/-! ## Nodes -/

namespace Node

variable {g : CallGraph} {r : Runner} {id base : Nat} {n : Node} {m : Memory} {dst : Addr} {src : List Addr}
  {spared : Addr → Nat → Prop}

/-- A kernel on elements writes its destination, and reads besides. -/
theorem sparing_runSingle {kinds : List Kind} {kind : Kind} (operands : n.kernel.operands? n.data = some (kinds, kind))
    (own : m.OwnScratch base)
    (apart : ∀ b length, b.region < base → spared b length → dst.Apart kind.size b length) :
    Run.Sparing spared base m (n.runSingle g r id dst src m) := by
  by_cases length : src.length = kinds.length
  · rw [runSingle_of_operands operands length]
    refine Run.sparing_bind_of_snd_eq own (Run.snd_loadAll ..) fun values _ => ?_
    cases computed : n.kernel.compute n.data values with
    | ok bytes => exact Run.sparing_storeBytes own (Kernel.length_of_compute operands computed ▸ apart)
    | error fault => exact fun _ _ ran => nomatch ran
  · obtain ⟨fault, fails⟩ : ∃ fault, n.runSingle g r id dst src = Run.fail fault :=
      runSingle_of_length_ne operands length
    rw [fails]
    exact fun _ _ ran => nomatch ran

theorem sparing_converted (own : m.OwnScratch base) (slot : Nat) (given want : Kind) (a : Addr) :
    Run.Sparing spared base m (converted id slot given want a m) := by
  refine Run.sparing_bind (Run.sparing_scratch own id slot want.size) fun place m' ran own' => ?_
  have behind := Run.base_le_of_scratch own ran
  refine Run.sparing_bind_of_snd_eq own' (Run.snd_load ..) fun value _ => ?_
  exact Run.sparing_bind (Run.sparing_store_of_le own' behind want value) fun _ _ _ own'' =>
    Run.sparing_of_snd_eq own'' rfl

theorem base_le_of_converted (own : m.OwnScratch base) {slot : Nat} {given want : Kind} {a place : Addr} {m' : Memory}
    (ran : converted id slot given want a m = (.ok place, m')) : base ≤ place.region := by
  rw [converted, Run.bind_apply] at ran
  split at ran
  next reserved m₁ asked =>
    have behind := Run.base_le_of_scratch own asked
    rw [Run.bind_apply] at ran
    split at ran
    next value m₂ read =>
      rw [Run.bind_apply] at ran
      split at ran
      next =>
        cases ran
        exact behind
      next => cases ran
    next => cases ran
  next => cases ran

theorem sparing_convertSources (own : m.OwnScratch base) (slot : Nat) (plan : List (Option (Kind × Kind))) :
    Run.Sparing spared base m (convertSources id slot src plan m) := by
  induction src generalizing slot plan m with
  | nil => exact Run.sparing_of_snd_eq own rfl
  | cons a src inductionHypothesis =>
    rcases plan with _ | ⟨_ | ⟨given, want⟩, plan⟩
    · exact Run.sparing_of_snd_eq own rfl
    · exact Run.sparing_bind (inductionHypothesis own (slot + 1) plan) fun _ _ _ own' => Run.sparing_of_snd_eq own' rfl
    · rw [convertSources_cons_some]
      refine Run.sparing_bind (sparing_converted own slot given want a) fun place m' _ own' => ?_
      exact Run.sparing_bind (inductionHypothesis own' (slot + 1) plan) fun _ _ _ own'' =>
        Run.sparing_of_snd_eq own'' rfl

/-- A conversion writes scratch before its child runs, and the destination afterwards. If the destination
is converted, too, the child writes scratch as well. -/
theorem sparing_runSingle_convert {c : Nat} {steps : List (Option (Kind × Kind))} {given want : Kind}
    (kernel : n.kernel = .convert) (data : n.data = .convert ⟨steps, ConvertPlan.step given want⟩)
    (present : g.child id n 0 = .ok c) (own : m.OwnScratch base)
    (apart : ∀ b length, b.region < base → spared b length → dst.Apart given.size b length)
    (child : ∀ {place places m'}, m'.OwnScratch base →
      (∀ b length, b.region < base → spared b length → place.Apart want.size b length) →
      Run.Sparing spared base m' (r.single c place places m')) :
    Run.Sparing spared base m (n.runSingle g r id dst src m) := by
  simp only [runSingle, kernel, runConvert, data, present, Run.ofExcept_ok, pure_bind]
  refine Run.sparing_bind (sparing_convertSources own 0 steps) fun places m₁ _ own₁ => ?_
  rw [ConvertPlan.step]
  split
  next unconverted =>
    have same : given = want := by simpa using unconverted
    exact child own₁ (same ▸ apart)
  next =>
    have run : Run.Sparing spared base m₁ ((converted id src.length given want dst >>= fun place =>
        r.single c place places >>= fun _ => Run.load want place >>= Run.store given dst) m₁) := by
      refine Run.sparing_bind (sparing_converted own₁ src.length given want dst) fun place m₂ ran own₂ => ?_
      have behind := base_le_of_converted own₁ ran
      refine Run.sparing_bind (child own₂ fun b length below _ same => by omega) fun _ m₃ _ own₃ => ?_
      exact Run.sparing_bind_of_snd_eq own₃ (Run.snd_load ..) fun value _ => Run.sparing_store own₃ apart
    simpa only [converted, bind_assoc, pure_bind] using run

end Node

namespace CallGraph

variable {g : CallGraph} {id base : Nat} {m : Memory} {dst : Addr} {spared : Addr → Nat → Prop}

/-- A leaf, behind a conversion or not, writes one element of the kind that the destination has. -/
theorem sparing_ofLeaf (descends : g.Descends) {kernel : Kernel} {data : NodeData} {kinds : List (Kind × Kind)}
    {given want : Kind} (operands : kernel.operands? data = some (kinds.map (·.2), want))
    (continues : g.Continues id (Chain.ofLeaf (kernel, data,
      .between (kinds.map (·.1)) (kinds.map (·.2)) (some given) (some want))).toList)
    (own : m.OwnScratch base)
    (apart : ∀ b length, b.region < base → spared b length → dst.Apart given.size b length) (src : List Addr) :
    Run.Sparing spared base m (g.settled.single id dst src m) := by
  rw [Chain.ofLeaf] at continues
  split at continues
  next plain =>
    obtain ⟨rfl, -⟩ := (isIdentity_between_iff kinds given want).mp plain
    have found : g.nodes[id]? = some ⟨kernel, data, []⟩ := continues 0 Nat.one_pos
    rw [(settled_eq descends found).1]
    exact Run.sparing_within _ (Node.sparing_runSingle operands own apart)
  next =>
    have found : g.nodes[id]? = some ⟨.convert, .convert _, [id + 1]⟩ := continues 0 Nat.two_pos
    have below : g.nodes[id + 1]? = some ⟨kernel, data, []⟩ := continues 1 Nat.one_lt_two
    rw [(settled_eq descends found).1]
    refine Run.sparing_within _ ?_
    refine Node.sparing_runSingle_convert (c := id + 1) rfl rfl (child_of_getElem? rfl below) own apart
      fun own' apart' => ?_
    rw [(settled_eq descends below).1]
    exact Run.sparing_within _ (Node.sparing_runSingle operands own' apart')

end CallGraph

end ArrayCall
