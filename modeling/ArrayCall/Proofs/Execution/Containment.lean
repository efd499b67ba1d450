import ArrayCall.Proofs.Execution.Accumulation

/-!
# Runs within memory

A run is contained (`Run.Contained`) if it ends with a grown memory, or fails by a division by zero and in no
other way. A kernel on elements is, where its operands can be read and its destination can be written
(`Node.contained_runSingle`), and so is a conversion around it (`CallGraph.contained_ofLeaf`).
-/

namespace ArrayCall

/-! ## Contained runs -/

namespace Run

variable {α β : Type} {base : Nat} {m : Memory}

/-- A run that ends leaves a grown memory, and one that fails has divided by zero. -/
def Contained (base : Nat) (m : Memory) (outcome : Except CallError α × Memory) : Prop :=
  match outcome with
  | (.ok _, m') => m.Grows m' ∧ m'.OwnScratch base
  | (.error e, _) => ∃ kernel, e = .execution kernel .divisionByZero

theorem contained_within (kernel : Kernel) {act : Run α} (contained : Contained base m (act m)) :
    Contained base m (within kernel act m) := by
  rw [within_apply]
  generalize act m = outcome at contained
  obtain ⟨e | a, m'⟩ := outcome
  · obtain ⟨name, rfl⟩ := contained
    cases name with
    | none => exact ⟨_, rfl⟩
    | some name => exact ⟨_, rfl⟩
  · exact contained

theorem Contained.of_grows {m' : Memory} {outcome : Except CallError α × Memory} (contained : Contained base m' outcome)
    (grows : m.Grows m') : Contained base m outcome := by
  obtain ⟨e | a, m''⟩ := outcome
  · exact contained
  · exact ⟨grows.trans contained.1, contained.2⟩

theorem contained_bind {first : Run α} {next : α → Run β} (here : Contained base m (first m))
    (later : ∀ a m', m.Grows m' → m'.OwnScratch base → Contained base m' (next a m')) :
    Contained base m ((first >>= next) m) := by
  rw [bind_apply]
  generalize first m = outcome at here
  obtain ⟨e | a, m'⟩ := outcome
  · exact here
  · exact (later a m' here.1 here.2).of_grows here.1

/-- What follows an action that is known to end. -/
theorem contained_bind_of_ok {first : Run α} {next : α → Run β} {a : α} {m' : Memory} (ran : first m = (.ok a, m'))
    (grows : m.Grows m') (later : Contained base m' (next a m')) : Contained base m ((first >>= next) m) := by
  rw [bind_apply, ran]
  exact later.of_grows grows

theorem contained_forM {list : List α} {act : α → Run Unit} (own : m.OwnScratch base)
    (each : ∀ a ∈ list, ∀ m', m.Grows m' → m'.OwnScratch base → Contained base m' (act a m')) :
    Contained base m (forM list act m) := by
  induction list generalizing m with
  | nil => exact ⟨.refl m, own⟩
  | cons a list inductionHypothesis =>
    obtain ⟨first, others⟩ := List.forall_mem_cons.mp each
    rw [List.forM_cons]
    refine contained_bind (first m (.refl m) own) fun _ m' grows own => ?_
    exact inductionHypothesis own fun b member m'' grows' => others b member m'' (grows.trans grows')

theorem contained_storeBytes (own : m.OwnScratch base) {a : Addr} {new : Bytes} (writable : m.Writable a new.length) :
    Contained base m (storeBytes a new m) := by
  rw [storeBytes_apply writable]
  exact ⟨m.grows_put a new, own.put a new⟩

theorem contained_store (own : m.OwnScratch base) {a : Addr} {k : Kind} (writable : m.Writable a k.size)
    (value : Scalar) :
    Contained base m (store k a value m) := by
  rw [store_apply writable]
  exact ⟨m.grows_put a _, own.put a _⟩

end Run

/-! ## Kernels on elements -/

namespace Run

variable {m : Memory} {a : Addr} {k : Kind}

theorem loadBytes_of_readable {length : Nat} (readable : m.Readable a length) :
    ∃ bytes, loadBytes a length m = (.ok bytes, m) := by
  obtain ⟨bytes, same, holds⟩ := readable.exists_holds
  exact ⟨bytes, loadBytes_apply holds same⟩

theorem load_of_readable (readable : m.Readable a k.size) : ∃ value, load k a m = (.ok value, m) := by
  obtain ⟨bytes, same, holds⟩ := readable.exists_holds
  exact ⟨_, load_apply holds same⟩

theorem loadAll_of_readable {src : List Addr} {kinds : List Kind}
    (readable : List.Forall₂ (fun a (k : Kind) => m.Readable a k.size) src kinds) :
    ∃ values, values.length = kinds.length ∧ loadAll src kinds m = (.ok values, m) := by
  induction readable with
  | nil => exact ⟨[], rfl, rfl⟩
  | cons here _ inductionHypothesis =>
    obtain ⟨bytes, loaded⟩ := loadBytes_of_readable here
    obtain ⟨values, length, rest⟩ := inductionHypothesis
    refine ⟨bytes :: values, congrArg (· + 1) length, ?_⟩
    simp only [loadAll, bind_apply, loaded, rest, pure_apply]

end Run

namespace Node

variable {g : CallGraph} {r : Runner} {id base : Nat} {n : Node} {m : Memory} {dst : Addr} {src : List Addr}

/-- A kernel on elements finds its operands, so nothing is left to fail but a division. -/
theorem contained_runSingle {kinds : List Kind} {kind : Kind}
    (operands : n.kernel.operands? n.data = some (kinds, kind))
    (own : m.OwnScratch base) (readable : List.Forall₂ (fun a (k : Kind) => m.Readable a k.size) src kinds)
    (writable : m.Writable dst kind.size) : Run.Contained base m (n.runSingle g r id dst src m) := by
  obtain ⟨values, length, loaded⟩ := Run.loadAll_of_readable readable
  rw [runSingle_of_operands operands readable.length_eq, Run.bind_apply, loaded]
  dsimp only
  cases computed : n.kernel.compute n.data values with
  | ok bytes => exact Run.contained_storeBytes own (Kernel.length_of_compute operands computed ▸ writable)
  | error fault =>
    obtain rfl := Kernel.divides_of_compute operands length computed
    exact ⟨none, rfl⟩

/-- An element that can be read is converted to where it can be read, and written, in the other kind. -/
theorem converted_writable (own : m.OwnScratch base) (id slot : Nat) {given : Kind} (want : Kind) {a : Addr}
    (readable : m.Readable a given.size) :
    ∃ place m', converted id slot given want a m = (.ok place, m') ∧ m.Grows m' ∧ m'.OwnScratch base ∧
      m'.Writable place want.size := by
  have asked : Run.scratch id slot want.size m =
      (.ok ⟨(m.scratch id slot want.size).1, 0⟩, (m.scratch id slot want.size).2) := rfl
  obtain ⟨own', reserves⟩ := Memory.scratch_spec own id slot want.size
  have grows := m.grows_scratch id slot want.size
  generalize m.scratch id slot want.size = reserved at asked own' reserves grows
  obtain ⟨region, m'⟩ := reserved
  obtain ⟨value, read⟩ := Run.load_of_readable (readable.of_grows grows)
  have stored : Run.store want ⟨region, 0⟩ value m' = (.ok (), m'.put ⟨region, 0⟩ (value.encode want)) :=
    Run.store_apply reserves.writable
  refine ⟨⟨region, 0⟩, m'.put ⟨region, 0⟩ (value.encode want), ?_, grows.trans (m'.grows_put _ _), own'.put _ _,
    reserves.writable.put _ _⟩
  simp only [converted, Run.bind_apply, asked, read, stored, Run.pure_apply]

/-- Sources that can be read in the kinds that they have are converted to where they can be read in the
kinds that the kernel takes. -/
theorem convertSources_readable {kinds : List (Kind × Kind)} (own : m.OwnScratch base) (id slot : Nat)
    (readable : List.Forall₂ (fun a (p : Kind × Kind) => m.Readable a p.1.size) src kinds) :
    ∃ places m', convertSources id slot src (kinds.map fun p => ConvertPlan.step p.1 p.2) m = (.ok places, m') ∧
      m.Grows m' ∧ m'.OwnScratch base ∧
      List.Forall₂ (fun a (p : Kind × Kind) => m'.Readable a p.2.size) places kinds := by
  induction kinds generalizing src slot m with
  | nil =>
    obtain rfl := List.forall₂_nil_right_iff.mp readable
    exact ⟨[], m, rfl, .refl m, own, .nil⟩
  | cons p kinds inductionHypothesis =>
    obtain ⟨a, src, first, others, rfl⟩ := List.forall₂_cons_right_iff.mp readable
    rw [List.map_cons, ConvertPlan.step]
    split
    next same =>
      obtain ⟨places, m', ran, grows, own', rest⟩ := inductionHypothesis own (slot + 1) others
      refine ⟨a :: places, m', ?_, grows, own', .cons (same ▸ first.of_grows grows) rest⟩
      rw [convertSources, Run.bind_apply, ran]
      rfl
    next =>
      obtain ⟨place, m₁, stored, grows₁, own₁, writable⟩ := converted_writable own id slot p.2 first
      have later := others.imp fun _ _ there => there.of_grows grows₁
      obtain ⟨places, m', ran, grows, own', rest⟩ := inductionHypothesis own₁ (slot + 1) later
      refine ⟨place :: places, m', ?_, grows₁.trans grows, own', .cons (writable.of_grows grows).readable rest⟩
      simp only [convertSources_cons_some, Run.bind_apply, stored, ran]
      rfl

/-- A conversion hands its child elements of the kinds that the kernel takes, and afterwards finds the
destination where it was. -/
theorem contained_runSingle_convert {c : Nat} {kinds : List (Kind × Kind)} {given want : Kind}
    (kernel : n.kernel = .convert)
    (data : n.data = .convert (.between (kinds.map (·.1)) (kinds.map (·.2)) (some given) (some want)))
    (present : g.child id n 0 = .ok c) (own : m.OwnScratch base)
    (readable : List.Forall₂ (fun a (p : Kind × Kind) => m.Readable a p.1.size) src kinds)
    (writable : m.Writable dst given.size)
    (child : ∀ {place places m'}, m'.OwnScratch base →
      List.Forall₂ (fun a (p : Kind × Kind) => m'.Readable a p.2.size) places kinds → m'.Writable place want.size →
      Run.Contained base m' (r.single c place places m')) :
    Run.Contained base m (n.runSingle g r id dst src m) := by
  obtain ⟨places, m₁, ran, grows₁, own₁, places₁⟩ := convertSources_readable own id 0 readable
  simp only [runSingle, kernel, runConvert, data, present, Run.ofExcept_ok, pure_bind, ConvertPlan.between_map]
  refine Run.contained_bind_of_ok ran grows₁ ?_
  rw [ConvertPlan.step]
  split
  next unconverted =>
    have same : given = want := by simpa using unconverted
    exact child own₁ places₁ (same ▸ writable.of_grows grows₁)
  next differs =>
    obtain ⟨place, m₂, stored, grows₂, own₂, room⟩ :=
      converted_writable own₁ id src.length want (writable.of_grows grows₁).readable
    have places₂ := places₁.imp fun _ _ there => there.of_grows grows₂
    have run : Run.Contained base m₁ ((converted id src.length given want dst >>= fun place =>
        r.single c place places >>= fun _ => Run.load want place >>= Run.store given dst) m₁) := by
      refine Run.contained_bind_of_ok stored grows₂ ?_
      refine Run.contained_bind (child own₂ places₂ room) fun _ m₃ grows₃ own₃ => ?_
      obtain ⟨value, read⟩ := Run.load_of_readable (room.of_grows grows₃).readable
      have writable₃ := writable.of_grows ((grows₁.trans grows₂).trans grows₃)
      exact Run.contained_bind_of_ok read (.refl m₃) (Run.contained_store own₃ writable₃ value)
    simpa only [converted, bind_assoc, pure_bind] using run

end Node

namespace CallGraph

variable {g : CallGraph} {id base : Nat} {m : Memory} {dst : Addr} {src : List Addr}

theorem contained_element (descends : g.Descends) {n : Node} (found : g.nodes[id]? = some n) {kinds : List Kind}
    {kind : Kind} (operands : n.kernel.operands? n.data = some (kinds, kind)) (own : m.OwnScratch base)
    (readable : List.Forall₂ (fun a (k : Kind) => m.Readable a k.size) src kinds)
    (writable : m.Writable dst kind.size) :
    Run.Contained base m (g.settled.single id dst src m) := by
  rw [(settled_eq descends found).1]
  exact Run.contained_within _ (Node.contained_runSingle operands own readable writable)

/-- A leaf, behind a conversion or not, is given elements of the kinds that the arguments and the
destination have. -/
theorem contained_ofLeaf (descends : g.Descends) {kernel : Kernel} {data : NodeData} {kinds : List (Kind × Kind)}
    {given want : Kind} (operands : kernel.operands? data = some (kinds.map (·.2), want))
    (continues : g.Continues id (Chain.ofLeaf (kernel, data,
      .between (kinds.map (·.1)) (kinds.map (·.2)) (some given) (some want))).toList)
    (own : m.OwnScratch base) (readable : List.Forall₂ (fun a (p : Kind × Kind) => m.Readable a p.1.size) src kinds)
    (writable : m.Writable dst given.size) : Run.Contained base m (g.settled.single id dst src m) := by
  rw [Chain.ofLeaf] at continues
  split at continues
  next plain =>
    obtain ⟨rfl, same⟩ := (isIdentity_between_iff kinds given want).mp plain
    have found : g.nodes[id]? = some ⟨kernel, data, []⟩ := continues 0 Nat.one_pos
    rw [← List.map_congr_left same] at operands
    exact contained_element descends found operands own (List.forall₂_map_right_iff.mpr readable) writable
  next =>
    have found : g.nodes[id]? = some ⟨.convert, .convert _, [id + 1]⟩ := continues 0 Nat.two_pos
    have below : g.nodes[id + 1]? = some ⟨kernel, data, []⟩ := continues 1 Nat.one_lt_two
    rw [(settled_eq descends found).1]
    refine Run.contained_within _ ?_
    refine Node.contained_runSingle_convert (c := id + 1) rfl rfl ?_ own readable writable fun own' places place => ?_
    · exact child_of_getElem? rfl below
    · exact contained_element descends below operands own' (List.forall₂_map_right_iff.mpr places) place

end CallGraph

end ArrayCall
