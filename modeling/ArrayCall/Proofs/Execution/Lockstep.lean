import ArrayCall.Proofs.Execution.Rereading

/-!
# Two runs in step

Two memories may differ in the regions in front, which the runs only read, and agree in everything behind
(`Fronts.Beside`). Two runs are in step if from all such memories they end alike, with one and the same error or
with related results, and leave memories that still agree behind (`Run.InStep`).

A kernel on elements, behind a conversion or not, is in step with itself if each of its sources is served the
same bytes in both memories (`Fronts.Serves`), wherever they stand (`CallGraph.inStep_ofLeaf`).
-/

namespace ArrayCall

/-- As many regions on the left as on the right. -/
structure Fronts where
  left : List Region
  right : List Region
  length_eq : right.length = left.length

namespace Fronts

variable {f : Fronts} {m m' : Memory} {a a' : Addr} {length : Nat}

/-- The memories have these regions in front, and behind them the same ones, among which is all scratch. -/
structure Beside (f : Fronts) (m m' : Memory) : Prop where
  regions : ∃ rest, m.regions = f.left ++ rest ∧ m'.regions = f.right ++ rest
  slots : m'.slots = m.slots
  behind : ∀ s ∈ m.slots, f.left.length ≤ s.2

/-- What is read at the one address on the left is read at the other on the right: they are one address behind
the fronts, or the same bytes stand at both in front. -/
def Serves (f : Fronts) (length : Nat) (a a' : Addr) : Prop :=
  (a' = a ∧ f.left.length ≤ a.region) ∨
    ∃ bytes, bytes.length = length ∧ Memory.Holds ⟨f.left, []⟩ a bytes ∧ Memory.Holds ⟨f.right, []⟩ a' bytes

theorem serves_self (length : Nat) (behind : f.left.length ≤ a.region) : f.Serves length a a :=
  .inl ⟨rfl, behind⟩

namespace Beside

theorem getElem?_eq (beside : f.Beside m m') {i : Nat} (behind : f.left.length ≤ i) :
    m'.regions[i]? = m.regions[i]? := by
  obtain ⟨rest, left, right⟩ := beside.regions
  rw [left, right, List.getElem?_append_right behind, List.getElem?_append_right (f.length_eq ▸ behind), f.length_eq]

theorem length_eq (beside : f.Beside m m') : m'.regions.length = m.regions.length := by
  obtain ⟨rest, left, right⟩ := beside.regions
  rw [left, right, List.length_append, List.length_append, f.length_eq]

theorem locate_eq (beside : f.Beside m m') (behind : f.left.length ≤ a.region) (length : Nat) :
    m'.locate a length = m.locate a length := by
  rw [Memory.locate, Memory.locate, beside.getElem?_eq behind]

/-- What stands in front stands in the whole memory. -/
theorem holds (beside : f.Beside m m') {bytes : Bytes} (left : Memory.Holds ⟨f.left, []⟩ a bytes)
    (right : Memory.Holds ⟨f.right, []⟩ a' bytes) : m.Holds a bytes ∧ m'.Holds a' bytes := by
  have front : ∀ {regions rest : List Region} {a : Addr}, Memory.Holds ⟨regions, []⟩ a bytes →
      (regions ++ rest)[a.region]? = regions[a.region]? := by
    rintro regions rest a ⟨r, found, -⟩
    exact List.getElem?_append_left (List.getElem?_eq_some_iff.mp found).1
  obtain ⟨rest, whole, whole'⟩ := beside.regions
  exact ⟨left.congr (by rw [whole, front left]), right.congr (by rw [whole', front right])⟩

theorem readBytes_eq (beside : f.Beside m m') (serves : f.Serves length a a') :
    m'.readBytes a' length = m.readBytes a length := by
  obtain ⟨rfl, behind⟩ | ⟨bytes, rfl, left, right⟩ := serves
  · rw [Memory.readBytes, Memory.readBytes, beside.locate_eq behind]
  · obtain ⟨here, there⟩ := beside.holds left right
    rw [here.readBytes_eq, there.readBytes_eq]

theorem modify (beside : f.Beside m m') {region : Nat} (behind : f.left.length ≤ region) (change : Region → Region) :
    f.Beside { m with regions := m.regions.modify region change }
      { m' with regions := m'.regions.modify region change } where
  regions := by
    obtain ⟨rest, left, right⟩ := beside.regions
    obtain ⟨i, rfl⟩ := Nat.exists_eq_add_of_le behind
    have moved : ∀ front : List Region,
      (front ++ rest).modify (front.length + i) change = front ++ rest.modify i change := by
      intro front
      simp only [List.modify, List.modifyTailIdx_add]
    refine ⟨rest.modify i change, ?_, ?_⟩
    · rw [left, moved]
    · rw [right, ← f.length_eq, moved]
  slots := beside.slots
  behind := beside.behind

/-- A slot without scratch is given the next region, which has one number in both memories. -/
theorem append (beside : f.Beside m m') (r : Region) (slot : Nat × Nat) :
    f.Beside ⟨m.regions ++ [r], m.slots ++ [(slot, m.regions.length)]⟩
      ⟨m'.regions ++ [r], m'.slots ++ [(slot, m'.regions.length)]⟩ where
  regions := by
    obtain ⟨rest, left, right⟩ := beside.regions
    exact ⟨rest ++ [r], by rw [left, List.append_assoc], by rw [right, List.append_assoc]⟩
  slots := by rw [beside.slots, beside.length_eq]
  behind s member := by
    obtain old | new := List.mem_append.mp member
    · exact beside.behind s old
    · obtain rfl := List.mem_singleton.mp new
      obtain ⟨rest, left, -⟩ := beside.regions
      simp [left]

theorem scratch (beside : f.Beside m m') (node slot length : Nat) :
    (m'.scratch node slot length).1 = (m.scratch node slot length).1 ∧
      f.left.length ≤ (m.scratch node slot length).1 ∧
      f.Beside (m.scratch node slot length).2 (m'.scratch node slot length).2 := by
  have sought : m'.slots.find? (·.1 == (node, slot)) = m.slots.find? (·.1 == (node, slot)) := by
    rw [beside.slots]
  simp only [Memory.scratch, sought]
  cases found : m.slots.find? (·.1 == (node, slot)) with
  | some s =>
    have behind := beside.behind s (List.mem_of_find?_eq_some found)
    exact ⟨rfl, behind, beside.modify behind _⟩
  | none =>
    obtain ⟨rest, left, -⟩ := beside.regions
    exact ⟨beside.length_eq, by simp [Memory.add, left], beside.append _ _⟩

end Beside

end Fronts

/-! ## Runs -/

namespace Run

variable {α β : Type} {f : Fronts} {rel : α → α → Prop} {rel' : β → β → Prop}

/-- From all memories that differ only in the fronts, two runs fail with one error, or end with related results
and memories that differ only there. -/
def InStep (f : Fronts) (rel : α → α → Prop) (run run' : Run α) : Prop :=
  ∀ m m' : Memory, f.Beside m m' →
    (∃ e n n', run m = (.error e, n) ∧ run' m' = (.error e, n')) ∨
      ∃ a a' n n', run m = (.ok a, n) ∧ run' m' = (.ok a', n') ∧ rel a a' ∧ f.Beside n n'

theorem inStep_pure {a a' : α} (related : rel a a') : InStep f rel (pure a) (pure a') :=
  fun _ _ beside => .inr ⟨a, a', _, _, rfl, rfl, related, beside⟩

theorem inStep_fail (fault : ExecutionFault) : InStep f rel (fail fault) (fail fault) :=
  fun _ _ _ => .inl ⟨_, _, _, rfl, rfl⟩

theorem inStep_ofExcept (x : Except ExecutionFault α) : InStep f Eq (ofExcept x) (ofExcept x) := by
  cases x with
  | error fault => exact inStep_fail fault
  | ok a => exact inStep_pure rfl

theorem inStep_bind {run run' : Run α} {next next' : α → Run β} (first : InStep f rel run run')
    (second : ∀ a a', rel a a' → InStep f rel' (next a) (next' a')) :
    InStep f rel' (run >>= next) (run' >>= next') := by
  intro m m' beside
  rw [bind_apply, bind_apply]
  obtain ⟨e, n, n', ran, ran'⟩ | ⟨a, a', n, n', ran, ran', related, beside⟩ := first m m' beside
  · rw [ran, ran']
    exact .inl ⟨e, n, n', rfl, rfl⟩
  · rw [ran, ran']
    exact second a a' related n n' beside

/-- What gives one result on both sides hands it on. -/
theorem inStep_bind_eq {run run' : Run α} {next next' : α → Run β} (first : InStep f Eq run run')
    (second : ∀ a, InStep f rel' (next a) (next' a)) : InStep f rel' (run >>= next) (run' >>= next') :=
  inStep_bind first fun a _ same => same ▸ second a

theorem inStep_within (kernel : Kernel) {run run' : Run α} (inStep : InStep f rel run run') :
    InStep f rel (within kernel run) (within kernel run') := by
  intro m m' beside
  rw [within_apply, within_apply]
  obtain ⟨e, n, n', ran, ran'⟩ | ⟨a, a', n, n', ran, ran', related, beside⟩ := inStep m m' beside
  · rw [ran, ran']
    exact .inl ⟨_, n, n', rfl, rfl⟩
  · rw [ran, ran']
    exact .inr ⟨a, a', n, n', rfl, rfl, related, beside⟩

theorem inStep_forM {list : List α} {act act' : α → Run Unit} (each : ∀ x ∈ list, InStep f Eq (act x) (act' x)) :
    InStep f Eq (forM list act) (forM list act') := by
  induction list with
  | nil => exact inStep_pure rfl
  | cons x list inductionHypothesis =>
    obtain ⟨first, others⟩ := List.forall_mem_cons.mp each
    rw [List.forM_cons, List.forM_cons]
    exact inStep_bind_eq first fun _ => inductionHypothesis others

/-! ## Access -/

variable {a a' : Addr}

theorem inStep_loadBytes {length : Nat} (serves : f.Serves length a a') :
    InStep f Eq (loadBytes a length) (loadBytes a' length) := by
  intro m m' beside
  rw [loadBytes_eq, loadBytes_eq, beside.readBytes_eq serves]
  exact inStep_ofExcept _ m m' beside

theorem inStep_loadAll {reads : List (Addr × Addr)} {kinds : List Kind}
    (served : List.Forall₂ (fun p (k : Kind) => f.Serves k.size p.1 p.2) reads kinds) :
    InStep f Eq (loadAll (reads.map (·.1)) kinds) (loadAll (reads.map (·.2)) kinds) := by
  induction served with
  | nil => exact inStep_pure rfl
  | cons here _ inductionHypothesis =>
    exact inStep_bind_eq (inStep_loadBytes here) fun bytes =>
      inStep_bind_eq inductionHypothesis fun values => inStep_pure rfl

theorem inStep_load {k : Kind} (serves : f.Serves k.size a a') : InStep f Eq (load k a) (load k a') :=
  inStep_bind_eq (inStep_loadBytes serves) fun _ => inStep_pure rfl

/-- Only what is behind the fronts is written. -/
theorem inStep_storeBytes (behind : f.left.length ≤ a.region) (new : Bytes) :
    InStep f Eq (storeBytes a new) (storeBytes a new) := by
  intro m m' beside
  have checked : m'.checkWrite a new.length = m.checkWrite a new.length := by
    rw [Memory.checkWrite, Memory.checkWrite, beside.locate_eq behind]
  have put : InStep f Eq (modify (·.put a new)) (modify (·.put a new)) :=
    fun _ _ beside => .inr ⟨_, _, _, _, rfl, rfl, rfl, beside.modify behind _⟩
  have run : ∀ m : Memory, storeBytes a new m =
      (ofExcept (m.checkWrite a new.length) >>= fun _ => modify (·.put a new)) m := fun _ => rfl
  rw [run, run, checked]
  exact inStep_bind_eq (inStep_ofExcept _) (fun _ => put) m m' beside

theorem inStep_store (behind : f.left.length ≤ a.region) (k : Kind) (value : Scalar) :
    InStep f Eq (store k a value) (store k a value) :=
  inStep_storeBytes behind _

theorem inStep_scratch (node slot length : Nat) :
    InStep f (fun a a' => a' = a ∧ f.left.length ≤ a.region) (scratch node slot length) (scratch node slot length) := by
  intro m m' beside
  obtain ⟨same, behind, beside⟩ := beside.scratch node slot length
  exact .inr ⟨_, _, _, _, rfl, rfl, ⟨congrArg (Addr.mk · 0) same, behind⟩, beside⟩

end Run

/-! ## Nodes -/

namespace Node

open Run

variable {f : Fronts} {g g' : CallGraph} {r r' : Runner} {id : Nat} {n : Node} {dst : Addr} {reads : List (Addr × Addr)}

theorem inStep_runSingle {kinds : List Kind} {kind : Kind} (operands : n.kernel.operands? n.data = some (kinds, kind))
    (served : List.Forall₂ (fun p (k : Kind) => f.Serves k.size p.1 p.2) reads kinds)
    (behind : f.left.length ≤ dst.region) :
    InStep f Eq (n.runSingle g r id dst (reads.map (·.1))) (n.runSingle g' r' id dst (reads.map (·.2))) := by
  have length := served.length_eq
  rw [runSingle_of_operands operands (by simpa using length), runSingle_of_operands operands (by simpa using length)]
  refine inStep_bind_eq (inStep_loadAll served) fun values => ?_
  exact inStep_bind_eq (inStep_ofExcept _) fun bytes => inStep_storeBytes behind bytes

theorem inStep_converted (slot : Nat) {given : Kind} (want : Kind) {a a' : Addr} (serves : f.Serves given.size a a') :
    InStep f (fun place place' => place' = place ∧ f.left.length ≤ place.region) (converted id slot given want a)
      (converted id slot given want a') := by
  refine inStep_bind (inStep_scratch id slot want.size) fun place place' related => ?_
  obtain ⟨rfl, behind⟩ := related
  refine inStep_bind_eq (inStep_load serves) fun value => ?_
  exact inStep_bind_eq (inStep_store behind want value) fun _ => inStep_pure ⟨rfl, behind⟩

/-- Each source is converted into the same scratch, or else is handed on where it is. -/
theorem inStep_convertSources {kinds : List (Kind × Kind)} (slot : Nat)
    (served : List.Forall₂ (fun p (k : Kind × Kind) => f.Serves k.1.size p.1 p.2) reads kinds) :
    InStep f (fun as as' => ∃ places : List (Addr × Addr), as = places.map (·.1) ∧ as' = places.map (·.2) ∧
        List.Forall₂ (fun p (k : Kind × Kind) => f.Serves k.2.size p.1 p.2) places kinds)
      (convertSources id slot (reads.map (·.1)) (kinds.map fun k => ConvertPlan.step k.1 k.2))
      (convertSources id slot (reads.map (·.2)) (kinds.map fun k => ConvertPlan.step k.1 k.2)) := by
  induction served generalizing slot with
  | nil => exact inStep_pure ⟨[], rfl, rfl, .nil⟩
  | @cons p k reads kinds first others inductionHypothesis =>
    simp only [List.map_cons]
    rw [ConvertPlan.step]
    split
    next unconverted =>
      refine inStep_bind (inductionHypothesis (slot + 1)) fun as as' rest => ?_
      obtain ⟨places, rfl, rfl, rest⟩ := rest
      exact inStep_pure ⟨p :: places, rfl, rfl, .cons (unconverted ▸ first) rest⟩
    next =>
      rw [convertSources_cons_some, convertSources_cons_some]
      refine inStep_bind (inStep_converted slot k.2 first) fun place place' related => ?_
      obtain ⟨rfl, behind⟩ := related
      refine inStep_bind (inductionHypothesis (slot + 1)) fun as as' rest => ?_
      obtain ⟨places, rfl, rfl, rest⟩ := rest
      exact inStep_pure ⟨(place', place') :: places, rfl, rfl, .cons (f.serves_self _ behind) rest⟩

theorem inStep_runSingle_convert {c : Nat} {kinds : List (Kind × Kind)} {given want : Kind}
    (kernel : n.kernel = .convert)
    (data : n.data = .convert (.between (kinds.map (·.1)) (kinds.map (·.2)) (some given) (some want)))
    (present : g.child id n 0 = .ok c) (present' : g'.child id n 0 = .ok c)
    (served : List.Forall₂ (fun p (k : Kind × Kind) => f.Serves k.1.size p.1 p.2) reads kinds)
    (behind : f.left.length ≤ dst.region)
    (child : ∀ {place : Addr} {places : List (Addr × Addr)}, f.left.length ≤ place.region →
      List.Forall₂ (fun p (k : Kind × Kind) => f.Serves k.2.size p.1 p.2) places kinds →
      InStep f Eq (r.single c place (places.map (·.1))) (r'.single c place (places.map (·.2)))) :
    InStep f Eq (n.runSingle g r id dst (reads.map (·.1))) (n.runSingle g' r' id dst (reads.map (·.2))) := by
  simp only [runSingle, kernel, runConvert, data, present, present', ofExcept_ok, pure_bind, ConvertPlan.between_map,
    List.length_map]
  refine inStep_bind (inStep_convertSources 0 served) fun as as' related => ?_
  obtain ⟨places, rfl, rfl, handed⟩ := related
  by_cases same : given = want
  · simp only [ConvertPlan.step, if_pos same]
    exact child behind handed
  · simp only [ConvertPlan.step, if_neg same]
    refine inStep_bind (inStep_scratch id reads.length want.size) fun place place' related => ?_
    obtain ⟨rfl, apart⟩ := related
    refine inStep_bind_eq (inStep_load (f.serves_self _ behind)) fun value => ?_
    refine inStep_bind_eq (inStep_store apart want value) fun _ => ?_
    refine inStep_bind_eq (child apart handed) fun _ => ?_
    exact inStep_bind_eq (inStep_load (f.serves_self _ apart)) fun result => inStep_store behind given result

end Node

/-- A leaf is run alike in two graphs that have it at one place, behind a conversion or not. -/
theorem CallGraph.inStep_ofLeaf {f : Fronts} {g g' : CallGraph} {id : Nat} {reads : List (Addr × Addr)} {dst : Addr}
    (descends : g.Descends) (descends' : g'.Descends) {kernel : Kernel} {data : NodeData} {kinds : List (Kind × Kind)}
    {given want : Kind} (operands : kernel.operands? data = some (kinds.map (·.2), want))
    (continues : g.Continues id (Chain.ofLeaf (kernel, data,
      .between (kinds.map (·.1)) (kinds.map (·.2)) (some given) (some want))).toList)
    (continues' : g'.Continues id (Chain.ofLeaf (kernel, data,
      .between (kinds.map (·.1)) (kinds.map (·.2)) (some given) (some want))).toList)
    (served : List.Forall₂ (fun p (k : Kind × Kind) => f.Serves k.1.size p.1 p.2) reads kinds)
    (behind : f.left.length ≤ dst.region) :
    Run.InStep f Eq (g.settled.single id dst (reads.map (·.1))) (g'.settled.single id dst (reads.map (·.2))) := by
  rw [Chain.ofLeaf] at continues continues'
  split at continues
  next plain =>
    rw [if_pos plain] at continues'
    obtain ⟨rfl, unconverted⟩ := (isIdentity_between_iff kinds given want).mp plain
    have found : g.nodes[id]? = some ⟨kernel, data, []⟩ := continues 0 Nat.one_pos
    have found' : g'.nodes[id]? = some ⟨kernel, data, []⟩ := continues' 0 Nat.one_pos
    rw [← List.map_congr_left unconverted] at operands
    rw [(settled_eq descends found).1, (settled_eq descends' found').1]
    exact Run.inStep_within _ (Node.inStep_runSingle operands (List.forall₂_map_right_iff.mpr served) behind)
  next converts =>
    rw [if_neg converts] at continues'
    have found : g.nodes[id]? = some ⟨.convert, .convert _, [id + 1]⟩ := continues 0 Nat.two_pos
    have found' : g'.nodes[id]? = some ⟨.convert, .convert _, [id + 1]⟩ := continues' 0 Nat.two_pos
    have below : g.nodes[id + 1]? = some ⟨kernel, data, []⟩ := continues 1 Nat.one_lt_two
    have below' : g'.nodes[id + 1]? = some ⟨kernel, data, []⟩ := continues' 1 Nat.one_lt_two
    rw [(settled_eq descends found).1, (settled_eq descends' found').1]
    refine Run.inStep_within _ ?_
    refine Node.inStep_runSingle_convert (c := id + 1) rfl rfl (child_of_getElem? rfl below)
      (child_of_getElem? rfl below') served behind fun apart handed => ?_
    rw [(settled_eq descends below).1, (settled_eq descends' below').1]
    exact Run.inStep_within _ (Node.inStep_runSingle operands (List.forall₂_map_right_iff.mpr handed) apart)

end ArrayCall
