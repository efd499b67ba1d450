import ArrayCall.Proofs.Execution.Batch
import ArrayCall.Proofs.Execution.Kernels

/-!
# Runs that differ in numbers

The number of a region is a name, and so is the number of a node. A run on memory whose regions are
numbered in another way, of a graph whose nodes stand one place further on, does the same to regions of
the same contents: it comes to related results, or it fails where the other one fails
(`Run.Mirrors`). Only the errors tell the two apart, which mention regions and nodes by their numbers.

The main statement is `CallGraph.mirrors_runner`, by induction on the depth of the graph.
-/

namespace ArrayCall

/-- An address in the region of another number. -/
def Addr.renumber (ρ : Nat → Nat) (a : Addr) : Addr := { a with region := ρ a.region }

/-- The same regions under other numbers, scratch space being that of the next node. The other memory may have
more regions besides. Those that do not exist yet come one after the other on both sides. -/
structure Memory.Renumbered (ρ : Nat → Nat) (m m' : Memory) : Prop where
  regions : ∀ k, m'.regions[ρ k]? = m.regions[k]?
  slots : m'.slots = m.slots.map fun s => ((s.1.1 + 1, s.1.2), ρ s.2)
  fresh : ∀ k, ρ (m.regions.length + k) = m'.regions.length + k

variable {ρ : Nat → Nat}

namespace Memory

variable {m m' : Memory}

theorem Renumbered.locate (renumbered : Renumbered ρ m m') (a : Addr) (length : Nat) :
    (∃ found, m.locate a length = .ok found ∧ m'.locate (a.renumber ρ) length = .ok found) ∨
      ∃ fault fault', m.locate a length = .error fault ∧ m'.locate (a.renumber ρ) length = .error fault' := by
  have region := renumbered.regions a.region
  simp only [Memory.locate, Addr.renumber, region]
  cases m.regions[a.region]? with
  | none => exact .inr ⟨_, _, rfl, rfl⟩
  | some r =>
    by_cases inside : 0 ≤ a.offset ∧ a.offset.toNat + length ≤ r.bytes.size
    · exact .inl ⟨_, if_pos inside, if_pos inside⟩
    · exact .inr ⟨_, _, if_neg inside, if_neg inside⟩

theorem Renumbered.modify (injective : Function.Injective ρ) (renumbered : Renumbered ρ m m') (region : Nat)
    (f : Region → Region) :
    Renumbered ρ { m with regions := m.regions.modify region f }
      { m' with regions := m'.regions.modify (ρ region) f } where
  regions := by
    intro k
    rw [List.getElem?_modify, List.getElem?_modify, renumbered.regions]
    simp only [injective.eq_iff]
  slots := renumbered.slots
  fresh := by simpa using renumbered.fresh

/-- A new region is the next one on both sides. -/
theorem Renumbered.append (renumbered : Renumbered ρ m m') (r : Region) (slot : Nat × Nat) :
    Renumbered ρ ⟨m.regions ++ [r], m.slots ++ [(slot, m.regions.length)]⟩
      ⟨m'.regions ++ [r], m'.slots ++ [((slot.1 + 1, slot.2), m'.regions.length)]⟩ where
  regions := by
    intro k
    rcases Nat.lt_or_ge k m.regions.length with old | new
    · have inside : ρ k < m'.regions.length := by
        have found := renumbered.regions k
        rw [List.getElem?_eq_getElem old] at found
        exact (List.getElem?_eq_some_iff.mp found).1
      rw [List.getElem?_append_left old, List.getElem?_append_left inside, renumbered.regions]
    · obtain ⟨i, rfl⟩ := Nat.exists_eq_add_of_le new
      rw [renumbered.fresh, List.getElem?_append_right (by omega), List.getElem?_append_right (by omega),
        Nat.add_sub_cancel_left, Nat.add_sub_cancel_left]
  slots := by simp [renumbered.slots, show ρ m.regions.length = m'.regions.length from renumbered.fresh 0]
  fresh := by
    intro k
    simp only [List.length_append, List.length_singleton, Nat.add_assoc]
    exact renumbered.fresh (1 + k)

theorem Renumbered.scratch (injective : Function.Injective ρ) (renumbered : Renumbered ρ m m')
    (node slot length : Nat) :
    (m'.scratch (node + 1) slot length).1 = ρ (m.scratch node slot length).1 ∧
      Renumbered ρ (m.scratch node slot length).2 (m'.scratch (node + 1) slot length).2 := by
  have sought : m'.slots.find? (·.1 == (node + 1, slot)) =
      (m.slots.find? (·.1 == (node, slot))).map fun s => ((s.1.1 + 1, s.1.2), ρ s.2) := by
    rw [renumbered.slots, List.find?_map]
    refine congrArg _ (congrArg (List.find? · m.slots) (funext fun s => ?_))
    obtain ⟨⟨node', slot'⟩, region⟩ := s
    simp
  simp only [Memory.scratch, sought]
  cases m.slots.find? (·.1 == (node, slot)) with
  | some s => exact ⟨rfl, renumbered.modify injective s.2 _⟩
  | none => exact ⟨(renumbered.fresh 0).symm, renumbered.append _ _⟩

end Memory

namespace Run

variable {α α' β β' : Type} {rel : α → α' → Prop} {rel' : β → β' → Prop}

/-- Two runs come to related results from all memories of which one is a renumbering of the other, or
both fail at execution. -/
def Mirrors (ρ : Nat → Nat) (rel : α → α' → Prop) (run : Run α) (run' : Run α') : Prop :=
  ∀ m m' : Memory, m.Renumbered ρ m' →
    (∃ a a' n n', run m = (.ok a, n) ∧ run' m' = (.ok a', n') ∧ rel a a' ∧ n.Renumbered ρ n') ∨
    (∃ e e' n n', run m = (.error e, n) ∧ run' m' = (.error e', n') ∧ e.kind = .execution ∧ e'.kind = .execution)

theorem mirrors_pure {a : α} {a' : α'} (related : rel a a') : Mirrors ρ rel (pure a) (pure a') :=
  fun _ _ renumbered => .inl ⟨a, a', _, _, rfl, rfl, related, renumbered⟩

theorem mirrors_fail (fault fault' : ExecutionFault) : Mirrors ρ rel (fail fault) (fail fault') :=
  fun _ _ _ => .inr ⟨_, _, _, _, rfl, rfl, rfl, rfl⟩

theorem mirrors_bind {run : Run α} {run' : Run α'} {next : α → Run β} {next' : α' → Run β'}
    (first : Mirrors ρ rel run run') (second : ∀ a a', rel a a' → Mirrors ρ rel' (next a) (next' a')) :
    Mirrors ρ rel' (run >>= next) (run' >>= next') := by
  intro m m' renumbered
  rw [bind_apply, bind_apply]
  obtain ⟨a, a', n, n', ran, ran', related, renumbered⟩ | ⟨e, e', n, n', ran, ran', kinds⟩ := first m m' renumbered
  · rw [ran, ran']
    exact second a a' related n n' renumbered
  · rw [ran, ran']
    exact .inr ⟨e, e', n, n', rfl, rfl, kinds⟩

theorem mirrors_within (kernel kernel' : Kernel) {run : Run α} {run' : Run α'} (mirrors : Mirrors ρ rel run run') :
    Mirrors ρ rel (within kernel run) (within kernel' run') := by
  have named : ∀ (e : CallError) (name : String), (e.withKernel name).kind = e.kind := by
    intro e name
    cases e with
    | execution kernel fault => cases kernel <;> rfl
    | _ => rfl
  intro m m' renumbered
  simp only [within_apply]
  obtain ⟨a, a', n, n', ran, ran', related, renumbered⟩ | ⟨e, e', n, n', ran, ran', kind, kind'⟩ :=
    mirrors m m' renumbered
  · rw [ran, ran']
    exact .inl ⟨a, a', n, n', rfl, rfl, related, renumbered⟩
  · rw [ran, ran']
    exact .inr ⟨_, _, n, n', rfl, rfl, (named e _).trans kind, (named e' _).trans kind'⟩

theorem mirrors_ofExcept {x : Except ExecutionFault α} {x' : Except ExecutionFault α'}
    (same : (∃ a a', x = .ok a ∧ x' = .ok a' ∧ rel a a') ∨ ∃ fault fault', x = .error fault ∧ x' = .error fault') :
    Mirrors ρ rel (ofExcept x) (ofExcept x') := by
  obtain ⟨a, a', rfl, rfl, related⟩ | ⟨fault, fault', rfl, rfl⟩ := same
  · exact mirrors_pure related
  · exact mirrors_fail fault fault'

theorem mirrors_ofExcept_self (x : Except ExecutionFault α) : Mirrors ρ Eq (ofExcept x) (ofExcept x) := by
  refine mirrors_ofExcept ?_
  cases x with
  | error fault => exact .inr ⟨_, _, rfl, rfl⟩
  | ok a => exact .inl ⟨_, _, rfl, rfl, rfl⟩

theorem mirrors_ofExcept_map (f : α → α') (x : Except ExecutionFault α) :
    Mirrors ρ (fun a a' => a' = f a) (ofExcept x) (ofExcept (x.map f)) := by
  refine mirrors_ofExcept ?_
  cases x with
  | error fault => exact .inr ⟨_, _, rfl, rfl⟩
  | ok a => exact .inl ⟨_, _, rfl, rfl, rfl⟩

theorem mirrors_forFrom {act act' : Nat → Run Unit} (each : ∀ i, Mirrors ρ Eq (act i) (act' i)) (start count : Nat) :
    Mirrors ρ Eq (forFrom act start count) (forFrom act' start count) := by
  induction count generalizing start with
  | zero => exact mirrors_pure rfl
  | succ count inductionHypothesis => exact mirrors_bind (each start) fun _ _ _ => inductionHypothesis (start + 1)

theorem mirrors_forEach {act act' : Nat → Run Unit} (each : ∀ i, Mirrors ρ Eq (act i) (act' i)) (count : Nat) :
    Mirrors ρ Eq (forEach count act) (forEach count act') := mirrors_forFrom each 0 count

theorem mirrors_mapM {γ : Type} {f : γ → Run α} {f' : γ → Run α'} (each : ∀ c, Mirrors ρ rel (f c) (f' c))
    (list : List γ) : Mirrors ρ (List.Forall₂ rel) (list.mapM f) (list.mapM f') := by
  induction list with
  | nil => exact mirrors_pure .nil
  | cons c list inductionHypothesis =>
    rw [List.mapM_cons, List.mapM_cons]
    refine mirrors_bind (each c) fun a a' first => mirrors_bind inductionHypothesis fun as as' rest => ?_
    exact mirrors_pure (.cons first rest)

/-! ## Access -/

theorem mirrors_loadBytes (a : Addr) (length : Nat) :
    Mirrors ρ Eq (loadBytes a length) (loadBytes (a.renumber ρ) length) := by
  intro m m' renumbered
  have mirrors : Mirrors ρ Eq (ofExcept (m.readBytes a length)) (ofExcept (m'.readBytes (a.renumber ρ) length)) := by
    refine mirrors_ofExcept ?_
    simp only [Memory.readBytes]
    obtain ⟨found, located, located'⟩ | ⟨fault, fault', located, located'⟩ := renumbered.locate a length
    · rw [located, located']
      exact .inl ⟨_, _, rfl, rfl, rfl⟩
    · rw [located, located']
      exact .inr ⟨_, _, rfl, rfl⟩
  exact mirrors m m' renumbered

theorem mirrors_loadAll (src : List Addr) (kinds : List Kind) :
    Mirrors ρ Eq (loadAll src kinds) (loadAll (src.map (Addr.renumber ρ)) kinds) := by
  induction src generalizing kinds with
  | nil => exact mirrors_pure rfl
  | cons a src inductionHypothesis =>
    cases kinds with
    | nil => exact mirrors_pure rfl
    | cons k kinds =>
      refine mirrors_bind (mirrors_loadBytes a k.size) fun bytes bytes' same => ?_
      subst same
      refine mirrors_bind (inductionHypothesis kinds) fun values values' same => ?_
      subst same
      exact mirrors_pure rfl

theorem mirrors_put (injective : Function.Injective ρ) (a : Addr) (new : Bytes) :
    Mirrors ρ Eq (modify (·.put a new)) (modify (·.put (a.renumber ρ) new)) :=
  fun _ _ renumbered => .inl ⟨_, _, _, _, rfl, rfl, rfl, renumbered.modify injective a.region _⟩

theorem mirrors_storeBytes (injective : Function.Injective ρ) (a : Addr) (new : Bytes) :
    Mirrors ρ Eq (storeBytes a new) (storeBytes (a.renumber ρ) new) := by
  intro m m' renumbered
  have checked : (∃ u u', m.checkWrite a new.length = .ok u ∧ m'.checkWrite (a.renumber ρ) new.length = .ok u' ∧
      u = u') ∨ ∃ fault fault', m.checkWrite a new.length = .error fault ∧
        m'.checkWrite (a.renumber ρ) new.length = .error fault' := by
    simp only [Memory.checkWrite]
    obtain ⟨⟨r, start⟩, located, located'⟩ | ⟨fault, fault', located, located'⟩ := renumbered.locate a new.length
    · rw [located, located']
      by_cases shared : r.access = .shared
      · exact .inr ⟨_, _, if_pos shared, if_pos shared⟩
      · exact .inl ⟨_, _, if_neg shared, if_neg shared, trivial⟩
    · rw [located, located']
      exact .inr ⟨_, _, rfl, rfl⟩
  exact mirrors_bind (mirrors_ofExcept checked) (fun _ _ _ => mirrors_put injective a new) m m' renumbered

theorem mirrors_scratch (injective : Function.Injective ρ) (node slot length : Nat) :
    Mirrors ρ (fun a a' => a' = a.renumber ρ) (scratch node slot length) (scratch (node + 1) slot length) := by
  intro m m' renumbered
  obtain ⟨region, renumbered⟩ := renumbered.scratch injective node slot length
  exact .inl ⟨_, _, _, _, rfl, rfl, congrArg (Addr.mk · 0) region, renumbered⟩

theorem mirrors_load (k : Kind) (a : Addr) : Mirrors ρ Eq (load k a) (load k (a.renumber ρ)) :=
  mirrors_bind (mirrors_loadBytes a k.size) fun _ _ same => mirrors_pure (congrArg k.decode same)

theorem mirrors_store (injective : Function.Injective ρ) (k : Kind) (a : Addr) (value : Scalar) :
    Mirrors ρ Eq (store k a value) (store k (a.renumber ρ) value) :=
  mirrors_storeBytes injective a _

end Run

/-! ## Nodes -/

/-- The batch with its addresses renumbered. -/
def Strided.renumber (ρ : Nat → Nat) (s : Strided) : Strided :=
  { s with dst := s.dst.renumber ρ, src := s.src.map (Addr.renumber ρ) }

/-- The node with its children one place further on. -/
def Node.shift (n : Node) : Node := { n with children := n.children.map (· + 1) }

/-- The nodes of a graph stand one place further on in another one. -/
def CallGraph.Shifted (g g' : CallGraph) : Prop := ∀ id, g'.nodes[id + 1]? = g.nodes[id]?.map Node.shift

/-- Nodes are run alike, one place further on. -/
structure Runner.Mirrors (ρ : Nat → Nat) (r r' : Runner) : Prop where
  single : ∀ id dst src, Run.Mirrors ρ Eq (r.single id dst src)
    (r'.single (id + 1) (dst.renumber ρ) (src.map (Addr.renumber ρ)))
  strided : ∀ id s, Run.Mirrors ρ Eq (r.strided id s) (r'.strided (id + 1) (s.renumber ρ))

open Run

theorem CallGraph.mirrors_node {g g' : CallGraph} (shifted : g.Shifted g') (id : Nat) :
    Run.Mirrors ρ (fun n n' => n' = n.shift) (ofExcept (g.node id)) (ofExcept (g'.node (id + 1))) := by
  refine mirrors_ofExcept ?_
  simp only [node, shifted id]
  cases g.nodes[id]? with
  | none => exact .inr ⟨_, _, rfl, rfl⟩
  | some n => exact .inl ⟨_, _, rfl, rfl, rfl⟩

theorem CallGraph.mirrors_child {g g' : CallGraph} (shifted : g.Shifted g') (id : Nat) (n : Node) (index : Nat) :
    Run.Mirrors ρ (fun c c' => c' = c + 1) (ofExcept (g.child id n index))
      (ofExcept (g'.child (id + 1) n.shift index)) := by
  refine mirrors_ofExcept ?_
  simp only [child, node, Node.shift, List.getElem?_map]
  cases n.children[index]? with
  | none => exact .inr ⟨_, _, rfl, rfl⟩
  | some c =>
    simp only [Option.map_some, shifted c]
    cases g.nodes[c]? with
    | none => exact .inr ⟨_, _, rfl, rfl⟩
    | some n => exact .inl ⟨_, _, rfl, rfl, rfl⟩

namespace Node

variable {g g' : CallGraph} {r r' : Runner}

@[simp] theorem kernel_shift (n : Node) : n.shift.kernel = n.kernel := rfl

@[simp] theorem data_shift (n : Node) : n.shift.data = n.data := rfl

theorem eq_map_of_forall₂ {α β : Type} {f : α → β} {as : List α} {bs : List β}
    (each : List.Forall₂ (fun a b => b = f a) as bs) : bs = as.map f := by
  induction each with
  | nil => rfl
  | cons first _ inductionHypothesis => rw [List.map_cons, first, inductionHypothesis]

theorem advanceAll_renumber (i : Nat) (src : List Addr) (strides : List Int) :
    advanceAll i (src.map (Addr.renumber ρ)) strides = (advanceAll i src strides).map (Addr.renumber ρ) := by
  induction src generalizing strides with
  | nil => cases strides <;> rfl
  | cons a src inductionHypothesis =>
    cases strides with
    | nil => rfl
    | cons s strides => exact congrArg (_ :: ·) (inductionHypothesis strides)

theorem slotOf_map {α β : Type} (f : α → β) (dst : α) (src : List α) (slot : Int) :
    slotOf (f dst) (src.map f) slot = (slotOf dst src slot).map f := by
  simp only [slotOf, List.getElem?_map]
  split
  · rfl
  · cases src[slot.toNat]? <;> rfl

theorem mirrors_runLoop (shifted : g.Shifted g') (children : r.Mirrors ρ r') (id : Nat) (n : Node) (dst : Addr)
    (src : List Addr) :
    Run.Mirrors ρ Eq (n.runLoop g r id dst src)
      (n.shift.runLoop g' r' (id + 1) (dst.renumber ρ) (src.map (Addr.renumber ρ))) := by
  simp only [runLoop, shift]
  cases n.data with
  | loop l =>
    refine mirrors_bind (CallGraph.mirrors_child shifted id n 0) fun c c' next => ?_
    subst next
    cases l.innermost with
    | true => exact children.strided c ⟨dst, l.dstStride, src, l.srcStride, l.extent⟩
    | false =>
      refine mirrors_forEach (fun i => ?_) (Machine.rounds l.extent)
      rw [advanceAll_renumber]
      exact children.single c _ _
  | _ => exact mirrors_fail _ _

theorem mirrors_convertSources (injective : Function.Injective ρ) (id slot : Nat) (src : List Addr)
    (plan : List (Option (Kind × Kind))) :
    Run.Mirrors ρ (fun as as' => as' = as.map (Addr.renumber ρ)) (convertSources id slot src plan)
      (convertSources (id + 1) slot (src.map (Addr.renumber ρ)) plan) := by
  induction src generalizing slot plan with
  | nil =>
    simp only [convertSources, List.map_nil]
    exact mirrors_pure rfl
  | cons a src inductionHypothesis =>
    rcases plan with _ | ⟨_ | ⟨actual, kernel⟩, plan⟩
    · exact mirrors_pure rfl
    · refine mirrors_bind (inductionHypothesis (slot + 1) plan) fun as as' rest => mirrors_pure ?_
      rw [rest]
      rfl
    · refine mirrors_bind (mirrors_scratch injective id slot kernel.size) fun place place' same => ?_
      subst same
      refine mirrors_bind (mirrors_load actual a) fun value value' same => ?_
      subst same
      refine mirrors_bind (mirrors_store injective kernel place value) fun _ _ _ => ?_
      refine mirrors_bind (inductionHypothesis (slot + 1) plan) fun as as' rest => mirrors_pure ?_
      rw [rest]
      rfl

theorem mirrors_runConvert (injective : Function.Injective ρ) (shifted : g.Shifted g') (children : r.Mirrors ρ r')
    (id : Nat) (n : Node) (dst : Addr) (src : List Addr) :
    Run.Mirrors ρ Eq (n.runConvert g r id dst src)
      (n.shift.runConvert g' r' (id + 1) (dst.renumber ρ) (src.map (Addr.renumber ρ))) := by
  simp only [runConvert, shift, List.length_map]
  cases n.data with
  | convert plan =>
    refine mirrors_bind (CallGraph.mirrors_child shifted id n 0) fun c c' next => ?_
    subst next
    refine mirrors_bind (mirrors_convertSources injective id 0 src plan.src) fun as as' same => ?_
    subst same
    rcases plan.dst with _ | ⟨actual, kernel⟩
    · exact children.single c dst as
    · refine mirrors_bind (mirrors_scratch injective id src.length kernel.size) fun place place' same => ?_
      subst same
      refine mirrors_bind (mirrors_load actual dst) fun value value' same => ?_
      subst same
      refine mirrors_bind (mirrors_store injective kernel place value) fun _ _ _ => ?_
      refine mirrors_bind (children.single c place as) fun _ _ _ => ?_
      refine mirrors_bind (mirrors_load kernel place) fun value value' same => ?_
      subst same
      exact mirrors_store injective actual dst value
  | _ => exact mirrors_fail _ _

/-- A kernel on elements makes the same of the bytes that it loads. -/
theorem mirrors_runSingle_of_operands (injective : Function.Injective ρ) {n : Node} {kinds : List Kind} {kind : Kind}
    (operands : n.kernel.operands? n.data = some (kinds, kind)) (id : Nat) (dst : Addr) (src : List Addr) :
    Run.Mirrors ρ Eq (n.runSingle g r id dst src)
      (n.shift.runSingle g' r' (id + 1) (dst.renumber ρ) (src.map (Addr.renumber ρ))) := by
  have operands' : n.shift.kernel.operands? n.shift.data = some (kinds, kind) := operands
  by_cases length : src.length = kinds.length
  · rw [runSingle_of_operands operands length, runSingle_of_operands operands' (by simpa using length)]
    refine mirrors_bind (mirrors_loadAll src kinds) fun values values' same => ?_
    subst same
    refine mirrors_bind (mirrors_ofExcept_self _) fun bytes bytes' same => ?_
    subst same
    exact mirrors_storeBytes injective dst bytes
  · obtain ⟨fault, fails⟩ : ∃ fault, n.runSingle g r id dst src = Run.fail fault :=
      runSingle_of_length_ne operands length
    obtain ⟨fault', fails'⟩ : ∃ fault, n.shift.runSingle g' r' (id + 1) (dst.renumber ρ)
        (src.map (Addr.renumber ρ)) = Run.fail fault := runSingle_of_length_ne operands' (by simpa using length)
    rw [fails, fails']
    exact mirrors_fail fault fault'

theorem mirrors_runSingle (injective : Function.Injective ρ) (shifted : g.Shifted g') (children : r.Mirrors ρ r')
    (id : Nat) (n : Node) (dst : Addr) (src : List Addr) :
    Run.Mirrors ρ Eq (n.runSingle g r id dst src)
      (n.shift.runSingle g' r' (id + 1) (dst.renumber ρ) (src.map (Addr.renumber ρ))) := by
  cases kernel : n.kernel with
  | binary op k => exact mirrors_runSingle_of_operands injective (by rw [kernel]; rfl) id dst src
  | negative k => exact mirrors_runSingle_of_operands injective (by rw [kernel]; rfl) id dst src
  | scale k =>
    cases data : n.data with
    | scalar factor => exact mirrors_runSingle_of_operands injective (by rw [kernel, data]; rfl) id dst src
    | _ =>
      simp only [runSingle, kernel, kernel_shift, data, data_shift]
      exact mirrors_fail _ _
  | assign =>
    cases data : n.data with
    | cast actual target => exact mirrors_runSingle_of_operands injective (by rw [kernel, data]; rfl) id dst src
    | _ =>
      simp only [runSingle, kernel, kernel_shift, data, data_shift]
      exact mirrors_fail _ _
  | loop =>
    simp only [runSingle, kernel, kernel_shift]
    exact mirrors_runLoop shifted children id n dst src
  | permute =>
    simp only [runSingle, kernel, kernel_shift, data_shift]
    cases n.data with
    | permutation slots =>
      simp only [slotOf_map]
      refine mirrors_bind (mirrors_mapM (fun slot => mirrors_ofExcept_map _ _) slots) fun as as' same => ?_
      refine mirrors_bind (CallGraph.mirrors_child shifted id n 0) fun c c' next => ?_
      obtain rfl := eq_map_of_forall₂ same
      subst next
      exact children.single c dst as
    | _ => exact mirrors_fail _ _
  | fold =>
    simp only [runSingle, kernel, kernel_shift, data_shift]
    cases n.data with
    | fold identity acc =>
      have asked : Run.Mirrors ρ (fun c c' => c' = c + 1) (ofExcept (g.child id n 0)) _ :=
        CallGraph.mirrors_child shifted id n 0
      have child := mirrors_bind asked fun c c' next => next ▸ children.single c dst src
      cases identity with
      | none => exact child
      | some v => exact mirrors_bind (mirrors_store injective acc dst v) fun _ _ _ => child
    | _ => exact mirrors_fail _ _
  | convert =>
    simp only [runSingle, kernel, kernel_shift]
    exact mirrors_runConvert injective shifted children id n dst src
  | noop =>
    simp only [runSingle, kernel, kernel_shift]
    exact mirrors_pure rfl

theorem mirrors_runStrided (injective : Function.Injective ρ) (shifted : g.Shifted g') (children : r.Mirrors ρ r')
    (id : Nat) (n : Node) (s : Strided) :
    Run.Mirrors ρ Eq (n.runStrided g r id s) (n.shift.runStrided g' r' (id + 1) (s.renumber ρ)) := by
  have sources : ∀ k, (s.renumber ρ).srcAt k = (s.srcAt k).map (Addr.renumber ρ) := by
    intro k
    simp only [Strided.srcAt, Strided.renumber, List.zipWith_map_left, List.map_zipWith]
    rfl
  have items : ∀ count, Run.Mirrors ρ Eq
      (forEach count fun k => n.runSingle g r id (s.dstAt k) (s.srcAt k))
      (forEach count fun k => n.shift.runSingle g' r' (id + 1) ((s.renumber ρ).dstAt k) ((s.renumber ρ).srcAt k)) := by
    intro count
    refine mirrors_forEach (fun k => ?_) count
    rw [sources]
    exact mirrors_runSingle injective shifted children id n (s.dstAt k) (s.srcAt k)
  cases kernel : n.kernel with
  | binary op k =>
    by_cases two : s.src.length = 2 ∧ s.srcStride.length = 2
    · have renumbered : (s.renumber ρ).src.length = 2 := (List.length_map _).trans two.1
      rw [runStrided_binary kernel two.1 two.2, runStrided_binary ((kernel_shift n).trans kernel) renumbered two.2]
      exact items (Machine.rounds s.count)
    · have renumbered : ¬((s.renumber ρ).src.length = 2 ∧ (s.renumber ρ).srcStride.length = 2) := by
        simpa only [Strided.renumber, List.length_map] using two
      rw [runStrided_binary_of_not_two kernel two,
        runStrided_binary_of_not_two ((kernel_shift n).trans kernel) renumbered]
      exact mirrors_fail _ _
  | permute =>
    simp only [runStrided, kernel, kernel_shift, data_shift]
    cases n.data with
    | permutation slots =>
      have pair : ∀ slot, (do
          return (← slotOf (s.renumber ρ).dst (s.renumber ρ).src slot,
            ← slotOf (s.renumber ρ).dstStride (s.renumber ρ).srcStride slot)) =
          (do return (← slotOf s.dst s.src slot, ← slotOf s.dstStride s.srcStride slot) :
            Except ExecutionFault (Addr × Int)).map fun p => (p.1.renumber ρ, p.2) := by
        intro slot
        simp only [Strided.renumber, slotOf_map]
        cases slotOf s.dst s.src slot with
        | error fault => rfl
        | ok a => cases slotOf s.dstStride s.srcStride slot <;> rfl
      simp only [pair]
      refine mirrors_bind (mirrors_mapM (fun slot => mirrors_ofExcept_map _ _) slots) fun pairs pairs' same => ?_
      obtain rfl := eq_map_of_forall₂ same
      refine mirrors_bind (CallGraph.mirrors_child shifted id n 0) fun c c' next => ?_
      subst next
      have reordered := children.strided c { s with src := pairs.map (·.1), srcStride := pairs.map (·.2) }
      simpa only [Strided.renumber, List.map_map, Function.comp_def] using reordered
    | _ => exact mirrors_fail _ _
  | _ =>
    simp only [runStrided, kernel, kernel_shift]
    exact items s.count

end Node

/-- Every node of a graph is run as the one that stands one place further on in the other graph. -/
theorem CallGraph.mirrors_runner {g g' : CallGraph} (injective : Function.Injective ρ) (shifted : g.Shifted g')
    (depth : Nat) : (g.runner depth).Mirrors ρ (g'.runner depth) := by
  induction depth with
  | zero => exact ⟨fun _ _ _ => mirrors_fail _ _, fun _ _ => mirrors_fail _ _⟩
  | succ depth inductionHypothesis =>
    constructor
    · intro id dst src
      refine mirrors_bind (mirrors_node shifted id) fun n n' same => ?_
      subst same
      exact mirrors_within _ _ (Node.mirrors_runSingle injective shifted inductionHypothesis id n dst src)
    · intro id s
      refine mirrors_bind (mirrors_node shifted id) fun n n' same => ?_
      subst same
      exact mirrors_within _ _ (Node.mirrors_runStrided injective shifted inductionHypothesis id n s)

end ArrayCall
