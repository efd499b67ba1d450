import ArrayCall.Proofs.Execution.Batch
import ArrayCall.Proofs.Indices

/-!
# Loop nests

A nest of loops runs what stands below it once for each index, in order, with every address moved to
that index (`CallGraph.settled_single_loops`, `Run.overLoops_eq_forM`). What a run through a list comes
to follows from one step (`Run.forM_spec`).

A loop over more indices than a signed word tells does not get to all of them. `Chain.reached` has the sizes that a
nest of loops over a shape gets to, which are those of the shape unless one of them is beyond a signed word.
-/

namespace ArrayCall

/-! ## Going through lists -/

namespace Run

variable {α : Type}

theorem forFrom_eq_forM (act : Nat → Run Unit) (start count : Nat) :
    forFrom act start count = forM (List.range' start count) act := by
  induction count generalizing start with
  | zero => rfl
  | succ count inductionHypothesis => rw [forFrom, List.range'_succ, List.forM_cons, inductionHypothesis]

theorem forEach_eq_forM (count : Nat) (act : Nat → Run Unit) : forEach count act = forM (List.range count) act := by
  rw [forEach, forFrom_eq_forM, List.range_eq_range']

theorem forM_congr {list : List α} {act act' : α → Run Unit} (same : ∀ x ∈ list, act x = act' x) :
    forM list act = forM list act' := by
  induction list with
  | nil => rfl
  | cons x list inductionHypothesis =>
    obtain ⟨first, others⟩ := List.forall_mem_cons.mp same
    rw [List.forM_cons, List.forM_cons, first, inductionHypothesis others]

theorem forM_flatMap {β : Type} (list : List β) (f : β → List α) (act : α → Run Unit) :
    forM (list.flatMap f) act = forM list fun b => forM (f b) act := by
  induction list with
  | nil => rfl
  | cons b list inductionHypothesis =>
    rw [List.flatMap_cons, List.forM_append, List.forM_cons, inductionHypothesis]

/-- A run through a list keeps what each step takes from one position to the next, and ends early, with
one and the same error, just if there is an element at which a step fails. -/
theorem forM_spec {list : List α} {act : α → Run Unit} (holds : Nat → Memory → Prop) {fails : α → Prop}
    {error : CallError}
    (step : ∀ (q : Nat) (x : α), list[q]? = some x → ∀ m, holds q m →
      (fails x ∧ ∃ m', act x m = (.error error, m')) ∨
        ¬fails x ∧ ∃ m', act x m = (.ok (), m') ∧ holds (q + 1) m')
    {m : Memory} (start : holds 0 m) :
    ((∃ x ∈ list, fails x) ∧ ∃ m', forM list act m = (.error error, m')) ∨
      (¬∃ x ∈ list, fails x) ∧ ∃ m', forM list act m = (.ok (), m') ∧ holds list.length m' := by
  induction list generalizing holds m with
  | nil => exact .inr ⟨by simp, m, rfl, start⟩
  | cons x list inductionHypothesis =>
    rw [List.forM_cons, bind_apply]
    obtain ⟨failing, m', ran⟩ | ⟨fine, m', ran, next⟩ := step 0 x rfl m start
    · exact .inl ⟨⟨x, List.mem_cons_self, failing⟩, m', by rw [ran]⟩
    · rw [ran]
      obtain ⟨⟨y, member, failing⟩, rest⟩ | ⟨fineRest, rest⟩ :=
        inductionHypothesis (fun q => holds (q + 1)) (fun q y found => step (q + 1) y found) next
      · exact .inl ⟨⟨y, List.mem_cons_of_mem x member, failing⟩, rest⟩
      · refine .inr ⟨?_, rest⟩
        rintro ⟨y, member, failing⟩
        obtain rfl | member := List.mem_cons.mp member
        · exact fine failing
        · exact fineRest ⟨y, member, failing⟩

end Run

theorem Addr.advance_advance (a : Addr) (i j : Int) : (a.advance i).advance j = a.advance (i + j) := by
  simp only [advance, Int.add_assoc]

theorem Addr.advance_zero (a : Addr) : a.advance 0 = a := by
  simp [advance]

/-! ## Nests -/

@[simp] theorem Node.length_advanceAll (i : Nat) (src : List Addr) (strides : List Int) :
    (advanceAll i src strides).length = src.length := by
  induction src generalizing strides with
  | nil => cases strides <;> rfl
  | cons a src inductionHypothesis =>
    cases strides with
    | nil => rfl
    | cons s strides => rw [advanceAll, List.length_cons, inductionHypothesis, List.length_cons]

theorem Node.advanceAll_eq_srcAt {s : Strided} (same : s.src.length = s.srcStride.length) (i : Nat) :
    advanceAll i s.src s.srcStride = s.srcAt i := by
  obtain ⟨dst, dstStride, src, srcStride, count⟩ := s
  simp only [Strided.srcAt] at same ⊢
  induction src generalizing srcStride with
  | nil => cases srcStride <;> rfl
  | cons a src inductionHypothesis =>
    obtain ⟨stride, srcStride, rfl⟩ := List.exists_cons_of_length_eq_add_one same.symm
    rw [advanceAll, List.zipWith_cons_cons, inductionHypothesis _ (Nat.succ.inj same)]

/-- How many indices a loop gets to, if a batch of what it runs gets to so many items. -/
def DimLoop.runs (items : Nat → Nat) (l : DimLoop) : Nat :=
  if l.innermost then items l.extent else Machine.rounds l.extent

namespace Run

/-- What loops do around an action on addresses, of which a batch gets to so many items. -/
def overLoops (items : Nat → Nat) : List DimLoop → (Addr → List Addr → Run Unit) → Addr → List Addr → Run Unit
  | [], act => act
  | l :: loops, act => fun dst src =>
    forEach (l.runs items) fun i =>
      overLoops items loops act (dst.advance (i * l.dstStride)) (Node.advanceAll i src l.srcStride)

theorem advanceAll_map {σ : Type} (i : Nat) (sources : List σ) (address : σ → Addr) (stride : σ → Int) :
    Node.advanceAll i (sources.map address) (sources.map stride) =
      sources.map fun s => (address s).advance (i * stride s) := by
  induction sources with
  | nil => rfl
  | cons s sources inductionHypothesis =>
    rw [List.map_cons, List.map_cons, Node.advanceAll, inductionHypothesis, List.map_cons]

/-- Loops over the dimensions of a shape run through its indices. The induction is over the dimensions
that are left, for all addresses that the outer ones have moved to. -/
theorem overLoops_eq_forM {σ : Type} (items : Nat → Nat) (sources : List σ) (dstStride : Nat → Int)
    (stride : σ → Nat → Int) (innermost : Nat → Bool) (act : Addr → List Addr → Run Unit) (dims : List (Nat × Nat))
    (dst : Addr) (address : σ → Addr) :
    overLoops items (dims.map fun p => ⟨p.1, dstStride p.2, sources.map (stride · p.2), innermost p.2⟩) act dst
        (sources.map address) =
      forM (indices (dims.map fun p => if innermost p.2 then items p.1 else Machine.rounds p.1)) fun index =>
        act (dst.advance (Layout.displacement index (dims.map fun p => dstStride p.2)))
          (sources.map fun s => (address s).advance (Layout.displacement index (dims.map fun p => stride s p.2))) := by
  induction dims generalizing dst address with
  | nil => simp [overLoops, indices, Layout.displacement, Addr.advance_zero]
  | cons p dims inductionHypothesis =>
    simp only [List.map_cons, overLoops, indices, DimLoop.runs]
    rw [forEach_eq_forM, forM_flatMap]
    refine congrArg _ (funext fun i => ?_)
    rw [advanceAll_map, inductionHypothesis, List.forM_map]
    simp only [Layout.displacement, Addr.advance_advance]

end Run

/-- How many items of a batch are run from the first node of a chain on. -/
def Chain.batch : List (Kernel × NodeData) → Nat → Nat
  | (.binary _ _, _) :: _ => Machine.rounds
  | (.permute, _) :: below => batch below
  | _ => id

theorem Chain.batch_le (chain : List (Kernel × NodeData)) (count : Nat) : batch chain count ≤ count := by
  fun_induction batch chain with
  | case1 => exact Machine.rounds_le count
  | case2 _ _ inductionHypothesis => exact inductionHypothesis
  | case3 => exact Nat.le_refl count

theorem Chain.batch_eq (chain : List (Kernel × NodeData)) {count : Nat} (fits : count ≤ Machine.most) :
    batch chain count = count := by
  fun_induction batch chain with
  | case1 => exact Machine.rounds_of_le fits
  | case2 _ _ inductionHypothesis => exact inductionHypothesis
  | case3 => rfl

/-- A batch of loops is run item by item; without any, what is below them decides. -/
theorem Chain.batch_loops {loops loops' : List DimLoop} {below below' : List (Kernel × NodeData)}
    (length : loops.length = loops'.length) (same : batch below = batch below') :
    batch (loopNodes loops ++ below) = batch (loopNodes loops' ++ below') := by
  cases loops with
  | nil =>
    obtain rfl := List.length_eq_zero_iff.mp length.symm
    exact same
  | cons l loops =>
    obtain ⟨l', loops', rfl⟩ := List.exists_cons_of_length_eq_add_one length.symm
    rfl

/-- The sizes that the loops over a shape get to if they run a chain. -/
def Chain.reached (chain : List (Kernel × NodeData)) (shape : List Nat) : List Nat :=
  shape.zipIdx.map fun p => if p.2 + 1 = shape.length then batch chain p.1 else Machine.rounds p.1

theorem Chain.reached_congr {chain chain' : List (Kernel × NodeData)} (same : batch chain = batch chain')
    (shape : List Nat) : reached chain shape = reached chain' shape := by
  rw [reached, reached, same]

theorem Chain.forall₂_reached (chain : List (Kernel × NodeData)) (shape : List Nat) :
    List.Forall₂ (· ≤ ·) (reached chain shape) shape := by
  rw [reached, List.forall₂_iff_get]
  refine ⟨by simp, fun d _ _ => ?_⟩
  simp only [List.get_eq_getElem, List.getElem_map, List.getElem_zipIdx]
  split
  · exact batch_le chain _
  · exact Machine.rounds_le _

theorem Chain.isIndex_of_mem_reached {chain : List (Kernel × NodeData)} {shape index : List Nat}
    (member : index ∈ indices (reached chain shape)) : IsIndex shape index :=
  (mem_indices_iff.mp member).mono (forall₂_reached chain shape)

/-- Loops over sizes that signed words hold get to all indices. -/
theorem Chain.reached_eq (chain : List (Kernel × NodeData)) {shape : List Nat} (fits : ∀ n ∈ shape, n ≤ Machine.most) :
    reached chain shape = shape := by
  refine List.ext_getElem (by simp [reached]) fun d inside inside' => ?_
  have fits := fits _ (List.getElem_mem inside')
  simp only [reached, List.getElem_map, List.getElem_zipIdx, batch_eq chain fits, Machine.rounds_of_le fits, ite_self]

theorem Chain.indices_reached (chain : List (Kernel × NodeData)) {shape : List Nat}
    (traversable : Layout.Traversable shape) : indices (reached chain shape) = indices shape := by
  obtain empty | fits := traversable
  · rw [Layout.indices_eq_nil empty, List.eq_nil_iff_forall_not_mem]
    intro index member
    have inside := mem_indices_iff.mpr (isIndex_of_mem_reached member)
    rw [Layout.indices_eq_nil empty] at inside
    cases inside
  · rw [reached_eq chain fits]

/-- Only the last of the loops over a shape is the innermost one. -/
theorem DimLoop.outer_of_zipIdx {shape : List Nat} {level : Nat × Nat → DimLoop}
    (innermost : ∀ p, (level p).innermost = decide (p.2 + 1 = shape.length)) :
    ∀ l ∈ (shape.zipIdx.map level).dropLast, l.innermost = false := by
  intro l member
  obtain ⟨d, inside, rfl⟩ := List.mem_iff_getElem.mp member
  rw [List.length_dropLast, List.length_map, List.length_zipIdx] at inside
  simp only [List.getElem_dropLast, List.getElem_map, innermost, List.getElem_zipIdx, decide_eq_false_iff_not]
  omega

namespace CallGraph

variable {g : CallGraph}

/-- A loop runs its child for each of the indices that it gets to, also where it hands them over all at once. -/
theorem settled_single_loop (handed : g.Handed) {id c : Nat} {n child : Node} {l : DimLoop}
    (found : g.nodes[id]? = some n) (kernel : n.kernel = .loop) (data : n.data = .loop l)
    (listed : n.children[0]? = some c) (there : g.nodes[c]? = some child)
    (takes : child.takes = l.srcStride.length) {items : Nat → Nat} (batches : l.innermost → g.Batches c items)
    (dst : Addr) {src : List Addr} (sources : src.length = l.srcStride.length) :
    g.settled.single id dst src = Run.forEach (l.runs items) fun i =>
      g.settled.single c (dst.advance (i * l.dstStride)) (Node.advanceAll i src l.srcStride) := by
  have present : g.child id n 0 = .ok c := child_of_getElem? listed there
  have items : n.runSingle g g.settled id dst src = Run.forEach (l.runs items) fun i =>
      g.settled.single c (dst.advance (i * l.dstStride)) (Node.advanceAll i src l.srcStride) := by
    simp only [Node.runSingle, kernel, Node.runLoop, data, present, Run.ofExcept_ok, pure_bind, DimLoop.runs]
    split
    next innermost =>
      rw [settled_strided_eq handed there (batches innermost) (by exact sources.trans takes.symm)
        (by exact takes.symm)]
      refine Run.forEach_congr fun i _ => ?_
      exact congrArg _ (Node.advanceAll_eq_srcAt (s := ⟨dst, l.dstStride, src, l.srcStride, l.extent⟩) sources i).symm
    next => rfl
  rw [(settled_eq handed.descends found).1, items, Run.within_forEach]
  exact Run.forEach_congr fun i _ => within_settled_single handed.descends there _ _ _

/-- The nodes of a graph from a number on are those of a chain. -/
def Continues (g : CallGraph) (id : Nat) (chain : List (Kernel × NodeData)) : Prop :=
  ∀ i < chain.length, g.nodes[id + i]? = (Chain.nodesFrom id chain)[i]?

theorem Continues.tail {id : Nat} {first second : Kernel × NodeData} {rest : List (Kernel × NodeData)}
    (continues : g.Continues id (first :: second :: rest)) : g.Continues (id + 1) (second :: rest) := by
  intro i below
  have node := continues (i + 1) (by simpa using below)
  rw [Chain.nodesFrom, List.getElem?_cons_succ] at node
  rw [← node]
  congr 1
  omega

/-- Above something that takes sources a node has the next one for its child. -/
theorem Continues.parent {id count : Nat} {first : Kernel × NodeData} {rest : List (Kernel × NodeData)}
    (continues : g.Continues id (first :: rest)) (takes : Chain.Takes rest count) :
    g.nodes[id]? = some ⟨first.1, first.2, [id + 1]⟩ ∧ (∃ child, g.nodes[id + 1]? = some child ∧ child.takes = count) ∧
      g.Continues (id + 1) rest := by
  cases rest with
  | nil => cases takes
  | cons second rest =>
    have written := Chain.getElem?_nodesFrom (id + 1) 0 (second :: rest)
    obtain ⟨child, there, rfl⟩ := Option.map_eq_some_iff.mp written
    exact ⟨continues 0 (by simp), ⟨child, (continues.tail 0 (by simp)).trans there, takes.takes_head⟩, continues.tail⟩

/-- What a batch of a node gets to is known from the chain that the node is the first of. -/
theorem Continues.batches {id count : Nat} {chain : List (Kernel × NodeData)} (takes : Chain.Takes chain count)
    (continues : g.Continues id chain) : g.Batches id (Chain.batch chain) := by
  induction takes generalizing id with
  | @element kernel _ _ own =>
    have found := continues 0 (by simp)
    cases kernel with
    | binary op kind => exact .binary found rfl
    | permute => cases own
    | _ => exact .single found (by simp) (by simp)
  | @permute slots rest inside below inductionHypothesis =>
    obtain ⟨found, -, behind⟩ := continues.parent below
    exact .permute found rfl rfl (inductionHypothesis behind)
  | convert below => exact .single (continues.parent below).1 (by simp) (by simp)
  | loop below => exact .single (continues.parent below).1 (by simp) (by simp)
  | fold below => exact .single (continues.parent below).1 (by simp) (by simp)

theorem continues_append (g : CallGraph) (chain : List (Kernel × NodeData)) :
    (g.append chain).Continues g.size chain :=
  fun i _ => getElem?_append g chain i

theorem Continues.of_append {id : Nat} {front back : List (Kernel × NodeData)}
    (continues : g.Continues id (front ++ back)) : g.Continues (id + front.length) back := by
  induction front generalizing id with
  | nil => exact continues
  | cons first front inductionHypothesis =>
    rw [List.length_cons, Nat.add_comm front.length, ← Nat.add_assoc]
    cases behind : front ++ back with
    | nil =>
      obtain ⟨-, rfl⟩ := List.append_eq_nil_iff.mp behind
      intro i below
      cases below
    | cons second rest =>
      rw [List.cons_append, behind] at continues
      have continues := continues.tail
      rw [← behind] at continues
      exact inductionHypothesis continues

/-- The induction is over the loops, from the outermost one on, which has the rest of them for a child. -/
theorem settled_single_loops (handed : g.Handed) {loops : List DimLoop} {below : List (Kernel × NodeData)}
    {count : Nat} (takes : Chain.Takes below count) (strides : ∀ l ∈ loops, l.srcStride.length = count)
    (outer : ∀ l ∈ loops.dropLast, l.innermost = false) {id : Nat}
    (continues : g.Continues id (loopNodes loops ++ below)) (dst : Addr) {src : List Addr}
    (sources : src.length = count) :
    g.settled.single id dst src =
      Run.overLoops (Chain.batch below) loops (g.settled.single (id + loops.length)) dst src := by
  induction loops generalizing id dst src with
  | nil => rfl
  | cons l loops inductionHypothesis =>
    obtain ⟨own, strides⟩ := List.forall_mem_cons.mp strides
    obtain ⟨here, ⟨child, there, count_eq⟩, behind⟩ := continues.parent (Chain.takes_loops takes strides)
    rw [← own] at count_eq
    have batches : l.innermost → g.Batches (id + 1) (Chain.batch below) := by
      intro innermost
      cases loops with
      | nil => exact behind.batches takes
      | cons next loops => simp [outer l (by simp)] at innermost
    rw [settled_single_loop handed here rfl rfl rfl there count_eq batches dst (sources.trans own.symm), Run.overLoops]
    refine Run.forEach_congr fun i _ => ?_
    have moved : (Node.advanceAll i src l.srcStride).length = count := by
      rw [Node.length_advanceAll, sources]
    have outer : ∀ l ∈ loops.dropLast, l.innermost = false := fun l' member => by
      cases loops with
      | nil => cases member
      | cons next loops => exact outer l' (List.mem_cons_of_mem l member)
    rw [inductionHypothesis strides outer behind _ moved, List.length_cons, Nat.add_assoc, Nat.add_comm 1]

/-- The loops of a lift run its child once for each index that they get to, on the elements that the layouts have
there. -/
theorem settled_single_loopsOver (handed : g.Handed) {shape : List Nat} {layout : Layout}
    {sources : List (Addr × Layout)} {below : List (Kernel × NodeData)} (takes : Chain.Takes below sources.length)
    {id : Nat} (continues : g.Continues id
      (loopNodes (Callable.loopsOver shape layout (sources.map (·.2))) ++ below))
    (strides : layout.strides.length = shape.length)
    (fits : ∀ s ∈ sources, s.2.Fits ∧ Broadcast.Stretches s.2.ty.shape shape) (dst : Addr) :
    g.settled.single id dst (sources.map (·.1)) = forM (indices (Chain.reached below shape)) fun index =>
      g.settled.single (id + shape.length) (dst.advance (Layout.displacement index layout.strides))
        (sources.map fun s =>
          s.1.advance (Layout.displacement (Broadcast.sourceIndex s.2.ty.shape index) s.2.strides)) := by
  have each : ∀ l ∈ Callable.loopsOver shape layout (sources.map (·.2)), l.srcStride.length = sources.length := by
    intro l member
    obtain ⟨p, -, rfl⟩ := List.mem_map.mp member
    simp
  have length : (sources.map (·.1)).length = sources.length := List.length_map _
  have count : (Callable.loopsOver shape layout (sources.map (·.2))).length = shape.length := by
    simp [Callable.loopsOver]
  rw [settled_single_loops handed takes each (DimLoop.outer_of_zipIdx fun _ => rfl) continues dst length, count]
  have nest := Run.overLoops_eq_forM (Chain.batch below) sources (fun d => layout.strides[d]?.getD 0)
    (fun s d => s.2.stretchedStride shape d) (fun d => d + 1 = shape.length)
    (g.settled.single (id + shape.length)) shape.zipIdx dst (·.1)
  have dstStrides : shape.zipIdx.map (fun p => layout.strides[p.2]?.getD 0) = layout.strides := by
    refine List.ext_getElem (by simp [strides]) fun d inside inside' => ?_
    simp [List.getElem?_eq_getElem inside']
  have srcStrides : ∀ s : Addr × Layout, shape.zipIdx.map (fun p => s.2.stretchedStride shape p.2) =
      (List.range shape.length).map (s.2.stretchedStride shape) := by
    intro s
    refine List.ext_getElem (by simp) fun d inside inside' => ?_
    simp
  simp only [dstStrides, decide_eq_true_eq] at nest
  simp only [Callable.loopsOver, List.map_map, Function.comp_def] at nest ⊢
  rw [nest]
  refine Run.forM_congr fun index member => ?_
  have inside := Chain.isIndex_of_mem_reached member
  congr 1
  refine List.map_congr_left fun s member => ?_
  obtain ⟨fit, stretches⟩ := fits s member
  rw [srcStrides, Broadcast.displacement_stretchedStride fit stretches inside]

end CallGraph

end ArrayCall
