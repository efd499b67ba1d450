import ArrayCall.Proofs.Execution.Depth
import ArrayCall.Proofs.Instantiation.Sources
import ArrayCall.Proofs.Machine

/-!
# Strided runs

A strided run of a node comes to the same as single runs of it on one item after the other. Most
nodes are run that way to begin with. A binary operation has a loop of its own, which refuses other than
two sources even where there are no items, and a permutation hands all items to its child at once; so the
graph must hand every node as many sources as it takes (`CallGraph.Handed`), as an instantiated one does.

The loop of a binary operation counts its items by a signed word, and runs none of them where there are more than that
tells. `CallGraph.Batches` says how many items a node runs.
-/

namespace ArrayCall

/-- How many sources a node takes. -/
def Node.takes (n : Node) : Nat := n.kernel.takes n.data

namespace CallGraph

/-- The graphs that come of instantiating callables over own kernels, one after the other. -/
inductive Assembled : CallGraph → Prop
  | empty : Assembled .empty
  | instantiate {g g' : CallGraph} {os : Overloads} {c : Callable} {dst : Layout} {src : List Layout}
      {kwds : Keywords} {result : Except CallError Nat} (before : Assembled g) (own : c.OverOwnKernels)
      (targets : ∀ o ∈ os, o.target.OverOwnKernels)
      (ran : c.instantiate os dst src kwds g = some (result, g')) : Assembled g'

/-- Children exist and come behind their parents, and a permutation has a child that takes as many
sources as there are slots, each of which names a source. -/
structure Handed (g : CallGraph) : Prop where
  closed : g.Closed
  descends : g.Descends
  permutes : ∀ (id : Nat) (n : Node), g.nodes[id]? = some n → n.kernel = .permute →
    ∃ slots c child, n.data = .permutation slots ∧ (∀ slot ∈ slots, slot < (slots.countP (0 ≤ ·) : Nat)) ∧
      n.children[0]? = some c ∧ g.nodes[c]? = some child ∧ child.takes = slots.length

theorem getElem?_append (g : CallGraph) (chain : List (Kernel × NodeData)) (i : Nat) :
    (g.append chain).nodes[g.size + i]? = (Chain.nodesFrom g.size chain)[i]? := by
  rw [append, size, List.getElem?_append_right (by omega), Nat.add_sub_cancel_left]

theorem getElem?_append_of_lt {g : CallGraph} (chain : List (Kernel × NodeData)) {id : Nat}
    (inside : id < g.size) : (g.append chain).nodes[id]? = g.nodes[id]? := by
  rw [append, List.getElem?_append_left inside]

theorem descends_append {g : CallGraph} (descends : g.Descends) (chain : List (Kernel × NodeData)) :
    (g.append chain).Descends := by
  intro id n found c child
  rcases Nat.lt_or_ge id g.size with old | new
  · rw [getElem?_append_of_lt chain old] at found
    exact descends id n found c child
  · obtain ⟨i, rfl⟩ := Nat.exists_eq_add_of_le new
    rw [getElem?_append] at found
    rw [Chain.children_nodesFrom found] at child
    split at child
    · have := List.mem_singleton.mp child
      omega
    · cases child

theorem handed_append {g : CallGraph} (handed : g.Handed) {chain : List (Kernel × NodeData)} {count : Nat}
    (takes : Chain.Takes chain count) : (g.append chain).Handed where
  closed := closed_append handed.closed chain
  descends := descends_append handed.descends chain
  permutes := by
    intro id n found permute
    rcases Nat.lt_or_ge id g.size with old | new
    · rw [getElem?_append_of_lt chain old] at found
      obtain ⟨slots, c, child, data, inside, listed, there, same⟩ := handed.permutes id n found permute
      have earlier : c < g.size :=
        handed.closed n (List.mem_of_getElem? found) c (List.mem_of_getElem? listed)
      rw [← getElem?_append_of_lt chain earlier] at there
      exact ⟨slots, c, child, data, inside, listed, there, same⟩
    · obtain ⟨i, rfl⟩ := Nat.exists_eq_add_of_le new
      rw [getElem?_append] at found
      have written := Chain.getElem?_nodesFrom g.size i chain
      rw [found, Option.map_some, permute] at written
      obtain ⟨slots, below, data, inside, next, same⟩ := takes.of_permute written.symm
      have written := Chain.getElem?_nodesFrom g.size (i + 1) chain
      rw [next, Option.map_eq_some_iff] at written
      obtain ⟨child, there, rfl⟩ := written
      have listed : n.children[0]? = some (g.size + i + 1) := by
        rw [Chain.children_nodesFrom found, if_pos (List.getElem?_eq_some_iff.mp next).1]
        rfl
      refine ⟨slots, g.size + i + 1, child, data, inside, listed, ?_, same⟩
      rw [Nat.add_assoc, getElem?_append, there]

theorem handed_of_assembled {g : CallGraph} (assembled : g.Assembled) : g.Handed := by
  induction assembled with
  | empty => exact ⟨closed_empty, by simp [Descends, empty], by simp [empty]⟩
  | @instantiate g g' os c dst src kwds result before own targets ran inductionHypothesis =>
    rw [Callable.instantiate_eq_onto os c dst src kwds inductionHypothesis.closed] at ran
    cases result with
    | error e =>
      rw [(Outline.of_onto_eq_error ran).2]
      exact inductionHypothesis
    | ok root =>
      obtain ⟨chain, outlined, -, rfl⟩ := Outline.of_onto_eq_ok ran
      exact handed_append inductionHypothesis (Callable.outline_takes targets own dst src kwds chain outlined)

end CallGraph

/-! ## Items -/

namespace Strided

theorem srcAt_length (s : Strided) (k : Nat) : (s.srcAt k).length = min s.src.length s.srcStride.length :=
  List.length_zipWith

/-- The items that a permutation hands to its child. -/
def permuted (s : Strided) (slots : List Int) : Strided :=
  { s with
    src := slots.map (Node.slotAt s.dst s.src)
    srcStride := slots.map (Node.slotAt s.dstStride s.srcStride) }

theorem srcAt_permuted {s : Strided} {slots : List Int} (k : Nat)
    (inside : ∀ slot ∈ slots, slot < s.src.length) (strides : s.srcStride.length = s.src.length) :
    (s.permuted slots).srcAt k = slots.map (Node.slotAt (s.dstAt k) (s.srcAt k)) := by
  simp only [srcAt, permuted, List.zipWith_map, List.zipWith_self]
  refine List.map_congr_left fun slot member => ?_
  have := inside slot member
  simp only [Node.slotAt]
  split
  · rfl
  · have address : slot.toNat < s.src.length := by omega
    have stride : slot.toNat < s.srcStride.length := by omega
    rw [List.getElem?_zipWith, List.getElem?_eq_getElem address, List.getElem?_eq_getElem stride]
    rfl

end Strided

namespace Node

variable {g : CallGraph} {r : Runner} {id c : Nat} {n : Node} {slots : List Int}

theorem slotOf_eq {α : Type} (dst : α) {src : List α} {slot : Int} (inside : slot < src.length) :
    slotOf dst src slot = .ok (slotAt dst src slot) := by
  rw [slotOf, slotAt]
  split
  · rfl
  · rw [List.getElem?_eq_getElem (by omega)]
    rfl

theorem runSingle_permute (kernel : n.kernel = .permute) (data : n.data = .permutation slots)
    (child : g.child id n 0 = .ok c) (dst : Addr) {src : List Addr}
    (inside : ∀ slot ∈ slots, slot < src.length) :
    n.runSingle g r id dst src = r.single c dst (slots.map (slotAt dst src)) := by
  simp only [runSingle, kernel, data, child, Run.ofExcept_ok, pure_bind,
    Run.mapM_ofExcept_ok fun slot member => slotOf_eq dst (inside slot member)]

/-- The batch of a binary operation reads and writes at each item what a single run of it does. -/
theorem runStrided_binary {op : BinaryOp} {kind : Kind} (kernel : n.kernel = .binary op kind) {s : Strided}
    (addresses : s.src.length = 2) (strides : s.srcStride.length = 2) :
    n.runStrided g r id s =
      Run.forEach (Machine.rounds s.count) fun k => n.runSingle g r id (s.dstAt k) (s.srcAt k) := by
  obtain ⟨a, b, sources⟩ := List.length_eq_two.mp addresses
  obtain ⟨strideA, strideB, moved⟩ := List.length_eq_two.mp strides
  simp only [runStrided, runSingle, kernel, sources, moved, Strided.dstAt, Strided.srcAt, List.zipWith_cons_cons,
    List.zipWith_nil_left]

theorem runStrided_binary_of_not_two {op : BinaryOp} {kind : Kind} (kernel : n.kernel = .binary op kind) {s : Strided}
    (other : ¬(s.src.length = 2 ∧ s.srcStride.length = 2)) :
    n.runStrided g r id s = Run.fail .notTwoSources := by
  simp only [runStrided, kernel]
  split
  next sources strides => exact absurd (by rw [sources, strides]; exact ⟨rfl, rfl⟩) other
  next => rfl

theorem runStrided_permute (kernel : n.kernel = .permute) (data : n.data = .permutation slots)
    (child : g.child id n 0 = .ok c) {s : Strided} (inside : ∀ slot ∈ slots, slot < s.src.length)
    (strides : s.srcStride.length = s.src.length) :
    n.runStrided g r id s = r.strided c (s.permuted slots) := by
  have pairs : ∀ slot ∈ slots, (do
      return (← slotOf s.dst s.src slot, ← slotOf s.dstStride s.srcStride slot) :
        Except ExecutionFault (Addr × Int)) =
      .ok (slotAt s.dst s.src slot, slotAt s.dstStride s.srcStride slot) := by
    intro slot member
    have inside := inside slot member
    rw [slotOf_eq _ inside, slotOf_eq _ (strides ▸ inside)]
    rfl
  simp only [runStrided, kernel, data, child, Run.ofExcept_ok, pure_bind, Run.mapM_ofExcept_ok pairs,
    List.map_map]
  rfl

end Node

namespace CallGraph

variable {g : CallGraph}

/-- A permutation runs its child on the addresses that its slots name. -/
theorem settled_single_permute (descends : g.Descends) {id c : Nat} {n child : Node} {slots : List Int}
    (found : g.nodes[id]? = some n) (kernel : n.kernel = .permute) (data : n.data = .permutation slots)
    (listed : n.children[0]? = some c) (there : g.nodes[c]? = some child) (dst : Addr) {src : List Addr}
    (inside : ∀ slot ∈ slots, slot < src.length) :
    g.settled.single id dst src = g.settled.single c dst (slots.map (Node.slotAt dst src)) := by
  have present : g.child id n 0 = .ok c := child_of_getElem? listed there
  rw [(settled_eq descends found).1, Node.runSingle_permute kernel data present dst inside,
    within_settled_single descends there]

/-- Nodes that run items one after the other by their own definition. -/
theorem settled_strided_of_items (descends : g.Descends) {id : Nat} {n : Node}
    (found : g.nodes[id]? = some n) {s : Strided} {count : Nat}
    (items : n.runStrided g g.settled id s =
      Run.forEach count fun k => n.runSingle g g.settled id (s.dstAt k) (s.srcAt k)) :
    g.settled.strided id s = Run.forEach count fun k => g.settled.single id (s.dstAt k) (s.srcAt k) := by
  obtain ⟨single, strided⟩ := settled_eq descends found
  rw [strided, items, Run.within_forEach]
  exact Run.forEach_congr fun k _ => (single _ _).symm

/-- How many items of a batch are run from a node on, for each number of them that there may be. -/
inductive Batches (g : CallGraph) : (id : Nat) → (items : Nat → Nat) → Prop
  | binary {id : Nat} {n : Node} {op : BinaryOp} {kind : Kind} (found : g.nodes[id]? = some n)
      (kernel : n.kernel = .binary op kind) : Batches g id Machine.rounds
  | permute {id c : Nat} {n : Node} {items : Nat → Nat} (found : g.nodes[id]? = some n) (kernel : n.kernel = .permute)
      (listed : n.children[0]? = some c) (below : Batches g c items) : Batches g id items
  | single {id : Nat} {n : Node} (found : g.nodes[id]? = some n) (unary : ∀ op kind, n.kernel ≠ .binary op kind)
      (straight : n.kernel ≠ .permute) : Batches g id fun count => count

/-- As many items as a signed word tells are all run. -/
theorem Batches.items_eq {id : Nat} {items : Nat → Nat} (batches : g.Batches id items) {count : Nat}
    (fits : count ≤ Machine.most) : items count = count := by
  induction batches with
  | binary => exact Machine.rounds_of_le fits
  | permute _ _ _ _ inductionHypothesis => exact inductionHypothesis
  | single => rfl

/-- By induction from the last node to the first: a permutation needs the claim for its child. -/
theorem Handed.exists_batches (handed : g.Handed) {id : Nat} {n : Node} (found : g.nodes[id]? = some n) :
    ∃ items, g.Batches id items := by
  cases kernel : n.kernel with
  | binary op kind => exact ⟨_, .binary found kernel⟩
  | permute =>
    obtain ⟨slots, c, child, -, -, listed, there, -⟩ := handed.permutes id n found kernel
    have behind := handed.descends id n found c (List.mem_of_getElem? listed)
    obtain ⟨items, below⟩ := exists_batches handed there
    exact ⟨items, .permute found kernel listed below⟩
  | _ => exact ⟨_, .single found (by simp [kernel]) (by simp [kernel])⟩
  termination_by g.size - id
  decreasing_by
    have := lt_size_of_getElem? there
    omega

/-- The items that are run are the first ones, each as a single run would run it. -/
theorem settled_strided_eq (handed : g.Handed) {id : Nat} {n : Node} (found : g.nodes[id]? = some n)
    {items : Nat → Nat} (batches : g.Batches id items) {s : Strided} (addresses : s.src.length = n.takes)
    (strides : s.srcStride.length = n.takes) :
    g.settled.strided id s =
      Run.forEach (items s.count) fun k => g.settled.single id (s.dstAt k) (s.srcAt k) := by
  induction batches generalizing n s with
  | binary found' kernel =>
    obtain rfl := Option.some.inj (found.symm.trans found')
    have two : n.takes = 2 := by rw [Node.takes, kernel]; exact Kernel.takes_of_reads? _ rfl
    rw [two] at addresses strides
    exact settled_strided_of_items handed.descends found (Node.runStrided_binary kernel addresses strides)
  | @permute id c _ _ found' kernel listed below inductionHypothesis =>
    obtain rfl := Option.some.inj (found.symm.trans found')
    obtain ⟨slots, c', child, data, inside, listed', there, same⟩ := handed.permutes id n found kernel
    cases listed.symm.trans listed'
    have takes : n.takes = slots.countP (0 ≤ ·) := by rw [Node.takes, kernel, data]; rfl
    rw [← takes, ← addresses] at inside
    have strides := strides.trans addresses.symm
    have present : g.child id n 0 = .ok c := child_of_getElem? listed there
    have below := inductionHypothesis there (s := s.permuted slots) (by simp [Strided.permuted, same])
      (by simp [Strided.permuted, same])
    obtain ⟨single, strided⟩ := settled_eq handed.descends found
    rw [strided, Node.runStrided_permute kernel data present inside strides, below, Run.within_forEach]
    refine Run.forEach_congr fun k _ => ?_
    have each : ∀ slot ∈ slots, slot < (s.srcAt k).length := by
      rwa [Strided.srcAt_length, strides, Nat.min_self]
    rw [single, Node.runSingle_permute kernel data present _ each, Strided.srcAt_permuted k inside strides]
    rfl
  | single found' unary straight =>
    obtain rfl := Option.some.inj (found.symm.trans found')
    refine settled_strided_of_items handed.descends found ?_
    cases kernel : n.kernel with
    | binary op kind => exact absurd kernel (unary op kind)
    | permute => exact absurd kernel straight
    | _ => simp only [Node.runStrided, kernel]

/-- A strided run of any node of an instantiated graph, with as many sources as the node takes and as many items as a
signed word tells, does to every memory what single runs on its items do one after the other: the contents and the
scratch regions in the end are the same, and so is the result or the error, at which both stop. -/
theorem strided_eq_forEach_single (assembled : g.Assembled) {id : Nat} {n : Node}
    (found : g.nodes[id]? = some n) {s : Strided} (addresses : s.src.length = n.takes)
    (strides : s.srcStride.length = n.takes) (fits : s.count ≤ Machine.most) (m : Memory) :
    g.strided id s m = Run.forEach s.count (fun k => g.single id (s.dstAt k) (s.srcAt k)) m := by
  have handed := handed_of_assembled assembled
  have inside := lt_size_of_getElem? found
  obtain ⟨items, batches⟩ := handed.exists_batches found
  rw [strided_eq_settled handed.descends inside, settled_strided_eq handed found batches addresses strides,
    batches.items_eq fits]
  simp only [single_eq_settled handed.descends inside]

/-- The permutation of a sum, on items that overlap: each element is added to the next one. -/
theorem strided_eq_of_running_sum :
    let add : Callable := .leaf 0 "add[int32]" (Builtins.uniform 2 (.scalar (.int .w32)))
      ⟨.fixed (.binary .add (.int .w32)), none⟩
    let sum : Callable := .reduce 1 (.permute 2 add [-1, 0]) none
    let g : CallGraph := ⟨[⟨.fold, .fold none (.int .w32), [1]⟩, ⟨.loop, .loop ⟨2, 0, [4], true⟩, [2]⟩,
      ⟨.permute, .permutation [-1, 0], [3]⟩, ⟨.binary .add (.int .w32), .none, []⟩]⟩
    let s : Strided := ⟨⟨0, 4⟩, 4, [⟨0, 0⟩], [4], 2⟩
    let m : Memory := ⟨[⟨.exclusive, .ofList [1, 0, 0, 0, 1, 0, 0, 0, 1, 0, 0, 0]⟩], []⟩
    (sum.OverOwnKernels ∧ g.Assembled) ∧
      g.nodes[2]? = some ⟨.permute, .permutation [-1, 0], [3]⟩ ∧ s.src.length = 1 ∧ s.srcStride.length = 1 ∧
      s.count ≤ Machine.most ∧ g.strided 2 s m = Run.forEach 2 (fun k => g.single 2 (s.dstAt k) (s.srcAt k)) m := by
  intro add sum g s m
  have checked : Callable.ofLeaf 0 "add[int32]" (Builtins.uniform 2 (.scalar (.int .w32)))
      ⟨.fixed (.binary .add (.int .w32)), none⟩ = .ok add := rfl
  have leaf : add.OverOwnKernels := .leaf (by exact rfl) checked
  have own : sum.OverOwnKernels := .reduced leaf (show add.reduced 1 2 .left none = .ok sum from rfl)
  have ran : sum.instantiate [] ⟨.scalar (.int .w32), []⟩ [⟨.fixedDim 2 (.scalar (.int .w32)), [4]⟩] .empty .empty =
      some (.ok 0, g) := by cbv
  have assembled : g.Assembled := .instantiate .empty own (by simp) ran
  have found : g.nodes[2]? = some ⟨.permute, .permutation [-1, 0], [3]⟩ := rfl
  have fits : s.count ≤ Machine.most := by decide
  exact ⟨⟨own, assembled⟩, found, rfl, rfl, fits, strided_eq_forEach_single assembled found rfl rfl fits m⟩

/-- A batch of more items than a signed word tells is not run at all, where a single run of its first item would
divide by zero. -/
theorem strided_skips_large_batch :
    let divide : Callable := .leaf 0 "divide[int32]" (Builtins.uniform 2 (.scalar (.int .w32)))
      ⟨.fixed (.binary .divide (.int .w32)), none⟩
    let g : CallGraph := ⟨[⟨.binary .divide (.int .w32), .none, []⟩]⟩
    let s : Strided := ⟨⟨0, 0⟩, 0, [⟨1, 0⟩, ⟨2, 0⟩], [0, 0], 2 ^ 64 - 1⟩
    let m : Memory := ⟨[⟨.exclusive, .zeros 4⟩, ⟨.shared, .ofList [1, 0, 0, 0]⟩, ⟨.shared, .zeros 4⟩], []⟩
    (divide.OverOwnKernels ∧ g.Assembled) ∧ g.strided 0 s m = (.ok (), m) ∧
      (Run.forEach s.count (fun k => g.single 0 (s.dstAt k) (s.srcAt k)) m).1 =
        .error (.execution (some "divide") .divisionByZero) := by
  intro divide g s m
  have checked : Callable.ofLeaf 0 "divide[int32]" (Builtins.uniform 2 (.scalar (.int .w32)))
      ⟨.fixed (.binary .divide (.int .w32)), none⟩ = .ok divide := rfl
  have leaf : divide.OverOwnKernels := .leaf (by exact rfl) checked
  have ran : divide.instantiate [] ⟨.scalar (.int .w32), []⟩
      [⟨.scalar (.int .w32), []⟩, ⟨.scalar (.int .w32), []⟩] .empty .empty = some (.ok 0, g) := by cbv
  have assembled : g.Assembled := .instantiate .empty leaf (by simp) ran
  have handed := handed_of_assembled assembled
  have found : g.nodes[0]? = some ⟨.binary .divide (.int .w32), .none, []⟩ := rfl
  refine ⟨⟨leaf, assembled⟩, ?_, ?_⟩
  · rw [strided_eq_settled handed.descends (by decide), settled_strided_eq handed found (.binary found rfl) rfl rfl,
      Machine.rounds_of_lt (by decide) (by decide)]
    rfl
  · have first : g.single 0 (s.dstAt 0) (s.srcAt 0) m = (.error (.execution (some "divide") .divisionByZero), m) := rfl
    rw [Run.forEach, show s.count = (2 ^ 64 - 2) + 1 from rfl, Run.forFrom, Run.bind_apply, first]

end CallGraph

end ArrayCall
