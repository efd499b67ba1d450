import ArrayCall.Proofs.Execution.Run

/-!
# Graphs without cycles

Where children come behind their parents (`CallGraph.Descends`) a path has at most as many nodes
as the graph, so that the depth given to a runner does not matter once it is greater than that.
`CallGraph.settled` is the runner of that depth (`CallGraph.single_eq_settled`,
`CallGraph.strided_eq_settled`), and `CallGraph.settled_eq` is what a run of one node comes to, without
any depth.
-/

namespace ArrayCall

/-! ## What a node asks of its children -/

namespace Node

variable {g : CallGraph} {id : Nat} {n : Node} {r r' : Runner}

theorem runLoop_congr
    (same : ∀ c, g.child id n 0 = .ok c → r.single c = r'.single c ∧ r.strided c = r'.strided c)
    (dst : Addr) (src : List Addr) : n.runLoop g r id dst src = n.runLoop g r' id dst src := by
  rw [runLoop, runLoop]
  cases child : g.child id n 0 with
  | error fault => simp only [Run.ofExcept_error, Run.fail_bind]
  | ok c =>
    obtain ⟨single, strided⟩ := same c child
    simp only [Run.ofExcept_ok, pure_bind, single, strided]

theorem runConvert_congr (same : ∀ c, g.child id n 0 = .ok c → r.single c = r'.single c)
    (dst : Addr) (src : List Addr) : n.runConvert g r id dst src = n.runConvert g r' id dst src := by
  rw [runConvert, runConvert]
  cases child : g.child id n 0 with
  | error fault => rfl
  | ok c => simp only [Run.ofExcept_ok, pure_bind, same c child]

theorem runSingle_congr
    (same : ∀ c, g.child id n 0 = .ok c → r.single c = r'.single c ∧ r.strided c = r'.strided c)
    (dst : Addr) (src : List Addr) : n.runSingle g r id dst src = n.runSingle g r' id dst src := by
  have single : ∀ c, g.child id n 0 = .ok c → r.single c = r'.single c := fun c child => (same c child).1
  unfold runSingle
  cases n.kernel with
  | loop => exact runLoop_congr same dst src
  | convert => exact runConvert_congr single dst src
  | permute =>
    cases child : g.child id n 0 with
    | error fault => rfl
    | ok c => simp only [Run.ofExcept_ok, pure_bind, single c child]
  | fold =>
    cases child : g.child id n 0 with
    | error fault => rfl
    | ok c => simp only [Run.ofExcept_ok, pure_bind, single c child]
  | _ => rfl

theorem runStrided_congr
    (same : ∀ c, g.child id n 0 = .ok c → r.single c = r'.single c ∧ r.strided c = r'.strided c)
    (s : Strided) : n.runStrided g r id s = n.runStrided g r' id s := by
  have single := runSingle_congr same
  unfold runStrided
  cases n.kernel with
  | permute =>
    cases child : g.child id n 0 with
    | error fault => rfl
    | ok c => simp only [Run.ofExcept_ok, pure_bind, (same c child).2]
  | binary op kind => rfl
  | _ => simp only [single]

end Node

/-! ## Depth -/

namespace CallGraph

variable {g : CallGraph} {id : Nat} {n : Node}

/-- Children come behind their parents. -/
def Descends (g : CallGraph) : Prop :=
  ∀ (id : Nat) (n : Node), g.nodes[id]? = some n → ∀ c ∈ n.children, id < c

theorem node_of_getElem? (found : g.nodes[id]? = some n) : g.node id = .ok n := by
  rw [node, found]

theorem lt_size_of_getElem? (found : g.nodes[id]? = some n) : id < g.size :=
  (List.getElem?_eq_some_iff.mp found).1

theorem of_child_eq_ok {index c : Nat} (child : g.child id n index = .ok c) :
    n.children[index]? = some c ∧ c < g.size := by
  rw [CallGraph.child] at child
  split at child
  next => cases child
  next c' listed =>
    rw [node] at child
    split at child
    next m there =>
      cases child
      exact ⟨listed, lt_size_of_getElem? there⟩
    next => cases child

theorem child_of_getElem? {index c : Nat} {m : Node} (listed : n.children[index]? = some c)
    (there : g.nodes[c]? = some m) : g.child id n index = .ok c := by
  rw [CallGraph.child, listed]
  change (g.node c).map _ = _
  rw [node_of_getElem? there]
  rfl

/-- Beyond the number of nodes that are left the depth makes no difference. -/
theorem runner_congr (descends : g.Descends) {depth depth' : Nat} (inside : id < g.size)
    (enough : g.size ≤ id + depth) (enough' : g.size ≤ id + depth') :
    (g.runner depth).single id = (g.runner depth').single id ∧
      (g.runner depth).strided id = (g.runner depth').strided id := by
  induction depth generalizing id depth' with
  | zero => omega
  | succ depth inductionHypothesis =>
    cases depth' with
    | zero => omega
    | succ depth' =>
      obtain ⟨n, found⟩ : ∃ n, g.nodes[id]? = some n := ⟨_, List.getElem?_eq_getElem inside⟩
      have same : ∀ c, g.child id n 0 = .ok c → (g.runner depth).single c = (g.runner depth').single c ∧
          (g.runner depth).strided c = (g.runner depth').strided c := by
        -- A child has fewer nodes left than its parent, so one step less of depth is enough for it.
        intro c child
        obtain ⟨listed, lt⟩ := of_child_eq_ok child
        have := descends id n found c (List.mem_of_getElem? listed)
        exact inductionHypothesis lt (by omega) (by omega)
      simp only [runner, node_of_getElem? found, Run.ofExcept_ok, pure_bind, Node.runSingle_congr same,
        Node.runStrided_congr same, and_self]

/-- How the nodes of a graph without cycles are run. -/
def settled (g : CallGraph) : Runner := g.runner (g.size + 1)

theorem le_maxDepth (g : CallGraph) (given : Nat) : g.size ≤ g.maxDepth given :=
  Nat.le_trans (Nat.le_succ _) (Nat.le_mul_of_pos_right _ (Nat.succ_pos _))

theorem single_eq_settled (descends : g.Descends) (inside : id < g.size) (dst : Addr) (src : List Addr) :
    g.single id dst src = g.settled.single id dst src := by
  have depth := g.le_maxDepth src.length
  have same : (g.runner (g.maxDepth src.length)).single id = g.settled.single id :=
    (runner_congr descends inside (by omega) (by omega)).1
  rw [single, same]

theorem strided_eq_settled (descends : g.Descends) (inside : id < g.size) (s : Strided) :
    g.strided id s = g.settled.strided id s := by
  have depth := g.le_maxDepth s.src.length
  have same : (g.runner (g.maxDepth s.src.length)).strided id = g.settled.strided id :=
    (runner_congr descends inside (by omega) (by omega)).2
  rw [strided, same]

theorem settled_eq (descends : g.Descends) (found : g.nodes[id]? = some n) :
    (∀ dst src, g.settled.single id dst src = Run.within n.kernel (n.runSingle g g.settled id dst src)) ∧
      ∀ s, g.settled.strided id s = Run.within n.kernel (n.runStrided g g.settled id s) := by
  have same : ∀ c, g.child id n 0 = .ok c → (g.runner g.size).single c = g.settled.single c ∧
      (g.runner g.size).strided c = g.settled.strided c := by
    intro c child
    obtain ⟨-, lt⟩ := of_child_eq_ok child
    exact runner_congr descends lt (by omega) (by omega)
  constructor
  · intro dst src
    rw [← Node.runSingle_congr same]
    simp only [settled, runner, node_of_getElem? found, Run.ofExcept_ok, pure_bind]
  · intro s
    rw [← Node.runStrided_congr same]
    simp only [settled, runner, node_of_getElem? found, Run.ofExcept_ok, pure_bind]

/-- The error of a node names its own kernel, or one further in. -/
theorem within_settled_single (descends : g.Descends) (found : g.nodes[id]? = some n) (outer : Kernel) (dst : Addr)
    (src : List Addr) : Run.within outer (g.settled.single id dst src) = g.settled.single id dst src := by
  rw [(settled_eq descends found).1, Run.within_within]

end CallGraph

end ArrayCall
