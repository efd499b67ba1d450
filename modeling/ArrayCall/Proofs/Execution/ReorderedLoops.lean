import ArrayCall.Proofs.Execution.Loops

/-!
# Permutations above loops and below them

A permutation above a nest of loops reorders the addresses once, and the loops move the reordered ones; below
the loops it reorders what they have moved. Each loop moves an address by its own stride wherever it stands, so
the child below both is run on the same addresses in the same order (`CallGraph.reorders_loops`), whatever it does
and wherever the addresses are. Nothing is asked of the child: the graphs share its nodes, and a run from there on
sees no others (`CallGraph.settled_congr_from`).
-/

namespace ArrayCall

/-! ## Graphs that agree from a node on -/

namespace Node

variable {g g' : CallGraph} {r : Runner} {id : Nat} {n : Node}

/-- A node looks into its graph for its child alone. -/
theorem runSingle_of_child_eq (same : g.child id n 0 = g'.child id n 0) (dst : Addr) (src : List Addr) :
    n.runSingle g r id dst src = n.runSingle g' r id dst src := by
  unfold runSingle
  cases n.kernel with
  | loop => simp only [runLoop, same]
  | convert => simp only [runConvert, same]
  | _ => simp only [same]

theorem runStrided_of_child_eq (same : g.child id n 0 = g'.child id n 0) (s : Strided) :
    n.runStrided g r id s = n.runStrided g' r id s := by
  unfold runStrided
  cases n.kernel with
  | binary op kind => rfl
  | _ => simp only [same, runSingle_of_child_eq same]

end Node

namespace CallGraph

variable {g g' : CallGraph} {id first : Nat} {n : Node}

theorem child_congr (descends : g.Descends) (agree : ∀ i, first ≤ i → g.nodes[i]? = g'.nodes[i]?)
    (found : g.nodes[id]? = some n) (later : first ≤ id) : g.child id n 0 = g'.child id n 0 := by
  rw [child, child]
  cases listed : n.children[0]? with
  | none => rfl
  | some c =>
    have behind := descends id n found c (List.mem_of_getElem? listed)
    dsimp only
    rw [node, node, agree c (by omega)]

/-- Runs from a node on do not see the nodes before it. -/
theorem runner_congr_from (descends : g.Descends) (agree : ∀ i, first ≤ i → g.nodes[i]? = g'.nodes[i]?) (depth : Nat)
    (later : first ≤ id) :
    (g.runner depth).single id = (g'.runner depth).single id ∧
      (g.runner depth).strided id = (g'.runner depth).strided id := by
  induction depth generalizing id with
  | zero => exact ⟨rfl, rfl⟩
  | succ depth inductionHypothesis =>
    have here : g.node id = g'.node id := by rw [node, node, agree id later]
    simp only [runner, ← here]
    cases found : g.nodes[id]? with
    | none =>
      have absent : ∀ next : Node → Run Unit, (Run.ofExcept (.error (.noNode id)) >>= next) = Run.fail (.noNode id) :=
        fun _ => rfl
      simp only [node, found, absent, and_self]
    | some n =>
      have same := child_congr descends agree found later
      have below : ∀ c, g.child id n 0 = .ok c → (g.runner depth).single c = (g'.runner depth).single c ∧
          (g.runner depth).strided c = (g'.runner depth).strided c := by
        intro c child
        have behind := descends id n found c (List.mem_of_getElem? (of_child_eq_ok child).1)
        exact inductionHypothesis (by omega)
      simp only [node_of_getElem? found, Run.ofExcept_ok, pure_bind, Node.runSingle_congr below,
        Node.runStrided_congr below, Node.runSingle_of_child_eq same, Node.runStrided_of_child_eq same, and_self]

theorem settled_congr_from (descends : g.Descends) (agree : ∀ i, first ≤ i → g.nodes[i]? = g'.nodes[i]?)
    (size : g.size = g'.size) (later : first ≤ id) :
    g.settled.single id = g'.settled.single id ∧ g.settled.strided id = g'.settled.strided id := by
  rw [settled, settled, ← size]
  exact runner_congr_from descends agree _ later

theorem within_settled_strided (descends : g.Descends) (found : g.nodes[id]? = some n) (outer : Kernel) (s : Strided) :
    Run.within outer (g.settled.strided id s) = g.settled.strided id s := by
  rw [(settled_eq descends found).2, Run.within_within]

/-- Graphs that end in the same chain, from the same node on. -/
theorem Continues.agree {rest : List (Kernel × NodeData)} (continues : g.Continues first rest)
    (continues' : g'.Continues first rest) (size : g.size = first + rest.length)
    (size' : g'.size = first + rest.length) :
    ∀ i, first ≤ i → g.nodes[i]? = g'.nodes[i]? := by
  intro i later
  obtain ⟨k, rfl⟩ := Nat.exists_eq_add_of_le later
  rcases Nat.lt_or_ge k rest.length with inside | outside
  · rw [continues k inside, continues' k inside]
  · have beyond : g.nodes.length ≤ first + k := by rw [CallGraph.size] at size; omega
    have beyond' : g'.nodes.length ≤ first + k := by rw [CallGraph.size] at size'; omega
    rw [List.getElem?_eq_none beyond, List.getElem?_eq_none beyond']

/-- A node above others has the next one for its child. -/
theorem Continues.above {first second : Kernel × NodeData} {rest : List (Kernel × NodeData)}
    (continues : g.Continues id (first :: second :: rest)) :
    g.nodes[id]? = some ⟨first.1, first.2, [id + 1]⟩ ∧ ∃ child, g.nodes[id + 1]? = some child :=
  ⟨continues 0 (by simp), _, (continues.tail 0 (by simp)).trans (List.getElem?_eq_getElem (by simp))⟩

end CallGraph

/-! ## Reordering -/

/-- The loop over reordered sources. -/
def DimLoop.permuted (slots : List Int) (l : DimLoop) : DimLoop :=
  { l with srcStride := slots.map (Node.slotAt l.dstStride l.srcStride) }

variable {slots : List Int} {count : Nat}

/-- What is reordered may be moved before or after. -/
theorem Node.advanceAll_permuted (inside : ∀ slot ∈ slots, slot < (count : Int)) (l : DimLoop) (i : Nat) (dst : Addr)
    {src : List Addr} (sources : src.length = count) (strides : l.srcStride.length = count) :
    advanceAll i (slots.map (slotAt dst src)) (l.permuted slots).srcStride =
      slots.map (slotAt (dst.advance (i * l.dstStride)) (advanceAll i src l.srcStride)) := by
  let s : Strided := ⟨dst, l.dstStride, src, l.srcStride, l.extent⟩
  have same : s.src.length = s.srcStride.length := sources.trans strides.symm
  calc advanceAll i (slots.map (slotAt dst src)) (l.permuted slots).srcStride
      = (s.permuted slots).srcAt i := advanceAll_eq_srcAt (s := s.permuted slots) (by simp [Strided.permuted]) i
    _ = slots.map (slotAt (s.dstAt i) (s.srcAt i)) := Strided.srcAt_permuted i (sources ▸ inside) same.symm
    _ = slots.map (slotAt (dst.advance (i * l.dstStride)) (advanceAll i src l.srcStride)) := by
      rw [← advanceAll_eq_srcAt same]
      rfl

namespace CallGraph

variable {g g' : CallGraph} {id : Nat}

/-- From a node of `g` on, reordered addresses are run as the addresses themselves are from a node of `g'` on. -/
structure Reorders (slots : List Int) (count : Nat) (g g' : CallGraph) (id id' : Nat) : Prop where
  single : ∀ dst src, src.length = count →
    g.settled.single id dst (slots.map (Node.slotAt dst src)) = g'.settled.single id' dst src
  strided : ∀ s : Strided, s.src.length = count → s.srcStride.length = count →
    g.settled.strided id (s.permuted slots) = g'.settled.strided id' s

variable (descends : g.Descends) (descends' : g'.Descends) (inside : ∀ slot ∈ slots, slot < (count : Int))
include descends descends' inside

omit descends in
/-- The permutation itself, above a child that both graphs have. -/
theorem reorders_permute {child : Node} (same : g.settled.single (id + 1) = g'.settled.single (id + 1) ∧
      g.settled.strided (id + 1) = g'.settled.strided (id + 1))
    (found : g'.nodes[id]? = some ⟨.permute, .permutation slots, [id + 1]⟩) (there : g'.nodes[id + 1]? = some child) :
    Reorders slots count g g' (id + 1) id where
  single dst src sources := by
    rw [same.1, settled_single_permute descends' found rfl rfl rfl there dst (sources ▸ inside)]
  strided s sources strides := by
    have present : g'.child id ⟨.permute, .permutation slots, [id + 1]⟩ 0 = .ok (id + 1) := child_of_getElem? rfl there
    rw [same.2, (settled_eq descends' found).2, Node.runStrided_permute rfl rfl present (sources ▸ inside)
      (strides.trans sources.symm), within_settled_strided descends' there]

/-- A loop runs its child on addresses that it has moved, and these may be reordered before. -/
theorem reorders_loop {l : DimLoop} {child child' : Node} (strides : l.srcStride.length = count)
    (found : g.nodes[id + 1]? = some ⟨.loop, .loop (l.permuted slots), [id + 1 + 1]⟩)
    (found' : g'.nodes[id]? = some ⟨.loop, .loop l, [id + 1]⟩) (there : g.nodes[id + 1 + 1]? = some child)
    (there' : g'.nodes[id + 1]? = some child') (below : Reorders slots count g g' (id + 1 + 1) (id + 1)) :
    Reorders slots count g g' (id + 1) id := by
  have present : g.child (id + 1) ⟨.loop, .loop (l.permuted slots), [id + 1 + 1]⟩ 0 = .ok (id + 1 + 1) :=
    child_of_getElem? rfl there
  have present' : g'.child id ⟨.loop, .loop l, [id + 1]⟩ 0 = .ok (id + 1) := child_of_getElem? rfl there'
  have single : ∀ dst src, src.length = count →
      g.settled.single (id + 1) dst (slots.map (Node.slotAt dst src)) = g'.settled.single id dst src := by
    intro dst src sources
    rw [(settled_eq descends found).1, (settled_eq descends' found').1]
    simp only [Node.runSingle, Node.runLoop, present, present', Run.ofExcept_ok, pure_bind]
    change Run.within _ (if l.innermost then _ else _) = _
    split
    · exact congrArg _ (below.strided ⟨dst, l.dstStride, src, l.srcStride, l.extent⟩ sources strides)
    · refine congrArg _ (Run.forEach_congr fun i _ => ?_)
      rw [Node.advanceAll_permuted inside l i dst sources strides]
      exact below.single _ _ ((Node.length_advanceAll ..).trans sources)
  refine ⟨single, fun s sources strided => ?_⟩
  rw [settled_strided_of_items descends found rfl, settled_strided_of_items descends' found' rfl]
  refine Run.forEach_congr fun k _ => ?_
  rw [Strided.srcAt_permuted k (sources ▸ inside) (strided.trans sources.symm)]
  exact single _ _ (by rw [Strided.srcAt_length, sources, strided, Nat.min_self])

/-- The induction is over the loops, from the outermost one on; what stands below all of them is the permutation. -/
theorem reorders_loops {loops : List DimLoop} {below : List (Kernel × NodeData)} (nonempty : below ≠ [])
    (strides : ∀ l ∈ loops, l.srcStride.length = count)
    (continues : g.Continues (id + 1) (loopNodes (loops.map (DimLoop.permuted slots)) ++ below))
    (continues' : g'.Continues id (loopNodes loops ++ (.permute, .permutation slots) :: below))
    (same : g.settled.single (id + loops.length + 1) = g'.settled.single (id + loops.length + 1) ∧
      g.settled.strided (id + loops.length + 1) = g'.settled.strided (id + loops.length + 1)) :
    Reorders slots count g g' (id + 1) id := by
  obtain ⟨first, rest, rfl⟩ := List.exists_cons_of_ne_nil nonempty
  induction loops generalizing id with
  | nil =>
    obtain ⟨found, child, there⟩ := continues'.above
    exact reorders_permute descends' inside same found there
  | cons l loops inductionHypothesis =>
    obtain ⟨own, strides⟩ := List.forall_mem_cons.mp strides
    obtain ⟨second, later, front⟩ := List.exists_cons_of_ne_nil (List.append_ne_nil_of_right_ne_nil
      (loopNodes (loops.map (DimLoop.permuted slots))) (List.cons_ne_nil first rest))
    obtain ⟨second', later', front'⟩ := List.exists_cons_of_ne_nil (List.append_ne_nil_of_right_ne_nil
      (loopNodes loops) (List.cons_ne_nil (Kernel.permute, NodeData.permutation slots) (first :: rest)))
    rw [List.map_cons, loopNodes_cons, List.cons_append, front] at continues
    rw [loopNodes_cons, List.cons_append, front'] at continues'
    obtain ⟨found, child, there⟩ := continues.above
    obtain ⟨found', child', there'⟩ := continues'.above
    have behind := continues.tail
    have behind' := continues'.tail
    rw [← front] at behind
    rw [← front'] at behind'
    rw [List.length_cons, Nat.add_comm loops.length, ← Nat.add_assoc] at same
    exact reorders_loop descends descends' inside own found found' there there'
      (inductionHypothesis strides same behind behind')

/-- Graphs with the same nodes below: one in which a permutation stands above loops that move reordered addresses,
and one in which it stands below the loops. -/
theorem reorders_of_continues {loops : List DimLoop} {below : List (Kernel × NodeData)} (nonempty : below ≠ [])
    (strides : ∀ l ∈ loops, l.srcStride.length = count)
    (continues : g.Continues (id + 1) (loopNodes (loops.map (DimLoop.permuted slots)) ++ below))
    (continues' : g'.Continues id (loopNodes loops ++ (.permute, .permutation slots) :: below))
    (size : g.size = id + loops.length + 1 + below.length) (size' : g'.size = id + loops.length + 1 + below.length) :
    Reorders slots count g g' (id + 1) id := by
  refine reorders_loops descends descends' inside nonempty strides continues continues' ?_
  have rest := continues.of_append
  have rest' : g'.Continues (id + loops.length + 1) below := by
    have behind : g'.Continues (id + loops.length) ([(.permute, .permutation slots)] ++ below) := by
      have behind := continues'.of_append
      rwa [List.length_map] at behind
    exact behind.of_append
  rw [List.length_map, List.length_map, Nat.add_right_comm] at rest
  exact settled_congr_from descends (rest.agree rest' size size') (size.trans size'.symm) (Nat.le_refl _)

end CallGraph

end ArrayCall
