import ArrayCall.Builtins
import ArrayCall.Proofs.CallGraph.Recording

/-!
# Histories of a call graph

Nodes are written, adopted and released, and callables are instantiated, in any order and any number of times
(`CallGraph.run`). After any history the children of a node are the very nodes that it has adopted
(`CallGraph.no_stale_children`): what has been released is no child any more, and no node becomes a child by having the
number of a node that was released.
-/

namespace ArrayCall

namespace CallGraph

/-- What may be asked of a call graph. -/
inductive Request where
  | push (kernel : Kernel) (data : NodeData)
  | adopt (parent child : Nat)
  | rollback (mark : Nat)
  | instantiate (os : Overloads) (c : Callable) (dst : Layout) (src : List Layout) (kwds : Keywords)

/-- The graph after a request, whether an instantiation succeeds or fails. There is none if the parent or the child of
an adoption does not exist, or if an instantiation has no end. -/
def after (g : CallGraph) : Request → Option CallGraph
  | .push kernel data => some (g.push kernel data).2
  | .adopt parent child => if parent < g.size ∧ child < g.size then some (g.adopt parent child) else none
  | .rollback mark => some (g.rollback mark).2
  | .instantiate os c dst src kwds => (c.instantiate os dst src kwds g).map (·.2)

/-- The graph after a history of requests -/
def run (g : CallGraph) (history : List Request) : Option CallGraph := history.foldlM after g

end CallGraph

namespace Ledger

open CallGraph (Request)

/-- The ledger after a request -/
def after (l : Ledger) : Request → Option Ledger
  | .push kernel data => some (l.push kernel data).2
  | .adopt parent child => if parent < l.graph.size ∧ child < l.graph.size then some (l.adopt parent child) else none
  | .rollback mark => some (l.release mark)
  | .instantiate os c dst src kwds => ((c.record os dst src kwds).run l).map (·.2)

/-- The ledger after a history of requests -/
def run (l : Ledger) (history : List Request) : Option Ledger := history.foldlM after l

variable {l : Ledger}

/-- A request changes the graph of a ledger as it changes a graph, and keeps the ledger faithful. -/
theorem Faithful.after (faithful : l.Faithful) (request : Request) :
    l.after request = none ∧ l.graph.after request = none ∨
      ∃ l', l.after request = some l' ∧ l.graph.after request = some l'.graph ∧ l'.Faithful := by
  cases request with
  | push kernel data => exact .inr ⟨_, rfl, rfl, faithful.push kernel data⟩
  | adopt parent child =>
    rw [Ledger.after, CallGraph.after]
    split
    next exist => exact .inr ⟨_, rfl, rfl, faithful.adopt exist.1 exist.2⟩
    next => exact .inl ⟨rfl, rfl⟩
  | rollback mark => exact .inr ⟨_, rfl, rfl, faithful.release mark⟩
  | instantiate os c dst src kwds =>
    rw [Ledger.after, CallGraph.after, Callable.instantiate]
    obtain ⟨no_end, no_end'⟩ | ⟨result, l', ran, ran', grows, -⟩ := Callable.follows_record os c dst src kwds l faithful
    · rw [no_end, no_end']
      exact .inl ⟨rfl, rfl⟩
    · rw [ran, ran']
      exact .inr ⟨l', rfl, rfl, grows.faithful⟩

theorem Faithful.run (faithful : l.Faithful) (history : List Request) {g : CallGraph}
    (ran : l.graph.run history = some g) : ∃ l', l.run history = some l' ∧ l'.graph = g ∧ l'.Faithful := by
  induction history generalizing l with
  | nil =>
    cases ran
    exact ⟨l, rfl, rfl, faithful⟩
  | cons request history inductionHypothesis =>
    rw [CallGraph.run, List.foldlM_cons] at ran
    rw [Ledger.run, List.foldlM_cons]
    obtain ⟨-, no_graph⟩ | ⟨l', stepped, stepped', faithful'⟩ := faithful.after request
    · rw [no_graph] at ran
      cases ran
    · rw [stepped'] at ran
      rw [stepped]
      exact inductionHypothesis faithful' ran

end Ledger

namespace CallGraph

/-- After any history each node of the graph is the one of its serial number, and each child is the very node that was
adopted, whatever number it has. From any mark on a rollback releases the nodes, the newest first, and of those in front
of the mark it changes nothing but that they lose the children that are released. -/
theorem no_stale_children {history : List Request} {g : CallGraph} (ran : empty.run history = some g) :
    ∃ l, Ledger.empty.run history = some l ∧ l.graph = g ∧ l.Faithful ∧
      (∀ (id : Nat) (n : Node), g.nodes[id]? = some n → ∀ c ∈ n.children, c < g.size ∧ ∃ parent child,
        l.serials[id]? = some parent ∧ l.serials[c]? = some child ∧ (parent, child) ∈ l.adoptions) ∧
      ∀ mark, (g.rollback mark).1.Pairwise (· > ·) ∧
        (∀ id, id ∈ (g.rollback mark).1 ↔ mark ≤ id ∧ id < g.size) ∧
        (g.rollback mark).2.size = min mark g.size ∧
        ∀ (id : Nat) (n : Node), id < mark → g.nodes[id]? = some n →
          (g.rollback mark).2.nodes[id]? = some { n with children := n.children.filter (· < mark) } := by
  obtain ⟨l, ran', rfl, faithful⟩ := Ledger.faithful_empty.run history ran
  refine ⟨l, ran', rfl, faithful, ?_, fun mark => ?_⟩
  · intro id n found c member
    obtain ⟨parent, parent_named, tells⟩ := faithful.tells id n found
    obtain ⟨child, child_named, adopted⟩ := tells.exists_adoption member
    refine ⟨?_, parent, child, parent_named, child_named, adopted⟩
    exact faithful.length_serials ▸ (List.getElem?_eq_some_iff.mp child_named).1
  · rw [rollback_eq]
    refine ⟨l.graph.releasedFrom_descends mark, fun id => mem_releasedFrom_iff, l.graph.size_truncate mark, ?_⟩
    intro id n front found
    rw [getElem?_truncate, if_pos front, found]
    rfl

/-- A node is released, and the next one has its number but is not the child of its parent. A loop is written for a
callable that then fails on its child, and is released again. -/
theorem no_stale_children_of_reused_number :
    let int32 := Ty.scalar (.int .w32)
    let add : Callable := .lift 1 (.leaf 0 "add[int32]" (Builtins.uniform 2 int32)
      ⟨.fixed (.binary .add (.int .w32)), none⟩) none
    let dst : Layout := ⟨.fixedDim 2 int32, [4]⟩
    let floats : Layout := ⟨.fixedDim 2 (.scalar .float64), [8]⟩
    let history : List Request := [.push .noop .none, .push .noop .none, .adopt 0 1, .rollback 1, .push .noop .none,
      .adopt 1 0, .instantiate [] add dst [dst, floats] .empty, .instantiate [] add dst [dst, dst] .empty, .adopt 0 2]
    ∃ g l, empty.run history = some g ∧ Ledger.empty.run history = some l ∧ l.graph = g ∧ l.Faithful ∧
      g.nodes.map (·.children) = [[2], [0], [3], []] ∧ l.serials = [0, 2, 4, 5] ∧
      l.adoptions = [(0, 1), (2, 0), (4, 5), (0, 4)] ∧ (g.rollback 2).1 = [3, 2] := by
  intro int32 add dst floats history
  have shape : (empty.run history).map (fun g => (g.nodes.map (·.children), g.size)) =
      some ([[2], [0], [3], []], 4) := by cbv
  have record : (Ledger.empty.run history).map (fun l => (l.serials, l.adoptions)) =
      some ([0, 2, 4, 5], [(0, 1), (2, 0), (4, 5), (0, 4)]) := by cbv
  obtain ⟨g, ran, children⟩ := Option.map_eq_some_iff.mp shape
  obtain ⟨l, ran', same, faithful, -⟩ := no_stale_children ran
  rw [ran', Option.map_some, Option.some.injEq, Prod.mk.injEq] at record
  rw [Prod.mk.injEq] at children
  refine ⟨g, l, ran, ran', same, faithful, children.1, record.1, record.2, ?_⟩
  rw [rollback_eq, releasedFrom, children.2]
  rfl

end CallGraph

end ArrayCall
