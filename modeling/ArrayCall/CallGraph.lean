import ArrayCall.Kernel

/-!
# Call graphs

The kernel nodes of one call, numbered in the order in which they were written. A
parent is written before its children and lists their numbers.

* `CallGraph.rollback` releases the newest nodes down to a mark, and with them every
  mention of them as a child.
* `CallGraph.chain` follows first children from a root.

Numbers have no bound: a graph with more nodes than a word of 32 bits tells apart is not
considered.
-/

namespace ArrayCall

/-- A kernel, its data and the numbers of its children. -/
structure Node where
  kernel : Kernel
  data : NodeData
  children : List Nat
  deriving Inhabited

/-- Nodes, numbered from zero. -/
structure CallGraph where
  nodes : List Node
  deriving Inhabited

namespace CallGraph

def empty : CallGraph := ⟨[]⟩

/-- The number of nodes, which is the number that the next node will have. -/
def size (g : CallGraph) : Nat := g.nodes.length

/-- Writes a node without children and gives its number. -/
def push (g : CallGraph) (kernel : Kernel) (data : NodeData) : Nat × CallGraph :=
  (g.size, ⟨g.nodes ++ [⟨kernel, data, []⟩]⟩)

/-- Adds a child to a node. There is nothing to do for a node that does not exist. -/
def adopt (g : CallGraph) (parent child : Nat) : CallGraph :=
  ⟨g.nodes.modify parent fun n => { n with children := n.children ++ [child] }⟩

/-- The node without its children from `mark` on. -/
def dropChildren (mark : Nat) (n : Node) : Node :=
  { n with children := n.children.filter (· < mark) }

/-- Takes so many nodes out, the newest first: their numbers and the nodes that are
left. -/
def popNodes : (count : Nat) → List Node → List Nat × List Node
  | 0, nodes => ([], nodes)
  | count + 1, nodes =>
    let (released, left) := popNodes count nodes.dropLast
    ((nodes.length - 1) :: released, left)

/-- Releases the nodes from `mark` on, the newest first. -/
def rollback (g : CallGraph) (mark : Nat) : List Nat × CallGraph :=
  let (released, left) := popNodes (g.size - mark) g.nodes
  (released, ⟨left.map (dropChildren mark)⟩)

def teardown (g : CallGraph) : List Nat := (g.rollback 0).1

def node (g : CallGraph) (id : Nat) : Except ExecutionFault Node :=
  match g.nodes[id]? with
  | some n => .ok n
  | none => .error (.noNode id)

/-- The number of a child, which must be that of a node. -/
def child (g : CallGraph) (id : Nat) (n : Node) (index : Nat) : Except ExecutionFault Nat :=
  match n.children[index]? with
  | none => .error (.noChild id index)
  | some c => (g.node c).map fun _ => c

def targets (g : CallGraph) : Targets :=
  g.nodes.foldl (fun t n => t.meet n.kernel.targets) .hostDevice

/-- The kernels on at most `steps` nodes from `id` along first children. -/
def chainWithin (g : CallGraph) : (steps : Nat) → (id : Nat) → List Kernel
  | 0, _ => []
  | steps + 1, id =>
    match g.nodes[id]? with
    | none => []
    | some n =>
      match n.children with
      | [] => [n.kernel]
      | c :: _ => n.kernel :: g.chainWithin steps c

/-- The names of the kernels from `root` along first children. A path that visits no
node twice has no more nodes than the graph. -/
def chain (g : CallGraph) (root : Nat) : List String :=
  (g.chainWithin g.size root).map Kernel.name

end CallGraph

end ArrayCall
