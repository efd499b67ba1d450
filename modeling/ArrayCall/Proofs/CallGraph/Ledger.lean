import ArrayCall.CallGraph
import Mathlib.Data.List.Forall2
import Mathlib.Data.List.Nodup

/-!
# Ledgers of call graphs

The number of a node is its place in the graph, so after a rollback it is given again. A `Ledger` keeps a graph
together with a record of all nodes that were ever written. The place of a node in that record is its serial number,
which no other node ever has, and who adopted whom is noted in serial numbers.

A ledger is `Faithful` if the nodes of the graph are those of their serial numbers: each has the kernel and the data
that it was written with, and its children are the nodes that it has adopted, as far as they have not been released.
Writing a node, adopting one and releasing the newest ones all keep a ledger faithful.
-/

namespace ArrayCall

namespace CallGraph

variable {g : CallGraph} {id mark : Nat}

theorem getElem?_push (g : CallGraph) (kernel : Kernel) (data : NodeData) (id : Nat) :
    (g.push kernel data).2.nodes[id]? = if id = g.size then some ⟨kernel, data, []⟩ else g.nodes[id]? := by
  obtain before | rfl | behind := Nat.lt_trichotomy id g.size
  · rw [if_neg (Nat.ne_of_lt before)]
    exact List.getElem?_append_left before
  · rw [if_pos rfl]
    exact List.getElem?_concat_length
  · have shorter : (g.push kernel data).2.nodes.length ≤ id := by
      rw [push, List.length_append]
      exact behind
    rw [if_neg (Nat.ne_of_gt behind), List.getElem?_eq_none shorter, List.getElem?_eq_none (Nat.le_of_lt behind)]

/-- The graph without its nodes from `mark` on. -/
def truncate (g : CallGraph) (mark : Nat) : CallGraph :=
  ⟨(g.nodes.take mark).map (dropChildren mark)⟩

/-- The numbers of the nodes from `mark` on, the newest first. -/
def releasedFrom (g : CallGraph) (mark : Nat) : List Nat :=
  ((List.range g.size).drop mark).reverse

/-- The nodes that are taken out are the last ones, and their numbers fall to that of the first of them. -/
theorem popNodes_eq {count : Nat} {nodes : List Node} (enough : count ≤ nodes.length) :
    popNodes count nodes =
      (((List.range nodes.length).drop (nodes.length - count)).reverse, nodes.take (nodes.length - count)) := by
  induction count generalizing nodes with
  | zero => simp [popNodes]
  | succ count inductionHypothesis =>
    obtain ⟨front, last, rfl⟩ := (List.eq_nil_or_concat nodes).resolve_left (by rintro rfl; simp at enough)
    rw [List.concat_eq_append] at enough ⊢
    rw [List.length_append, List.length_singleton] at enough
    have below := inductionHypothesis (Nat.le_of_succ_le_succ enough)
    have left : front.length + 1 - (count + 1) = front.length - count := by omega
    have short : front.length - count ≤ front.length := Nat.sub_le ..
    rw [popNodes, List.dropLast_concat, below, List.length_append, List.length_singleton, left, List.range_succ,
      List.drop_append_of_le_length (by simpa using short), List.reverse_append, List.take_append_of_le_length short]
    rfl

/-- Releasing one node after the other cuts the graph off at the mark. -/
theorem rollback_eq (g : CallGraph) (mark : Nat) : g.rollback mark = (g.releasedFrom mark, g.truncate mark) := by
  rw [rollback, popNodes_eq (Nat.sub_le g.size mark), releasedFrom, truncate]
  obtain inside | behind := Nat.le_total mark g.size
  · have left : g.nodes.length - (g.size - mark) = mark := Nat.sub_sub_self inside
    rw [left]
    rfl
  · have left : g.nodes.length - (g.size - mark) = g.nodes.length := by rw [Nat.sub_eq_zero_of_le behind, Nat.sub_zero]
    have none : (List.range g.size).drop mark = [] := List.drop_of_length_le (by simpa using behind)
    have all : g.nodes.take mark = g.nodes := List.take_of_length_le behind
    rw [left, none, all, List.take_length, List.drop_of_length_le (Nat.le_of_eq List.length_range)]

theorem getElem?_truncate (g : CallGraph) (mark id : Nat) :
    (g.truncate mark).nodes[id]? = if id < mark then g.nodes[id]?.map (dropChildren mark) else none := by
  rw [truncate, List.getElem?_map, List.getElem?_take]
  split <;> rfl

@[simp] theorem size_push (g : CallGraph) (kernel : Kernel) (data : NodeData) :
    (g.push kernel data).2.size = g.size + 1 := by
  simp [push, size]

@[simp] theorem size_adopt (g : CallGraph) (parent child : Nat) : (g.adopt parent child).size = g.size := by
  simp [adopt, size]

@[simp] theorem size_truncate (g : CallGraph) (mark : Nat) : (g.truncate mark).size = min mark g.size := by
  simp [truncate, size]

theorem releasedFrom_descends (g : CallGraph) (mark : Nat) : (g.releasedFrom mark).Pairwise (· > ·) := by
  rw [releasedFrom, List.pairwise_reverse]
  exact List.pairwise_lt_range.drop

theorem mem_releasedFrom_iff : id ∈ g.releasedFrom mark ↔ mark ≤ id ∧ id < g.size := by
  rw [releasedFrom, List.mem_reverse, List.range_eq_range', List.drop_range', List.mem_range'_1]
  omega

end CallGraph

/-! ## Ledgers -/

/-- A graph with a record of all nodes that were ever written -/
structure Ledger where
  graph : CallGraph
  /-- What each node that was ever written was written with, by serial number -/
  written : List (Kernel × NodeData)
  /-- The serial number of each node of the graph -/
  serials : List Nat
  /-- Parents and children by serial number, in the order in which they were adopted -/
  adoptions : List (Nat × Nat)

namespace Ledger

def empty : Ledger := ⟨.empty, [], [], []⟩

def push (l : Ledger) (kernel : Kernel) (data : NodeData) : Nat × Ledger :=
  let (id, graph) := l.graph.push kernel data
  (id, ⟨graph, l.written ++ [(kernel, data)], l.serials ++ [l.written.length], l.adoptions⟩)

def adopt (l : Ledger) (parent child : Nat) : Ledger :=
  let adoptions :=
    match l.serials[parent]?, l.serials[child]? with
    | some p, some c => l.adoptions ++ [(p, c)]
    | _, _ => l.adoptions
  ⟨l.graph.adopt parent child, l.written, l.serials, adoptions⟩

/-- The ledger without the nodes of the graph from `mark` on. What was written and adopted stays on record. -/
def release (l : Ledger) (mark : Nat) : Ledger :=
  ⟨(l.graph.rollback mark).2, l.written, l.serials.take mark, l.adoptions⟩

/-- The nodes that a node has ever adopted -/
def adoptedBy (l : Ledger) (parent : Nat) : List Nat := (l.adoptions.filter (·.1 = parent)).map (·.2)

/-- The nodes that a node has adopted and that have not been released -/
def childrenOf (l : Ledger) (parent : Nat) : List Nat := (l.adoptedBy parent).filter (· ∈ l.serials)

variable {l : Ledger} {id mark parent child serial : Nat} {n : Node} {kernel : Kernel} {data : NodeData}

@[simp] theorem graph_push : (l.push kernel data).2.graph = (l.graph.push kernel data).2 := rfl

@[simp] theorem written_push : (l.push kernel data).2.written = l.written ++ [(kernel, data)] := rfl

@[simp] theorem serials_push : (l.push kernel data).2.serials = l.serials ++ [l.written.length] := rfl

@[simp] theorem adoptions_push : (l.push kernel data).2.adoptions = l.adoptions := rfl

@[simp] theorem graph_adopt : (l.adopt parent child).graph = l.graph.adopt parent child := rfl

@[simp] theorem serials_adopt : (l.adopt parent child).serials = l.serials := rfl

@[simp] theorem graph_release : (l.release mark).graph = l.graph.truncate mark := by
  rw [release, CallGraph.rollback_eq]

@[simp] theorem serials_release : (l.release mark).serials = l.serials.take mark := rfl

theorem mem_adoptedBy_iff : child ∈ l.adoptedBy parent ↔ (parent, child) ∈ l.adoptions := by
  simp [adoptedBy]

/-- A node is the one of a serial number: it has the kernel and the data that this one was written with, and the
children that this one has, in order. -/
structure Tells (l : Ledger) (serial : Nat) (n : Node) : Prop where
  written : l.written[serial]? = some (n.kernel, n.data)
  children : List.Forall₂ (fun c s => l.serials[c]? = some s) n.children (l.childrenOf serial)

/-- A child has the serial number of a node that was adopted. -/
theorem Tells.exists_adoption (tells : l.Tells serial n) {c : Nat} (member : c ∈ n.children) :
    ∃ child, l.serials[c]? = some child ∧ (serial, child) ∈ l.adoptions := by
  obtain ⟨i, inside, rfl⟩ := List.mem_iff_getElem.mp member
  have inside' : i < (l.childrenOf serial).length := tells.children.length_eq ▸ inside
  refine ⟨(l.childrenOf serial)[i], tells.children.get inside inside', ?_⟩
  exact mem_adoptedBy_iff.mp (List.mem_filter.mp (List.getElem_mem inside')).1

/-- A ledger in which each node of the graph is the one of its serial number -/
structure Faithful (l : Ledger) : Prop where
  length_serials : l.serials.length = l.graph.size
  distinct : l.serials.Nodup
  tells : ∀ (id : Nat) (n : Node), l.graph.nodes[id]? = some n →
    ∃ serial, l.serials[id]? = some serial ∧ l.Tells serial n
  known : ∀ a ∈ l.adoptions, a.1 < l.written.length ∧ a.2 < l.written.length

theorem faithful_empty : empty.Faithful where
  length_serials := rfl
  distinct := .nil
  tells _ _ found := nomatch found
  known _ member := nomatch member

namespace Faithful

/-- Two numbers are not those of one node. -/
theorem injective (faithful : l.Faithful) {first second : Nat} (one : l.serials[first]? = some serial)
    (other : l.serials[second]? = some serial) : first = second := by
  have inside := (List.getElem?_eq_some_iff.mp one).1
  exact (List.getElem?_inj inside faithful.distinct).mp (one.trans other.symm)

theorem exists_serial (faithful : l.Faithful) (inside : id < l.graph.size) : ∃ serial, l.serials[id]? = some serial :=
  ⟨_, List.getElem?_eq_getElem (faithful.length_serials.symm ▸ inside)⟩

theorem serial_lt (faithful : l.Faithful) (named : l.serials[id]? = some serial) : serial < l.written.length := by
  have inside : id < l.graph.size := faithful.length_serials ▸ (List.getElem?_eq_some_iff.mp named).1
  obtain ⟨serial', named', tells⟩ := faithful.tells id _ (List.getElem?_eq_getElem inside)
  cases named.symm.trans named'
  exact (List.getElem?_eq_some_iff.mp tells.written).1

/-! ### Writing a node -/

theorem adoptedBy_new (faithful : l.Faithful) : l.adoptedBy l.written.length = [] := by
  refine List.eq_nil_iff_forall_not_mem.mpr fun c member => ?_
  exact Nat.lt_irrefl _ (faithful.known _ (mem_adoptedBy_iff.mp member)).1

/-- Nobody has adopted the new node, so that it is no child of an older one. -/
theorem childrenOf_push (faithful : l.Faithful) (serial : Nat) :
    (l.push kernel data).2.childrenOf serial = l.childrenOf serial := by
  refine List.filter_congr fun c member => ?_
  have old := (faithful.known _ (mem_adoptedBy_iff.mp member)).2
  simp [Nat.ne_of_lt old]

theorem tells_push (faithful : l.Faithful) (tells : l.Tells serial n) : (l.push kernel data).2.Tells serial n where
  written := (List.getElem?_append_left (List.getElem?_eq_some_iff.mp tells.written).1).trans tells.written
  children := by
    rw [faithful.childrenOf_push]
    exact tells.children.imp fun c s named =>
      (List.getElem?_append_left (List.getElem?_eq_some_iff.mp named).1).trans named

theorem push (faithful : l.Faithful) (kernel : Kernel) (data : NodeData) : (l.push kernel data).2.Faithful where
  length_serials := by simp [faithful.length_serials]
  distinct := by
    rw [serials_push, ← List.concat_eq_append]
    refine List.Nodup.concat (fun member => ?_) faithful.distinct
    obtain ⟨id, named⟩ := List.mem_iff_getElem?.mp member
    exact Nat.lt_irrefl _ (faithful.serial_lt named)
  tells := by
    intro id n found
    rw [graph_push, CallGraph.getElem?_push] at found
    split at found
    next last =>
      cases found
      refine ⟨l.written.length, by simp [faithful.length_serials, last], by simp, ?_⟩
      rw [faithful.childrenOf_push, childrenOf, faithful.adoptedBy_new]
      exact .nil
    next =>
      obtain ⟨serial, named, tells⟩ := faithful.tells id n found
      have kept : (l.serials ++ [l.written.length])[id]? = some serial :=
        (List.getElem?_append_left (List.getElem?_eq_some_iff.mp named).1).trans named
      exact ⟨serial, kept, faithful.tells_push tells⟩
  known := by
    intro a member
    have old := faithful.known a member
    rw [written_push, List.length_append]
    exact ⟨Nat.lt_add_right _ old.1, Nat.lt_add_right _ old.2⟩

/-! ### Adopting a node -/

theorem childrenOf_adopt {p c : Nat} (parent_named : l.serials[parent]? = some p)
    (child_named : l.serials[child]? = some c) (serial : Nat) :
    (l.adopt parent child).childrenOf serial = l.childrenOf serial ++ if p = serial then [c] else [] := by
  have adoptions : (l.adopt parent child).adoptions = l.adoptions ++ [(p, c)] := by
    rw [Ledger.adopt, parent_named, child_named]
  have alive : c ∈ l.serials := List.mem_of_getElem? child_named
  change ((l.adopt parent child).adoptedBy serial).filter (· ∈ l.serials) = _
  rw [childrenOf, adoptedBy, adoptedBy, adoptions, List.filter_append, List.map_append, List.filter_append]
  by_cases same : p = serial <;> simp [same, alive]

theorem adopt (faithful : l.Faithful) (exists_parent : parent < l.graph.size) (exists_child : child < l.graph.size) :
    (l.adopt parent child).Faithful := by
  obtain ⟨p, parent_named⟩ := faithful.exists_serial exists_parent
  obtain ⟨c, child_named⟩ := faithful.exists_serial exists_child
  refine ⟨?_, faithful.distinct, ?_, ?_⟩
  · exact faithful.length_serials.trans (CallGraph.size_adopt ..).symm
  · intro id n found
    rw [graph_adopt, CallGraph.adopt, List.getElem?_modify] at found
    obtain ⟨old, found', rfl⟩ := Option.map_eq_some_iff.mp found
    obtain ⟨serial, named, tells⟩ := faithful.tells id old found'
    refine ⟨serial, named, by split <;> exact tells.written, ?_⟩
    rw [childrenOf_adopt parent_named child_named]
    by_cases same : parent = id
    · subst same
      cases parent_named.symm.trans named
      rw [if_pos rfl, if_pos rfl]
      exact List.rel_append tells.children (.cons child_named .nil)
    · have differs : p ≠ serial := by
        rintro rfl
        exact same (faithful.injective parent_named named)
      rw [if_neg same, if_neg differs, List.append_nil]
      exact tells.children
  · intro a member
    rw [Ledger.adopt, parent_named, child_named, List.mem_append, List.mem_singleton] at member
    obtain old | rfl := member
    · exact faithful.known a old
    · exact ⟨faithful.serial_lt parent_named, faithful.serial_lt child_named⟩

/-! ### Releasing nodes -/

/-- What is left of the serial numbers are those of the nodes in front of the mark. -/
theorem mem_take_iff (faithful : l.Faithful) (named : l.serials[id]? = some serial) :
    serial ∈ l.serials.take mark ↔ id < mark := by
  rw [List.mem_iff_getElem?]
  constructor
  · rintro ⟨other, found⟩
    rw [List.getElem?_take] at found
    split at found
    next inside => exact faithful.injective named found ▸ inside
    next => cases found
  · intro inside
    exact ⟨id, by rw [List.getElem?_take_of_lt inside, named]⟩

theorem childrenOf_release (l : Ledger) (mark serial : Nat) :
    (l.release mark).childrenOf serial = (l.childrenOf serial).filter (· ∈ l.serials.take mark) := by
  rw [childrenOf, childrenOf, List.filter_filter]
  refine List.filter_congr fun s _ => ?_
  have alive : s ∈ l.serials.take mark → s ∈ l.serials := List.mem_of_mem_take
  by_cases left : s ∈ l.serials.take mark <;> simp [left, alive]

/-- A child stays if its number is in front of the mark, and that is if the node that was adopted is not released. -/
theorem tells_release (faithful : l.Faithful) (tells : l.Tells serial n) :
    (l.release mark).Tells serial (CallGraph.dropChildren mark n) := by
  refine ⟨tells.written, ?_⟩
  have kept := List.rel_filter (p := (· < mark)) (q := (· ∈ l.serials.take mark))
    (fun c s named => by simpa using (faithful.mem_take_iff named).symm) tells.children
  have front : ∀ c ∈ n.children.filter (· < mark), c < mark := fun c member => by
    simpa using (List.mem_filter.mp member).2
  rw [childrenOf_release]
  exact ((List.forall₂_and_left _ _).mpr ⟨front, kept⟩).imp fun c s ⟨inside, named⟩ =>
    (List.getElem?_take_of_lt inside).trans named

theorem release (faithful : l.Faithful) (mark : Nat) : (l.release mark).Faithful where
  length_serials := by rw [serials_release, List.length_take, faithful.length_serials, graph_release,
    CallGraph.size_truncate]
  distinct := faithful.distinct.sublist (List.take_sublist ..)
  tells := by
    intro id n found
    rw [graph_release, CallGraph.getElem?_truncate] at found
    split at found
    next inside =>
      obtain ⟨old, found', rfl⟩ := Option.map_eq_some_iff.mp found
      obtain ⟨serial, named, tells⟩ := faithful.tells id old found'
      exact ⟨serial, (List.getElem?_take_of_lt inside).trans named, faithful.tells_release tells⟩
    next => cases found
  known := faithful.known

end Faithful

end Ledger

end ArrayCall
