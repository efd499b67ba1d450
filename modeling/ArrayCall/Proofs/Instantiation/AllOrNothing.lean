import ArrayCall.Proofs.Instantiation.Paths

/-!
# Instantiation is all or nothing

A call to instantiate either leaves a graph just as it was or grows it by one chain of nodes
(`CallGraph.GrownByChain`). It comes to an end if no callable leads back to itself by overloads
(`Overloads.Acyclic`), for then nothing recurs on its path (`Site.not_recurs_of_acyclic`).
-/

namespace ArrayCall

/-! ## Growth by a chain -/

namespace CallGraph

/-- What a graph is after one chain was written into it: the nodes that were there stay as they
are, the new ones are numbered on from them, the first of them is `root`, and each has the next
one for its only child. -/
structure GrownByChain (g : CallGraph) (root : Nat) (g' : CallGraph) : Prop where
  kept : g'.nodes.take g.size = g.nodes
  larger : g.size < g'.size
  root_eq : root = g.size
  children_eq : ∀ id n, g.size ≤ id → g'.nodes[id]? = some n →
    n.children = if id + 1 < g'.size then [id + 1] else []
  chain_eq : g'.chain root = (g'.nodes.drop g.size).map (·.kernel.name)
  teardown_descends : g'.teardown.Pairwise (· > ·)
  mem_teardown_iff : ∀ id, id ∈ g'.teardown ↔ id < g'.size

theorem teardown_eq (g : CallGraph) : g.teardown = (List.range g.size).reverse := by
  rw [teardown, rollback_eq]
  rfl

/-- The walk along first children from the start of a chain visits the chain. -/
theorem chainWithin_nodesFrom (front : List Node) (chain : List (Kernel × NodeData)) {steps : Nat}
    (enough : chain.length ≤ steps) :
    (⟨front ++ Chain.nodesFrom front.length chain⟩ : CallGraph).chainWithin steps front.length =
      chain.map (·.1) := by
  induction chain generalizing front steps with
  | nil => cases steps <;> simp [chainWithin, Chain.nodesFrom]
  | cons first rest inductionHypothesis =>
    cases steps with
    | zero => simp at enough
    | succ steps =>
      cases rest with
      | nil => simp [chainWithin, Chain.nodesFrom]
      | cons next rest =>
        have tail := inductionHypothesis (front ++ [⟨first.1, first.2, [front.length + 1]⟩])
          (Nat.le_of_succ_le_succ enough)
        rw [List.length_append, List.length_singleton, List.append_assoc] at tail
        simpa [chainWithin, Chain.nodesFrom] using tail

theorem grownByChain_append (g : CallGraph) (chain : Chain) :
    g.GrownByChain g.size (g.append chain.toList) where
  kept := by simp [append, size]
  larger := by simp [Chain.toList]
  root_eq := rfl
  children_eq := by
    intro id n new found
    obtain ⟨i, rfl⟩ := Nat.exists_eq_add_of_le new
    rw [append, size, List.getElem?_append_right (by omega), Nat.add_sub_cancel_left] at found
    rw [Chain.children_nodesFrom found, size_append]
    exact if_congr (by omega) rfl rfl
  chain_eq := by
    have enough : chain.toList.length ≤ (g.append chain.toList).size := by simp
    have walk := chainWithin_nodesFrom g.nodes chain.toList enough
    have new : (g.append chain.toList).nodes.drop g.size = Chain.nodesFrom g.size chain.toList := by
      simp [append, size]
    have names := congrArg (List.map Kernel.name) (walk.trans (Chain.map_kernel_nodesFrom g.size _).symm)
    rw [new]
    exact names.trans List.map_map
  teardown_descends := by
    rw [teardown_eq, List.pairwise_reverse]
    exact List.pairwise_lt_range
  mem_teardown_iff := by simp [teardown_eq]

end CallGraph

/-! ## Overloads without cycles -/

namespace Callable

/-- A callable is within another if it is that one or below it. -/
inductive Within : Callable → Callable → Prop
  | itself (c : Callable) : Within c c
  | entry {stamp : Nat} {name : String} {sig : Signature} {table : Dispatcher Callable}
      {e : DispatchKey × Callable} {c : Callable} (member : e ∈ table.entries) (within : Within c e.2) :
      Within c (.dispatch stamp name sig table)
  | permuted {stamp : Nat} {child c : Callable} {slots : List Int} (within : Within c child) :
      Within c (.permute stamp child slots)
  | lifted {stamp : Nat} {child c : Callable} {types : Option (List Ty)} (within : Within c child) :
      Within c (.lift stamp child types)
  | folded {stamp : Nat} {fold c : Callable} {identity : Option Scalar} (within : Within c fold) :
      Within c (.reduce stamp fold identity)

theorem Within.trans {a b c : Callable} (inner : a.Within b) (outer : b.Within c) : a.Within c := by
  induction outer with
  | itself => exact inner
  | entry member _ inductionHypothesis => exact .entry member (inductionHypothesis inner)
  | permuted _ inductionHypothesis => exact .permuted (inductionHypothesis inner)
  | lifted _ inductionHypothesis => exact .lifted (inductionHypothesis inner)
  | folded _ inductionHypothesis => exact .folded (inductionHypothesis inner)

/-- A child stands within its callable. -/
theorem Below.within {c : Callable} {dst : Layout} {src : List Layout} {s : Site} (below : c.Below dst src s) :
    s.callable.Within c := by
  cases below with
  | dispatch arity selected =>
    obtain ⟨key, member⟩ := Dispatcher.exists_mem_of_dispatch selected
    exact .entry member (.itself _)
  | permute => exact .permuted (.itself _)
  | lift => exact .lifted (.itself _)
  | reduce => exact .folded (.itself _)

end Callable

namespace Overloads

/-- An overload of the callable of the first stamp leads to every callable within its target. -/
def LeadsTo (os : Overloads) (subject found : Nat) : Prop :=
  ∃ o ∈ os, o.subject = subject ∧ ∃ c : Callable, c.Within o.target ∧ c.stamp = found

/-- No callable leads back to itself. -/
def Acyclic (os : Overloads) : Prop := ∀ subject, ¬Relation.TransGen os.LeadsTo subject subject

/-- Overloads are acyclic if each leads only to callables of smaller stamps. -/
theorem acyclic_of_lt {os : Overloads}
    (smaller : ∀ o ∈ os, ∀ c : Callable, c.Within o.target → c.stamp < o.subject) : os.Acyclic := by
  intro subject cycle
  have descends : ∀ found, Relation.TransGen os.LeadsTo subject found → found < subject := by
    intro found path
    induction path with
    | single step =>
      obtain ⟨o, member, rfl, c, within, rfl⟩ := step
      exact smaller o member c within
    | tail _ step inductionHypothesis =>
      obtain ⟨o, member, rfl, c, within, rfl⟩ := step
      exact Nat.lt_trans (smaller o member c within) inductionHypothesis
  exact Nat.lt_irrefl subject (descends subject cycle)

end Overloads

namespace Site

variable {os : Overloads} {s t : Site}

/-- What stands in for a callable is that callable or the target of an overload of it. -/
theorem within_or_overloaded (comes : Comes os s t) :
    (os.find? s.callable s.dst.ty s.args = none ∧ t.callable.Within s.callable) ∨
      ∃ o ∈ os, o.subject = s.callable.stamp ∧ t.callable.Within o.target := by
  have within := comes.within
  rw [Overloads.specialize] at within
  cases found : os.find? s.callable s.dst.ty s.args with
  | none =>
    rw [found] at within
    exact .inl ⟨rfl, within⟩
  | some other =>
    obtain ⟨o, member, subject, rfl⟩ := Overloads.mem_of_find? found
    rw [found] at within
    exact .inr ⟨o, member, subject, within⟩

/-- Below a callable whose overload is taken, everything stands within an overload that the callable
leads to. -/
theorem exists_overload_of_reaches (overloaded : s.Overloaded os) (reaches : Relation.TransGen (Comes os) s t) :
    ∃ o ∈ os, Relation.ReflTransGen os.LeadsTo s.callable.stamp o.subject ∧ t.callable.Within o.target := by
  induction reaches with
  | single comes =>
    obtain ⟨none, -⟩ | ⟨o, member, subject, within⟩ := within_or_overloaded comes
    · rw [Overloaded, none] at overloaded
      cases overloaded
    · exact ⟨o, member, subject ▸ .refl, within⟩
  | tail _ comes inductionHypothesis =>
    obtain ⟨o, member, leads, within⟩ := inductionHypothesis
    obtain ⟨-, withinSame⟩ | ⟨other, otherMember, subject, withinOther⟩ := within_or_overloaded comes
    · exact ⟨o, member, leads, withinSame.trans within⟩
    · exact ⟨other, otherMember, leads.tail ⟨o, member, rfl, _, within, subject.symm⟩, withinOther⟩

/-- What comes back to an overloaded callable closes a cycle of overloads. -/
theorem not_recurs_of_acyclic (acyclic : os.Acyclic) (start : Site) : ¬start.Recurs os := by
  rintro ⟨s, t, -, overloaded, returns, again⟩
  obtain ⟨o, member, leads, within⟩ := exists_overload_of_reaches overloaded returns
  exact acyclic _ (.tail' leads ⟨o, member, rfl, t.callable, within, again.stamp_eq⟩)

end Site

namespace Outline

theorem isSome_onto {o : Outline} (ends : o.Ends) (g : CallGraph) : (o.onto g).isSome := by
  rwa [onto, Option.isSome_map]

end Outline

namespace Callable

/-- Without cycles instantiation has an end. -/
theorem outline_ends {os : Overloads} (acyclic : os.Acyclic) (c : Callable) (dst : Layout) (src : List Layout)
    (kwds : Keywords) : (outline os c dst src kwds).Ends :=
  Site.outline_ends_of_not_recurs (Site.not_recurs_of_acyclic acyclic ⟨c, dst, src⟩)

/-! ## The result -/

/-- Instantiation into a graph whose children all exist is all or nothing. If it fails, the graph
is what it was; if it succeeds, the graph has grown by one chain whose first node is the root;
and unless overloads form a cycle it does one or the other. -/
theorem instantiate_all_or_nothing (os : Overloads) (c : Callable) (dst : Layout) (src : List Layout)
    (kwds : Keywords) {g : CallGraph} (closed : g.Closed) :
    (os.Acyclic → (instantiate os c dst src kwds g).isSome) ∧
    (∀ e g', instantiate os c dst src kwds g = some (.error e, g') → g' = g) ∧
    (∀ root g', instantiate os c dst src kwds g = some (.ok root, g') → g.GrownByChain root g') := by
  rw [instantiate_eq_onto os c dst src kwds closed]
  refine ⟨fun acyclic => Outline.isSome_onto (outline_ends acyclic c dst src kwds) g, ?_, ?_⟩
  · intro e g' failed
    exact (Outline.of_onto_eq_error failed).2
  · intro root g' succeeded
    obtain ⟨chain, -, rfl, rfl⟩ := Outline.of_onto_eq_ok succeeded
    exact CallGraph.grownByChain_append g chain

/-- Addition over one dimension into a graph that holds two nodes already. The overload is taken,
and the second argument is converted. -/
theorem instantiate_grows_by_loop_and_conversion :
    let g : CallGraph := ⟨[⟨.permute, .permutation [0], [1]⟩, ⟨.noop, .none, []⟩]⟩
    let sig := Builtins.uniform 2 (.scalar (.int .w32))
    let add : Callable := .leaf 0 "add[int32]" sig ⟨.fixed (.binary .add (.int .w32)), none⟩
    let subtract : Callable := .leaf 1 "subtract[int32]" sig ⟨.fixed (.binary .subtract (.int .w32)), none⟩
    let os : Overloads := [⟨1, .scalar (.int .w32), [.scalar (.int .w32), .scalar (.int .w16)], add⟩]
    let c : Callable := .lift 2 subtract none
    let dst : Layout := ⟨.fixedDim 2 (.scalar (.int .w32)), [4]⟩
    let src : List Layout := [⟨.fixedDim 2 (.scalar (.int .w32)), [4]⟩,
      ⟨.fixedDim 1 (.scalar (.int .w16)), [2]⟩]
    g.Closed ∧ os.Acyclic ∧ ∃ root g', instantiate os c dst src .empty g = some (.ok root, g') ∧
      g.GrownByChain root g' := by
  intro g sig add subtract os c dst src
  have closed : g.Closed := by decide
  have acyclic : os.Acyclic := by
    refine Overloads.acyclic_of_lt fun o member inner within => ?_
    obtain rfl := List.mem_singleton.mp member
    cases within with
    | itself => exact Nat.zero_lt_one
  obtain ⟨ends, -, grows⟩ := instantiate_all_or_nothing os c dst src .empty closed
  obtain ⟨⟨result, g'⟩, ran⟩ := Option.isSome_iff_exists.mp (ends acyclic)
  have succeeds : (instantiate os c dst src .empty g).map (fun r => r.1.toOption) = some (some 2) := by cbv
  rw [ran] at succeeds
  cases result with
  | error e => cases succeeds
  | ok root => exact ⟨closed, acyclic, root, g', ran, grows root g' ran⟩

end Callable

end ArrayCall
