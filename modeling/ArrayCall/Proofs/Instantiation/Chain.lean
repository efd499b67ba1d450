import ArrayCall.Callable.Instantiate
import ArrayCall.Proofs.CallGraph.Ledger

/-!
# Chains of nodes

Instantiation writes the nodes of one callable side by side, each the only child of the one
before it. A `Chain` is what is written, without numbers; `CallGraph.append` gives it numbers
behind those of a graph.

* `Build.Writes` says that a build does nothing but that: from every graph it appends one and
  the same chain, or fails and leaves the graph alone, or has no end.
* `Build.writes_above` is the step from a child to a composite. What a failed child leaves
  behind is released again, and because a graph is `CallGraph.Closed` that release takes no
  child from a node that stays.
-/

namespace ArrayCall

/-! ## Chains -/

/-- Kernels with their data, each to be the child of the one before it. -/
structure Chain where
  root : Kernel × NodeData
  below : List (Kernel × NodeData)

/-- The nodes of loops inside one another, without their children. -/
abbrev loopNodes (loops : List DimLoop) : List (Kernel × NodeData) := loops.map fun l => (.loop, .loop l)

theorem loopNodes_cons (l : DimLoop) (loops : List DimLoop) :
    loopNodes (l :: loops) = (.loop, .loop l) :: loopNodes loops := rfl

namespace Chain

/-- The kernels of a chain with their data, root first. -/
def toList (c : Chain) : List (Kernel × NodeData) := c.root :: c.below

/-- A chain below more kernels. -/
def under (first : Kernel × NodeData) (rest : List (Kernel × NodeData)) (c : Chain) : Chain :=
  ⟨first, rest ++ c.toList⟩

/-- A chain below loops, if there are any. -/
def underLoops (c : Chain) : List DimLoop → Chain
  | [] => c
  | outermost :: loops => c.under (.loop, .loop outermost) (loops.map fun l => (.loop, .loop l))

theorem toList_underLoops (c : Chain) (loops : List DimLoop) :
    (c.underLoops loops).toList = loopNodes loops ++ c.toList := by
  cases loops <;> rfl

/-- The nodes of a chain, if the number of the first is `start`: the child of each is the
next, and the last has none. -/
def nodesFrom (start : Nat) : List (Kernel × NodeData) → List Node
  | [] => []
  | [n] => [⟨n.1, n.2, []⟩]
  | n :: next :: rest => ⟨n.1, n.2, [start + 1]⟩ :: nodesFrom (start + 1) (next :: rest)

@[simp] theorem length_nodesFrom (start : Nat) (chain : List (Kernel × NodeData)) :
    (nodesFrom start chain).length = chain.length := by
  induction chain generalizing start with
  | nil => rfl
  | cons n rest inductionHypothesis =>
    cases rest with
    | nil => rfl
    | cons next rest => simp [nodesFrom, inductionHypothesis]

/-- The last node of a chain takes the first one of another chain for its child. -/
theorem nodesFrom_append (start : Nat) (chain : List (Kernel × NodeData)) (last : Kernel × NodeData)
    (next : Kernel × NodeData) (rest : List (Kernel × NodeData)) :
    nodesFrom start (chain ++ last :: next :: rest) =
      (nodesFrom start (chain ++ [last])).modify chain.length
          (fun n => { n with children := n.children ++ [start + chain.length + 1] }) ++
        nodesFrom (start + chain.length + 1) (next :: rest) := by
  induction chain generalizing start with
  | nil => simp [nodesFrom]
  | cons n chain inductionHypothesis =>
    have shift : start + 1 + chain.length = start + (chain.length + 1) := by omega
    cases chain with
    | nil => simp [nodesFrom]
    | cons second chain =>
      have tail := inductionHypothesis (start + 1)
      rw [shift] at tail
      simp only [List.cons_append] at tail
      simp only [List.cons_append, nodesFrom, tail, List.length_cons, List.modify_succ_cons]

/-- Each node of a chain but the last has the next number for its only child. -/
theorem children_nodesFrom {start i : Nat} {chain : List (Kernel × NodeData)} {n : Node}
    (found : (nodesFrom start chain)[i]? = some n) :
    n.children = if i + 1 < chain.length then [start + i + 1] else [] := by
  induction chain generalizing start i with
  | nil => simp [nodesFrom] at found
  | cons first rest inductionHypothesis =>
    cases rest with
    | nil =>
      cases i with
      | zero => simp only [nodesFrom, List.getElem?_cons_zero, Option.some.injEq] at found; simp [← found]
      | succ i => simp [nodesFrom] at found
    | cons next rest =>
      cases i with
      | zero => simp only [nodesFrom, List.getElem?_cons_zero, Option.some.injEq] at found; simp [← found]
      | succ i =>
        simp only [nodesFrom, List.getElem?_cons_succ] at found
        have shift : start + 1 + i + 1 = start + (i + 1) + 1 := by omega
        rw [inductionHypothesis found, shift]
        simp

/-- What a node of a chain is written with is what stands there in the chain. -/
theorem getElem?_nodesFrom (start i : Nat) (chain : List (Kernel × NodeData)) :
    (nodesFrom start chain)[i]?.map (fun n => (n.kernel, n.data)) = chain[i]? := by
  induction chain generalizing start i with
  | nil => rfl
  | cons first rest inductionHypothesis =>
    cases rest with
    | nil => cases i <;> simp [nodesFrom]
    | cons next rest =>
      cases i with
      | zero => simp [nodesFrom]
      | succ i => simpa [nodesFrom] using inductionHypothesis (start + 1) i

theorem map_kernel_nodesFrom (start : Nat) (chain : List (Kernel × NodeData)) :
    (nodesFrom start chain).map (·.kernel) = chain.map (·.1) := by
  refine List.ext_getElem? fun i => ?_
  rw [List.getElem?_map, List.getElem?_map, ← getElem?_nodesFrom start, Option.map_map]
  rfl

end Chain

/-! ## Graphs -/

namespace CallGraph

/-- Every child is the number of a node. -/
def Closed (g : CallGraph) : Prop := ∀ n ∈ g.nodes, ∀ c ∈ n.children, c < g.size

instance (g : CallGraph) : Decidable g.Closed :=
  inferInstanceAs (Decidable (∀ n ∈ g.nodes, ∀ c ∈ n.children, c < g.size))

/-- The graph with a chain behind its nodes. -/
def append (g : CallGraph) (chain : List (Kernel × NodeData)) : CallGraph :=
  ⟨g.nodes ++ Chain.nodesFrom g.size chain⟩

@[simp] theorem size_append (g : CallGraph) (chain : List (Kernel × NodeData)) :
    (g.append chain).size = g.size + chain.length := by
  simp [append, size]

theorem size_append_toList_pos (g : CallGraph) (chain : Chain) : 0 < (g.append chain.toList).size := by
  rw [size_append, Chain.toList, List.length_cons]
  omega

theorem closed_empty : empty.Closed := by simp [Closed, empty]

theorem closed_append {g : CallGraph} (closed : g.Closed) (chain : List (Kernel × NodeData)) :
    (g.append chain).Closed := by
  intro n member c child
  rw [size_append]
  rcases List.mem_append.mp member with old | new
  · have := closed n old c child
    omega
  · obtain ⟨i, found⟩ := List.mem_iff_getElem?.mp new
    rw [Chain.children_nodesFrom found] at child
    split at child
    · have := List.mem_singleton.mp child
      omega
    · cases child

/-- A release of everything behind a closed graph leaves just that graph. -/
theorem truncate_append {g : CallGraph} (closed : g.Closed) (chain : List (Kernel × NodeData)) :
    (g.append chain).truncate g.size = g := by
  have kept : ∀ n ∈ g.nodes, dropChildren g.size n = n := by
    intro n member
    have all : n.children.filter (· < g.size) = n.children :=
      List.filter_eq_self.mpr fun c child => by simpa using closed n member c child
    rw [dropChildren, all]
  have front : (g.append chain).nodes.take g.size = g.nodes := by simp [append, size]
  rw [truncate, front, List.map_congr_left kept, List.map_id']

/-- A change of one element of a list, seen between what stands before and behind. -/
theorem modify_between {α : Type} (f : α → α) (front middle back : List α) {i : Nat}
    (inside : i < middle.length) :
    ((front ++ middle) ++ back).modify (front.length + i) f = front ++ (middle.modify i f ++ back) := by
  rw [List.append_assoc, List.modify, List.modifyTailIdx_add]
  congr 1
  induction middle generalizing i with
  | nil => simp at inside
  | cons x middle inductionHypothesis =>
    cases i with
    | zero => rfl
    | succ i => simpa using inductionHypothesis (by simpa using inside)

/-- A chain whose last node adopts the first one of another chain is one chain. -/
theorem adopt_append (g : CallGraph) (chain : List (Kernel × NodeData)) (last : Kernel × NodeData)
    (next : Chain) :
    ((g.append (chain ++ [last])).append next.toList).adopt (g.size + chain.length)
        (g.append (chain ++ [last])).size =
      g.append (chain ++ last :: next.toList) := by
  have inside : chain.length < (Chain.nodesFrom g.size (chain ++ [last])).length := by simp
  have child : (g.append (chain ++ [last])).size = g.size + chain.length + 1 := by
    simp only [size_append, List.length_append, List.length_singleton]
    omega
  have moved := modify_between (fun n : Node => { n with children := n.children ++ [g.size + chain.length + 1] })
    g.nodes _ (Chain.nodesFrom (g.size + chain.length + 1) next.toList) inside
  rw [child, append, child, adopt, CallGraph.mk.injEq]
  exact moved.trans (congrArg (g.nodes ++ ·) (Chain.nodesFrom_append ..).symm)

end CallGraph

/-! ## Builds -/

/-- What a build comes to on its own: the chain that it writes, or an error, or no end. -/
abbrev Outline := ExceptT CallError Option Chain

namespace Outline

/-- A result or an error, and in any case an end. -/
def ofExcept {α : Type} (x : Except CallError α) : ExceptT CallError Option α := some x

/-- The lack of an end. -/
def endless : Outline := (none : Option (Except CallError Chain))

/-- Kernels above what a child comes to. -/
def above (first : Kernel × NodeData) (rest : List (Kernel × NodeData)) (child : Outline)
    (onError : CallError → CallError) : Outline := do
  return (← ExceptT.adapt onError child).under first rest

/-- What a build that comes to an outline makes of a graph. -/
def onto (o : Outline) (g : CallGraph) : Option (Except CallError Nat × CallGraph) :=
  o.run.map fun
    | .error e => (.error e, g)
    | .ok chain => (.ok g.size, g.append chain.toList)

theorem of_onto_eq_error {o : Outline} {g g' : CallGraph} {e : CallError}
    (failed : o.onto g = some (.error e, g')) : o.run = some (.error e) ∧ g' = g := by
  obtain ⟨result, ran, same⟩ := Option.map_eq_some_iff.mp failed
  cases result with
  | error e => cases same; exact ⟨ran, rfl⟩
  | ok chain => cases same

theorem of_onto_eq_ok {o : Outline} {g g' : CallGraph} {root : Nat}
    (succeeded : o.onto g = some (.ok root, g')) :
    ∃ chain : Chain, o.run = some (.ok chain) ∧ root = g.size ∧ g' = g.append chain.toList := by
  obtain ⟨result, ran, same⟩ := Option.map_eq_some_iff.mp succeeded
  cases result with
  | error e => cases same
  | ok chain => cases same; exact ⟨chain, ran, rfl, rfl⟩

theorem run_ofExcept_bind {α : Type} {x : Except CallError α} {a : α} {next : α → Outline} (ran : x = .ok a) :
    (ofExcept x >>= next).run = (next a).run := by
  rw [ran]
  rfl

theorem run_ofExcept_bind_eq_ok_iff {α : Type} {x : Except CallError α} {next : α → Outline} {chain : Chain} :
    (ofExcept x >>= next).run = some (.ok chain) ↔ ∃ a, x = .ok a ∧ (next a).run = some (.ok chain) := by
  constructor
  · intro ran
    cases x with
    | error e => cases ran
    | ok a => exact ⟨a, rfl, ran⟩
  · rintro ⟨a, rfl, ran⟩
    exact ran

theorem run_adapt_eq_ok_iff {o : Outline} {f : CallError → CallError} {chain : Chain} :
    (ExceptT.adapt f o).run = some (.ok chain) ↔ o.run = some (.ok chain) := by
  rcases o with _ | _ | inner
  · exact iff_of_false (fun ran => nomatch ran) (fun ran => nomatch ran)
  · exact iff_of_false (fun ran => nomatch ran) (fun ran => nomatch ran)
  · rfl

theorem run_above_eq_ok_iff {first : Kernel × NodeData} {rest : List (Kernel × NodeData)} {child : Outline}
    {onError : CallError → CallError} {chain : Chain} :
    (above first rest child onError).run = some (.ok chain) ↔
      ∃ inner : Chain, child.run = some (.ok inner) ∧ inner.under first rest = chain := by
  rcases child with _ | _ | inner
  · exact iff_of_false (fun ran => nomatch ran) (fun ⟨_, ran, _⟩ => nomatch ran)
  · exact iff_of_false (fun ran => nomatch ran) (fun ⟨_, ran, _⟩ => nomatch ran)
  · constructor
    · intro ran
      cases ran
      exact ⟨inner, rfl, rfl⟩
    · rintro ⟨_, same, rfl⟩
      cases same
      rfl

/-- There is a chain in the end. -/
def Succeeds (o : Outline) : Prop := ∃ chain, o.run = some (.ok chain)

theorem succeeds_pure (chain : Chain) : Succeeds (pure chain) := ⟨chain, rfl⟩

theorem succeeds_ofExcept_bind {α : Type} {x : Except CallError α} {a : α} {next : α → Outline}
    (ran : x = .ok a) (succeeds : (next a).Succeeds) : Succeeds (ofExcept x >>= next) := by
  rwa [Succeeds, run_ofExcept_bind ran]

theorem succeeds_adapt_iff {o : Outline} {f : CallError → CallError} :
    Succeeds (ExceptT.adapt f o) ↔ o.Succeeds := exists_congr fun _ => run_adapt_eq_ok_iff

theorem succeeds_above_iff {first : Kernel × NodeData} {rest : List (Kernel × NodeData)} {child : Outline}
    {onError : CallError → CallError} : (above first rest child onError).Succeeds ↔ child.Succeeds := by
  constructor
  · rintro ⟨_, ran⟩
    obtain ⟨inner, ran, -⟩ := run_above_eq_ok_iff.mp ran
    exact ⟨inner, ran⟩
  · rintro ⟨inner, ran⟩
    exact ⟨inner.under first rest, run_above_eq_ok_iff.mpr ⟨inner, ran, rfl⟩⟩

/-- Whatever chain there is in the end satisfies a property. -/
def Yields (P : Chain → Prop) (o : Outline) : Prop := ∀ chain, o.run = some (.ok chain) → P chain

variable {P Q : Chain → Prop}

theorem yields_throw (e : CallError) : Yields P (throw e) := by
  intro chain ran
  cases ran

theorem yields_endless : Yields P endless := by
  intro chain ran
  cases ran

theorem yields_pure {chain : Chain} (holds : P chain) : Yields P (pure chain) := by
  intro chain' ran
  cases ran
  exact holds

theorem yields_ofExcept_bind {α : Type} {x : Except CallError α} {next : α → Outline}
    (yields : ∀ a, x = .ok a → (next a).Yields P) : Yields P (ofExcept x >>= next) := by
  intro chain ran
  obtain ⟨a, succeeds, ran⟩ := run_ofExcept_bind_eq_ok_iff.mp ran
  exact yields a succeeds chain ran

theorem yields_adapt {o : Outline} (f : CallError → CallError) (yields : o.Yields P) :
    Yields P (ExceptT.adapt f o) := fun chain ran => yields chain (run_adapt_eq_ok_iff.mp ran)

theorem yields_above {first : Kernel × NodeData} {rest : List (Kernel × NodeData)} {child : Outline}
    (onError : CallError → CallError) (yields : child.Yields Q)
    (under : ∀ chain, Q chain → P (chain.under first rest)) :
    (above first rest child onError).Yields P := by
  intro chain ran
  obtain ⟨inner, ranBelow, rfl⟩ := run_above_eq_ok_iff.mp ran
  exact under inner (yields inner ranBelow)

/-- A chain below loops, or as it is if there are none. -/
theorem yields_underLoops (loops : List DimLoop) {child : Outline} (onError : CallError → CallError)
    (yields : child.Yields Q) : (∀ chain, Q chain → P (chain.underLoops loops)) →
    Yields P (match loops with
      | [] => ExceptT.adapt onError child
      | outermost :: loops =>
        above (.loop, .loop outermost) (loops.map fun l => (.loop, .loop l)) child onError) := by
  cases loops with
  | nil => exact fun under => yields_adapt onError fun chain ran => under chain (yields chain ran)
  | cons outermost loops => exact fun under => yields_above onError yields under

end Outline

namespace Build

open CallGraph

/-- The build does what the outline says: where that succeeds from every graph, else from every
closed one. -/
def Writes (build : Build Nat) (outline : Outline) : Prop :=
  ∀ g : CallGraph, g.Closed ∨ outline.Succeeds → build.run g = outline.onto g

theorem writes_throw (e : CallError) : Writes (throw e) (throw e) := fun _ _ => rfl

theorem writes_endless : Writes endless Outline.endless := fun _ _ => rfl

theorem writes_push (kernel : Kernel) (data : NodeData) :
    Writes (push kernel data) (pure ⟨(kernel, data), []⟩) := fun _ _ => rfl

theorem run_adapt (f : CallError → CallError) (build : Build Nat) (g : CallGraph) :
    (ExceptT.adapt f build).run g = (build.run g).bind fun r => some (r.1.mapError f, r.2) := rfl

theorem writes_adapt (f : CallError → CallError) {build : Build Nat} {outline : Outline}
    (writes : Writes build outline) : Writes (ExceptT.adapt f build) (ExceptT.adapt f outline) := by
  intro g closed
  rw [run_adapt, writes g (closed.imp_right Outline.succeeds_adapt_iff.mp)]
  rcases outline with _ | _ | chain
  · rfl
  · rfl
  · rfl

/-- Steps in a row, whatever their state is. -/
theorem run_bind {σ α β : Type} (first : ExceptT CallError (StateT σ Option) α)
    (next : α → ExceptT CallError (StateT σ Option) β) (s : σ) :
    (first >>= next).run s = (first.run s).bind fun
      | (.ok a, s') => (next a).run s'
      | (.error e, s') => some (.error e, s') := by
  change (first.run.bind _) s = _
  rw [StateT.bind]
  congr 1
  funext ⟨result, s'⟩
  cases result <;> rfl

theorem run_tryCatch {σ α : Type} (build : ExceptT CallError (StateT σ Option) α)
    (handle : CallError → ExceptT CallError (StateT σ Option) α) (s : σ) :
    (tryCatch build handle).run s = (build.run s).bind fun
      | (.ok a, s') => some (.ok a, s')
      | (.error e, s') => (handle e).run s' := by
  change (ExceptT.tryCatch build handle).run s = _
  rw [ExceptT.tryCatch, ExceptT.run_mk]
  change StateT.bind build.run _ s = _
  rw [StateT.bind]
  congr 1
  funext ⟨result, s'⟩
  cases result <;> rfl

/-- Writing the rest of a chain goes on where its front ended. -/
theorem run_pushRest (g : CallGraph) (front : List (Kernel × NodeData)) (last : Kernel × NodeData)
    (rest : List (Kernel × NodeData)) :
    (rest.foldlM pushBelow (g.size + front.length) : Build Nat).run (g.append (front ++ [last])) =
      some (.ok (g.size + front.length + rest.length), g.append (front ++ last :: rest)) := by
  induction rest generalizing front last with
  | nil => rfl
  | cons n rest inductionHypothesis =>
    have adopted : ((g.append (front ++ [last])).append [n]).adopt (g.size + front.length)
        (g.append (front ++ [last])).size = g.append (front ++ [last, n]) := g.adopt_append front last ⟨n, []⟩
    have child : (g.append (front ++ [last])).size = g.size + (front ++ [last]).length := size_append ..
    have written : (pushBelow (g.size + front.length) n : Build Nat).run (g.append (front ++ [last])) =
        some (.ok (g.size + (front ++ [last]).length), g.append (front ++ [last, n])) := by
      rw [← child, ← adopted]
      rfl
    have next := inductionHypothesis (front ++ [last]) n
    rw [List.append_assoc, List.append_assoc, List.singleton_append, List.singleton_append] at next
    have length : g.size + (front ++ [last]).length + rest.length = g.size + front.length + (n :: rest).length := by
      simp
      omega
    simp only [List.foldlM_cons, run_bind, written, Option.bind_some, next, length]

theorem run_pushChain (g : CallGraph) (first : Kernel × NodeData) (rest : List (Kernel × NodeData)) :
    (pushChain first rest).run g = some (.ok (g.size, g.size + rest.length), g.append (first :: rest)) := by
  have root : (push first.1 first.2).run g = some (.ok g.size, g.append [first]) := rfl
  have others := run_pushRest g [] first rest
  simp only [List.length_nil, Nat.add_zero, List.nil_append] at others
  simp only [pushChain, run_bind, root, Option.bind_some, others]
  rfl

/-- A composite writes its own nodes above the chain of its child, or nothing if its child
fails. -/
theorem writes_above (first : Kernel × NodeData) (rest : List (Kernel × NodeData)) (onError : CallError → CallError)
    {child : Build Nat} {outline : Outline} (writes : Writes child outline) :
    Writes (above first rest child onError) (Outline.above first rest outline onError) := by
  intro g closed
  have before : (mark : Build Nat).run g = some (.ok g.size, g) := rfl
  have pushed := run_pushChain g first rest
  have ran := writes (g.append (first :: rest))
    (closed.imp (closed_append · _) Outline.succeeds_above_iff.mp)
  simp only [above, run_bind, before, pushed, run_tryCatch, ran, Option.bind_some]
  rcases outline with _ | e | chain
  · rfl
  · -- The failed child left the graph as it found it, so that the mark is where this chain began.
    have closed : g.Closed := closed.resolve_right fun ⟨_, ran⟩ => nomatch ran
    have released : ((g.append (first :: rest)).rollback g.size).2 = g := by
      rw [rollback_eq, truncate_append closed]
    change some (_, ((g.append (first :: rest)).rollback g.size).2) = _
    rw [released]
    rfl
  · obtain ⟨front, last, split⟩ := (List.eq_nil_or_concat (first :: rest)).resolve_left (by simp)
    have length : rest.length = front.length := by simpa using congrArg List.length split
    have adopted := g.adopt_append front last chain
    rw [List.concat_eq_append] at split
    rw [← split, ← length] at adopted
    change some (_, (_ : CallGraph).adopt _ _) = some (_, g.append (first :: (rest ++ chain.toList)))
    rw [adopted, ← List.cons_append, split, List.append_assoc]
    rfl

end Build

end ArrayCall
