import ArrayCall.Proofs.CallGraph.Ledger
import ArrayCall.Proofs.Instantiation.Outline

/-!
# Recorded instantiation

A ledger is an arena as the graph that it keeps is one, so a callable can be written into either
(`Callable.record`). `Callable.follows_record` says that this does nothing else to the graph of the ledger, and that a
faithful ledger stays faithful, whatever an instantiation that fails has released on its way.
-/

namespace ArrayCall

instance : Arena Ledger where
  size l := l.graph.size
  push := Ledger.push
  adopt := Ledger.adopt
  rollback l mark := ((l.graph.rollback mark).1, l.release mark)

/-- Writes nodes into a graph and keeps the record of them. -/
abbrev Recorded := BuildIn Ledger

/-- Writes the nodes of a call into a ledger. -/
def Callable.record (os : Overloads) (c : Callable) (dst : Layout) (src : List Layout) (kwds : Keywords) :
    Recorded Nat :=
  c.writeWithin (.ofArena Ledger) os kwds os.length dst src

namespace Recorded

variable {base l l' l'' : Ledger}

/-- What recording makes of a ledger: it stays faithful, and has no fewer nodes than before. -/
structure Grows (l l' : Ledger) : Prop where
  faithful : l'.Faithful
  size_le : l.graph.size ≤ l'.graph.size

theorem Grows.trans (first : Grows l l') (second : Grows l' l'') : Grows l l'' where
  faithful := second.faithful
  size_le := Nat.le_trans first.size_le second.size_le

theorem Grows.push (grows : Grows base l) (kernel : Kernel) (data : NodeData) : Grows base (l.push kernel data).2 where
  faithful := grows.faithful.push kernel data
  size_le := Nat.le_trans grows.size_le (by simp)

theorem Grows.adopt (grows : Grows base l) {parent child : Nat} (exists_parent : parent < l.graph.size)
    (exists_child : child < l.graph.size) : Grows base (l.adopt parent child) where
  faithful := grows.faithful.adopt exists_parent exists_child
  size_le := Nat.le_trans grows.size_le (by simp)

/-- From a ledger a recording comes to the same result and graph as a build. The ledger has then grown from a former
one, and a result is good in it. -/
def Follows {α : Type} (base l : Ledger) (Good : α → Ledger → Prop) (recorded : Recorded α) (build : Build α) : Prop :=
  recorded.run l = none ∧ build.run l.graph = none ∨
    ∃ result l', recorded.run l = some (result, l') ∧ build.run l.graph = some (result, l'.graph) ∧ Grows base l' ∧
      ∀ a, result = .ok a → Good a l'

variable {α β : Type} {Good : α → Ledger → Prop} {Good' : β → Ledger → Prop} {recorded : Recorded α} {build : Build α}
  {recorded' : α → Recorded β} {build' : α → Build β}

/-! ### Steps -/

theorem follows_pure (grows : Grows base l) {a : α} (good : Good a l) : Follows base l Good (pure a) (pure a) := by
  refine .inr ⟨.ok a, l, rfl, rfl, grows, ?_⟩
  rintro _ ⟨⟩
  exact good

theorem follows_throw (grows : Grows base l) (e : CallError) : Follows base l Good (throw e) (throw e) :=
  .inr ⟨.error e, l, rfl, rfl, grows, nofun⟩

theorem Follows.imp {Better : α → Ledger → Prop} (follows : Follows base l Good recorded build)
    (better : ∀ a l', Good a l' → Better a l') : Follows base l Better recorded build :=
  Or.imp_right (fun ⟨result, l', ran, ran', grows, good⟩ =>
    ⟨result, l', ran, ran', grows, fun a same => better a l' (good a same)⟩) follows

theorem follows_bind (first : Follows base l Good recorded build)
    (next : ∀ a l', Grows base l' → Good a l' → Follows base l' Good' (recorded' a) (build' a)) :
    Follows base l Good' (recorded >>= recorded') (build >>= build') := by
  rw [Follows, Build.run_bind, Build.run_bind]
  obtain ⟨no_end, no_end'⟩ | ⟨result, l', ran, ran', grows, good⟩ := first
  · rw [no_end, no_end']
    exact .inl ⟨rfl, rfl⟩
  · rw [ran, ran']
    cases result with
    | error e => exact follows_throw grows e
    | ok a => exact next a l' grows (good a rfl)

/-- What is released behind a child that fails was written after the mark, so that there are as many nodes as there
were. -/
theorem Grows.release (grows : Grows base l) : Grows base (l.release base.graph.size) where
  faithful := grows.faithful.release _
  size_le := by
    rw [Ledger.graph_release, CallGraph.size_truncate]
    exact Nat.le_min.mpr ⟨Nat.le_refl _, grows.size_le⟩

theorem follows_guarded_bind (grown : Grows base l) (onError : CallError → CallError)
    (child : Follows l l Good recorded build)
    (next : ∀ a l', Grows l l' → Good a l' → Follows base l' Good' (recorded' a) (build' a)) :
    Follows base l Good'
      (tryCatch recorded (fun e => do Build.rollback base.graph.size; throw (onError e)) >>= recorded')
      (tryCatch build (fun e => do Build.rollback base.graph.size; throw (onError e)) >>= build') := by
  rw [Follows, Build.run_bind, Build.run_bind, Build.run_tryCatch, Build.run_tryCatch]
  obtain ⟨no_end, no_end'⟩ | ⟨result, l', ran, ran', grows, good⟩ := child
  · rw [no_end, no_end']
    exact .inl ⟨rfl, rfl⟩
  · rw [ran, ran']
    cases result with
    | error e => exact .inr ⟨.error (onError e), l'.release base.graph.size, rfl, rfl, (grown.trans grows).release,
      nofun⟩
    | ok a => exact next a l' grows (good a rfl)

/-- A number of a node -/
abbrev Names (id : Nat) (l : Ledger) : Prop := id < l.graph.size

theorem follows_push (grows : Grows base l) (kernel : Kernel) (data : NodeData) :
    Follows base l (fun id l' => Names id l' ∧ l.graph.size ≤ l'.graph.size) (Build.push kernel data)
      (Build.push kernel data) := by
  refine .inr ⟨.ok l.graph.size, (l.push kernel data).2, rfl, rfl, grows.push kernel data, ?_⟩
  rintro _ ⟨⟩
  simp

theorem follows_adopt (grows : Grows base l) {parent child : Nat} (exists_parent : Names parent l)
    (exists_child : Names child l) :
    Follows base l (fun _ l' => l'.graph.size = l.graph.size) (Build.adopt parent child) (Build.adopt parent child) :=
  .inr ⟨.ok (), l.adopt parent child, rfl, rfl, grows.adopt exists_parent exists_child, by simp⟩

theorem follows_mark_bind {recorded : Nat → Recorded α} {build : Nat → Build α}
    (next : Follows base l Good (recorded l.graph.size) (build l.graph.size)) :
    Follows base l Good (Build.mark >>= recorded) (Build.mark >>= build) := next

/-! ### Chains -/

theorem follows_pushBelow (grows : Grows base l) {parent : Nat} (inside : Names parent l) (n : Kernel × NodeData) :
    Follows base l (fun id l' => Names id l' ∧ l.graph.size ≤ l'.graph.size) (Build.pushBelow parent n)
      (Build.pushBelow parent n) := by
  refine follows_bind (follows_push grows n.1 n.2) fun id l₁ grows ⟨new, longer⟩ => ?_
  refine follows_bind (follows_adopt grows (Nat.lt_of_lt_of_le inside longer) new) fun _ l₂ grows same => ?_
  exact follows_pure grows ⟨by rwa [Names, same], by rwa [same]⟩

/-- Each node of the rest of a chain is adopted by the one before it. -/
theorem follows_pushRest (grows : Grows base l) {parent : Nat} (inside : Names parent l)
    (rest : List (Kernel × NodeData)) :
    Follows base l (fun last l' => Names last l' ∧ l.graph.size ≤ l'.graph.size) (rest.foldlM Build.pushBelow parent)
      (rest.foldlM Build.pushBelow parent) := by
  induction rest generalizing l parent with
  | nil => exact follows_pure grows ⟨inside, Nat.le_refl _⟩
  | cons n rest inductionHypothesis =>
    rw [List.foldlM_cons, List.foldlM_cons]
    refine follows_bind (follows_pushBelow grows inside n) fun id l₁ grows ⟨inside, longer⟩ => ?_
    exact (inductionHypothesis grows inside).imp fun _ _ ⟨inside, longer'⟩ => ⟨inside, Nat.le_trans longer longer'⟩

theorem follows_pushChain (grows : Grows base l) (first : Kernel × NodeData) (rest : List (Kernel × NodeData)) :
    Follows base l (fun ids l' => Names ids.1 l' ∧ Names ids.2 l') (Build.pushChain first rest)
      (Build.pushChain first rest) := by
  refine follows_bind (follows_push grows first.1 first.2) fun root l₁ grows ⟨inside, _⟩ => ?_
  refine follows_bind (follows_pushRest grows inside rest) fun last l₂ grows ⟨inside', longer⟩ => ?_
  exact follows_pure grows ⟨Nat.lt_of_lt_of_le inside longer, inside'⟩

/-! ### Callables -/

/-- From every faithful ledger a recording follows a build, and gives the number of a node. -/
def FollowsAlways (recorded : Recorded Nat) (build : Build Nat) : Prop :=
  ∀ l : Ledger, l.Faithful → Follows l l Names recorded build

theorem follows_adapt (f : CallError → CallError) {recorded : Recorded Nat} {build : Build Nat}
    (follows : FollowsAlways recorded build) : FollowsAlways (ExceptT.adapt f recorded) (ExceptT.adapt f build) := by
  intro l faithful
  have adapted : (ExceptT.adapt f recorded).run l = (recorded.run l).bind fun r => some (r.1.mapError f, r.2) := rfl
  have adapted' : (ExceptT.adapt f build).run l.graph =
      (build.run l.graph).bind fun r => some (r.1.mapError f, r.2) := rfl
  rw [Follows, adapted, adapted']
  obtain ⟨no_end, no_end'⟩ | ⟨result, l', ran, ran', grows, inside⟩ := follows l faithful
  · rw [no_end, no_end']
    exact .inl ⟨rfl, rfl⟩
  · rw [ran, ran']
    refine .inr ⟨result.mapError f, l', rfl, rfl, grows, ?_⟩
    cases result with
    | error e => exact nofun
    | ok root => exact inside

theorem follows_leaf (plan : Kernel × NodeData × ConvertPlan) : FollowsAlways (Build.leaf plan) (Build.leaf plan) := by
  intro l faithful
  obtain ⟨kernel, data, conversions⟩ := plan
  have grows : Grows l l := ⟨faithful, Nat.le_refl _⟩
  rw [Build.leaf, Build.leaf]
  split
  · exact (follows_push grows kernel data).imp fun _ _ => And.left
  · refine follows_bind (follows_push grows _ _) fun root l₁ grows written => ?_
    refine follows_bind (follows_pushBelow grows written.1 (kernel, data)) fun id l₂ grows below => ?_
    exact follows_pure grows (Nat.lt_of_lt_of_le written.1 below.2)

theorem follows_above (first : Kernel × NodeData) (rest : List (Kernel × NodeData)) (onError : CallError → CallError)
    {recorded : Recorded Nat} {build : Build Nat} (follows : FollowsAlways recorded build) :
    FollowsAlways (Build.above first rest recorded onError) (Build.above first rest build onError) := by
  intro l faithful
  refine follows_mark_bind ?_
  refine follows_bind (follows_pushChain ⟨faithful, Nat.le_refl _⟩ first rest) fun (root, last) l₁ grown inside => ?_
  refine follows_guarded_bind grown onError (follows l₁ grown.faithful) fun id l₂ grows inside' => ?_
  have root_inside := Nat.lt_of_lt_of_le inside.1 grows.size_le
  have last_inside := Nat.lt_of_lt_of_le inside.2 grows.size_le
  refine follows_bind (follows_adopt (grown.trans grows) last_inside inside') fun _ l₃ grows same => ?_
  exact follows_pure grows (by rwa [Names, same])

theorem follows_related : Writer.Related FollowsAlways (.ofArena Ledger) (.ofArena CallGraph) where
  endless _ _ := .inl ⟨rfl, rfl⟩
  fail e _ faithful := follows_throw ⟨faithful, Nat.le_refl _⟩ e
  adapt := follows_adapt
  leaf := follows_leaf
  above := follows_above

end Recorded

/-- Recorded or not, instantiation comes to the same. -/
theorem Callable.follows_record (os : Overloads) (c : Callable) (dst : Layout) (src : List Layout) (kwds : Keywords) :
    Recorded.FollowsAlways (c.record os dst src kwds) (c.instantiateWithin os kwds os.length dst src) :=
  Recorded.follows_related.writeWithin os kwds os.length c dst src

end ArrayCall
