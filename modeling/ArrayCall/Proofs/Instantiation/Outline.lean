import ArrayCall.Proofs.Instantiation.Chain
import Mathlib

/-!
# What instantiation writes

`Callable.outline` reads instantiation without a graph: which chain a callable writes for given
layouts, or with which error it fails. `Callable.instantiate_eq_onto` says that this is all that
instantiation does to a graph, so that what holds of every chain, or of every error, can be
proved by recursion over the callable alone.
-/

namespace ArrayCall

/-- The chain of a leaf: its node, behind a conversion if one is needed. -/
def Chain.ofLeaf (plan : Kernel × NodeData × ConvertPlan) : Chain :=
  let (kernel, data, conversions) := plan
  if conversions.isIdentity then ⟨(kernel, data), []⟩
  else ⟨(.convert, .convert conversions), [(kernel, data)]⟩

/-- Says what is written, and writes nothing. -/
def Outline.writer : Writer Outline where
  endless := Outline.endless
  fail e := throw e
  adapt := ExceptT.adapt
  leaf plan := pure (.ofLeaf plan)
  above := Outline.above

/-! ## Writers side by side -/

namespace Writer

variable {ρ ρ' : Type} {R : ρ → ρ' → Prop} {w : Writer ρ} {w' : Writer ρ'}

/-- Each step of a writer comes to what is related to that of another one. -/
structure Related (R : ρ → ρ' → Prop) (w : Writer ρ) (w' : Writer ρ') : Prop where
  endless : R w.endless w'.endless
  fail (e : CallError) : R (w.fail e) (w'.fail e)
  adapt (f : CallError → CallError) {a : ρ} {a' : ρ'} (below : R a a') : R (w.adapt f a) (w'.adapt f a')
  leaf (plan : Kernel × NodeData × ConvertPlan) : R (w.leaf plan) (w'.leaf plan)
  above (first : Kernel × NodeData) (rest : List (Kernel × NodeData))
    (onError : CallError → CallError) {a : ρ} {a' : ρ'} (below : R a a') :
    R (w.above first rest a onError) (w'.above first rest a' onError)

namespace Related

theorem andThen (related : Related R w w') {α : Type} {x : Except CallError α} {next : α → ρ} {next' : α → ρ'}
    (each : ∀ a, x = .ok a → R (next a) (next' a)) : R (w.andThen x next) (w'.andThen x next') := by
  cases x with
  | error e => exact related.fail e
  | ok a => exact each a rfl

variable {jump : Callable.Jump ρ} {jump' : Callable.Jump ρ'}

/-- What stands in for a callable, an overload or the callable itself. -/
theorem jumped {other? : Option Callable} {itself : ρ} {itself' : ρ'} {dst : Layout} {src : List Layout}
    (jumps : ∀ c dst src, R (jump c dst src) (jump' c dst src)) (same : R itself itself') :
    R (match other? with | none => itself | some other => jump other dst src)
      (match other? with | none => itself' | some other => jump' other dst src) := by
  cases other? with
  | none => exact same
  | some other => exact jumps other dst src

theorem writeNode (related : Related R w w') {os : Overloads} {kwds : Keywords}
    (jumps : ∀ c dst src, R (jump c dst src) (jump' c dst src)) (c : Callable) (dst : Layout) (src : List Layout) :
    R (c.writeNode w os kwds jump dst src) (c.writeNode w' os kwds jump' dst src) := by
  induction c generalizing dst src with
  | leaf stamp name sig kernel =>
    rw [Callable.writeNode, Callable.writeNode]
    exact related.andThen fun _ _ => related.andThen fun plan _ => related.leaf plan
  | dispatch stamp name sig table inductionHypothesis =>
    rw [Callable.writeNode, Callable.writeNode]
    refine related.andThen fun _ _ => ?_
    dsimp only
    cases found : table.dispatch ((src.map (·.ty)).map Ty.typeId) with
    | error position => exact related.fail _
    | ok target =>
      obtain ⟨key, member⟩ := Dispatcher.exists_mem_of_dispatch found
      exact jumped jumps (inductionHypothesis (key, target) member dst src)
  | permute stamp child slots inductionHypothesis =>
    rw [Callable.writeNode, Callable.writeNode]
    exact related.andThen fun _ _ => related.above _ _ _ (jumped jumps (inductionHypothesis _ _))
  | lift stamp child types inductionHypothesis =>
    rw [Callable.writeNode, Callable.writeNode]
    refine related.andThen fun _ _ => related.andThen fun plan _ => related.andThen fun loops _ => ?_
    cases loops with
    | nil => exact related.adapt _ (jumped jumps (inductionHypothesis _ _))
    | cons outermost loops => exact related.above _ _ _ (jumped jumps (inductionHypothesis _ _))
  | reduce stamp fold identity inductionHypothesis =>
    rw [Callable.writeNode, Callable.writeNode]
    exact related.andThen fun _ _ => related.andThen fun _ _ =>
      related.above _ _ _ (jumped jumps (inductionHypothesis _ _))

theorem jumpWithin (related : Related R w w') (os : Overloads) (kwds : Keywords) (jumps : Nat) (c : Callable)
    (dst : Layout) (src : List Layout) :
    R (Callable.jumpWithin w os kwds jumps c dst src) (Callable.jumpWithin w' os kwds jumps c dst src) := by
  induction jumps generalizing c dst src with
  | zero => exact related.endless
  | succ jumps inductionHypothesis => exact related.writeNode inductionHypothesis c dst src

/-- What two writers come to for a callable is related if their steps are. -/
theorem writeWithin (related : Related R w w') (os : Overloads) (kwds : Keywords) (jumps : Nat) (c : Callable)
    (dst : Layout) (src : List Layout) :
    R (c.writeWithin w os kwds jumps dst src) (c.writeWithin w' os kwds jumps dst src) :=
  jumped (related.jumpWithin os kwds jumps) (related.writeNode (related.jumpWithin os kwds jumps) c dst src)

end Related

end Writer

/-- What a leaf writes is the chain of its nodes. -/
theorem Build.writes_leaf (plan : Kernel × NodeData × ConvertPlan) :
    Build.Writes (Build.leaf plan) (Outline.writer.leaf plan) := by
  obtain ⟨kernel, data, conversions⟩ := plan
  change Build.Writes _ (pure (Chain.ofLeaf _))
  rw [Build.leaf, Chain.ofLeaf]
  split
  · exact Build.writes_push kernel data
  · intro g _
    have adopted := g.adopt_append [] (.convert, .convert conversions) ⟨(kernel, data), []⟩
    exact congrArg (fun g' => some ((.ok g.size : Except CallError Nat), g')) adopted

theorem Outline.andThen_writer {α : Type} (x : Except CallError α) (next : α → Outline) :
    Outline.writer.andThen x next = Outline.ofExcept x >>= next := by
  cases x <;> rfl

namespace Overloads

theorem mem_of_find? {os : Overloads} {c other : Callable} {ret : Ty} {args : List Ty}
    (found : os.find? c ret args = some other) : ∃ o ∈ os, o.subject = c.stamp ∧ o.target = other := by
  obtain ⟨o, first, rfl⟩ := Option.map_eq_some_iff.mp found
  have test := List.find?_some first
  simp only [Bool.and_eq_true, beq_iff_eq] at test
  exact ⟨o, List.mem_of_find?_eq_some first, test.1.1, rfl⟩

theorem find?_eq_none {os : Overloads} {c : Callable} (unnamed : ∀ o ∈ os, o.subject ≠ c.stamp) (ret : Ty)
    (args : List Ty) : os.find? c ret args = none := by
  cases found : os.find? c ret args with
  | none => rfl
  | some other =>
    obtain ⟨o, member, subject, -⟩ := mem_of_find? found
    exact absurd subject (unnamed o member)

end Overloads

namespace Callable

/-- What the target of an overload comes to. -/
abbrev OutlineJump := Jump Outline

/-- What instantiating a callable itself comes to, if `jump` says it for the targets of
overloads. -/
def outlineNode (os : Overloads) (kwds : Keywords) (jump : OutlineJump) (c : Callable)
    (dst : Layout) (src : List Layout) : Outline :=
  c.writeNode Outline.writer os kwds jump dst src

/-- What instantiating the target of an overload comes to, with at most so many jumps in all. -/
def outlineWithin (os : Overloads) (kwds : Keywords) (jumps : Nat) : OutlineJump :=
  jumpWithin Outline.writer os kwds jumps

theorem outlineWithin_succ (os : Overloads) (kwds : Keywords) (jumps : Nat) (c : Callable) (dst : Layout)
    (src : List Layout) :
    outlineWithin os kwds (jumps + 1) c dst src = c.outlineNode os kwds (outlineWithin os kwds jumps) dst src := rfl

/-- What instantiating a callable comes to. -/
def outline (os : Overloads) (c : Callable) (dst : Layout) (src : List Layout) (kwds : Keywords) :
    Outline :=
  c.writeWithin Outline.writer os kwds os.length dst src

section

variable {os : Overloads} {kwds : Keywords} {jump : OutlineJump} {stamp : Nat} {dst : Layout} {src : List Layout}

theorem outlineNode_leaf {name : String} {sig : Signature} {kernel : Leaf} :
    (leaf stamp name sig kernel).outlineNode os kwds jump dst src = (do
      Outline.ofExcept ((leaf stamp name sig kernel).checkArity src.length)
      return .ofLeaf (← Outline.ofExcept
        ((leaf stamp name sig kernel).planLeaf kernel dst.ty (src.map (·.ty)) kwds))) := by
  rw [outlineNode, writeNode]
  simp only [Outline.andThen_writer]
  rfl

theorem outlineNode_dispatch {name : String} {sig : Signature} {table : Dispatcher Callable} :
    (dispatch stamp name sig table).outlineNode os kwds jump dst src = (do
      Outline.ofExcept ((dispatch stamp name sig table).checkArity src.length)
      match table.dispatch ((src.map (·.ty)).map Ty.typeId) with
      | .error position => throw ((dispatch stamp name sig table).noEntry (src.map (·.ty)) position)
      | .ok target =>
        match os.find? target dst.ty (src.map (·.ty)) with
        | none => target.outlineNode os kwds jump dst src
        | some other => jump other dst src) := by
  rw [outlineNode, writeNode]
  simp only [Outline.andThen_writer]
  refine bind_congr fun _ => ?_
  cases table.dispatch ((src.map (·.ty)).map Ty.typeId) <;> rfl

theorem outlineNode_permute {child : Callable} {slots : List Int} :
    (permute stamp child slots).outlineNode os kwds jump dst src = (do
      Outline.ofExcept ((permute stamp child slots).checkArity src.length)
      let childSrc := slots.filterMap fun j => if j < 0 then some dst else src[j.toNat]?
      Outline.above (.permute, .permutation slots) []
        (match os.find? child dst.ty (childSrc.map (·.ty)) with
          | none => child.outlineNode os kwds jump dst childSrc
          | some other => jump other dst childSrc)
        fun e => .wrap (permute stamp child slots).name (e.mapPosition (outerPosition slots))) := by
  rw [outlineNode, writeNode]
  simp only [Outline.andThen_writer]
  rfl

theorem outlineNode_lift {child : Callable} {types : Option (List Ty)} :
    (lift stamp child types).outlineNode os kwds jump dst src = (do
      Outline.ofExcept ((lift stamp child types).checkArity src.length)
      let plan ← Outline.ofExcept ((lift stamp child types).liftPlan child dst src)
      let below : Outline :=
        match os.find? child plan.dst.ty (plan.src.map (·.ty)) with
        | none => child.outlineNode os kwds jump plan.dst plan.src
        | some other => jump other plan.dst plan.src
      match ← Outline.ofExcept ((lift stamp child types).loopNest plan.outer plan.own dst src) with
      | [] => ExceptT.adapt (.wrap (lift stamp child types).name) below
      | outermost :: loops =>
        Outline.above (.loop, .loop outermost) (loops.map fun l => (.loop, .loop l)) below
          (.wrap (lift stamp child types).name)) := by
  rw [outlineNode, writeNode]
  simp only [Outline.andThen_writer]
  rfl

theorem outlineNode_reduce {fold : Callable} {identity : Option Scalar} :
    (reduce stamp fold identity).outlineNode os kwds jump dst src = (do
      Outline.ofExcept ((reduce stamp fold identity).checkArity src.length)
      let arg := src.headD ⟨.void, []⟩
      let (acc, inner) ← Outline.ofExcept ((reduce stamp fold identity).reductionPlan dst arg)
      Outline.above (.fold, .fold identity acc) ((reductionLoops arg).map fun l => (.loop, .loop l))
        (match os.find? fold dst.ty [inner.ty] with
          | none => fold.outlineNode os kwds jump dst [inner]
          | some other => jump other dst [inner])
        (.wrap (reduce stamp fold identity).name)) := by
  rw [outlineNode, writeNode]
  simp only [Outline.andThen_writer]
  rfl

end

/-- Without an overload of its own, a callable comes to what its nodes come to. -/
theorem outline_eq_outlineNode {os : Overloads} {c : Callable} (unnamed : ∀ o ∈ os, o.subject ≠ c.stamp)
    (dst : Layout) (src : List Layout) (kwds : Keywords) :
    outline os c dst src kwds = outlineNode os kwds (outlineWithin os kwds os.length) c dst src := by
  rw [outline, writeWithin, Overloads.find?_eq_none unnamed]
  rfl

/-! ## Instantiation follows the outline -/

variable {os : Overloads} {kwds : Keywords} {outlineJump : OutlineJump}

theorem of_match_find? {P : Outline → Prop} (child : Callable) (ret : Ty) (args : List Ty) {dst : Layout}
    {src : List Layout} {itself : Outline}
    (jumps : ∀ o ∈ os, o.subject = child.stamp → P (outlineJump o.target dst src))
    (holds : P itself) :
    P (match os.find? child ret args with | none => itself | some other => outlineJump other dst src) := by
  cases found : os.find? child ret args with
  | none => exact holds
  | some other =>
    obtain ⟨o, member, subject, rfl⟩ := Overloads.mem_of_find? found
    exact jumps o member subject

/-- To write into a graph is to do what the outline says. -/
theorem writes_related : Writer.Related Build.Writes (.ofArena CallGraph) Outline.writer where
  endless := Build.writes_endless
  fail := Build.writes_throw
  adapt := Build.writes_adapt
  leaf := Build.writes_leaf
  above := Build.writes_above

theorem writes_instantiateWithin (os : Overloads) (kwds : Keywords) (jumps : Nat) (c : Callable) (dst : Layout)
    (src : List Layout) :
    (c.instantiateWithin os kwds jumps dst src).Writes (c.writeWithin Outline.writer os kwds jumps dst src) :=
  writes_related.writeWithin os kwds jumps c dst src

/-- Instantiation does to a graph what the outline says, and nothing else. -/
theorem instantiate_eq_onto (os : Overloads) (c : Callable) (dst : Layout) (src : List Layout)
    (kwds : Keywords) {g : CallGraph} (closed : g.Closed) :
    instantiate os c dst src kwds g = (outline os c dst src kwds).onto g :=
  writes_instantiateWithin os kwds os.length c dst src g (.inl closed)

theorem instantiate_of_outline {os : Overloads} {c : Callable} {dst : Layout} {src : List Layout}
    {kwds : Keywords} {chain : Chain} (outlined : (outline os c dst src kwds).run = some (.ok chain))
    (g : CallGraph) :
    instantiate os c dst src kwds g = some (.ok g.size, g.append chain.toList) := by
  have written := writes_instantiateWithin os kwds os.length c dst src g (.inr ⟨chain, outlined⟩)
  exact written.trans (congrArg (Option.map _) outlined)

end Callable

end ArrayCall
