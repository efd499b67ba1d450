import ArrayCall.Proofs.Execution.Lockstep
import ArrayCall.Proofs.Instantiation.Safety

/-!
# Instantiation for other layouts

What a callable writes depends on the types of its arguments, but for the strides of its loops. For layouts of the
same types (`LayoutPair`) it fails with the same error, or writes two chains that are in step
(`Chain.InStep`) wherever they are given addresses of the same elements: `Callable.outline_inStep`, with one lemma
for each kind of node.
-/

namespace ArrayCall

/-! ## Layouts of one type -/

/-- Two layouts of one concrete type. -/
structure LayoutPair where
  left : Layout
  right : Layout
  ty_eq : right.ty = left.ty
  leftConcrete : left.Concrete
  rightConcrete : right.Concrete

namespace LayoutPair

open Layout

variable {t behind : LayoutPair} {n : Nat} {a a' : Addr} {P : Nat → Addr → Addr → Prop}

/-- One layout, twice. -/
def twice (l : Layout) (concrete : l.Concrete) : LayoutPair := ⟨l, l, rfl, concrete, concrete⟩

/-- A relation holds of the two places of every element, if the first ones are at two addresses. -/
def Throughout (t : LayoutPair) (P : Nat → Addr → Addr → Prop) (a a' : Addr) : Prop :=
  ∀ index, IsIndex t.left.ty.shape index →
    P t.left.ty.elementSize (a.advance (displacement index t.left.strides))
      (a'.advance (displacement index t.right.strides))

theorem Throughout.here {k : Kind} (throughout : t.Throughout P a a') (scalar : t.left.ty = .scalar k) :
    P k.size a a' := by
  have first := throughout [] (scalar ▸ .nil)
  rwa [displacement_nil, displacement_nil, Addr.advance_zero, Addr.advance_zero, scalar] at first

theorem exists_inner (t : LayoutPair) (within : n ≤ t.left.ty.shape.length) :
    ∃ behind : LayoutPair, t.left.inner? n = some behind.left ∧ t.right.inner? n = some behind.right := by
  obtain ⟨left, found⟩ := t.leftConcrete.exists_inner? within
  obtain ⟨right, found'⟩ := t.rightConcrete.exists_inner? (t.ty_eq ▸ within)
  have same : right.ty = left.ty := by
    have stripped := stripDims_of_inner? found'
    rw [t.ty_eq, stripDims_of_inner? found] at stripped
    exact (Option.some.inj stripped).symm
  exact ⟨⟨left, right, same, (t.leftConcrete.of_inner? within found).1,
    (t.rightConcrete.of_inner? (t.ty_eq ▸ within) found').1⟩, found, found'⟩

theorem Throughout.inner (throughout : t.Throughout P a a') (within : n ≤ t.left.ty.shape.length)
    (left : t.left.inner? n = some behind.left) (right : t.right.inner? n = some behind.right) {index : List Nat}
    (inside : IsIndex (t.left.ty.shape.take n) index) :
    behind.Throughout P (a.advance (displacement index (t.left.strides.take n)))
      (a'.advance (displacement index (t.right.strides.take n))) := by
  intro index' inside'
  have within' : n ≤ t.right.ty.shape.length := t.ty_eq ▸ within
  obtain ⟨whole, moved⟩ := t.leftConcrete.displacement_of_inner? within left inside inside'
  obtain ⟨-, moved'⟩ := t.rightConcrete.displacement_of_inner? within' right (t.ty_eq ▸ inside) (behind.ty_eq ▸ inside')
  have element := throughout _ whole
  rwa [moved, moved', ← Addr.advance_advance, ← Addr.advance_advance,
    ← (t.leftConcrete.of_inner? within left).2.2.2] at element

theorem map_ty_right (src : List LayoutPair) : (src.map (·.right)).map (·.ty) = (src.map (·.left)).map (·.ty) := by
  rw [List.map_map, List.map_map]
  exact List.map_congr_left fun t _ => t.ty_eq

end LayoutPair

/-- A source of a lift in two layouts. -/
structure LiftedPair (outer : Nat) where
  pair : LayoutPair
  own : Nat
  behind : LayoutPair
  own_le_length : own ≤ pair.left.ty.shape.length
  own_le : own ≤ outer
  left_eq : pair.left.inner? own = some behind.left
  right_eq : pair.right.inner? own = some behind.right

namespace LiftedPair

variable {outer : Nat}

def left (s : LiftedPair outer) : LiftedSource outer :=
  ⟨s.pair.left, s.own, s.behind.left, s.own_le_length, s.own_le, s.left_eq⟩

def right (s : LiftedPair outer) : LiftedSource outer :=
  ⟨s.pair.right, s.own, s.behind.right, s.pair.ty_eq ▸ s.own_le_length, s.own_le, s.right_eq⟩

theorem shape_front_right (s : LiftedPair outer) : s.right.front.ty.shape = s.left.front.ty.shape := by
  rw [s.right.shape_front, s.left.shape_front]
  exact congrArg (fun t : Ty => t.shape.take s.own) s.pair.ty_eq

end LiftedPair

/-! ## Chains -/

namespace Chain

/-- The two chains take the sources, batches of them get to as many items, and wherever they stand at one place and
are given the same elements of the sources, they run in step. -/
structure InStep (src : List LayoutPair) (chain chain' : List (Kernel × NodeData)) : Prop where
  takes : Takes chain src.length
  takes' : Takes chain' src.length
  batch_eq : batch chain = batch chain'
  inStep : ∀ {f : Fronts} {g g' : CallGraph} {id : Nat} {a : Addr} {addresses : List (Addr × Addr)},
    g.Handed → g'.Handed → g.Continues id chain → g'.Continues id chain' → f.left.length ≤ a.region →
    List.Forall₂ (fun p (t : LayoutPair) => t.Throughout f.Serves p.1 p.2) addresses src →
    Run.InStep f Eq (g.settled.single id a (addresses.map (·.1))) (g'.settled.single id a (addresses.map (·.2)))

variable {src : List LayoutPair} {chain chain' : List (Kernel × NodeData)}

theorem inStep_ofLeaf {kernel : Kernel} {data : NodeData} {kinds : List (Kind × Kind)} {given want : Kind}
    (operands : kernel.operands? data = some (kinds.map (·.2), want))
    (sources : src.map (·.left.ty) = kinds.map fun p => .scalar p.1) :
    InStep src
      (ofLeaf (kernel, data, .between (kinds.map (·.1)) (kinds.map (·.2)) (some given) (some want))).toList
      (ofLeaf (kernel, data, .between (kinds.map (·.1)) (kinds.map (·.2)) (some given) (some want))).toList := by
  have count : src.length = kinds.length := by simpa using congrArg List.length sources
  have takes : Takes (ofLeaf (kernel, data,
      .between (kinds.map (·.1)) (kinds.map (·.2)) (some given) (some want))).toList src.length := by
    refine takes_ofLeaf_of_reads? ?_ (by simpa [ConvertPlan.between] using count.symm)
    rw [Kernel.reads?_of_operands? operands, List.length_map, count]
  refine ⟨takes, takes, rfl, fun {f g g' id a addresses} handed handed' continues continues' behind served => ?_⟩
  refine CallGraph.inStep_ofLeaf handed.descends handed'.descends operands continues continues' ?_ behind
  obtain ⟨length, served⟩ := List.forall₂_iff_get.mp served
  refine List.forall₂_iff_get.mpr ⟨length.trans count, fun i there inside => (served i there (count ▸ inside)).here ?_⟩
  have type := congrArg (·[i]?) sources
  simpa [List.getElem?_eq_getElem, count, inside, length ▸ there] using type

/-- A slot that reads the destination reads it at the same address on both sides. -/
theorem inStep_permute {dst : Layout} {slots : List Int} (concrete : dst.Concrete)
    (count : src.length = slots.countP (0 ≤ ·)) (inside : ∀ slot ∈ slots, slot < src.length)
    (below : InStep (slots.map (Node.slotAt (.twice dst concrete) src)) chain chain') :
    InStep src ((.permute, .permutation slots) :: chain) ((.permute, .permutation slots) :: chain') where
  takes := by
    rw [count] at inside ⊢
    exact .permute inside (by simpa using below.takes)
  takes' := by
    rw [count] at inside ⊢
    exact .permute inside (by simpa using below.takes')
  batch_eq := below.batch_eq
  inStep := by
    intro f g g' id a addresses handed handed' continues continues' behind served
    have length := served.length_eq
    have within : ∀ slot ∈ slots, slot < addresses.length := length ▸ inside
    have handedOn : Takes chain slots.length := by simpa using below.takes
    have handedOn' : Takes chain' slots.length := by simpa using below.takes'
    obtain ⟨found, ⟨child, there, -⟩, rest⟩ := continues.parent handedOn
    obtain ⟨found', ⟨child', there', -⟩, rest'⟩ := continues'.parent handedOn'
    rw [CallGraph.settled_single_permute handed.descends found rfl rfl rfl there a (by simpa using within),
      CallGraph.settled_single_permute handed'.descends found' rfl rfl rfl there' a (by simpa using within)]
    have target : (LayoutPair.twice dst concrete).Throughout f.Serves a a := fun _ _ => f.serves_self _ behind
    have moved := below.inStep handed handed' rest rest' behind
      (Callable.forall₂_slots (a := (a, a)) target served inside)
    rwa [Callable.map_slots _ within, Callable.map_slots _ within] at moved

/-- Each index of the loops leads to the same elements of the sources, at places of their own. -/
theorem inStep_lift {outer : Nat} {sources : List (LiftedPair outer)} {dst : Layout} (concrete : dst.Concrete)
    (stretches : ∀ s ∈ sources, Broadcast.Stretches s.left.front.ty.shape (dst.ty.shape.take outer))
    (below : InStep (sources.map (·.behind)) chain chain') :
    InStep (sources.map (·.pair))
      (loopNodes (Callable.loopsOver (dst.ty.shape.take outer) (dst.outer outer)
        (sources.map (·.left.front))) ++ chain)
      (loopNodes (Callable.loopsOver (dst.ty.shape.take outer) (dst.outer outer)
        (sources.map (·.right.front))) ++ chain') where
  takes := takes_loopsOver (by simpa using below.takes) (by simp) _ _
  takes' := takes_loopsOver (by simpa using below.takes') (by simp) _ _
  batch_eq := batch_loops (by simp [Callable.loopsOver]) below.batch_eq
  inStep := by
    intro f g g' id a addresses handed handed' continues continues' behind served
    obtain ⟨views, rfl, rfl⟩ : ∃ views : List ((Addr × Addr) × LiftedPair outer), views.map (·.1) = addresses ∧
        views.map (·.2) = sources :=
      exists_map_eq_of_forall₂ ((List.forall₂_map_right_iff.mp served).imp fun p s _ => ⟨(p, s), rfl, rfl⟩)
    have fits : ∀ v ∈ views, v.2.left.layout.Fits ∧
        Broadcast.Stretches v.2.left.front.ty.shape (dst.ty.shape.take outer) :=
      fun v listed => ⟨v.2.pair.leftConcrete.fits, stretches v.2 (List.mem_map_of_mem listed)⟩
    have fits' : ∀ v ∈ views, v.2.right.layout.Fits ∧
        Broadcast.Stretches v.2.right.front.ty.shape (dst.ty.shape.take outer) :=
      fun v listed => ⟨v.2.pair.rightConcrete.fits, v.2.shape_front_right ▸ (fits v listed).2⟩
    have run := CallGraph.settled_single_lifted handed views (·.1.1) (·.2.left) (by simpa using below.takes)
      (by simpa [Function.comp_def] using continues) concrete.fits fits a
    have run' := CallGraph.settled_single_lifted handed' views (·.1.2) (·.2.right) (by simpa using below.takes')
      (by simpa [Function.comp_def] using continues') concrete.fits fits' a
    simp only [List.map_map, Function.comp_def]
    rw [run, run', reached_congr below.batch_eq]
    refine Run.inStep_forM fun index member => ?_
    have inside := isIndex_of_mem_reached member
    let moved (v : (Addr × Addr) × LiftedPair outer) : Addr × Addr :=
      (v.1.1.advance (Layout.displacement (Broadcast.sourceIndex v.2.left.front.ty.shape index) v.2.left.front.strides),
        v.1.2.advance (Layout.displacement (Broadcast.sourceIndex v.2.right.front.ty.shape index)
          v.2.right.front.strides))
    have served' : List.Forall₂ (fun p (t : LayoutPair) => t.Throughout f.Serves p.1 p.2) (views.map moved)
        ((views.map (·.2)).map (·.behind)) := by
      simp only [List.map_map, List.forall₂_map_left_iff, List.forall₂_map_right_iff, List.forall₂_same] at served ⊢
      intro v listed
      have source := Broadcast.isIndex_sourceIndex (stretches v.2 (List.mem_map_of_mem listed)) inside
      rw [v.2.left.shape_front] at source
      have behind := (served v listed).inner v.2.own_le_length v.2.left_eq v.2.right_eq source
      simp only [moved, v.2.shape_front_right, v.2.left.shape_front]
      exact behind
    have place : f.left.length ≤ (a.advance (Layout.displacement index (dst.strides.take outer))).region := behind
    have child := below.inStep handed handed' continues.of_loopsOver continues'.of_loopsOver place served'
    simpa only [List.map_map, Function.comp_def] using child

/-- The loops of a fold lead to the same elements of the argument. -/
theorem inStep_reduce {identity : Option Scalar} {acc : Kind} {t inner : LayoutPair}
    (left : t.left.inner? t.left.ty.shape.length = some inner.left)
    (right : t.right.inner? t.left.ty.shape.length = some inner.right) (below : InStep [inner] chain chain') :
    InStep [t]
      ((.fold, .fold identity acc) :: (loopNodes (Callable.reductionLoops t.left) ++ chain))
      ((.fold, .fold identity acc) ::
        (loopNodes (Callable.reductionLoops t.right) ++ chain')) where
  takes := .fold (takes_loops below.takes (Callable.length_srcStride_reductionLoops t.left))
  takes' := .fold (takes_loops below.takes' (Callable.length_srcStride_reductionLoops t.right))
  batch_eq := rfl
  inStep := by
    intro f g g' id a addresses handed handed' continues continues' behind served
    obtain ⟨p, _, first, nothing, rfl⟩ := List.forall₂_cons_right_iff.mp served
    obtain rfl := List.forall₂_nil_right_iff.mp nothing
    have loops := takes_loops below.takes (Callable.length_srcStride_reductionLoops t.left)
    have loops' := takes_loops below.takes' (Callable.length_srcStride_reductionLoops t.right)
    obtain ⟨found, ⟨child, there, -⟩, nest⟩ := continues.parent loops
    obtain ⟨found', ⟨child', there', -⟩, nest'⟩ := continues'.parent loops'
    have rest := nest.of_append
    have rest' := nest'.of_append
    rw [List.length_map, Callable.reductionLoops, List.length_map, List.length_zipIdx] at rest rest'
    rw [t.ty_eq] at rest'
    have each : Run.InStep f Eq (g.settled.single (id + 1) a [p.1]) (g'.settled.single (id + 1) a [p.2]) := by
      rw [CallGraph.settled_single_reductionLoops handed below.takes nest t.leftConcrete.fits,
        CallGraph.settled_single_reductionLoops handed' below.takes' nest' t.rightConcrete.fits, t.ty_eq,
        reached_congr below.batch_eq]
      refine Run.inStep_forM fun index member => ?_
      have inside := isIndex_of_mem_reached member
      rw [← List.take_length (l := t.left.ty.shape)] at inside
      have element := first.inner (Nat.le_refl _) left right inside
      rw [← t.leftConcrete.fits, List.take_length, t.leftConcrete.fits, ← t.ty_eq, ← t.rightConcrete.fits,
        List.take_length] at element
      have served : List.Forall₂ (fun p (t : LayoutPair) => t.Throughout f.Serves p.1 p.2)
          [(p.1.advance (Layout.displacement index t.left.strides),
            p.2.advance (Layout.displacement index t.right.strides))] [inner] := .cons element .nil
      have reached := below.inStep handed handed' rest rest' behind served
      exact reached
    have present : g.child id ⟨.fold, .fold identity acc, [id + 1]⟩ 0 = .ok (id + 1) :=
      CallGraph.child_of_getElem? rfl there
    have present' : g'.child id ⟨.fold, .fold identity acc, [id + 1]⟩ 0 = .ok (id + 1) :=
      CallGraph.child_of_getElem? rfl there'
    rw [(CallGraph.settled_eq handed.descends found).1, (CallGraph.settled_eq handed'.descends found').1]
    refine Run.inStep_within _ ?_
    simp only [Node.runSingle, present, present', Run.ofExcept_ok, pure_bind]
    cases identity with
    | none => exact each
    | some s => exact Run.inStep_bind_eq (Run.inStep_store behind acc s) fun _ => each

end Chain

/-! ## Outlines -/

namespace Outline

/-- Both outlines have no end, or fail with one error, or come to chains that are related. -/
def InStep (R : Chain → Chain → Prop) (o o' : Outline) : Prop := Option.Rel (Alike R) o.run o'.run

variable {Q R : Chain → Chain → Prop} {o o' : Outline}

theorem inStep_endless : InStep R endless endless := .none

theorem inStep_throw (e : CallError) : InStep R (throw e) (throw e) := .some (.error e)

theorem inStep_pure {chain chain' : Chain} (related : R chain chain') : InStep R (pure chain) (pure chain') :=
  .some (.ok related)

theorem inStep_ofExcept_bind {α : Type} {S : α → α → Prop} {x x' : Except CallError α} {next next' : α → Outline}
    (alike : Alike S x x') (later : ∀ a a', S a a' → InStep R (next a) (next' a')) :
    InStep R (ofExcept x >>= next) (ofExcept x' >>= next') := by
  cases alike with
  | error e => exact inStep_throw e
  | ok related => exact later _ _ related

/-- What is computed from types alone is the same on both sides. -/
theorem inStep_ofExcept_bind_self {α : Type} {x : Except CallError α} {next next' : α → Outline}
    (later : ∀ a, x = .ok a → InStep R (next a) (next' a)) : InStep R (ofExcept x >>= next) (ofExcept x >>= next') := by
  cases x with
  | error e => exact inStep_throw e
  | ok a => exact later a rfl

theorem inStep_adapt (onError : CallError → CallError) (inStep : InStep R o o') :
    InStep R (ExceptT.adapt onError o) (ExceptT.adapt onError o') := by
  change Option.Rel (Alike R) o o' at inStep
  cases inStep with
  | none => exact inStep_endless
  | some alike =>
    cases alike with
    | error e => exact inStep_throw (onError e)
    | ok related => exact inStep_pure related

theorem inStep_above {first first' : Kernel × NodeData} {rest rest' : List (Kernel × NodeData)}
    (onError : CallError → CallError) (inStep : InStep Q o o')
    (under : ∀ chain chain', Q chain chain' → R (chain.under first rest) (chain'.under first' rest')) :
    InStep R (above first rest o onError) (above first' rest' o' onError) := by
  change Option.Rel (Alike Q) o o' at inStep
  cases inStep with
  | none => exact inStep_endless
  | some alike =>
    cases alike with
    | error e => exact inStep_throw (onError e)
    | ok related => exact inStep_pure (under _ _ related)

theorem inStep_underLoops {loops loops' : List DimLoop} (onError : CallError → CallError) (inStep : InStep Q o o') :
    loops'.length = loops.length →
    (∀ chain chain', Q chain chain' → R (chain.underLoops loops) (chain'.underLoops loops')) →
    InStep R
      (match loops with
        | [] => ExceptT.adapt onError o
        | outermost :: loops => above (.loop, .loop outermost) (loops.map fun l => (.loop, .loop l)) o onError)
      (match loops' with
        | [] => ExceptT.adapt onError o'
        | outermost :: loops => above (.loop, .loop outermost) (loops.map fun l => (.loop, .loop l)) o' onError) := by
  intro length under
  cases loops with
  | nil =>
    obtain rfl := List.eq_nil_of_length_eq_zero length
    change Option.Rel (Alike Q) o o' at inStep
    refine inStep_adapt onError ?_
    cases inStep with
    | none => exact inStep_endless
    | some alike => exact .some (alike.imp fun chain chain' _ _ related => under chain chain' related)
  | cons outermost loops =>
    obtain ⟨outermost', loops', rfl⟩ := List.exists_cons_of_length_eq_add_one length
    exact inStep_above onError inStep under

end Outline

/-! ## Callables -/

namespace Callable

variable {c child : Callable} {dst : Layout}

theorem alike_liftSource (c : Callable) (outer index : Nat) (t : LayoutPair) (param : Ty) :
    Alike (fun part part' => ∃ s : LiftedPair outer, s.pair = t ∧ (s.own, s.behind.left) = part ∧
        (s.own, s.behind.right) = part')
      (c.liftSource outer index t.left param) (c.liftSource outer index t.right param) := by
  simp only [liftSource, t.ty_eq]
  split
  next => exact .error _
  next fits =>
    rw [not_or] at fits
    have within : t.left.ty.shape.length - param.ownDims ≤ t.left.ty.shape.length := Nat.sub_le _ _
    obtain ⟨behind, left, right⟩ := t.exists_inner within
    simp only [left, right]
    exact .ok ⟨⟨t, _, behind, within, Nat.le_of_not_lt fits.2, left, right⟩, rfl, rfl, rfl⟩

theorem alike_liftPlan (c : Callable) (dst : Layout) {src : List LayoutPair} (arity : src.length = child.arity) :
    Alike (fun plan plan' => ∃ (outer : Nat) (inner : Layout) (sources : List (LiftedPair outer)),
        sources.map (·.pair) = src ∧ outer ≤ dst.ty.shape.length ∧ dst.inner? outer = some inner ∧
          plan = ⟨outer, sources.map (·.own), inner, sources.map (·.behind.left)⟩ ∧
          plan' = ⟨outer, sources.map (·.own), inner, sources.map (·.behind.right)⟩)
      (c.liftPlan child dst (src.map (·.left))) (c.liftPlan child dst (src.map (·.right))) := by
  simp only [liftPlan]
  split
  next => exact .error _
  next =>
    have within := Nat.sub_le dst.ty.shape.length child.signature.ret.ownDims
    generalize dst.ty.shape.length - child.signature.ret.ownDims = outer at within ⊢
    have sides : ∀ side : LayoutPair → Layout, ((src.map side).zip child.signature.params).zipIdx.mapM
          (fun x => c.liftSource outer x.2 x.1.1 x.1.2) =
        (src.zip child.signature.params).zipIdx.mapM fun x => c.liftSource outer x.2 (side x.1.1) x.1.2 := by
      intro side
      rw [List.zip_map_left, List.zipIdx_map, List.mapM_map]
      rfl
    have parts := alike_mapM fun x (_ : x ∈ (src.zip child.signature.params).zipIdx) =>
      alike_liftSource c outer x.2 x.1.1 x.1.2
    rw [map_fst_zipIdx_zip (Nat.le_of_eq arity)] at parts
    rw [sides, sides]
    refine parts.bind fun parts parts' split => ?_
    obtain ⟨sources, pairs, rfl, rfl⟩ := split
    split
    next inner found =>
      refine .ok ⟨outer, inner, sources, pairs, within, found, ?_, ?_⟩
      · simp only [List.map_map, Function.comp_def]
      · simp only [List.map_map, Function.comp_def]
    next => exact .error _

/-- Whether a source stretches to a loop is a matter of its type. -/
theorem alike_loopStride (c : Callable) (outer d extent index own : Nat) (t : LayoutPair) :
    Alike (fun _ _ => True) (c.loopStride outer d extent index own t.left)
      (c.loopStride outer d extent index own t.right) := by
  simp only [loopStride, t.ty_eq]
  split
  · exact .ok trivial
  split
  · exact .ok trivial
  split
  · exact .ok trivial
  · exact .error _

theorem alike_loopNest {outer : Nat} {sources : List (LiftedPair outer)} (within : outer ≤ dst.ty.shape.length) :
    Alike (fun loops loops' =>
        loops = loopsOver (dst.ty.shape.take outer) (dst.outer outer) (sources.map (·.left.front)) ∧
        loops' = loopsOver (dst.ty.shape.take outer) (dst.outer outer) (sources.map (·.right.front)) ∧
        ∀ s ∈ sources, Broadcast.Stretches s.left.front.ty.shape (dst.ty.shape.take outer))
      (c.loopNest outer (sources.map (·.own)) dst (sources.map (·.pair.left)))
      (c.loopNest outer (sources.map (·.own)) dst (sources.map (·.pair.right))) := by
  have nests : Alike (fun _ _ => True) (c.loopNest outer (sources.map (·.own)) dst (sources.map (·.pair.left)))
      (c.loopNest outer (sources.map (·.own)) dst (sources.map (·.pair.right))) := by
    refine alike_mapM_of_alike fun level _ => Alike.bind (R := fun _ _ => True) ?_ fun _ _ _ => .ok trivial
    rw [List.zip_map', List.zip_map', List.zipIdx_map, List.zipIdx_map, List.mapM_map, List.mapM_map]
    exact alike_mapM_of_alike fun s _ => alike_loopStride c outer level.2 level.1 s.2 s.1.own s.1.pair
  refine nests.imp fun loops loops' nested nested' _ => ?_
  have left : (sources.map (·.left)).map (·.own) = sources.map (·.own) ∧
      (sources.map (·.left)).map (·.layout) = sources.map (·.pair.left) := by
    rw [List.map_map, List.map_map]
    exact ⟨rfl, rfl⟩
  have right : (sources.map (·.right)).map (·.own) = sources.map (·.own) ∧
      (sources.map (·.right)).map (·.layout) = sources.map (·.pair.right) := by
    rw [List.map_map, List.map_map]
    exact ⟨rfl, rfl⟩
  rw [← left.1, ← left.2] at nested
  rw [← right.1, ← right.2] at nested'
  obtain ⟨rfl, stretches⟩ := of_loopNest_eq_ok within nested
  obtain ⟨rfl, -⟩ := of_loopNest_eq_ok within nested'
  rw [List.map_map, List.map_map]
  exact ⟨rfl, rfl, fun s member => stretches _ (List.mem_map_of_mem member)⟩

theorem alike_reductionPlan (c : Callable) (dst : Layout) (t : LayoutPair) :
    Alike (fun plan plan' => ∃ (acc : Kind) (inner : LayoutPair),
        t.left.inner? t.left.ty.shape.length = some inner.left ∧
        t.right.inner? t.left.ty.shape.length = some inner.right ∧ plan = (acc, inner.left) ∧
          plan' = (acc, inner.right))
      (c.reductionPlan dst t.left) (c.reductionPlan dst t.right) := by
  obtain ⟨inner, left, right⟩ := t.exists_inner (Nat.le_refl _)
  rw [reductionPlan, reductionPlan, t.ty_eq, left, right]
  split
  · exact .error _
  · exact .ok ⟨_, inner, rfl, rfl, rfl, rfl⟩

/-! ## Instantiation -/

/-- For layouts of one type on both sides there is the same end, with two chains that are in step if there is any. -/
def StaysInStep (outlined : Layout → List Layout → Outline) : Prop :=
  ∀ {dst : Layout}, dst.Concrete → ∀ src : List LayoutPair,
    Outline.InStep (fun chain chain' => Chain.InStep src chain.toList chain'.toList)
      (outlined dst (src.map (·.left))) (outlined dst (src.map (·.right)))

variable {os : Overloads} {kwds : Keywords} {jump : OutlineJump} {stamp : Nat}

theorem staysInStep_leaf {name : String} {sig : Signature} {kernel : Leaf} (fits : kernel.Typed sig) :
    StaysInStep ((leaf stamp name sig kernel).outlineNode os kwds jump) := by
  intro dst concrete src
  rw [outlineNode_leaf, outlineNode_leaf]
  simp only [LayoutPair.map_ty_right, List.length_map]
  refine Outline.inStep_ofExcept_bind_self fun _ arity => Outline.inStep_ofExcept_bind_self fun plan planned => ?_
  obtain ⟨kernel, data, conversions⟩ := plan
  have arity : src.length = sig.arity := checkArity_eq_ok_iff.mp arity
  obtain ⟨kinds, given, want, sources, -, operands, rfl⟩ := fits (by simpa using arity) planned
  rw [List.map_map] at sources
  exact Outline.inStep_pure (Chain.inStep_ofLeaf operands sources)

section

variable (jumps : ∀ o ∈ os, StaysInStep (jump o.target))
include jumps

/-- Overloads are found by types. -/
theorem inStep_match_find? (child : Callable) {itself : Layout → List Layout → Outline} (stays : StaysInStep itself)
    {dst : Layout} (concrete : dst.Concrete) (src : List LayoutPair) :
    Outline.InStep (fun chain chain' => Chain.InStep src chain.toList chain'.toList)
      (match os.find? child dst.ty ((src.map (·.left)).map (·.ty)) with
        | none => itself dst (src.map (·.left))
        | some other => jump other dst (src.map (·.left)))
      (match os.find? child dst.ty ((src.map (·.right)).map (·.ty)) with
        | none => itself dst (src.map (·.right))
        | some other => jump other dst (src.map (·.right))) := by
  rw [LayoutPair.map_ty_right]
  cases found : os.find? child dst.ty ((src.map (·.left)).map (·.ty)) with
  | none => exact stays concrete src
  | some other =>
    obtain ⟨o, member, -, rfl⟩ := Overloads.mem_of_find? found
    exact jumps o member concrete src

theorem staysInStep_dispatch {name : String} {sig : Signature} {table : Dispatcher Callable}
    (entries : ∀ e ∈ table.entries, StaysInStep (e.2.outlineNode os kwds jump)) :
    StaysInStep ((dispatch stamp name sig table).outlineNode os kwds jump) := by
  intro dst concrete src
  rw [outlineNode_dispatch, outlineNode_dispatch]
  simp only [LayoutPair.map_ty_right, List.length_map]
  refine Outline.inStep_ofExcept_bind_self fun _ _ => ?_
  cases found : table.dispatch (((src.map (·.left)).map (·.ty)).map Ty.typeId) with
  | error position => exact Outline.inStep_throw _
  | ok target =>
    obtain ⟨key, member⟩ := Dispatcher.exists_mem_of_dispatch found
    have chosen := inStep_match_find? jumps target (entries (key, target) member) concrete src
    rwa [LayoutPair.map_ty_right] at chosen

theorem staysInStep_permute {slots : List Int} (fit : SlotsFit slots child.arity)
    (below : StaysInStep (child.outlineNode os kwds jump)) :
    StaysInStep ((permute stamp child slots).outlineNode os kwds jump) := by
  intro dst concrete src
  rw [outlineNode_permute, outlineNode_permute]
  simp only [List.length_map]
  refine Outline.inStep_ofExcept_bind_self fun _ arity => ?_
  have arity := checkArity_eq_ok_iff.mp arity
  have inside := fit.lt_of_arity arity
  rw [arity_permute] at arity
  have sides : ∀ side : LayoutPair → Layout, side (.twice dst concrete) = dst →
      slots.filterMap (fun j => if j < 0 then some dst else (src.map side)[j.toNat]?) =
        (slots.map (Node.slotAt (.twice dst concrete) src)).map side := by
    intro side same
    rw [filterMap_slots dst (by simpa using inside), map_slots side inside, same]
  rw [sides (·.left) rfl, sides (·.right) rfl]
  refine Outline.inStep_above _ ?_ fun chain chain' below => Chain.inStep_permute concrete arity inside below
  exact inStep_match_find? jumps child below concrete _

theorem staysInStep_lift {types : Option (List Ty)} (lengths : ∀ ts ∈ types, ts.length = child.arity)
    (below : StaysInStep (child.outlineNode os kwds jump)) :
    StaysInStep ((lift stamp child types).outlineNode os kwds jump) := by
  intro dst concrete src
  rw [outlineNode_lift, outlineNode_lift]
  simp only [List.length_map]
  refine Outline.inStep_ofExcept_bind_self fun _ arity => ?_
  have arity := checkArity_eq_ok_iff.mp arity
  rw [arity_lift lengths] at arity
  refine Outline.inStep_ofExcept_bind (alike_liftPlan _ dst arity) fun plan plan' planned => ?_
  obtain ⟨outer, inner, sources, rfl, within, found, rfl, rfl⟩ := planned
  have innerConcrete := (concrete.of_inner? within found).1
  have handed := inStep_match_find? jumps child below innerConcrete (sources.map (·.behind))
  simp only [List.map_map, Function.comp_def] at handed ⊢
  refine Outline.inStep_ofExcept_bind (alike_loopNest within) fun loops loops' nested => ?_
  obtain ⟨rfl, rfl, stretches⟩ := nested
  have length : (loopsOver (dst.ty.shape.take outer) (dst.outer outer) (sources.map (·.right.front))).length =
      (loopsOver (dst.ty.shape.take outer) (dst.outer outer) (sources.map (·.left.front))).length := by
    simp [loopsOver]
  refine Outline.inStep_underLoops _ handed length fun chain chain' below => ?_
  rw [Chain.toList_underLoops, Chain.toList_underLoops]
  exact Chain.inStep_lift concrete stretches below

theorem staysInStep_reduce {fold : Callable} {identity : Option Scalar}
    (below : StaysInStep (fold.outlineNode os kwds jump)) :
    StaysInStep ((reduce stamp fold identity).outlineNode os kwds jump) := by
  intro dst concrete src
  rw [outlineNode_reduce, outlineNode_reduce]
  simp only [List.length_map]
  refine Outline.inStep_ofExcept_bind_self fun _ arity => ?_
  obtain ⟨t, rfl⟩ := List.length_eq_one_iff.mp (checkArity_eq_ok_iff.mp arity)
  simp only [List.map_cons, List.map_nil, List.headD_cons]
  refine Outline.inStep_ofExcept_bind (alike_reductionPlan _ dst t) fun plan plan' planned => ?_
  obtain ⟨acc, inner, left, right, rfl, rfl⟩ := planned
  refine Outline.inStep_above _ ?_ fun chain chain' below => Chain.inStep_reduce left right below
  exact inStep_match_find? jumps fold below concrete [inner]

theorem staysInStep_outlineNode (typed : c.Formed Leaf.Typed fun _ => True) :
    StaysInStep (c.outlineNode os kwds jump) := by
  induction typed with
  | leaf fits elements => exact staysInStep_leaf fits
  | dispatch arities entries inductionHypothesis => exact staysInStep_dispatch jumps inductionHypothesis
  | permute fit below inductionHypothesis => exact staysInStep_permute jumps fit inductionHypothesis
  | lift fits shaped below inductionHypothesis =>
    exact staysInStep_lift jumps (fun ts given => (shaped ts given).1) inductionHypothesis
  | reduce below inductionHypothesis => exact staysInStep_reduce jumps inductionHypothesis

end

theorem staysInStep_outlineWithin (targets : ∀ o ∈ os, o.target.Formed Leaf.Typed fun _ => True) (jumps : Nat)
    (typed : c.Formed Leaf.Typed fun _ => True) : StaysInStep (outlineWithin os kwds jumps c) := by
  induction jumps generalizing c with
  | zero => exact fun _ _ => Outline.inStep_endless
  | succ jumps inductionHypothesis =>
    exact staysInStep_outlineNode (fun o member => inductionHypothesis (targets o member)) typed

/-- For layouts of one type a callable comes to the same end, with two chains that are in step if it comes to any. -/
theorem outline_inStep (targets : ∀ o ∈ os, o.target.Formed Leaf.Typed fun _ => True)
    (typed : c.Formed Leaf.Typed fun _ => True) (concrete : dst.Concrete) (src : List LayoutPair) (kwds : Keywords) :
    Outline.InStep (fun chain chain' => Chain.InStep src chain.toList chain'.toList)
      (outline os c dst (src.map (·.left)) kwds) (outline os c dst (src.map (·.right)) kwds) := by
  have jumps : ∀ o ∈ os, StaysInStep (outlineWithin os kwds os.length o.target) :=
    fun o member => staysInStep_outlineWithin targets os.length (targets o member)
  exact inStep_match_find? jumps c (staysInStep_outlineNode jumps typed) concrete src

end Callable

end ArrayCall
