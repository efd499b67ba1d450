import ArrayCall.Proofs.Callable.Built
import ArrayCall.Proofs.Instantiation.Outline

/-!
# Paths of instantiation

Instantiation goes down one path: from a callable, or the overload that stands in for it, to the one
child that it has instantiated, with the layouts of that child (`Site.Comes`). A path recurs if it comes
to an overloaded callable for the types of the overload and, below it, to the same callable for the same
types again (`Site.Recurs`).

The overloads taken on a path that never recurs are all different, so there are as many jumps as it needs
(`Site.ends_of_not_recurs`).
-/

namespace ArrayCall

/-! ## Paths -/

/-- A callable, with layouts that it is to be instantiated for. -/
structure Site where
  callable : Callable
  dst : Layout
  src : List Layout

namespace Callable

/-- A callable has a child instantiated, with the layouts of that child. There is none below a leaf, and
none where a callable fails before it comes to its child. -/
inductive Below : Callable → (dst : Layout) → (src : List Layout) → Site → Prop
  | dispatch {stamp : Nat} {name : String} {sig : Signature} {table : Dispatcher Callable} {target : Callable}
      {dst : Layout} {src : List Layout} (arity : src.length = (Callable.dispatch stamp name sig table).arity)
      (selected : table.dispatch ((src.map (·.ty)).map Ty.typeId) = .ok target) :
      Below (.dispatch stamp name sig table) dst src ⟨target, dst, src⟩
  | permute {stamp : Nat} {child : Callable} {slots : List Int} {dst : Layout} {src : List Layout}
      (arity : src.length = (Callable.permute stamp child slots).arity) :
      Below (.permute stamp child slots) dst src
        ⟨child, dst, slots.filterMap fun j => if j < 0 then some dst else src[j.toNat]?⟩
  | lift {stamp : Nat} {child : Callable} {types : Option (List Ty)} {dst : Layout} {src : List Layout}
      {plan : LiftPlan} {loops : List DimLoop} (arity : src.length = (Callable.lift stamp child types).arity)
      (planned : (Callable.lift stamp child types).liftPlan child dst src = .ok plan)
      (nested : (Callable.lift stamp child types).loopNest plan.outer plan.own dst src = .ok loops) :
      Below (.lift stamp child types) dst src ⟨child, plan.dst, plan.src⟩
  | reduce {stamp : Nat} {fold : Callable} {identity : Option Scalar} {dst inner : Layout} {src : List Layout}
      {acc : Kind} (arity : src.length = (Callable.reduce stamp fold identity).arity)
      (planned : (Callable.reduce stamp fold identity).reductionPlan dst (src.headD ⟨.void, []⟩) = .ok (acc, inner)) :
      Below (.reduce stamp fold identity) dst src ⟨fold, dst, [inner]⟩

end Callable

namespace Site

/-- The types that an overload must be registered for. -/
def args (s : Site) : List Ty := s.src.map (·.ty)

/-- There is an overload of the callable for just these types. -/
def Overloaded (os : Overloads) (s : Site) : Prop := (os.find? s.callable s.dst.ty s.args).isSome

/-- The same callable is to be instantiated for the same types. -/
structure Again (s t : Site) : Prop where
  stamp_eq : t.callable.stamp = s.callable.stamp
  dst_eq : t.dst.ty = s.dst.ty
  args_eq : t.args = s.args

/-- To instantiate the first callable, or the overload that stands in for it, is to instantiate the
second one below it. -/
def Comes (os : Overloads) (s t : Site) : Prop :=
  (os.specialize s.callable s.dst.ty s.args).Below s.dst s.src t

/-- On the way from a callable downwards an overload is taken, and below it the overloaded callable is
come to for the same types again. -/
def Recurs (os : Overloads) (start : Site) : Prop :=
  ∃ s t, Relation.ReflTransGen (Comes os) start s ∧ s.Overloaded os ∧ Relation.TransGen (Comes os) s t ∧ s.Again t

/-- What instantiation comes to at a site. -/
def outline (os : Overloads) (kwds : Keywords) (jumps : Nat) (s : Site) : Outline :=
  s.callable.writeWithin Outline.writer os kwds jumps s.dst s.src

end Site

/-! ## One step -/

namespace Outline

/-- There is an end, with a chain or with an error. -/
def Ends (o : Outline) : Prop := o.run.isSome

theorem ends_pure (chain : Chain) : Ends (pure chain) := rfl

theorem ends_ofExcept_bind_iff {α : Type} {x : Except CallError α} {next : α → Outline} :
    Ends (ofExcept x >>= next) ↔ ∀ a, x = .ok a → (next a).Ends := by
  cases x with
  | error e => exact iff_of_true rfl fun _ ran => nomatch ran
  | ok a =>
    constructor
    · intro ends a' same
      cases same
      exact ends
    · intro ends
      exact ends a rfl

theorem ends_adapt_iff {o : Outline} {f : CallError → CallError} : Ends (ExceptT.adapt f o) ↔ o.Ends := by
  rcases o with _ | _ | chain
  · exact Iff.rfl
  · exact iff_of_true rfl rfl
  · exact iff_of_true rfl rfl

theorem ends_above_iff {first : Kernel × NodeData} {rest : List (Kernel × NodeData)} {child : Outline}
    {onError : CallError → CallError} : (above first rest child onError).Ends ↔ child.Ends := by
  rcases child with _ | _ | chain
  · exact Iff.rfl
  · exact iff_of_true rfl rfl
  · exact iff_of_true rfl rfl

end Outline

namespace Callable

variable {os : Overloads} {kwds : Keywords} {c : Callable} {dst : Layout} {src : List Layout}

/-- A child is smaller than its callable. -/
theorem Below.sizeOf_lt {s : Site} (below : c.Below dst src s) : sizeOf s.callable < sizeOf c := by
  cases below with
  | dispatch arity selected =>
    have smaller := sizeOf_dispatch_lt selected
    simp only [Callable.dispatch.sizeOf_spec]
    omega
  | permute | lift | reduce => decreasing_tactic

/-- The nodes of a callable have an end just if those of its child have one. -/
theorem ends_outlineNode_iff {jumps : Nat} :
    (c.outlineNode os kwds (outlineWithin os kwds jumps) dst src).Ends ↔
      ∀ s, c.Below dst src s → (s.outline os kwds jumps).Ends := by
  cases c with
  | leaf stamp name sig kernel =>
    rw [outlineNode_leaf]
    refine iff_of_true (Outline.ends_ofExcept_bind_iff.mpr fun _ _ => ?_) nofun
    exact Outline.ends_ofExcept_bind_iff.mpr fun plan _ => Outline.ends_pure (.ofLeaf plan)
  | dispatch stamp name sig table =>
    rw [outlineNode_dispatch, Outline.ends_ofExcept_bind_iff]
    constructor
    · intro ends _ below
      cases below with | dispatch arity selected =>
      have ends := ends () (checkArity_eq_ok_iff.mpr arity)
      rw [selected] at ends
      exact ends
    · intro ends _ checked
      cases selected : table.dispatch ((src.map (·.ty)).map Ty.typeId) with
      | error position => rfl
      | ok target => exact ends _ (.dispatch (checkArity_eq_ok_iff.mp checked) selected)
  | permute stamp child slots =>
    rw [outlineNode_permute, Outline.ends_ofExcept_bind_iff]
    constructor
    · intro ends _ below
      cases below with | permute arity =>
      exact Outline.ends_above_iff.mp (ends () (checkArity_eq_ok_iff.mpr arity))
    · exact fun ends _ checked => Outline.ends_above_iff.mpr (ends _ (.permute (checkArity_eq_ok_iff.mp checked)))
  | lift stamp child types =>
    rw [outlineNode_lift, Outline.ends_ofExcept_bind_iff]
    constructor
    · intro ends _ below
      cases below with | lift arity planned nested =>
      have ends := Outline.ends_ofExcept_bind_iff.mp (ends () (checkArity_eq_ok_iff.mpr arity)) _ planned
      have ends := Outline.ends_ofExcept_bind_iff.mp ends _ nested
      split at ends
      next => exact Outline.ends_adapt_iff.mp ends
      next => exact Outline.ends_above_iff.mp ends
    · intro ends _ checked
      refine Outline.ends_ofExcept_bind_iff.mpr fun plan planned =>
        Outline.ends_ofExcept_bind_iff.mpr fun loops nested => ?_
      have below := ends _ (.lift (checkArity_eq_ok_iff.mp checked) planned nested)
      cases loops with
      | nil => exact Outline.ends_adapt_iff.mpr below
      | cons outermost loops => exact Outline.ends_above_iff.mpr below
  | reduce stamp fold identity =>
    rw [outlineNode_reduce, Outline.ends_ofExcept_bind_iff]
    constructor
    · intro ends _ below
      cases below with | reduce arity planned =>
      have ends := Outline.ends_ofExcept_bind_iff.mp (ends () (checkArity_eq_ok_iff.mpr arity)) _ planned
      exact Outline.ends_above_iff.mp ends
    · intro ends _ checked
      refine Outline.ends_ofExcept_bind_iff.mpr fun plan planned => Outline.ends_above_iff.mpr ?_
      exact ends _ (.reduce (checkArity_eq_ok_iff.mp checked) planned)

end Callable

namespace Site

variable {os : Overloads} {kwds : Keywords} {jumps : Nat} {s t : Site}

theorem outline_of_find? {other : Callable} (found : os.find? s.callable s.dst.ty s.args = some other) :
    s.outline os kwds jumps = Callable.outlineWithin os kwds jumps other s.dst s.src := by
  change os.find? s.callable s.dst.ty (s.src.map (·.ty)) = _ at found
  rw [outline, Callable.writeWithin, found]
  rfl

theorem outline_of_find?_eq_none (none : os.find? s.callable s.dst.ty s.args = none) :
    s.outline os kwds jumps = s.callable.outlineNode os kwds (Callable.outlineWithin os kwds jumps) s.dst s.src := by
  change os.find? s.callable s.dst.ty (s.src.map (·.ty)) = _ at none
  rw [outline, Callable.writeWithin, none]
  rfl

/-! ## Paths that do not recur -/

theorem Again.find?_eq (again : s.Again t) :
    os.find? t.callable t.dst.ty t.args = os.find? s.callable s.dst.ty s.args := by
  rw [Overloads.find?, Overloads.find?, again.stamp_eq, again.dst_eq, again.args_eq]

/-- What an overload is looked up by. -/
def key (s : Site) : Nat × Ty × List Ty := (s.callable.stamp, s.dst.ty, s.args)

theorem again_of_key_eq (same : s.key = t.key) : s.Again t := by
  obtain ⟨stamp, types⟩ := Prod.mk.inj same
  obtain ⟨dst, args⟩ := Prod.mk.inj types
  exact ⟨stamp.symm, dst.symm, args.symm⟩

theorem key_mem_of_find? {other : Callable} (found : os.find? s.callable s.dst.ty s.args = some other) :
    s.key ∈ os.map fun o => (o.subject, o.ret, o.args) := by
  obtain ⟨o, first, rfl⟩ := Option.map_eq_some_iff.mp found
  have test := List.find?_some first
  simp only [Bool.and_eq_true, beq_iff_eq] at test
  obtain ⟨⟨subject, ret⟩, args⟩ := test
  exact List.mem_map.mpr ⟨o, List.mem_of_find?_eq_some first, by rw [subject, ret, args, key]⟩

/-- Jumps do not run out where nothing recurs. `taken` says by what the overloads taken on the way to a
site were found; each was found once, and there are as many jumps left as there are others. -/
theorem ends_of_not_recurs {start : Site} (never : ¬start.Recurs os) {taken : List (Nat × Ty × List Ty)} (s : Site)
    (jumps : Nat) (reached : Relation.ReflTransGen (Comes os) start s) (distinct : taken.Nodup)
    (known : taken ⊆ os.map fun o => (o.subject, o.ret, o.args))
    (led : ∀ k ∈ taken, ∃ a, Relation.ReflTransGen (Comes os) start a ∧ a.Overloaded os ∧
      Relation.TransGen (Comes os) a s ∧ a.key = k)
    (enough : os.length ≤ jumps + taken.length) : (s.outline os kwds jumps).Ends := by
  have on : ∀ t, Comes os s t → ∀ k ∈ taken, ∃ a, Relation.ReflTransGen (Comes os) start a ∧ a.Overloaded os ∧
      Relation.TransGen (Comes os) a t ∧ a.key = k := by
    intro t comes k old
    obtain ⟨a, before, overloaded, between, same⟩ := led k old
    exact ⟨a, before, overloaded, between.tail comes, same⟩
  cases found : os.find? s.callable s.dst.ty s.args with
  | none =>
    rw [outline_of_find?_eq_none found, Callable.ends_outlineNode_iff]
    intro t below
    have comes : Comes os s t := by rwa [Comes, Overloads.specialize, found]
    have := below.sizeOf_lt
    exact ends_of_not_recurs never t jumps (reached.tail comes) distinct known (on t comes) enough
  | some other =>
    have overloaded : s.Overloaded os := by rw [Overloaded, found]; rfl
    -- An overload that was taken before would be taken again within itself.
    have new : s.key ∉ taken := by
      intro old
      obtain ⟨a, before, first, between, same⟩ := led _ old
      exact never ⟨a, s, before, first, between, again_of_key_eq same⟩
    have subset := List.cons_subset.mpr ⟨key_mem_of_find? found, known⟩
    have nodup := List.nodup_cons.mpr ⟨new, distinct⟩
    have room := (List.subperm_of_subset nodup subset).length_le
    rw [List.length_map, List.length_cons] at room
    obtain ⟨left, rfl⟩ : ∃ left, jumps = left + 1 := ⟨jumps - 1, by omega⟩
    rw [outline_of_find? found, Callable.outlineWithin_succ, Callable.ends_outlineNode_iff]
    intro t below
    have comes : Comes os s t := by rwa [Comes, Overloads.specialize, found]
    apply ends_of_not_recurs never t left (reached.tail comes) nodup subset
    · intro k member
      rcases List.mem_cons.mp member with rfl | old
      · exact ⟨s, reached, overloaded, .single comes, rfl⟩
      · exact on t comes k old
    · rw [List.length_cons]
      omega
termination_by (jumps, sizeOf s.callable)

/-- A site from which nothing recurs has an end. -/
theorem outline_ends_of_not_recurs (never : ¬s.Recurs os) : (s.outline os kwds os.length).Ends :=
  ends_of_not_recurs never s os.length .refl List.nodup_nil (List.nil_subset _) (fun _ none => nomatch none)
    (Nat.le_refl _)

end Site

end ArrayCall
