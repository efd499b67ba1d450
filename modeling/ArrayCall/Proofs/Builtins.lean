import ArrayCall.Proofs.DispatchTables
import ArrayCall.Proofs.Elements
import ArrayCall.Proofs.Resolution.Instantiates

/-!
# Arithmetic over every kind

The table of an operation has one leaf for each numeric kind (`Builtins.binaryDispatch_eq`). What it
finds for two kinds without fractions is the leaf of an integer kind that both promote to
(`Builtins.of_resolve_binaryOver`), although floating kinds stand in the table too.
-/

namespace ArrayCall

theorem Kind.isInteger_of_mem_numeric {k : Kind} (member : k ∈ Kind.numeric) (discrete : k.isFloat = false) :
    k.IsInteger := by
  have all : ∀ k ∈ Kind.numeric, k.isFloat = false → k.IsInteger := by decide
  exact all k member discrete

namespace Builtins

/-- The leaf of an operation for one kind. -/
def binaryLeaf (op : BinaryOp) (stamp : Nat) (k : Kind) : Callable :=
  .leaf stamp (nameFor op.name k.name) (uniform 2 (.scalar k)) ⟨.fixed (.binary op k), none⟩

/-- The leaves of an operation, narrowest first, with stamps from a number on. -/
def binaryTable (config : DispatchConfig) (op : BinaryOp) (stamp : Nat) : Dispatcher Callable where
  index := .ofDistinct (Kind.numeric.map fun k => [.scalar k, .scalar k]) (by decide)
  values := Kind.numeric.zipIdx.map fun (k, i) => binaryLeaf op (stamp + i) k
  config := config

theorem entries_binaryTable (config : DispatchConfig) (op : BinaryOp) (stamp : Nat) :
    (binaryTable config op stamp).entries =
      Kind.numeric.zipIdx.map fun (k, i) => ([.scalar k, .scalar k], binaryLeaf op (stamp + i) k) := rfl

/-- An operation over its leaves. -/
def binaryOver (config : DispatchConfig) (op : BinaryOp) (stamp : Nat) : Callable :=
  .dispatch (stamp + 10) op.name ⟨[.any, .any], [], .any⟩ (binaryTable config op stamp)

theorem binaryDispatch_eq (config : DispatchConfig) (op : BinaryOp) (stamp : Nat) :
    binaryDispatch config op stamp = .ok (binaryOver config op stamp, stamp + 11) := rfl

variable {config : DispatchConfig} {op : BinaryOp} {stamp : Nat} {ka kb kind : Kind}

/-- Whether the leaf of a kind takes an element of another. -/
def takesKind (promotion : Bool) (given want : Kind) : Bool := given = want || promotion && given.canPromoteTo want

theorem accepts_scalars (promotion : Bool) (ka kb want : Kind) :
    Dispatcher.accepts promotion [.scalar want, .scalar want] [.scalar ka, .scalar kb] =
      (takesKind promotion ka want && takesKind promotion kb want) := by
  simp [Dispatcher.accepts, takesKind, TypeId.canPromoteTo]

theorem canPromoteTo_of_takesKind {promotion : Bool} (takes : takesKind promotion ka kind) : ka.canPromoteTo kind := by
  simp only [takesKind, Bool.or_eq_true, decide_eq_true_eq, Bool.and_eq_true] at takes
  obtain rfl | ⟨-, promotes⟩ := takes
  · exact ka.canPromoteTo_self
  · exact promotes

/-- Of the kinds that two kinds without fractions promote to, the first one is an integer kind. -/
theorem isInteger_of_first (promotion : Bool) (leftDiscrete : ka.isFloat = false) (rightDiscrete : kb.isFloat = false)
    (first : Kind.numeric.find? (fun k => takesKind promotion ka k && takesKind promotion kb k) = some kind) :
    kind.IsInteger := by
  have all : ∀ promotion, ∀ ka ∈ Kind.all, ∀ kb ∈ Kind.all, ka.isFloat = false → kb.isFloat = false →
      (Kind.numeric.find? fun k => takesKind promotion ka k && takesKind promotion kb k).all fun k =>
        k.IsInteger := by
    decide +kernel
  have integer := all promotion ka ka.mem_all kb kb.mem_all leftDiscrete rightDiscrete
  rw [first] at integer
  simpa using integer

theorem of_find?_binaryTable {test : DispatchKey × Callable → Bool} {e : DispatchKey × Callable}
    (found : (binaryTable config op stamp).entries.find? test = some e) :
    ∃ i < 10, ∃ kind, e = ([.scalar kind, .scalar kind], binaryLeaf op (stamp + i) kind) ∧ test e ∧
      ∀ fits : Kind → Bool, (∀ k c, test ([.scalar k, .scalar k], c) = fits k) →
        Kind.numeric.find? fits = some kind := by
  rw [entries_binaryTable, List.find?_map, Option.map_eq_some_iff] at found
  obtain ⟨⟨kind, i⟩, first, rfl⟩ := found
  have fits := List.find?_some first
  refine ⟨i, List.snd_lt_of_mem_zipIdx (List.mem_of_find?_eq_some first), kind, rfl, fits, fun fits same => ?_⟩
  -- The stamps of the leaves do not matter to the search, so it is a search of the kinds alone.
  have kinds : Kind.numeric.zipIdx.find? (fits ∘ Prod.fst) = some (kind, i) := by
    rw [← first]
    congr 1
    funext ⟨k, j⟩
    exact (same k _).symm
  have all := List.find?_map (f := Prod.fst) (p := fits) (l := Kind.numeric.zipIdx)
  rw [List.zipIdx_map_fst, kinds] at all
  exact all

theorem of_dispatch_binaryTable {target : Callable} (leftDiscrete : ka.isFloat = false)
    (rightDiscrete : kb.isFloat = false)
    (found : (binaryTable config op stamp).dispatch [.scalar ka, .scalar kb] = .ok target) :
    ∃ i < 10, ∃ kind, target = binaryLeaf op (stamp + i) kind ∧ kind.IsInteger ∧ ka.canPromoteTo kind ∧
      kb.canPromoteTo kind := by
  rw [Dispatcher.dispatch] at found
  split at found
  next value same =>
    cases found
    rw [Dispatcher.find?_eq_find?_entries, Option.map_eq_some_iff] at same
    obtain ⟨e, same, rfl⟩ := same
    obtain ⟨i, few, kind, rfl, both, first⟩ := of_find?_binaryTable same
    obtain ⟨rfl, rfl⟩ : kind = ka ∧ kind = kb := by simpa using both
    have member := List.mem_of_find?_eq_some
      (first (fun k => TypeId.scalar k == .scalar kind) fun k c => by simp)
    refine ⟨i, few, kind, rfl, ?_, kind.canPromoteTo_self, kind.canPromoteTo_self⟩
    exact Kind.isInteger_of_mem_numeric member leftDiscrete
  next =>
    split at found
    next e first =>
      cases found
      obtain ⟨i, few, kind, rfl, takes, first⟩ := of_find?_binaryTable first
      rw [accepts_scalars, Bool.and_eq_true] at takes
      refine ⟨i, few, kind, rfl, ?_, canPromoteTo_of_takesKind takes.1, canPromoteTo_of_takesKind takes.2⟩
      exact isInteger_of_first _ leftDiscrete rightDiscrete (first _ fun k c => accepts_scalars _ ka kb k)
    next => cases found

/-- The kind that an operation is resolved to is that of the leaf that is dispatched to. -/
theorem of_resolveTypes_binaryOver {dst : Option Ty} {kwds : Keywords} {ret : Ty} (leftDiscrete : ka.isFloat = false)
    (rightDiscrete : kb.isFloat = false)
    (resolved : (binaryOver config op stamp).resolveTypes dst [.scalar ka, .scalar kb] kwds = .ok ret) :
    ∃ kind, ret = .scalar kind ∧ kind.IsInteger ∧ ka.canPromoteTo kind ∧ kb.canPromoteTo kind ∧
      ∃ i < 10, (binaryTable config op stamp).dispatch [.scalar ka, .scalar kb] =
        .ok (binaryLeaf op (stamp + i) kind) := by
  obtain ⟨-, target, found, below⟩ := Callable.resolveTypes_dispatch_eq_ok_iff.mp resolved
  obtain ⟨i, few, k, rfl, integer, left, right⟩ := of_dispatch_binaryTable leftDiscrete rightDiscrete found
  obtain ⟨-, -, b, b', -, -, result⟩ := Callable.resolveTypes_leaf_eq_ok_iff.mp below
  cases result
  exact ⟨k, rfl, integer, left, right, i, few, found⟩

theorem of_resolve_binaryOver (leftDiscrete : ka.isFloat = false) (rightDiscrete : kb.isFloat = false)
    (finds : (binaryOver config op stamp).resolve none [.scalar ka, .scalar kb] .empty = .ok (.scalar kind)) :
    (binaryOver config op stamp).resolveTypes none [.scalar ka, .scalar kb] .empty = .ok (.scalar kind) ∧
      kind.IsInteger ∧ ka.canPromoteTo kind ∧ kb.canPromoteTo kind ∧
      ∃ i < 10, (binaryTable config op stamp).dispatch [.scalar ka, .scalar kb] =
        .ok (binaryLeaf op (stamp + i) kind) := by
  obtain ⟨ret, resolved, delivers⟩ := Callable.of_resolve_eq_ok (by simp) finds
  obtain rfl := delivers.1 rfl
  obtain ⟨k, same, rest⟩ := of_resolveTypes_binaryOver leftDiscrete rightDiscrete resolved
  cases same
  exact ⟨resolved, rest⟩

/-- The kernel of a kind, behind a conversion of the arguments that are of another kind. -/
def binaryPlan (op : BinaryOp) (ka kb kind : Kind) : Kernel × NodeData × ConvertPlan :=
  (.binary op kind, .none, .between [ka, kb] [kind, kind] (some kind) (some kind))

theorem planLeaf_binaryLeaf (left : ka.canPromoteTo kind) (right : kb.canPromoteTo kind) (i : Nat)
    (kwds : Keywords) :
    (binaryLeaf op i kind).planLeaf ⟨.fixed (.binary op kind), none⟩ (.scalar kind) [.scalar ka, .scalar kb] kwds =
      .ok (binaryPlan op ka kb kind) := by
  have bound : (binaryLeaf op i kind).bindParams [.scalar ka, .scalar kb] = .ok .empty := by
    simp [Callable.bindParams, Callable.bindArgs, binaryLeaf, Callable.signature, uniform, Bindings.unify, left, right]
  have sources : (binaryLeaf op i kind).sourceKinds .empty (binaryLeaf op i kind).signature.params
      [.scalar ka, .scalar kb] = .ok [(ka, kind), (kb, kind)] := rfl
  have destination : (binaryLeaf op i kind).destinationKinds (.scalar kind) (.scalar kind) =
      .ok (some (kind, kind)) := rfl
  exact Callable.planLeaf_eq_ok bound sources rfl destination rfl rfl

theorem outlineNode_binaryOver {os : Overloads} {kwds : Keywords} {jump : Callable.OutlineJump} {i : Nat}
    (unnamed : ∀ o ∈ os, o.subject ≠ stamp + i) (left : ka.canPromoteTo kind) (right : kb.canPromoteTo kind)
    (found : (binaryTable config op stamp).dispatch [.scalar ka, .scalar kb] = .ok (binaryLeaf op (stamp + i) kind)) :
    ((binaryOver config op stamp).outlineNode os kwds jump ⟨.scalar kind, []⟩
      [⟨.scalar ka, []⟩, ⟨.scalar kb, []⟩]).run = some (.ok (Chain.ofLeaf (binaryPlan op ka kb kind))) := by
  rw [binaryOver, Callable.outlineNode_dispatch]
  refine (Outline.run_ofExcept_bind (Callable.checkArity_eq_ok_iff.mpr rfl)).trans ?_
  dsimp only
  cases selected : (binaryTable config op stamp).dispatch
      (([⟨.scalar ka, []⟩, ⟨.scalar kb, []⟩] : List Layout).map (·.ty) |>.map Ty.typeId) with
  | error position => cases found.symm.trans selected
  | ok other =>
    obtain rfl := Except.ok.inj (found.symm.trans selected)
    have plain := Overloads.find?_eq_none (c := binaryLeaf op (stamp + i) kind) unnamed
    simp only [plain]
    rw [binaryLeaf, Callable.outlineNode_leaf]
    refine (Outline.run_ofExcept_bind (Callable.checkArity_eq_ok_iff.mpr rfl)).trans ?_
    exact Outline.run_ofExcept_bind (planLeaf_binaryLeaf left right _ kwds)

end Builtins

end ArrayCall
