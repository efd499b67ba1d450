import ArrayCall.Proofs.Resolution.Forwarding

/-!
# Concrete results

Concrete arguments and concrete keyword arrays make every variable stand for a concrete type, but for
those of a keyword parameter that is given a type: a type presents `Any` to the parameter, and the variable
comes to stand for that.

* `Callable.resolve_isSymbolic_iff`: a result is not concrete just where it is that of a leaf which returns
  such a variable, and nothing is asked of it; it is `Any` then, behind dimensions.
* `Callable.resolve_any`: such a leaf.
-/

namespace ArrayCall

/-- The result is a variable of a keyword parameter that a type is given for. -/
def Signature.ReturnsKeywordType (sig : Signature) (kwds : Keywords) : Prop :=
  ∃ name, sig.ret = .typeVar name ∧
    ∃ k ∈ sig.kwds, name ∈ k.ty.mentions ∧ ∃ t, kwds.get? k.name = some (.type t)

/-- The arrays among the keyword values have concrete types. -/
def Keywords.Concrete (kwds : Keywords) : Prop :=
  ∀ name a, kwds.get? name = some (.array a) → a.ty.isSymbolic = false

theorem Keywords.concrete_insert_type (name : String) (t : Ty) : Concrete (NameTable.empty.insert name (.type t)) := by
  intro other a given
  rw [NameTable.get?_insert] at given
  split at given <;> cases given

namespace Callable

variable {c : Callable} {stamp : Nat} {name : String} {sig : Signature} {kernel : Leaf} {args : List Ty}
  {kwds : Keywords} {hint : Option Ty} {t : Ty} {element : Signature → Leaf → Prop} {liftable : Callable → Prop}

/-! ## Leaves -/

/-- A variable stands for a concrete type, or for the `Any` that a keyword value presents. -/
theorem resolveTypes_leaf_concrete (flat : ∀ t ∈ sig.params ++ [sig.ret], ¬t.isDim ∧ t ≠ .any)
    (concrete : ∀ a ∈ args, a.isSymbolic = false) (keywords : kwds.Concrete)
    (resolved : (leaf stamp name sig kernel).resolveTypes none args kwds = .ok t) :
    t.isSymbolic = false ∨ t = .any ∧ sig.ReturnsKeywordType kwds := by
  obtain ⟨-, -, b, b', params, given, substituted⟩ := resolveTypes_leaf_eq_ok_iff.mp resolved
  have within : b.Within fun _ t => t.isSymbolic = false :=
    bindArgs_within params Bindings.within_empty fun a member t behind _ => behind.isSymbolic (concrete a member)
  have all : b'.Within fun name t => t.isSymbolic = false ∨
      t = .any ∧ ∃ k ∈ sig.kwds, name ∈ k.ty.mentions ∧ ∃ t, kwds.get? k.name = some (.type t) := by
    refine bindKwds_within given (fun name t found => .inl (within name t found)) ?_
    intro k declared value found name mentioned t behind
    cases value with
    | type t' => exact .inr ⟨behind.eq_of_flat rfl, k, declared, mentioned, t', found⟩
    | array a => exact .inl (behind.isSymbolic (keywords _ a found))
    | scalar s => exact .inl (behind.isSymbolic rfl)
  obtain ⟨-, element⟩ | ⟨name, ret, found⟩ :=
    Bindings.of_substitute_eq_ok (by simpa using (flat sig.ret (by simp)).1) substituted
  · exact .inl element.isSymbolic
  · exact (all name t found).imp_right fun ⟨any, k, declared⟩ => ⟨any, name, ret, k, declared⟩

/-- Conversely, the type that is given for a keyword makes such a result `Any`. -/
theorem resolveTypes_leaf_any (returns : sig.ReturnsKeywordType kwds)
    (resolved : (leaf stamp name sig kernel).resolveTypes none args kwds = .ok t) : t = .any := by
  obtain ⟨-, -, b, b', -, given, substituted⟩ := resolveTypes_leaf_eq_ok_iff.mp resolved
  obtain ⟨name, ret, k, declared, mentioned, t', found⟩ := returns
  rw [ret] at substituted
  obtain ⟨rfl, void | ⟨k, scalar⟩⟩ | ⟨other, same, bound⟩ := Bindings.of_substitute_eq_ok rfl substituted
  · cases void
  · cases scalar
  · cases same
    exact (behind_of_bindKwds given declared found mentioned bound).eq_of_flat rfl

/-! ## All callables -/

/-- The result is that of a leaf which returns a variable of a keyword that is given a type. -/
def ForwardsKeywordType (c : Callable) (args : List Ty) (kwds : Keywords) : Prop :=
  ∃ stamp name sig kernel args', c.Forwards args (leaf stamp name sig kernel) args' ∧ sig.ReturnsKeywordType kwds

theorem Forwards.forwardsKeywordType {c' : Callable} {args' : List Ty} (forwards : c.Forwards args c' args')
    (below : c'.ForwardsKeywordType args' kwds) : c.ForwardsKeywordType args kwds := by
  obtain ⟨stamp, name, sig, kernel, args'', further, returns⟩ := below
  exact ⟨stamp, name, sig, kernel, args'', forwards.trans further, returns⟩

theorem resolveTypes_concrete (formed : c.Formed element liftable) (concrete : ∀ a ∈ args, a.isSymbolic = false)
    (keywords : kwds.Concrete) (resolved : c.resolveTypes none args kwds = .ok t) :
    t.isSymbolic = false ∨ (∃ shape, t = .withShape shape .any) ∧ c.ForwardsKeywordType args kwds := by
  induction formed generalizing args t with
  | @leaf stamp name sig kernel _ flat =>
    refine (resolveTypes_leaf_concrete flat concrete keywords resolved).imp_right fun ⟨any, returns⟩ => ?_
    exact ⟨⟨[], any⟩, stamp, name, sig, kernel, args, .refl _ _, returns⟩
  | dispatch _ _ inductionHypothesis =>
    obtain ⟨-, target, found, resolved⟩ := resolveTypes_dispatch_eq_ok_iff.mp resolved
    obtain ⟨key, member⟩ := Dispatcher.exists_mem_of_dispatch found
    refine (inductionHypothesis _ member concrete resolved).imp_right (And.imp_right ?_)
    exact (Forwards.dispatch found (.refl target args)).forwardsKeywordType
  | @permute stamp child slots fit below inductionHypothesis =>
    by_cases sources : ∀ slot ∈ slots, 0 ≤ slot
    · have resolved := ((resolveTypes_permute_of_sources_eq_ok_iff sources).mp resolved).2
      refine (inductionHypothesis (forall_mem_arranged concrete) resolved).imp_right (And.imp_right ?_)
      exact (Forwards.permute sources (.refl child _)).forwardsKeywordType
    · have reads : ∃ slot ∈ slots, slot < 0 := by simpa using sources
      exact .inl (below.holds_of_destination reads (fun t element => element.isSymbolic)
        (fun a member t behind => behind.isSymbolic (concrete a member)) resolved)
  | @lift stamp child types _ shaped below inductionHypothesis =>
    obtain ⟨⟨length, -⟩, -, parts, shape, childDst, found, split, outer, resolved, rfl⟩ :=
      resolveTypes_lift_eq_ok_iff.mp resolved
    rw [arity_lift fun ts given => (shaped ts given).1] at length
    obtain rfl : childDst = none := (liftShape_none_eq_ok_iff.mp outer).2
    have inner := (of_splitArgs_eq_ok concrete length split).1
    rw [Ty.isSymbolic_withShape]
    refine (inductionHypothesis inner resolved).imp_right (And.imp ?_ ?_)
    · rintro ⟨shape', rfl⟩
      exact ⟨shape ++ shape', by simp [Ty.withShape]⟩
    · exact (Forwards.lift split (.refl child _)).forwardsKeywordType
  | reduce below _ =>
    obtain ⟨-, -, resolved⟩ := resolveTypes_reduce_eq_ok_iff.mp resolved
    exact .inl (below.isElement_of_fold concrete resolved).isSymbolic

/-- What is asked for is concrete, if the array to write into is. -/
theorem isSymbolic_of_requestedType_of_array {d : Ty} {position : ArgPosition}
    (given : ∀ a, kwds.get? Keywords.dstName = some (.array a) → a.ty.isSymbolic = false)
    (asked : c.requestedType hint kwds = .ok (some (d, position))) : d.isSymbolic = false := by
  obtain ⟨found, destination, asked⟩ := bind_eq_ok_iff.mp asked
  obtain ⟨array, arrays, destination⟩ := bind_eq_ok_iff.mp destination
  obtain ⟨type, requested, destination⟩ := bind_eq_ok_iff.mp destination
  have concreteArray : ∀ t ∈ array, t.isSymbolic = false := by
    rintro t rfl
    rw [Keywords.arrayType?] at arrays
    split at arrays
    next => cases arrays
    next a written =>
      cases arrays
      exact given a written
    next => cases arrays
  have concreteType : ∀ t ∈ type, t.isSymbolic = false := by
    rintro t rfl
    rw [Keywords.requestedType?] at requested
    split at requested
    next => cases requested
    next =>
      split at requested
      next => cases requested
      next concrete =>
        cases requested
        simpa using concrete
    next => cases requested
  cases array with
  | some a =>
    obtain rfl : found = some (a, .keyword Keywords.dstName) := by
      cases type with
      | none => cases destination; rfl
      | some t =>
        dsimp only at destination
        split at destination <;> cases destination
        rfl
    cases asked
    exact concreteArray _ rfl
  | none =>
    cases type with
    | some t =>
      cases destination
      cases asked
      exact concreteType _ rfl
    | none =>
      cases destination
      obtain ⟨t, hinted, same⟩ := Option.map_eq_some_iff.mp (Except.ok.inj asked)
      cases same
      simpa using (Option.filter_eq_some_iff.mp hinted).2

theorem isSymbolic_of_requestedType {d : Ty} {position : ArgPosition} (keywords : kwds.Concrete)
    (asked : c.requestedType hint kwds = .ok (some (d, position))) : d.isSymbolic = false :=
  isSymbolic_of_requestedType_of_array (fun a => keywords _ a) asked

/-- A result is concrete, unless nothing is asked of it and it is that of a leaf which returns a variable of
a keyword parameter that is given a type; then it is `Any` behind dimensions. -/
theorem resolve_isSymbolic_iff (built : c.Built element liftable) (keywords : kwds.Concrete)
    (resolved : c.resolve hint args kwds = .ok t) :
    (t.isSymbolic = false ↔ ¬(c.requestedType hint kwds = .ok none ∧ c.ForwardsKeywordType args kwds)) ∧
      (t.isSymbolic = false ∨ ∃ shape, t = .withShape shape .any) := by
  obtain ⟨concrete, request, ret, asked, resolved, delivers⟩ := resolve_eq_ok_iff.mp resolved
  rcases request with _ | ⟨d, position⟩
  · obtain rfl := delivers.1 rfl
    have dichotomy := resolveTypes_concrete built.formed concrete keywords resolved
    refine ⟨⟨?_, fun free => ?_⟩, dichotomy.imp_right And.left⟩
    · rintro solid ⟨-, stamp, name, sig, kernel, args', forwards, returns⟩
      obtain ⟨shape, t', below, rfl⟩ := forwards.resolves resolved
      obtain rfl := resolveTypes_leaf_any returns below
      rw [Ty.isSymbolic_withShape] at solid
      cases solid
    · exact dichotomy.resolve_right fun ⟨_, forwards⟩ => free ⟨asked, forwards⟩
  · obtain ⟨rfl, -⟩ := delivers_some_iff.mp delivers
    have solid := isSymbolic_of_requestedType keywords asked
    refine ⟨iff_of_true solid ?_, .inl solid⟩
    rintro ⟨none, -⟩
    cases asked.symm.trans none

/-- Behind the dimensions of a lift the `Any` is found as well. -/
theorem forwardsKeywordType_lifted :
    let int : Ty := .scalar (.int .w32)
    let sig : Signature := ⟨[.typeVar "T"], [⟨"k", .ellipsis none (.typeVar "U"), false⟩], .typeVar "U"⟩
    let c : Callable := (leaf 0 "pick" sig ⟨.fixed .assign, some .cast⟩).elwise 1
    let kwds : Keywords := NameTable.empty.insert "k" (.type (.scalar .float64))
    c.Built (fun _ _ => True) (fun _ => True) ∧ kwds.Concrete ∧
      c.resolve none [.fixedDim 3 int] kwds = .ok (.fixedDim 3 .any) ∧
        c.requestedType none kwds = .ok none ∧ c.ForwardsKeywordType [.fixedDim 3 int] kwds := by
  intro int sig c kwds
  have leafBuilt : ofLeaf 0 "pick" sig ⟨.fixed .assign, some .cast⟩ =
    .ok (leaf 0 "pick" sig ⟨.fixed .assign, some .cast⟩) := rfl
  have built : c.Built (fun _ _ => True) (fun _ => True) := .elwise (.leaf trivial leafBuilt) trivial
  have keywords : kwds.Concrete := Keywords.concrete_insert_type "k" _
  have resolved : c.resolve none [.fixedDim 3 int] kwds = .ok (.fixedDim 3 .any) := by cbv
  refine ⟨built, keywords, resolved, by_contra fun free => ?_⟩
  exact absurd ((resolve_isSymbolic_iff built keywords resolved).1.mpr free) (by decide)

/-- A leaf that returns what its keyword stands for, and a type given for it: the result is `Any`. -/
theorem resolve_any :
    let int : Ty := .scalar (.int .w32)
    let sig : Signature := ⟨[.typeVar "T"], [⟨"k", .typeVar "U", false⟩], .typeVar "U"⟩
    let pick : Callable := .leaf 0 "pick" sig ⟨.fixed .assign, some .cast⟩
    let kwds : Keywords := NameTable.empty.insert "k" (.type (.scalar .float64))
    pick.Built (fun _ _ => True) (fun _ => True) ∧ int.isSymbolic = false ∧ kwds.Concrete ∧
      pick.resolve none [int] kwds = .ok .any ∧ Ty.any.isSymbolic = true := by
  intro int sig pick kwds
  have built : ofLeaf 0 "pick" sig ⟨.fixed .assign, some .cast⟩ = .ok pick := rfl
  exact ⟨.leaf trivial built, rfl, Keywords.concrete_insert_type "k" _, by cbv, rfl⟩

end Callable

end ArrayCall
