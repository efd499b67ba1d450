import ArrayCall.Proofs.Instantiation.Leaves
import ArrayCall.Proofs.Resolution.Instantiates
import ArrayCall.Proofs.Resolution.Unification

/-!
# The result of a leaf, resolved and instantiated

A leaf binds its variables twice. Resolution binds those of the positional parameters and of the keyword parameters,
instantiation those of the positional parameters alone. A result that mentions a variable of a keyword parameter only
therefore resolves, and cannot be instantiated.

* `Bindings.isSome_of_unifyAll_iff`: which variables matching binds.
* `Callable.exists_bindings_of_resolveTypes`: what resolution says about the bindings that instantiation makes.
* `Callable.instantiate_leaf_of_resolve`: what resolves is instantiated, or fails for an unbound variable.
-/

namespace ArrayCall

/-- The positional parameters mention all variables of the result. -/
def Signature.BindsResult (sig : Signature) : Prop := ∀ v ∈ sig.ret.mentions, ∃ p ∈ sig.params, v ∈ p.mentions

/-- Matching binds the variables that the patterns mention. -/
theorem Bindings.isSome_of_unifyAll_iff {b b' : Bindings} {pairs : List (Ty × Ty)} (ran : b.unifyAll pairs = .ok b')
    (name : String) : (b'.get? name).isSome ↔ (b.get? name).isSome ∨ ∃ pair ∈ pairs, name ∈ pair.1.mentions := by
  induction pairs generalizing b with
  | nil =>
    cases ran
    simp
  | cons pair pairs inductionHypothesis =>
    rw [unifyAll, List.foldlM_cons] at ran
    obtain ⟨next, unified, ran⟩ := bind_eq_ok_iff.mp ran
    rw [inductionHypothesis ran, isSome_of_unify_iff unified, List.exists_mem_cons_iff, or_assoc]

/-- An element mentions no variables and is what it is whatever is bound. -/
theorem Ty.IsElement.mentions {t : Ty} (element : t.IsElement) : t.mentions = [] := by
  obtain rfl | ⟨k, rfl⟩ := element <;> rfl

theorem Ty.IsElement.substitute {t : Ty} (element : t.IsElement) (b : Bindings) : b.substitute t = .ok t := by
  obtain rfl | ⟨k, rfl⟩ := element <;> rfl

namespace Callable

variable {stamp : Nat} {name : String} {sig : Signature} {kernel : Leaf} {c : Callable} {args : List Ty}
  {kwds : Keywords} {t : Ty} {b b' : Bindings}

/-! ## The bindings of a leaf -/

theorem isElement_or_typeVar (built : ofLeaf stamp name sig kernel = .ok c) (member : t ∈ sig.params ++ [sig.ret]) :
    t.IsElement ∨ ∃ v, t = .typeVar v := by
  obtain ⟨flat, concrete⟩ := (of_ofLeaf_eq_ok built).2 t member
  cases t with
  | void => exact .inl (.inl rfl)
  | scalar k => exact .inl (.inr ⟨k, rfl⟩)
  | typeVar v => exact .inr ⟨v, rfl⟩
  | any => exact absurd rfl concrete
  | fixedDim | symbolicDim | ellipsis => exact absurd rfl flat

/-- A parameter that a scalar fits is made a scalar. -/
theorem exists_scalar_of_fits {p a : Ty} (pattern : p.IsElement ∨ ∃ v, p = .typeVar v) (scalar : ∃ k, a = .scalar k)
    (fits : Bindings.Fits b.get? p a) : ∃ k, b.substitute p = .ok (.scalar k) := by
  obtain ⟨k, rfl⟩ := scalar
  obtain (rfl | ⟨want, rfl⟩) | ⟨v, rfl⟩ := pattern
  · cases fits
  · exact ⟨want, rfl⟩
  · have bound : b.get? v = some (.type (.scalar k)) := fits
    exact ⟨k, by rw [Bindings.substitute, bound]⟩

/-- Where a leaf over scalars resolves, the positional arguments alone bind what is mentioned by the parameters and
make these scalars. -/
theorem exists_bindings_of_resolveTypes {dst : Option Ty} (built : ofLeaf stamp name sig kernel = .ok c)
    (scalars : ∀ a ∈ args, ∃ k, a = .scalar k) (resolved : c.resolveTypes dst args kwds = .ok t) :
    ∃ b b', c.bindParams args = .ok b ∧ (∀ p ∈ sig.params, ∃ k, b.substitute p = .ok (.scalar k)) ∧
      (∀ v, (b.get? v).isSome ↔ ∃ p ∈ sig.params, v ∈ p.mentions) ∧ b.Extends b' ∧ b'.substitute sig.ret = .ok t := by
  have patterns := fun p member => isElement_or_typeVar (t := p) built (List.mem_append_left _ member)
  obtain ⟨rfl, -⟩ := of_ofLeaf_eq_ok built
  obtain ⟨⟨length, -⟩, -, b, b', bound, keywords, substituted⟩ := resolveTypes_leaf_eq_ok_iff.mp resolved
  have unified : Bindings.unifyAll .empty (sig.params.zip args) = .ok b := bindArgs_eq_ok_iff.mp bound
  have concrete : ∀ pair ∈ sig.params.zip args, pair.1.isDim = false ∨ pair.2.isSymbolic = false := by
    intro pair member
    obtain ⟨k, scalar⟩ := scalars pair.2 (List.of_mem_zip member).2
    exact .inr (scalar ▸ rfl)
  have solves := Bindings.solves_unifyAll .empty concrete
  rw [unified] at solves
  have paired : ∀ p ∈ sig.params, ∃ a ∈ args, (p, a) ∈ sig.params.zip args := by
    have params : (sig.params.zip args).map Prod.fst = sig.params := List.map_fst_zip (Nat.le_of_eq length.symm)
    intro p member
    obtain ⟨pair, listed, rfl⟩ := List.mem_map.mp (params ▸ member)
    exact ⟨pair.2, (List.of_mem_zip listed).2, listed⟩
  refine ⟨b, b', bound, fun p member => ?_, fun v => ?_, bindKwds_extends keywords, substituted⟩
  · obtain ⟨a, arg, pair⟩ := paired p member
    exact exists_scalar_of_fits (patterns p member) (scalars a arg) (solves.holds.2 (p, a) pair)
  · rw [Bindings.isSome_of_unifyAll_iff unified]
    simp only [NameTable.get?_empty, Option.isSome_none, Bool.false_eq_true, false_or]
    constructor
    · rintro ⟨pair, member, mentioned⟩
      exact ⟨pair.1, (List.of_mem_zip member).1, mentioned⟩
    · rintro ⟨p, member, mentioned⟩
      obtain ⟨a, -, pair⟩ := paired p member
      exact ⟨(p, a), pair, mentioned⟩

/-! ## The plan of a leaf -/

/-- A result whose variables are bound by positional parameters is the one that was resolved. -/
theorem substitute_ret_of_bindsResult (built : ofLeaf stamp name sig kernel = .ok c) (binds : sig.BindsResult)
    (substitutes : ∀ p ∈ sig.params, ∃ k, b.substitute p = .ok (.scalar k)) (more : b.Extends b')
    (resolved : b'.substitute sig.ret = .ok t) : b.substitute sig.ret = .ok t ∧ t.IsElement := by
  obtain element | ⟨v, result⟩ := isElement_or_typeVar built (List.mem_append_right _ (List.mem_singleton_self _))
  · cases (element.substitute b').symm.trans resolved
    exact ⟨element.substitute b, element⟩
  · obtain ⟨p, member, mentioned⟩ := binds v (by simp [result, Ty.mentions])
    have same : sig.ret = p := by
      obtain element | ⟨w, rfl⟩ := isElement_or_typeVar built (List.mem_append_left _ member)
      · rw [element.mentions] at mentioned
        cases mentioned
      · rw [result, List.mem_singleton.mp mentioned]
    obtain ⟨k, found⟩ := substitutes p member
    rw [← same] at found
    cases (more.substitute (.inr ⟨v, result⟩) found).symm.trans resolved
    exact ⟨found, Ty.isElement_scalar k⟩

theorem exists_unbound_of_not_bindsResult (built : ofLeaf stamp name sig kernel = .ok c) (unbound : ¬sig.BindsResult)
    (bound : ∀ v, (b.get? v).isSome ↔ ∃ p ∈ sig.params, v ∈ p.mentions) :
    ∃ v, sig.ret = .typeVar v ∧ b.substitute sig.ret = .error (.unboundType v) := by
  simp only [Signature.BindsResult, not_forall, ← bound, Option.not_isSome_iff_eq_none] at unbound
  obtain ⟨v, mentioned, missing⟩ := unbound
  obtain element | ⟨w, result⟩ := isElement_or_typeVar built (List.mem_append_right _ (List.mem_singleton_self _))
  · rw [element.mentions] at mentioned
    cases mentioned
  · rw [result] at mentioned ⊢
    obtain rfl := List.mem_singleton.mp mentioned
    exact ⟨v, rfl, by rw [Bindings.substitute, missing]⟩

theorem planLeaf_eq_error {kinds : List (Kind × Kind)} {dst : Ty} {e : CallError} (bound : c.bindParams args = .ok b)
    (sources : c.sourceKinds b c.signature.params args = .ok kinds)
    (refused : c.declared b c.signature.ret .destination = .error e) : c.planLeaf kernel dst args kwds = .error e := by
  simp only [planLeaf, bound, sources, refused, bind, Except.bind]

/-! ## Instantiation -/

/-- Without an overload a leaf writes what is planned for it, or fails as the plan does and writes nothing. -/
theorem instantiate_leaf_eq {os : Overloads} {dst : Layout} {src : List Layout} (g : CallGraph)
    (unspecialized : os.find? (leaf stamp name sig kernel) dst.ty (src.map (·.ty)) = none)
    (arity : src.length = sig.arity) :
    (leaf stamp name sig kernel).instantiate os dst src kwds g =
      match (leaf stamp name sig kernel).planLeaf kernel dst.ty (src.map (·.ty)) kwds with
      | .ok plan => some (.ok g.size, g.append (Chain.ofLeaf plan).toList)
      | .error e => some (.error e, g) := by
  have checked : (leaf stamp name sig kernel).checkArity src.length = .ok () := checkArity_eq_ok_iff.mpr arity
  rw [instantiate, instantiateWithin, writeWithin, unspecialized]
  simp only [writeNode, checked, Writer.andThen]
  cases (leaf stamp name sig kernel).planLeaf kernel dst.ty (src.map (·.ty)) kwds with
  | ok plan => exact Build.writes_leaf plan g (.inr ⟨_, rfl⟩)
  | error e => rfl

/-- A leaf with a fixed kernel that resolves for scalars is instantiated for a destination of the type that it
resolved to, if the positional parameters bind the variables of its result. Otherwise the result is a variable
of a keyword parameter, which resolution binds and instantiation reports as unbound. -/
theorem instantiate_leaf_of_resolve {k : Kernel} {os : Overloads} {dst : Layout} {src : List Layout}
    (built : ofLeaf stamp name sig ⟨.fixed k, none⟩ = .ok c) (scalars : ∀ s ∈ src, ∃ k, s.ty = .scalar k)
    (noDst : kwds.get? Keywords.dstName = none) (noType : kwds.get? Keywords.dstTypeName = none)
    (resolved : c.resolve none (src.map (·.ty)) kwds = .ok dst.ty)
    (unspecialized : os.find? c dst.ty (src.map (·.ty)) = none) (g : CallGraph) :
    (sig.BindsResult → ∃ root g', c.instantiate os dst src kwds g = some (.ok root, g')) ∧
      (¬sig.BindsResult → ∃ v, sig.ret = .typeVar v ∧
        c.instantiate os dst src kwds g = some (.error (c.mismatch .destination (.binding (.unboundType v))), g)) := by
  obtain ⟨-, request, ret, requested, found, delivers⟩ := resolve_eq_ok_iff.mp resolved
  cases (requestedType_of_none noDst noType).symm.trans requested
  obtain rfl := delivers.1 rfl
  have types : ∀ a ∈ src.map (·.ty), ∃ k, a = .scalar k := List.forall_mem_map.mpr scalars
  obtain ⟨b, b', bound, substitutes, mentioned, more, substituted⟩ := exists_bindings_of_resolveTypes built types found
  have length := (takes_of_resolveTypes_eq_ok found).1
  rw [List.length_map] at length
  obtain ⟨rfl, -⟩ := of_ofLeaf_eq_ok built
  obtain ⟨kinds, sources⟩ := sourceKinds_succeeds (c := leaf stamp name sig ⟨.fixed k, none⟩) substitutes types
  rw [instantiate_leaf_eq g unspecialized length]
  constructor
  · intro binds
    obtain ⟨same, element⟩ := substitute_ret_of_bindsResult built binds substitutes more substituted
    have result : (leaf stamp name sig ⟨.fixed k, none⟩).declared b sig.ret .destination = .ok dst.ty := by
      rw [declared, same]
    have alike : (dst.ty = .void ∧ dst.ty = .void) ∨ ∃ a b, dst.ty = .scalar a ∧ dst.ty = .scalar b := by
      obtain void | ⟨kind, scalar⟩ := element
      · exact .inl ⟨void, void⟩
      · exact .inr ⟨kind, kind, scalar, scalar⟩
    obtain ⟨dstKinds, destination⟩ := destinationKinds_succeeds (c := leaf stamp name sig ⟨.fixed k, none⟩) alike
    rw [planLeaf_eq_ok bound sources result destination rfl rfl]
    exact ⟨_, _, rfl⟩
  · intro unbound
    obtain ⟨v, mentions, error⟩ := exists_unbound_of_not_bindsResult built unbound mentioned
    have result : (leaf stamp name sig ⟨.fixed k, none⟩).declared b sig.ret .destination =
        .error ((leaf stamp name sig ⟨.fixed k, none⟩).mismatch .destination (.binding (.unboundType v))) := by
      rw [declared, error]
    rw [planLeaf_eq_error bound sources result]
    exact ⟨v, mentions, rfl⟩

/-- The keyword has to be of the type of the argument, which is what is returned. -/
theorem instantiate_leaf_of_shared_variable :
    let long : Ty := .scalar (.int .w64)
    let sig : Signature := ⟨[.typeVar "T"], [⟨"k", .typeVar "T", false⟩], .typeVar "T"⟩
    let copy : Callable := .leaf 0 "copy" sig ⟨.fixed .assign, none⟩
    let kwds : Keywords := NameTable.empty.insert "k" (.scalar (.int 5))
    let src : List Layout := [⟨long, []⟩]
    let dst : Layout := ⟨long, []⟩
    (ofLeaf 0 "copy" sig ⟨.fixed .assign, none⟩ = .ok copy ∧ (∀ s ∈ src, ∃ k, s.ty = .scalar k) ∧
      kwds.get? Keywords.dstName = none ∧ kwds.get? Keywords.dstTypeName = none ∧
      copy.resolve none (src.map (·.ty)) kwds = .ok dst.ty ∧ sig.BindsResult) ∧
      ∃ root g', copy.instantiate [] dst src kwds .empty = some (.ok root, g') := by
  intro long sig copy kwds src dst
  have built : ofLeaf 0 "copy" sig ⟨.fixed .assign, none⟩ = .ok copy := rfl
  have scalars : ∀ s ∈ src, ∃ k, s.ty = .scalar k := by
    intro s member
    obtain rfl := List.mem_singleton.mp member
    exact ⟨.int .w64, rfl⟩
  have binds : sig.BindsResult := fun v member => ⟨.typeVar "T", List.mem_singleton_self _, member⟩
  have resolved : copy.resolve none (src.map (·.ty)) kwds = .ok dst.ty := by cbv
  have unspecialized : Overloads.find? [] copy dst.ty (src.map (·.ty)) = none := rfl
  have instantiates := instantiate_leaf_of_resolve built scalars rfl rfl resolved unspecialized .empty
  exact ⟨⟨built, scalars, rfl, rfl, resolved, binds⟩, instantiates.1 binds⟩

/-- The result is the type of the keyword. It is resolved, but the leaf cannot be instantiated for it. -/
theorem instantiate_refuses_variable_of_keyword :
    let long : Ty := .scalar (.int .w64)
    let sig : Signature := ⟨[.typeVar "T"], [⟨"k", .typeVar "U", false⟩], .typeVar "U"⟩
    let pick : Callable := .leaf 0 "pick" sig ⟨.fixed .assign, none⟩
    let kwds : Keywords := NameTable.empty.insert "k" (.scalar (.int 5))
    let src : List Layout := [⟨.scalar (.int .w32), []⟩]
    ofLeaf 0 "pick" sig ⟨.fixed .assign, none⟩ = .ok pick ∧
      (kwds.get? Keywords.dstName = none ∧ kwds.get? Keywords.dstTypeName = none) ∧
      pick.resolve none (src.map (·.ty)) kwds = .ok long ∧
      pick.instantiate [] ⟨long, []⟩ src kwds .empty =
        some (.error (.typeMismatch "pick" .destination (.binding (.unboundType "U"))), .empty) := by
  intro long sig pick kwds src
  exact ⟨rfl, ⟨rfl, rfl⟩, by cbv, by cbv⟩

end Callable

end ArrayCall
