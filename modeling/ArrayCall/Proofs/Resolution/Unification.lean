import ArrayCall.Proofs.Resolution.Variables

/-!
# Matching as solving

Matching a concrete type against a pattern looks for an assignment of the pattern's variables under which the
two fit (`Bindings.Fits`). Bindings stand for all assignments that agree with them (`Bindings.Admits`), and
matching leaves of these just the ones that fit, or fails if there are none (`Bindings.Solves`).

* `Bindings.Solves.bind`: what one step after another solves.
* `Bindings.solves_unify`: a pattern and a type, by induction over the pattern.
* `Bindings.unify_finds_least`: so matching succeeds just if something fits, and binds no more than it must.
* `Bindings.unifyAll_eq_ok_iff_of_perm`: what fits all of some pairs does not depend on their order, and neither
  does what matching them one after the other comes to.
-/

namespace ArrayCall

/-- Whether the type contains `Any` or an ellipsis without a name: what these match is not kept. -/
def Ty.hasWildcard : Ty → Bool
  | any => true
  | ellipsis none _ => true
  | ellipsis (some _) elem => elem.hasWildcard
  | fixedDim _ elem => elem.hasWildcard
  | symbolicDim _ elem => elem.hasWildcard
  | _ => false

namespace Bindings

/-- What some of the variables stand for. -/
abbrev Assignment := String → Option Binding

/-- Whether a type is one of those that a pattern describes if its variables stand for what is assigned.
Kinds may promote; an ellipsis stands for a run of dimensions that leaves as many as there are behind it. -/
def Fits (σ : Assignment) : (pattern actual : Ty) → Prop
  | .any, _ => True
  | .typeVar name, a => σ name = some (.type a)
  | .void, a => a = .void
  | .scalar want, a => ∃ found, a = .scalar found ∧ found.canPromoteTo want
  | .fixedDim size elem, a => ∃ inner, a = .fixedDim size inner ∧ Fits σ elem inner
  | .symbolicDim name elem, a =>
    ∃ size inner, a = .fixedDim size inner ∧ σ name = some (.dim size) ∧ Fits σ elem inner
  | .ellipsis name elem, a =>
    ∃ sizes inner, a = .withShape sizes inner ∧ inner.ndim = elem.ndim ∧
      (∀ n ∈ name, σ n = some (.dims sizes)) ∧ Fits σ elem inner

/-- The assignment agrees with all that is bound. -/
def Admits (b : Bindings) (σ : Assignment) : Prop := ∀ name v, b.get? name = some v → σ name = some v

/-- The result admits just those assignments admitted before that have a property. Where it is an error there are
none, and nothing that was bound before is lost in the bindings made on the way. -/
def Solves (b : Bindings) (P : Assignment → Prop) : Except Clash Bindings → Prop
  | .ok b' => ∀ σ, b'.Admits σ ↔ b.Admits σ ∧ P σ
  | .error clash => b.Extends clash.bindings ∧ ∀ σ, b.Admits σ → ¬P σ

variable {b b' : Bindings} {P Q : Assignment → Prop} {x y : Except Clash Bindings} {p a t : Ty} {name : String}
  {v : Binding} {σ : Assignment}

theorem admits_get? (b : Bindings) : b.Admits b.get? := fun _ _ bound => bound

/-- Bindings are known by what they admit. -/
theorem eq_of_admits_iff (same : ∀ σ, b.Admits σ ↔ b'.Admits σ) : b = b' := by
  have there : b.Extends b' := (same b'.get?).mpr b'.admits_get?
  have back : b'.Extends b := (same b.get?).mp b.admits_get?
  exact NameTable.ext_get? fun name => Option.ext fun v => ⟨there name v, back name v⟩

theorem admits_insert_iff (unbound : b.get? name = none) :
    Admits (b.insert name v) σ ↔ b.Admits σ ∧ σ name = some v := by
  constructor
  · intro admitted
    exact ⟨fun other v' bound => admitted other v' (extends_insert unbound other v' bound),
      admitted name v (NameTable.get?_insert_self ..)⟩
  · rintro ⟨admitted, assigned⟩ other v' bound
    rw [NameTable.get?_insert] at bound
    split at bound
    next same => rw [same, assigned, bound]
    next => exact admitted other v' bound

/-! ## Solving step by step -/

theorem solves_ok (b : Bindings) (holds : ∀ σ, P σ) : Solves b P (.ok b) := fun σ => (and_iff_left (holds σ)).symm

theorem solves_error (b : Bindings) (e : BindingError) (none : ∀ σ, ¬P σ) : Solves b P (.error ⟨e, b⟩) :=
  ⟨.refl b, fun σ _ => none σ⟩

theorem solves_bind (b : Bindings) (name : String) (v : Binding) :
    Solves b (fun σ => σ name = some v) (b.bind name v) := by
  rw [Bindings.bind]
  split
  next unbound => exact fun σ => admits_insert_iff unbound
  next bound found =>
    split
    next same => exact fun σ => (and_iff_left_of_imp fun admitted => same ▸ admitted name bound found).symm
    next differs =>
      refine ⟨.refl b, fun σ admitted assigned => differs ?_⟩
      exact Option.some.inj ((admitted name bound found).symm.trans assigned)

namespace Solves

theorem congr (solves : Solves b P x) (same : ∀ σ, P σ ↔ Q σ) : Solves b Q x := by
  obtain rfl : P = Q := funext fun σ => propext (same σ)
  exact solves

/-- The bindings found are themselves an assignment with the property. -/
theorem holds (solves : Solves b P (.ok b')) : b.Extends b' ∧ P b'.get? := (solves b'.get?).mp b'.admits_get?

/-- One step after another solves for both properties. -/
theorem bind {next : Bindings → Except Clash Bindings} (first : Solves b P x) (later : ∀ b', Solves b' Q (next b')) :
    Solves b (fun σ => P σ ∧ Q σ) (x >>= next) := by
  cases x with
  | error clash => exact ⟨first.1, fun σ admitted both => first.2 σ admitted both.1⟩
  | ok b' =>
    change Solves b _ (next b')
    have second := later b'
    generalize next b' = result at second
    cases result with
    | error clash =>
      refine ⟨first.holds.1.trans second.1, fun σ admitted both => ?_⟩
      exact second.2 σ ((first σ).mpr ⟨admitted, both.1⟩) both.2
    | ok b'' => exact fun σ => by rw [second σ, first σ, and_assoc]

theorem succeeds_iff (solves : Solves b P x) : (∃ b', x = .ok b') ↔ ∃ σ, b.Admits σ ∧ P σ := by
  cases x with
  | error clash =>
    refine iff_of_false (fun ⟨_, ran⟩ => nomatch ran) ?_
    rintro ⟨σ, admitted, holds⟩
    exact solves.2 σ admitted holds
  | ok b' => exact iff_of_true ⟨b', rfl⟩ ⟨b'.get?, solves.holds⟩

/-- The property alone decides what the result is. -/
theorem eq_ok_iff (solves : Solves b P x) (solves' : Solves b P y) : x = .ok b' ↔ y = .ok b' := by
  have both : (∃ b', x = .ok b') ↔ ∃ b', y = .ok b' := solves.succeeds_iff.trans solves'.succeeds_iff.symm
  cases x with
  | error clash =>
    refine iff_of_false (fun ran => nomatch ran) fun ran => ?_
    obtain ⟨_, ran'⟩ := both.mpr ⟨b', ran⟩
    cases ran'
  | ok found =>
    obtain ⟨found', rfl⟩ := both.mp ⟨found, rfl⟩
    rw [eq_of_admits_iff fun σ => (solves σ).trans (solves' σ).symm]

end Solves

/-! ## Dimensions -/

theorem fits_fixedDim_iff {size size' : Nat} {inner : Ty} :
    Fits σ (.fixedDim size p) (.fixedDim size' inner) ↔ size' = size ∧ Fits σ p inner := by
  simp [Fits]

theorem fits_symbolicDim_iff {size : Nat} {inner : Ty} :
    Fits σ (.symbolicDim name p) (.fixedDim size inner) ↔ σ name = some (.dim size) ∧ Fits σ p inner := by
  simp [Fits]

/-- There is one way only to leave the right number of dimensions. -/
theorem fits_ellipsis_iff {name : Option String} {e : Ty} {shape : List Nat} (element : e.IsElement) :
    Fits σ (.ellipsis name p) (.withShape shape e) ↔
      p.ndim ≤ shape.length ∧ (∀ n ∈ name, σ n = some (.dims (shape.take (shape.length - p.ndim)))) ∧
        Fits σ p (.withShape (shape.drop (shape.length - p.ndim)) e) := by
  constructor
  · rintro ⟨sizes, inner, same, rank, named, fits⟩
    -- What stands behind the ellipsis is a shape in front of an element as well, so the shapes can be compared.
    have concrete : inner.isSymbolic = false := by
      rw [← Ty.isSymbolic_withShape sizes inner, ← same, Ty.isSymbolic_withShape, element.isSymbolic]
    obtain ⟨e', element', rest⟩ := Ty.exists_eq_withShape concrete
    generalize inner.shape = shape' at rest
    subst rest
    rw [← Ty.withShape_append] at same
    obtain rfl : shape = sizes ++ shape' := by
      rw [← @Ty.shape_withShape shape e element, same, Ty.shape_withShape element']
    obtain rfl : e = e' := by
      rw [← element.dtype, ← Ty.dtype_withShape _ e, same, Ty.dtype_withShape, element'.dtype]
    rw [Ty.ndim_withShape, Ty.ndim_of_flat element.isDim, Nat.add_zero] at rank
    rw [List.length_append, ← rank, Nat.add_sub_cancel, List.take_left, List.drop_left]
    exact ⟨Nat.le_add_left .., named, fits⟩
  · rintro ⟨enough, named, fits⟩
    refine ⟨_, _, ?_, ?_, named, fits⟩
    · rw [← Ty.withShape_append, List.take_append_drop]
    · rw [Ty.ndim_withShape, Ty.ndim_of_flat element.isDim, List.length_drop]
      omega

/-! ## Matching -/

theorem solves_unify_void (b : Bindings) : Solves b (Fits · .void a) (b.unify .void a) := by
  rw [unify]
  split
  next void => exact solves_ok b fun _ => void
  next other => exact solves_error b _ fun _ => other

theorem solves_unify_scalar (b : Bindings) (want : Kind) :
    Solves b (Fits · (.scalar want) a) (b.unify (.scalar want) a) := by
  cases a with
  | scalar found =>
    rw [unify]
    split
    next promotes => exact solves_ok b fun _ => ⟨found, rfl, promotes⟩
    next refused =>
      refine solves_error b _ fun σ => ?_
      rintro ⟨_, same, promotes⟩
      cases same
      exact refused promotes
  | _ =>
    refine solves_error b _ fun σ => ?_
    rintro ⟨_, same, _⟩
    cases same

section

variable {elem : Ty}
  (behind : ∀ (b : Bindings) (inner : Ty), inner.isSymbolic = false → Solves b (Fits · elem inner) (b.unify elem inner))
include behind

theorem solves_unify_fixedDim (b : Bindings) (want : Nat) (concrete : a.isSymbolic = false) :
    Solves b (Fits · (.fixedDim want elem) a) (b.unify (.fixedDim want elem) a) := by
  cases a with
  | fixedDim found inner =>
    rw [unify]
    split
    next same =>
      refine (behind b inner concrete).congr fun σ => ?_
      rw [fits_fixedDim_iff, and_iff_right same]
    next differs => exact solves_error b _ fun σ fits => differs (fits_fixedDim_iff.mp fits).1
  | _ =>
    refine solves_error b _ fun σ => ?_
    rintro ⟨_, same, _⟩
    cases same

theorem solves_unify_symbolicDim (b : Bindings) (name : String) (concrete : a.isSymbolic = false) :
    Solves b (Fits · (.symbolicDim name elem) a) (b.unify (.symbolicDim name elem) a) := by
  cases a with
  | fixedDim size inner =>
    refine ((solves_bind b name (.dim size)).bind fun b' => behind b' inner concrete).congr fun σ => ?_
    rw [fits_symbolicDim_iff]
  | _ =>
    refine solves_error b _ fun σ => ?_
    rintro ⟨_, _, same, _⟩
    cases same

theorem solves_unify_ellipsis (b : Bindings) (name : Option String) (concrete : a.isSymbolic = false) :
    Solves b (Fits · (.ellipsis name elem) a) (b.unify (.ellipsis name elem) a) := by
  obtain ⟨e, element, same⟩ := Ty.exists_eq_withShape concrete
  rw [unify]
  dsimp only
  generalize a.shape = shape at same ⊢
  subst same
  split
  next few => exact solves_error b _ fun σ fits => absurd ((fits_ellipsis_iff element).mp fits).1 (by omega)
  next enough =>
    have rest : (Ty.withShape (shape.drop (shape.length - elem.ndim)) e).isSymbolic = false := by
      rw [Ty.isSymbolic_withShape, element.isSymbolic]
    rw [Ty.stripDims_withShape_of_le (Nat.sub_le _ _)]
    cases name with
    | none =>
      refine (behind b _ rest).congr fun σ => ?_
      rw [fits_ellipsis_iff element]
      simp [Nat.le_of_not_lt enough]
    | some name =>
      refine ((solves_bind b name _).bind fun b' => behind b' _ rest).congr fun σ => ?_
      rw [fits_ellipsis_iff element]
      simp [Nat.le_of_not_lt enough]

end

/-- Matching solves for what fits. The type is concrete, unless the pattern has no dimensions to take off it. -/
theorem solves_unify (b : Bindings) (known : p.isDim = false ∨ a.isSymbolic = false) :
    Solves b (Fits · p a) (b.unify p a) := by
  -- The bindings vary: what stands behind a dimension is matched with those that it adds.
  induction p generalizing a b with
  | any => exact solves_ok b fun _ => trivial
  | typeVar name => exact solves_bind b name (.type a)
  | void => exact solves_unify_void b
  | scalar want => exact solves_unify_scalar b want
  | fixedDim want elem inductionHypothesis =>
    exact solves_unify_fixedDim (fun b inner concrete => @inductionHypothesis inner b (.inr concrete)) b want
      (known.resolve_left Bool.noConfusion)
  | symbolicDim name elem inductionHypothesis =>
    exact solves_unify_symbolicDim (fun b inner concrete => @inductionHypothesis inner b (.inr concrete)) b name
      (known.resolve_left Bool.noConfusion)
  | ellipsis name elem inductionHypothesis =>
    exact solves_unify_ellipsis (fun b inner concrete => @inductionHypothesis inner b (.inr concrete)) b name
      (known.resolve_left Bool.noConfusion)

/-- A pattern that keeps all that it matches becomes a type that the matched one promotes to. -/
theorem exists_substitute_of_fits (plain : p.hasWildcard = false) (fits : Fits b.get? p a) :
    ∃ t, b.substitute p = .ok t ∧ a.canPromoteTo t := by
  induction p generalizing a with
  | any => cases plain
  | typeVar name =>
    have assigned : b.get? name = some (.type a) := fits
    exact ⟨a, by rw [substitute, assigned], a.canPromoteTo_self⟩
  | void =>
    obtain rfl : a = .void := fits
    exact ⟨.void, rfl, rfl⟩
  | scalar want =>
    obtain ⟨found, rfl, promotes⟩ := fits
    exact ⟨.scalar want, rfl, promotes⟩
  | fixedDim size elem inductionHypothesis =>
    obtain ⟨inner, rfl, fits⟩ := fits
    obtain ⟨t, substituted, promotes⟩ := inductionHypothesis plain fits
    refine ⟨.withShape [size] t, ?_, (@Ty.canPromoteTo_withShape_iff [size] inner t).mpr promotes⟩
    rw [substitute, substituted]
    rfl
  | symbolicDim name elem inductionHypothesis =>
    obtain ⟨size, inner, rfl, assigned, fits⟩ := fits
    obtain ⟨t, substituted, promotes⟩ := inductionHypothesis plain fits
    refine ⟨.withShape [size] t, ?_, (@Ty.canPromoteTo_withShape_iff [size] inner t).mpr promotes⟩
    simp only [substitute, assigned, substituted]
    rfl
  | ellipsis name elem inductionHypothesis =>
    cases name with
    | none => cases plain
    | some name =>
      obtain ⟨sizes, inner, rfl, -, named, fits⟩ := fits
      obtain ⟨t, substituted, promotes⟩ := inductionHypothesis plain fits
      refine ⟨.withShape sizes t, ?_, Ty.canPromoteTo_withShape_iff.mpr promotes⟩
      simp only [substitute, named name rfl, substituted]
      rfl

theorem isSome_of_unify_iff (ran : b.unify p a = .ok b') (name : String) :
    (b'.get? name).isSome ↔ (b.get? name).isSome ∨ name ∈ p.mentions := by
  have binds := binds_unify ran
  by_cases mentioned : name ∈ p.mentions
  · obtain ⟨v, bound, -⟩ := binds.bound name mentioned
    simp [bound, mentioned]
  · simp [binds.others name mentioned, mentioned]

/-- A concrete type matches a pattern just if some assignment that agrees with what is bound fits. What is bound
then is the least such assignment: the variables of the pattern and what was bound before, nothing of which is
changed, not even by a match that fails. A pattern that keeps all that it matches can then be made a type that the
matched one promotes to. -/
theorem unify_finds_least (b : Bindings) (p : Ty) {a : Ty} (concrete : a.isSymbolic = false) :
    ((∃ b', b.unify p a = .ok b') ↔ ∃ σ, b.Admits σ ∧ Fits σ p a) ∧
      (∀ b', b.unify p a = .ok b' →
        b.Extends b' ∧ Fits b'.get? p a ∧ (∀ σ, b.Admits σ → Fits σ p a → b'.Admits σ) ∧
          (∀ name, (b'.get? name).isSome ↔ (b.get? name).isSome ∨ name ∈ p.mentions) ∧
          (p.hasWildcard = false → ∃ t, b'.substitute p = .ok t ∧ a.canPromoteTo t)) ∧
      ∀ clash, b.unify p a = .error clash → b.Extends clash.bindings := by
  have solves := solves_unify (p := p) b (.inr concrete)
  refine ⟨solves.succeeds_iff, fun b' ran => ?_, fun clash ran => ?_⟩
  · rw [ran] at solves
    obtain ⟨more, fits⟩ := solves.holds
    exact ⟨more, fits, fun σ admitted fits => (solves σ).mpr ⟨admitted, fits⟩, isSome_of_unify_iff ran,
      fun plain => exists_substitute_of_fits plain fits⟩
  · rw [ran] at solves
    exact solves.1

/-- Where `N` is 4 already, `Dims... * N * int64` matches `2 * 3 * 4 * int16` and binds `Dims` to what is left, but
it does not match with 5 for 4. -/
theorem unify_finds_least_behind_ellipsis :
    let b : Bindings := NameTable.empty.insert "N" (.dim 4)
    let p : Ty := .ellipsis (some "Dims") (.symbolicDim "N" (.scalar (.int .w64)))
    let a (last : Nat) : Ty := .withShape [2, 3, last] (.scalar (.int .w16))
    (∀ last, (a last).isSymbolic = false) ∧
      (∃ b', b.unify p (a 4) = .ok b' ∧ b'.get? "Dims" = some (.dims [2, 3]) ∧
        ∃ t, b'.substitute p = .ok t ∧ (a 4).canPromoteTo t) ∧
      ¬∃ b', b.unify p (a 5) = .ok b' := by
  intro b p a
  have concrete : ∀ last, (a last).isSymbolic = false := fun _ => rfl
  have parts : ∀ {σ : Assignment} {last : Nat}, Fits σ p (a last) →
      σ "Dims" = some (.dims [2, 3]) ∧ σ "N" = some (.dim last) := by
    intro σ last fits
    obtain ⟨-, named, fits⟩ := (fits_ellipsis_iff (Ty.isElement_scalar _)).mp fits
    exact ⟨named "Dims" rfl, (fits_symbolicDim_iff.mp fits).1⟩
  obtain ⟨succeeds, found, -⟩ := unify_finds_least b p (concrete 4)
  refine ⟨concrete, ?_, fun matched => ?_⟩
  · let σ : Assignment := fun name => if name = "N" then some (.dim 4) else some (.dims [2, 3])
    have admitted : b.Admits σ := (admits_insert_iff rfl).mpr ⟨fun name v bound => by simp at bound, rfl⟩
    have dims : ∀ n ∈ some "Dims", σ n = some (.dims [2, 3]) := by simp [σ]
    obtain ⟨b', ran⟩ := succeeds.mpr ⟨σ, admitted, [2, 3], _, rfl, rfl, dims, 4, _, rfl, rfl, _, rfl, rfl⟩
    obtain ⟨-, fits, -, -, substituted⟩ := found b' ran
    exact ⟨b', ran, (parts fits).1, substituted rfl⟩
  · obtain ⟨σ, admitted, fits⟩ := (unify_finds_least b p (concrete 5)).1.mp matched
    have four := admitted "N" (.dim 4) (NameTable.get?_insert_self ..)
    cases four.symm.trans (parts fits).2

/-! ## Matching in any order -/

/-- Matches types against patterns, one pair after the other. -/
def unifyAll (b : Bindings) (pairs : List (Ty × Ty)) : Except Clash Bindings :=
  pairs.foldlM (fun b pair => b.unify pair.1 pair.2) b

theorem solves_unifyAll (b : Bindings) {pairs : List (Ty × Ty)}
    (known : ∀ pair ∈ pairs, pair.1.isDim = false ∨ pair.2.isSymbolic = false) :
    Solves b (fun σ => ∀ pair ∈ pairs, Fits σ pair.1 pair.2) (b.unifyAll pairs) := by
  induction pairs generalizing b with
  | nil => exact solves_ok b fun _ => by simp
  | cons pair pairs inductionHypothesis =>
    obtain ⟨first, others⟩ := List.forall_mem_cons.mp known
    rw [unifyAll, List.foldlM_cons]
    refine ((solves_unify b first).bind fun b' => inductionHypothesis b' others).congr fun σ => ?_
    rw [List.forall_mem_cons]

end Bindings

theorem Callable.bindArgs_eq_ok_iff {c : Callable} {index : Nat} {b b' : Bindings} {params args : List Ty} :
    c.bindArgs index b params args = .ok b' ↔ b.unifyAll (params.zip args) = .ok b' := by
  induction params generalizing args index b with
  | nil => simp [bindArgs, Bindings.unifyAll, pure, Except.pure]
  | cons p params inductionHypothesis =>
    cases args with
    | nil => simp [bindArgs, Bindings.unifyAll, pure, Except.pure]
    | cons a args =>
      rw [bindArgs, List.zip_cons_cons, Bindings.unifyAll, List.foldlM_cons]
      cases b.unify p a with
      | error clash => exact iff_of_false (fun ran => by cases ran) (fun ran => by cases ran)
      | ok next => exact inductionHypothesis

namespace Bindings

/-- In whatever order concrete types are matched against patterns, the bindings come out the same, or there are
none; and so do those that a callable makes of its arguments. -/
theorem unifyAll_eq_ok_iff_of_perm {pairs pairs' : List (Ty × Ty)} (perm : pairs.Perm pairs')
    (concrete : ∀ pair ∈ pairs, pair.2.isSymbolic = false) (b b' : Bindings) :
    (b.unifyAll pairs = .ok b' ↔ b.unifyAll pairs' = .ok b') ∧
      ∀ (c : Callable) index, c.bindArgs index b (pairs.map (·.1)) (pairs.map (·.2)) = .ok b' ↔
        c.bindArgs index b (pairs'.map (·.1)) (pairs'.map (·.2)) = .ok b' := by
  have concrete' : ∀ pair ∈ pairs', pair.2.isSymbolic = false := fun pair member =>
    concrete pair (perm.mem_iff.mpr member)
  have solves := solves_unifyAll b fun pair member => .inr (concrete pair member)
  have solves' := solves_unifyAll b fun pair member => .inr (concrete' pair member)
  have same : b.unifyAll pairs = .ok b' ↔ b.unifyAll pairs' = .ok b' :=
    solves.eq_ok_iff (solves'.congr fun σ => by simp only [perm.mem_iff])
  refine ⟨same, fun c index => ?_⟩
  rw [Callable.bindArgs_eq_ok_iff, Callable.bindArgs_eq_ok_iff, ← List.unzip_fst, ← List.unzip_snd, List.zip_unzip,
    ← List.unzip_fst, ← List.unzip_snd, List.zip_unzip, same]

/-- `T` is bound by the first pattern of two, or behind the ellipsis of the other. -/
theorem unifyAll_of_reversed_pairs :
    let int : Ty := .scalar (.int .w32)
    let pairs : List (Ty × Ty) := [(.symbolicDim "N" (.typeVar "T"), .fixedDim 3 int),
      (.ellipsis (some "Dims") (.typeVar "T"), .withShape [2, 5] int)]
    pairs.Perm pairs.reverse ∧ (∀ pair ∈ pairs, pair.2.isSymbolic = false) ∧
      ∃ b, unifyAll .empty pairs = .ok b ∧ unifyAll .empty pairs.reverse = .ok b := by
  intro int pairs
  have perm : pairs.Perm pairs.reverse := pairs.reverse_perm.symm
  have concrete : ∀ pair ∈ pairs, pair.2.isSymbolic = false := by decide
  obtain ⟨b, ran⟩ : ∃ b, unifyAll .empty pairs = .ok b := ⟨_, rfl⟩
  exact ⟨perm, concrete, b, ran, (unifyAll_eq_ok_iff_of_perm perm concrete .empty b).1.mp ran⟩

end Bindings

end ArrayCall
