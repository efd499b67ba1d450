import ArrayCall.Proofs.Instantiation.Sources
import ArrayCall.Proofs.Resolution.Requests

/-!
# Resolution of reordered arguments

A permutation that does not read the destination resolves as its child does for the arguments in the
order of the slots. Where the child fails the permutation fails in the same way (`Callable.Agree`), and
names the argument that the caller passed where the child named a slot.
-/

namespace ArrayCall

namespace CallError

theorem kind_mapPosition (e : CallError) (f : ArgPosition → ArgPosition) : (e.mapPosition f).kind = e.kind := by
  cases e <;> rfl

theorem position?_mapPosition (e : CallError) (f : ArgPosition → ArgPosition) :
    (e.mapPosition f).position? = e.position?.map f := by
  induction e with
  | instantiation callable source inductionHypothesis => exact inductionHypothesis
  | _ => rfl

theorem kind_rootCause_mapPosition (e : CallError) (f : ArgPosition → ArgPosition) :
    (e.mapPosition f).rootCause.kind = e.rootCause.kind := by
  induction e with
  | instantiation callable source inductionHypothesis => exact inductionHypothesis
  | _ => rfl

theorem rootCause_wrap (e : CallError) (callable : String) : (e.wrap callable).rootCause = e.rootCause := by
  cases e <;> rfl

theorem kind_rootCause_of_execution {e : CallError} (kind : e.kind = .execution) : e.rootCause.kind = .execution := by
  cases e with
  | instantiation => cases kind
  | _ => exact kind

end CallError

namespace Callable

/-! ## Attempts that agree -/

variable {α β : Type} {f : ArgPosition → ArgPosition}

/-- Two attempts come to the same result, or fail in the same way, the first at the position that `f`
makes of the second's. -/
def Agree (f : ArgPosition → ArgPosition) : Except CallError α → Except CallError α → Prop
  | .ok a, .ok a' => a = a'
  | .error e, .error e' =>
    e.kind = e'.kind ∧ e.rootCause.kind = e'.rootCause.kind ∧ e.position? = e'.position?.map f
  | _, _ => False

theorem agree_bind {x x' : Except CallError α} {next next' : α → Except CallError β} (first : Agree f x x')
    (second : ∀ a, x = .ok a → Agree f (next a) (next' a)) : Agree f (x >>= next) (x' >>= next') := by
  cases x with
  | error e =>
    cases x' with
    | error e' => exact first
    | ok a' => cases first
  | ok a =>
    cases x' with
    | error e' => cases first
    | ok a' =>
      obtain rfl : a = a' := first
      exact second a rfl

theorem agree_mapPosition (x : Except CallError α) : Agree f (x.mapError (·.mapPosition f)) x := by
  cases x with
  | error e => exact ⟨e.kind_mapPosition f, e.kind_rootCause_mapPosition f, e.position?_mapPosition f⟩
  | ok a => exact rfl

/-- Faults of the destination are moved to a position that `f` leaves alone. -/
theorem agree_reportAt {x x' : Except CallError α} {position : ArgPosition} (fixed : f position = position)
    (destination : ∀ p, f p = .destination ↔ p = .destination) (agree : Agree f x x') :
    Agree f (x.mapError (reportAt position)) (x'.mapError (reportAt position)) := by
  have moved : ∀ p, (if f p = .destination then position else f p) =
      f (if p = .destination then position else p) := by
    intro p
    by_cases there : p = .destination
    · rw [if_pos ((destination p).mpr there), if_pos there, fixed]
    · rw [if_neg (mt (destination p).mp there), if_neg there]
  cases x with
  | error e =>
    cases x' with
    | error e' =>
      obtain ⟨kind, root, place⟩ := agree
      refine ⟨?_, ?_, ?_⟩
      · exact (e.kind_mapPosition _).trans (kind.trans (e'.kind_mapPosition _).symm)
      · exact (e.kind_rootCause_mapPosition _).trans (root.trans (e'.kind_rootCause_mapPosition _).symm)
      · rw [reportAt, reportAt, CallError.position?_mapPosition, CallError.position?_mapPosition, place]
        simp only [Option.map_map, Function.comp_def, moved]
    | ok a' => cases agree
  | ok a =>
    cases x' with
    | error e' => cases agree
    | ok a' => exact agree

/-! ## Slots that read sources -/

/-- The elements that slots read, in the order of the slots. -/
def arranged {α : Type} (slots : List Int) (list : List α) : List α :=
  slots.filterMap fun slot => list[slot.toNat]?

/-- The argument that the caller passed for what a child calls an argument of its own. -/
def throughSlots (slots : List Int) : ArgPosition → ArgPosition
  | .source k => .source ((slots[k]?.map Int.toNat).getD k)
  | position => position

variable {slots : List Int} {stamp : Nat} {child : Callable} {kwds : Keywords} {args : List Ty}

theorem arranged_eq {list : List α} (d : α) (sources : ∀ slot ∈ slots, 0 ≤ slot)
    (inside : ∀ slot ∈ slots, slot < list.length) :
    arranged slots list = slots.map (Node.slotAt d list) := by
  rw [arranged, ← List.filterMap_eq_map']
  refine List.filterMap_congr fun slot member => ?_
  have := sources slot member
  have := inside slot member
  rw [Node.slotAt, if_neg (by omega), List.getElem?_eq_getElem (by omega)]
  rfl

theorem outerPosition_eq (sources : ∀ slot ∈ slots, 0 ≤ slot) : outerPosition slots = throughSlots slots := by
  funext position
  cases position with
  | source k =>
    rw [outerPosition, throughSlots]
    cases found : slots[k]? with
    | none => rfl
    | some slot =>
      have := sources slot (List.mem_of_getElem? found)
      exact if_neg (by omega)
  | _ => rfl

theorem throughSlots_eq_destination_iff (position : ArgPosition) :
    throughSlots slots position = .destination ↔ position = .destination := by
  cases position <;> simp [throughSlots]

theorem filterMap_slotTypes_of_sources (sources : ∀ slot ∈ slots, 0 ≤ slot) :
    (slotTypes slots args).filterMap (·.or none) = arranged slots args := by
  rw [slotTypes, List.filterMap_map]
  refine List.filterMap_congr fun slot member => ?_
  have := sources slot member
  simp only [Function.comp_apply, Option.or_none]
  exact if_neg (by omega)

/-! ## Resolution -/

/-- With every slot on a source a permutation passes on what is asked for and what it is given. -/
theorem resolveTypes_permute_of_sources (sources : ∀ slot ∈ slots, 0 ≤ slot)
    (length : args.length = (permute stamp child slots).arity) (dst : Option Ty) :
    (permute stamp child slots).resolveTypes dst args kwds = (do
      kwds.checkAgainst (permute stamp child slots).name (permute stamp child slots).signature
      (child.resolveTypes dst (arranged slots args) kwds).mapError (·.mapPosition (throughSlots slots))) := by
  have none : slots.findIdx? (· < 0) = none := by
    rw [List.findIdx?_eq_none_iff]
    intro slot member
    simpa using sources slot member
  have checked : (permute stamp child slots).checkArity args.length = .ok () := checkArity_eq_ok_iff.mpr length
  rw [resolveTypes, checked, ← outerPosition_eq sources]
  cases kwds.checkAgainst (permute stamp child slots).name (permute stamp child slots).signature with
  | error e => rfl
  | ok _ =>
    simp only [slotDestination, none, bind, Except.bind, Option.none_or, filterMap_slotTypes_of_sources sources]
    cases child.resolveTypes dst (arranged slots args) kwds <;> rfl

/-- A child whose keywords are refused fails with just that. -/
theorem resolveTypes_of_checkAgainst_eq_error {c : Callable} {dst : Option Ty} {e : CallError}
    (length : args.length = c.arity) (refused : kwds.checkAgainst c.name c.signature = .error e) :
    c.resolveTypes dst args kwds = .error e := by
  have checked := checkArity_eq_ok_iff.mpr length
  cases c <;> (rw [resolveTypes, checked, refused]; rfl)

/-- The keyword that a signature refuses depends on nothing else of it. -/
theorem agree_checkAgainst {c c' : Callable} (keyword : ∀ name, f (.keyword name) = .keyword name)
    (same : c.signature.kwds = c'.signature.kwds) :
    Agree f (kwds.checkAgainst c.name c.signature) (kwds.checkAgainst c'.name c'.signature) := by
  simp only [Keywords.checkAgainst, Signature.kwd?, same]
  split
  next n _ => exact ⟨rfl, rfl, congrArg some (keyword n).symm⟩
  next =>
    split
    next k _ => exact ⟨rfl, rfl, congrArg some (keyword k.name).symm⟩
    next => exact rfl

variable (fit : SlotsFit slots child.arity) (sources : ∀ slot ∈ slots, 0 ≤ slot)
include fit sources

/-- As many sources are taken as there are slots. -/
theorem arity_permute_of_sources : (permute stamp child slots).arity = child.arity := by
  rw [arity_permute, List.countP_eq_length.mpr (by simpa using sources), fit.length_eq]

theorem lt_arity_of_sources : ∀ slot ∈ slots, slot < child.arity := by
  intro slot member
  have inside := fit.lt_countP slot member
  rwa [List.countP_eq_length.mpr (by simpa using sources), fit.length_eq] at inside

theorem agree_resolveTypes_permute (length : args.length = child.arity) (dst : Option Ty) :
    Agree (throughSlots slots) ((permute stamp child slots).resolveTypes dst args kwds)
      (child.resolveTypes dst (arranged slots args) kwds) := by
  have reordered : (arranged slots args).length = child.arity := by
    rw [arranged_eq .void sources (length ▸ lt_arity_of_sources fit sources), List.length_map, fit.length_eq]
  rw [resolveTypes_permute_of_sources sources (length.trans (arity_permute_of_sources fit sources).symm)]
  have keywords : Agree (throughSlots slots)
      (kwds.checkAgainst (permute stamp child slots).name (permute stamp child slots).signature)
      (kwds.checkAgainst child.name child.signature) := agree_checkAgainst (fun _ => rfl) rfl
  cases refused : kwds.checkAgainst child.name child.signature with
  | error e =>
    rw [resolveTypes_of_checkAgainst_eq_error reordered refused]
    rw [refused] at keywords
    cases outer : kwds.checkAgainst (permute stamp child slots).name (permute stamp child slots).signature with
    | error e' => rwa [outer] at keywords
    | ok u => rw [outer] at keywords; cases keywords
  | ok u =>
    rw [refused] at keywords
    cases outer : kwds.checkAgainst (permute stamp child slots).name (permute stamp child slots).signature with
    | error e' => rw [outer] at keywords; cases keywords
    | ok u => exact agree_mapPosition _

/-- A permutation resolves as its child does for the reordered arguments. -/
theorem agree_resolve_permute (length : args.length = child.arity) (concrete : ∀ a ∈ args, a.isSymbolic = false)
    (hint : Option Ty) :
    Agree (throughSlots slots) ((permute stamp child slots).resolve hint args kwds)
      (child.resolve hint (arranged slots args) kwds) := by
  have same : ∀ dst, Agree (throughSlots slots) ((permute stamp child slots).resolveTypes dst args kwds)
      (child.resolveTypes dst (arranged slots args) kwds) := agree_resolveTypes_permute fit sources length
  have still : ∀ a ∈ arranged slots args, a.isSymbolic = false := by
    intro a member
    obtain ⟨slot, -, found⟩ := List.mem_filterMap.mp member
    exact concrete a (List.mem_of_getElem? found)
  obtain ⟨request, asked, place⟩ := exists_requestedType_eq hint kwds
  rw [resolve, resolve, firstWhere_eq_none_iff.mpr concrete, firstWhere_eq_none_iff.mpr still, asked, asked]
  dsimp only
  rcases request with e | _ | ⟨d, position⟩
  · exact ⟨rfl, rfl, rfl⟩
  · exact same none
  · have fixed : throughSlots slots position = position := by
      cases position with
      | source i => exact absurd rfl (place d _ rfl i)
      | _ => rfl
    change Agree _ (((permute stamp child slots).resolveTypes (some d) args kwds).mapError (reportAt position) >>= _)
      ((child.resolveTypes (some d) (arranged slots args) kwds).mapError (reportAt position) >>= _)
    refine agree_bind (agree_reportAt fixed throughSlots_eq_destination_iff (same (some d))) fun found _ => ?_
    split
    · exact rfl
    · exact ⟨rfl, rfl, congrArg some fixed.symm⟩

end Callable

end ArrayCall
