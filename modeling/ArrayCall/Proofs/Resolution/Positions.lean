import ArrayCall.Proofs.Calls.Selection
import ArrayCall.Proofs.DispatchTables
import ArrayCall.Proofs.Resolution.Plain
import ArrayCall.Proofs.Resolution.Reordering

/-!
# Where errors of resolution point

An error of resolution points to something that the caller passed (`Callable.Points`): an argument, a keyword that
was given or is declared, or the destination. However deep the callable is nested in which it arose, no number of an
inner slot is left in it.

* `Callable.Located` is what one knows of a callable whose errors do so, given as many arguments as it takes, and
  `Callable.located_leaf`, `Callable.located_dispatch` and so on show it for each form from its children. In every
  form the children get as many arguments as they take, so only the callable that is called itself can have too
  few or too many.
* `Callable.Built.located`: all callables are such.
-/

namespace ArrayCall

/-! ## Tables and shapes -/

theorem Dispatcher.firstRejected_lt {α : Type} (d : Dispatcher α) {key : DispatchKey} (some : key ≠ []) :
    d.firstRejected key < key.length := by
  rw [firstRejected]
  generalize found : List.find? _ _ = rejected
  cases rejected with
  | none => exact List.length_pos_of_ne_nil some
  | some i => exact List.mem_range.mp (List.mem_of_find?_eq_some found)

/-- Where arguments are rejected there are some: without any, every entry is for just these. -/
theorem Dispatcher.lt_of_dispatch_eq_error {α : Type} {d : Dispatcher α} {key : DispatchKey} {position : Nat}
    (entries : d.entries ≠ []) (lengths : ∀ e ∈ d.entries, e.1.length = key.length)
    (rejected : d.dispatch key = .error position) : position < key.length := by
  rw [dispatch] at rejected
  split at rejected
  · cases rejected
  next absent =>
    split at rejected
    · cases rejected
    · cases rejected
      refine d.firstRejected_lt ?_
      rintro rfl
      obtain ⟨e, member⟩ := List.exists_mem_of_ne_nil _ entries
      have same : e.1 = [] := List.length_eq_zero_iff.mp (lengths e member)
      exact find?_eq_none_iff.mp absent (same ▸ List.mem_map_of_mem member)

theorem lt_of_broadcast_eq_error {shapes : List (List Nat)} {e : BroadcastError}
    (failed : broadcast shapes = .error e) :
    e.index < shapes.length := by
  obtain ⟨front, shape, back, rfl, found, -⟩ := Broadcast.exists_front_of_joinFrom_eq_error failed
  rw [found, List.length_append, List.length_cons]
  omega

namespace Callable

theorem lt_of_firstWhere_eq_some {test : Ty → Bool} {types : List Ty} {t : Ty} {i : Nat}
    (found : firstWhere test types = some (t, i)) : i < types.length :=
  List.snd_lt_of_mem_zipIdx (List.mem_of_find?_eq_some found)

/-! ## Positions -/

/-- What a caller passes: `n` arguments, keywords that are given or at least declared, and a destination. -/
def Passed (c : Callable) (n : Nat) (kwds : Keywords) : ArgPosition → Prop
  | .source i => i < n
  | .keyword name => kwds.contains name ∨ ∃ k ∈ c.signature.kwds, k.name = name
  | .destination => True

/-- An error points to something that was passed. -/
def Points (c : Callable) (n : Nat) (kwds : Keywords) (e : CallError) : Prop :=
  ∃ position, e.position? = some position ∧ c.Passed n kwds position

/-- Given as many arguments as it takes, a callable is resolved, or the error points to something that was passed. -/
def Located (c : Callable) : Prop :=
  ∀ (dst : Option Ty) (args : List Ty) (kwds : Keywords), args.length = c.arity →
    Fails (c.Points args.length kwds) (c.resolveTypes dst args kwds)

variable {c child : Callable} {n : Nat} {args params : List Ty} {kwds : Keywords} {stamp : Nat}

theorem points_source (c : Callable) {i : Nat} (inside : i < n) (fault : TypeFault) :
    c.Points n kwds (c.mismatch (.source i) fault) :=
  ⟨.source i, rfl, inside⟩

theorem points_destination (c : Callable) (fault : TypeFault) : c.Points n kwds (c.mismatch .destination fault) :=
  ⟨.destination, rfl, trivial⟩

/-! ## Checks -/

theorem points_checkAgainst (c : Callable) (kwds : Keywords) :
    Fails (c.Points n kwds) (kwds.checkAgainst c.name c.signature) := by
  rw [Keywords.checkAgainst]
  split
  next name found =>
    have given := Keywords.mem_userNames_iff.mp (List.mem_of_find?_eq_some found)
    exact fails_error ⟨.keyword name, rfl, .inl given.1⟩
  next =>
    split
    next k found => exact fails_error ⟨.keyword k.name, rfl, .inr ⟨k, List.mem_of_find?_eq_some found, rfl⟩⟩
    next => exact fails_ok _

/-- Behind the checks there is the right number of arguments. -/
theorem points_checked {next : Except CallError Ty} (length : n = c.arity) (later : Fails (c.Points n kwds) next) :
    Fails (c.Points n kwds) (do c.checkArity n; kwds.checkAgainst c.name c.signature; next) := by
  rw [checkArity_eq_ok_iff.mpr length]
  exact fails_bind (fails_ok _) fun _ _ => fails_bind (points_checkAgainst c kwds) fun _ _ => later

/-! ## Leaves -/

theorem points_bindArgs {index : Nat} {b : Bindings} (within : index + args.length ≤ n) :
    Fails (c.Points n kwds) (c.bindArgs index b params args) := by
  induction params generalizing index b args with
  | nil => exact fails_ok _
  | cons p params inductionHypothesis =>
    cases args with
    | nil => exact fails_ok _
    | cons a args =>
      rw [List.length_cons] at within
      rw [bindArgs]
      split
      · exact inductionHypothesis (by omega)
      · exact fails_error (c.points_source (by omega) _)

theorem points_bindKwds {b : Bindings} {declared : List KeywordParam} (among : ∀ k ∈ declared, k ∈ c.signature.kwds) :
    Fails (c.Points n kwds) (c.bindKwds kwds b declared) := by
  induction declared generalizing b with
  | nil => exact fails_ok _
  | cons k rest inductionHypothesis =>
    obtain ⟨here, others⟩ := List.forall_mem_cons.mp among
    rw [bindKwds]
    split
    · exact inductionHypothesis others
    · split
      · exact inductionHypothesis others
      · exact fails_error ⟨.keyword k.name, rfl, .inr ⟨k, here, rfl⟩⟩

theorem located_leaf (stamp : Nat) (name : String) (sig : Signature) (kernel : Leaf) :
    (leaf stamp name sig kernel).Located := by
  intro dst args kwds length
  rw [resolveTypes]
  refine points_checked length ?_
  rw [resolveLeaf]
  split
  next a i found => exact fails_error (points_source _ (lt_of_firstWhere_eq_some found) _)
  next =>
    refine fails_bind (points_bindArgs (by omega)) fun b _ => ?_
    refine fails_bind (points_bindKwds fun _ member => member) fun b _ => ?_
    split
    · exact fails_ok _
    · exact fails_error (points_destination _ _)

/-! ## Dispatch -/

theorem located_dispatch {name : String} {arity : Nat} {table : Dispatcher Callable} (entries : table.entries ≠ [])
    (arities : ∀ e ∈ table.entries, e.1.length = arity ∧ e.2.arity = arity) (below : ∀ e ∈ table.entries, e.2.Located) :
    (dispatch stamp name
      ⟨List.replicate arity .any, joinKwds (table.entries.map (·.2.signature.kwds)), .any⟩ table).Located := by
  intro dst args kwds length
  rw [resolveTypes]
  refine points_checked length ?_
  have length : args.length = arity := length.trans List.length_replicate
  dsimp only
  cases found : table.dispatch (args.map Ty.typeId) with
  | ok target =>
    obtain ⟨key, member⟩ := Dispatcher.exists_mem_of_dispatch found
    rintro e failed
    obtain ⟨position, points, passed⟩ := below _ member dst args kwds (length.trans (arities _ member).2.symm) e failed
    refine ⟨position, points, ?_⟩
    cases position with
    | source i => exact passed
    | destination => trivial
    | keyword name =>
      refine passed.imp_right ?_
      rintro ⟨k, declared, rfl⟩
      exact exists_mem_joinKwds (List.mem_map.mpr ⟨_, member, rfl⟩) declared
  | error position =>
    have rejected := Dispatcher.lt_of_dispatch_eq_error entries (fun e member => by
      rw [(arities e member).1, List.length_map, length]) found
    exact fails_error ⟨.source position, rfl, by rwa [List.length_map] at rejected⟩

/-! ## Permutations -/

/-- What a child calls an argument of its own is an argument that was passed, or the destination. -/
theorem passed_outerPosition {slots : List Int} (fit : SlotsFit slots child.arity) (length : n = slots.countP (0 ≤ ·))
    {position : ArgPosition} (passed : child.Passed child.arity kwds position) :
    (permute stamp child slots).Passed n kwds (outerPosition slots position) := by
  cases position with
  | source k =>
    have inside : k < slots.length := fit.length_eq ▸ passed
    rw [outerPosition, List.getElem?_eq_getElem inside]
    have below := fit.lt_countP slots[k] (List.getElem_mem inside)
    dsimp only
    split
    · trivial
    · show slots[k].toNat < n
      omega
  | destination => trivial
  | keyword name => exact passed

theorem points_slotDestination {slots : List Int} {dst : Option Ty} {known : List (Option Ty)} :
    Fails (c.Points n kwds) (c.slotDestination child slots dst known) := by
  rw [slotDestination]
  split
  · exact fails_ok _
  · split
    · exact fails_ok _
    · split
      · exact fails_ok _
      · exact fails_error (c.points_destination _)

theorem located_permute {slots : List Int} (fit : SlotsFit slots child.arity) (below : child.Located) :
    (permute stamp child slots).Located := by
  intro dst args kwds length
  rw [resolveTypes]
  refine points_checked length ?_
  rw [arity_permute] at length
  refine fails_bind points_slotDestination fun slotDst chosen => ?_
  have inside : ∀ slot ∈ slots, slot < args.length := length ▸ fit.lt_countP
  have count : ((slotTypes slots args).filterMap (·.or slotDst)).length = child.arity := by
    obtain ⟨rfl, sources⟩ | ⟨d, rfl, -⟩ := of_slotDestination_eq_ok chosen
    · rw [filterMap_slotTypes (d := .void) inside (.inr sources), List.length_map, fit.length_eq]
    · rw [filterMap_slotTypes inside (.inl rfl), List.length_map, fit.length_eq]
  refine fails_bind (fails_mapError (below _ _ _ count) ?_) fun ret _ => ?_
  · rintro e ⟨position, points, passed⟩
    rw [count] at passed
    exact ⟨outerPosition slots position, by rw [CallError.position?_mapPosition, points]; rfl,
      passed_outerPosition fit length passed⟩
  · split
    · exact fails_ok _
    · split
      · exact fails_ok _
      · exact fails_error (points_destination _ _)

/-! ## Lifts -/

theorem points_splitArgs (within : args.length ≤ n) : Fails (c.Points n kwds) (c.splitArgs params args) := by
  refine fails_mapM fun ⟨⟨a, p⟩, i⟩ member => ?_
  have inside := List.snd_lt_of_mem_zipIdx member
  rw [List.length_zip] at inside
  simp only [splitArg]
  split
  · exact fails_error (c.points_source (by simp only at inside; omega) _)
  · exact fails_ok _

/-- A shape that does not fit is that of an argument or that of the destination, which comes behind them. -/
theorem points_broadcastFault {dstIndex : Nat} {e : BroadcastError} (within : dstIndex ≤ n)
    (known : e.index ≤ dstIndex) : c.Points n kwds (c.broadcastFault dstIndex e) := by
  rw [broadcastFault]
  split
  · exact c.points_destination _
  · exact c.points_source (by omega) _

theorem points_liftShape {dst : Option Ty} {shapes : List (List Nat)} (within : shapes.length ≤ n) :
    Fails (c.Points n kwds) (c.liftShape child dst shapes) := by
  cases dst with
  | none =>
    rw [liftShape]
    split
    · exact fails_ok _
    next e failed => exact fails_error (points_broadcastFault within (lt_of_broadcast_eq_error failed).le)
  | some d =>
    rw [liftShape]
    dsimp only
    split
    · exact fails_error (c.points_destination _)
    · split
      next e failed =>
        have inside := lt_of_broadcast_eq_error failed
        rw [List.length_append, List.length_singleton] at inside
        exact fails_error (points_broadcastFault within (by omega))
      next =>
        split
        · exact fails_ok _
        · exact fails_error (c.points_destination _)

theorem located_lift {types : Option (List Ty)} (shaped : ∀ ts ∈ types, ts.length = child.arity)
    (below : child.Located) : (lift stamp child types).Located := by
  intro dst args kwds length
  rw [resolveTypes]
  refine points_checked length ?_
  rw [arity_lift shaped] at length
  refine fails_bind (points_bindArgs (by omega)) fun _ _ => ?_
  refine fails_bind (points_splitArgs (Nat.le_refl _)) fun parts split => ?_
  have count : parts.length = args.length := by
    rw [length_of_mapM_eq_ok split, List.length_zipIdx, List.length_zip, length]
    exact Nat.min_self _
  refine fails_bind (points_liftShape (by simp [count])) fun shaped _ => ?_
  obtain ⟨shape, childDst⟩ := shaped
  refine fails_bind ?_ fun _ _ => fails_ok _
  have inner := below childDst (parts.map (·.2)) kwds (by rw [List.length_map, count, length])
  rwa [List.length_map, count] at inner

/-! ## Reductions -/

theorem located_reduce {fold : Callable} {identity : Option Scalar} (single : fold.arity = 1) (below : fold.Located) :
    (reduce stamp fold identity).Located := by
  intro dst args kwds length
  rw [resolveTypes]
  refine points_checked length ?_
  have length : args.length = 1 := length
  split
  · exact fails_error (points_destination _ _)
  · rw [length]
    exact below _ _ _ single.symm

/-! ## All callables -/

theorem entries_ne_nil_of_ofTable_eq_ok {name : String} {arity : Nat} {table : Dispatcher Callable}
    (built : ofTable stamp name arity table = .ok c) : table.entries ≠ [] := by
  intro none
  rw [ofTable, none] at built
  cases built

theorem Built.located {element : Signature → Leaf → Prop} {liftable : Callable → Prop}
    (built : Built element liftable c) : c.Located := by
  induction built with
  | leaf _ built =>
    obtain ⟨rfl, -⟩ := of_ofLeaf_eq_ok built
    exact located_leaf _ _ _ _
  | table _ built inductionHypothesis =>
    obtain ⟨rfl, arities⟩ := of_ofTable_eq_ok built
    exact located_dispatch (entries_ne_nil_of_ofTable_eq_ok built) arities inductionHypothesis
  | permuted _ built inductionHypothesis =>
    obtain ⟨rfl, fit⟩ := of_permuted_eq_ok built
    exact located_permute fit inductionHypothesis
  | elwise _ _ inductionHypothesis => exact located_lift (by rintro _ ⟨⟩) inductionHypothesis
  | liftTo _ _ built inductionHypothesis =>
    obtain ⟨rfl, length, -⟩ := of_liftTo_eq_ok built
    exact located_lift (by rintro _ ⟨⟩; exact length) inductionHypothesis
  | @reduced _ foldStamp child _ assoc _ _ built inductionHypothesis =>
    obtain ⟨rfl, binary⟩ := of_reduced_eq_ok built
    have fold : (permute foldStamp child assoc.slots).Located :=
      located_permute (binary ▸ assoc.slotsFit) inductionHypothesis
    exact located_reduce (by rw [arity_permute]; cases assoc <;> rfl) fold

/-- What an error may blame: something that was passed, or else the first argument that is missing or that is one too
many. -/
def Blames (c : Callable) (n : Nat) (kwds : Keywords) (e : CallError) : Prop :=
  c.Points n kwds e ∨ e.kind = .arity ∧ n ≠ c.arity ∧ e.position? = some (.source (min n c.arity))

theorem Located.blames (located : c.Located) (dst : Option Ty) (args : List Ty) (kwds : Keywords) :
    Fails (c.Blames args.length kwds) (c.resolveTypes dst args kwds) := by
  by_cases length : args.length = c.arity
  case pos => exact fun e failed => .inl (located dst args kwds length e failed)
  case neg =>
    have refused : c.checkArity args.length =
        .error (.arity c.name (.source (min args.length c.arity)) (.positional c.arity args.length)) := if_neg length
    have failed : c.resolveTypes dst args kwds =
        .error (.arity c.name (.source (min args.length c.arity)) (.positional c.arity args.length)) := by
      cases c <;> (rw [resolveTypes, refused]; rfl)
    rw [failed]
    exact fails_error (.inr ⟨rfl, length, rfl⟩)

end Callable

/-! ## Requests -/

namespace Keywords

variable {kwds : Keywords} {callable : String} {position : ArgPosition}

/-- The position of a keyword that is about the destination and was given. -/
def AsksAt (kwds : Keywords) (position : ArgPosition) : Prop :=
  ∃ name ∈ [dstName, dstTypeName], position = .keyword name ∧ kwds.contains name

theorem AsksAt.ne_destination (asks : kwds.AsksAt position) : position ≠ .destination := by
  rintro rfl
  obtain ⟨name, -, same, -⟩ := asks
  cases same

theorem asksAt_dst (given : kwds.contains dstName) : kwds.AsksAt (.keyword dstName) :=
  ⟨dstName, .head _, rfl, given⟩

theorem asksAt_dstType (given : kwds.contains dstTypeName) : kwds.AsksAt (.keyword dstTypeName) :=
  ⟨dstTypeName, .tail _ (.head _), rfl, given⟩

theorem isSome_of_arrayType?_eq_ok {found : Option Ty} (ran : kwds.arrayType? callable = .ok found) :
    found.isSome = kwds.contains dstName := by
  rw [arrayType?] at ran
  rw [NameTable.contains]
  split at ran
  next absent => cases ran; rw [absent]; rfl
  next given => cases ran; rw [given]; rfl
  next => cases ran

theorem isSome_of_requestedType?_eq_ok {found : Option Ty} (ran : kwds.requestedType? callable = .ok found) :
    found.isSome = kwds.contains dstTypeName := by
  rw [Keywords.requestedType?] at ran
  rw [NameTable.contains]
  split at ran
  next absent => cases ran; rw [absent]; rfl
  next given =>
    split at ran
    · cases ran
    · cases ran; rw [given]; rfl
  next => cases ran

/-- Keywords that are not in order are blamed themselves. -/
theorem asksAt_of_dstType?_eq_error :
    Fails (fun e => ∃ position, kwds.AsksAt position ∧ e.position? = some position) (kwds.dstType? callable) := by
  refine fails_bind ?_ fun array arrays => fails_bind ?_ fun requested requests => ?_
  · rw [arrayType?]
    split
    · exact fails_ok _
    · exact fails_ok _
    next _ given => exact fails_error ⟨_, asksAt_dst (by rw [NameTable.contains, given]; rfl), rfl⟩
  · rw [Keywords.requestedType?]
    split
    · exact fails_ok _
    next given =>
      split
      · exact fails_error ⟨_, asksAt_dstType (by rw [NameTable.contains, given]; rfl), rfl⟩
      · exact fails_ok _
    next _ given => exact fails_error ⟨_, asksAt_dstType (by rw [NameTable.contains, given]; rfl), rfl⟩
  · have given := isSome_of_requestedType?_eq_ok requests
    split
    · split
      · exact fails_ok _
      · exact fails_error ⟨_, asksAt_dstType given.symm, rfl⟩
    · exact fails_ok _
    · exact fails_ok _
    · exact fails_ok _

/-- What is asked for is asked for at one of the keywords, and without them nothing is. -/
theorem of_dstType?_eq_ok {found : Option (Ty × ArgPosition)} (ran : kwds.dstType? callable = .ok found) :
    match found with
    | some (_, position) => kwds.AsksAt position
    | none => kwds.contains dstName = false ∧ kwds.contains dstTypeName = false := by
  obtain ⟨array, arrays, ran⟩ := bind_eq_ok_iff.mp ran
  obtain ⟨requested, requests, ran⟩ := bind_eq_ok_iff.mp ran
  have hasArray := isSome_of_arrayType?_eq_ok arrays
  have hasType := isSome_of_requestedType?_eq_ok requests
  rcases array with _ | a
  · rcases requested with _ | t
    · cases ran
      exact ⟨hasArray.symm, hasType.symm⟩
    · cases ran
      exact asksAt_dstType hasType.symm
  · rcases requested with _ | t
    · cases ran
      exact asksAt_dst hasArray.symm
    · dsimp only at ran
      split at ran
      · cases ran
        exact asksAt_dst hasArray.symm
      · cases ran

end Keywords

namespace Callable

variable {c : Callable} {n : Nat} {kwds : Keywords}

theorem passed_of_asksAt {position : ArgPosition} (asks : kwds.AsksAt position) : c.Passed n kwds position := by
  obtain ⟨name, -, rfl, given⟩ := asks
  exact .inl given

theorem Points.reportAt {position : ArgPosition} {e : CallError} (passed : c.Passed n kwds position)
    (points : c.Points n kwds e) : c.Points n kwds (reportAt position e) := by
  obtain ⟨found, same, held⟩ := points
  refine ⟨_, by rw [Callable.reportAt, CallError.position?_mapPosition, same]; rfl, ?_⟩
  dsimp only
  split
  · exact passed
  · exact held

/-- Faults of the destination are moved to a position of the caller's, all others stay. -/
theorem Blames.reportAt {position : ArgPosition} {e : CallError} (passed : c.Passed n kwds position)
    (blames : c.Blames n kwds e) : c.Blames n kwds (reportAt position e) := by
  rcases blames with points | ⟨kind, differs, same⟩
  · exact .inl (points.reportAt passed)
  · refine .inr ⟨(e.kind_mapPosition _).trans kind, differs, ?_⟩
    rw [Callable.reportAt, CallError.position?_mapPosition, same]
    rfl

theorem position?_reportAt_ne {position : ArgPosition} (e : CallError) (other : position ≠ .destination) :
    (reportAt position e).position? ≠ some .destination := by
  rw [reportAt, CallError.position?_mapPosition]
  intro same
  obtain ⟨found, -, moved⟩ := Option.map_eq_some_iff.mp same
  split at moved
  · exact other moved
  next differs => exact differs moved

/-! ## Resolution -/

theorem asksAt_of_requestedType_eq_error (c : Callable) (hint : Option Ty) (kwds : Keywords) :
    Fails (fun e => ∃ position, kwds.AsksAt position ∧ e.position? = some position) (c.requestedType hint kwds) := by
  refine fails_bind Keywords.asksAt_of_dstType?_eq_error fun found _ => ?_
  split <;> exact fails_ok _

/-- The keywords come first: only without them the destination may be asked about. -/
theorem of_requestedType_eq_ok {hint : Option Ty} {d : Ty} {position : ArgPosition}
    (requested : c.requestedType hint kwds = .ok (some (d, position))) :
    kwds.AsksAt position ∨
      kwds.contains Keywords.dstName = false ∧ kwds.contains Keywords.dstTypeName = false ∧
        position = .destination := by
  obtain ⟨found, asked, requested⟩ := bind_eq_ok_iff.mp requested
  have given := Keywords.of_dstType?_eq_ok asked
  rcases found with _ | ⟨d', position'⟩
  · obtain ⟨t, -, hinted⟩ := Option.map_eq_some_iff.mp (Except.ok.inj requested)
    cases hinted
    exact .inr ⟨given.1, given.2, rfl⟩
  · cases requested
    exact .inl given

theorem Located.blames_of_resolve (located : c.Located) (hint : Option Ty) (args : List Ty) (kwds : Keywords) :
    Fails (c.Blames args.length kwds) (c.resolve hint args kwds) := by
  rw [resolve]
  split
  next a i found => exact fails_error (.inl (c.points_source (lt_of_firstWhere_eq_some found) _))
  next =>
    refine fails_bind (fun e failed => ?_) fun request requested => ?_
    · obtain ⟨position, asks, same⟩ := asksAt_of_requestedType_eq_error c hint kwds e failed
      exact .inl ⟨position, same, passed_of_asksAt asks⟩
    · split
      next => exact located.blames none args kwds
      next d position =>
        have passed : c.Passed args.length kwds position := by
          obtain asks | ⟨-, -, rfl⟩ := of_requestedType_eq_ok requested
          · exact passed_of_asksAt asks
          · trivial
        refine fails_bind ?_ fun ret _ => ?_
        · exact fails_mapError (located.blames (some d) args kwds) fun e => Blames.reportAt passed
        split
        · exact fails_ok _
        · exact fails_error (.inl ⟨position, rfl, passed⟩)

/-- The destination is not blamed itself where a keyword gives it. -/
theorem position?_ne_destination (c : Callable) (hint : Option Ty) (args : List Ty)
    (given : kwds.contains Keywords.dstName ∨ kwds.contains Keywords.dstTypeName) :
    Fails (·.position? ≠ some .destination) (c.resolve hint args kwds) := by
  rw [resolve]
  split
  next => exact fails_error (by rintro ⟨⟩)
  next =>
    refine fails_bind (fun e failed => ?_) fun request requested => ?_
    · obtain ⟨position, asks, same⟩ := asksAt_of_requestedType_eq_error c hint kwds e failed
      rw [same]
      exact fun there => asks.ne_destination (Option.some.inj there)
    · split
      next =>
        obtain ⟨found, asked, requested⟩ := bind_eq_ok_iff.mp requested
        have none := Keywords.of_dstType?_eq_ok asked
        rcases found with _ | found
        · simp [none] at given
        · cases requested
      next d position =>
        have other : position ≠ .destination := by
          obtain asks | ⟨noDst, noType, -⟩ := of_requestedType_eq_ok requested
          · exact asks.ne_destination
          · simp [noDst, noType] at given
        refine fails_bind ?_ fun ret _ => ?_
        · exact fails_mapError (P := fun _ => True) (fun _ _ => trivial) fun e _ => position?_reportAt_ne e other
        split
        · exact fails_ok _
        · exact fails_error fun there => other (Option.some.inj there)

/-- With the type `d` of the destination it is the destination that is at fault: something about it is, or the result
does not promote to it. -/
def FaultsDestination (c : Callable) (d : Ty) (args : List Ty) (kwds : Keywords) : Prop :=
  match c.resolveTypes (some d) args kwds with
  | .ok ret => ret.canPromoteTo d = false
  | .error e => e.position? = some .destination

theorem resolve_of_dstType? {hint : Option Ty} {args : List Ty} {d : Ty} {position : ArgPosition}
    (asked : kwds.dstType? c.name = .ok (some (d, position))) (concrete : ∀ a ∈ args, a.isSymbolic = false) :
    c.resolve hint args kwds = (do
      let ret ← (c.resolveTypes (some d) args kwds).mapError (reportAt position)
      if ret.canPromoteTo d then .ok d else .error (c.mismatch position (.cannotStore ret d))) := by
  have requested : c.requestedType hint kwds = .ok (some (d, position)) := by
    rw [requestedType, asked]
    rfl
  rw [resolve, firstWhere_eq_none_iff.mpr concrete]
  simp only [requested]
  rfl

/-- A fault of the destination is reported at the keyword that gives it. -/
theorem position?_eq_of_faultsDestination {hint : Option Ty} {args : List Ty} {d : Ty} {position : ArgPosition}
    (asked : kwds.dstType? c.name = .ok (some (d, position))) (concrete : ∀ a ∈ args, a.isSymbolic = false)
    (faults : c.FaultsDestination d args kwds) :
    Fails (fun e => kwds.AsksAt position ∧ e.position? = some position) (c.resolve hint args kwds) := by
  have asks : kwds.AsksAt position := Keywords.of_dstType?_eq_ok asked
  rw [resolve_of_dstType? asked concrete]
  rw [FaultsDestination] at faults
  split at faults
  next ret resolved =>
    rw [resolved]
    refine fails_bind (fails_ok _) fun found same => ?_
    cases same
    rw [if_neg (by simp [faults])]
    exact fails_error ⟨asks, rfl⟩
  next e resolved =>
    rw [resolved]
    refine fails_bind (fails_error ⟨asks, ?_⟩) fun _ ran => nomatch ran
    rw [reportAt, CallError.position?_mapPosition, faults]
    rfl

/-- An error of resolution points to something that the caller passed, or to the first argument that is missing or one
too many. Where the caller gives the destination by a keyword, it points there and not to the destination itself. -/
theorem Built.blames_of_resolve_eq_error {element : Signature → Leaf → Prop} {liftable : Callable → Prop}
    (built : Built element liftable c) {hint : Option Ty} {args : List Ty} {e : CallError}
    (failed : c.resolve hint args kwds = .error e) :
    c.Blames args.length kwds e ∧
    (kwds.contains Keywords.dstName ∨ kwds.contains Keywords.dstTypeName → e.position? ≠ some .destination) ∧
    ∀ d position, kwds.dstType? c.name = .ok (some (d, position)) → (∀ a ∈ args, a.isSymbolic = false) →
      c.FaultsDestination d args kwds → kwds.AsksAt position ∧ e.position? = some position :=
  ⟨built.located.blames_of_resolve hint args kwds e failed, fun given =>
    position?_ne_destination c hint args given e failed,
    fun _ _ asked concrete faults => position?_eq_of_faultsDestination asked concrete faults e failed⟩

/-- Columns are added in reverse order, into a destination of another length. The child finds fault with its last shape,
which was not passed as an argument but asked for by `dst_tp`. -/
theorem blames_of_resolve_eq_error_at_dstType :
    let int : Ty := .scalar (.int .w32)
    let add : Callable := .leaf 0 "add[int32]" ⟨[int, int], [], int⟩ ⟨.fixed (.binary .add (.int .w32)), none⟩
    let c : Callable := .permute 2 (add.elwise 1) [1, 0]
    let kwds : Keywords := NameTable.empty.insert "dst_tp" (.type (.fixedDim 5 int))
    let e : CallError := .typeMismatch "elwise(add[int32])" (.keyword "dst_tp") (.sizesDisagree 5 3)
    Built (fun _ _ => True) (fun _ => True) c ∧
      c.resolve none [.fixedDim 3 int, .fixedDim 3 int] kwds = .error e ∧ c.Blames 2 kwds e ∧
      kwds.AsksAt (.keyword "dst_tp") := by
  intro int add c kwds e
  have leaf : ofLeaf 0 "add[int32]" ⟨[int, int], [], int⟩ ⟨.fixed (.binary .add (.int .w32)), none⟩ = .ok add := rfl
  have reversed : (add.elwise 1).permuted 2 [1, 0] = .ok c := by cbv
  have built : Built (fun _ _ => True) (fun _ => True) c := .permuted (.elwise (.leaf trivial leaf) trivial) reversed
  have failed : c.resolve none [.fixedDim 3 int, .fixedDim 3 int] kwds = .error e := by cbv
  obtain ⟨blames, -, reported⟩ := built.blames_of_resolve_eq_error failed
  refine ⟨built, failed, blames, (reported (.fixedDim 5 int) (.keyword "dst_tp") (by cbv) (by decide) ?_).1⟩
  rw [FaultsDestination]
  cbv

end Callable

end ArrayCall
