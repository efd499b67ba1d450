import ArrayCall.Proofs.Resolution.Steps

/-!
# What is asked of the result

A call may ask for the type of its result: by the keywords `dst` and `dst_tp`, else by a hint. What
is asked for, and whether the keywords are in order at all, does not depend on the callable; its name
only goes into the errors.

* `Callable.exists_requestedType_eq`: the request, or the keyword at fault, for every callable at once.
* `Keywords.checkAgainst_eq_ok_iff`: which keywords a signature takes.
* `Callable.resolve_eq_ok_iff`: a type is resolved if the types alone resolve to what promotes to it.
-/

namespace ArrayCall

namespace Keywords

variable {kwds : Keywords} {name : String} {sig : Signature}

/-- All keywords are declared, and those that are required are given. -/
theorem checkAgainst_eq_ok_iff :
    kwds.checkAgainst name sig = .ok () ↔
      (∀ n ∈ kwds.userNames, ∃ k ∈ sig.kwds, k.name = n) ∧
        ∀ k ∈ sig.kwds, k.optional ∨ kwds.contains k.name := by
  have declared : (∀ n ∈ kwds.userNames, ∃ k ∈ sig.kwds, k.name = n) ↔
      kwds.userNames.find? (fun n => (sig.kwd? n).isNone) = none := by
    simp [List.find?_eq_none, Signature.kwd?]
  have given : (∀ k ∈ sig.kwds, k.optional ∨ kwds.contains k.name) ↔
      sig.kwds.find? (fun k => !k.optional && !kwds.contains k.name) = none := by
    simp only [List.find?_eq_none, Bool.and_eq_true, Bool.not_eq_true', not_and, Bool.not_eq_false]
    exact forall₂_congr fun k _ => ⟨fun h required => h.resolve_left (by simp [required]), fun h =>
      (Bool.eq_false_or_eq_true k.optional).imp_right h⟩
  rw [declared, given, checkAgainst]
  cases kwds.userNames.find? fun n => (sig.kwd? n).isNone with
  | some n => simp
  | none => cases sig.kwds.find? fun k => !k.optional && !kwds.contains k.name <;> simp

theorem mem_userNames_iff :
    name ∈ kwds.userNames ↔ kwds.contains name ∧ name ≠ dstName ∧ name ≠ dstTypeName := by
  have listed : name ∈ kwds.names ↔ kwds.contains name := by
    rw [NameTable.names, NameTable.contains, NameTable.get?]
    induction kwds.entries with
    | nil => simp [NameTable.lookup]
    | cons e entries inductionHypothesis =>
      obtain ⟨n, value⟩ := e
      rw [List.map_cons, List.mem_cons, inductionHypothesis, NameTable.lookup]
      split
      next same => simp [same]
      next differs => simp [Ne.symm differs]
  rw [userNames, List.mem_filter, listed]
  simp

/-- A keyword at fault, for a callable of some name. -/
def fault (callable : String) (e : String × TypeFault) : CallError := .typeMismatch callable (.keyword e.1) e.2

theorem exists_arrayType?_eq (kwds : Keywords) :
    ∃ found : Except (String × TypeFault) (Option Ty), ∀ callable,
      kwds.arrayType? callable = found.mapError (fault callable) := by
  simp only [arrayType?]
  rcases kwds.get? dstName with _ | t | a | s
  · exact ⟨.ok none, fun _ => rfl⟩
  · exact ⟨.error (dstName, .expectedArray), fun _ => rfl⟩
  · exact ⟨.ok (some a.ty), fun _ => rfl⟩
  · exact ⟨.error (dstName, .expectedArray), fun _ => rfl⟩

theorem exists_requestedType?_eq (kwds : Keywords) :
    ∃ found : Except (String × TypeFault) (Option Ty), ∀ callable,
      kwds.requestedType? callable = found.mapError (fault callable) := by
  simp only [requestedType?]
  rcases kwds.get? dstTypeName with _ | t | a | s
  · exact ⟨.ok none, fun _ => rfl⟩
  · cases symbolic : t.isSymbolic with
    | true => exact ⟨.error (dstTypeName, .notConcrete t), fun _ => by simp [symbolic]; rfl⟩
    | false => exact ⟨.ok (some t), fun _ => by simp [symbolic]; rfl⟩
  · exact ⟨.error (dstTypeName, .expectedType), fun _ => rfl⟩
  · exact ⟨.error (dstTypeName, .expectedType), fun _ => rfl⟩

theorem dstType?_of_none (noDst : kwds.get? dstName = none) (noType : kwds.get? dstTypeName = none)
    (callable : String) :
    kwds.dstType? callable = .ok none := by
  rw [dstType?, arrayType?, Keywords.requestedType?, noDst, noType]
  rfl

theorem dstType?_of_array {a : NdArray} (given : kwds.get? dstName = some (.array a))
    (noType : kwds.get? dstTypeName = none) (callable : String) :
    kwds.dstType? callable = .ok (some (a.ty, .keyword dstName)) := by
  rw [dstType?, arrayType?, Keywords.requestedType?, given, noType]
  rfl

theorem exists_dstType?_eq (kwds : Keywords) :
    ∃ found : Except (String × TypeFault) (Option (Ty × ArgPosition)),
      (∀ callable, kwds.dstType? callable = found.mapError (fault callable)) ∧
        ∀ d position, found = .ok (some (d, position)) → ∃ name, position = .keyword name := by
  obtain ⟨array, arrays⟩ := exists_arrayType?_eq kwds
  obtain ⟨requested, requests⟩ := exists_requestedType?_eq kwds
  simp only [dstType?, arrays, requests]
  rcases array with e | _ | a
  · exact ⟨.error e, fun _ => rfl, fun _ _ none => by cases none⟩
  · rcases requested with e | _ | t
    · exact ⟨.error e, fun _ => rfl, fun _ _ none => by cases none⟩
    · exact ⟨.ok none, fun _ => rfl, fun _ _ none => by cases none⟩
    · exact ⟨.ok (some (t, .keyword dstTypeName)), fun _ => rfl, fun _ _ same => by cases same; exact ⟨_, rfl⟩⟩
  · rcases requested with e | _ | t
    · exact ⟨.error e, fun _ => rfl, fun _ _ none => by cases none⟩
    · exact ⟨.ok (some (a, .keyword dstName)), fun _ => rfl, fun _ _ same => by cases same; exact ⟨_, rfl⟩⟩
    · by_cases same : a = t
      · refine ⟨.ok (some (a, .keyword dstName)), fun _ => ?_, fun _ _ same => by cases same; exact ⟨_, rfl⟩⟩
        exact if_pos same
      · refine ⟨.error (dstTypeName, .destinationsDisagree t a), fun _ => ?_, fun _ _ none => by cases none⟩
        exact if_neg same

end Keywords

namespace Callable

/-- The type of the destination, if `dst` was asked for and `ret` resolved. -/
def Delivers (dst : Option Ty) (ret t : Ty) : Prop :=
  (dst = none → t = ret) ∧ ∀ d ∈ dst, t = d ∧ ret.canPromoteTo d

theorem delivers_some_iff {d ret t : Ty} : Delivers (some d) ret t ↔ t = d ∧ ret.canPromoteTo d := by
  simp [Delivers]

variable {c c' : Callable} {hint : Option Ty} {args : List Ty} {kwds : Keywords} {t : Ty}

/-- The type asked for, or the keyword at fault, is the same for all callables. It is asked for by a
keyword or by a hint, never by an argument. -/
theorem exists_requestedType_eq (hint : Option Ty) (kwds : Keywords) :
    ∃ request : Except (String × TypeFault) (Option (Ty × ArgPosition)),
      (∀ c : Callable, c.requestedType hint kwds = request.mapError (Keywords.fault c.name)) ∧
        ∀ d position, request = .ok (some (d, position)) → ∀ i, position ≠ .source i := by
  obtain ⟨found, same, keyword⟩ := Keywords.exists_dstType?_eq kwds
  simp only [requestedType, same]
  rcases found with e | _ | ⟨d, position⟩
  · exact ⟨.error e, fun _ => rfl, fun _ _ none => by cases none⟩
  · refine ⟨.ok ((hint.filter (!·.isSymbolic)).map fun t => (t, .destination)), fun _ => rfl, ?_⟩
    intro d position same i
    obtain ⟨t, -, hinted⟩ := Option.map_eq_some_iff.mp (Except.ok.inj same)
    cases hinted
    exact ArgPosition.noConfusion
  · refine ⟨.ok (some (d, position)), fun _ => rfl, fun d' position' same i => ?_⟩
    cases same
    obtain ⟨name, rfl⟩ := keyword d position rfl
    exact ArgPosition.noConfusion

theorem requestedType_eq_ok_iff_of (c c' : Callable) {request : Option (Ty × ArgPosition)} :
    c.requestedType hint kwds = .ok request ↔ c'.requestedType hint kwds = .ok request := by
  obtain ⟨found, same, -⟩ := exists_requestedType_eq hint kwds
  rw [same, same, mapError_eq_ok_iff, mapError_eq_ok_iff]

theorem requestedType_of_none (noDst : kwds.get? Keywords.dstName = none)
    (noType : kwds.get? Keywords.dstTypeName = none) : c.requestedType none kwds = .ok none := by
  rw [requestedType, Keywords.dstType?_of_none noDst noType]
  rfl

/-- An array to write into asks for its own type. -/
theorem requestedType_of_array {request : Option (Ty × ArgPosition)} {b : NdArray}
    (given : kwds.get? Keywords.dstName = some (.array b)) (requested : c.requestedType hint kwds = .ok request) :
    request.map (·.1) = some b.ty := by
  obtain ⟨found, asked, requested⟩ := bind_eq_ok_iff.mp requested
  obtain ⟨array, arrays, asked⟩ := bind_eq_ok_iff.mp asked
  obtain ⟨type, -, asked⟩ := bind_eq_ok_iff.mp asked
  rw [Keywords.arrayType?, given] at arrays
  cases arrays
  cases type with
  | none =>
    cases asked
    cases requested
    rfl
  | some t =>
    dsimp only at asked
    split at asked
    · cases asked
      cases requested
      rfl
    · cases asked

/-- Concrete arguments resolve, with what is asked for, to what can be delivered. -/
theorem resolve_eq_ok_iff :
    c.resolve hint args kwds = .ok t ↔
      (∀ a ∈ args, a.isSymbolic = false) ∧ ∃ request ret, c.requestedType hint kwds = .ok request ∧
        c.resolveTypes (request.map (·.1)) args kwds = .ok ret ∧ Delivers (request.map (·.1)) ret t := by
  rw [← firstWhere_eq_none_iff, resolve]
  cases firstWhere Ty.isSymbolic args with
  | some found => exact iff_of_false (fun ran => by cases ran) (fun ran => by cases ran.1)
  | none =>
    simp only [true_and]
    rw [bind_eq_ok_iff]
    refine exists_congr fun request => ?_
    rw [exists_and_left]
    refine and_congr_right fun _ => ?_
    rcases request with _ | ⟨d, position⟩
    · refine ⟨fun resolved => ⟨t, resolved, fun _ => rfl, fun d none => nomatch none⟩, ?_⟩
      rintro ⟨ret, resolved, delivers⟩
      exact delivers.1 rfl ▸ resolved
    · dsimp only
      rw [bind_eq_ok_iff]
      refine exists_congr fun ret => ?_
      rw [mapError_eq_ok_iff, Option.map_some, delivers_some_iff]
      refine and_congr_right fun _ => ?_
      split
      next promotes => simp [pure, Except.pure, promotes, eq_comm]
      next refused => simp [refused]

end Callable

end ArrayCall
