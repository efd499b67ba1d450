import ArrayCall.Builtins
import ArrayCall.Proofs.Calls.Stages
import ArrayCall.Proofs.DispatchTables
import ArrayCall.Proofs.Resolution.Requests

/-!
# The entry that a dispatch callable selects

A dispatch callable does what the entry does that it selects for the arguments, if it lets the call
through to it. It takes the keywords of all entries, of each name the one that is declared first, and so
it demands what any of them requires, whichever entry is selected.

* `Callable.call_dispatch_eq_ok_iff`: a dispatch callable gives a result just where the entry gives it and
  all that the dispatch callable requires is there.
* `Callable.call_dispatch_refuses_entry`: an entry without keywords that cannot be reached, because of a
  keyword that another one requires.
-/

namespace ArrayCall.Callable

/-! ## Keywords of all entries -/

theorem mem_foldl_joinKwds_iff {known declared : List KeywordParam} {k : KeywordParam} :
    k ∈ declared.foldl (fun kwds k => if kwds.any (·.name == k.name) then kwds else kwds ++ [k]) known ↔
      k ∈ known ∨ (∀ other ∈ known, other.name ≠ k.name) ∧ declared.find? (·.name == k.name) = some k := by
  induction declared generalizing known with
  | nil => simp
  | cons first declared inductionHypothesis =>
    rw [List.foldl_cons, inductionHypothesis, List.find?_cons]
    by_cases same : first.name = k.name
    · by_cases old : known.any (·.name == first.name)
      · grind
      · grind
    · grind

/-- Of each name that is declared, the first declaration is kept. -/
theorem mem_joinKwds_iff {lists : List (List KeywordParam)} {k : KeywordParam} :
    k ∈ joinKwds lists ↔ lists.flatten.find? (·.name == k.name) = some k := by
  rw [joinKwds, mem_foldl_joinKwds_iff]
  simp

theorem exists_mem_joinKwds {lists : List (List KeywordParam)} {list : List KeywordParam} {k : KeywordParam}
    (listed : list ∈ lists) (declared : k ∈ list) : ∃ found ∈ joinKwds lists, found.name = k.name := by
  have member : k ∈ lists.flatten := List.mem_flatten.mpr ⟨list, listed, declared⟩
  cases first : lists.flatten.find? (·.name == k.name) with
  | none => simpa using List.find?_eq_none.mp first k member
  | some found =>
    have name : found.name = k.name := by simpa using List.find?_some first
    exact ⟨found, mem_joinKwds_iff.mpr (name ▸ first), name⟩

variable {stamp : Nat} {name : String} {arity : Nat} {table : Dispatcher Callable} {c target : Callable}
  {os : Overloads} {kwds : Keywords}

/-! ## Resolution and the run -/

/-- The keywords that a dispatch callable requires are there. -/
def GivesRequired (table : Dispatcher Callable) (kwds : Keywords) : Prop :=
  ∀ k ∈ joinKwds (table.entries.map (·.2.signature.kwds)), k.optional ∨ kwds.contains k.name

theorem resolveTypes_dispatch_iff_target {sig : Signature} {dst : Option Ty} {args : List Ty} {ret : Ty}
    (selected : table.dispatch (args.map Ty.typeId) = .ok target) (arity : target.arity = sig.arity)
    (keywords : sig.kwds = joinKwds (table.entries.map (·.2.signature.kwds))) :
    (dispatch stamp name sig table).resolveTypes dst args kwds = .ok ret ↔
      target.resolveTypes dst args kwds = .ok ret ∧ GivesRequired table kwds := by
  obtain ⟨key, member⟩ := Dispatcher.exists_mem_of_dispatch selected
  rw [resolveTypes_dispatch_eq_ok_iff, selected, Takes, Keywords.checkAgainst_eq_ok_iff]
  simp only [Except.ok.injEq, exists_eq_left']
  change (args.length = sig.arity ∧ _ ∧ ∀ k ∈ sig.kwds, _) ∧ _ ↔ _
  rw [keywords, ← GivesRequired]
  constructor
  · rintro ⟨⟨-, -, required⟩, resolved⟩
    exact ⟨resolved, required⟩
  · rintro ⟨resolved, required⟩
    obtain ⟨length, checked⟩ := takes_of_resolveTypes_eq_ok resolved
    refine ⟨⟨length.trans arity, fun n given => ?_, required⟩, resolved⟩
    obtain ⟨k, declared, rfl⟩ := (Keywords.checkAgainst_eq_ok_iff.mp checked).1 n given
    have entry : target.signature.kwds ∈ table.entries.map (·.2.signature.kwds) := List.mem_map.mpr ⟨_, member, rfl⟩
    obtain ⟨found, listed, same⟩ := exists_mem_joinKwds entry declared
    exact ⟨found, keywords ▸ listed, same⟩

theorem resolve_dispatch_eq_ok_iff (built : ofTable stamp name arity table = .ok c) {hint : Option Ty}
    {args : List Ty} (selected : table.dispatch (args.map Ty.typeId) = .ok target) {ret : Ty} :
    c.resolve hint args kwds = .ok ret ↔ target.resolve hint args kwds = .ok ret ∧ GivesRequired table kwds := by
  obtain ⟨rfl, arities⟩ := of_ofTable_eq_ok built
  obtain ⟨key, member⟩ := Dispatcher.exists_mem_of_dispatch selected
  have same : target.arity = (Signature.mk (List.replicate arity .any)
      (joinKwds (table.entries.map (·.2.signature.kwds))) .any).arity := by
    rw [(arities _ member).2, Signature.arity, List.length_replicate]
  simp only [resolve_eq_ok_iff, resolveTypes_dispatch_iff_target selected same rfl,
    requestedType_eq_ok_iff_of _ target]
  constructor
  · rintro ⟨concrete, request, found, asked, ⟨resolved, required⟩, delivers⟩
    exact ⟨⟨concrete, request, found, asked, resolved, delivers⟩, required⟩
  · rintro ⟨⟨concrete, request, found, asked, resolved, delivers⟩, required⟩
    exact ⟨concrete, request, found, asked, ⟨resolved, required⟩, delivers⟩

/-- Instantiation of a dispatch callable is that of the entry. -/
theorem run_outline_dispatch (built : ofTable stamp name arity table = .ok c)
    (unnamed : ∀ o ∈ os, o.subject ≠ stamp) (dst : Layout) {src : List Layout}
    (length : src.length = target.arity)
    (selected : table.dispatch ((src.map (·.ty)).map Ty.typeId) = .ok target) (kwds : Keywords) :
    (outline os c dst src kwds).run = (outline os target dst src kwds).run := by
  obtain ⟨rfl, arities⟩ := of_ofTable_eq_ok built
  obtain ⟨key, member⟩ := Dispatcher.exists_mem_of_dispatch selected
  have checked : (dispatch stamp name ⟨List.replicate arity .any,
      joinKwds (table.entries.map (·.2.signature.kwds)), .any⟩ table).checkArity src.length = .ok () := by
    rw [checkArity_eq_ok_iff, length, (arities _ member).2]
    exact List.length_replicate.symm
  rw [outline_eq_outlineNode unnamed, outlineNode_dispatch, Outline.run_ofExcept_bind checked]
  cases found : table.dispatch ((src.map (·.ty)).map Ty.typeId) with
  | error position => cases found.symm.trans selected
  | ok other =>
    obtain rfl : other = target := Except.ok.inj (found.symm.trans selected)
    rfl

/-- A dispatch callable without overloads of its own gives a result just where the entry that it selects
gives it and every keyword is there that the dispatch callable requires: of each name that some entry
declares the first declaration, unless that is optional. -/
theorem call_dispatch_eq_ok_iff (built : ofTable stamp name arity table = .ok c)
    (unnamed : ∀ o ∈ os, o.subject ≠ stamp) {args : List NdArray}
    (selected : table.dispatch (args.map (·.ty.typeId)) = .ok target) (kwds : Keywords) (r : NdArray) :
    c.call os args kwds = .ok r ↔
      target.call os args kwds = .ok r ∧
        ∀ k ∈ joinKwds (table.entries.map (·.2.signature.kwds)), k.optional ∨ kwds.contains k.name := by
  have types : table.dispatch ((args.map (·.ty)).map Ty.typeId) = .ok target := by rwa [List.map_map]
  have layouts : table.dispatch (((args.map (·.layout)).map (·.ty)).map Ty.typeId) = .ok target := by
    rwa [List.map_map, List.map_map]
  have run : ∀ {ret : Ty} {dst : NdArray}, target.resolve none (args.map (·.ty)) kwds = .ok ret →
      (runInto os c (kwds.erase Keywords.dstName) args dst = .ok r ↔
        runInto os target (kwds.erase Keywords.dstName) args dst = .ok r) := by
    intro ret dst resolved
    obtain ⟨-, request, found, -, resolved, -⟩ := resolve_eq_ok_iff.mp resolved
    have length := (takes_of_resolveTypes_eq_ok resolved).1
    rw [List.length_map] at length
    rw [runInto_eq_ok_iff, runInto_eq_ok_iff, run_outline_dispatch built unnamed _ (by simpa using length) layouts]
  rw [call_eq_ok_iff, call_eq_ok_iff]
  simp only [resolve_dispatch_eq_ok_iff built types]
  constructor
  · rintro ⟨ret, dst, ⟨resolved, required⟩, destination, ran⟩
    exact ⟨⟨ret, dst, resolved, destination, (run resolved).mp ran⟩, required⟩
  · rintro ⟨⟨ret, dst, resolved, destination, ran⟩, required⟩
    exact ⟨ret, dst, ⟨resolved, required⟩, destination, (run resolved).mpr ran⟩

/-- Two entries declare the same keyword, and the one that requires it comes first: the other one is
reached where it is given. -/
theorem call_dispatch_of_shared_keyword :
    let int : Ty := .scalar (.int .w32)
    let long : Ty := .scalar (.int .w64)
    let add : Callable := .leaf 0 "add[int32]" ⟨[int, int], [⟨"mode", .any, false⟩], int⟩
      ⟨.fixed (.binary .add (.int .w32)), none⟩
    let subtract : Callable := .leaf 1 "subtract[int64]" ⟨[long, long], [⟨"mode", .any, true⟩], long⟩
      ⟨.fixed (.binary .subtract (.int .w64)), none⟩
    let table : Dispatcher Callable :=
      .after {} [([.scalar (.int .w32), .scalar (.int .w32)], add),
        ([.scalar (.int .w64), .scalar (.int .w64)], subtract)]
    let c : Callable := .dispatch 2 "pick" ⟨[.any, .any], [⟨"mode", .any, false⟩], .any⟩ table
    let os : Overloads := [⟨0, int, [int, int], subtract⟩]
    let args : List NdArray := [.scalar (.int .w64) (.int 7), .scalar (.int .w16) (.int 2)]
    let kwds : Keywords := NameTable.empty.insert "mode" (.scalar (.bool true))
    ofTable 2 "pick" 2 table = .ok c ∧ (∀ o ∈ os, o.subject ≠ 2) ∧
      table.dispatch (args.map (·.ty.typeId)) = .ok subtract ∧
      c.call os args kwds = .ok (.scalar (.int .w64) (.int 5)) := by
  intro int long add subtract table c os args kwds
  have built : ofTable 2 "pick" 2 table = .ok c := rfl
  have unnamed : ∀ o ∈ os, o.subject ≠ 2 := by simp [os]
  have selected : table.dispatch (args.map (·.ty.typeId)) = .ok subtract := rfl
  have ran : subtract.call os args kwds = .ok (.scalar (.int .w64) (.int 5)) := by cbv
  refine ⟨built, unnamed, selected, (call_dispatch_eq_ok_iff built unnamed selected kwds _).mpr ⟨ran, ?_⟩⟩
  decide

/-- A copy beside a scale cannot be reached: the dispatch callable requires the factor of the scale, which
the copy does not take. -/
theorem call_dispatch_refuses_entry :
    let scale : Callable := .leaf 0 "scale" { Builtins.uniform 1 (.typeVar "T") with kwds := [⟨"factor", .any, false⟩] }
      ⟨.perKind .scale, some .factor⟩
    let copy : Callable := .leaf 1 "assign[T]" (Builtins.uniform 1 (.typeVar "T")) ⟨.fixed .assign, some .cast⟩
    let table : Dispatcher Callable := .after {} [([.scalar (.int .w32)], scale), ([.scalar (.int .w64)], copy)]
    let c : Callable := .dispatch 2 "pick" ⟨[.any], [⟨"factor", .any, false⟩], .any⟩ table
    let seven : NdArray := .scalar (.int .w64) (.int 7)
    ofTable 2 "pick" 1 table = .ok c ∧ table.dispatch [seven.ty.typeId] = .ok copy ∧
      copy.call [] [seven] .empty = .ok seven ∧ ∀ (kwds : Keywords) (r : NdArray), c.call [] [seven] kwds ≠ .ok r := by
  intro scale copy table c seven
  have built : ofTable 2 "pick" 1 table = .ok c := rfl
  have selected : table.dispatch ([seven.ty].map Ty.typeId) = .ok copy := rfl
  have copied : copy.call [] [seven] .empty = .ok seven := by cbv
  refine ⟨built, selected, copied, fun kwds r ran => ?_⟩
  obtain ⟨ret, -, resolved, -⟩ := call_eq_ok_iff.mp ran
  obtain ⟨resolved, required⟩ := (resolve_dispatch_eq_ok_iff built selected).mp resolved
  obtain ⟨-, request, found, -, resolved, -⟩ := resolve_eq_ok_iff.mp resolved
  have declared := (Keywords.checkAgainst_eq_ok_iff.mp (takes_of_resolveTypes_eq_ok resolved).2).1
  have given : kwds.contains "factor" := (required ⟨"factor", .any, false⟩ (by decide)).resolve_left (by decide)
  obtain ⟨k, none, -⟩ := declared "factor" (Keywords.mem_userNames_iff.mpr ⟨given, by decide, by decide⟩)
  cases none

end ArrayCall.Callable
