import ArrayCall.Proofs.Calls.Stages
import ArrayCall.Proofs.Execution.Renumbering
import ArrayCall.Proofs.Resolution.Reordering

/-!
# Calls with reordered arguments

A permutation that does not read the destination is called as its child is called with the arguments in
the order of the slots. The graph of the one has a node above the graph of the other, and the buffers of
the arguments are numbered in another order; neither shows in the result.

* `Callable.run_outline_permute`: instantiation.
* `Callable.execute_permute`: the run, by `CallGraph.mirrors_runner`.
* `Callable.permute_agrees_with_reordered_call`: resolution and call.
-/

namespace ArrayCall

/-! ## One node above a graph -/

namespace Chain

theorem nodesFrom_succ (start : Nat) (chain : List (Kernel × NodeData)) :
    nodesFrom (start + 1) chain = (nodesFrom start chain).map Node.shift := by
  induction chain generalizing start with
  | nil => rfl
  | cons n rest inductionHypothesis =>
    cases rest with
    | nil => rfl
    | cons next rest => exact congrArg (_ :: ·) (inductionHypothesis (start + 1))

end Chain

namespace CallGraph

theorem shifted_under (first : Kernel × NodeData) (chain : Chain) :
    Shifted (empty.append chain.toList) (empty.append (chain.under first []).toList) := by
  intro id
  change (Chain.nodesFrom 0 (first :: chain.root :: chain.below))[id + 1]? =
    (Chain.nodesFrom 0 (chain.root :: chain.below))[id]?.map Node.shift
  rw [← List.getElem?_map, ← Chain.nodesFrom_succ]
  rfl

theorem descends_empty : empty.Descends := by simp [Descends, empty]

/-- A permutation runs the graph below it on the reordered addresses. -/
theorem single_under_permutation {slots : List Int} (chain : Chain) (dst : Addr) {src : List Addr}
    (inside : ∀ slot ∈ slots, slot < src.length) :
    (empty.append (chain.under (.permute, .permutation slots) []).toList).single 0 dst src =
      (empty.append (chain.under (.permute, .permutation slots) []).toList).settled.single 1 dst
        (slots.map (Node.slotAt dst src)) := by
  have shifted := shifted_under (.permute, .permutation slots) chain
  generalize whole : empty.append (chain.under (.permute, .permutation slots) []).toList = g at shifted
  have descends : g.Descends := by
    rw [← whole]
    exact descends_append descends_empty _
  have root : g.nodes[0]? = some ⟨.permute, .permutation slots, [1]⟩ := by
    rw [← whole]
    rfl
  obtain ⟨below, found⟩ : ∃ n, g.nodes[1]? = some n := by
    rw [shifted 0]
    exact ⟨_, congrArg _ (List.getElem?_eq_getElem (size_append_toList_pos empty chain))⟩
  rw [single_eq_settled descends (lt_size_of_getElem? root),
    settled_single_permute descends root rfl rfl rfl found dst inside]

/-- A graph does the same by itself and below one more node. -/
theorem mirrors_under {ρ : Nat → Nat} (injective : Function.Injective ρ) (first : Kernel × NodeData) (chain : Chain)
    (dst : Addr) (src : List Addr) :
    Run.Mirrors ρ Eq ((empty.append chain.toList).single 0 dst src)
      ((empty.append (chain.under first []).toList).settled.single 1 (dst.renumber ρ) (src.map (Addr.renumber ρ))) := by
  have descends : (empty.append chain.toList).Descends := descends_append descends_empty _
  have nonempty : 0 < (empty.append chain.toList).size := size_append_toList_pos _ _
  have same : (empty.append chain.toList).single 0 dst src =
      ((empty.append chain.toList).runner ((empty.append (chain.under first []).toList).size + 1)).single 0 dst
        src := by
    rw [single_eq_settled descends nonempty, settled]
    refine congrFun (congrFun (runner_congr descends nonempty (by omega) ?_).1 dst) src
    rw [size_append, size_append]
    simp [Chain.toList, Chain.under]
    omega
  rw [same]
  exact (mirrors_runner injective (shifted_under first chain) _).single 0 dst src

end CallGraph

namespace Callable

variable {slots : List Int} {stamp : Nat} {child : Callable} {os : Overloads} {kwds : Keywords}

/-! ## Instantiation -/

/-- Instantiation of a permutation is that of its child, for the layouts that the slots read, below one node. -/
theorem run_outline_permute (unnamed : ∀ o ∈ os, o.subject ≠ stamp) (dst : Layout) {src : List Layout}
    (length : src.length = (permute stamp child slots).arity) (inside : ∀ slot ∈ slots, slot < src.length) :
    (outline os (permute stamp child slots) dst src kwds).run =
      (Outline.above (.permute, .permutation slots) [] (outline os child dst (slots.map (Node.slotAt dst src)) kwds)
        fun e => .wrap (permute stamp child slots).name (e.mapPosition (outerPosition slots))).run := by
  rw [outline_eq_outlineNode unnamed, outlineNode_permute, Outline.run_ofExcept_bind (checkArity_eq_ok_iff.mpr length)]
  dsimp only
  rw [filterMap_slots dst inside]
  rfl

/-! ## Numbers of regions -/

theorem getElem?_sourceAddrs (args : List NdArray) (k : Nat) :
    (sourceAddrs args)[k]? = args[k]?.map fun a => ⟨k, a.offset⟩ := by
  simp only [sourceAddrs, List.getElem?_map, List.getElem?_zipIdx, Option.map_map, Nat.zero_add]
  rfl

/-- The number that the buffer of an argument of the child has among those of the permutation. -/
def regionAt (slots : List Int) (k : Nat) : Nat := (slots[k]?.map Int.toNat).getD k

section Regions

variable (fit : SlotsFit slots child.arity) (sources : ∀ slot ∈ slots, 0 ≤ slot)
include fit sources

omit sources in
theorem regionAt_of_le {k : Nat} (outside : child.arity ≤ k) : regionAt slots k = k := by
  rw [regionAt, List.getElem?_eq_none (fit.length_eq ▸ outside)]
  rfl

theorem regionAt_lt {k : Nat} (inside : k < child.arity) : regionAt slots k < child.arity := by
  have slot : k < slots.length := fit.length_eq ▸ inside
  have source := sources _ (List.getElem_mem slot)
  have bound := lt_arity_of_sources fit sources _ (List.getElem_mem slot)
  rw [regionAt, List.getElem?_eq_getElem slot, Option.map_some, Option.getD_some]
  omega

/-- Each buffer of an argument is read by one slot, and the others keep their numbers. -/
theorem regionAt_injective : Function.Injective (regionAt slots) := by
  have all : sourcesOf slots = slots.map Int.toNat := by
    rw [sourcesOf, List.filter_eq_self.mpr (by simpa using sources)]
  have distinct : (slots.map Int.toNat).Nodup := all ▸ fit.nodup
  have read : ∀ {k : Nat} (_ : k < child.arity), (slots.map Int.toNat)[k]? = some (regionAt slots k) := by
    intro k inside
    rw [regionAt, List.getElem?_map, List.getElem?_eq_getElem (fit.length_eq ▸ inside)]
    rfl
  intro i j same
  rcases Nat.lt_or_ge i child.arity with inI | outI
  · rcases Nat.lt_or_ge j child.arity with inJ | outJ
    · refine (List.getElem?_inj (by simpa [fit.length_eq] using inI) distinct).mp ?_
      rw [read inI, read inJ, same]
    · have := regionAt_lt fit sources inI
      rw [same, regionAt_of_le fit outJ] at this
      omega
  · rcases Nat.lt_or_ge j child.arity with inJ | outJ
    · have := regionAt_lt fit sources inJ
      rw [← same, regionAt_of_le fit outI] at this
      omega
    · rwa [regionAt_of_le fit outI, regionAt_of_le fit outJ] at same

variable {args : List NdArray} {dst : NdArray} (length : args.length = child.arity)
include length

theorem length_arranged : (arranged slots args).length = args.length := by
  rw [arranged_eq default sources (length ▸ lt_arity_of_sources fit sources), List.length_map, fit.length_eq, length]

theorem getElem?_arranged {k : Nat} (below : k < args.length) :
    (arranged slots args)[k]? = args[regionAt slots k]? := by
  have inside := lt_arity_of_sources fit sources
  have slot : k < slots.length := by rw [fit.length_eq, ← length]; exact below
  have source := sources _ (List.getElem_mem slot)
  have bound := inside _ (List.getElem_mem slot)
  rw [arranged_eq default sources (length ▸ inside), List.getElem?_map, regionAt, List.getElem?_eq_getElem slot,
    Option.map_some, Option.map_some, Option.getD_some, Node.slotAt, if_neg (by omega),
    List.getElem?_eq_getElem (by omega)]
  rfl

theorem renumbered_callMemory :
    (callMemory dst (arranged slots args)).Renumbered (regionAt slots) (callMemory dst args) where
  regions := by
    intro k
    have same := length_arranged fit sources length
    simp only [callMemory]
    rcases Nat.lt_or_ge k args.length with inside | outside
    · have below : regionAt slots k < args.length := length ▸ regionAt_lt fit sources (length ▸ inside)
      rw [List.getElem?_append_left (by simpa using below), List.getElem?_append_left (by simpa [same] using inside),
        List.getElem?_map, List.getElem?_map, getElem?_arranged fit sources length inside]
    · rw [regionAt_of_le fit (length ▸ outside), List.getElem?_append_right (by simpa using outside),
        List.getElem?_append_right (by simpa [same] using outside), List.length_map, List.length_map, same]
  slots := rfl
  fresh := by
    intro k
    simp only [callMemory, List.length_append, List.length_map, length_arranged fit sources length]
    exact regionAt_of_le fit (by omega)

theorem sourceAddrs_arranged (d : Addr) :
    (sourceAddrs (arranged slots args)).map (Addr.renumber (regionAt slots)) =
      slots.map (Node.slotAt d (sourceAddrs args)) := by
  refine List.ext_getElem? fun k => ?_
  rw [List.getElem?_map, List.getElem?_map, getElem?_sourceAddrs]
  rcases Nat.lt_or_ge k args.length with inside | outside
  · have slot : k < slots.length := by rw [fit.length_eq, ← length]; exact inside
    have source := sources _ (List.getElem_mem slot)
    have below : regionAt slots k < args.length := length ▸ regionAt_lt fit sources (length ▸ inside)
    have region : regionAt slots k = slots[k].toNat := by
      rw [regionAt, List.getElem?_eq_getElem slot]
      rfl
    rw [getElem?_arranged fit sources length inside, List.getElem?_eq_getElem slot, Option.map_some, Node.slotAt,
      if_neg (by omega), getElem?_sourceAddrs, ← region, List.getElem?_eq_getElem below]
    rfl
  · rw [List.getElem?_eq_none (by rw [length_arranged fit sources length]; exact outside),
      List.getElem?_eq_none (by rw [fit.length_eq, ← length]; exact outside)]
    rfl

end Regions

/-! ## The run -/

theorem execute_permute (fit : SlotsFit slots child.arity) (sources : ∀ slot ∈ slots, 0 ≤ slot)
    {args : List NdArray} (length : args.length = child.arity) (dst : NdArray) (chain : Chain) :
    (∃ r, execute (.append .empty (chain.under (.permute, .permutation slots) []).toList) 0 dst args = .ok r ∧
        execute (.append .empty chain.toList) 0 dst (arranged slots args) = .ok r) ∨
      ∃ e e', execute (.append .empty (chain.under (.permute, .permutation slots) []).toList) 0 dst args = .error e ∧
        execute (.append .empty chain.toList) 0 dst (arranged slots args) = .error e' ∧
        e.kind = .execution ∧ e'.kind = .execution := by
  have inside : ∀ slot ∈ slots, slot < (sourceAddrs args).length := by
    simpa [sourceAddrs, length] using lt_arity_of_sources fit sources
  have mirrors := CallGraph.mirrors_under (regionAt_injective fit sources) (.permute, .permutation slots) chain
    ⟨args.length, dst.offset⟩ (sourceAddrs (arranged slots args)) (callMemory dst (arranged slots args))
    (callMemory dst args) (renumbered_callMemory fit sources length)
  have last : regionAt slots args.length = args.length := regionAt_of_le fit (Nat.le_of_eq length.symm)
  rw [sourceAddrs_arranged fit sources length ⟨args.length, dst.offset⟩, Addr.renumber, last] at mirrors
  simp only [execute, length_arranged fit sources length, CallGraph.single_under_permutation chain _ inside]
  obtain ⟨_, _, m, m', ran, ran', -, renumbered⟩ | ⟨e, e', _, _, ran, ran', kind, kind'⟩ := mirrors
  · have region := renumbered.regions args.length
    rw [last] at region
    refine .inl ⟨{ dst with data := (m.regions[args.length]?.map Region.bytes).getD dst.data }, ?_, ?_⟩
    · rw [ran']
      simp only [region]
    · rw [ran]
  · refine .inr ⟨e', e, ?_, ?_, kind', kind⟩
    · rw [ran']
    · rw [ran]

/-! ## The law -/

theorem arranged_map {α β : Type} (f : α → β) (list : List α) :
    (arranged slots list).map f = arranged slots (list.map f) := by
  simp only [arranged, List.map_filterMap, List.getElem?_map]

theorem runInto_permute (fit : SlotsFit slots child.arity) (sources : ∀ slot ∈ slots, 0 ≤ slot)
    (unnamed : ∀ o ∈ os, o.subject ≠ stamp) {args : List NdArray} (length : args.length = child.arity)
    (kwds : Keywords) (dst : NdArray) :
    (∃ r, runInto os (permute stamp child slots) kwds args dst = .ok r ∧
        runInto os child kwds (arranged slots args) dst = .ok r) ∨
      ∃ e e', runInto os (permute stamp child slots) kwds args dst = .error e ∧
        runInto os child kwds (arranged slots args) dst = .error e' ∧ e.rootCause.kind = e'.rootCause.kind := by
  simp only [runInto, arranged_map]
  have taken : (args.map (·.layout)).length = (permute stamp child slots).arity := by
    rw [List.length_map, length, arity_permute_of_sources fit sources]
  have inside : ∀ slot ∈ slots, slot < (args.map (·.layout)).length := by
    rw [List.length_map, length]
    exact lt_arity_of_sources fit sources
  rw [run_outline_permute unnamed dst.layout taken inside, ← arranged_eq dst.layout sources inside]
  generalize outline os child dst.layout (arranged slots (args.map (·.layout))) kwds = below
  rcases below with _ | e | chain
  · exact .inr ⟨_, _, rfl, rfl, rfl⟩
  · refine .inr ⟨_, _, rfl, rfl, ?_⟩
    rw [CallError.rootCause_wrap, CallError.kind_rootCause_mapPosition]
  · obtain ran | ⟨e, e', ran, ran', kind, kind'⟩ := execute_permute fit sources length dst chain
    · exact .inl ran
    · refine .inr ⟨e, e', ran, ran', ?_⟩
      rw [CallError.kind_rootCause_of_execution kind, CallError.kind_rootCause_of_execution kind']

/-- A permutation whose slots all read sources, and which is not overloaded itself, is its child with the
arguments in the order of the slots. It resolves to the same type for every hint, or fails in the same way,
at the argument that the caller passed for the one that the child rejects. And it returns what the child
returns, or both calls fail for a reason of one kind. -/
theorem permute_agrees_with_reordered_call {c : Callable} (built : child.permuted stamp slots = .ok c)
    (sources : ∀ slot ∈ slots, 0 ≤ slot) (unnamed : ∀ o ∈ os, o.subject ≠ stamp) (kwds : Keywords) :
    (∀ (hint : Option Ty) (types : List Ty), types.length = c.arity → (∀ t ∈ types, t.isSymbolic = false) →
      Agree (throughSlots slots) (c.resolve hint types kwds) (child.resolve hint (arranged slots types) kwds)) ∧
    ∀ args : List NdArray, args.length = c.arity → (∀ a ∈ args, a.ty.isSymbolic = false) →
      (∃ r, c.call os args kwds = .ok r ∧ child.call os (arranged slots args) kwds = .ok r) ∨
      ∃ e e', c.call os args kwds = .error e ∧ child.call os (arranged slots args) kwds = .error e' ∧
        e.rootCause.kind = e'.rootCause.kind := by
  obtain ⟨rfl, fit⟩ := of_permuted_eq_ok built
  rw [arity_permute_of_sources fit sources]
  refine ⟨fun hint types length concrete => agree_resolve_permute fit sources length concrete hint, ?_⟩
  intro args length concrete
  have resolved : Agree (throughSlots slots) ((permute stamp child slots).resolve none (args.map (·.ty)) kwds)
      (child.resolve none ((arranged slots args).map (·.ty)) kwds) := by
    rw [arranged_map]
    exact agree_resolve_permute fit sources (by simpa using length) (by simpa using concrete) none
  rw [call_eq, call_eq]
  generalize (permute stamp child slots).resolve none (args.map (·.ty)) kwds = x at resolved
  generalize child.resolve none ((arranged slots args).map (·.ty)) kwds = x' at resolved
  rcases x with e | ret <;> rcases x' with e' | ret'
  · exact .inr ⟨e, e', rfl, rfl, resolved.2.1⟩
  · cases resolved
  · cases resolved
  · obtain rfl : ret = ret' := resolved
    cases found : destination kwds ret with
    | error e => exact .inr ⟨e, e, by simp [bind, Except.bind, found], by simp [bind, Except.bind, found], rfl⟩
    | ok dst =>
      have ran := runInto_permute fit sources unnamed length (kwds.erase Keywords.dstName) dst
      simpa only [bind, Except.bind, found] using ran

/-- Two numbers are subtracted from one, in a wider kind, by an overload that multiplies instead. -/
theorem permute_agrees_of_overloaded_subtraction :
    let int : Ty := .scalar (.int .w32)
    let long : Ty := .scalar (.int .w64)
    let subtract : Callable :=
      .leaf 0 "subtract[int32]" (Builtins.uniform 2 int) ⟨.fixed (.binary .subtract (.int .w32)), none⟩
    let multiply : Callable :=
      .leaf 1 "multiply[int32]" (Builtins.uniform 2 int) ⟨.fixed (.binary .multiply (.int .w32)), none⟩
    let child : Callable := .lift 2 subtract none
    let c : Callable := .permute 3 child [1, 0]
    let os : Overloads := [⟨0, long, [int, int], multiply⟩]
    let numbers : NdArray := .ofList (.int .w32) [.int 3, .int 4]
    let ten : NdArray := .scalar (.int .w32) (.int 10)
    let kwds : Keywords := NameTable.empty.insert "dst_tp" (.type (.fixedDim 2 long))
    child.permuted 3 [1, 0] = .ok c ∧ (∀ slot ∈ ([1, 0] : List Int), 0 ≤ slot) ∧ (∀ o ∈ os, o.subject ≠ 3) ∧
      arranged [1, 0] [numbers, ten] = [ten, numbers] ∧
      c.call os [numbers, ten] kwds = .ok (.ofList (.int .w64) [.int 30, .int 40]) := by
  intro int long subtract multiply child c os numbers ten kwds
  have built : child.permuted 3 [1, 0] = .ok c := rfl
  have sources : ∀ slot ∈ ([1, 0] : List Int), 0 ≤ slot := by decide
  have unnamed : ∀ o ∈ os, o.subject ≠ 3 := by simp [os]
  have order : arranged [1, 0] [numbers, ten] = [ten, numbers] := rfl
  have ran : child.call os [ten, numbers] kwds = .ok (.ofList (.int .w64) [.int 30, .int 40]) := by cbv
  refine ⟨built, sources, unnamed, order, ?_⟩
  obtain ⟨r, called, same⟩ | ⟨e, e', -, failed, -⟩ :=
    (permute_agrees_with_reordered_call built sources unnamed kwds).2 [numbers, ten] rfl
    (by simp [numbers, ten]; decide)
  · rw [order, ran] at same
    exact called.trans same.symm
  · rw [order, ran] at failed
    cases failed

end Callable

end ArrayCall
