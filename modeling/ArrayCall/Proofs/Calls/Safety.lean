import ArrayCall.Proofs.Arrays
import ArrayCall.Proofs.Calls.Stages
import ArrayCall.Proofs.Instantiation.AllOrNothing
import ArrayCall.Proofs.Instantiation.Errors
import ArrayCall.Proofs.Instantiation.Safety

/-!
# Calls that stay within memory

The memory of a call serves all elements of its arguments and of its destination, since these were checked
when the arrays were built (`Callable.serves_callMemory`). So a callable of own kernels reads and writes
nothing else, and finds every node that it needs: of all that can go wrong while it runs, only a division
by the integer zero does (`Callable.call_fails_only_by_division`).
-/

namespace ArrayCall.Callable

open CallError (IsStatic)

variable {c : Callable} {args : List NdArray} {dst : NdArray} {kwds : Keywords}

/-- An error that comes of no execution, or of a division by zero. -/
def ComesOfDivision (e : CallError) : Prop := e.IsStatic ∨ ∃ kernel, e = .execution kernel .divisionByZero

/-! ## The memory of a call -/

theorem concrete_layout {a : NdArray} (bounded : a.Bounded) : a.layout.Concrete := ⟨bounded.concrete, bounded.fits⟩

theorem concrete_layout_of_built {a : NdArray} (built : a.Built) : a.layout.Concrete :=
  ⟨built.concrete_and_fits.1, built.concrete_and_fits.2⟩

/-- The elements of an array lie in the region of its buffer. -/
theorem throughout_layout {a : NdArray} (bounded : a.Bounded) {P : Addr → Nat → Prop} {region : Nat}
    (inside : ∀ (place : Int) (length : Nat), 0 ≤ place → place + length ≤ a.data.size → P ⟨region, place⟩ length) :
    a.layout.Throughout P ⟨region, a.offset⟩ := by
  intro index within
  obtain ⟨least, most⟩ := bounded.inside index within
  exact inside _ _ least most

theorem serves_callMemory (bounded : ∀ a ∈ args, a.Bounded) (target : dst.Bounded) :
    (callMemory dst args).Serves dst.layout (args.map (·.layout)) ⟨args.length, dst.offset⟩ (sourceAddrs args) where
  writable := by
    have there : (callMemory dst args).regions[args.length]? = some ⟨.exclusive, dst.data⟩ := by simp [callMemory]
    exact throughout_layout target fun place length least most =>
      ⟨_, there, by simp, least, by simp only; omega⟩
  readable := by
    rw [List.forall₂_map_right_iff, sourceAddrs, List.forall₂_map_left_iff, List.forall₂_iff_get]
    refine ⟨List.length_zipIdx, fun i inside there => ?_⟩
    have region : (callMemory dst args).regions[i]? = some ⟨.shared, args[i].data⟩ := by
      rw [callMemory, List.getElem?_append_left (by simpa using there)]
      simp [there]
    simp only [List.get_eq_getElem, List.getElem_zipIdx, Nat.zero_add]
    exact throughout_layout (bounded _ (List.getElem_mem there)) fun place length least most =>
      ⟨_, region, least, by simp only; omega⟩

theorem fails_destination (kwds : Keywords) (ret : Ty) : Fails IsStatic (destination kwds ret) := by
  rw [destination]
  split
  · exact fails_ok _
  · intro e failed
    obtain rfl | rfl := NdArray.fails_zeros ret e failed
    all_goals rintro ⟨⟩

/-- A call writes into the array that was passed, or into new zeros. -/
theorem of_destination {P : NdArray → Prop} {ret : Ty} (destined : destination kwds ret = .ok dst)
    (zeros : ∀ a, NdArray.zeros ret = .ok a → P a)
    (given : ∀ b, kwds.get? Keywords.dstName = some (.array b) → P b) : P dst := by
  rw [destination] at destined
  split at destined
  next b asked =>
    cases destined
    exact given _ asked
  next => exact zeros dst destined

theorem built_of_destination {ret : Ty} (destined : destination kwds ret = .ok dst)
    (given : ∀ b, kwds.get? Keywords.dstName = some (.array b) → b.Built) : dst.Built :=
  of_destination destined (fun _ => .zeros) given

theorem constructed_of_destination {ret : Ty} (destined : destination kwds ret = .ok dst)
    (given : ∀ b, kwds.get? Keywords.dstName = some (.array b) → b.Constructed) : dst.Constructed :=
  of_destination destined (fun _ => NdArray.constructed_of_zeros_eq_ok) given

/-! ## The run -/

theorem fails_execute {chain : Chain} (safe : Chain.Safe dst.layout (args.map (·.layout)) chain.toList)
    (bounded : ∀ a ∈ args, a.Bounded) (target : dst.Bounded) :
    Fails ComesOfDivision (execute (CallGraph.empty.append chain.toList) 0 dst args) := by
  have handed : (CallGraph.empty.append chain.toList).Handed :=
    CallGraph.handed_append (CallGraph.handed_of_assembled .empty) safe.takes
  have own : (callMemory dst args).OwnScratch (args.length + 1) :=
    Memory.ownScratch_of_slots_eq_nil rfl (by simp [callMemory])
  have continues : (CallGraph.empty.append chain.toList).Continues 0 chain.toList :=
    CallGraph.continues_append .empty chain.toList
  have contained := safe.contained handed continues own (serves_callMemory bounded target)
  have nonempty : 0 < (CallGraph.empty.append chain.toList).size := CallGraph.size_append_toList_pos _ _
  simp only [execute, CallGraph.single_eq_settled handed.descends nonempty]
  generalize (CallGraph.empty.append chain.toList).settled.single 0 _ _ _ = outcome at contained ⊢
  obtain ⟨e | _, m⟩ := outcome
  · exact fails_error (.inr contained)
  · exact fails_ok _

/-- Without overloads instantiation has an end, and what it comes to is safe. -/
theorem fails_runInto (composed : c.Composed) (bounded : ∀ a ∈ args, a.Bounded) (target : dst.Bounded)
    (kwds : Keywords) : Fails ComesOfDivision (runInto [] c kwds args dst) := by
  have concrete : ∀ l ∈ args.map (·.layout), l.Concrete := by
    intro l member
    obtain ⟨a, listed, rfl⟩ := List.mem_map.mp member
    exact concrete_layout (bounded a listed)
  have none : ∀ o ∈ ([] : Overloads), o.subject ≠ c.stamp := by simp
  have acyclic : Overloads.Acyclic [] := Overloads.acyclic_of_lt fun o member => nomatch member
  have ends := outline_ends acyclic c dst.layout (args.map (·.layout)) kwds
  have refuses := refuses_outline [] c dst.layout (args.map (·.layout)) kwds
  have safe : (outline [] c dst.layout (args.map (·.layout)) kwds).Yields fun chain =>
      Chain.Safe dst.layout (args.map (·.layout)) chain.toList := by
    rw [outline_eq_outlineNode none]
    exact composed.built.formed.safe (concrete_layout target) concrete
  simp only [runInto]
  generalize outline [] c dst.layout (args.map (·.layout)) kwds = outlined at ends refuses safe ⊢
  rcases outlined with _ | e | chain
  · cases ends
  · exact fails_error (.inl (refuses e rfl))
  · exact fails_execute (safe chain rfl) bounded target

/-- A call of any callable of own kernels, with arrays that can be built and lie inside their buffers and with any
keywords, either delivers or fails: before anything is executed, or by a division by the integer zero. It reads nothing
outside the arrays and its own scratch, writes nothing that is read-only, and misses no region, child or source. -/
theorem call_fails_only_by_division (composed : c.Composed) (constructed : ∀ a ∈ args, a.Constructed)
    (given : ∀ b, kwds.get? Keywords.dstName = some (.array b) → b.Constructed) {e : CallError}
    (failed : c.call [] args kwds = .error e) (executed : e.rootCause.kind = .execution) :
    ∃ kernel, e = .execution kernel .divisionByZero := by
  have bounded : ∀ a ∈ args, a.Bounded := fun a member => (constructed a member).bounded
  have fails : Fails ComesOfDivision (c.call [] args kwds) := by
    rw [call_eq]
    refine fails_bind (fun e failed => .inl (fails_resolve c none _ kwds e failed)) fun ret _ => ?_
    refine fails_bind (fun e failed => .inl (fails_destination kwds ret e failed)) fun dst destined => ?_
    exact fails_runInto composed bounded (constructed_of_destination destined given).bounded _
  exact (fails e failed).resolve_left fun static => static executed

/-- An array read backwards and divided by an array with a zero in it, the other way round than the arguments
are given, into an array of a wider kind. -/
theorem call_fails_by_division_of_reversed_view :
    let byte : Kind := .int .w8
    let wide : Kind := .int .w16
    let a : NdArray := ⟨.fixedDim 2 (.scalar byte), .ofList [0, 1], 1, [-1]⟩
    let b : NdArray := NdArray.ofList byte [.int 6, .int 7]
    let dst : NdArray := NdArray.ofList wide [.int 0, .int 0]
    let kwds : Keywords := NameTable.empty.insert Keywords.dstName (.array dst)
    let c : Callable := .permute 12 (.lift 11 (Builtins.binaryOver {} .divide 0) none) [1, 0]
    let e : CallError := .execution (some "divide") .divisionByZero
    c.Composed ∧ (∀ x ∈ [a, b], x.Constructed) ∧
      (∀ b, kwds.get? Keywords.dstName = some (.array b) → b.Constructed) ∧ c.call [] [a, b] kwds = .error e ∧
      e.rootCause.kind = .execution ∧ ∃ kernel, e = .execution kernel .divisionByZero := by
  intro byte wide a b dst kwds c e
  have composed : c.Composed :=
    .permute (.elwise (.binaryDispatch (Builtins.binaryDispatch_eq {} .divide 0)))
      (show Callable.permuted 12 (.elwise 11 (Builtins.binaryOver {} .divide 0)) [1, 0] = .ok c from rfl)
  have view : a.Built := .ofParts (by decide)
    (show NdArray.ofParts (.fixedDim 2 (.scalar byte)) (.ofList [0, 1]) 1 [-1] = .ok a from by cbv)
  have constructed : ∀ x ∈ [a, b], x.Constructed := by
    simpa using ⟨view.constructed (by decide), NdArray.constructed_ofList byte _⟩
  have asked : kwds.get? Keywords.dstName = some (.array dst) := NameTable.get?_insert_self ..
  have given : ∀ b, kwds.get? Keywords.dstName = some (.array b) → b.Constructed := by
    intro other found
    cases asked.symm.trans found
    exact NdArray.constructed_ofList wide _
  have failed : c.call [] [a, b] kwds = .error e := by cbv
  exact ⟨composed, constructed, given, failed, rfl, call_fails_only_by_division composed constructed given failed rfl⟩

/-- A view whose first stride leads out of its buffer, and which is accepted because its size is a negative number when
it is read as a signed word. Its sum in a wider kind goes from element to element, so that it reads in front of the
buffer. -/
theorem call_leaves_buffer_of_large_view :
    let byte : Kind := .int .w8
    let a : NdArray := ⟨.fixedDim (2 ^ 64 - 1) (.scalar byte), .ofList [0, 1, 2], 0, [-1]⟩
    let kwds : Keywords := NameTable.empty.insert Keywords.dstTypeName (.type (.scalar (.int .w32)))
    let c : Callable := .reduce 11 (.permute 12 (Builtins.binaryOver {} .add 0) [-1, 0]) none
    let e : CallError := .execution (some "convert") (.outsideRegion 1 (-1) 0 3)
    c.Composed ∧ a.Built ∧ kwds.get? Keywords.dstName = none ∧ c.call [] [a] kwds = .error e ∧
      e.rootCause.kind = .execution ∧ ¬∃ kernel, e = .execution kernel .divisionByZero := by
  intro byte a kwds c e
  have composed : c.Composed :=
    .reduce (.binaryDispatch (Builtins.binaryDispatch_eq {} .add 0))
      (show Callable.reduced 11 12 (Builtins.binaryOver {} .add 0) .left none = .ok c from rfl)
  have view : a.Built := .ofParts (by decide)
    (show NdArray.ofParts (.fixedDim (2 ^ 64 - 1) (.scalar byte)) (.ofList [0, 1, 2]) 0 [-1] = .ok a from by cbv)
  have failed : c.call [] [a] kwds = .error e := by cbv
  refine ⟨composed, view, rfl, failed, rfl, ?_⟩
  rintro ⟨kernel, same⟩
  injection same with _ fault
  cases fault

end ArrayCall.Callable
