import ArrayCall.Proofs.Calls.Safety
import ArrayCall.Proofs.Instantiation.Lockstep

/-!
# Calls do not see memory layouts

Arrays of one type with the same bytes for each element (`NdArray.SameContents`) are the same to every call, whatever
their offsets, strides and buffers are: resolution reads types, instantiation differs in the strides of its loops
only, and the two runs are in step (`Callable.execute_eq_of_inStep`). So no byte outside the elements of an argument
has an influence on a result or an error (`Callable.call_eq_of_sameContents`).
-/

namespace ArrayCall

/-! ## Elements in order -/

namespace NdArray

/-- The bytes of each element, the last index running fastest. -/
def elementBytes (a : NdArray) : List Bytes :=
  (indices a.shape).map fun index => a.data.slice (a.place index).toNat a.ty.elementSize

/-- Arrays of one type whose elements are the same bytes, in memory layouts of their own. -/
structure SameContents (a b : NdArray) : Prop where
  ty_eq : b.ty = a.ty
  elementBytes_eq : b.elementBytes = a.elementBytes

variable {a b : NdArray}

theorem SameContents.slice_eq (same : SameContents a b) {index : List Nat} (inside : IsIndex a.ty.shape index) :
    b.data.slice (b.place index).toNat a.ty.elementSize = a.data.slice (a.place index).toNat a.ty.elementSize := by
  have elements := same.elementBytes_eq
  rw [elementBytes, elementBytes, shape, shape, same.ty_eq, List.map_inj_left] at elements
  exact elements index (mem_indices_iff.mpr inside)

end NdArray

/-- Two arrays of the same contents. -/
structure ArrayPair where
  left : NdArray
  right : NdArray
  same : left.SameContents right
  leftBounded : left.Bounded
  rightBounded : right.Bounded

namespace ArrayPair

def layouts (p : ArrayPair) : LayoutPair :=
  ⟨p.left.layout, p.right.layout, p.same.ty_eq, Callable.concrete_layout p.leftBounded,
    Callable.concrete_layout p.rightBounded⟩

/-- The buffers of the arguments of two calls, which their memories have in front. -/
def fronts (pairs : List ArrayPair) : Fronts where
  left := pairs.map fun p => ⟨.shared, p.left.data⟩
  right := pairs.map fun p => ⟨.shared, p.right.data⟩
  length_eq := by simp

variable {pairs : List ArrayPair} {p : ArrayPair}

theorem beside_callMemory (pairs : List ArrayPair) (dst : NdArray) :
    (fronts pairs).Beside (Callable.callMemory dst (pairs.map (·.left)))
    (Callable.callMemory dst (pairs.map (·.right))) where
  regions := ⟨[⟨.exclusive, dst.data⟩], by simp [Callable.callMemory, fronts], by simp [Callable.callMemory, fronts]⟩
  slots := rfl
  behind s member := nomatch member

/-- An element is served alike from the buffers of both arrays. -/
theorem serves_element {i : Nat} (there : pairs[i]? = some p) {index : List Nat}
    (inside : IsIndex p.left.ty.shape index) :
    (fronts pairs).Serves p.left.ty.elementSize ⟨i, p.left.place index⟩ ⟨i, p.right.place index⟩ := by
  obtain ⟨least, most⟩ := p.leftBounded.inside index inside
  have inside' : IsIndex p.right.shape index := by
    rw [NdArray.shape, p.same.ty_eq]
    exact inside
  obtain ⟨least', most'⟩ := p.rightBounded.inside index inside'
  rw [p.same.ty_eq] at most'
  have length : (p.left.data.slice (p.left.place index).toNat p.left.ty.elementSize).length = p.left.ty.elementSize :=
    Buffer.length_slice (by omega)
  right
  refine ⟨_, length, ⟨⟨.shared, p.left.data⟩, by simp [fronts, there], least, ?_, by rw [length]⟩,
    ⟨⟨.shared, p.right.data⟩, by simp [fronts, there], least', ?_, ?_⟩⟩
  · rw [length]
    change (p.left.place index).toNat + _ ≤ p.left.data.size
    omega
  · rw [length]
    change (p.right.place index).toNat + _ ≤ p.right.data.size
    omega
  · rw [length]
    exact p.same.slice_eq inside

theorem throughout_sourceAddrs (pairs : List ArrayPair) :
    ∃ addresses : List (Addr × Addr), addresses.map (·.1) = Callable.sourceAddrs (pairs.map (·.left)) ∧
      addresses.map (·.2) = Callable.sourceAddrs (pairs.map (·.right)) ∧
      List.Forall₂ (fun a (t : LayoutPair) => t.Throughout (fronts pairs).Serves a.1 a.2) addresses
        (pairs.map (·.layouts)) := by
  refine ⟨pairs.zipIdx.map fun x => (⟨x.2, x.1.left.offset⟩, ⟨x.2, x.1.right.offset⟩), ?_, ?_, ?_⟩
  · simp [Callable.sourceAddrs, List.zipIdx_map, Function.comp_def]
  · simp [Callable.sourceAddrs, List.zipIdx_map, Function.comp_def]
  · rw [List.forall₂_map_left_iff, List.forall₂_map_right_iff, List.forall₂_iff_get]
    refine ⟨List.length_zipIdx, fun i inside there index within => ?_⟩
    simp only [List.get_eq_getElem, List.getElem_zipIdx, Nat.zero_add] at within ⊢
    exact serves_element (List.getElem?_eq_getElem there) within

end ArrayPair

namespace Callable

variable {os : Overloads} {c : Callable} {args args' : List NdArray} {dst : NdArray} {kwds : Keywords}

/-- Chains in step come to the same destination, or fail with the same error. -/
theorem execute_eq_of_inStep (pairs : List ArrayPair) {chain chain' : Chain}
    (inStep : Chain.InStep (pairs.map (·.layouts)) chain.toList chain'.toList) (dst : NdArray) :
    execute (CallGraph.empty.append chain.toList) 0 dst (pairs.map (·.left)) =
      execute (CallGraph.empty.append chain'.toList) 0 dst (pairs.map (·.right)) := by
  have handed : (CallGraph.empty.append chain.toList).Handed :=
    CallGraph.handed_append (CallGraph.handed_of_assembled .empty) inStep.takes
  have handed' : (CallGraph.empty.append chain'.toList).Handed :=
    CallGraph.handed_append (CallGraph.handed_of_assembled .empty) inStep.takes'
  have continues : (CallGraph.empty.append chain.toList).Continues 0 chain.toList :=
    CallGraph.continues_append .empty chain.toList
  have continues' : (CallGraph.empty.append chain'.toList).Continues 0 chain'.toList :=
    CallGraph.continues_append .empty chain'.toList
  have nonempty : 0 < (CallGraph.empty.append chain.toList).size := CallGraph.size_append_toList_pos _ _
  have nonempty' : 0 < (CallGraph.empty.append chain'.toList).size := CallGraph.size_append_toList_pos _ _
  obtain ⟨addresses, left, right, served⟩ := ArrayPair.throughout_sourceAddrs pairs
  have behind : (ArrayPair.fronts pairs).left.length ≤ (⟨pairs.length, dst.offset⟩ : Addr).region := by
    simp [ArrayPair.fronts]
  have runs := inStep.inStep handed handed' continues continues' behind served _ _
    (ArrayPair.beside_callMemory pairs dst)
  simp only [execute, CallGraph.single_eq_settled handed.descends nonempty,
    CallGraph.single_eq_settled handed'.descends nonempty', List.length_map, ← left, ← right]
  obtain ⟨e, n, n', ran, ran'⟩ | ⟨_, _, n, n', ran, ran', -, beside⟩ := runs
  · rw [ran, ran']
  · rw [ran, ran']
    simp only [beside.getElem?_eq behind]

/-- From one destination, whatever overloads there are. -/
theorem runInto_eq_of_pairs (targets : ∀ o ∈ os, o.target.Composed) (composed : c.Composed) (pairs : List ArrayPair)
    (bounded : dst.Bounded) (kwds : Keywords) :
    runInto os c kwds (pairs.map (·.left)) dst = runInto os c kwds (pairs.map (·.right)) dst := by
  have typed : ∀ {c : Callable}, c.Composed → c.Formed Leaf.Typed fun _ => True :=
    fun composed => composed.built.formed.mono Leaf.Native.typed
  have outlines := outline_inStep (fun o member => typed (targets o member)) (typed composed) (concrete_layout bounded)
    (pairs.map (·.layouts)) kwds
  have left : (pairs.map (·.layouts)).map (·.left) = (pairs.map (·.left)).map (·.layout) := by
    rw [List.map_map, List.map_map]
    rfl
  have right : (pairs.map (·.layouts)).map (·.right) = (pairs.map (·.right)).map (·.layout) := by
    rw [List.map_map, List.map_map]
    rfl
  rw [left, right, Outline.InStep] at outlines
  rw [runInto, runInto]
  generalize (outline os c dst.layout ((pairs.map (·.left)).map (·.layout)) kwds).run = outlined at outlines ⊢
  generalize (outline os c dst.layout ((pairs.map (·.right)).map (·.layout)) kwds).run = outlined' at outlines ⊢
  cases outlines with
  | none => rfl
  | some alike =>
    cases alike with
    | error e => rfl
    | ok inStep => exact execute_eq_of_inStep pairs inStep dst

/-- A call of any callable of own kernels, with any overloads by such callables, comes to the same array or to the
same error for all arguments of the same types whose elements are the same bytes. What offset and strides they have,
and what else is in their buffers, makes no difference. -/
theorem call_eq_of_sameContents (composed : c.Composed) (targets : ∀ o ∈ os, o.target.Composed)
    (constructed : ∀ a ∈ args, a.Constructed) (constructed' : ∀ a ∈ args', a.Constructed)
    (given : ∀ b, kwds.get? Keywords.dstName = some (.array b) → b.Constructed)
    (same : List.Forall₂ NdArray.SameContents args args') : c.call os args kwds = c.call os args' kwds := by
  obtain ⟨pairs, rfl, rfl⟩ : ∃ pairs : List ArrayPair, pairs.map (·.left) = args ∧ pairs.map (·.right) = args' := by
    refine exists_map_eq_of_forall₂ ?_
    obtain ⟨length, each⟩ := List.forall₂_iff_get.mp same
    refine List.forall₂_iff_get.mpr ⟨length, fun i inside inside' => ?_⟩
    exact ⟨⟨_, _, each i inside inside', (constructed _ (List.get_mem ..)).bounded,
      (constructed' _ (List.get_mem ..)).bounded⟩, rfl, rfl⟩
  have types : (pairs.map (·.right)).map (·.ty) = (pairs.map (·.left)).map (·.ty) := by
    rw [List.map_map, List.map_map]
    exact List.map_congr_left fun p _ => p.same.ty_eq
  rw [call_eq, call_eq, types]
  refine bind_congr fun ret => bind_congr_of_eq_ok fun dst destined => ?_
  exact runInto_eq_of_pairs targets composed pairs (constructed_of_destination destined given).bounded _

/-- A matrix that is read backwards, with a gap between its rows, and the same matrix stored row by row: their elements
are added up from one into a wider kind, where additions are overloaded by multiplications. -/
theorem call_eq_of_reversed_matrix :
    let byte : Kind := .int .w8
    let wide : Kind := .int .w16
    let matrix : Ty := .fixedDim 2 (.fixedDim 2 (.scalar byte))
    let a : NdArray := ⟨matrix, .ofList [9, 5, 4, 9, 3, 2], 5, [-3, -1]⟩
    let b : NdArray := ⟨matrix, .ofList [2, 3, 4, 5], 0, [2, 1]⟩
    let dst : NdArray := .scalar wide (.int 7)
    let kwds : Keywords := NameTable.empty.insert Keywords.dstName (.array dst)
    let add : Callable := Builtins.binaryOver {} .add 0
    let c : Callable := .reduce 22 (.permute 21 add [-1, 0]) (some (.int 1))
    let os : Overloads :=
      [⟨add.stamp, .scalar wide, [.scalar wide, .scalar byte], Builtins.binaryOver {} .multiply 30⟩]
    (c.Composed ∧ ∀ o ∈ os, o.target.Composed) ∧ ((∀ x ∈ [a], x.Constructed) ∧ ∀ x ∈ [b], x.Constructed) ∧
      (∀ d, kwds.get? Keywords.dstName = some (.array d) → d.Constructed) ∧
      List.Forall₂ NdArray.SameContents [a] [b] ∧ c.call os [b] kwds = .ok (.scalar wide (.int 120)) ∧
      c.call os [a] kwds = c.call os [b] kwds := by
  intro byte wide matrix a b dst kwds add c os
  have composed : c.Composed :=
    .reduce (.binaryDispatch (Builtins.binaryDispatch_eq {} .add 0))
      (show add.reduced 22 21 .left (some (.int 1)) = .ok c from rfl)
  have target : (Builtins.binaryOver {} .multiply 30).Composed :=
    .binaryDispatch (Builtins.binaryDispatch_eq {} .multiply 30)
  have targets : ∀ o ∈ os, o.target.Composed := by simpa [os] using target
  have view : a.Built := .ofParts (by decide)
    (show NdArray.ofParts matrix (.ofList [9, 5, 4, 9, 3, 2]) 5 [-3, -1] = .ok a from by cbv)
  have stored : b.Built := .ofParts (by decide)
    (show NdArray.ofParts matrix (.ofList [2, 3, 4, 5]) 0 [2, 1] = .ok b from by cbv)
  have left : ∀ x ∈ [a], x.Constructed := by simpa using view.constructed (by decide)
  have right : ∀ x ∈ [b], x.Constructed := by simpa using stored.constructed (by decide)
  have given : ∀ d, kwds.get? Keywords.dstName = some (.array d) → d.Constructed := by
    intro d found
    cases (NameTable.get?_insert_self ..).symm.trans found
    exact NdArray.constructed_scalar wide _
  have same : List.Forall₂ NdArray.SameContents [a] [b] := .cons ⟨rfl, by decide⟩ .nil
  have product : c.call os [b] kwds = .ok (.scalar wide (.int 120)) := by cbv
  exact ⟨⟨composed, targets⟩, ⟨left, right⟩, given, same, product,
    call_eq_of_sameContents composed targets left right given same⟩

end Callable

end ArrayCall
