import ArrayCall.Broadcast
import ArrayCall.Proofs.Results

/-!
# What shapes broadcast to

Shapes broadcast where at every place, counted from the last dimension, all sizes other than one
agree, and then to the shape of the greatest rank that has these sizes.

* `Broadcast.Common` says that of a list of shapes and the shape that they broadcast to.
* `broadcast_eq_ok_iff` says that broadcasting finds just that shape.
* `Broadcast.Stretches` is what one of the shapes is to the common one.
-/

namespace ArrayCall

namespace Broadcast

/-- The size of a shape at a place counted from its last dimension. A missing dimension counts as
one of size one. -/
def sizeAt (shape : List Nat) (place : Nat) : Nat := shape.reverse[place]?.getD 1

/-- All sizes are one or the common one, which is the size of one of them or else one. -/
def IsCommon (sizes : List Nat) (size : Nat) : Prop :=
  (∀ n ∈ sizes, n = 1 ∨ n = size) ∧ (size = 1 ∨ size ∈ sizes)

/-- What shapes broadcast to. -/
structure Common (shapes : List (List Nat)) (shape : List Nat) : Prop where
  length_eq : shape.length = rank shapes
  isCommon : ∀ place < shape.length, IsCommon (shapes.map (sizeAt · place)) (sizeAt shape place)

/-- A shape that is stretched to another, aligned at the last dimension. -/
structure Stretches (shape target : List Nat) : Prop where
  length_le : shape.length ≤ target.length
  size_eq : ∀ place, sizeAt shape place = 1 ∨ sizeAt shape place = sizeAt target place

/-! ## Sizes -/

theorem joinSize_eq_ok_iff {common size joined : Nat} :
    joinSize common size = .ok joined ↔
      (common = 1 ∨ size = 1 ∨ size = common) ∧ joined = if common = 1 then size else common := by
  rw [joinSize]
  split
  next one => simp [one, eq_comm]
  next more =>
    split
    next fits =>
      rw [Except.ok.injEq]
      exact ⟨fun same => ⟨.inr fits, same.symm⟩, fun ⟨_, same⟩ => same.symm⟩
    next differs => simp [more, differs]

/-- Joining two of some sizes leaves the common size of all what it is. -/
theorem isCommon_cons_cons_iff {first second size : Nat} {rest : List Nat} :
    IsCommon (first :: second :: rest) size ↔
      ∃ joined, joinSize first second = .ok joined ∧ IsCommon (joined :: rest) size := by
  simp only [joinSize_eq_ok_iff, IsCommon, List.mem_cons, forall_eq_or_imp]
  constructor
  · rintro ⟨⟨firstFits, secondFits, others⟩, found⟩
    refine ⟨_, ⟨by omega, rfl⟩, ⟨?_, others⟩, ?_⟩
    · split <;> assumption
    · rcases found with one | rfl | rfl | other
      · exact .inl one
      · by_cases one : size = 1
        · exact .inl one
        · exact .inr (.inl (by rw [if_neg one]))
      · by_cases one : size = 1
        · exact .inl one
        · exact .inr (.inl (by split <;> omega))
      · exact .inr (.inr other)
  · rintro ⟨joined, ⟨fits, rfl⟩, ⟨joinedFits, others⟩, found⟩
    by_cases one : first = 1
    · rw [if_pos one] at joinedFits found
      exact ⟨⟨.inl one, joinedFits, others⟩, by tauto⟩
    · rw [if_neg one] at joinedFits found
      refine ⟨⟨joinedFits, ?_, others⟩, by tauto⟩
      omega

theorem isCommon_one_cons_iff {size : Nat} {rest : List Nat} :
    IsCommon (1 :: rest) size ↔ IsCommon rest size := by
  simp [IsCommon]

/-! ## Shapes of one rank -/

theorem joinSizes_eq_mapM (commons sizes : List Nat) :
    joinSizes commons sizes = (commons.zip sizes).mapM fun p => joinSize p.1 p.2 := by
  induction commons generalizing sizes with
  | nil => cases sizes <;> rfl
  | cons common commons inductionHypothesis =>
    cases sizes with
    | nil => rfl
    | cons size sizes => rw [joinSizes, inductionHypothesis, List.zip_cons_cons, List.mapM_cons]

theorem joinSizes_eq_ok_iff {commons sizes joined : List Nat} (same : commons.length = sizes.length) :
    joinSizes commons sizes = .ok joined ↔ joined.length = commons.length ∧
      ∀ i < commons.length,
        joinSize (commons[i]?.getD 1) (sizes[i]?.getD 1) = .ok (joined[i]?.getD 1) := by
  rw [joinSizes_eq_mapM, mapM_eq_ok_iff, List.forall₂_iff_get]
  simp only [List.length_zip, ← same, Nat.min_self, List.get_eq_getElem, List.getElem_zip]
  refine ⟨fun ⟨length, each⟩ => ⟨length.symm, fun i inside => ?_⟩,
    fun ⟨length, each⟩ => ⟨length.symm, fun i inside inside' => ?_⟩⟩
  · have found := each i inside (length ▸ inside)
    rwa [List.getElem?_eq_getElem inside, List.getElem?_eq_getElem (same ▸ inside),
      List.getElem?_eq_getElem (length ▸ inside)]
  · have found := each i inside
    rwa [List.getElem?_eq_getElem inside, List.getElem?_eq_getElem (same ▸ inside),
      List.getElem?_eq_getElem inside'] at found

theorem joinSizes_succeeds {commons sizes : List Nat} (same : commons.length = sizes.length)
    (joinable : ∀ i < commons.length, ∃ size, joinSize (commons[i]?.getD 1) (sizes[i]?.getD 1) = .ok size) :
    ∃ joined, joinSizes commons sizes = .ok joined := by
  rw [joinSizes_eq_mapM]
  refine mapM_succeeds fun pair member => ?_
  obtain ⟨i, inside, rfl⟩ := List.getElem_of_mem member
  rw [List.length_zip, ← same, Nat.min_self] at inside
  obtain ⟨size, joined⟩ := joinable i inside
  rw [List.getElem?_eq_getElem inside, List.getElem?_eq_getElem (same ▸ inside)] at joined
  exact ⟨size, by rwa [List.getElem_zip]⟩

theorem length_pad {rank : Nat} {shape : List Nat} (fits : shape.length ≤ rank) :
    (pad rank shape).length = rank := by
  rw [pad, List.length_append, List.length_replicate]
  omega

/-- Padding adds what a missing dimension counts as. -/
theorem sizeAt_pad (rank : Nat) (shape : List Nat) (place : Nat) :
    sizeAt (pad rank shape) place = sizeAt shape place := by
  rw [sizeAt, sizeAt, pad, List.reverse_append, List.getElem?_append]
  split
  · rfl
  next behind =>
    rw [List.getElem?_eq_none (Nat.le_of_not_lt behind), List.reverse_replicate, List.getElem?_replicate]
    split <;> rfl

/-! ## All shapes -/

/-- The column of sizes at a place from the front, of a shape so far and padded shapes. -/
theorem joinFrom_eq_ok_iff {rank index : Nat} {common joined : List Nat} {shapes : List (List Nat)}
    (length : common.length = rank) (fits : ∀ shape ∈ shapes, shape.length ≤ rank) :
    joinFrom rank index common shapes = .ok joined ↔ joined.length = rank ∧
      ∀ i < rank, IsCommon (common[i]?.getD 1 :: shapes.map fun shape => (pad rank shape)[i]?.getD 1)
        (joined[i]?.getD 1) := by
  induction shapes generalizing index common with
  | nil =>
    rw [joinFrom, Except.ok.injEq]
    constructor
    · rintro rfl
      exact ⟨length, fun i _ => by simp [IsCommon]⟩
    · rintro ⟨same, each⟩
      refine List.ext_getElem (length.trans same.symm) fun i inside inside' => ?_
      obtain ⟨fit, found⟩ := each i (length ▸ inside)
      rw [List.getElem?_eq_getElem inside, List.getElem?_eq_getElem inside'] at fit found
      simp only [List.map_nil, List.mem_singleton, forall_eq, Option.getD_some] at fit found
      omega
  | cons shape shapes inductionHypothesis =>
    have padded : common.length = (pad rank shape).length := by
      rw [length, length_pad (fits shape List.mem_cons_self)]
    have fits : ∀ shape ∈ shapes, shape.length ≤ rank := fun s member => fits s (List.mem_cons_of_mem _ member)
    simp only [List.map_cons, isCommon_cons_cons_iff]
    rw [joinFrom]
    constructor
    · intro ran
      split at ran
      next next joins =>
        obtain ⟨same, each⟩ := (joinSizes_eq_ok_iff padded).mp joins
        obtain ⟨final, others⟩ := (inductionHypothesis (same.trans length) fits).mp ran
        exact ⟨final, fun i inside => ⟨_, each i (length ▸ inside), others i inside⟩⟩
      next => cases ran
    · rintro ⟨final, each⟩
      have joinable : ∀ i < common.length, ∃ size,
          joinSize (common[i]?.getD 1) ((pad rank shape)[i]?.getD 1) = .ok size := by
        intro i inside
        obtain ⟨size, joined, -⟩ := each i (length ▸ inside)
        exact ⟨size, joined⟩
      obtain ⟨sizes, joins⟩ := joinSizes_succeeds padded joinable
      obtain ⟨same, places⟩ := (joinSizes_eq_ok_iff padded).mp joins
      rw [joins]
      refine (inductionHypothesis (same.trans length) fits).mpr ⟨final, fun i inside => ?_⟩
      obtain ⟨size, joined, others⟩ := each i inside
      obtain rfl := Except.ok.inj (joined.symm.trans (places i (length ▸ inside)))
      exact others

theorem le_foldl_max (start : Nat) (numbers : List Nat) :
    start ≤ numbers.foldl max start ∧ ∀ n ∈ numbers, n ≤ numbers.foldl max start := by
  induction numbers generalizing start with
  | nil => simp
  | cons n numbers inductionHypothesis =>
    obtain ⟨least, others⟩ := inductionHypothesis (max start n)
    rw [List.foldl_cons]
    refine ⟨by omega, List.forall_mem_cons.mpr ⟨by omega, others⟩⟩

theorem length_le_rank {shapes : List (List Nat)} {shape : List Nat} (member : shape ∈ shapes) :
    shape.length ≤ rank shapes :=
  (le_foldl_max 0 (shapes.map List.length)).2 _ (List.mem_map_of_mem member)

theorem rank_le {most : Nat} {shapes : List (List Nat)} (fits : ∀ shape ∈ shapes, shape.length ≤ most) :
    rank shapes ≤ most := by
  have bounded : ∀ (numbers : List Nat) (start : Nat), start ≤ most → (∀ n ∈ numbers, n ≤ most) →
      numbers.foldl max start ≤ most := by
    intro numbers
    induction numbers with
    | nil => exact fun start below _ => below
    | cons n numbers inductionHypothesis =>
      intro start below each
      obtain ⟨first, others⟩ := List.forall_mem_cons.mp each
      exact inductionHypothesis _ (Nat.max_le.mpr ⟨below, first⟩) others
  exact bounded _ 0 (Nat.zero_le _) (List.forall_mem_map.mpr fits)

theorem rank_eq_zero {shapes : List (List Nat)} (points : ∀ shape ∈ shapes, shape = []) : rank shapes = 0 := by
  induction shapes with
  | nil => rfl
  | cons shape shapes inductionHypothesis =>
    obtain ⟨rfl, others⟩ := List.forall_mem_cons.mp points
    exact inductionHypothesis others

theorem sizeAt_eq_getElem? {shape : List Nat} {place : Nat} (inside : place < shape.length) :
    sizeAt shape place = shape[shape.length - 1 - place]?.getD 1 := by
  rw [sizeAt, List.getElem?_reverse inside]

/-- A place from the front of padded shapes is a place from the back of the given ones. -/
theorem joinFrom_ones_eq_ok_iff {most index : Nat} {shapes : List (List Nat)} {shape : List Nat}
    (fits : ∀ shape ∈ shapes, shape.length ≤ most) :
    joinFrom most index (List.replicate most 1) shapes = .ok shape ↔ shape.length = most ∧
      ∀ place < most, IsCommon (shapes.map (sizeAt · place)) (sizeAt shape place) := by
  have column : ∀ i < most, shapes.map (fun shape => (pad most shape)[i]?.getD 1) =
      shapes.map (sizeAt · (most - 1 - i)) := by
    intro i inside
    refine List.map_congr_left fun shape member => ?_
    have length := length_pad (fits shape member)
    rw [← sizeAt_pad most, sizeAt_eq_getElem? (by omega), length]
    congr 2
    omega
  have start : ∀ i < most, (List.replicate most 1)[i]?.getD 1 = 1 := by
    intro i inside
    rw [List.getElem?_replicate, if_pos inside, Option.getD_some]
  rw [joinFrom_eq_ok_iff List.length_replicate fits]
  constructor
  · rintro ⟨length, each⟩
    refine ⟨length, fun place inside => ?_⟩
    have found := each (most - 1 - place) (by omega)
    rw [column _ (by omega), start _ (by omega), isCommon_one_cons_iff] at found
    rw [sizeAt_eq_getElem? (by omega), length]
    rwa [show most - 1 - (most - 1 - place) = place by omega] at found
  · rintro ⟨length, each⟩
    refine ⟨length, fun i inside => ?_⟩
    have found := each (most - 1 - i) (by omega)
    rw [sizeAt_eq_getElem? (by omega), length, show most - 1 - (most - 1 - i) = i by omega] at found
    rwa [column i inside, start i inside, isCommon_one_cons_iff]

/-- Where joining fails, the shapes in front of the one at fault join, and together with it they do not. -/
theorem exists_front_of_joinFrom_eq_error {rank index : Nat} {common : List Nat} {shapes : List (List Nat)}
    {e : BroadcastError} (failed : joinFrom rank index common shapes = .error e) :
    ∃ front shape back, shapes = front ++ shape :: back ∧ e.index = index + front.length ∧
      (∃ joined, joinFrom rank index common front = .ok joined) ∧
      joinFrom rank index common (front ++ [shape]) = .error e := by
  induction shapes generalizing index common with
  | nil => cases failed
  | cons first rest inductionHypothesis =>
    rw [joinFrom] at failed
    split at failed
    next next joins =>
      obtain ⟨front, shape, back, rfl, found, joined, refused⟩ := inductionHypothesis failed
      refine ⟨first :: front, shape, back, rfl, ?_, ?_, ?_⟩
      · rw [found, List.length_cons]
        omega
      · rw [joinFrom, joins]
        exact joined
      · rw [List.cons_append, joinFrom, joins]
        exact refused
    next size against differs =>
      cases failed
      exact ⟨[], first, rest, rfl, rfl, ⟨common, rfl⟩, by rw [List.nil_append, joinFrom, differs]⟩

end Broadcast

open Broadcast

theorem broadcast_eq_ok_iff {shapes : List (List Nat)} {shape : List Nat} :
    broadcast shapes = .ok shape ↔ Common shapes shape := by
  rw [broadcast, joinFrom_ones_eq_ok_iff fun _ => length_le_rank]
  constructor
  · rintro ⟨length, each⟩
    exact ⟨length, length ▸ each⟩
  · rintro ⟨length, each⟩
    exact ⟨length, length ▸ each⟩

/-- What shapes broadcast to depends on which shapes there are, not on their order or their number. -/
theorem Broadcast.common_congr {shapes shapes' : List (List Nat)} {shape : List Nat}
    (same : ∀ s, s ∈ shapes ↔ s ∈ shapes') :
    Common shapes shape ↔ Common shapes' shape := by
  have ranks : rank shapes = rank shapes' := by
    apply Nat.le_antisymm
    · exact rank_le fun s member => length_le_rank ((same s).mp member)
    · exact rank_le fun s member => length_le_rank ((same s).mpr member)
  have sizes : ∀ place n, n ∈ shapes.map (sizeAt · place) ↔ n ∈ shapes'.map (sizeAt · place) := by
    intro place n
    simp only [List.mem_map, same]
  have column : ∀ place size,
      IsCommon (shapes.map (sizeAt · place)) size ↔ IsCommon (shapes'.map (sizeAt · place)) size := by
    intro place size
    simp only [IsCommon, sizes]
  constructor
  · rintro ⟨length, each⟩
    exact ⟨length.trans ranks, fun place inside => (column place _).mp (each place inside)⟩
  · rintro ⟨length, each⟩
    exact ⟨length.trans ranks.symm, fun place inside => (column place _).mpr (each place inside)⟩

theorem Broadcast.rank_append_singleton (shapes : List (List Nat)) (shape : List Nat) :
    rank (shapes ++ [shape]) = max (rank shapes) shape.length := by
  rw [rank, List.map_append, List.foldl_append]
  rfl

/-- The common shape may be broadcast along. -/
theorem Broadcast.Common.append_self {shapes : List (List Nat)} {shape : List Nat} (common : Common shapes shape) :
    Common (shapes ++ [shape]) shape where
  length_eq := by rw [rank_append_singleton, ← common.length_eq, Nat.max_self]
  isCommon place inside := by
    obtain ⟨fits, found⟩ := common.isCommon place inside
    rw [List.map_append]
    refine ⟨fun n member => ?_, found.imp_right (List.mem_append_left _)⟩
    rcases List.mem_append.mp member with given | target
    · exact fits n given
    · exact .inr (List.mem_singleton.mp target)

theorem Broadcast.Common.stretches {shapes : List (List Nat)} {target shape : List Nat}
    (common : Common shapes target) (member : shape ∈ shapes) : Stretches shape target where
  length_le := common.length_eq ▸ length_le_rank member
  size_eq place := by
    rcases Nat.lt_or_ge place target.length with inside | outside
    · exact (common.isCommon place inside).1 _ (List.mem_map_of_mem member)
    · have short := Nat.le_trans (common.length_eq ▸ length_le_rank member) outside
      left
      rw [sizeAt, List.getElem?_eq_none (by simpa using short), Option.getD_none]

theorem Broadcast.common_nil {shapes : List (List Nat)} (points : ∀ shape ∈ shapes, shape = []) : Common shapes [] where
  length_eq := (rank_eq_zero points).symm
  isCommon _ inside := absurd inside (Nat.not_lt_zero _)

theorem Broadcast.Common.nil_of_mem {shapes : List (List Nat)} {shape : List Nat} (common : Common shapes [])
    (member : shape ∈ shapes) : shape = [] :=
  List.eq_nil_of_length_eq_zero (Nat.le_zero.mp (common.stretches member).length_le)

end ArrayCall
