import ArrayCall.Proofs.Broadcast
import Mathlib.Order.Bounds.Basic

/-!
# Which shapes broadcast

Of the sizes that shapes have at one place, counted from the last dimension, those of one give way to the
others. Shapes broadcast where the others are all equal (`Broadcast.Agree`), and what they broadcast to has
the greatest rank and that size at each place (`Broadcast.Spans`).

* `Broadcast.agree_iff`: an agreement is a common size at every place, whether some shape is that deep or not.
* `Broadcast.isLeast_index`: a failure points to the first shape that does not agree with those before it.
* `broadcast_follows_agreement`: what broadcasting finds or refuses, in whatever order the shapes come.
-/

namespace ArrayCall

namespace Broadcast

/-- The sizes that shapes have at a place, counted from the last dimension. A shape that does not reach the
place has none there. -/
def sizesAt (shapes : List (List Nat)) (place : Nat) : List Nat := shapes.filterMap (·.reverse[place]?)

/-- At every place all sizes other than one are equal. -/
def Agree (shapes : List (List Nat)) : Prop :=
  ∀ place, ∀ m ∈ sizesAt shapes place, ∀ n ∈ sizesAt shapes place, m ≠ 1 → n ≠ 1 → m = n

/-- The shape of the greatest rank that has at every place the size of those other than one, or one if there
is none. -/
structure Spans (shapes : List (List Nat)) (shape : List Nat) : Prop where
  reaches : ∀ s ∈ shapes, s.length ≤ shape.length
  reached : shape = [] ∨ ∃ s ∈ shapes, s.length = shape.length
  sizes : ∀ place < shape.length, IsCommon (sizesAt shapes place) (sizeAt shape place)

variable {shapes shapes' : List (List Nat)} {shape : List Nat} {place n most : Nat} {e : BroadcastError}

theorem mem_sizesAt_iff : n ∈ sizesAt shapes place ↔ ∃ s ∈ shapes, s.reverse[place]? = some n :=
  List.mem_filterMap

theorem lt_length_of_mem_sizesAt (fits : ∀ s ∈ shapes, s.length ≤ most) (found : n ∈ sizesAt shapes place) :
    place < most := by
  obtain ⟨s, member, there⟩ := mem_sizesAt_iff.mp found
  obtain ⟨inside, -⟩ := List.getElem?_eq_some_iff.mp there
  rw [List.length_reverse] at inside
  exact Nat.lt_of_lt_of_le inside (fits s member)

/-- It makes no difference for the common size whether a missing dimension counts as one or not at all. -/
theorem isCommon_sizesAt_iff :
    IsCommon (shapes.map (sizeAt · place)) n ↔ IsCommon (sizesAt shapes place) n := by
  have missing : ∀ m ≠ 1, m ∈ shapes.map (sizeAt · place) ↔ m ∈ sizesAt shapes place := by
    intro m more
    rw [List.mem_map, mem_sizesAt_iff]
    refine exists_congr fun s => and_congr_right fun _ => ?_
    rw [sizeAt]
    cases s.reverse[place]? with
    | none => simp [more.symm]
    | some size => simp
  have fits : (∀ m ∈ shapes.map (sizeAt · place), m = 1 ∨ m = n) ↔ ∀ m ∈ sizesAt shapes place, m = 1 ∨ m = n := by
    refine forall_congr' fun m => ?_
    by_cases one : m = 1
    · simp only [one, true_or, implies_true]
    · rw [missing m one]
  have found : (n = 1 ∨ n ∈ shapes.map (sizeAt · place)) ↔ (n = 1 ∨ n ∈ sizesAt shapes place) := by
    by_cases one : n = 1
    · simp only [one, true_or]
    · rw [missing n one]
  rw [IsCommon, IsCommon, fits, found]

/-! ## Agreement -/

theorem Agree.of_subset (agree : Agree shapes) (subset : shapes' ⊆ shapes) : Agree shapes' := by
  have listed : ∀ place n, n ∈ sizesAt shapes' place → n ∈ sizesAt shapes place := by
    intro place n found
    obtain ⟨s, member, there⟩ := mem_sizesAt_iff.mp found
    exact mem_sizesAt_iff.mpr ⟨s, subset member, there⟩
  intro place m first n second
  exact agree place m (listed place m first) n (listed place n second)

/-- Sizes that are equal, but for the ones, have a common size. -/
theorem exists_isCommon {sizes : List Nat} (equal : ∀ m ∈ sizes, ∀ n ∈ sizes, m ≠ 1 → n ≠ 1 → m = n) :
    ∃ n, IsCommon sizes n := by
  by_cases ones : ∀ m ∈ sizes, m = 1
  · exact ⟨1, fun m member => .inl (ones m member), .inl rfl⟩
  · obtain ⟨n, member, more⟩ : ∃ n ∈ sizes, n ≠ 1 := by simpa using ones
    refine ⟨n, fun m other => ?_, .inr member⟩
    by_cases one : m = 1
    · exact .inl one
    · exact .inr (equal m other n member one more)

/-- Shapes agree if there are common sizes up to some depth that none of them exceeds. -/
theorem agree_iff (fits : ∀ s ∈ shapes, s.length ≤ most) :
    Agree shapes ↔ ∃ shape : List Nat, shape.length = most ∧
      ∀ place < most, IsCommon (shapes.map (sizeAt · place)) (sizeAt shape place) := by
  simp only [isCommon_sizesAt_iff]
  constructor
  · intro agree
    choose common isCommon using fun place => exists_isCommon (agree place)
    refine ⟨((List.range most).map common).reverse, by simp, fun place inside => ?_⟩
    have size : sizeAt ((List.range most).map common).reverse place = common place := by
      rw [sizeAt, List.reverse_reverse, List.getElem?_map, List.getElem?_range inside, Option.map_some,
        Option.getD_some]
    rw [size]
    exact isCommon place
  · rintro ⟨shape, -, each⟩ place m first n second more more'
    obtain ⟨equal, -⟩ := each place (lt_length_of_mem_sizesAt fits first)
    have left := (equal m first).resolve_left more
    have right := (equal n second).resolve_left more'
    exact left.trans right.symm

/-- To whatever depth shapes are joined, they join if they agree. -/
theorem joinFrom_ones_succeeds_iff {index : Nat} (fits : ∀ s ∈ shapes, s.length ≤ most) :
    (∃ joined, joinFrom most index (List.replicate most 1) shapes = .ok joined) ↔ Agree shapes := by
  simp only [joinFrom_ones_eq_ok_iff fits, agree_iff fits]

theorem succeeds_iff_agree : (∃ shape, broadcast shapes = .ok shape) ↔ Agree shapes :=
  joinFrom_ones_succeeds_iff fun _ => length_le_rank

/-! ## What shapes broadcast to -/

theorem rank_eq_iff :
    shape.length = rank shapes ↔
      (∀ s ∈ shapes, s.length ≤ shape.length) ∧ (shape = [] ∨ ∃ s ∈ shapes, s.length = shape.length) := by
  constructor
  · intro same
    refine ⟨fun s member => same ▸ length_le_rank member, ?_⟩
    rw [or_iff_not_imp_left]
    intro nonempty
    by_contra shallow
    have less : ∀ s ∈ shapes, s.length ≤ shape.length - 1 := by
      intro s member
      have below := same ▸ length_le_rank member
      have differs : s.length ≠ shape.length := fun equal => shallow ⟨s, member, equal⟩
      omega
    have bounded := rank_le less
    have positive := List.length_pos_iff.mpr nonempty
    omega
  · rintro ⟨reaches, reached⟩
    apply Nat.le_antisymm
    · obtain rfl | ⟨s, member, same⟩ := reached
      · exact Nat.zero_le _
      · exact same ▸ length_le_rank member
    · exact rank_le reaches

theorem eq_ok_iff_spans : broadcast shapes = .ok shape ↔ Spans shapes shape := by
  rw [broadcast_eq_ok_iff]
  constructor
  · rintro ⟨length, each⟩
    obtain ⟨reaches, reached⟩ := rank_eq_iff.mp length
    exact ⟨reaches, reached, fun place inside => isCommon_sizesAt_iff.mp (each place inside)⟩
  · rintro ⟨reaches, reached, each⟩
    exact ⟨rank_eq_iff.mpr ⟨reaches, reached⟩, fun place inside => isCommon_sizesAt_iff.mpr (each place inside)⟩

/-! ## Failures -/

/-- The shapes in front of the one at fault agree, and with it they do not. -/
theorem isLeast_index (failed : broadcast shapes = .error e) : IsLeast {i | ¬Agree (shapes.take (i + 1))} e.index := by
  obtain ⟨front, s, back, split, found, joined, refused⟩ := exists_front_of_joinFrom_eq_error failed
  have fits : ∀ s ∈ shapes, s.length ≤ rank shapes := fun _ => length_le_rank
  rw [Nat.zero_add] at found
  have prefixes : shapes.take (front.length + 1) = front ++ [s] := by
    rw [split, List.take_append, List.take_of_length_le (Nat.le_succ _), Nat.add_sub_cancel_left]
    rfl
  have agrees : Agree front :=
    (joinFrom_ones_succeeds_iff fun s member => fits s (by simp [split, member])).mp joined
  rw [found]
  constructor
  · show ¬Agree (shapes.take (front.length + 1))
    rw [prefixes, ← joinFrom_ones_succeeds_iff fun s' member => fits s' (List.mem_of_mem_take (prefixes ▸ member))]
    rintro ⟨shape, ran⟩
    cases refused.symm.trans ran
  · intro j differs
    by_contra below
    refine differs (agrees.of_subset fun s' member => ?_)
    have within : shapes.take (j + 1) = front.take (j + 1) := by
      rw [split, List.take_append_of_le_length (by omega)]
    rw [within] at member
    exact List.mem_of_mem_take member

theorem fails_at_iff {i : Nat} :
    (∃ e, broadcast shapes = .error e ∧ e.index = i) ↔ IsLeast {i | ¬Agree (shapes.take (i + 1))} i := by
  constructor
  · rintro ⟨e, failed, rfl⟩
    exact isLeast_index failed
  · intro least
    cases ran : broadcast shapes with
    | ok shape =>
      have agree := succeeds_iff_agree.mp ⟨shape, ran⟩
      exact absurd (agree.of_subset (List.take_subset _ _)) least.1
    | error e => exact ⟨e, rfl, (isLeast_index ran).unique least⟩

end Broadcast

open Broadcast

/-- Shapes broadcast if at every place all sizes other than one are equal, and then to the shape of the greatest
rank with these sizes. Otherwise the first shape is named up to which they do not broadcast. The order in
which the shapes come makes no difference to any result. -/
theorem broadcast_follows_agreement (shapes : List (List Nat)) :
    ((∃ shape, broadcast shapes = .ok shape) ↔ Agree shapes) ∧
      (∀ shape, broadcast shapes = .ok shape ↔ Spans shapes shape) ∧
      (∀ i, (∃ e, broadcast shapes = .error e ∧ e.index = i) ↔ IsLeast {i | ¬Agree (shapes.take (i + 1))} i) ∧
      ∀ shapes', shapes'.Perm shapes → ∀ shape, broadcast shapes' = .ok shape ↔ broadcast shapes = .ok shape := by
  refine ⟨succeeds_iff_agree, fun shape => eq_ok_iff_spans, fun i => fails_at_iff, fun shapes' perm shape => ?_⟩
  rw [broadcast_eq_ok_iff, broadcast_eq_ok_iff]
  exact common_congr fun s => perm.mem_iff

/-- A size of zero is a size like any other: it stretches the ones, and does not agree with a four. -/
theorem broadcast_stops_at_third_shape :
    ¬Agree [[1, 0], [2, 1], [4]] ∧ IsLeast {i | ¬Agree ([[1, 0], [2, 1], [4]].take (i + 1))} 2 ∧
      broadcast [[3, 1, 1], [2, 1], [1, 0]] = .ok [3, 2, 0] := by
  obtain ⟨agreement, -, failure, -⟩ := broadcast_follows_agreement [[1, 0], [2, 1], [4]]
  obtain ⟨-, -, -, reordered⟩ := broadcast_follows_agreement [[1, 0], [2, 1], [3, 1, 1]]
  refine ⟨?_, ?_, ?_⟩
  · rw [← agreement]
    rintro ⟨shape, ran⟩
    cases ran
  · rw [← failure]
    exact ⟨_, rfl, rfl⟩
  · rw [reordered _ (by decide)]
    rfl

end ArrayCall
