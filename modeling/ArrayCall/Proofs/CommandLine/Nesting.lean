import ArrayCall.CommandLine.Value
import ArrayCall.Proofs.Sizes
import Mathlib.Tactic.Choose

/-!
# Nested lists

The elements of an array are written in lists that are nested as its dimensions are. `Json.HasLeaves` says which leaves
such lists have, in order. Nesting leaves gives the lists that have them (`Json.hasLeaves_of_nest_eq_ok`), and
flattening lists gives their leaves if these are no lists themselves (`CommandLine.flatten_eq_ok_iff`).
-/

namespace ArrayCall

open CommandLine

namespace Json

/-- Lists as deep as a shape has dimensions and as long as these say, with the given leaves in order. -/
def HasLeaves : (shape : List Nat) → Json → (leaves : List Json) → Prop
  | [], v, leaves => leaves = [v]
  | n :: shape, v, leaves => ∃ (items : List Json) (parts : List (List Json)),
      v = arr items ∧ items.length = n ∧ List.Forall₂ (HasLeaves shape) items parts ∧ parts.flatten = leaves

/-- Lists as deep as a shape has dimensions and as long as these say, with leaves of a property. -/
def Nested (P : Json → Prop) : (shape : List Nat) → Json → Prop
  | [], v => P v
  | n :: shape, v => ∃ items, v = arr items ∧ items.length = n ∧ ∀ item ∈ items, Nested P shape item

/-- The lists of a shape with other leaves in place of theirs -/
def mapLeaves (f : Json → Json) : (shape : List Nat) → Json → Json
  | [], v => f v
  | _ :: shape, arr items => arr (items.map (mapLeaves f shape))
  | _ :: _, v => v

end Json

/-! ## Lists -/

section Lists

variable {α β : Type} {length count : Nat}

theorem length_flatten_of_length_eq {parts : List (List α)} (each : ∀ part ∈ parts, part.length = length) :
    parts.flatten.length = parts.length * length := by
  rw [List.length_flatten, List.map_congr_left each, List.map_const', List.sum_replicate_nat]

theorem pieces_flatten {parts : List (List α)} (each : ∀ part ∈ parts, part.length = length) :
    pieces length parts.length parts.flatten = parts := by
  induction parts with
  | nil => rfl
  | cons part parts inductionHypothesis =>
    obtain ⟨rfl, others⟩ := List.forall_mem_cons.mp each
    rw [List.length_cons, pieces, List.flatten_cons, List.take_left, List.drop_left, inductionHypothesis others]

/-- A list is cut without a rest if the pieces together are as long. -/
theorem pieces_spec {list : List α} (enough : list.length = count * length) :
    (pieces length count list).length = count ∧ (pieces length count list).flatten = list ∧
      ∀ part ∈ pieces length count list, part.length = length := by
  induction count generalizing list with
  | zero =>
    obtain rfl := List.eq_nil_of_length_eq_zero (by rw [enough, Nat.zero_mul])
    exact ⟨rfl, rfl, nofun⟩
  | succ count inductionHypothesis =>
    rw [Nat.succ_mul] at enough
    have rest : (list.drop length).length = count * length := by rw [List.length_drop]; omega
    obtain ⟨size, whole, each⟩ := inductionHypothesis rest
    have first : (list.take length).length = length := by rw [List.length_take]; omega
    rw [pieces]
    exact ⟨by rw [List.length_cons, size], by rw [List.flatten_cons, whole, List.take_append_drop],
      List.forall_mem_cons.mpr ⟨first, each⟩⟩

theorem forall_mem_iff_of_forall₂ {p : α → Prop} {q : β → Prop} {list : List α} {list' : List β}
    (each : List.Forall₂ (fun a b => p a ↔ q b) list list') : (∀ a ∈ list, p a) ↔ ∀ b ∈ list', q b := by
  induction each with
  | nil => exact iff_of_true nofun nofun
  | cons first _ inductionHypothesis => rw [List.forall_mem_cons, List.forall_mem_cons, first, inductionHypothesis]

theorem forall₂_and_right_iff {R : α → β → Prop} {q : β → Prop} {list : List α} {list' : List β} :
    List.Forall₂ (fun a b => R a b ∧ q b) list list' ↔ List.Forall₂ R list list' ∧ ∀ b ∈ list', q b := by
  induction list generalizing list' with
  | nil => cases list' <;> simp
  | cons a list inductionHypothesis =>
    cases list' with
    | nil => simp
    | cons b list' =>
      simp only [List.forall₂_cons, List.forall_mem_cons, inductionHypothesis, and_assoc, and_left_comm]

end Lists

/-! ## Leaves -/

namespace Json

variable {shape : List Nat} {v : Json} {leaves leaves' : List Json}

/-- As many leaves as the shape has are nested to the lists that have them. -/
theorem hasLeaves_of_nest_eq_ok (count : leaves.length = shape.prod) (nested : nest leaves shape = .ok v) :
    v.HasLeaves shape leaves := by
  induction shape generalizing v leaves with
  | nil =>
    obtain ⟨leaf, rfl⟩ := List.length_eq_one_iff.mp count
    cases nested
    rfl
  | cons n shape inductionHypothesis =>
    obtain ⟨step, product, nested⟩ := bind_eq_ok_iff.mp nested
    obtain ⟨items, parts, same⟩ := bind_eq_ok_iff.mp nested
    obtain ⟨rfl, -⟩ := Machine.product_eq_ok_iff.mp product
    cases same
    obtain ⟨size, whole, each⟩ := pieces_spec (count.trans List.prod_cons)
    have inside := mapM_eq_ok_iff.mp parts
    refine ⟨_, _, rfl, inside.length_eq.symm.trans size, ?_, whole⟩
    have lengths := (List.forall₂_and_left _ _).mpr ⟨each, inside⟩
    exact (lengths.imp fun part item ⟨length, nested⟩ => inductionHypothesis length nested).flip

theorem nest_succeeds (countable : Layout.Countable shape) (leaves : List Json) {back : List Nat}
    (behind : back <:+ shape) :
    ∃ v, nest leaves back = .ok v := by
  induction back generalizing leaves with
  | nil => exact ⟨_, rfl⟩
  | cons n back inductionHypothesis =>
    have inner := (List.suffix_cons n back).trans behind
    obtain ⟨items, nested⟩ := mapM_succeeds fun part (_ : part ∈ pieces back.prod n leaves) =>
      inductionHypothesis part inner
    exact ⟨.arr items, bind_eq_ok_iff.mpr ⟨_, countable.product_eq inner, bind_eq_ok_iff.mpr ⟨items, nested, rfl⟩⟩⟩

theorem HasLeaves.length_eq (has : v.HasLeaves shape leaves) : leaves.length = shape.prod := by
  induction shape generalizing v leaves with
  | nil =>
    obtain rfl : leaves = [v] := has
    rfl
  | cons n shape inductionHypothesis =>
    obtain ⟨items, parts, rfl, rfl, inside, rfl⟩ := has
    have lengths := inside.flip.imp fun part item has => And.intro (inductionHypothesis has) has
    rw [length_flatten_of_length_eq ((List.forall₂_and_left _ _).mp lengths).1, ← inside.length_eq, List.prod_cons]

/-- The lists are known by their leaves. -/
theorem HasLeaves.eq_of_leaves (has : v.HasLeaves shape leaves) {v' : Json} (has' : v'.HasLeaves shape leaves) :
    v = v' := by
  induction shape generalizing v v' leaves with
  | nil => exact (List.singleton_inj.mp (Eq.trans (Eq.symm has) has'))
  | cons n shape inductionHypothesis =>
    obtain ⟨items, parts, rfl, size, inside, rfl⟩ := has
    obtain ⟨items', parts', rfl, size', inside', same⟩ := has'
    have cut : ∀ {items : List Json} {parts : List (List Json)}, items.length = n →
        List.Forall₂ (HasLeaves shape) items parts → pieces shape.prod n parts.flatten = parts := by
      intro items parts size inside
      have lengths := inside.flip.imp fun part item has => And.intro has.length_eq has
      rw [← size, inside.length_eq, pieces_flatten ((List.forall₂_and_left _ _).mp lengths).1]
    obtain rfl : parts = parts' := by rw [← cut size inside, ← same, cut size' inside']
    have once : Relator.LeftUnique (HasLeaves shape) := fun _ _ _ has has' => inductionHypothesis has has'
    rw [List.left_unique_forall₂' once inside inside']

theorem HasLeaves.unique (has : v.HasLeaves shape leaves) (has' : v.HasLeaves shape leaves') : leaves = leaves' := by
  induction shape generalizing v leaves leaves' with
  | nil => exact Eq.trans has (Eq.symm has')
  | cons n shape inductionHypothesis =>
    obtain ⟨items, parts, rfl, -, inside, rfl⟩ := has
    obtain ⟨_, parts', same, -, inside', rfl⟩ := has'
    cases same
    have once : Relator.RightUnique (HasLeaves shape) := fun _ _ _ => inductionHypothesis
    rw [List.right_unique_forall₂' once inside inside']

theorem Nested.exists_leaves {P : Json → Prop} (nested : v.Nested P shape) : ∃ leaves, v.HasLeaves shape leaves := by
  induction shape generalizing v with
  | nil => exact ⟨[v], rfl⟩
  | cons n shape inductionHypothesis =>
    obtain ⟨items, rfl, size, each⟩ := nested
    choose! part has using fun item member => inductionHypothesis (each item member)
    refine ⟨_, items, items.map part, rfl, size, ?_, rfl⟩
    rwa [List.forall₂_map_right_iff, List.forall₂_same]

theorem HasLeaves.nested_iff {P : Json → Prop} (has : v.HasLeaves shape leaves) :
    v.Nested P shape ↔ ∀ leaf ∈ leaves, P leaf := by
  induction shape generalizing v leaves with
  | nil =>
    obtain rfl : leaves = [v] := has
    rw [List.forall_mem_singleton]
    rfl
  | cons n shape inductionHypothesis =>
    obtain ⟨items, parts, rfl, size, inside, rfl⟩ := has
    have each := forall_mem_iff_of_forall₂ (inside.imp fun _ _ has => inductionHypothesis has)
    rw [List.forall_mem_flatten, ← each]
    exact ⟨fun ⟨_, same, _, nested⟩ => by cases same; exact nested, fun nested => ⟨items, rfl, size, nested⟩⟩

theorem HasLeaves.mapLeaves (has : v.HasLeaves shape leaves) (f : Json → Json) :
    (v.mapLeaves f shape).HasLeaves shape (leaves.map f) := by
  induction shape generalizing v leaves with
  | nil =>
    obtain rfl : leaves = [v] := has
    rfl
  | cons n shape inductionHypothesis =>
    obtain ⟨items, parts, rfl, size, inside, rfl⟩ := has
    refine ⟨_, parts.map (List.map f), rfl, by rw [List.length_map, size], ?_, by rw [List.map_flatten]⟩
    rw [List.forall₂_map_left_iff, List.forall₂_map_right_iff]
    exact inside.imp fun item part has => inductionHypothesis has

/-- Other leaves make another value. -/
theorem HasLeaves.mapLeaves_eq_iff (has : v.HasLeaves shape leaves) (f : Json → Json) :
    v.mapLeaves f shape = v ↔ ∀ leaf ∈ leaves, f leaf = leaf := by
  have changed := has.mapLeaves f
  have kept : leaves.map f = leaves.map id ↔ ∀ leaf ∈ leaves, f leaf = leaf := List.map_inj_left
  rw [← kept, List.map_id]
  constructor
  · intro same
    rw [same] at changed
    exact changed.unique has
  · intro same
    rw [same] at changed
    exact changed.eq_of_leaves has

end Json

namespace CommandLine

/-- Lists are flattened to their leaves if these are no more lists. -/
theorem flatten_eq_ok_iff {shape : List Nat} {v : Json} {leaves : List Json} :
    flatten shape v = .ok leaves ↔ v.HasLeaves shape leaves ∧ ∀ leaf ∈ leaves, leaf.isList = false := by
  induction shape generalizing v leaves with
  | nil =>
    rw [Json.HasLeaves]
    cases v with
    | arr items =>
      refine iff_of_false nofun ?_
      rintro ⟨rfl, flat⟩
      cases flat _ (List.mem_singleton_self _)
    | _ =>
      rw [flatten, Except.ok.injEq, eq_comm]
      · refine ⟨?_, And.left⟩
        rintro rfl
        exact ⟨rfl, List.forall_mem_singleton.mpr rfl⟩
      · nofun
  | cons n shape inductionHypothesis =>
    rw [Json.HasLeaves]
    cases v with
    | arr items =>
      rw [flatten]
      split
      next size =>
        simp only [map_eq_ok_iff, mapM_eq_ok_iff, inductionHypothesis, forall₂_and_right_iff]
        constructor
        · rintro ⟨parts, ⟨inside, flat⟩, rfl⟩
          exact ⟨⟨items, parts, rfl, size, inside, rfl⟩, List.forall_mem_flatten.mpr flat⟩
        · rintro ⟨⟨_, parts, same, -, inside, rfl⟩, flat⟩
          cases same
          exact ⟨parts, ⟨inside, List.forall_mem_flatten.mp flat⟩, rfl⟩
      next differs =>
        refine iff_of_false nofun ?_
        rintro ⟨⟨_, _, same, size, -⟩, -⟩
        cases same
        exact differs size
    | _ => exact iff_of_false nofun fun ⟨⟨_, _, same, _⟩, _⟩ => nomatch same

end CommandLine

end ArrayCall
