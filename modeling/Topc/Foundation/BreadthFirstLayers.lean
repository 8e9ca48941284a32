import Mathlib.Data.List.Nodup
import Mathlib.Logic.Relation

/-! # The layers of a breadth-first search

The nodes in the order in which breadth-first search meets them, one layer for each
distance from the start. -/

namespace BreadthFirst

variable {α : Type*} [DecidableEq α]

/-- The items not seen before, each where it is first met. -/
def firstNew (seen : List α) : List α → List α
  | [] => []
  | item :: items =>
      if item ∈ seen then firstNew seen items else item :: firstNew (item :: seen) items

theorem mem_firstNew {items : List α} : ∀ {seen : List α} {node : α},
    node ∈ firstNew seen items ↔ node ∈ items ∧ node ∉ seen := by
  induction items with
  | nil => simp [firstNew]
  | cons item items induction =>
      intro seen node
      rw [firstNew]
      split
      · rename_i member
        rw [induction, List.mem_cons]
        constructor
        · exact fun ⟨inItems, fresh⟩ => ⟨.inr inItems, fresh⟩
        · rintro ⟨rfl | inItems, fresh⟩
          · exact absurd member fresh
          · exact ⟨inItems, fresh⟩
      · rename_i new
        rw [List.mem_cons, induction, List.mem_cons, List.mem_cons]
        by_cases same : node = item
        · simp [same, new]
        · simp [same]

theorem nodup_firstNew {items : List α} : ∀ {seen : List α}, (firstNew seen items).Nodup := by
  induction items with
  | nil => exact List.nodup_nil
  | cons item items induction =>
      intro seen
      rw [firstNew]
      split
      · exact induction
      · refine List.nodup_cons.mpr ⟨fun member => ?_, induction⟩
        exact (mem_firstNew.mp member).2 List.mem_cons_self

theorem firstNew_congr {items : List α} : ∀ {seen seen' : List α},
    (∀ node, node ∈ seen ↔ node ∈ seen') → firstNew seen items = firstNew seen' items := by
  induction items with
  | nil => exact fun _ => rfl
  | cons item items induction =>
      intro seen seen' same
      have sameMore : ∀ node, node ∈ item :: seen ↔ node ∈ item :: seen' := by
        intro node
        rw [List.mem_cons, List.mem_cons, same]
      rw [firstNew, firstNew, induction same, induction sameMore]
      exact if_congr (same item) rfl rfl

theorem firstNew_append {items : List α} (more : List α) : ∀ {seen : List α},
    firstNew seen (items ++ more) =
      firstNew seen items ++ firstNew (seen ++ firstNew seen items) more := by
  induction items with
  | nil =>
      intro seen
      rw [List.nil_append, firstNew, List.nil_append, List.append_nil]
  | cons item items induction =>
      intro seen
      rw [List.cons_append, firstNew, firstNew]
      split
      · exact induction
      · rw [induction, List.cons_append]
        congr 2
        apply firstNew_congr
        intro node
        simp only [List.mem_append, List.mem_cons]
        tauto

section

variable (successors : α → List α) (start : α)

/-- The nodes up to a distance and those at it. -/
def layersTo : Nat → List α × List α
  | 0 => ([start], [start])
  | distance + 1 =>
      let (nearer, last) := layersTo distance
      let new := firstNew nearer (last.flatMap successors)
      (nearer ++ new, new)

/-- The nodes up to a distance. -/
def within (distance : Nat) : List α :=
  (layersTo successors start distance).1

/-- The nodes at a distance. -/
def layer (distance : Nat) : List α :=
  (layersTo successors start distance).2

theorem within_zero : within successors start 0 = [start] := rfl

theorem layer_zero : layer successors start 0 = [start] := rfl

theorem layer_succ (distance : Nat) : layer successors start (distance + 1) =
    firstNew (within successors start distance)
      ((layer successors start distance).flatMap successors) := rfl

theorem within_succ (distance : Nat) : within successors start (distance + 1) =
    within successors start distance ++ layer successors start (distance + 1) := rfl

end

variable {successors : α → List α} {start : α}

theorem mem_within_iff {distance : Nat} {node : α} :
    node ∈ within successors start distance ↔
      ∃ nearer ≤ distance, node ∈ layer successors start nearer := by
  induction distance with
  | zero =>
      constructor
      · exact fun member => ⟨0, Nat.le_refl 0, member⟩
      · rintro ⟨nearer, le, member⟩
        rw [Nat.le_zero.mp le] at member
        exact member
  | succ distance induction =>
      rw [within_succ, List.mem_append, induction]
      constructor
      · rintro (⟨nearer, le, member⟩ | member)
        · exact ⟨nearer, Nat.le_succ_of_le le, member⟩
        · exact ⟨distance + 1, Nat.le_refl _, member⟩
      · rintro ⟨nearer, le, member⟩
        rcases Nat.le_or_eq_of_le_succ le with le | rfl
        · exact .inl ⟨nearer, le, member⟩
        · exact .inr member

theorem layer_subset_within {nearer distance : Nat} (le : nearer ≤ distance) {node : α}
    (member : node ∈ layer successors start nearer) :
    node ∈ within successors start distance :=
  mem_within_iff.mpr ⟨nearer, le, member⟩

theorem nodup_within (distance : Nat) : (within successors start distance).Nodup := by
  induction distance with
  | zero => exact List.nodup_singleton start
  | succ distance induction =>
      rw [within_succ, List.nodup_append]
      refine ⟨induction, nodup_firstNew, ?_⟩
      rintro node member other isNew rfl
      exact (mem_firstNew.mp isNew).2 member

/-- A node has one distance. -/
theorem layer_unique {node : α} {first second : Nat}
    (left : node ∈ layer successors start first) (right : node ∈ layer successors start second) :
    first = second := by
  have before : ∀ {nearer further : Nat}, nearer < further →
      node ∈ layer successors start nearer → node ∉ layer successors start further := by
    intro nearer further less inNearer inFurther
    cases further with
    | zero => exact absurd less (Nat.not_lt_zero _)
    | succ further =>
        rw [layer_succ] at inFurther
        exact (mem_firstNew.mp inFurther).2
          (layer_subset_within (Nat.le_of_lt_succ less) inNearer)
  rcases Nat.lt_trichotomy first second with less | same | greater
  · exact absurd right (before less left)
  · exact same
  · exact absurd left (before greater right)

/-- A successor is at most one step further. -/
theorem mem_within_of_edge {distance : Nat} {node next : α}
    (member : node ∈ within successors start distance) (edge : next ∈ successors node) :
    next ∈ within successors start (distance + 1) := by
  rcases mem_within_iff.mp member with ⟨nearer, le, inLayer⟩
  by_cases seen : next ∈ within successors start nearer
  · rcases mem_within_iff.mp seen with ⟨least, le', inLeast⟩
    exact layer_subset_within (by omega) inLeast
  · apply layer_subset_within (Nat.succ_le_succ le)
    rw [layer_succ]
    exact mem_firstNew.mpr ⟨List.mem_flatMap.mpr ⟨node, inLayer, edge⟩, seen⟩

/-- Every node but the start is met from one a step nearer. -/
theorem exists_of_mem_layer {distance : Nat} {node : α}
    (member : node ∈ layer successors start (distance + 1)) :
    ∃ before ∈ layer successors start distance, node ∈ successors before :=
  List.mem_flatMap.mp (mem_firstNew.mp (layer_succ successors start distance ▸ member)).1

theorem mem_within_succ_iff {distance : Nat} {node : α} :
    node ∈ within successors start (distance + 1) ↔ node = start ∨
      ∃ before, (∃ nearer < distance + 1, before ∈ layer successors start nearer) ∧
        node ∈ successors before := by
  constructor
  · intro member
    rcases mem_within_iff.mp member with ⟨further, le, inLayer⟩
    cases further with
    | zero => exact .inl (List.mem_singleton.mp inLayer)
    | succ nearer =>
        rcases exists_of_mem_layer inLayer with ⟨before, inNearer, edge⟩
        exact .inr ⟨before, ⟨nearer, le, inNearer⟩, edge⟩
  · rintro (rfl | ⟨before, ⟨nearer, less, inNearer⟩, edge⟩)
    · exact layer_subset_within (Nat.zero_le _) (List.mem_singleton.mpr rfl)
    · exact mem_within_of_edge (layer_subset_within (Nat.le_of_lt_succ less) inNearer) edge

/-- Behind an empty layer there is nothing. -/
theorem layer_eq_nil_of_le {distance further : Nat} (le : distance ≤ further)
    (empty : layer successors start distance = []) : layer successors start further = [] := by
  induction le with
  | refl => exact empty
  | step _ induction =>
      rw [layer_succ, induction]
      rfl

theorem reaches_iff {node : α} :
    Relation.ReflTransGen (fun node next => next ∈ successors node) start node ↔
      ∃ distance, node ∈ layer successors start distance := by
  constructor
  · intro path
    induction path with
    | refl => exact ⟨0, List.mem_singleton.mpr rfl⟩
    | tail _ edge induction =>
        rcases induction with ⟨distance, member⟩
        have further := mem_within_of_edge (layer_subset_within (Nat.le_refl _) member) edge
        rcases mem_within_iff.mp further with ⟨nearer, _, inLayer⟩
        exact ⟨nearer, inLayer⟩
  · rintro ⟨distance, member⟩
    induction distance generalizing node with
    | zero => rw [List.mem_singleton.mp member]
    | succ distance induction =>
        rcases exists_of_mem_layer member with ⟨before, inLayer, edge⟩
        exact (induction inLayer).tail edge

end BreadthFirst
