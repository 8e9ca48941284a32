import Mathlib.Algebra.BigOperators.Group.List.Basic
import Mathlib.Computability.Language
import Mathlib.Logic.Relation

/-! # Path languages of a labelled graph

The words read along the paths of a graph, from a node to its exit. A node with
finitely many edges has the sum of what its edges lead to, and a node on a cycle
has the iteration of the cycle. -/

open Computability

namespace GraphPaths

variable {Node Event : Type*}

/-- The graph has a path from a node to the exit that reads the word. -/
inductive Reads (edge : Node → List Event → Node → Prop) (exit : Node) :
    Node → List Event → Prop
  | done : Reads edge exit exit []
  | step {node next : Node} {word rest : List Event} :
      edge node word next → Reads edge exit next rest → Reads edge exit node (word ++ rest)

/-- The words from a node to the exit. -/
def pathsFrom (edge : Node → List Event → Node → Prop) (exit node : Node) : Language Event :=
  {word | Reads edge exit node word}

/-- Some path leads from the first node to the second. -/
def Reaches (edge : Node → List Event → Node → Prop) : Node → Node → Prop :=
  Relation.ReflTransGen fun node next => ∃ word, edge node word next

variable {edge : Node → List Event → Node → Prop} {exit node : Node}

theorem Reaches.step {next : Node} {word : List Event} (first : edge node word next) :
    Reaches edge node next :=
  Relation.ReflTransGen.single ⟨word, first⟩

theorem mem_sum_map {α : Type*} {languages : α → Language Event} {items : List α}
    {word : List Event} :
    word ∈ (items.map languages).sum ↔ ∃ item ∈ items, word ∈ languages item := by
  induction items with
  | nil => simp [Language.notMem_zero]
  | cons item items induction =>
      rw [List.map_cons, List.sum_cons, Language.mem_add, induction]
      simp

theorem mem_singleton_mul {word path : List Event} {language : Language Event} :
    path ∈ ({word} : Language Event) * language ↔ ∃ rest ∈ language, word ++ rest = path := by
  rw [Language.mem_mul]
  constructor
  · rintro ⟨first, rfl, rest, member, split⟩
    exact ⟨rest, member, split⟩
  · rintro ⟨rest, member, split⟩
    exact ⟨word, rfl, rest, member, split⟩

/-- A node other than the exit has the sum over its edges. -/
theorem pathsFrom_of_edges {α : Type*} (inside : node ≠ exit) {words : α → List Event}
    {target : α → Node} {edges : List α}
    (exact : ∀ word next, edge node word next ↔
      ∃ item ∈ edges, target item = next ∧ word = words item) :
    pathsFrom edge exit node =
      (edges.map fun item => ({words item} : Language Event) *
        pathsFrom edge exit (target item)).sum := by
  apply Language.ext
  intro path
  rw [mem_sum_map]
  constructor
  · intro reads
    cases reads with
    | done => exact absurd rfl inside
    | step first rest =>
        rcases (exact _ _).mp first with ⟨item, member, rfl, rfl⟩
        exact ⟨item, member, mem_singleton_mul.mpr ⟨_, rest, rfl⟩⟩
  · rintro ⟨item, member, inItem⟩
    rcases mem_singleton_mul.mp inItem with ⟨rest, restReads, rfl⟩
    exact Reads.step ((exact _ _).mpr ⟨item, member, rfl, rfl⟩) restReads

/-- A cycle that reads something is iterated. -/
theorem pathsFrom_of_cycle {enter leave : Event} {body after : Language Event}
    (cycle : pathsFrom edge exit node =
      ({[enter]} : Language Event) * (body * pathsFrom edge exit node) +
        ({[leave]} : Language Event) * after) :
    pathsFrom edge exit node =
      ((({[enter]} : Language Event) * body)∗ * {[leave]}) * after := by
  have nonempty : [] ∉ ({[enter]} : Language Event) * body := by
    intro member
    rcases mem_singleton_mul.mp member with ⟨rest, _, split⟩
    cases split
  rw [← mul_assoc] at cycle
  rw [mul_assoc]
  exact (Language.self_eq_mul_add_iff nonempty).mp cycle

end GraphPaths
