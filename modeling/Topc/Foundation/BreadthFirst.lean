import Mathlib.Data.List.Nodup
import Mathlib.Data.List.Perm.Subperm
import Mathlib.Logic.Relation

/-! # Breadth-first search

A queue of nodes whose successors are still to be looked at, and the nodes
visited so far. On a finite set of nodes the search ends within one round a node
and has then visited what the start reaches. -/

namespace BreadthFirst

variable {α : Type*} [DecidableEq α]

/-- The nodes waiting and the nodes visited. -/
structure State (α : Type*) where
  work : List α
  visited : List α

def visit (state : State α) (node : α) : State α :=
  if node ∈ state.visited then state
  else { work := state.work ++ [node], visited := node :: state.visited }

/-- The visited nodes once the queue is empty, if that takes no more rounds than
given. -/
def search (successors : α → List α) : Nat → State α → Option (List α)
  | _, ⟨[], visited⟩ => some visited
  | 0, ⟨_ :: _, _⟩ => none
  | rounds + 1, ⟨node :: work, visited⟩ =>
      search successors rounds ((successors node).foldl visit ⟨work, visited⟩)

/-- What a search keeps: no node twice, nodes of the given set only, the queue
visited, and the successors of every visited node that no longer waits. -/
structure Invariant (successors : α → List α) (nodes : List α) (state : State α) : Prop where
  nodup : state.visited.Nodup
  inside : ∀ node ∈ state.visited, node ∈ nodes
  waiting : ∀ node ∈ state.work, node ∈ state.visited
  closed : ∀ node ∈ state.visited, node ∉ state.work →
    ∀ next ∈ successors node, next ∈ state.visited

/-- Visiting adds each new node to the queue and to the nodes visited. -/
theorem foldl_visit (items : List α) : ∀ (state : State α), state.visited.Nodup →
    ∃ fresh, (items.foldl visit state).work = state.work ++ fresh ∧
      (items.foldl visit state).visited = fresh.reverse ++ state.visited ∧
      (items.foldl visit state).visited.Nodup ∧
      (∀ node ∈ fresh, node ∈ items) ∧
      ∀ node ∈ items, node ∈ (items.foldl visit state).visited := by
  induction items with
  | nil => exact fun state nodup => ⟨[], by simp [nodup]⟩
  | cons item items induction =>
      intro state nodup
      rw [List.foldl_cons]
      by_cases seen : item ∈ state.visited
      · rw [visit, if_pos seen]
        rcases induction state nodup with ⟨fresh, work, visited, distinct, subset, all⟩
        refine ⟨fresh, work, visited, distinct, ?_, ?_⟩
        · exact fun node member => List.mem_cons_of_mem _ (subset node member)
        · intro node member
          rcases List.mem_cons.mp member with rfl | later
          · rw [visited]
            exact List.mem_append_right _ seen
          · exact all node later
      · rw [visit, if_neg seen]
        rcases induction ⟨state.work ++ [item], item :: state.visited⟩
          (List.nodup_cons.mpr ⟨seen, nodup⟩) with ⟨fresh, work, visited, distinct, subset, all⟩
        refine ⟨item :: fresh, ?_, ?_, distinct, ?_, ?_⟩
        · rw [work, List.append_assoc]
          rfl
        · rw [visited, List.reverse_cons, List.append_assoc]
          rfl
        · intro node member
          rcases List.mem_cons.mp member with rfl | later
          · exact List.mem_cons_self
          · exact List.mem_cons_of_mem _ (subset node later)
        · intro node member
          rcases List.mem_cons.mp member with rfl | later
          · rw [visited]
            exact List.mem_append_right _ List.mem_cons_self
          · exact all node later

variable {successors : α → List α} {nodes : List α}

theorem Invariant.step (inside : ∀ node ∈ nodes, ∀ next ∈ successors node, next ∈ nodes)
    {node : α} {work visited : List α}
    (invariant : Invariant successors nodes ⟨node :: work, visited⟩) :
    Invariant successors nodes ((successors node).foldl visit ⟨work, visited⟩) := by
  rcases foldl_visit (successors node) ⟨work, visited⟩ invariant.nodup with
    ⟨fresh, workEq, visitedEq, distinct, subset, all⟩
  have nodeVisited := invariant.waiting node List.mem_cons_self
  have kept : ∀ other ∈ visited,
      other ∈ ((successors node).foldl visit ⟨work, visited⟩).visited := by
    intro other member
    rw [visitedEq]
    exact List.mem_append_right _ member
  constructor
  · exact distinct
  · intro other member
    rw [visitedEq, List.mem_append, List.mem_reverse] at member
    rcases member with new | old
    · exact inside node (invariant.inside node nodeVisited) other (subset other new)
    · exact invariant.inside other old
  · intro other member
    rw [workEq, List.mem_append] at member
    rcases member with old | new
    · exact kept other (invariant.waiting other (List.mem_cons_of_mem _ old))
    · rw [visitedEq]
      exact List.mem_append_left _ (List.mem_reverse.mpr new)
  · intro other member notWaiting next isNext
    rw [workEq, List.mem_append, not_or] at notWaiting
    rw [visitedEq, List.mem_append, List.mem_reverse] at member
    rcases member with new | old
    · exact absurd new notWaiting.2
    · by_cases same : other = node
      · subst same
        exact all next isNext
      · apply kept
        exact invariant.closed other old (by simp [same, notWaiting.1]) next isNext

/-- The search ends, and its result is closed under successors. -/
theorem search_closed (inside : ∀ node ∈ nodes, ∀ next ∈ successors node, next ∈ nodes) :
    ∀ (rounds : Nat) (state : State α), Invariant successors nodes state →
      nodes.length + state.work.length ≤ rounds + state.visited.length →
        ∃ visited, search successors rounds state = some visited ∧
          Invariant successors nodes ⟨[], visited⟩ ∧ ∀ node ∈ state.visited, node ∈ visited := by
  intro rounds
  induction rounds with
  | zero =>
      rintro ⟨work, visited⟩ invariant bound
      cases work with
      | nil => exact ⟨visited, by rw [search], invariant, fun _ member => member⟩
      | cons node work =>
          have fits : visited.length ≤ nodes.length :=
            (invariant.nodup.subperm invariant.inside).length_le
          simp only [List.length_cons] at bound
          omega
  | succ rounds induction =>
      rintro ⟨work, visited⟩ invariant bound
      cases work with
      | nil => exact ⟨visited, by rw [search], invariant, fun _ member => member⟩
      | cons node work =>
          rcases foldl_visit (successors node) ⟨work, visited⟩ invariant.nodup with
            ⟨fresh, workEq, visitedEq, _, _, _⟩
          have enough : nodes.length +
              ((successors node).foldl visit ⟨work, visited⟩).work.length ≤
                rounds + ((successors node).foldl visit ⟨work, visited⟩).visited.length := by
            rw [workEq, visitedEq]
            simp only [List.length_append, List.length_reverse, List.length_cons] at bound ⊢
            omega
          rcases induction _ (invariant.step inside) enough with ⟨result, found, settled, kept⟩
          refine ⟨result, ?_, settled, ?_⟩
          · rw [search, found]
          · intro other member
            apply kept
            rw [visitedEq]
            exact List.mem_append_right _ member

/-- When the start reaches every node, the search counts them all. -/
theorem search_length (inside : ∀ node ∈ nodes, ∀ next ∈ successors node, next ∈ nodes)
    (distinct : nodes.Nodup) {start : α} (startMem : start ∈ nodes)
    (reached : ∀ node ∈ nodes,
      Relation.ReflTransGen (fun node next => next ∈ successors node) start node) :
    ∃ visited, search successors nodes.length ⟨[start], [start]⟩ = some visited ∧
      visited.length = nodes.length := by
  have initial : Invariant successors nodes ⟨[start], [start]⟩ := by
    constructor
    · exact List.nodup_singleton start
    · intro node member
      rw [List.mem_singleton.mp member]
      exact startMem
    · exact fun _ member => member
    · exact fun _ member notMember => absurd member notMember
  rcases search_closed inside nodes.length _ initial (by simp) with
    ⟨visited, found, settled, kept⟩
  refine ⟨visited, found, ?_⟩
  have all : ∀ node ∈ nodes, node ∈ visited := by
    intro node member
    have path := reached node member
    clear member
    induction path with
    | refl => exact kept start List.mem_cons_self
    | tail _ last induction => exact settled.closed _ induction List.not_mem_nil _ last
  apply Nat.le_antisymm
  · exact (settled.nodup.subperm settled.inside).length_le
  · exact (distinct.subperm all).length_le

end BreadthFirst
