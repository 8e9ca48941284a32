import Mathlib.Data.List.Perm.Basic
import Mathlib.Logic.Relation

/-! # Depth-first search

A search for a chain of edges that explores each node once, and the order in which
a search leaves the nodes behind. In an acyclic graph that order puts every node
after its successors. -/

namespace DepthFirst

variable {α : Type*} [DecidableEq α]

/-! ## Searching -/

section

variable (next : α → List α)

def Edge (node successor : α) : Prop :=
  successor ∈ next node

variable (goal : α)

/-- Whether the search has found an edge to the goal, and the nodes visited. -/
def search : Nat → α → List α → Bool × List α
  | 0, _, visited => (false, visited)
  | depth + 1, node, visited =>
      if node ∈ visited then (false, visited)
      else
        (next node).foldl (fun (found, visited) successor =>
          if found then (true, visited)
          else if successor = goal then (true, visited)
          else search depth successor visited) (false, node :: visited)

/-- The edges of the nodes visited since lead to visited nodes, none to the goal. -/
structure Explored (before after : List α) : Prop where
  grows : before ⊆ after
  missed : ∀ node ∈ after, node ∉ before → goal ∉ next node
  closed : ∀ node ∈ after, node ∉ before → next node ⊆ after

variable {next goal}

omit [DecidableEq α] in
theorem Explored.refl (visited : List α) : Explored next goal visited visited where
  grows := List.Subset.refl visited
  missed _ member new := absurd member new
  closed _ member new := absurd member new

theorem Explored.trans {first second third : List α} (left : Explored next goal first second)
    (right : Explored next goal second third) : Explored next goal first third where
  grows := List.Subset.trans left.grows right.grows
  missed := by
    intro node member new
    by_cases early : node ∈ second
    · exact left.missed node early new
    · exact right.missed node member early
  closed := by
    intro node member new
    by_cases early : node ∈ second
    · exact List.Subset.trans (left.closed node early new) right.grows
    · exact right.closed node member early

/-- Nodes of a finite set that are not visited yet. -/
def unvisited (nodes visited : List α) : List α :=
  nodes.filter (· ∉ visited)

theorem unvisited_length_le (nodes : List α) {before after : List α} (grows : before ⊆ after) :
    (unvisited nodes after).length ≤ (unvisited nodes before).length := by
  apply List.Sublist.length_le
  apply List.monotone_filter_right
  intro node new
  rw [decide_eq_true_eq] at new ⊢
  exact fun member => new (grows member)

theorem unvisited_length_lt {nodes visited : List α} {node : α} (inside : node ∈ nodes)
    (new : node ∉ visited) :
    (unvisited nodes (node :: visited)).length < (unvisited nodes visited).length := by
  have sublist : (unvisited nodes (node :: visited)).Sublist (unvisited nodes visited) := by
    apply List.monotone_filter_right
    intro other fresh
    rw [decide_eq_true_eq] at fresh ⊢
    exact fun member => fresh (List.mem_cons_of_mem node member)
  apply Nat.lt_of_le_of_ne sublist.length_le
  intro sameLength
  have member : node ∈ unvisited nodes visited :=
    List.mem_filter.mpr ⟨inside, decide_eq_true new⟩
  rw [← sublist.eq_of_length sameLength] at member
  exact of_decide_eq_true (List.mem_filter.mp member).2 List.mem_cons_self

/-- What a search gives. -/
structure Searched (next : α → List α) (goal node : α) (visited : List α)
    (result : Bool × List α) : Prop where
  found : result.1 = true → Relation.TransGen (Edge next) node goal
  explored : result.1 = false → Explored next goal visited result.2 ∧ node ∈ result.2

section

variable {nodes : List α}

/-- The loop over the successors of a node. -/
theorem searchAll_spec {depth : Nat} {node : α}
    (each : ∀ successor visited, successor ∈ nodes → (unvisited nodes visited).length < depth →
      Searched next goal successor visited (search next goal depth successor visited))
    {successors : List α} (edges : successors ⊆ next node) (inside : successors ⊆ nodes) :
    ∀ visited, (unvisited nodes visited).length < depth →
      let result := successors.foldl (fun (found, visited) successor =>
        if found then (true, visited)
        else if successor = goal then (true, visited)
        else search next goal depth successor visited) (false, visited)
      (result.1 = true → Relation.TransGen (Edge next) node goal) ∧
        (result.1 = false → Explored next goal visited result.2 ∧ goal ∉ successors ∧
          successors ⊆ result.2) := by
  have stays : ∀ (rest : List α) (visited : List α), (rest.foldl (fun (found, visited) successor =>
      if found then (true, visited)
      else if successor = goal then (true, visited)
      else search next goal depth successor visited) (true, visited)).1 = true := by
    intro rest
    induction rest with
    | nil => exact fun _ => rfl
    | cons successor rest induction => exact fun visited => induction visited
  induction successors with
  | nil =>
      intro visited _
      exact ⟨nofun, fun _ => ⟨.refl visited, List.not_mem_nil, List.nil_subset _⟩⟩
  | cons successor successors induction =>
      intro visited enough
      have edge : Edge next node successor := edges List.mem_cons_self
      rw [List.foldl_cons]
      dsimp only
      rw [if_neg Bool.false_ne_true]
      by_cases isGoal : successor = goal
      · rw [if_pos isGoal, stays successors visited]
        exact ⟨fun _ => .single (isGoal ▸ edge), nofun⟩
      · rw [if_neg isGoal]
        have first := each successor visited (inside List.mem_cons_self) enough
        cases outcome : search next goal depth successor visited with
        | mk found after =>
            rw [outcome] at first
            cases found with
            | true =>
                rw [stays successors after]
                exact ⟨fun _ => .head edge (first.found rfl), nofun⟩
            | false =>
                rcases first.explored rfl with ⟨explored, reached⟩
                have fewer := unvisited_length_le nodes explored.grows
                have rest := induction (fun _ member => edges (List.mem_cons_of_mem _ member))
                  (fun _ member => inside (List.mem_cons_of_mem _ member)) after
                  (Nat.lt_of_le_of_lt fewer enough)
                refine ⟨rest.1, fun missed => ?_⟩
                rcases rest.2 missed with ⟨restExplored, notGoal, subset⟩
                refine ⟨explored.trans restExplored, ?_, ?_⟩
                · exact List.not_mem_cons_of_ne_of_not_mem (fun same => isGoal same.symm) notGoal
                · exact List.cons_subset.mpr ⟨restExplored.grows reached, subset⟩

/-- A search in a closed finite set of nodes, with depth for all of them. -/
theorem search_spec (closed : ∀ node ∈ nodes, next node ⊆ nodes) (depth : Nat) :
    ∀ node visited, node ∈ nodes → (unvisited nodes visited).length < depth →
      Searched next goal node visited (search next goal depth node visited) := by
  induction depth with
  | zero => exact fun _ _ _ enough => absurd enough (Nat.not_lt_zero _)
  | succ depth induction =>
      intro node visited inside enough
      rw [search]
      split
      · rename_i seen
        exact ⟨nofun, fun _ => ⟨.refl visited, seen⟩⟩
      · rename_i new
        have fewer := unvisited_length_lt inside new
        have all := searchAll_spec induction (List.Subset.refl (next node)) (closed node inside)
          (node :: visited) (Nat.lt_of_lt_of_le fewer (Nat.le_of_lt_succ enough))
        refine ⟨all.1, fun missed => ?_⟩
        rcases all.2 missed with ⟨explored, notGoal, subset⟩
        refine ⟨⟨?_, ?_, ?_⟩, explored.grows List.mem_cons_self⟩
        · exact fun _ member => explored.grows (List.mem_cons_of_mem node member)
        · intro other member notBefore
          by_cases same : other = node
          · exact same ▸ notGoal
          · exact explored.missed other member (List.not_mem_cons_of_ne_of_not_mem same notBefore)
        · intro other member notBefore
          by_cases same : other = node
          · exact same ▸ subset
          · exact explored.closed other member (List.not_mem_cons_of_ne_of_not_mem same notBefore)

/-- A search from the start finds exactly the chains of at least one edge. -/
theorem search_iff (closed : ∀ node ∈ nodes, next node ⊆ nodes) {depth : Nat}
    (enough : nodes.length < depth) {node : α} (inside : node ∈ nodes) :
    (search next goal depth node []).1 = true ↔ Relation.TransGen (Edge next) node goal := by
  have bounded : (unvisited nodes []).length < depth :=
    Nat.lt_of_le_of_lt (List.length_filter_le _ nodes) enough
  have searched : Searched next goal node [] (search next goal depth node []) :=
    search_spec closed depth node [] inside bounded
  constructor
  · exact searched.found
  · intro chain
    by_contra missed
    rcases searched.explored (eq_false_of_ne_true missed) with ⟨explored, start⟩
    have visits : ∀ reached, Relation.ReflTransGen (Edge next) node reached →
        reached ∈ (search next goal depth node []).2 := by
      intro reached path
      induction path with
      | refl => exact start
      | tail _ edge induction => exact explored.closed _ induction List.not_mem_nil edge
    rcases Relation.TransGen.tail'_iff.mp chain with ⟨last, path, edge⟩
    exact explored.missed last (visits last path) List.not_mem_nil edge

end

end

/-! ## The order of leaving -/

/-- The nodes left behind so far, and those not reached yet. -/
structure Progress (α : Type*) where
  finished : List α
  unmarked : List α

section

variable (next : α → List α)

/-- Visit what is reached from a node for the first time, then leave the node. -/
def visit : Nat → Progress α → α → Progress α
  | 0, progress, _ => progress
  | depth + 1, progress, node =>
      if node ∈ progress.unmarked then
        let visited := (next node).foldl (visit depth)
          { progress with unmarked := progress.unmarked.erase node }
        { visited with finished := visited.finished ++ [node] }
      else progress

/-- Every node stands after its successors. -/
def Ordered (finished : List α) : Prop :=
  ∀ before node after, finished = before ++ node :: after → next node ⊆ before

variable {next}

omit [DecidableEq α] in
theorem Ordered.concat {finished : List α} {node : α} (ordered : Ordered next finished)
    (edges : next node ⊆ finished) : Ordered next (finished ++ [node]) := by
  intro before other after split
  rcases List.eq_nil_or_concat after with rfl | ⟨after, last, rfl⟩
  · have parts := List.append_inj' split rfl
    have same := List.singleton_inj.mp parts.2
    rw [← parts.1, ← same]
    exact edges
  · rw [List.concat_eq_append, ← List.cons_append, ← List.append_assoc] at split
    exact ordered before other after (List.append_inj' split rfl).1

/-- What a visit keeps. -/
structure Visited (next : α → List α) (before after : Progress α) : Prop where
  extends_finished : before.finished <+: after.finished
  perm : (after.finished ++ after.unmarked).Perm (before.finished ++ before.unmarked)
  ordered : Ordered next after.finished

omit [DecidableEq α] in
theorem Visited.unmarked_length {before after : Progress α} (visited : Visited next before after) :
    after.unmarked.length ≤ before.unmarked.length := by
  have total := visited.perm.length_eq
  have longer := visited.extends_finished.length_le
  rw [List.length_append, List.length_append] at total
  omega

omit [DecidableEq α] in
theorem Visited.trans {first second third : Progress α} (left : Visited next first second)
    (right : Visited next second third) : Visited next first third where
  extends_finished := left.extends_finished.trans right.extends_finished
  perm := right.perm.trans left.perm
  ordered := right.ordered

/-- The nodes of interest that have been entered and not left yet. -/
def Covers (inside : α → Prop) (active : List α) (progress : Progress α) : Prop :=
  ∀ node, inside node → node ∈ active ∨ node ∈ progress.finished ++ progress.unmarked

omit [DecidableEq α] in
theorem Covers.visited {inside : α → Prop} {active : List α} {before after : Progress α}
    (covers : Covers inside active before) (visited : Visited next before after) :
    Covers inside active after := by
  intro node isInside
  rw [visited.perm.mem_iff]
  exact covers node isInside

/-- The loop over the successors of a node. -/
theorem visitAll_spec {inside : α → Prop} {active : List α} {depth : Nat}
    {successors : List α}
    (each : ∀ successor ∈ successors, ∀ progress, Covers inside active progress →
      Ordered next progress.finished → progress.unmarked.length < depth →
      Visited next progress (visit next depth progress successor) ∧
        successor ∈ (visit next depth progress successor).finished) :
    ∀ progress, Covers inside active progress → Ordered next progress.finished →
      progress.unmarked.length < depth →
      Visited next progress (successors.foldl (visit next depth) progress) ∧
        successors ⊆ (successors.foldl (visit next depth) progress).finished := by
  induction successors with
  | nil =>
      intro progress _ ordered _
      exact ⟨⟨List.prefix_refl _, .refl _, ordered⟩, List.nil_subset _⟩
  | cons successor successors induction =>
      intro progress covers ordered enough
      rcases each successor List.mem_cons_self progress covers ordered enough with ⟨first, left⟩
      rcases induction (fun other member => each other (List.mem_cons_of_mem _ member)) _
        (covers.visited first) first.ordered
        (Nat.lt_of_le_of_lt first.unmarked_length enough) with ⟨rest, others⟩
      exact ⟨first.trans rest, List.cons_subset.mpr ⟨rest.extends_finished.subset left, others⟩⟩

/-- A visit in an acyclic part of the graph leaves the node behind, after all it
leads to. The nodes entered and not left lead to the node that is visited. -/
theorem visit_spec {inside : α → Prop} (closed : ∀ node, inside node → ∀ other ∈ next node, inside other)
    (acyclic : ∀ node, inside node → ¬ Relation.TransGen (Edge next) node node) (depth : Nat) :
    ∀ node active progress, inside node → (∀ other ∈ active, Relation.TransGen (Edge next) other node) →
      Covers inside active progress → Ordered next progress.finished →
      progress.unmarked.length < depth →
      Visited next progress (visit next depth progress node) ∧
        node ∈ (visit next depth progress node).finished := by
  induction depth with
  | zero => exact fun _ _ _ _ _ _ _ enough => absurd enough (Nat.not_lt_zero _)
  | succ depth induction =>
      intro node active progress isInside leads covers ordered enough
      have notActive : node ∉ active := fun member => acyclic node isInside (leads node member)
      rw [visit]
      split
      · rename_i unmarked
        let marked : Progress α := { progress with unmarked := progress.unmarked.erase node }
        have split := List.perm_cons_erase unmarked
        have markedCovers : Covers inside (node :: active) marked := by
          intro other otherInside
          rcases covers other otherInside with isActive | known
          · exact .inl (List.mem_cons_of_mem node isActive)
          · rcases List.mem_append.mp known with finished | waiting
            · exact .inr (List.mem_append_left _ finished)
            · rcases List.mem_cons.mp (split.mem_iff.mp waiting) with rfl | kept
              · exact .inl List.mem_cons_self
              · exact .inr (List.mem_append_right _ kept)
        have fewer : marked.unmarked.length < depth := by
          have length := split.length_eq
          rw [List.length_cons] at length
          change (progress.unmarked.erase node).length < depth
          omega
        have each : ∀ successor ∈ next node, ∀ progress, Covers inside (node :: active) progress →
            Ordered next progress.finished → progress.unmarked.length < depth →
            Visited next progress (visit next depth progress successor) ∧
              successor ∈ (visit next depth progress successor).finished := by
          intro successor member progress covers ordered enough
          apply induction successor (node :: active) progress (closed node isInside successor member)
            _ covers ordered enough
          intro other isActive
          rcases List.mem_cons.mp isActive with rfl | isActive
          · exact .single member
          · exact (leads other isActive).tail member
        rcases visitAll_spec each marked markedCovers ordered fewer with
          ⟨visited, successorsLeft⟩
        refine ⟨⟨?_, ?_, ?_⟩, by simp⟩
        · exact visited.extends_finished.trans (List.prefix_append _ _)
        · have moved : ((((next node).foldl (visit next depth) marked).finished ++ [node]) ++
              ((next node).foldl (visit next depth) marked).unmarked).Perm
              (node :: (((next node).foldl (visit next depth) marked).finished ++
                ((next node).foldl (visit next depth) marked).unmarked)) := by
            rw [List.append_assoc]
            exact List.perm_middle
          have restored : (node :: (marked.finished ++ marked.unmarked)).Perm
              (progress.finished ++ progress.unmarked) :=
            List.perm_middle.symm.trans (split.symm.append_left _)
          exact moved.trans ((visited.perm.cons node).trans restored)
        · exact visited.ordered.concat successorsLeft
      · rename_i marked
        refine ⟨⟨List.prefix_refl _, .refl _, ordered⟩, ?_⟩
        rcases covers node isInside with isActive | known
        · exact absurd isActive notActive
        · rcases List.mem_append.mp known with finished | waiting
          · exact finished
          · exact absurd waiting marked

end

end DepthFirst
