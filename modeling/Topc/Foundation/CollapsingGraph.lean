import Mathlib.Data.Set.Finite.Lattice
import Mathlib.Logic.Relation

/-! # Graphs whose nodes collapse

Nodes hold elements and pass them on along their edges. Tasks wait at a node
until it holds the element they are for. Nodes are merged into others, which
represent them from then on. A merged node keeps what it had, and an algorithm
that is at work on it still sees that.

What a step of such an algorithm does to the nodes it leaves behind is said by
`Advances`: a node either has delivered its elements to all it leads to, or it is
what it was. Steps compose, and delivery is never undone. -/

/-- A graph with merged nodes. -/
structure CollapsingGraph (Node Index Task : Type*) where
  known : Node → Prop
  live : Node → Prop
  representative : Node → Node
  edge : Node → Node → Prop
  holds : Node → Index → Prop
  waits : Node → Index → Task → Prop

namespace CollapsingGraph

variable {Node Index Task : Type*}

/-- Merged nodes are represented by live ones, and live nodes lead to live nodes. -/
structure WellFormed (g : CollapsingGraph Node Index Task) : Prop where
  live_representative {node : Node} : g.known node → g.live (g.representative node)
  known_of_live {node : Node} : g.live node → g.known node
  representative_of_live {node : Node} : g.live node → g.representative node = node
  live_of_edge {node next : Node} : g.live node → g.edge node next → g.live next
  known_of_edge {node next : Node} : g.edge node next → g.known next

/-- Ranks fall along edges, except from some nodes, which have rank zero. -/
structure RankedExcept (g : CollapsingGraph Node Index Task) (exempt : Node → Prop)
    (rank : Node → Nat) : Prop where
  zero {node : Node} : exempt node → rank node = 0
  falls {node next : Node} : ¬ exempt node → g.edge node next → rank next < rank node

def Acyclic (g : CollapsingGraph Node Index Task) : Prop :=
  ∃ rank : Node → Nat, ∀ node next, g.edge node next → rank next < rank node

/-- A node has passed on its elements and has no task waiting for any of them. -/
structure Settled (g : CollapsingGraph Node Index Task) (node : Node) : Prop where
  passed {next : Node} : g.edge node next → ∀ index, g.holds node index → g.holds next index
  idle {index : Index} : g.holds node index → ∀ task, ¬ g.waits node index task

def SettledFrom (g : CollapsingGraph Node Index Task) (node : Node) : Prop :=
  ∀ reached, Relation.ReflTransGen g.edge node reached → g.Settled reached

/-- The elements of a node have arrived wherever it leads. -/
structure Delivered (g : CollapsingGraph Node Index Task) (node : Node) : Prop where
  handedOver {index : Index} : g.holds node index → g.holds (g.representative node) index
  settled : g.SettledFrom (g.representative node)

/-- What every step keeps. -/
structure Evolves (g g' : CollapsingGraph Node Index Task) : Prop where
  known {node : Node} : g'.known node ↔ g.known node
  live {node : Node} : g'.live node → g.live node
  representative {node : Node} : g.known node →
    g'.representative (g.representative node) = g'.representative node
  frozen {node next : Node} : ¬ g.live node → (g'.edge node next ↔ g.edge node next)
  grows {node : Node} {index : Index} : g.holds node index → g'.holds node index
  flows {node : Node} {index : Index} : g.live node → g.holds node index →
    g'.holds (g'.representative node) index
  linked {node next : Node} : g.live node → g.edge node next →
    g'.representative node = g'.representative next ∨
      g'.edge (g'.representative node) (g'.representative next)

/-- A node holds what it held, waits for no more, and leads where it led. -/
structure Unchanged (g g' : CollapsingGraph Node Index Task) (node : Node) : Prop where
  holds {index : Index} : g'.holds node index → g.holds node index
  waits {index : Index} {task : Task} : g'.live node → g'.waits node index task →
    g.waits node index task
  edge {next : Node} : g'.live node → g'.edge node next →
    ∃ earlier, g.edge node earlier ∧ g'.representative earlier = next

/-- A step after which every node has delivered its elements or is what it was. -/
structure Advances (g g' : CollapsingGraph Node Index Task) : Prop where
  evolves : Evolves g g'
  keeps {node : Node} : g.known node → g'.Delivered node ∨ Unchanged g g' node
  collapsed {node : Node} : g.live node → ¬ g'.live node →
    g'.SettledFrom (g'.representative node)

/-- A step that changes one node, and others only by merging them into it. -/
structure Touches (center : Node) (g g' : CollapsingGraph Node Index Task) : Prop where
  evolves : Evolves g g'
  keeps {node : Node} : g.known node → node = center ∨ Unchanged g g' node ∨
    (g'.representative node = g'.representative center ∧
      ∀ index, g'.holds node index → g'.holds (g'.representative center) index)
  collapsed {node : Node} : g.live node → ¬ g'.live node →
    g'.representative node = g'.representative center

variable {g g' g'' : CollapsingGraph Node Index Task} {node next center : Node}

/-! ## Settled nodes -/

theorem SettledFrom.self (settled : g.SettledFrom node) : g.Settled node :=
  settled node .refl

theorem SettledFrom.edge (settled : g.SettledFrom node) (edge : g.edge node next) :
    g.SettledFrom next :=
  fun reached path => settled reached (.head edge path)

theorem Settled.settledFrom (settled : g.Settled node)
    (further : ∀ next, g.edge node next → g.SettledFrom next) : g.SettledFrom node := by
  intro reached path
  rcases Relation.ReflTransGen.cases_head path with rfl | ⟨next, edge, rest⟩
  · exact settled
  · exact further next edge reached rest

theorem Acyclic.induction {motive : Node → Prop} (acyclic : g.Acyclic)
    (step : ∀ node, (∀ next, g.edge node next → motive next) → motive node) (node : Node) :
    motive node := by
  rcases acyclic with ⟨rank, falls⟩
  have bounded : ∀ bound node, rank node < bound → motive node := by
    intro bound
    induction bound with
    | zero => exact fun node below => absurd below (Nat.not_lt_zero _)
    | succ bound induction =>
        intro node below
        apply step
        intro next edge
        exact induction next (Nat.lt_of_lt_of_le (falls node next edge) (Nat.le_of_lt_succ below))
  exact bounded (rank node + 1) node (Nat.lt_succ_self _)

theorem Acyclic.rankedExcept (acyclic : g.Acyclic) :
    ∃ rank, g.RankedExcept (fun _ => False) rank := by
  rcases acyclic with ⟨rank, falls⟩
  exact ⟨rank, nofun, fun _ edge => falls _ _ edge⟩

/-- More nodes may be left out. -/
theorem RankedExcept.enlarge {exempt exempt' : Node → Prop} {rank : Node → Nat}
    (ranked : g.RankedExcept exempt rank) (more : ∀ node, exempt node → exempt' node) :
    ∃ rank', g.RankedExcept exempt' rank' := by
  classical
  refine ⟨fun node => if exempt' node then 0 else rank node + 1, ?_, ?_⟩
  · intro node isExempt
    exact if_pos isExempt
  · intro node next notExempt edge
    have falls := ranked.falls (fun isExempt => notExempt (more node isExempt)) edge
    rw [if_neg notExempt]
    split
    · exact Nat.succ_pos _
    · exact Nat.succ_lt_succ falls

theorem exists_bound (finite : {node | g.known node}.Finite) (rank : Node → Nat) :
    ∃ bound, ∀ node, g.known node → rank node < bound := by
  rcases (finite.image rank).bddAbove with ⟨bound, isBound⟩
  exact ⟨bound + 1, fun node known => Nat.lt_succ_of_le (isBound ⟨node, known, rfl⟩)⟩

/-- With only one node left out, and none of its successors leading back to it,
the graph has no cycle. -/
theorem RankedExcept.acyclic {rank : Node → Nat}
    (ranked : g.RankedExcept (fun node => node = center) rank) (wellFormed : g.WellFormed)
    (finite : {node | g.known node}.Finite)
    (noReturn : ∀ next, g.edge center next → ¬ Relation.ReflTransGen g.edge next center) :
    g.Acyclic := by
  classical
  rcases exists_bound finite rank with ⟨bound, below⟩
  refine ⟨fun node => if Relation.ReflTransGen g.edge node center then rank node + bound
    else rank node, fun node next edge => ?_⟩
  dsimp only
  have nextBelow := below next (wellFormed.known_of_edge edge)
  by_cases isCenter : node = center
  · rw [isCenter] at edge ⊢
    rw [if_neg (noReturn next edge), if_pos .refl]
    exact Nat.lt_add_left _ nextBelow
  · have falls := ranked.falls isCenter edge
    by_cases nextReaches : Relation.ReflTransGen g.edge next center
    · rw [if_pos nextReaches, if_pos (.head edge nextReaches)]
      exact Nat.add_lt_add_right falls bound
    · rw [if_neg nextReaches]
      split
      · exact Nat.lt_add_left _ nextBelow
      · exact falls

/-- One node that is left out is merged into another. It keeps its edges, and the
edges of live nodes to it go to the other. -/
theorem RankedExcept.merge {exempt : Node → Prop} {rank : Node → Nat} {into merged : Node}
    (ranked : g.RankedExcept exempt rank) (wellFormed : g.WellFormed)
    (finite : {node | g.known node}.Finite) (exemptLive : ∀ node, exempt node → g.live node)
    (intoExempt : exempt into) (mergedExempt : exempt merged) (different : into ≠ merged)
    (irreflexive : ¬ g.edge merged merged)
    (edges : ∀ node next, g'.edge node next → node = into ∨
      (g.edge node next ∧ (g.live node → node ≠ merged → next ≠ merged)) ∨
      (g.live node ∧ node ≠ merged ∧ g.edge node merged ∧ next = into)) :
    ∃ rank', g'.RankedExcept (fun node => exempt node ∧ node ≠ merged) rank' := by
  classical
  rcases exists_bound finite rank with ⟨bound, below⟩
  let rank' := fun node =>
    if node = merged then bound else if g.live node then rank node else rank node + bound + 1
  have ofMerged : rank' merged = bound := if_pos rfl
  have ofLive : ∀ node, g.live node → node ≠ merged → rank' node = rank node := by
    intro node live other
    simp only [rank', if_neg other, if_pos live]
  have ofDead : ∀ node, ¬ g.live node → node ≠ merged → rank' node = rank node + bound + 1 := by
    intro node dead other
    simp only [rank', if_neg other, if_neg dead]
  have mergedLive := exemptLive merged mergedExempt
  refine ⟨rank', ?_, ?_⟩
  · intro node isExempt
    rw [ofLive node (exemptLive node isExempt.1) isExempt.2]
    exact ranked.zero isExempt.1
  · intro node next notExempt edge
    have exemptIsMerged : exempt node → node = merged := by
      intro isExempt
      by_contra other
      exact notExempt ⟨isExempt, other⟩
    rcases edges node next edge with rfl | ⟨kept, notMerged⟩ | ⟨live, other, toMerged, rfl⟩
    · exact absurd (exemptIsMerged intoExempt) different
    · have nextBelow := below next (wellFormed.known_of_edge kept)
      by_cases isMerged : node = merged
      · subst isMerged
        have nextOther : next ≠ node := by
          rintro rfl
          exact irreflexive kept
        rw [ofMerged, ofLive next (wellFormed.live_of_edge mergedLive kept) nextOther]
        exact nextBelow
      · have falls := ranked.falls (fun isExempt => isMerged (exemptIsMerged isExempt)) kept
        by_cases live : g.live node
        · rw [ofLive node live isMerged,
            ofLive next (wellFormed.live_of_edge live kept) (notMerged live isMerged)]
          exact falls
        · rw [ofDead node live isMerged]
          by_cases nextMerged : next = merged
          · rw [nextMerged, ofMerged]
            omega
          · by_cases nextLive : g.live next
            · rw [ofLive next nextLive nextMerged]
              omega
            · rw [ofDead next nextLive nextMerged]
              omega
    · have falls := ranked.falls (fun isExempt => other (exemptIsMerged isExempt)) toMerged
      rw [ofLive node live other, ofLive next (exemptLive next intoExempt) different,
        ranked.zero intoExempt]
      exact Nat.lt_of_le_of_lt (Nat.zero_le _) falls

/-- When every live node is settled, each of them has delivered its elements. -/
theorem WellFormed.delivered (wellFormed : g.WellFormed)
    (settled : ∀ node, g.live node → g.Settled node) (live : g.live node) : g.Delivered node := by
  have reachedLive : ∀ reached, Relation.ReflTransGen g.edge node reached → g.live reached := by
    intro reached path
    induction path with
    | refl => exact live
    | tail _ edge induction => exact wellFormed.live_of_edge induction edge
  have represented := wellFormed.representative_of_live live
  constructor
  · intro index held
    rw [represented]
    exact held
  · rw [represented]
    exact fun reached path => settled reached (reachedLive reached path)

theorem WellFormed.settled (wellFormed : g.WellFormed) (live : g.live node)
    (delivered : g.Delivered node) : g.Settled node := by
  have reachedSettled := delivered.settled
  rw [wellFormed.representative_of_live live] at reachedSettled
  exact reachedSettled.self

/-! ## Steps compose -/

theorem Evolves.refl (wellFormed : g.WellFormed) : Evolves g g where
  known := .rfl
  live live := live
  representative known :=
    wellFormed.representative_of_live (wellFormed.live_representative known)
  frozen _ := .rfl
  grows held := held
  flows live held := by
    rw [wellFormed.representative_of_live live]
    exact held
  linked live edge := by
    rw [wellFormed.representative_of_live live,
      wellFormed.representative_of_live (wellFormed.live_of_edge live edge)]
    exact .inr edge

/-- Representatives compose. -/
theorem Evolves.representative_trans (left : Evolves g g') (right : Evolves g' g'')
    (wellFormed : g.WellFormed) (known : g.known node) :
    g''.representative (g.representative node) = g''.representative node := by
  have knownRepresentative : g.known (g.representative node) :=
    wellFormed.known_of_live (wellFormed.live_representative known)
  rw [← right.representative (left.known.mpr knownRepresentative), left.representative known]
  exact right.representative (left.known.mpr known)

theorem Evolves.trans (left : Evolves g g') (right : Evolves g' g'')
    (wellFormed : g.WellFormed) (wellFormed' : g'.WellFormed) : Evolves g g'' where
  known := right.known.trans left.known
  live live := left.live (right.live live)
  representative known := left.representative_trans right wellFormed known
  frozen dead := (right.frozen fun live => dead (left.live live)).trans (left.frozen dead)
  grows held := right.grows (left.grows held)
  flows live held := by
    have known := left.known.mpr (wellFormed.known_of_live live)
    rw [← right.representative known]
    exact right.flows (wellFormed'.live_representative known) (left.flows live held)
  linked live edge := by
    have known := left.known.mpr (wellFormed.known_of_live live)
    have nextKnown := left.known.mpr
      (wellFormed.known_of_live (wellFormed.live_of_edge live edge))
    rw [← right.representative known, ← right.representative nextKnown]
    rcases left.linked live edge with same | linked
    · rw [same]
      exact .inl rfl
    · exact right.linked (wellFormed'.live_representative known) linked

theorem Unchanged.refl (wellFormed : g.WellFormed) : Unchanged g g node where
  holds held := held
  waits _ waiting := waiting
  edge live edge :=
    ⟨_, edge, wellFormed.representative_of_live (wellFormed.live_of_edge live edge)⟩

theorem Unchanged.trans (left : Unchanged g g' node) (right : Unchanged g' g'' node)
    (before : Evolves g g') (after : Evolves g' g'') (wellFormed : g.WellFormed) :
    Unchanged g g'' node where
  holds held := left.holds (right.holds held)
  waits live waiting := left.waits (after.live live) (right.waits live waiting)
  edge live edge := by
    rcases right.edge live edge with ⟨middle, middleEdge, rfl⟩
    rcases left.edge (after.live live) middleEdge with ⟨earlier, earlierEdge, rfl⟩
    refine ⟨earlier, earlierEdge, (after.representative ?_).symm⟩
    exact before.known.mpr (wellFormed.known_of_edge earlierEdge)

/-- An unchanged node is settled once what it leads to is. -/
theorem Unchanged.settledFrom (unchanged : Unchanged g g' node) (evolves : Evolves g g')
    (wellFormed : g.WellFormed) (live : g.live node) (stillLive : g'.live node)
    (settled : g.Settled node)
    (further : ∀ next, g.edge node next → g'.SettledFrom (g'.representative next)) :
    g'.SettledFrom node := by
  apply Settled.settledFrom
  · constructor
    · intro next edge index held
      rcases unchanged.edge stillLive edge with ⟨earlier, earlierEdge, rfl⟩
      have earlierHeld := settled.passed earlierEdge index (unchanged.holds held)
      exact evolves.flows (wellFormed.live_of_edge live earlierEdge) earlierHeld
    · intro index held task waiting
      exact settled.idle (unchanged.holds held) task (unchanged.waits stillLive waiting)
  · intro next edge
    rcases unchanged.edge stillLive edge with ⟨earlier, earlierEdge, rfl⟩
    exact further earlier earlierEdge

/-- What is settled stays settled, in the place of a merged node its
representative. -/
theorem Advances.settledFrom (advances : Advances g g') (wellFormed : g.WellFormed)
    (wellFormed' : g'.WellFormed) (acyclic : g.Acyclic) (live : g.live node)
    (settled : g.SettledFrom node) : g'.SettledFrom (g'.representative node) := by
  induction node using acyclic.induction with
  | step node induction =>
      by_cases stillLive : g'.live node
      · rcases advances.keeps (wellFormed.known_of_live live) with delivered | unchanged
        · exact delivered.settled
        · rw [wellFormed'.representative_of_live stillLive]
          apply unchanged.settledFrom advances.evolves wellFormed live stillLive settled.self
          intro next edge
          exact induction next edge (wellFormed.live_of_edge live edge) (settled.edge edge)
      · exact advances.collapsed live stillLive

/-- Delivery is never undone. -/
theorem Advances.delivered (advances : Advances g g') (wellFormed : g.WellFormed)
    (wellFormed' : g'.WellFormed) (acyclic : g.Acyclic) (known : g.known node)
    (delivered : g.Delivered node) : g'.Delivered node := by
  rcases advances.keeps known with done | unchanged
  · exact done
  · have representedLive := wellFormed.live_representative known
    constructor
    · intro index held
      rw [← advances.evolves.representative known]
      exact advances.evolves.flows representedLive (delivered.handedOver (unchanged.holds held))
    · rw [← advances.evolves.representative known]
      exact advances.settledFrom wellFormed wellFormed' acyclic representedLive
        delivered.settled

theorem Advances.refl (wellFormed : g.WellFormed) : Advances g g where
  evolves := .refl wellFormed
  keeps _ := .inr (.refl wellFormed)
  collapsed live dead := absurd live dead

theorem Advances.trans (left : Advances g g') (right : Advances g' g'')
    (wellFormed : g.WellFormed) (wellFormed' : g'.WellFormed) (wellFormed'' : g''.WellFormed)
    (acyclic' : g'.Acyclic) : Advances g g'' where
  evolves := left.evolves.trans right.evolves wellFormed wellFormed'
  keeps known := by
    have known' := left.evolves.known.mpr known
    rcases right.keeps known' with done | unchangedRight
    · exact .inl done
    · rcases left.keeps known with done | unchangedLeft
      · exact .inl (right.delivered wellFormed' wellFormed'' acyclic' known' done)
      · exact .inr (unchangedLeft.trans unchangedRight left.evolves right.evolves wellFormed)
  collapsed {node} live dead := by
    have known' := left.evolves.known.mpr (wellFormed.known_of_live live)
    by_cases live' : g'.live node
    · exact right.collapsed live' dead
    · have representedLive := wellFormed'.live_representative known'
      have settled := right.settledFrom wellFormed' wellFormed'' acyclic' representedLive
        (left.collapsed live live')
      rw [right.evolves.representative known'] at settled
      exact settled

/-- When all nodes but one are settled, a step that delivers that one settles all. -/
theorem Advances.settles (advances : Advances g g') (wellFormed : g.WellFormed)
    (wellFormed' : g'.WellFormed) (acyclic : g.Acyclic)
    (settled : ∀ other, g.live other → other ≠ node → g.Settled other)
    (delivered : g'.Delivered node) : ∀ other, g'.live other → g'.Settled other := by
  have all : ∀ other, g.live other → g'.SettledFrom (g'.representative other) := by
    intro other
    induction other using acyclic.induction with
    | step other induction =>
        intro live
        by_cases same : other = node
        · rw [same]
          exact delivered.settled
        · by_cases stillLive : g'.live other
          · rcases advances.keeps (wellFormed.known_of_live live) with done | unchanged
            · exact done.settled
            · rw [wellFormed'.representative_of_live stillLive]
              apply unchanged.settledFrom advances.evolves wellFormed live stillLive
                (settled other live same)
              intro next edge
              exact induction next edge (wellFormed.live_of_edge live edge)
          · exact advances.collapsed live stillLive
  intro other live
  have reachedSettled := all other (advances.evolves.live live)
  rw [wellFormed'.representative_of_live live] at reachedSettled
  exact reachedSettled.self

/-! ## Changes to one node -/

theorem Touches.refl (wellFormed : g.WellFormed) : Touches center g g where
  evolves := .refl wellFormed
  keeps _ := .inr (.inl (.refl wellFormed))
  collapsed live dead := absurd live dead

/-- Merges compose. The first center may itself be merged into the second. -/
theorem Touches.trans {center' : Node} (left : Touches center g g')
    (right : Touches center' g' g'') (wellFormed : g.WellFormed) (wellFormed' : g'.WellFormed)
    (live : g'.live center)
    (moved : g''.representative center = g''.representative center') :
    Touches center' g g'' where
  evolves := left.evolves.trans right.evolves wellFormed wellFormed'
  keeps {node} known := by
    have known' := left.evolves.known.mpr known
    have centerRepresented := wellFormed'.representative_of_live live
    have flowsOn : ∀ index, g'.holds center index →
        g''.holds (g''.representative center') index := by
      intro index held
      rw [← moved]
      exact right.evolves.flows live held
    rcases left.keeps known with isCenter | unchangedLeft | ⟨merged, handed⟩
    · rcases right.keeps known' with isCenter' | unchangedRight | mergedRight
      · exact .inl isCenter'
      · refine .inr (.inr ⟨?_, fun index held => ?_⟩)
        · rw [isCenter]
          exact moved
        · apply flowsOn
          rw [← isCenter]
          exact unchangedRight.holds held
      · exact .inr (.inr mergedRight)
    · rcases right.keeps known' with isCenter' | unchangedRight | mergedRight
      · exact .inl isCenter'
      · exact .inr (.inl
          (unchangedLeft.trans unchangedRight left.evolves right.evolves wellFormed))
      · exact .inr (.inr mergedRight)
    · rw [centerRepresented] at merged handed
      rcases right.keeps known' with isCenter' | unchangedRight | mergedRight
      · exact .inl isCenter'
      · refine .inr (.inr ⟨?_, fun index held => ?_⟩)
        · rw [← right.evolves.representative known', merged]
          exact moved
        · exact flowsOn index (handed index (unchangedRight.holds held))
      · exact .inr (.inr mergedRight)
  collapsed {node} wasLive dead := by
    have known' := left.evolves.known.mpr (wellFormed.known_of_live wasLive)
    by_cases live' : g'.live node
    · exact right.collapsed live' dead
    · rw [← right.evolves.representative known', left.collapsed wasLive live',
        wellFormed'.representative_of_live live]
      exact moved

/-- A change to one node followed by a step that delivers it is a step. -/
theorem Touches.advances (touches : Touches center g g') (advances : Advances g' g'')
    (delivered : g''.Delivered center) (wellFormed : g.WellFormed) (wellFormed' : g'.WellFormed)
    (known : g.known center) : Advances g g'' where
  evolves := touches.evolves.trans advances.evolves wellFormed wellFormed'
  keeps {node} knownNode := by
    have known' := touches.evolves.known.mpr known
    have knownNode' := touches.evolves.known.mpr knownNode
    rcases advances.keeps knownNode' with done | unchangedRight
    · exact .inl done
    · rcases touches.keeps knownNode with isCenter | unchangedLeft | ⟨merged, handed⟩
      · rw [isCenter]
        exact .inl delivered
      · exact .inr
          (unchangedLeft.trans unchangedRight touches.evolves advances.evolves wellFormed)
      · have sameEnd : g''.representative node = g''.representative center := by
          rw [← advances.evolves.representative knownNode', merged]
          exact advances.evolves.representative known'
        refine .inl ⟨fun {index} held => ?_, ?_⟩
        · rw [sameEnd, ← advances.evolves.representative known']
          exact advances.evolves.flows (wellFormed'.live_representative known')
            (handed index (unchangedRight.holds held))
        · rw [sameEnd]
          exact delivered.settled
  collapsed {node} live dead := by
    have known' := touches.evolves.known.mpr known
    have knownNode' := touches.evolves.known.mpr (wellFormed.known_of_live live)
    by_cases live' : g'.live node
    · exact advances.collapsed live' dead
    · rw [← advances.evolves.representative knownNode', touches.collapsed live live',
        advances.evolves.representative known']
      exact delivered.settled

/-! ## Delivering the elements of a node

First the tasks that wait for its elements are taken from it. Then its elements
go to each node it led to at that time. -/

/-- The tasks for some elements of a node are gone, or the node has delivered. -/
def Cleared (g : CollapsingGraph Node Index Task) (node : Node) (done : Index → Prop) : Prop :=
  g.Delivered node ∨ (g.live node → ∀ index, done index → g.holds node index →
    ∀ task, ¬ g.waits node index task)

theorem Cleared.advance {done : Index → Prop} (cleared : g.Cleared node done)
    (advances : Advances g g') (wellFormed : g.WellFormed) (wellFormed' : g'.WellFormed)
    (acyclic : g.Acyclic) (known : g.known node) : g'.Cleared node done := by
  rcases cleared with delivered | cleared
  · exact .inl (advances.delivered wellFormed wellFormed' acyclic known delivered)
  · rcases advances.keeps known with delivered | unchanged
    · exact .inl delivered
    · refine .inr fun live index isDone held task waiting => ?_
      exact cleared (advances.evolves.live live) index isDone (unchanged.holds held) task
        (unchanged.waits live waiting)

/-- A node in the course of passing its elements on: to the targets, of which some
are done. -/
structure PassingOn (g : CollapsingGraph Node Index Task) (targets done : Node → Prop)
    (node : Node) : Prop where
  idle {index : Index} {task : Task} : g.live node → g.holds node index →
    ¬ g.waits node index task
  leads {next : Node} : g.live node → g.edge node next →
    ∃ target, targets target ∧ g.representative target = next
  led {next : Node} : ¬ g.live node → g.edge node next → targets next
  passed {target : Node} {index : Index} : done target → g.holds node index →
    g.holds (g.representative target) index
  settled {target : Node} : done target → g.SettledFrom (g.representative target)

theorem PassingOn.advance {targets done : Node → Prop} (passing : g.PassingOn targets done node)
    (advances : Advances g g') (wellFormed : g.WellFormed) (wellFormed' : g'.WellFormed)
    (acyclic : g.Acyclic) (known : g.known node) (targetsKnown : ∀ target, targets target →
      g.known target) (doneTargets : ∀ target, done target → targets target) :
    g'.Delivered node ∨ g'.PassingOn targets done node := by
  rcases advances.keeps known with delivered | unchanged
  · exact .inl delivered
  · by_cases died : g.live node ∧ ¬ g'.live node
    · refine .inl ⟨fun held => ?_, advances.collapsed died.1 died.2⟩
      exact advances.evolves.flows died.1 (unchanged.holds held)
    · refine .inr ⟨fun live held waiting => ?_, fun live edge => ?_, fun dead edge => ?_,
        fun {target _} isDone held => ?_, fun {target} isDone => ?_⟩
      · exact passing.idle (advances.evolves.live live) (unchanged.holds held)
          (unchanged.waits live waiting)
      · rcases unchanged.edge live edge with ⟨earlier, earlierEdge, rfl⟩
        rcases passing.leads (advances.evolves.live live) earlierEdge with ⟨target, isTarget, rfl⟩
        refine ⟨target, isTarget, ?_⟩
        exact (advances.evolves.representative (targetsKnown target isTarget)).symm
      · have wasDead : ¬ g.live node := fun live => died ⟨live, dead⟩
        exact passing.led wasDead ((advances.evolves.frozen wasDead).mp edge)
      · have targetKnown := targetsKnown target (doneTargets target isDone)
        rw [← advances.evolves.representative targetKnown]
        exact advances.evolves.flows (wellFormed.live_representative targetKnown)
          (passing.passed isDone (unchanged.holds held))
      · have targetKnown := targetsKnown target (doneTargets target isDone)
        rw [← advances.evolves.representative targetKnown]
        exact advances.settledFrom wellFormed wellFormed' acyclic
          (wellFormed.live_representative targetKnown) (passing.settled isDone)

/-- Once all targets are done the node has delivered its elements. A merged node
reaches its representative through one of them. -/
theorem PassingOn.delivered {targets : Node → Prop} (passing : g.PassingOn targets targets node)
    (wellFormed : g.WellFormed) (merged : ¬ g.live node →
      ∃ next, g.edge node next ∧ g.representative next = g.representative node) :
    g.Delivered node := by
  by_cases live : g.live node
  · have represented := wellFormed.representative_of_live live
    constructor
    · intro index held
      rw [represented]
      exact held
    · rw [represented]
      apply Settled.settledFrom
      · constructor
        · intro next edge index held
          rcases passing.leads live edge with ⟨target, isTarget, rfl⟩
          exact passing.passed isTarget held
        · exact fun held task => passing.idle live held
      · intro next edge
        rcases passing.leads live edge with ⟨target, isTarget, rfl⟩
        exact passing.settled isTarget
  · rcases merged live with ⟨next, edge, same⟩
    have isTarget := passing.led live edge
    constructor
    · intro index held
      rw [← same]
      exact passing.passed isTarget held
    · rw [← same]
      exact passing.settled isTarget

end CollapsingGraph
