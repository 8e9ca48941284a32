import Mathlib.Data.Finset.Card
import Mathlib.Data.List.Chain
import Topc.Foundation.Fuel
import Topc.Solver.CubicSolver.Collapse

/-! # Removing the cycles through a node

Merging the nodes of a path back to its start collapses a cycle. The nodes left
become fewer each time, so that in the end no cycle goes through the node. -/

namespace Topc

namespace CubicSolver

variable {V E : Type}

/-- The number of nodes that stand for variables. -/
def liveCount (s : CubicSolver V E) : Nat :=
  (s.dagmapping.map Prod.snd).toFinset.card

/-! ## Merging a path -/

/-- What merging nodes into one does. -/
structure PathMerged (center : Nat) (rest : List Nat) (s s' : CubicSolver V E) : Prop where
  wellFormed : s'.WellFormed
  sameVariables : SameVariables s s'
  live : ∀ address, s'.Live address ↔ s.Live address ∧ address ∉ rest
  touches : s.graph.Touches center s'.graph
  represents : ∀ address ∈ rest, s'.representative address = center
  linked : ∀ address ∈ rest, ∃ next ∈ (s'.node address).supsets,
    s'.representative next = center
  waits : ∀ address, s.Live address → ∀ index, ∀ pair ∈ s.waiting address index,
    pair ∈ s'.waiting (s'.representative address) index
  ranked : ∃ rank, s'.graph.RankedExcept (· = center) rank
  count : s'.liveCount + rest.length ≤ s.liveCount

theorem WellFormed.mergeNodes_liveCount {s : CubicSolver V E} {n1 n2 : Nat}
    (wellFormed : s.WellFormed) (intoLive : s.Live n1) (mergedLive : s.Live n2)
    (different : n1 ≠ n2) : (s.mergeNodes n1 n2).liveCount < s.liveCount := by
  apply Finset.card_lt_card
  rw [Finset.ssubset_iff_of_subset]
  · refine ⟨n2, List.mem_toFinset.mpr mergedLive, fun member => ?_⟩
    have live : (s.mergeNodes n1 n2).Live n2 := List.mem_toFinset.mp member
    rw [wellFormed.mergeNodes_live mergedLive] at live
    rcases live with same | ⟨_, other⟩
    · exact different same.symm
    · exact other rfl
  · intro address member
    have live : (s.mergeNodes n1 n2).Live address := List.mem_toFinset.mp member
    rw [wellFormed.mergeNodes_live mergedLive] at live
    rw [List.mem_toFinset]
    rcases live with rfl | ⟨live, _⟩
    · exact intoLive
    · exact live

/-- A path that does not visit the merged node is still a path. -/
theorem WellFormed.mergeNodes_path {s : CubicSolver V E} {n1 n2 : Nat} (wellFormed : s.WellFormed)
    (mergedLive : s.Live n2) {rest : List Nat} (mergedNotMem : n2 ∉ rest ++ [n1])
    (path : (rest ++ [n1]).IsChain fun address next => next ∈ (s.node address).supsets) :
    (rest ++ [n1]).IsChain fun address next =>
      next ∈ ((s.mergeNodes n1 n2).node address).supsets := by
  refine path.imp_of_mem_imp fun address next _ nextMem edge => ?_
  have notMerged : next ≠ n2 := fun same => mergedNotMem (same ▸ nextMem)
  rw [wellFormed.mem_mergeNodes_supsets mergedLive]
  split
  · rename_i isInto
    subst isInto
    refine ⟨?_, notMerged, .inl edge⟩
    rintro rfl
    exact wellFormed.irreflexive next edge
  · split
    · exact .inr ⟨notMerged, edge⟩
    · exact edge

theorem exists_next {relation : Nat → Nat → Prop} {first last : Nat} {rest : List Nat}
    (path : (first :: rest ++ [last]).IsChain relation) :
    ∃ next ∈ rest ++ [last], relation first next := by
  cases rest with
  | nil =>
      rw [List.cons_append, List.nil_append, List.isChain_cons_cons] at path
      exact ⟨last, List.mem_singleton_self last, path.1⟩
  | cons second rest =>
      rw [List.cons_append, List.cons_append, List.isChain_cons_cons] at path
      exact ⟨second, List.mem_cons_self, path.1⟩

/-- Merge the first node of a path, then the others. -/
theorem PathMerged.cons {s s' : CubicSolver V E} {center first : Nat} {rest : List Nat}
    (merged : PathMerged center rest (s.mergeNodes center first) s') (wellFormed : s.WellFormed)
    (live : s.Live center) (firstLive : s.Live first) (notMem : center ∉ first :: rest)
    (path : (first :: rest ++ [center]).IsChain fun address next =>
      next ∈ (s.node address).supsets) : PathMerged center (first :: rest) s s' := by
  have different : center ≠ first := fun same => notMem (same ▸ List.mem_cons_self)
  have centerNotMem : center ∉ rest := fun member => notMem (List.mem_cons_of_mem _ member)
  have wellFormed' := wellFormed.mergeNodes_wellFormed live firstLive different
  have live' : ∀ address, (s.mergeNodes center first).Live address ↔
      address = center ∨ (s.Live address ∧ address ≠ first) :=
    fun address => wellFormed.mergeNodes_live firstLive
  have touches := wellFormed.mergeNodes_touches live firstLive different
  have evolves := merged.touches.evolves
  have centerLive := (live' center).mpr (.inl rfl)
  have centerLast := (merged.live center).mpr ⟨centerLive, centerNotMem⟩
  have centerRepresented := merged.wellFormed.representative_of_live center centerLast
  have firstDead : ¬ (s.mergeNodes center first).Live first := by
    rw [live' first]
    rintro (same | ⟨_, other⟩)
    · exact different same.symm
    · exact other rfl
  have firstRepresents : s'.representative first = center := by
    have known := touches.evolves.known.mpr (wellFormed.live_known first firstLive)
    rw [← representative_evolves evolves known,
      wellFormed.mergeNodes_represents firstLive firstLive, if_pos rfl]
    exact centerRepresented
  exact {
    wellFormed := merged.wellFormed
    sameVariables := wellFormed.mergeNodes_sameVariables.trans merged.sameVariables
    live := by
      intro address
      rw [merged.live, live', List.mem_cons, not_or]
      constructor
      · rintro ⟨rfl | ⟨live, other⟩, notLater⟩
        · exact ⟨live, different, notLater⟩
        · exact ⟨live, other, notLater⟩
      · rintro ⟨live, other, notLater⟩
        exact ⟨.inr ⟨live, other⟩, notLater⟩
    touches := touches.trans merged.touches wellFormed.graph wellFormed'.graph centerLive rfl
    represents := by
      intro address member
      rcases List.mem_cons.mp member with rfl | member
      · exact firstRepresents
      · exact merged.represents address member
    linked := by
      intro address member
      rcases List.mem_cons.mp member with rfl | member
      · rcases exists_next path with ⟨next, nextMem, edge⟩
        refine ⟨next, (evolves.frozen firstDead).mpr ?_, ?_⟩
        · change next ∈ ((s.mergeNodes center address).node address).supsets
          rw [wellFormed.mem_mergeNodes_supsets firstLive, if_neg different.symm,
            if_neg fun redirected => wellFormed.irreflexive address redirected.2]
          exact edge
        · rcases List.mem_append.mp nextMem with member | member
          · exact merged.represents next member
          · rw [List.mem_singleton.mp member]
            exact centerRepresented
      · exact merged.linked address member
    waits := by
      intro address addressLive index pair member
      have known := touches.evolves.known.mpr (wellFormed.live_known address addressLive)
      rw [← representative_evolves evolves known]
      apply merged.waits _ (wellFormed'.graph.live_representative known)
      change pair ∈ (s.mergeNodes center first).waiting
        ((s.mergeNodes center first).representative address) index
      rw [wellFormed.mergeNodes_represents firstLive addressLive, wellFormed.mergeNodes_waiting]
      split
      · rename_i merged
        rw [if_pos rfl, ← merged]
        exact List.mem_append_right _ member
      · split
        · rename_i isInto
          exact List.mem_append_left _ (isInto ▸ member)
        · exact member
    ranked := merged.ranked
    count := by
      have fewer := wellFormed.mergeNodes_liveCount live firstLive different
      have counted := merged.count
      rw [List.length_cons]
      omega }

theorem WellFormed.pathMerged {center : Nat} (rest : List Nat) : ∀ {s : CubicSolver V E},
    s.WellFormed → s.Live center → (∀ address ∈ rest, s.Live address) → center ∉ rest →
    rest.Nodup →
    ((rest ++ [center]).IsChain fun address next => next ∈ (s.node address).supsets) →
    (∃ rank, s.graph.RankedExcept (fun address => address = center ∨ address ∈ rest) rank) →
    PathMerged center rest s (rest.foldl (fun s b => s.mergeNodes center b) s) := by
  induction rest with
  | nil =>
      intro s wellFormed live _ _ _ _ ranked
      refine {
        wellFormed := wellFormed
        sameVariables := .refl s
        live := fun address => by simp
        touches := .refl wellFormed.graph
        represents := nofun
        linked := nofun
        waits := fun address live index pair member => by
          change pair ∈ s.waiting (s.representative address) index
          rw [wellFormed.representative_of_live address live]
          exact member
        ranked := ?_
        count := Nat.le_refl _ }
      simpa using ranked
  | cons first rest induction =>
      intro s wellFormed live restLive notMem nodup path ranked
      have firstLive := restLive first List.mem_cons_self
      have parts := List.nodup_cons.mp nodup
      have different : center ≠ first := fun same => notMem (same ▸ List.mem_cons_self)
      have live' : ∀ address, (s.mergeNodes center first).Live address ↔
          address = center ∨ (s.Live address ∧ address ≠ first) :=
        fun address => wellFormed.mergeNodes_live firstLive
      refine PathMerged.cons ?_ wellFormed live firstLive notMem path
      apply induction (wellFormed.mergeNodes_wellFormed live firstLive different)
      · exact (live' center).mpr (.inl rfl)
      · intro address member
        refine (live' address).mpr (.inr ⟨restLive address (List.mem_cons_of_mem _ member), ?_⟩)
        rintro rfl
        exact parts.1 member
      · exact fun member => notMem (List.mem_cons_of_mem _ member)
      · exact parts.2
      · apply wellFormed.mergeNodes_path firstLive
        · simp [parts.1, different.symm]
        · exact path.tail
      · rcases ranked with ⟨rank, ranked⟩
        rcases wellFormed.mergeNodes_ranked firstLive different ranked (by simp_all) (.inl rfl)
          (.inr List.mem_cons_self) with ⟨rank', ranked'⟩
        apply ranked'.enlarge
        simp_all

/-! ## Paths -/

/-- A path of supersets, from its target back to its source. -/
structure LinkedPath (s : CubicSolver V E) (source target : Nat) (path : List Nat) : Prop where
  head : path.head? = some target
  last : path.getLast? = some source
  nodup : path.Nodup
  linked : path.IsChain fun next address => next ∈ (s.node address).supsets

/-- A search that returns some path exactly when there is one. It need not find any
in a graph that leads out of the allocated nodes. -/
def FindsPaths (findPath : CubicSolver V E → Nat → Nat → List Nat) : Prop :=
  ∀ s source target, LinkedPath s source target (findPath s source target) ∨
    (findPath s source target = [] ∧
      ((∀ address, ∀ next ∈ (s.node address).supsets, next < s.allocated) →
        ∀ path, ¬ LinkedPath s source target path))

theorem exists_linkedPath {s : CubicSolver V E} {source target : Nat}
    (reaches : Relation.ReflTransGen s.graph.edge source target) :
    ∃ path, LinkedPath s source target path := by
  induction reaches using Relation.ReflTransGen.head_induction_on with
  | refl => exact ⟨[target], rfl, rfl, List.nodup_singleton target, .singleton target⟩
  | @head source middle edge _ induction =>
      rcases induction with ⟨path, found⟩
      by_cases member : source ∈ path
      · rcases List.append_of_mem member with ⟨front, back, rfl⟩
        have isPrefix : front ++ [source] <+: front ++ source :: back :=
          ⟨back, by simp⟩
        refine ⟨front ++ [source], ?_, by simp, found.nodup.sublist isPrefix.sublist,
          found.linked.prefix isPrefix⟩
        rw [← found.head]
        cases front <;> rfl
      · refine ⟨path ++ [source], ?_, by simp, ?_, ?_⟩
        · rw [List.head?_append, found.head]
          rfl
        · rw [List.nodup_append]
          refine ⟨found.nodup, List.nodup_singleton source, fun address inPath other isSource => ?_⟩
          rintro rfl
          exact member (List.mem_singleton.mp isSource ▸ inPath)
        · rw [List.isChain_append]
          refine ⟨found.linked, .singleton source, ?_⟩
          intro address isLast other isFirst
          rw [found.last] at isLast
          cases isLast
          cases isFirst
          exact edge

/-! ## Killing cycles -/

theorem findCycle_cases {findPath : CubicSolver V E → Nat → Nat → List Nat}
    (finds : FindsPaths findPath) (s : CubicSolver V E) (n : Nat) (supsets : List Nat) :
    (∃ t ∈ supsets, LinkedPath s t n (s.findCycle findPath n supsets)) ∨
      (s.findCycle findPath n supsets = [] ∧
        ((∀ address, ∀ next ∈ (s.node address).supsets, next < s.allocated) →
          ∀ t ∈ supsets, ¬ Relation.ReflTransGen s.graph.edge t n)) := by
  induction supsets with
  | nil => exact .inr ⟨rfl, nofun⟩
  | cons t supsets induction =>
      rw [findCycle]
      rcases finds s t n with found | ⟨empty, noPath⟩
      · have notEmpty : (findPath s t n).isEmpty = false := by
          cases path : findPath s t n with
          | nil =>
              rw [path] at found
              cases found.head
          | cons _ _ => rfl
        rw [if_neg (by rw [notEmpty]; exact Bool.false_ne_true)]
        exact .inl ⟨t, List.mem_cons_self, found⟩
      · rw [empty, List.isEmpty_nil, if_pos rfl]
        rcases induction with ⟨other, otherMem, found⟩ | ⟨noCycle, unreached⟩
        · exact .inl ⟨other, List.mem_cons_of_mem _ otherMem, found⟩
        · refine .inr ⟨noCycle, fun bounded other member => ?_⟩
          rcases List.mem_cons.mp member with rfl | member
          · intro reaches
            rcases exists_linkedPath reaches with ⟨path, found⟩
            exact noPath bounded path found
          · exact unreached bounded other member

/-- All nodes of a path from a live node are live. -/
theorem WellFormed.path_live {s : CubicSolver V E} (wellFormed : s.WellFormed) {first : Nat}
    {rest : List Nat} (live : s.Live first)
    (path : (first :: rest).IsChain fun address next => next ∈ (s.node address).supsets) :
    ∀ address ∈ first :: rest, s.Live address := by
  induction rest generalizing first with
  | nil =>
      intro address member
      rw [List.mem_singleton.mp member]
      exact live
  | cons second rest induction =>
      rw [List.isChain_cons_cons] at path
      intro address member
      rcases List.mem_cons.mp member with rfl | member
      · exact live
      · exact induction (wellFormed.live_of_edge first live second path.1) path.2 address member

/-- A path from a superset of a node back to it, from its start. -/
theorem LinkedPath.cycle {s : CubicSolver V E} {n t : Nat} {path : List Nat}
    (found : LinkedPath s t n path) (wellFormed : s.WellFormed) (live : s.Live n)
    (edge : t ∈ (s.node n).supsets) :
    ∃ rest, path.reverse = t :: rest ∧ n ∈ rest ∧ t ∉ rest ∧ rest.Nodup ∧
      (∀ address ∈ rest, s.Live address) ∧
      (rest ++ [t]).IsChain fun address next => next ∈ (s.node address).supsets := by
  have starts : path.reverse.head? = some t := by
    rw [List.head?_reverse]
    exact found.last
  have ends : path.reverse.getLast? = some n := by
    rw [List.getLast?_reverse]
    exact found.head
  have nodup : path.reverse.Nodup := List.nodup_reverse.mpr found.nodup
  have linked : path.reverse.IsChain fun address next => next ∈ (s.node address).supsets :=
    List.isChain_reverse.mpr found.linked
  cases reversed : path.reverse with
  | nil =>
      rw [reversed] at starts
      cases starts
  | cons first rest =>
      rw [reversed] at starts ends nodup linked
      cases starts
      have tOther : n ≠ t := by
        rintro rfl
        exact wellFormed.irreflexive n edge
      have restLast : rest.getLast? = some n := by
        cases rest with
        | nil =>
            cases ends
            exact absurd rfl tOther
        | cons second rest => exact ends
      have parts := List.nodup_cons.mp nodup
      have tLive := wellFormed.live_of_edge n live t edge
      refine ⟨rest, rfl, List.mem_of_getLast? restLast, parts.1, parts.2, ?_, ?_⟩
      · exact fun address member =>
          wellFormed.path_live tLive linked address (List.mem_cons_of_mem _ member)
      · rw [List.isChain_append]
        refine ⟨linked.tail, .singleton t, ?_⟩
        intro address isLast other isFirst
        rw [restLast] at isLast
        cases isLast
        cases isFirst
        exact edge

/-- What removing the cycles through a node does. The center is the node that
stands for it in the end. -/
structure CyclesRemoved (n center : Nat) (s s' : CubicSolver V E) : Prop where
  consistent : s'.Consistent
  sameVariables : SameVariables s s'
  live : s'.Live center
  represents : s'.representative n = center
  touches : s.graph.Touches center s'.graph
  waits : ∀ address, s.Live address → ∀ index, ∀ pair ∈ s.waiting address index,
    pair ∈ s'.waiting (s'.representative address) index
  fewer : s' = s ∨ s'.liveCount < s.liveCount

/-- The merged nodes each lead to one merged along with it. -/
theorem PathMerged.edge_of_merged {s s' : CubicSolver V E} {center : Nat} {rest : List Nat}
    (merged : PathMerged center rest s s') (wellFormed : s.WellFormed)
    (edgeOfMerged : ∀ address < s.allocated, ¬ s.Live address →
      ∃ next ∈ (s.node address).supsets, s.representative next = s.representative address)
    (address : Nat) (known : address < s'.allocated) (dead : ¬ s'.Live address) :
    ∃ next ∈ (s'.node address).supsets, s'.representative next = s'.representative address := by
  have evolves := merged.touches.evolves
  by_cases live : s.Live address
  · have member : address ∈ rest := by
      by_contra notMem
      exact dead ((merged.live address).mpr ⟨live, notMem⟩)
    rcases merged.linked address member with ⟨next, edge, represents⟩
    exact ⟨next, edge, represents.trans (merged.represents address member).symm⟩
  · rw [merged.sameVariables.allocated] at known
    rcases edgeOfMerged address known live with ⟨next, edge, same⟩
    refine ⟨next, (evolves.frozen live).mpr edge, ?_⟩
    rw [← representative_evolves evolves (wellFormed.edge_known address next edge).2,
      ← representative_evolves evolves known, same]

theorem CyclesRemoved.after_path {s mid s' : CubicSolver V E} {n t center : Nat} {rest : List Nat}
    (removed : CyclesRemoved t center mid s') (merged : PathMerged t rest s mid)
    (wellFormed : s.WellFormed) (live : s.Live n) (tLive : s.Live t) (member : n ∈ rest)
    (notMem : t ∉ rest) : CyclesRemoved n center s s' where
  consistent := removed.consistent
  sameVariables := merged.sameVariables.trans removed.sameVariables
  live := removed.live
  represents := by
    have known : n < mid.allocated := by
      rw [merged.sameVariables.allocated]
      exact wellFormed.live_known n live
    rw [← representative_evolves removed.touches.evolves known, merged.represents n member]
    exact removed.represents
  touches := by
    have centerRepresented : s'.representative center = center :=
      removed.consistent.representative_of_live center removed.live
    exact merged.touches.trans removed.touches wellFormed.graph merged.wellFormed.graph
      ((merged.live t).mpr ⟨tLive, notMem⟩) (removed.represents.trans centerRepresented.symm)
  waits := by
    intro address addressLive index pair member
    have known := merged.touches.evolves.known.mpr (wellFormed.live_known address addressLive)
    rw [← representative_evolves removed.touches.evolves known]
    exact removed.waits _ (merged.wellFormed.graph.live_representative known) index pair
      (merged.waits address addressLive index pair member)
  fewer := by
    have counted := merged.count
    have nonempty := List.length_pos_of_mem member
    right
    rcases removed.fewer with rfl | fewer
    · omega
    · omega

section

variable {iterate : List Nat → List Nat} {findPath : CubicSolver V E → Nat → Nat → List Nat}
  (permutes : ∀ nodes, (iterate nodes).Perm nodes) (finds : FindsPaths findPath)

include permutes finds

theorem killCyclesAt_converges {s : CubicSolver V E} {n : Nat} (wellFormed : s.WellFormed)
    (live : s.Live n)
    (edgeOfMerged : ∀ address < s.allocated, ¬ s.Live address →
      ∃ next ∈ (s.node address).supsets, s.representative next = s.representative address)
    (ranked : ∃ rank, s.graph.RankedExcept (· = n) rank) :
    ∃ s' center, Fuel.Converges (fun rounds => s.killCyclesAt iterate findPath rounds n) s' ∧
      CyclesRemoved n center s s' := by
  induction count : s.liveCount using Nat.strong_induction_on generalizing s n with
  | _ size induction =>
      subst count
      rcases findCycle_cases finds s n (iterate (s.node n).supsets) with
        ⟨t, tMem, found⟩ | ⟨noCycle, unreached⟩
      · rw [(permutes _).mem_iff] at tMem
        rcases found.cycle wellFormed live tMem with
          ⟨rest, reversed, nMem, notMem, nodup, restLive, path⟩
        have tLive := wellFormed.live_of_edge n live t tMem
        have merged : PathMerged t rest s (s.mergePath (t :: rest)) := by
          apply wellFormed.pathMerged rest tLive restLive notMem nodup path
          rcases ranked with ⟨rank, ranked⟩
          apply ranked.enlarge
          rintro address rfl
          exact .inr nMem
        have fewer : (s.mergePath (t :: rest)).liveCount < s.liveCount := by
          have counted := merged.count
          have nonempty := List.length_pos_of_mem nMem
          omega
        have tStill : (s.mergePath (t :: rest)).Live t := (merged.live t).mpr ⟨tLive, notMem⟩
        rcases induction _ fewer merged.wellFormed tStill
          (merged.edge_of_merged wellFormed edgeOfMerged) merged.ranked rfl with
          ⟨s', center, converges, removed⟩
        refine ⟨s', center, Fuel.Converges.of_succ ?_, ?_⟩
        · simp only [killCyclesAt, reversed]
          exact converges
        · exact removed.after_path merged wellFormed live tLive nMem notMem
      · refine ⟨s, n, Fuel.Converges.of_succ ?_, ?_⟩
        · simp only [killCyclesAt, noCycle, List.reverse_nil]
          exact Fuel.converges_some s
        · rcases ranked with ⟨rank, ranked⟩
          have acyclic : s.graph.Acyclic := by
            apply ranked.acyclic wellFormed.graph (finite_known s)
            intro next edge
            apply unreached _ next ((permutes _).mem_iff.mpr edge)
            exact fun address next edge => (wellFormed.edge_known address next edge).2
          exact {
            consistent := ⟨wellFormed, edgeOfMerged, acyclic⟩
            sameVariables := .refl s
            live := live
            represents := wellFormed.representative_of_live n live
            touches := .refl wellFormed.graph
            waits := fun address live index pair member => by
              rw [wellFormed.representative_of_live address live]
              exact member
            fewer := .inl rfl }

end

end CubicSolver

end Topc
