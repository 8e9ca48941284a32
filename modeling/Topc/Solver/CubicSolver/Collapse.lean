import Topc.Solver.CubicSolver.Shape

/-! # Collapsing cycles of the cubic solver

A merge gives one node the edges, elements and waiting inclusions of another. -/

namespace Topc

namespace CubicSolver

variable {V E : Type}

/-! ## One merge -/

/-- Insert the nodes of a list one after another. -/
def insertAll (set items : List Nat) : List Nat :=
  items.foldl (fun set a => set.insert a) set

theorem mem_insertAll {items : List Nat} {address : Nat} : ∀ {set : List Nat},
    address ∈ insertAll set items ↔ address ∈ set ∨ address ∈ items := by
  induction items with
  | nil => simp [insertAll]
  | cons item items induction =>
      intro set
      change address ∈ insertAll (set.insert item) items ↔ _
      rw [induction, List.mem_insert_iff, List.mem_cons]
      tauto

theorem nodup_insertAll {items : List Nat} : ∀ {set : List Nat}, set.Nodup →
    (insertAll set items).Nodup := by
  induction items with
  | nil => exact fun nodup => nodup
  | cons item items induction =>
      intro set nodup
      exact induction nodup.insert

theorem mem_redirect {set : List Nat} (nodup : set.Nodup) {fromNode toNode address : Nat} :
    address ∈ redirect set fromNode toNode ↔
      address = toNode ∨ (address ≠ fromNode ∧ address ∈ set) := by
  rw [redirect, List.mem_insert_iff, nodup.mem_erase_iff]

theorem nodup_redirect {set : List Nat} (nodup : set.Nodup) (fromNode toNode : Nat) :
    (redirect set fromNode toNode).Nodup :=
  (nodup.erase fromNode).insert

/-- A loop that changes every node of a list and adds it to one node. -/
theorem foldl_modifyNode {change : CubicSolverNode V → CubicSolverNode V}
    {add : Nat → CubicSolverNode V → CubicSolverNode V} {n1 : Nat} (items : List Nat) :
    ∀ s : CubicSolver V E, items.Nodup → n1 ∉ items →
      items.foldl (fun s a => (s.modifyNode a change).modifyNode n1 (add a)) s =
        { s with node := fun address =>
            if address = n1 then items.foldl (fun n a => add a n) (s.node n1)
            else if address ∈ items then change (s.node address) else s.node address } := by
  induction items with
  | nil =>
      intro s _ _
      have sameNode : (fun address => if address = n1 then s.node n1 else s.node address) =
          s.node := by
        funext address
        split
        · rename_i same
          rw [same]
        · rfl
      simp [sameNode]
  | cons item items induction =>
      intro s nodup notMem
      have parts := List.nodup_cons.mp nodup
      have itemOther : item ≠ n1 := fun same => notMem (same ▸ List.mem_cons_self)
      rw [List.foldl_cons, induction _ parts.2 (fun member => notMem (List.mem_cons_of_mem _ member))]
      simp only [modifyNode, List.foldl_cons, CubicSolver.mk.injEq, true_and, and_true]
      funext address
      by_cases isFirst : address = n1
      · subst isFirst
        simp [Function.update_of_ne (Ne.symm itemOther)]
      · by_cases isItem : address = item
        · subst isItem
          simp [isFirst, parts.1]
        · simp [isFirst, isItem]

section

variable (s : CubicSolver V E) (n1 n2 : Nat)

/-- The node that is left after a merge. -/
def mergedNode : CubicSolverNode V where
  supsets := (insertAll (s.node n1).supsets
    ((s.node n2).supsets.filter (· ≠ n1))).erase n2
  subsets := (insertAll (s.node n1).subsets
    ((s.node n2).subsets.filter (· ≠ n1))).erase n2
  bitvector := orBits (s.node n1).bitvector (s.node n2).bitvector
  conditionalConstraints := (s.node n1).conditionalConstraints.mapIdx fun index waiting =>
    waiting ++ (s.node n2).conditionalConstraints[index]?.getD []

/-- The other nodes after a merge. -/
def redirectedNode (address : Nat) : CubicSolverNode V :=
  { s.node address with
    supsets := if address ∈ (s.node n2).subsets then redirect (s.node address).supsets n2 n1
      else (s.node address).supsets
    subsets := if address ∈ (s.node n2).supsets then redirect (s.node address).subsets n2 n1
      else (s.node address).subsets }

variable {s n1 n2}

theorem foldl_insert_supsets (items : List Nat) : ∀ n : CubicSolverNode V,
    items.foldl (fun n a => { n with supsets := n.supsets.insert a }) n =
      { n with supsets := insertAll n.supsets items } := by
  induction items with
  | nil => exact fun _ => rfl
  | cons item items induction => exact fun n => induction { n with supsets := n.supsets.insert item }

theorem foldl_insert_subsets (items : List Nat) : ∀ n : CubicSolverNode V,
    items.foldl (fun n a => { n with subsets := n.subsets.insert a }) n =
      { n with subsets := insertAll n.subsets items } := by
  induction items with
  | nil => exact fun _ => rfl
  | cons item items induction => exact fun n => induction { n with subsets := n.subsets.insert item }

theorem mergeNodes_eq (supsetsNodup : (s.node n2).supsets.Nodup)
    (subsetsNodup : (s.node n2).subsets.Nodup) :
    s.mergeNodes n1 n2 =
      { s with
        dagmapping := s.dagmapping.map fun (entry : V × Nat) =>
          if entry.2 = n2 then (entry.1, n1) else entry
        node := fun address =>
          if address = n1 then s.mergedNode n1 n2 else s.redirectedNode n1 n2 address } := by
  have supsetsOther : n1 ∉ (s.node n2).supsets.filter (· ≠ n1) := by simp
  have subsetsOther : n1 ∉ (s.node n2).subsets.filter (· ≠ n1) := by simp
  unfold mergeNodes
  dsimp only
  rw [foldl_modifyNode _ _ (supsetsNodup.filter _) supsetsOther,
    foldl_modifyNode _ _ (subsetsNodup.filter _) subsetsOther]
  simp only [modifyNode, foldl_insert_supsets, foldl_insert_subsets]
  simp only [CubicSolver.mk.injEq, true_and, and_true]
  funext address
  by_cases isInto : address = n1
  · subst isInto
    simp [mergedNode]
  · by_cases inSupsets : address ∈ (s.node n2).supsets <;>
      by_cases inSubsets : address ∈ (s.node n2).subsets <;>
      simp [isInto, redirectedNode, inSupsets, inSubsets]

theorem WellFormed.mergeNodes_eq (wellFormed : s.WellFormed) :
    s.mergeNodes n1 n2 =
      { s with
        dagmapping := s.dagmapping.map fun (entry : V × Nat) =>
          if entry.2 = n2 then (entry.1, n1) else entry
        node := fun address =>
          if address = n1 then s.mergedNode n1 n2 else s.redirectedNode n1 n2 address } :=
  CubicSolver.mergeNodes_eq (wellFormed.supsetsNodup n2) (wellFormed.subsetsNodup n2)

theorem WellFormed.mergeNodes_sameVariables (wellFormed : s.WellFormed) :
    SameVariables s (s.mergeNodes n1 n2) := by
  rw [wellFormed.mergeNodes_eq]
  refine ⟨rfl, rfl, ?_⟩
  dsimp only
  rw [List.map_map]
  apply List.map_congr_left
  intro entry _
  dsimp only [Function.comp_apply]
  split <;> rfl

theorem WellFormed.mergeNodes_live (wellFormed : s.WellFormed) (mergedLive : s.Live n2)
    {address : Nat} : (s.mergeNodes n1 n2).Live address ↔
      address = n1 ∨ (s.Live address ∧ address ≠ n2) := by
  rw [wellFormed.mergeNodes_eq, Live, List.map_map, List.mem_map]
  constructor
  · rintro ⟨entry, entryMem, rfl⟩
    by_cases merged : entry.2 = n2
    · left
      simp [merged]
    · right
      simp only [Function.comp_apply, if_neg merged]
      exact ⟨List.mem_map_of_mem entryMem, merged⟩
  · rintro (rfl | ⟨live, other⟩)
    · rcases List.mem_map.mp mergedLive with ⟨entry, entryMem, merged⟩
      exact ⟨entry, entryMem, by simp [merged]⟩
    · rcases List.mem_map.mp live with ⟨entry, entryMem, rfl⟩
      exact ⟨entry, entryMem, by simp [other]⟩

theorem WellFormed.mergeNodes_representative (wellFormed : s.WellFormed) (mergedLive : s.Live n2)
    (address : Nat) : (s.mergeNodes n1 n2).representative address =
      if s.representative address = n2 then n1 else s.representative address := by
  rw [wellFormed.mergeNodes_eq, representative, representative, List.getElem?_map]
  cases found : s.dagmapping[address]? with
  | none =>
      have unknown := List.getElem?_eq_none_iff.mp found
      rw [wellFormed.allocated] at unknown
      have other : address ≠ n2 := by
        rintro rfl
        exact absurd (wellFormed.live_known address mergedLive) (Nat.not_lt.mpr unknown)
      simp [other]
  | some entry =>
      simp only [Option.map_some, Option.getD_some]
      split <;> rfl

theorem WellFormed.mem_mergeNodes_supsets (wellFormed : s.WellFormed) (mergedLive : s.Live n2)
    {address next : Nat} : next ∈ ((s.mergeNodes n1 n2).node address).supsets ↔
      if address = n1 then next ≠ n1 ∧ next ≠ n2 ∧
        (next ∈ (s.node n1).supsets ∨ next ∈ (s.node n2).supsets)
      else if s.Live address ∧ n2 ∈ (s.node address).supsets then
        next = n1 ∨ (next ≠ n2 ∧ next ∈ (s.node address).supsets)
      else next ∈ (s.node address).supsets := by
  rw [wellFormed.mergeNodes_eq]
  dsimp only
  by_cases isInto : address = n1
  · rw [if_pos isInto, if_pos isInto, mergedNode,
      (nodup_insertAll (wellFormed.supsetsNodup n1)).mem_erase_iff, mem_insertAll, List.mem_filter]
    have irreflexive : next ∈ (s.node n1).supsets → next ≠ n1 := by
      rintro member rfl
      exact wellFormed.irreflexive next member
    simp only [decide_not, Bool.not_eq_true', decide_eq_false_iff_not]
    tauto
  · rw [if_neg isInto, if_neg isInto, redirectedNode]
    dsimp only
    simp only [wellFormed.mem_subsets n2 mergedLive address]
    split
    · exact mem_redirect (wellFormed.supsetsNodup address)
    · exact .rfl

theorem WellFormed.mem_mergeNodes_subsets (wellFormed : s.WellFormed) (intoLive : s.Live n1)
    {address other : Nat} : other ∈ ((s.mergeNodes n1 n2).node address).subsets ↔
      if address = n1 then other ≠ n1 ∧ other ≠ n2 ∧
        (other ∈ (s.node n1).subsets ∨ other ∈ (s.node n2).subsets)
      else if address ∈ (s.node n2).supsets then
        other = n1 ∨ (other ≠ n2 ∧ other ∈ (s.node address).subsets)
      else other ∈ (s.node address).subsets := by
  rw [wellFormed.mergeNodes_eq]
  dsimp only
  by_cases isInto : address = n1
  · rw [if_pos isInto, if_pos isInto, mergedNode,
      (nodup_insertAll (wellFormed.subsetsNodup n1)).mem_erase_iff, mem_insertAll, List.mem_filter]
    have irreflexive : other ∈ (s.node n1).subsets → other ≠ n1 := by
      rintro member rfl
      exact wellFormed.irreflexive other ((wellFormed.mem_subsets other intoLive other).mp member).2
    simp only [decide_not, Bool.not_eq_true', decide_eq_false_iff_not]
    tauto
  · rw [if_neg isInto, if_neg isInto, redirectedNode]
    dsimp only
    split
    · exact mem_redirect (wellFormed.subsetsNodup address)
    · exact .rfl

theorem WellFormed.mergeNodes_bit (wellFormed : s.WellFormed) (address index : Nat) :
    (s.mergeNodes n1 n2).bit address index =
      if address = n1 then s.bit n1 index || s.bit n2 index else s.bit address index := by
  rw [wellFormed.mergeNodes_eq, bit]
  dsimp only
  split
  · rw [mergedNode, orBits, List.getElem?_mapIdx, bit, bit]
    have sameLength : (s.node n1).bitvector.length = (s.node n2).bitvector.length := by
      rw [wellFormed.sized, wellFormed.sized]
    by_cases bound : index < (s.node n1).bitvector.length
    · rw [List.getElem?_eq_getElem bound]
      rfl
    · rw [List.getElem?_eq_none (Nat.le_of_not_lt bound),
        List.getElem?_eq_none (Nat.le_of_not_lt (sameLength ▸ bound))]
      rfl
  · rfl

theorem WellFormed.mergeNodes_waiting (wellFormed : s.WellFormed) (address index : Nat) :
    (s.mergeNodes n1 n2).waiting address index =
      if address = n1 then s.waiting n1 index ++ s.waiting n2 index
      else s.waiting address index := by
  rw [wellFormed.mergeNodes_eq, waiting]
  dsimp only
  split
  · rw [mergedNode, List.getElem?_mapIdx, waiting, waiting]
    have sameLength : (s.node n1).conditionalConstraints.length =
        (s.node n2).conditionalConstraints.length := by
      rw [wellFormed.waitingSized, wellFormed.waitingSized]
    by_cases bound : index < (s.node n1).conditionalConstraints.length
    · rw [List.getElem?_eq_getElem bound]
      rfl
    · rw [List.getElem?_eq_none (Nat.le_of_not_lt bound),
        List.getElem?_eq_none (Nat.le_of_not_lt (sameLength ▸ bound))]
      rfl
  · rfl

/-- After a merge subsets still are the edges the other way. -/
theorem WellFormed.mem_subsets_mergeNodes (wellFormed : s.WellFormed) (intoLive : s.Live n1)
    (mergedLive : s.Live n2) (different : n1 ≠ n2) {address : Nat}
    (live : (s.mergeNodes n1 n2).Live address) (other : Nat) :
    other ∈ ((s.mergeNodes n1 n2).node address).subsets ↔
      (s.mergeNodes n1 n2).Live other ∧
        address ∈ ((s.mergeNodes n1 n2).node other).supsets := by
  rw [wellFormed.mergeNodes_live mergedLive] at live
  rw [wellFormed.mem_mergeNodes_subsets intoLive, wellFormed.mergeNodes_live mergedLive,
    wellFormed.mem_mergeNodes_supsets mergedLive]
  have ofInto := wellFormed.mem_subsets n1 intoLive other
  have ofMerged := wellFormed.mem_subsets n2 mergedLive other
  by_cases isInto : address = n1
  · rw [if_pos isInto, ofInto, ofMerged, isInto]
    by_cases otherInto : other = n1
    · simp [otherInto]
    · by_cases otherLive : s.Live other
      · by_cases leads : n2 ∈ (s.node other).supsets <;> simp [otherInto, otherLive, leads]
      · simp [otherInto, otherLive]
  · rw [or_iff_right isInto] at live
    rw [if_neg isInto, wellFormed.mem_subsets address live.1 other]
    by_cases otherInto : other = n1
    · simp only [otherInto, isInto, live.2, different, intoLive, if_true, true_or, ne_eq,
        not_false_eq_true, true_and]
      split
      · rename_i led
        simp [led]
      · rename_i notLed
        simp [notLed]
    · by_cases otherMerged : other = n2
      · have notBoth : address ∉ (s.node n2).supsets → s.Live n2 →
            address ∉ (s.node n2).supsets := fun notLed _ => notLed
        simpa [otherMerged, different.symm] using notBoth
      · by_cases otherLive : s.Live other
        · by_cases leads : n2 ∈ (s.node other).supsets <;>
            simp [otherInto, otherMerged, otherLive, leads, isInto, live.2]
        · simp [otherInto, otherLive]

theorem WellFormed.mergeNodes_wellFormed (wellFormed : s.WellFormed) (intoLive : s.Live n1)
    (mergedLive : s.Live n2) (different : n1 ≠ n2) : (s.mergeNodes n1 n2).WellFormed := by
  have same : SameVariables s (s.mergeNodes n1 n2) := wellFormed.mergeNodes_sameVariables
  exact {
    sized := by
      rw [wellFormed.mergeNodes_eq]
      intro address
      dsimp only
      split
      · rw [mergedNode, orBits, List.length_mapIdx]
        exact wellFormed.sized n1
      · exact wellFormed.sized address
    waitingSized := by
      rw [wellFormed.mergeNodes_eq]
      intro address
      dsimp only
      split
      · rw [mergedNode, List.length_mapIdx]
        exact wellFormed.waitingSized n1
      · exact wellFormed.waitingSized address
    allocated := by
      rw [same.allocated, ← wellFormed.allocated, ← List.length_map Prod.fst, same.dagmapping,
        List.length_map]
    variablesNodup := by
      rw [same.dagmapping]
      exact wellFormed.variablesNodup
    live_known := by
      intro address live
      rw [same.allocated]
      rcases (wellFormed.mergeNodes_live mergedLive).mp live with rfl | ⟨wasLive, _⟩
      · exact wellFormed.live_known address intoLive
      · exact wellFormed.live_known address wasLive
    representative_of_live := by
      intro address live
      rw [wellFormed.mergeNodes_representative mergedLive]
      rcases (wellFormed.mergeNodes_live mergedLive).mp live with rfl | ⟨wasLive, other⟩
      · rw [wellFormed.representative_of_live address intoLive, if_neg different]
      · rw [wellFormed.representative_of_live address wasLive, if_neg other]
    supsetsNodup := by
      rw [wellFormed.mergeNodes_eq]
      intro address
      dsimp only
      split
      · exact (nodup_insertAll (wellFormed.supsetsNodup n1)).erase n2
      · rw [redirectedNode]
        dsimp only
        split
        · exact nodup_redirect (wellFormed.supsetsNodup address) n2 n1
        · exact wellFormed.supsetsNodup address
    subsetsNodup := by
      rw [wellFormed.mergeNodes_eq]
      intro address
      dsimp only
      split
      · exact (nodup_insertAll (wellFormed.subsetsNodup n1)).erase n2
      · rw [redirectedNode]
        dsimp only
        split
        · exact nodup_redirect (wellFormed.subsetsNodup address) n2 n1
        · exact wellFormed.subsetsNodup address
    irreflexive := by
      intro address member
      rw [wellFormed.mem_mergeNodes_supsets mergedLive] at member
      have irreflexive := wellFormed.irreflexive address
      split at member
      · rename_i isInto
        exact member.1 isInto
      · rename_i other
        split at member
        · rcases member with isInto | ⟨_, member⟩
          · exact other isInto
          · exact irreflexive member
        · exact irreflexive member
    mem_subsets := fun address live other =>
      wellFormed.mem_subsets_mergeNodes intoLive mergedLive different live other
    live_of_edge := by
      intro address live next edge
      rw [wellFormed.mergeNodes_live mergedLive] at live ⊢
      rw [wellFormed.mem_mergeNodes_supsets mergedLive] at edge
      by_cases isInto : address = n1
      · rw [if_pos isInto] at edge
        rcases edge with ⟨_, notMerged, edge | edge⟩
        · exact .inr ⟨wellFormed.live_of_edge n1 intoLive next edge, notMerged⟩
        · exact .inr ⟨wellFormed.live_of_edge n2 mergedLive next edge, notMerged⟩
      · rw [or_iff_right isInto] at live
        rw [if_neg isInto] at edge
        split at edge
        · rcases edge with isInto | ⟨notMerged, edge⟩
          · exact .inl isInto
          · exact .inr ⟨wellFormed.live_of_edge address live.1 next edge, notMerged⟩
        · rename_i notRedirected
          refine .inr ⟨wellFormed.live_of_edge address live.1 next edge, ?_⟩
          rintro rfl
          exact notRedirected ⟨live.1, edge⟩
    edge_known := by
      intro address next edge
      rw [wellFormed.mem_mergeNodes_supsets mergedLive] at edge
      rw [same.allocated]
      have intoKnown := wellFormed.live_known n1 intoLive
      split at edge
      · rename_i isInto
        subst isInto
        rcases edge with ⟨_, _, edge | edge⟩
        · exact wellFormed.edge_known address next edge
        · exact ⟨intoKnown, (wellFormed.edge_known n2 next edge).2⟩
      · split at edge
        · rename_i redirected
          have addressKnown := wellFormed.live_known address redirected.1
          rcases edge with isInto | ⟨_, edge⟩
          · exact ⟨addressKnown, isInto ▸ intoKnown⟩
          · exact wellFormed.edge_known address next edge
        · exact wellFormed.edge_known address next edge
    subset_known := by
      intro address other member
      rw [wellFormed.mem_mergeNodes_subsets intoLive] at member
      rw [same.allocated]
      have intoKnown := wellFormed.live_known n1 intoLive
      split at member
      · rename_i isInto
        rw [isInto]
        rcases member with ⟨_, _, member | member⟩
        · exact wellFormed.subset_known n1 other member
        · exact ⟨intoKnown, (wellFormed.subset_known n2 other member).2⟩
      · split at member
        · rename_i led
          have addressKnown := (wellFormed.edge_known n2 address led).2
          rcases member with isInto | ⟨_, member⟩
          · exact ⟨addressKnown, isInto ▸ intoKnown⟩
          · exact wellFormed.subset_known address other member
        · exact wellFormed.subset_known address other member
    waiting_known := by
      intro address index pair member
      rw [same.dagmapping]
      rw [wellFormed.mergeNodes_waiting] at member
      split at member
      · rcases List.mem_append.mp member with member | member
        · exact wellFormed.waiting_known n1 index pair member
        · exact wellFormed.waiting_known n2 index pair member
      · exact wellFormed.waiting_known address index pair member
    fresh := by
      intro address unknown index
      rw [same.allocated] at unknown
      have other : address ≠ n1 := by
        rintro rfl
        exact absurd (wellFormed.live_known address intoLive) (Nat.not_lt.mpr unknown)
      rw [wellFormed.mergeNodes_bit, wellFormed.mergeNodes_waiting, if_neg other, if_neg other]
      exact wellFormed.fresh address unknown index }

theorem WellFormed.mergeNodes_represents (wellFormed : s.WellFormed) (mergedLive : s.Live n2)
    {address : Nat} (live : s.Live address) :
    (s.mergeNodes n1 n2).representative address = if address = n2 then n1 else address := by
  rw [wellFormed.mergeNodes_representative mergedLive, wellFormed.representative_of_live _ live]

theorem WellFormed.mergeNodes_grows_bit (wellFormed : s.WellFormed) {address index : Nat}
    (held : s.bit address index = true) : (s.mergeNodes n1 n2).bit address index = true := by
  rw [wellFormed.mergeNodes_bit]
  split
  · rename_i isInto
    rw [← isInto, held, Bool.true_or]
  · exact held

/-- An edge between live nodes is between their representatives after a merge. -/
theorem WellFormed.mergeNodes_linked (wellFormed : s.WellFormed) (mergedLive : s.Live n2)
    {address next : Nat} (live : s.Live address)
    (edge : next ∈ (s.node address).supsets) :
    (s.mergeNodes n1 n2).representative address = (s.mergeNodes n1 n2).representative next ∨
      (s.mergeNodes n1 n2).representative next ∈
        ((s.mergeNodes n1 n2).node ((s.mergeNodes n1 n2).representative address)).supsets := by
  have nextLive := wellFormed.live_of_edge address live next edge
  rw [wellFormed.mergeNodes_represents mergedLive live,
    wellFormed.mergeNodes_represents mergedLive nextLive, or_iff_not_imp_left]
  intro apart
  rw [wellFormed.mem_mergeNodes_supsets mergedLive]
  by_cases merged : address = n2
  · subst merged
    have nextOther : next ≠ address := by
      rintro rfl
      exact wellFormed.irreflexive next edge
    rw [if_pos rfl, if_neg nextOther] at apart ⊢
    rw [if_pos rfl]
    exact ⟨Ne.symm apart, nextOther, .inr edge⟩
  · rw [if_neg merged] at apart ⊢
    by_cases nextMerged : next = n2
    · subst nextMerged
      rw [if_pos rfl] at apart ⊢
      rw [if_neg apart, if_pos ⟨live, edge⟩]
      exact .inl rfl
    · rw [if_neg nextMerged] at apart ⊢
      split
      · rename_i isInto
        exact ⟨isInto ▸ Ne.symm apart, nextMerged, .inl (isInto ▸ edge)⟩
      · split
        · exact .inr ⟨nextMerged, edge⟩
        · exact edge

theorem WellFormed.mergeNodes_evolves (wellFormed : s.WellFormed) (intoLive : s.Live n1)
    (mergedLive : s.Live n2) : s.graph.Evolves (s.mergeNodes n1 n2).graph where
  known := by
    intro address
    change address < (s.mergeNodes n1 n2).allocated ↔ address < s.allocated
    rw [wellFormed.mergeNodes_sameVariables.allocated]
  live {address} live := by
    rcases (wellFormed.mergeNodes_live mergedLive).mp live with rfl | ⟨live, _⟩
    · exact intoLive
    · exact live
  representative {address} known := by
    have live : s.Live (s.representative address) := wellFormed.graph.live_representative known
    change (s.mergeNodes n1 n2).representative (s.representative address) =
      (s.mergeNodes n1 n2).representative address
    rw [wellFormed.mergeNodes_represents mergedLive live,
      wellFormed.mergeNodes_representative mergedLive]
  frozen {address next} dead := by
    have other : address ≠ n1 := by
      rintro rfl
      exact dead intoLive
    change next ∈ ((s.mergeNodes n1 n2).node address).supsets ↔ next ∈ (s.node address).supsets
    rw [wellFormed.mem_mergeNodes_supsets mergedLive, if_neg other,
      if_neg fun redirected => dead redirected.1]
  grows held := wellFormed.mergeNodes_grows_bit held
  flows {address index} live held := by
    change (s.mergeNodes n1 n2).bit ((s.mergeNodes n1 n2).representative address) index = true
    rw [wellFormed.mergeNodes_represents mergedLive live]
    split
    · rename_i merged
      change s.bit address index = true at held
      rw [wellFormed.mergeNodes_bit, if_pos rfl, ← merged, held, Bool.or_true]
    · exact wellFormed.mergeNodes_grows_bit held
  linked live edge := wellFormed.mergeNodes_linked mergedLive live edge

/-- The first node changes, and represents the second. -/
theorem WellFormed.mergeNodes_touches (wellFormed : s.WellFormed) (intoLive : s.Live n1)
    (mergedLive : s.Live n2) (different : n1 ≠ n2) :
    s.graph.Touches n1 (s.mergeNodes n1 n2).graph where
  evolves := wellFormed.mergeNodes_evolves intoLive mergedLive
  keeps {address} _ := by
    by_cases isInto : address = n1
    · exact .inl isInto
    · refine .inr (.inl ⟨fun {index} held => ?_, fun {index pair} _ waits => ?_,
        fun {next} live edge => ?_⟩)
      · change (s.mergeNodes n1 n2).bit address index = true at held
        rw [wellFormed.mergeNodes_bit, if_neg isInto] at held
        exact held
      · change pair ∈ (s.mergeNodes n1 n2).waiting address index at waits
        rw [wellFormed.mergeNodes_waiting, if_neg isInto] at waits
        exact waits
      · change (s.mergeNodes n1 n2).Live address at live
        change next ∈ ((s.mergeNodes n1 n2).node address).supsets at edge
        rw [wellFormed.mergeNodes_live mergedLive, or_iff_right isInto] at live
        rw [wellFormed.mem_mergeNodes_supsets mergedLive, if_neg isInto] at edge
        have represents : ∀ earlier ∈ (s.node address).supsets,
            (s.mergeNodes n1 n2).representative earlier =
              if earlier = n2 then n1 else earlier := fun earlier earlierEdge =>
          wellFormed.mergeNodes_represents mergedLive
            (wellFormed.live_of_edge address live.1 earlier earlierEdge)
        split at edge
        · rename_i redirected
          rcases edge with rfl | ⟨notMerged, edge⟩
          · exact ⟨n2, redirected.2, (represents n2 redirected.2).trans (if_pos rfl)⟩
          · exact ⟨next, edge, (represents next edge).trans (if_neg notMerged)⟩
        · rename_i notRedirected
          have notMerged : next ≠ n2 := by
            rintro rfl
            exact notRedirected ⟨live.1, edge⟩
          exact ⟨next, edge, (represents next edge).trans (if_neg notMerged)⟩
  collapsed {address} live dead := by
    change ¬ (s.mergeNodes n1 n2).Live address at dead
    rw [wellFormed.mergeNodes_live mergedLive, not_or] at dead
    have merged : address = n2 := by
      by_contra other
      exact dead.2 ⟨live, other⟩
    change (s.mergeNodes n1 n2).representative address = (s.mergeNodes n1 n2).representative n1
    rw [wellFormed.mergeNodes_represents mergedLive live, if_pos merged,
      wellFormed.mergeNodes_represents mergedLive intoLive, if_neg different]

theorem WellFormed.mergeNodes_ranked (wellFormed : s.WellFormed)
    (mergedLive : s.Live n2) (different : n1 ≠ n2) {exempt : Nat → Prop} {rank : Nat → Nat}
    (ranked : s.graph.RankedExcept exempt rank) (exemptLive : ∀ address, exempt address →
      s.Live address) (intoExempt : exempt n1) (mergedExempt : exempt n2) :
    ∃ rank', (s.mergeNodes n1 n2).graph.RankedExcept
      (fun address => exempt address ∧ address ≠ n2) rank' := by
  refine ranked.merge wellFormed.graph (finite_known s) exemptLive intoExempt mergedExempt
    different (wellFormed.irreflexive n2) fun address next edge => ?_
  change next ∈ ((s.mergeNodes n1 n2).node address).supsets at edge
  rw [wellFormed.mem_mergeNodes_supsets mergedLive] at edge
  split at edge
  · rename_i isInto
    exact .inl isInto
  · split at edge
    · rename_i redirected
      have other : address ≠ n2 := by
        rintro rfl
        exact wellFormed.irreflexive address redirected.2
      rcases edge with isInto | ⟨notMerged, edge⟩
      · exact .inr (.inr ⟨redirected.1, other, redirected.2, isInto⟩)
      · exact .inr (.inl ⟨edge, fun _ _ => notMerged⟩)
    · rename_i notRedirected
      refine .inr (.inl ⟨edge, fun live _ => ?_⟩)
      rintro rfl
      exact notRedirected ⟨live, edge⟩

end

end CubicSolver

end Topc
