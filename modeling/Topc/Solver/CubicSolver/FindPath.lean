import Mathlib.Data.List.Sort
import Topc.Foundation.BreadthFirstLayers
import Topc.Solver.CubicSolver.LeastSolution

/-! # The search for a path

The search labels nodes with their distance from the source until the target has
one. The way back looks only at the first labelled subset of a node, and stays
where it is when that one is not nearer. -/

namespace Topc

namespace CubicSolver

open BreadthFirst

variable {V E : Type}

/-! ## What the search labels -/

section

variable (iterate : List Nat → List Nat) (s : CubicSolver V E)

/-- The supersets of a node in the order in which loops go through them. -/
def supersetsOf (n : Nat) : List Nat :=
  iterate (s.node n).supsets

/-- A list up to and including its first item of a kind. -/
def takeThrough (isLast : Nat → Bool) (items : List Nat) : List Nat :=
  items.takeWhile (fun item => !isLast item) ++ (items.dropWhile fun item => !isLast item).take 1

/-- The nodes whose supersets get labels when the target is one step further than a
distance. For a target next to the source one more node is taken from the queue. -/
def scanned (source target distance : Nat) : List Nat :=
  (List.range distance).flatMap (layer (s.supersetsOf iterate) source) ++
    takeThrough (fun n => target ∈ s.supersetsOf iterate n)
      (layer (s.supersetsOf iterate) source distance) ++
    (layer (s.supersetsOf iterate) source 1).take (if distance = 0 then 1 else 0)

def labelled (source target distance n : Nat) : Bool :=
  n = source || (s.scanned iterate source target distance).any fun other =>
    n ∈ s.supersetsOf iterate other

/-- From a node at a distance the first labelled subset always is one step nearer. -/
def WalksBack (source : Nat) (label : Nat → Bool) : Nat → Nat → Prop
  | 0, _ => True
  | distance + 1, n => ∃ next ∈ layer (s.supersetsOf iterate) source distance,
      (iterate (s.node n).subsets).find? label = some next ∧
        WalksBack source label distance next

end

section

variable {iterate : List Nat → List Nat} {s : CubicSolver V E}

/-! ## Labels -/

def labelOf (distances : List (Nat × Nat)) (n : Nat) : Option Nat :=
  (distances.find? fun entry => entry.1 = n).map Prod.snd

theorem any_iff_mem_keys {distances : List (Nat × Nat)} {n : Nat} :
    (distances.any fun entry => entry.1 = n) = true ↔ n ∈ distances.map Prod.fst := by
  simp [List.any_eq_true, List.mem_map]

theorem labelOf_isSome {distances : List (Nat × Nat)} {n : Nat} :
    (labelOf distances n).isSome = true ↔ n ∈ distances.map Prod.fst := by
  rw [labelOf, Option.isSome_map, List.find?_isSome, List.mem_map]
  simp

theorem mem_of_labelOf {distances : List (Nat × Nat)} {n distance : Nat}
    (stored : labelOf distances n = some distance) : (n, distance) ∈ distances := by
  rw [labelOf, Option.map_eq_some_iff] at stored
  rcases stored with ⟨⟨key, value⟩, found, rfl⟩
  have same := List.find?_some found
  rw [← of_decide_eq_true same]
  exact List.mem_of_find?_eq_some found

/-- Every new superset gets the same label and is put into the queue. -/
theorem foldl_label (label : Nat) (items : List Nat) :
    ∀ (distances : List (Nat × Nat)) (queue : List Nat),
      items.foldl (fun (distances, queue) n =>
        if distances.any fun entry => entry.1 = n then (distances, queue)
        else (distances ++ [(n, label)], queue ++ [n])) (distances, queue) =
      (distances ++ (firstNew (distances.map Prod.fst) items).map fun n => (n, label),
        queue ++ firstNew (distances.map Prod.fst) items) := by
  induction items with
  | nil =>
      intro distances queue
      simp [firstNew]
  | cons item items induction =>
      intro distances queue
      rw [List.foldl_cons, firstNew]
      dsimp only
      by_cases seen : item ∈ distances.map Prod.fst
      · rw [if_pos seen, if_pos (any_iff_mem_keys.mpr seen), induction]
      · rw [if_neg seen, if_neg (mt any_iff_mem_keys.mp seen), induction]
        have same : firstNew ((distances ++ [(item, label)]).map Prod.fst) items =
            firstNew (item :: distances.map Prod.fst) items := by
          apply firstNew_congr
          intro n
          simp [or_comm]
        rw [same]
        simp

theorem populateDistances_eq {distances : List (Nat × Nat)} {current distance : Nat}
    (stored : labelOf distances current = some distance) (queue : List Nat) :
    s.populateDistances iterate distances queue current =
      (distances ++ (firstNew (distances.map Prod.fst) (s.supersetsOf iterate current)).map
          fun n => (n, distance + 1),
        queue ++ firstNew (distances.map Prod.fst) (s.supersetsOf iterate current)) := by
  have isDistance : ((distances.find? fun entry => entry.1 = current).map Prod.snd).getD 0 =
      distance := by
    rw [show (distances.find? fun entry => entry.1 = current).map Prod.snd = some distance
      from stored]
    rfl
  rw [populateDistances]
  simp only [isDistance]
  exact foldl_label (distance + 1) _ distances queue

/-! ## The search goes through the layers -/

/-- The search is within a layer: the supersets of its first nodes have labels. -/
structure Stage (iterate : List Nat → List Nat) (s : CubicSolver V E) (source distance : Nat)
    (done rest : List Nat) (distances : List (Nat × Nat)) (queue : List Nat) : Prop where
  nodes : layer (s.supersetsOf iterate) source distance = done ++ rest
  keys : distances.map Prod.fst = within (s.supersetsOf iterate) source distance ++
    firstNew (within (s.supersetsOf iterate) source distance)
      (done.flatMap (s.supersetsOf iterate))
  values : ∀ entry ∈ distances, entry.1 ∈ layer (s.supersetsOf iterate) source entry.2
  queue : queue = rest ++ firstNew (within (s.supersetsOf iterate) source distance)
    (done.flatMap (s.supersetsOf iterate))

variable {source distance : Nat} {done rest : List Nat} {distances : List (Nat × Nat)}
  {queue : List Nat}

theorem stage_start : Stage iterate s source 0 [] [source] [(source, 0)] [source] where
  nodes := rfl
  keys := rfl
  values entry member := by
    rw [List.mem_singleton.mp member]
    exact List.mem_singleton.mpr rfl
  queue := rfl

theorem Stage.labelOf_eq (stage : Stage iterate s source distance done rest distances queue)
    {n label : Nat} (inLayer : n ∈ layer (s.supersetsOf iterate) source label)
    (known : n ∈ distances.map Prod.fst) : labelOf distances n = some label := by
  rcases Option.isSome_iff_exists.mp (labelOf_isSome.mpr known) with ⟨stored, isStored⟩
  have inStored : n ∈ layer (s.supersetsOf iterate) source stored :=
    stage.values _ (mem_of_labelOf isStored)
  rw [isStored, layer_unique inStored inLayer]

/-- One more node of the layer is taken from the queue. -/
theorem Stage.scan {n : Nat}
    (stage : Stage iterate s source distance done (n :: rest) distances (n :: queue)) :
    Stage iterate s source distance (done ++ [n]) rest
      (s.populateDistances iterate distances queue n).1
      (s.populateDistances iterate distances queue n).2 := by
  have inLayer : n ∈ layer (s.supersetsOf iterate) source distance := by
    rw [stage.nodes]
    simp
  have known : n ∈ distances.map Prod.fst := by
    rw [stage.keys]
    exact List.mem_append_left _ (layer_subset_within (Nat.le_refl _) inLayer)
  have tail : queue = rest ++ firstNew (within (s.supersetsOf iterate) source distance)
      (done.flatMap (s.supersetsOf iterate)) := (List.cons.inj stage.queue).2
  have split : firstNew (within (s.supersetsOf iterate) source distance)
      ((done ++ [n]).flatMap (s.supersetsOf iterate)) =
      firstNew (within (s.supersetsOf iterate) source distance)
        (done.flatMap (s.supersetsOf iterate)) ++
      firstNew (distances.map Prod.fst) (s.supersetsOf iterate n) := by
    rw [List.flatMap_append, firstNew_append, stage.keys]
    simp
  rw [populateDistances_eq (stage.labelOf_eq inLayer known)]
  constructor
  · rw [stage.nodes]
    simp
  · rw [split, List.map_append, List.map_map, ← List.append_assoc, ← stage.keys]
    simp [Function.comp_def]
  · intro entry member
    rcases List.mem_append.mp member with old | new
    · exact stage.values entry old
    · rcases List.mem_map.mp new with ⟨other, isNew, rfl⟩
      rw [layer_succ, stage.nodes, List.append_cons, List.flatMap_append, firstNew_append]
      apply List.mem_append_left
      rw [split]
      exact List.mem_append_right _ isNew
  · rw [split, tail, List.append_assoc]

/-- At the end of a layer the queue is the next one. -/
theorem Stage.next (stage : Stage iterate s source distance done [] distances queue) :
    Stage iterate s source (distance + 1) []
      (layer (s.supersetsOf iterate) source (distance + 1)) distances queue := by
  have all := stage.nodes
  rw [List.append_nil] at all
  have isLayer : layer (s.supersetsOf iterate) source (distance + 1) =
      firstNew (within (s.supersetsOf iterate) source distance)
        (done.flatMap (s.supersetsOf iterate)) := by
    rw [layer_succ, all]
  constructor
  · rfl
  · rw [within_succ, isLayer, stage.keys]
    simp [firstNew]
  · exact stage.values
  · rw [stage.queue, isLayer]
    simp [firstNew]

/-- No superset of the nodes of the layer before is new. -/
theorem Stage.nodup_keys (stage : Stage iterate s source distance done rest distances queue) :
    (distances.map Prod.fst).Nodup := by
  rw [stage.keys, List.nodup_append]
  refine ⟨nodup_within distance, nodup_firstNew, ?_⟩
  rintro n member other isNew rfl
  exact (mem_firstNew.mp isNew).2 member

/-- How a search ends. Either the target has a label, but had none before the last
node was taken from the queue, unless that was the first one, or the queue is empty. -/
inductive Ended (iterate : List Nat → List Nat) (s : CubicSolver V E) (source target : Nat)
    (distances : List (Nat × Nat)) : Prop
  | found {distance last : Nat} {done rest queue : List Nat}
      (stage : Stage iterate s source (distance + 1) (done ++ [last]) rest distances queue)
      (labelled : target ∈ distances.map Prod.fst)
      (first : target ∉ within (s.supersetsOf iterate) source (distance + 1) ++
          firstNew (within (s.supersetsOf iterate) source (distance + 1))
            (done.flatMap (s.supersetsOf iterate)) ∨ (distance = 0 ∧ done = []))
  | exhausted {distance : Nat} {done : List Nat}
      (stage : Stage iterate s source distance done [] distances [])
      (missed : target ∉ distances.map Prod.fst)

theorem Stage.reached (stage : Stage iterate s source distance done rest distances queue) {n : Nat}
    (known : n ∈ distances.map Prod.fst) :
    Relation.ReflTransGen (fun n next => next ∈ s.supersetsOf iterate n) source n := by
  rcases List.mem_map.mp known with ⟨entry, member, rfl⟩
  exact reaches_iff.mpr ⟨entry.2, stage.values entry member⟩

theorem searchFrom_cons {target rounds n : Nat} {distances : List (Nat × Nat)}
    {queue : List Nat} : searchFrom iterate s target (rounds + 1) distances (n :: queue) =
      if (s.populateDistances iterate distances queue n).1.any fun entry => entry.1 = target then
        (s.populateDistances iterate distances queue n).1
      else searchFrom iterate s target rounds (s.populateDistances iterate distances queue n).1
        (s.populateDistances iterate distances queue n).2 := rfl

section

variable (bounded : ∀ n, Relation.ReflTransGen (fun n next => next ∈ s.supersetsOf iterate n)
  source n → n < s.allocated)

include bounded

theorem Stage.length_le (stage : Stage iterate s source distance done rest distances queue) :
    distances.length ≤ s.allocated := by
  have subset : distances.map Prod.fst ⊆ List.range s.allocated :=
    fun n known => List.mem_range.mpr (bounded n (stage.reached known))
  have length := (List.subperm_of_subset stage.nodup_keys subset).length_le
  rwa [List.length_map, List.length_range] at length

/-- The rounds suffice: each takes one node from the queue. -/
theorem searchFrom_ended {target : Nat} (rounds : Nat) :
    ∀ {distance : Nat} {done rest : List Nat} {distances : List (Nat × Nat)} {queue : List Nat},
      Stage iterate s source (distance + 1) done rest distances queue →
      (target ∉ distances.map Prod.fst ∨ (distance = 0 ∧ done = [] ∧ queue ≠ [])) →
      s.allocated + queue.length < rounds + distances.length →
      Ended iterate s source target (searchFrom iterate s target rounds distances queue) := by
  induction rounds with
  | zero =>
      intro distance done rest distances queue stage _ enough
      have length := stage.length_le bounded
      omega
  | succ rounds induction =>
      intro distance done rest distances queue stage missed enough
      cases queue with
      | nil =>
          have empty : rest = [] := by
            have isQueue := stage.queue
            rw [eq_comm, List.append_eq_nil_iff] at isQueue
            exact isQueue.1
          subst empty
          apply Ended.exhausted stage
          rcases missed with missed | ⟨_, _, nonempty⟩
          · exact missed
          · exact absurd rfl nonempty
      | cons n queue =>
          have scanning : ∃ distance done rest,
              Stage iterate s source (distance + 1) done (n :: rest) distances (n :: queue) ∧
              (target ∉ distances.map Prod.fst ∨ (distance = 0 ∧ done = [])) := by
            cases rest with
            | cons first rest =>
                have isQueue := stage.queue
                rw [List.cons_append] at isQueue
                rw [← (List.cons.inj isQueue).1] at stage
                exact ⟨distance, done, rest, stage, missed.imp_right fun first =>
                  ⟨first.1, first.2.1⟩⟩
            | nil =>
                have next := stage.next
                have isQueue : n :: queue = layer (s.supersetsOf iterate) source
                    (distance + 1 + 1) := by
                  have all := next.queue
                  rw [List.flatMap_nil, firstNew, List.append_nil] at all
                  exact all
                rw [← isQueue] at next
                refine ⟨distance + 1, [], queue, next, ?_⟩
                rcases missed with missed | ⟨_, isEmpty, _⟩
                · exact .inl missed
                · have isQueue := stage.queue
                  rw [isEmpty] at isQueue
                  cases isQueue
          rcases scanning with ⟨distance, done, rest, stage, missed⟩
          have scanned := stage.scan
          rw [searchFrom_cons]
          by_cases found : target ∈
              (s.populateDistances iterate distances queue n).1.map Prod.fst
          · rw [if_pos (any_iff_mem_keys.mpr found)]
            apply Ended.found scanned found
            rw [stage.keys] at missed
            exact missed
          · rw [if_neg (mt any_iff_mem_keys.mp found)]
            apply induction scanned (.inl found)
            have inLayer : n ∈ layer (s.supersetsOf iterate) source (distance + 1) := by
              rw [stage.nodes]
              simp
            have known : n ∈ distances.map Prod.fst := by
              rw [stage.keys]
              exact List.mem_append_left _ (layer_subset_within (Nat.le_refl _) inLayer)
            rw [populateDistances_eq (stage.labelOf_eq inLayer known)]
            simp only [List.length_append, List.length_map, List.length_cons] at enough ⊢
            omega

end

/-! ## What has a label in the end -/

theorem Stage.known_iff (stage : Stage iterate s source distance done rest distances queue)
    {n : Nat} : n ∈ distances.map Prod.fst ↔
      n ∈ within (s.supersetsOf iterate) source distance ∨
        ∃ other ∈ done, n ∈ s.supersetsOf iterate other := by
  rw [stage.keys, List.mem_append, mem_firstNew, List.mem_flatMap]
  tauto

theorem takeThrough_eq {isLast : Nat → Bool} {before after : List Nat} {last : Nat}
    (others : ∀ n ∈ before, isLast n = false) (isTheLast : isLast last = true) :
    takeThrough isLast (before ++ last :: after) = before ++ [last] := by
  have continues : ∀ n ∈ before, (!isLast n) = true := by
    intro n member
    rw [others n member]
    rfl
  rw [takeThrough, List.takeWhile_append_of_pos continues, List.dropWhile_append_of_pos continues]
  simp [isTheLast]

theorem takeThrough_singleton (isLast : Nat → Bool) (n : Nat) : takeThrough isLast [n] = [n] := by
  rw [takeThrough, List.takeWhile_cons, List.dropWhile_cons]
  cases isLast n <;> rfl

theorem mem_scanned {target n : Nat} : n ∈ s.scanned iterate source target distance ↔
    (∃ nearer < distance, n ∈ layer (s.supersetsOf iterate) source nearer) ∨
      n ∈ takeThrough (fun n => target ∈ s.supersetsOf iterate n)
        (layer (s.supersetsOf iterate) source distance) ∨
      (distance = 0 ∧ n ∈ (layer (s.supersetsOf iterate) source 1).take 1) := by
  rw [scanned, List.mem_append, List.mem_append, List.mem_flatMap, or_assoc]
  simp only [List.mem_range]
  split <;> simp_all

/-- The nodes with a label are those met through the scanned ones. -/
theorem labelled_iff {target n : Nat} : labelled iterate s source target distance n = true ↔
    n = source ∨ ∃ other ∈ s.scanned iterate source target distance,
      n ∈ s.supersetsOf iterate other := by
  simp [labelled]

/-- The target gets its label from the last node taken from the queue. -/
theorem Stage.labels_of_last {target last : Nat}
    (stage : Stage iterate s source (distance + 1) (done ++ [last]) rest distances queue)
    (known : target ∈ distances.map Prod.fst)
    (further : target ∉ within (s.supersetsOf iterate) source (distance + 1))
    (missed : ∀ other ∈ done, target ∉ s.supersetsOf iterate other) :
    target ∈ layer (s.supersetsOf iterate) source (distance + 1 + 1) ∧
      ∀ n, n ∈ distances.map Prod.fst ↔
        labelled iterate s source target (distance + 1) n = true := by
  have edge : target ∈ s.supersetsOf iterate last := by
    rcases (stage.known_iff.mp known).resolve_left further with ⟨other, member, edge⟩
    rcases List.mem_append.mp member with before | isLast
    · exact absurd edge (missed other before)
    · rw [List.mem_singleton.mp isLast] at edge
      exact edge
  have split : layer (s.supersetsOf iterate) source (distance + 1) = done ++ last :: rest := by
    rw [stage.nodes, List.append_assoc, List.singleton_append]
  constructor
  · rw [layer_succ, mem_firstNew, List.mem_flatMap]
    refine ⟨⟨last, ?_, edge⟩, further⟩
    rw [split]
    simp
  · intro n
    have through : takeThrough (fun n => target ∈ s.supersetsOf iterate n)
        (layer (s.supersetsOf iterate) source (distance + 1)) = done ++ [last] := by
      rw [split]
      apply takeThrough_eq
      · exact fun other member => decide_eq_false (missed other member)
      · exact decide_eq_true edge
    rw [stage.known_iff, labelled_iff, mem_within_succ_iff]
    simp only [mem_scanned, through, Nat.succ_ne_zero, false_and, or_false, or_and_right,
      exists_or, or_assoc]

/-- When the search ends with a label for the target, the labels are those of the
distance at which it is. -/
theorem Ended.labels {target : Nat} {distances : List (Nat × Nat)} (different : target ≠ source)
    (ended : Ended iterate s source target distances)
    (known : target ∈ distances.map Prod.fst) :
    ∃ distance, target ∈ layer (s.supersetsOf iterate) source (distance + 1) ∧
      ∀ n, n ∈ distances.map Prod.fst ↔ labelled iterate s source target distance n = true := by
  cases ended with
  | exhausted _ missed => exact absurd known missed
  | @found distance last done rest queue stage _ first =>
      by_cases near : target ∈ within (s.supersetsOf iterate) source (distance + 1)
      · -- The node next to the source had its label before the first round.
        have atStart : distance = 0 ∧ done = [] :=
          first.resolve_left fun missed => missed (List.mem_append_left _ near)
        rcases atStart with ⟨rfl, rfl⟩
        refine ⟨0, ?_, fun n => ?_⟩
        · rw [within_succ, within_zero, List.mem_append, List.mem_singleton] at near
          exact near.resolve_left different
        · have firstOf : (layer (s.supersetsOf iterate) source 1).take 1 = [last] := by
            rw [stage.nodes]
            rfl
          rw [stage.known_iff, labelled_iff, within_succ, layer_succ, within_zero, layer_zero]
          simp only [mem_scanned, firstOf, layer_zero, takeThrough_singleton]
          simp only [List.mem_append, mem_firstNew]
          simp
          tauto
      · refine ⟨distance + 1, stage.labels_of_last known near fun other member edge => ?_⟩
        rcases first with missed | ⟨_, rfl⟩
        · apply missed
          apply List.mem_append_right
          exact mem_firstNew.mpr ⟨List.mem_flatMap.mpr ⟨other, member, edge⟩, near⟩
        · cases member

theorem Ended.stage {target : Nat} {distances : List (Nat × Nat)}
    (ended : Ended iterate s source target distances) :
    ∃ distance done rest queue, Stage iterate s source distance done rest distances queue := by
  cases ended with
  | found stage _ _ => exact ⟨_, _, _, _, stage⟩
  | exhausted stage _ => exact ⟨_, _, _, _, stage⟩

/-- A search without a label for the target has seen all there is. -/
theorem Ended.unreachable {target : Nat} {distances : List (Nat × Nat)}
    (ended : Ended iterate s source target distances)
    (unknown : target ∉ distances.map Prod.fst) :
    ¬ Relation.ReflTransGen (fun n next => next ∈ s.supersetsOf iterate n) source target := by
  cases ended with
  | found _ known _ => exact absurd known unknown
  | @exhausted distance done stage _ =>
      intro path
      rcases reaches_iff.mp path with ⟨further, inLayer⟩
      have empty : layer (s.supersetsOf iterate) source (distance + 1) = [] := by
        have isQueue := stage.next.queue
        rw [List.flatMap_nil, firstNew, List.append_nil] at isQueue
        exact isQueue.symm
      by_cases behind : distance + 1 ≤ further
      · rw [layer_eq_nil_of_le behind empty] at inLayer
        cases inLayer
      · apply unknown
        rw [stage.keys]
        exact List.mem_append_left _ (layer_subset_within (by omega) inLayer)

/-! ## The way back -/

theorem walkBack_succ {distances : List (Nat × Nat)} {rounds current : Nat} {out : List Nat}
    {next : Nat} (different : current ≠ source)
    (isNext : next = match (iterate (s.node current).subsets).find? fun n =>
        (labelOf distances n).isSome with
      | some n =>
          if (labelOf distances n).map (· + 1) = labelOf distances current then n else current
      | none => current) :
    walkBack iterate s source distances (rounds + 1) current out =
      walkBack iterate s source distances rounds next (out ++ [next]) := by
  subst isNext
  rw [walkBack, if_neg different]
  rfl

theorem isSome_labelOf {label : Nat → Bool}
    (labels : ∀ n, n ∈ distances.map Prod.fst ↔ label n = true) (n : Nat) :
    (labelOf distances n).isSome = label n := by
  rw [Bool.eq_iff_iff, labelOf_isSome, labels]

section

variable {label : Nat → Bool}
  (stage : Stage iterate s source distance done rest distances queue)
  (labels : ∀ n, n ∈ distances.map Prod.fst ↔ label n = true)

include stage labels

theorem labelOf_eq_some {n step : Nat}
    (inLayer : n ∈ layer (s.supersetsOf iterate) source step) (hasLabel : label n = true) :
    labelOf distances n = some step :=
  stage.labelOf_eq inLayer ((labels n).mpr hasLabel)

/-- The next node on the way back is the first labelled subset, if that is nearer. -/
theorem walkBack_next {step current : Nat} (rounds : Nat) (out : List Nat)
    (inLayer : current ∈ layer (s.supersetsOf iterate) source (step + 1))
    (hasLabel : label current = true) :
    (∃ next ∈ layer (s.supersetsOf iterate) source step,
      (iterate (s.node current).subsets).find? label = some next ∧
        walkBack iterate s source distances (rounds + 1) current out =
          walkBack iterate s source distances rounds next (out ++ [next])) ∨
    ((∀ next ∈ layer (s.supersetsOf iterate) source step,
      (iterate (s.node current).subsets).find? label ≠ some next) ∧
        walkBack iterate s source distances (rounds + 1) current out =
          walkBack iterate s source distances rounds current (out ++ [current])) := by
  have different : current ≠ source := by
    rintro rfl
    have atStart : current ∈ layer (s.supersetsOf iterate) current 0 := List.mem_singleton.mpr rfl
    cases layer_unique inLayer atStart
  have sameSearch : (fun n => (labelOf distances n).isSome) = label :=
    funext (isSome_labelOf labels)
  cases found : (iterate (s.node current).subsets).find? label with
  | none =>
      refine .inr ⟨fun _ _ => nofun, walkBack_succ different ?_⟩
      rw [sameSearch, found]
  | some first =>
      have firstLabel : label first = true := List.find?_some found
      rcases Option.isSome_iff_exists.mp
        ((isSome_labelOf labels first).trans firstLabel) with ⟨firstStep, stored⟩
      have inFirstLayer := stage.values _ (mem_of_labelOf stored)
      by_cases nearer : firstStep = step
      · subst nearer
        refine .inl ⟨first, inFirstLayer, rfl, walkBack_succ different ?_⟩
        rw [sameSearch, found]
        dsimp only
        rw [stored, labelOf_eq_some stage labels inLayer hasLabel, Option.map_some, if_pos rfl]
      · refine .inr ⟨?_, walkBack_succ different ?_⟩
        · intro next inNextLayer same
          cases same
          exact nearer (layer_unique inFirstLayer inNextLayer)
        · rw [sameSearch, found]
          dsimp only
          rw [stored, labelOf_eq_some stage labels inLayer hasLabel, Option.map_some, if_neg]
          exact fun same => nearer (Nat.succ.inj (Option.some.inj same))

/-- A walk that always gets nearer arrives after as many rounds as it has steps. -/
theorem walkBack_arrives (wellFormed : s.WellFormed)
    (permutes : ∀ nodes, (iterate nodes).Perm nodes) {step : Nat} :
    ∀ {current : Nat}, s.WalksBack iterate source label step current →
      current ∈ layer (s.supersetsOf iterate) source step → label current = true →
      s.Live current →
      ∃ path, (∀ extra out, walkBack iterate s source distances (step + 1 + extra) current out =
          some (out ++ path)) ∧
        (current :: path).getLast? = some source ∧
        (current :: path).IsChain fun next address => next ∈ (s.node address).supsets := by
  induction step with
  | zero =>
      intro current _ inLayer _ _
      have isSource : current = source := List.mem_singleton.mp inLayer
      refine ⟨[], fun extra out => ?_, by rw [isSource]; rfl, .singleton current⟩
      rw [Nat.add_right_comm, walkBack, if_pos isSource, List.append_nil]
  | succ step induction =>
      intro current walks inLayer hasLabel live
      rcases walks with ⟨next, inNextLayer, found, walks⟩
      have nextMem : next ∈ (s.node current).subsets :=
        (permutes _).mem_iff.mp (List.mem_of_find?_eq_some found)
      rcases (wellFormed.mem_subsets current live next).mp nextMem with ⟨nextLive, edge⟩
      rcases induction walks inNextLayer (List.find?_some found) nextLive with
        ⟨path, arrives, last, linked⟩
      refine ⟨next :: path, fun extra out => ?_, ?_, List.isChain_cons_cons.mpr ⟨edge, linked⟩⟩
      · rw [Nat.add_right_comm (step + 1)]
        rcases walkBack_next stage labels (step + 1 + extra) out inLayer hasLabel with
          ⟨other, _, foundOther, steps⟩ | ⟨noOther, _⟩
        · rw [found] at foundOther
          cases foundOther
          rw [steps, arrives, List.append_assoc, List.singleton_append]
        · exact absurd found (noOther next inNextLayer)
      · rw [List.getLast?_cons_cons]
        exact last

/-- Any other walk stays at some node. -/
theorem walkBack_stays (rounds : Nat) : ∀ {step current : Nat} {out : List Nat},
    ¬ s.WalksBack iterate source label step current →
    current ∈ layer (s.supersetsOf iterate) source step → label current = true →
    walkBack iterate s source distances rounds current out = none := by
  induction rounds with
  | zero => exact fun _ _ _ => rfl
  | succ rounds induction =>
      intro step current out strays inLayer hasLabel
      cases step with
      | zero => exact absurd trivial strays
      | succ step =>
          rcases walkBack_next stage labels rounds out inLayer hasLabel with
            ⟨next, inNextLayer, found, steps⟩ | ⟨_, steps⟩
          · rw [steps]
            apply induction _ inNextLayer (List.find?_some found)
            exact fun walks => strays ⟨next, inNextLayer, found, walks⟩
          · rw [steps]
            exact induction strays inLayer hasLabel

end

/-! ## The path -/

/-- The search for a path ends. It finds none exactly when the target is not
reached, and otherwise a path from the target back to the source. -/
def FindsPath (iterate : List Nat → List Nat) (s : CubicSolver V E) (source target : Nat) : Prop :=
  ∃ path, Fuel.Converges (fun steps => findPath iterate s steps source target) path ∧
    (path = [] ↔
      ¬ Relation.ReflTransGen (fun n next => next ∈ (s.node n).supsets) source target) ∧
    (path ≠ [] → path.head? = some target ∧ path.getLast? = some source ∧
      path.IsChain fun next address => next ∈ (s.node address).supsets)

/-- The labels when the search ends. -/
def searched (iterate : List Nat → List Nat) (s : CubicSolver V E) (source target : Nat) :
    List (Nat × Nat) :=
  searchFrom iterate s target s.allocated
    (s.populateDistances iterate [(source, 0)] [] source).1
    (s.populateDistances iterate [(source, 0)] [] source).2

theorem findPath_eq (steps target : Nat) : findPath iterate s steps source target =
    if (searched iterate s source target).any fun entry => entry.1 = target then
      walkBack iterate s source (searched iterate s source target) steps target [target]
    else some [] := rfl

theorem supersetsOf_edge (permutes : ∀ nodes, (iterate nodes).Perm nodes) :
    (fun n next => next ∈ s.supersetsOf iterate n) = fun n next => next ∈ (s.node n).supsets :=
  funext fun _ => funext fun _ => propext (permutes _).mem_iff

theorem source_mem_searched : source ∈ (searched iterate s source source).map Prod.fst := by
  have keeps : ∀ {distances queue current}, source ∈ distances.map Prod.fst →
      source ∈ (s.populateDistances iterate distances queue current).1.map Prod.fst := by
    intro distances queue current member
    rw [populateDistances]
    dsimp only
    rw [foldl_label, List.map_append]
    exact List.mem_append_left _ member
  have start : source ∈
      (s.populateDistances iterate [(source, 0)] [] source).1.map Prod.fst :=
    keeps (List.mem_singleton.mpr rfl)
  rw [searched]
  generalize s.populateDistances iterate [(source, 0)] [] source = populated at start
  rcases populated with ⟨distances, queue⟩
  cases s.allocated with
  | zero => exact start
  | succ rounds =>
      cases queue with
      | nil => exact start
      | cons n queue =>
          rw [searchFrom_cons, if_pos (any_iff_mem_keys.mpr (keeps start))]
          exact keeps start

theorem searched_ended {target : Nat} (different : target ≠ source)
    (bounded : ∀ n, Relation.ReflTransGen (fun n next => next ∈ s.supersetsOf iterate n)
      source n → n < s.allocated) :
    Ended iterate s source target (searched iterate s source target) := by
  have start : Stage iterate s source 0 [] [source] [(source, 0)] [source] := stage_start
  have stage := start.scan.next
  have stored : labelOf [(source, 0)] source = some 0 := by
    simp [labelOf]
  have populated : s.populateDistances iterate [(source, 0)] [] source = _ :=
    populateDistances_eq stored []
  rw [searched]
  apply searchFrom_ended bounded _ stage
  · by_cases nonempty : (s.populateDistances iterate [(source, 0)] [] source).2 = []
    · refine .inl fun known => ?_
      rw [populated] at known nonempty
      dsimp only at known nonempty
      rw [List.nil_append] at nonempty
      rw [nonempty] at known
      exact different (List.mem_singleton.mp known)
    · exact .inr ⟨rfl, rfl, nonempty⟩
  · rw [populated]
    simp only [List.length_append, List.length_map, List.length_singleton, List.nil_append]
    omega

/-- The search does what it should exactly when from the target on the first labelled
subset always is one step nearer to the source. -/
theorem findsPath_iff (permutes : ∀ nodes, (iterate nodes).Perm nodes) (wellFormed : s.WellFormed)
    (live : s.Live source) (target : Nat) :
    FindsPath iterate s source target ↔
      ∀ distance, target ∈ layer (s.supersetsOf iterate) source (distance + 1) →
        s.WalksBack iterate source (s.labelled iterate source target distance) (distance + 1)
          target := by
  have sameEdge := supersetsOf_edge (s := s) permutes
  have reachedLive : ∀ n, Relation.ReflTransGen (fun n next => next ∈ s.supersetsOf iterate n)
      source n → s.Live n := by
    intro n path
    rw [sameEdge] at path
    induction path with
    | refl => exact live
    | tail _ edge induction => exact wellFormed.live_of_edge _ induction _ edge
  by_cases different : target = source
  · subst different
    apply iff_of_true
    · refine ⟨[target], Fuel.Converges.of_succ ⟨0, fun steps _ => ?_⟩, ?_, fun _ =>
        ⟨rfl, rfl, .singleton target⟩⟩
      · dsimp only
        rw [findPath_eq, if_pos (any_iff_mem_keys.mpr source_mem_searched), walkBack, if_pos rfl]
      · exact iff_of_false (List.cons_ne_nil _ _) (not_not_intro .refl)
    · intro distance inLayer
      have atStart : target ∈ layer (s.supersetsOf iterate) target 0 := List.mem_singleton.mpr rfl
      cases layer_unique inLayer atStart
  · have ended := searched_ended different fun n path =>
      wellFormed.live_known n (reachedLive n path)
    by_cases known : target ∈ (searched iterate s source target).map Prod.fst
    · rcases ended.labels different known with ⟨distance, inLayer, labels⟩
      rcases ended.stage with ⟨last, done, rest, queue, stage⟩
      have hasLabel := (labels target).mp known
      have reached : Relation.ReflTransGen (fun n next => next ∈ s.supersetsOf iterate n)
          source target := reaches_iff.mpr ⟨_, inLayer⟩
      have walks_iff : (∀ distance, target ∈ layer (s.supersetsOf iterate) source (distance + 1) →
          s.WalksBack iterate source (s.labelled iterate source target distance) (distance + 1)
            target) ↔ s.WalksBack iterate source (s.labelled iterate source target distance)
              (distance + 1) target := by
        refine ⟨fun all => all distance inLayer, fun walks other inOther => ?_⟩
        rw [Nat.succ.inj (layer_unique inOther inLayer)]
        exact walks
      have walk (steps : Nat) : findPath iterate s steps source target =
          walkBack iterate s source (searched iterate s source target) steps target [target] := by
        rw [findPath_eq, if_pos (any_iff_mem_keys.mpr known)]
      rw [walks_iff]
      constructor
      · rintro ⟨path, ⟨bound, runs⟩, _⟩
        by_contra strays
        have result := runs bound (Nat.le_refl bound)
        dsimp only at result
        rw [walk, walkBack_stays stage labels bound strays inLayer hasLabel] at result
        cases result
      · intro walks
        rcases walkBack_arrives stage labels wellFormed permutes walks inLayer hasLabel
          (reachedLive target reached) with ⟨path, arrives, last, linked⟩
        refine ⟨target :: path, ⟨distance + 1 + 1, fun steps enough => ?_⟩, ?_, fun _ =>
          ⟨rfl, last, linked⟩⟩
        · rcases Nat.exists_eq_add_of_le enough with ⟨extra, rfl⟩
          dsimp only
          rw [walk, arrives, List.singleton_append]
        · rw [← sameEdge]
          exact iff_of_false (List.cons_ne_nil _ _) (not_not_intro reached)
    · have unreachable := ended.unreachable known
      apply iff_of_true
      · refine ⟨[], ⟨0, fun steps _ => ?_⟩, ?_, fun nonempty => absurd rfl nonempty⟩
        · dsimp only
          rw [findPath_eq, if_neg (mt any_iff_mem_keys.mp known)]
        · rw [← sameEdge]
          exact iff_of_true rfl unreachable
      · exact fun distance inLayer => absurd (reaches_iff.mpr ⟨_, inLayer⟩) unreachable

/-- Two variables, the first included in the second. -/
def includedInNext : CubicSolver String String :=
  (((create ["f"]).enter "x").enter "y").linkNodes 0 1

theorem findsPath_iff_included : FindsPath (fun nodes => nodes) includedInNext 0 1 ↔
    ∀ distance, 1 ∈ layer (supersetsOf (fun nodes => nodes) includedInNext) 0 (distance + 1) →
      WalksBack (fun nodes => nodes) includedInNext 0
        (labelled (fun nodes => nodes) includedInNext 0 1 distance) (distance + 1) 1 := by
  have first : ((create ["f"] : CubicSolver String String).enter "x").Consistent :=
    (create_consistent ["f"]).enter (by decide)
  have both : (((create ["f"] : CubicSolver String String).enter "x").enter "y").Consistent :=
    first.enter (by decide)
  apply findsPath_iff (fun _ => .refl _) _ (by decide)
  exact both.linkNodes_wellFormed (by decide) (by decide) (by decide)

/-- The inclusions of `b = a; a = t; b = t; n = b;`, by the address of nodes. -/
def assignedInTurn : CubicSolver String String :=
  [("a", "b"), ("t", "a"), ("t", "b"), ("b", "n")].foldl (fun s pair =>
    (s.addSubseteqConstraint (List.insertionSort (· ≤ ·)) (fun s source target =>
      (findPath (List.insertionSort (· ≤ ·)) s 9 source target).getD []) 9 pair.1 pair.2).getD s)
    (create [])

/-- After `t = n;` the search for a cycle through `n` does not end: from `b` it
looks at `a`, which is not nearer to `t`. -/
theorem not_findsPath_shortcut : 2 ∈ ((assignedInTurn.linkNodes 3 2).node 3).supsets ∧
    ¬ FindsPath (List.insertionSort (· ≤ ·)) (assignedInTurn.linkNodes 3 2) 2 3 := by
  have labels : searched (List.insertionSort (· ≤ ·)) (assignedInTurn.linkNodes 3 2) 2 3 =
      [(2, 0), (0, 1), (1, 1), (3, 2)] := by decide +kernel
  have stays : ∀ rounds out, walkBack (List.insertionSort (· ≤ ·)) (assignedInTurn.linkNodes 3 2) 2
      [(2, 0), (0, 1), (1, 1), (3, 2)] rounds 1 out = none := by
    intro rounds
    induction rounds with
    | zero => exact fun _ => rfl
    | succ rounds induction =>
        intro out
        rw [walkBack_succ (by decide) (by decide +kernel : 1 = _)]
        exact induction _
  refine ⟨by decide +kernel, ?_⟩
  rintro ⟨path, ⟨bound, runs⟩, _⟩
  have result := runs (bound + 1) (Nat.le_succ bound)
  dsimp only at result
  rw [findPath_eq, labels, if_pos (by decide),
    walkBack_succ (by decide) (by decide +kernel : 1 = _), stays] at result
  cases result

end

end CubicSolver

end Topc
