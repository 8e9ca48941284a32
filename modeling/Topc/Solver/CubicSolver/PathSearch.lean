import Mathlib.Data.List.Perm.Subperm
import Topc.Solver.CubicSolver.CycleRemoval

/-! # A search for paths

A depth-first search finds a linked path exactly when there is one, in any graph
whose edges stay within the allocated nodes. -/

namespace Topc

namespace CubicSolver

variable {V E : Type}

/-- Extend a path, given from its last node back, until it is at the target. -/
def extendPath (s : CubicSolver V E) (target : Nat) : Nat → Nat → List Nat → Option (List Nat)
  | 0, _, _ => none
  | fuel + 1, current, path =>
      if current = target then some (current :: path)
      else ((s.node current).supsets.filter (· ∉ current :: path)).findSome? fun next =>
        extendPath s target fuel next (current :: path)

def depthFirst (s : CubicSolver V E) (source target : Nat) : List Nat :=
  (s.extendPath target (s.allocated + 1) source []).getD []

theorem extendPath_linked {s : CubicSolver V E} {source target : Nat} (fuel : Nat) :
    ∀ {current : Nat} {path result : List Nat},
      s.extendPath target fuel current path = some result → (current :: path).Nodup →
      (current :: path).getLast? = some source →
      ((current :: path).IsChain fun next address => next ∈ (s.node address).supsets) →
      LinkedPath s source target result := by
  induction fuel with
  | zero => exact nofun
  | succ fuel induction =>
      intro current path result found nodup last linked
      rw [extendPath] at found
      split at found
      · rename_i isTarget
        cases found
        exact ⟨congrArg some isTarget, last, nodup, linked⟩
      · rcases List.exists_of_findSome?_eq_some found with ⟨next, nextMem, found⟩
        rw [List.mem_filter] at nextMem
        have fresh : next ∉ current :: path := of_decide_eq_true nextMem.2
        apply induction found (List.nodup_cons.mpr ⟨fresh, nodup⟩)
        · rw [List.getLast?_cons_cons]
          exact last
        · exact List.isChain_cons_cons.mpr ⟨nextMem.1, linked⟩

/-- A search with enough fuel misses no way to go on from a path. -/
theorem extendPath_complete {s : CubicSolver V E} {target : Nat} (fuel : Nat) :
    ∀ {current : Nat} {path front : List Nat},
      s.extendPath target fuel current path = none → front.length < fuel →
      (front ++ current :: path).Nodup → (front ++ current :: path).head? = some target →
      ¬ (front ++ current :: path).IsChain fun next address => next ∈ (s.node address).supsets := by
  induction fuel with
  | zero => exact fun _ short => absurd short (Nat.not_lt_zero _)
  | succ fuel induction =>
      intro current path front missed short nodup head linked
      rw [extendPath] at missed
      split at missed
      · cases missed
      · rename_i notTarget
        rcases List.eq_nil_or_concat front with rfl | ⟨front, next, rfl⟩
        · exact notTarget (Option.some.inj head)
        · rw [List.concat_eq_append, List.append_assoc] at nodup head linked
          rw [List.findSome?_eq_none_iff] at missed
          have step := (List.isChain_cons_cons.mp linked.right_of_append).1
          have fresh := (List.nodup_cons.mp (List.nodup_append.mp nodup).2.1).1
          have nextMissed := missed next (List.mem_filter.mpr ⟨step, decide_eq_true fresh⟩)
          rw [List.concat_eq_append, List.length_append] at short
          exact induction nextMissed (Nat.lt_of_succ_lt_succ short) nodup head linked

theorem depthFirst_findsPaths : FindsPaths (depthFirst (V := V) (E := E)) := by
  intro s source target
  rw [depthFirst]
  cases result : s.extendPath target (s.allocated + 1) source [] with
  | some path =>
      exact .inl (extendPath_linked _ result (List.nodup_singleton source) rfl (.singleton source))
  | none =>
      refine .inr ⟨rfl, fun bounded path found => ?_⟩
      rcases List.eq_nil_or_concat path with rfl | ⟨front, last, rfl⟩
      · cases found.head
      · have isSource : last = source := by simpa using found.last
        subst isSource
        rw [List.concat_eq_append] at found
        have inside : front ⊆ List.range s.allocated := by
          intro address member
          rcases List.append_of_mem member with ⟨before, after, rfl⟩
          have linked := found.linked
          rw [List.append_assoc, List.cons_append] at linked
          have step := linked.right_of_append
          cases after with
          | nil => exact List.mem_range.mpr (bounded _ _ (List.isChain_cons_cons.mp step).1)
          | cons second after =>
              exact List.mem_range.mpr (bounded _ _ (List.isChain_cons_cons.mp step).1)
        have short : front.length ≤ s.allocated := by
          have nodup := (List.nodup_append.mp found.nodup).1
          have bound := (List.subperm_of_subset nodup inside).length_le
          rw [List.length_range] at bound
          exact bound
        exact extendPath_complete _ result (Nat.lt_succ_of_le short) found.nodup found.head
          found.linked

end CubicSolver

end Topc
