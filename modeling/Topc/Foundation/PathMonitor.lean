import Mathlib.Computability.Language
import Mathlib.Order.CompletePartialOrder

/-! # Monitors over path languages

The paths through a program form a language of events: `*` is sequencing, `+`
is choice and `∗` is iteration. A monitor replays a path one event at a time.
The rules below reason about every path of a language at once. -/

open Computability

/-- A deterministic observer of events, and the events it permits in each state. -/
structure Monitor (State Event : Type*) where
  step : State → Event → State
  ok : State → Event → Prop

namespace Monitor

variable {State Event : Type*} (monitor : Monitor State Event)

def run (state : State) (path : List Event) : State :=
  path.foldl monitor.step state

/-- Every event is permitted in the state the earlier events lead to. -/
def Safe : State → List Event → Prop
  | _, [] => True
  | state, event :: path => monitor.ok state event ∧ Safe (monitor.step state event) path

@[simp] theorem run_nil (state : State) : monitor.run state [] = state := rfl

@[simp] theorem run_cons (state : State) (event : Event) (path : List Event) :
    monitor.run state (event :: path) = monitor.run (monitor.step state event) path := rfl

@[simp] theorem run_append (state : State) (first second : List Event) :
    monitor.run state (first ++ second) = monitor.run (monitor.run state first) second :=
  List.foldl_append

@[simp] theorem safe_nil (state : State) : monitor.Safe state [] := trivial

@[simp] theorem safe_cons (state : State) (event : Event) (path : List Event) :
    monitor.Safe state (event :: path) ↔
      monitor.ok state event ∧ monitor.Safe (monitor.step state event) path := Iff.rfl

@[simp] theorem safe_append (first second : List Event) : ∀ state,
    monitor.Safe state (first ++ second) ↔
      monitor.Safe state first ∧ monitor.Safe (monitor.run state first) second := by
  induction first with
  | nil => simp
  | cons event first induction =>
      intro state
      simp [induction, and_assoc]

/-- Safety is permission at every split of the path. -/
theorem safe_iff_split (path : List Event) (state : State) :
    monitor.Safe state path ↔
      ∀ before event after, path = before ++ event :: after →
        monitor.ok (monitor.run state before) event := by
  constructor
  · intro safe before event after split
    subst split
    rw [safe_append] at safe
    exact safe.2.1
  · intro permitted
    induction path generalizing state with
    | nil => trivial
    | cons event path induction =>
        refine ⟨permitted [] event path rfl, induction _ ?_⟩
        intro before next after split
        exact permitted (event :: before) next after (by rw [split, List.cons_append])

omit monitor in
theorem singleton_nil : ({[]} : Language Event) = 1 := rfl

omit monitor in
theorem singleton_append (first second : List Event) :
    ({first ++ second} : Language Event) = {first} * {second} :=
  (Set.image2_singleton : Set.image2 (· ++ ·) {first} {second} = _).symm

omit monitor in
theorem singleton_le {path : List Event} {paths : Language Event} (member : path ∈ paths) :
    ({path} : Language Event) ≤ paths :=
  Set.singleton_subset_iff.mpr member

/-! ## Feasibility -/

/-- Some path of the language exists. -/
def Feasible {Event : Type*} (paths : Language Event) : Prop :=
  ∃ path, path ∈ paths

namespace Feasible

variable {Event : Type*} {first second paths : Language Event}

theorem singleton (path : List Event) : Feasible ({path} : Language Event) :=
  ⟨path, Set.mem_singleton path⟩

theorem one : Feasible (1 : Language Event) :=
  ⟨[], Language.nil_mem_one⟩

theorem mul (firstFeasible : Feasible first) (secondFeasible : Feasible second) :
    Feasible (first * second) := by
  rcases firstFeasible with ⟨before, beforeMem⟩
  rcases secondFeasible with ⟨after, afterMem⟩
  exact ⟨before ++ after, Language.append_mem_mul beforeMem afterMem⟩

theorem mono (subset : first ≤ second) (feasible : Feasible first) : Feasible second := by
  rcases feasible with ⟨path, member⟩
  exact ⟨path, subset member⟩

end Feasible

/-! ## Properties of every event -/

/-- Every event on every path has the property. -/
def Throughout {Event : Type*} (holds : Event → Prop) (paths : Language Event) : Prop :=
  ∀ path ∈ paths, ∀ event ∈ path, holds event

namespace Throughout

variable {Event : Type*} {holds : Event → Prop} {first second paths : Language Event}

theorem mono {weaker : Event → Prop} (throughout : Throughout holds paths)
    (weaken : ∀ event, holds event → weaker event) : Throughout weaker paths :=
  fun path member event eventMem => weaken event (throughout path member event eventMem)

theorem singleton {path : List Event} (each : ∀ event ∈ path, holds event) :
    Throughout holds ({path} : Language Event) := by
  intro other member
  rcases Set.mem_singleton_iff.mp member with rfl
  exact each

theorem one : Throughout holds (1 : Language Event) := by
  intro path member
  rw [Language.mem_one] at member
  simp [member]

theorem zero : Throughout holds (0 : Language Event) := by
  intro path member
  exact absurd member (Language.notMem_zero path)

theorem add (firstHolds : Throughout holds first) (secondHolds : Throughout holds second) :
    Throughout holds (first + second) := by
  intro path member
  rcases member with member | member
  · exact firstHolds path member
  · exact secondHolds path member

theorem mul (firstHolds : Throughout holds first) (secondHolds : Throughout holds second) :
    Throughout holds (first * second) := by
  intro path member
  rcases Language.mem_mul.mp member with ⟨before, beforeMem, after, afterMem, rfl⟩
  exact List.forall_mem_append.mpr ⟨firstHolds before beforeMem, secondHolds after afterMem⟩

theorem kstar (eachHolds : Throughout holds paths) : Throughout holds paths∗ := by
  intro path member
  rcases Language.mem_kstar.mp member with ⟨iterations, rfl, each⟩
  intro event eventMem
  rcases List.mem_flatten.mp eventMem with ⟨iteration, iterationMem, eventMem⟩
  exact eachHolds iteration (each iteration iterationMem) event eventMem

end Throughout

/-! ## Triples -/

/-- From every state in `pre`, every path is safe and ends in `post`. -/
def Triple (pre : State → Prop) (paths : Language Event) (post : State → Prop) : Prop :=
  ∀ state, pre state → ∀ path ∈ paths,
    monitor.Safe state path ∧ post (monitor.run state path)

namespace Triple

variable {monitor} {pre mid post : State → Prop} {first second paths : Language Event}

theorem consequence {pre' post' : State → Prop}
    (holds : monitor.Triple pre paths post) (strengthen : ∀ state, pre' state → pre state)
    (weaken : ∀ state, post state → post' state) : monitor.Triple pre' paths post' := by
  intro state preHolds path member
  have result := holds state (strengthen state preHolds) path member
  exact ⟨result.1, weaken _ result.2⟩

theorem one (implies : ∀ state, pre state → post state) : monitor.Triple pre 1 post := by
  intro state preHolds path member
  rw [Language.mem_one] at member
  subst member
  exact ⟨trivial, implies state preHolds⟩

theorem mul (firstHolds : monitor.Triple pre first mid)
    (secondHolds : monitor.Triple mid second post) :
    monitor.Triple pre (first * second) post := by
  intro state preHolds path member
  rcases Language.mem_mul.mp member with ⟨before, beforeMem, after, afterMem, rfl⟩
  have firstResult := firstHolds state preHolds before beforeMem
  have secondResult := secondHolds _ firstResult.2 after afterMem
  rw [safe_append, run_append]
  exact ⟨⟨firstResult.1, secondResult.1⟩, secondResult.2⟩

theorem add (firstHolds : monitor.Triple pre first post)
    (secondHolds : monitor.Triple pre second post) :
    monitor.Triple pre (first + second) post := by
  intro state preHolds path member
  rcases member with member | member
  · exact firstHolds state preHolds path member
  · exact secondHolds state preHolds path member

theorem zero : monitor.Triple pre 0 post := by
  intro state _ path member
  exact absurd member (Language.notMem_zero path)

/-- An invariant of one iteration is an invariant of every number of them. -/
theorem kstar {invariant : State → Prop}
    (preserved : monitor.Triple invariant paths invariant) :
    monitor.Triple invariant paths∗ invariant := by
  intro state holds path member
  rcases Language.mem_kstar.mp member with ⟨iterations, rfl, each⟩
  induction iterations generalizing state with
  | nil => exact ⟨trivial, holds⟩
  | cons iteration iterations induction =>
      have head := preserved state holds iteration (each iteration (by simp))
      have tailEach : ∀ other ∈ iterations, other ∈ paths := fun other otherMem =>
        each other (by simp [otherMem])
      have tail := induction _ head.2 tailEach (Language.join_mem_kstar tailEach)
      rw [List.flatten_cons, safe_append, run_append]
      exact ⟨⟨head.1, tail.1⟩, tail.2⟩

end Triple

end Monitor
