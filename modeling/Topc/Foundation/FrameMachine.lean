import Mathlib.Logic.Relation
import Mathlib.Tactic.ByContra

/-! # Machines with a stack of frames

A machine replaces the frame on top of its stack by those it enters, or fails. It has
ended when the stack is empty. As there is only one way on, a run that ends has met no
failure. What frames come to is proved frame by frame, for runs whose steps are all
taken in valid states. -/

namespace FrameMachine

variable {State Frame Failure : Type*}
  (stepFrame : State → Frame → Except Failure (State × List Frame))

abbrev Config (State Frame : Type*) := State × List Frame

/-- A step from one configuration to the next. -/
inductive Steps : Config State Frame → Config State Frame → Prop
  | top {state after : State} {frame : Frame} {entered frames : List Frame}
      (stepped : stepFrame state frame = .ok (after, entered)) :
      Steps (state, frame :: frames) (after, entered ++ frames)

def Reaches : Config State Frame → Config State Frame → Prop :=
  Relation.ReflTransGen (Steps stepFrame)

/-- The failure that the machine comes to in so many steps. -/
def failureWithin : Nat → State → List Frame → Option Failure
  | 0, _, _ | _, _, [] => none
  | steps + 1, state, frame :: frames =>
      match stepFrame state frame with
      | .error failure => some failure
      | .ok (after, entered) => failureWithin steps after (entered ++ frames)

variable {stepFrame}

theorem exists_failure {steps : Nat} {state : State} {frames : List Frame} {failure : Failure}
    (fails : failureWithin stepFrame steps state frames = some failure) :
    ∃ reached frame rest, Reaches stepFrame (state, frames) (reached, frame :: rest) ∧
      stepFrame reached frame = .error failure := by
  induction steps generalizing state frames with
  | zero =>
      unfold failureWithin at fails
      cases fails
  | succ steps induction =>
      cases frames with
      | nil => cases fails
      | cons frame frames =>
          rw [failureWithin] at fails
          split at fails
          · rename_i isFailure
            cases fails
            exact ⟨state, frame, frames, .refl, isFailure⟩
          · rename_i after entered stepped
            rcases induction fails with ⟨reached, top, rest, path, isFailure⟩
            exact ⟨reached, top, rest, .head (.top stepped) path, isFailure⟩

/-! ## One way on -/

theorem steps_unique : Relator.RightUnique (Steps stepFrame) := by
  rintro _ _ _ ⟨first⟩ ⟨second⟩
  rw [first] at second
  cases second
  rfl

/-- Everything on the way to the end leads there. -/
theorem Reaches.to_end {start reached : Config State Frame} {ended : State}
    (toEnd : Reaches stepFrame start (ended, [])) (path : Reaches stepFrame start reached) :
    Reaches stepFrame reached (ended, []) := by
  rcases Relation.ReflTransGen.total_of_right_unique steps_unique toEnd path with stays | goes
  · rcases Relation.ReflTransGen.cases_head stays with rfl | ⟨_, leaves, _⟩
    · exact .refl
    · cases leaves
  · exact goes

/-- A machine that ends does not fail. -/
theorem Reaches.not_fails {start : Config State Frame} {ended reached : State} {frame : Frame}
    {frames : List Frame} (toEnd : Reaches stepFrame start (ended, []))
    (path : Reaches stepFrame start (reached, frame :: frames)) (failure : Failure) :
    stepFrame reached frame ≠ .error failure := by
  intro fails
  rcases Relation.ReflTransGen.cases_head (toEnd.to_end path) with same | ⟨_, leaves, _⟩
  · cases same
  · rcases leaves with ⟨stepped⟩
    rw [fails] at stepped
    cases stepped

/-! ## Runs whose steps are valid -/

/-- Every step of the run is taken in a state that is valid for the frame on top. -/
def AlwaysValid (stepFrame : State → Frame → Except Failure (State × List Frame))
    (valid : State → Frame → Prop) (start : Config State Frame) : Prop :=
  ∀ state frame frames, Reaches stepFrame start (state, frame :: frames) → valid state frame

theorem AlwaysValid.later {valid : State → Frame → Prop} {start reached : Config State Frame}
    (always : AlwaysValid stepFrame valid start) (path : Reaches stepFrame start reached) :
    AlwaysValid stepFrame valid reached :=
  fun state frame frames further => always state frame frames (path.trans further)

/-- If the machine fails where the state is not valid, a run that ends is valid throughout. -/
theorem Reaches.alwaysValid {valid : State → Frame → Prop} {start : Config State Frame}
    {ended : State} (toEnd : Reaches stepFrame start (ended, []))
    (fails : ∀ state frame, ¬ valid state frame →
      ∃ failure, stepFrame state frame = .error failure) :
    AlwaysValid stepFrame valid start := by
  intro state frame frames path
  by_contra invalid
  rcases fails state frame invalid with ⟨failure, isFailure⟩
  exact toEnd.not_fails path failure isFailure

/-- As long as its steps are valid, the run takes the frames off the stack, and the
state has the property then. -/
def Ends (stepFrame : State → Frame → Except Failure (State × List Frame))
    (valid : State → Frame → Prop) (entered : List Frame) (post : State → Prop)
    (state : State) : Prop :=
  ∀ frames, AlwaysValid stepFrame valid (state, entered ++ frames) →
    ∃ after, Reaches stepFrame (state, entered ++ frames) (after, frames) ∧ post after

namespace Ends

variable {valid : State → Frame → Prop} {state : State} {frame : Frame}
  {entered rest : List Frame} {mid post : State → Prop}

theorem nil (holds : post state) : Ends stepFrame valid [] post state :=
  fun _ _ => ⟨state, .refl, holds⟩

theorem mono {weaker : State → Prop} (ends : Ends stepFrame valid entered post state)
    (weaken : ∀ after, post after → weaker after) : Ends stepFrame valid entered weaker state := by
  intro frames always
  rcases ends frames always with ⟨after, path, holds⟩
  exact ⟨after, path, weaken after holds⟩

theorem append (first : Ends stepFrame valid entered mid state)
    (second : ∀ after, mid after → Ends stepFrame valid rest post after) :
    Ends stepFrame valid (entered ++ rest) post state := by
  intro frames always
  rw [List.append_assoc] at always ⊢
  rcases first (rest ++ frames) always with ⟨between, path, holds⟩
  rcases second between holds frames (always.later path) with ⟨after, further, ended⟩
  exact ⟨after, path.trans further, ended⟩

/-- A frame ends where those do that it is replaced by. -/
theorem step {after : State} (stepped : stepFrame state frame = .ok (after, entered))
    (ends : Ends stepFrame valid entered post after) :
    Ends stepFrame valid [frame] post state := by
  intro frames always
  have first : Steps stepFrame (state, frame :: frames) (after, entered ++ frames) := .top stepped
  rcases ends frames (always.later (.single first)) with ⟨last, path, holds⟩
  exact ⟨last, .head first path, holds⟩

/-- The step from the frame on top is a valid one. -/
theorem assuming (ends : valid state frame → Ends stepFrame valid [frame] post state) :
    Ends stepFrame valid [frame] post state :=
  fun frames always => ends (always state frame frames .refl) frames always

end Ends

end FrameMachine
