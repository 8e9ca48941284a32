import Mathlib.Data.Set.Basic
import Mathlib.Logic.Function.Basic
import Mathlib.Logic.Relation

/-! # Tracing values through copies

A program that only copies values between variables, or stores values from
elsewhere, is a relation between stores. Which variable a value comes from is a
relation between variables. Programs are composed on both sides alike. -/

namespace Topc

/-- The variable a value comes from, or somewhere else. -/
abbrev Source (Var : Type*) := Option Var

namespace Source

variable {Var V : Type*}

/-- The value from the source, where `elsewhere` is the value from no variable. -/
def read (store : Var → V) (elsewhere : V) : Source Var → V
  | some x => store x
  | none => elsewhere

/-- The source may hold the value. -/
def Holds (store : Var → V) (value : V) : Source Var → Prop
  | some x => store x = value
  | none => True

end Source

variable {Var V : Type*}

/-- The origins of the values after a run are those that the flow relates to the
variables, and every origin that it relates is that of some run. -/
structure Traces (run : (Var → V) → (Var → V) → Prop) (flow : Source Var → Source Var → Prop) :
    Prop where
  sound : ∀ {before after}, run before after → ∀ {source : Source Var} {value},
    source.Holds after value → ∃ origin, flow source origin ∧ origin.Holds before value
  exact : ∀ {source origin}, flow source origin → ∀ before elsewhere,
    ∃ after, run before after ∧ source.read after elsewhere = origin.read before elsewhere

namespace Traces

variable {run other : (Var → V) → (Var → V) → Prop} {flow otherFlow : Source Var → Source Var → Prop}

/-- A run that changes nothing. -/
theorem refl : Traces (@Eq (Var → V)) Eq where
  sound := by
    rintro before _ rfl source value holds
    exact ⟨source, rfl, holds⟩
  exact := by
    rintro source _ rfl before elsewhere
    exact ⟨before, rfl, rfl⟩

/-- A run that does not end. -/
theorem never : Traces (fun _ _ : Var → V => False) fun _ _ => False :=
  ⟨nofun, nofun⟩

theorem or (first : Traces run flow) (second : Traces other otherFlow) :
    Traces (fun before after => run before after ∨ other before after)
      (fun source origin => flow source origin ∨ otherFlow source origin) where
  sound := by
    intro before after ran source value holds
    rcases ran with ran | ran
    · rcases first.sound ran holds with ⟨origin, flows, held⟩
      exact ⟨origin, .inl flows, held⟩
    · rcases second.sound ran holds with ⟨origin, flows, held⟩
      exact ⟨origin, .inr flows, held⟩
  exact := by
    intro source origin flows before elsewhere
    rcases flows with flows | flows
    · rcases first.exact flows before elsewhere with ⟨after, ran, same⟩
      exact ⟨after, .inl ran, same⟩
    · rcases second.exact flows before elsewhere with ⟨after, ran, same⟩
      exact ⟨after, .inr ran, same⟩

/-- A part of the code that is only run under some condition. -/
theorem guard (condition : Prop) (traces : Traces run flow) :
    Traces (fun before after => condition ∧ run before after)
      (fun source origin => condition ∧ flow source origin) where
  sound := by
    intro before after ran source value holds
    rcases traces.sound ran.2 holds with ⟨origin, flows, held⟩
    exact ⟨origin, ⟨ran.1, flows⟩, held⟩
  exact := by
    intro source origin flows before elsewhere
    rcases traces.exact flows.2 before elsewhere with ⟨after, ran, same⟩
    exact ⟨after, ⟨flows.1, ran⟩, same⟩

/-- The second part is run after the first, so origins are looked up in it first. -/
theorem comp (first : Traces run flow) (second : Traces other otherFlow) :
    Traces (Relation.Comp run other) (Relation.Comp otherFlow flow) where
  sound := by
    rintro before after ⟨mid, ranFirst, ranSecond⟩ source value holds
    rcases second.sound ranSecond holds with ⟨between, flowsSecond, held⟩
    rcases first.sound ranFirst held with ⟨origin, flowsFirst, heldBefore⟩
    exact ⟨origin, ⟨between, flowsSecond, flowsFirst⟩, heldBefore⟩
  exact := by
    rintro source origin ⟨between, flowsSecond, flowsFirst⟩ before elsewhere
    rcases first.exact flowsFirst before elsewhere with ⟨mid, ranFirst, sameMid⟩
    rcases second.exact flowsSecond mid elsewhere with ⟨after, ranSecond, same⟩
    exact ⟨after, ⟨mid, ranFirst, ranSecond⟩, same.trans sameMid⟩

/-- Any number of runs. -/
theorem star (traces : Traces run flow) :
    Traces (Relation.ReflTransGen run) (Relation.ReflTransGen flow) where
  sound := by
    intro before after ran
    induction ran with
    | refl => exact fun {source} _ holds => ⟨source, .refl, holds⟩
    | tail _ last induction =>
        intro source value holds
        rcases traces.sound last holds with ⟨between, flows, held⟩
        rcases induction held with ⟨origin, flowsBefore, heldBefore⟩
        exact ⟨origin, .head flows flowsBefore, heldBefore⟩
  exact := by
    intro source origin flows before elsewhere
    induction flows using Relation.ReflTransGen.head_induction_on with
    | refl => exact ⟨before, .refl, rfl⟩
    | head step _ induction =>
        rcases induction with ⟨mid, ran, sameMid⟩
        rcases traces.exact step mid elsewhere with ⟨after, last, same⟩
        exact ⟨after, ran.tail last, same.trans sameMid⟩

/-! ## Stores and scopes -/

variable [DecidableEq Var]

/-- The value stored in a variable is the one from the source. -/
theorem store (x : Var) (stored : Source Var) :
    Traces (V := V) (fun before after => ∃ value, stored.Holds before value ∧
        after = Function.update before x value)
      (fun source origin => origin = if source = some x then stored else source) where
  sound := by
    rintro before _ ⟨value, held, rfl⟩ source found holds
    by_cases here : source = some x
    · subst here
      have same : value = found := by simpa [Source.Holds] using holds
      subst same
      exact ⟨stored, by simp, held⟩
    · refine ⟨source, by rw [if_neg here], ?_⟩
      cases source with
      | none => trivial
      | some y =>
          have different : y ≠ x := fun same => here (congrArg some same)
          rwa [Source.Holds, Function.update_of_ne different] at holds
  exact := by
    rintro source _ rfl before elsewhere
    refine ⟨Function.update before x (stored.read before elsewhere), ⟨_, ?_, rfl⟩, ?_⟩
    · cases stored with
      | none => trivial
      | some y => rfl
    · by_cases here : source = some x
      · simp [here, Source.read]
      · rw [if_neg here]
        cases source with
        | none => rfl
        | some y =>
            have different : y ≠ x := fun same => here (congrArg some same)
            simp [Source.read, different]

/-- Some variables receive values from elsewhere. -/
theorem receive (received : List Var) :
    Traces (V := V) (fun before after => ∀ x ∉ received, after x = before x)
      (fun source origin => origin = if ∃ x ∈ received, source = some x then none else source) where
  sound := by
    rintro before after kept source value holds
    refine ⟨_, rfl, ?_⟩
    split
    · trivial
    · rename_i outside
      cases source with
      | none => trivial
      | some y =>
          have unreceived : y ∉ received := fun member => outside ⟨y, member, rfl⟩
          rwa [Source.Holds, ← kept y unreceived]
  exact := by
    rintro source _ rfl before elsewhere
    refine ⟨fun x => if x ∈ received then elsewhere else before x, ?_, ?_⟩
    · exact fun x unreceived => if_neg unreceived
    · cases source with
      | none => simp [Source.read]
      | some y => by_cases member : y ∈ received <;> simp [Source.read, member]

/-- A variable keeps one value in all runs exactly when it is its only origin. -/
theorem always_iff [Nontrivial V] (traces : Traces run flow) (source : Source Var) (x : Var) :
    (∀ before after value, run before after → source.Holds after value → value = before x) ↔
      ∀ origin, flow source origin → origin = some x := by
  constructor
  · intro always origin flows
    by_contra different
    rcases exists_pair_ne V with ⟨v, w, apart⟩
    -- A store in which only `x` has its value.
    rcases traces.exact flows (fun y => if y = x then v else w) w with ⟨after, ran, same⟩
    have read : origin.read (fun y => if y = x then v else w) w = w := by
      cases origin with
      | none => rfl
      | some y => exact if_neg fun equal => different (congrArg some equal)
    have holds : source.Holds after w := by
      rw [read] at same
      cases source with
      | none => trivial
      | some y => exact same
    have equal := always _ after w ran holds
    rw [if_pos rfl] at equal
    exact apart equal.symm
  · intro only before after value ran holds
    rcases traces.sound ran holds with ⟨origin, flows, held⟩
    rw [only origin flows] at held
    exact held.symm

end Traces

/-! ## What copies lead into a set -/

section

variable {α : Type*}

/-- Everything that the copies lead into the set only. -/
def keptBy (copies : α → α → Prop) (held : Set α) : Set α :=
  { source | ∀ origin, copies source origin → origin ∈ held }

theorem keptBy_mono (copies : α → α → Prop) {held larger : Set α} (within : held ⊆ larger) :
    keptBy copies held ⊆ keptBy copies larger :=
  fun _ kept origin copied => within (kept origin copied)

theorem keptBy_comp (first second : α → α → Prop) (held : Set α) :
    keptBy (Relation.Comp first second) held = keptBy first (keptBy second held) := by
  ext source
  constructor
  · intro kept between copied origin copiedOn
    exact kept origin ⟨between, copied, copiedOn⟩
  · rintro kept origin ⟨between, copied, copiedOn⟩
    exact kept between copied origin copiedOn

theorem keptBy_or (first second : α → α → Prop) (held : Set α) :
    keptBy (fun source origin => first source origin ∨ second source origin) held =
      keptBy first held ∩ keptBy second held := by
  ext source
  simp only [keptBy, or_imp, forall_and, Set.mem_inter_iff, Set.mem_ofPred_eq]

/-- What one iteration leads back into itself, any number of iterations do. -/
theorem keptBy_star {copies : α → α → Prop} {held stays : Set α} (within : stays ⊆ held)
    (step : stays ⊆ keptBy copies stays) :
    stays ⊆ keptBy (Relation.ReflTransGen copies) held := by
  intro source member origin copied
  induction copied using Relation.ReflTransGen.head_induction_on with
  | refl => exact within member
  | head first _ induction => exact induction (step member _ first)

end

end Topc
