import Topc.Foundation.PathMonitor

/-! # Values that are disposed of exactly once

A trace says where values come into being and where they are disposed of. Every
value has a token. A trace in which no value is lost, disposed of twice or made
anew while it is still there can be judged part by part. -/

open Computability

inductive Handling (Token : Type*)
  | produced (token : Token)
  | disposed (token : Token)
deriving DecidableEq, Repr

namespace Handling

variable {Token : Type*}

def token : Handling Token → Token
  | .produced token | .disposed token => token

variable [DecidableEq Token]

/-- Whether the value of a token is there. It is produced only while it is not,
and disposed of only while it is. -/
def presence (token : Token) : Monitor Bool (Handling Token) where
  step present
    | .produced other => present || decide (other = token)
    | .disposed other => present && decide (other ≠ token)
  ok present
    | .produced other => other = token → present = false
    | .disposed other => other = token → present = true

@[simp] theorem step_produced (token other : Token) (present : Bool) :
    (presence token).step present (.produced other) = (present || decide (other = token)) := rfl

@[simp] theorem step_disposed (token other : Token) (present : Bool) :
    (presence token).step present (.disposed other) = (present && decide (other ≠ token)) := rfl

@[simp] theorem ok_produced (token other : Token) (present : Bool) :
    (presence token).ok present (.produced other) ↔ (other = token → present = false) := Iff.rfl

@[simp] theorem ok_disposed (token other : Token) (present : Bool) :
    (presence token).ok present (.disposed other) ↔ (other = token → present = true) := Iff.rfl

/-- Every value that the trace produces it disposes of, once and later. -/
def DisposedOnce (trace : List (Handling Token)) : Prop :=
  ∀ token, (presence token).Safe false trace ∧ (presence token).run false trace = false

/-- A value that was there before the trace is there after it. -/
def Spares (trace : List (Handling Token)) : Prop :=
  ∀ token, (presence token).Safe true trace → (presence token).run true trace = true

section

variable {first second trace : List (Handling Token)} {token : Token}

/-! ## Traces -/

theorem disposedOnce_nil : DisposedOnce ([] : List (Handling Token)) :=
  fun _ => ⟨trivial, rfl⟩

theorem spares_nil : Spares ([] : List (Handling Token)) :=
  fun _ _ => rfl

theorem Spares.append (firstSpares : Spares first) (secondSpares : Spares second) :
    Spares (first ++ second) := by
  intro token safe
  rw [Monitor.safe_append] at safe
  rw [Monitor.run_append, firstSpares token safe.1]
  rw [firstSpares token safe.1] at safe
  exact secondSpares token safe.2

/-- What the first part leaves behind, a second part that spares it cannot make good. -/
theorem disposedOnce_append (spares : Spares second) :
    DisposedOnce (first ++ second) ↔ DisposedOnce first ∧ DisposedOnce second := by
  constructor
  · intro once
    have each : ∀ token, ((presence token).Safe false first ∧
        (presence token).run false first = false) ∧
          (presence token).Safe false second ∧ (presence token).run false second = false := by
      intro token
      rcases once token with ⟨safe, absent⟩
      rw [Monitor.safe_append] at safe
      rw [Monitor.run_append] at absent
      cases left : (presence token).run false first with
      | true =>
          rw [left] at safe absent
          rw [spares token safe.2] at absent
          cases absent
      | false =>
          rw [left] at safe absent
          exact ⟨⟨safe.1, rfl⟩, safe.2, absent⟩
    exact ⟨fun token => (each token).1, fun token => (each token).2⟩
  · rintro ⟨firstOnce, secondOnce⟩ token
    rw [Monitor.safe_append, Monitor.run_append, (firstOnce token).2]
    exact ⟨⟨(firstOnce token).1, (secondOnce token).1⟩, (secondOnce token).2⟩

/-- A trace does nothing to a value it does not mention. -/
theorem run_of_not_mem (absent : token ∉ trace.map Handling.token) :
    ∀ present, (presence token).Safe present trace ∧
      (presence token).run present trace = present := by
  induction trace with
  | nil => exact fun _ => ⟨trivial, rfl⟩
  | cons event trace induction =>
      intro present
      rw [List.map_cons, List.mem_cons, not_or] at absent
      have other : event.token ≠ token := Ne.symm absent.1
      have unchanged : (presence token).step present event = present := by
        cases event with
        | produced made => simp [show made ≠ token from other]
        | disposed gone => simp [show gone ≠ token from other]
      have allowed : (presence token).ok present event := by
        cases event with
        | produced made => exact fun same => absurd same other
        | disposed gone => exact fun same => absurd same other
      rw [Monitor.safe_cons, Monitor.run_cons, unchanged]
      exact ⟨⟨allowed, (induction absent.2 present).1⟩, (induction absent.2 present).2⟩

theorem not_disposedOnce_produced (token : Token) :
    ¬ DisposedOnce [Handling.produced token] := by
  intro once
  have absent := (once token).2
  simp at absent

theorem spares_produced (token : Token) : Spares [Handling.produced token] := by
  intro other _
  simp

/-- A value that is disposed of after a trace that does not mention it. -/
theorem disposedOnce_within (absent : token ∉ trace.map Handling.token) :
    DisposedOnce (.produced token :: trace ++ [.disposed token]) ↔ DisposedOnce trace := by
  have each : ∀ other, ((presence other).Safe false (.produced token :: trace ++ [.disposed token]) ∧
      (presence other).run false (.produced token :: trace ++ [.disposed token]) = false) ↔
        (presence other).Safe false trace ∧ (presence other).run false trace = false := by
    intro other
    rw [List.cons_append, Monitor.safe_cons, Monitor.run_cons, Monitor.safe_append,
      Monitor.run_append]
    by_cases same : token = other
    · subst same
      have made : (presence token).step false (.produced token) = true := by simp
      have during := run_of_not_mem absent true
      have before := run_of_not_mem absent false
      rw [made, during.2]
      simp [during.1, before.1, before.2]
    · have made : (presence other).step false (.produced token) = false := by simp [same]
      rw [made]
      simp [same]
  exact forall_congr' each

theorem spares_within (token : Token) (spares : Spares trace) :
    Spares (.produced token :: trace ++ [.disposed token]) := by
  intro other safe
  rw [List.cons_append, Monitor.safe_cons, Monitor.safe_append] at safe
  rw [List.cons_append, Monitor.run_cons, Monitor.run_append]
  have different : token ≠ other := by
    intro same
    have impossible := safe.1 same
    cases impossible
  have made : (presence other).step true (.produced token) = true := by simp
  rw [made] at safe ⊢
  rw [spares other safe.2.1]
  simp [different]

end

/-! ## Languages -/

/-- Every path of the language spares what was there. -/
def AllSpare (paths : Language (Handling Token)) : Prop :=
  ∀ path ∈ paths, Spares path

def AllDisposedOnce (paths : Language (Handling Token)) : Prop :=
  ∀ path ∈ paths, DisposedOnce path

section

variable {first second paths : Language (Handling Token)}

theorem allSpare_singleton {path : List (Handling Token)} :
    AllSpare ({path} : Language (Handling Token)) ↔ Spares path := by
  constructor
  · exact fun spare => spare path (Set.mem_singleton path)
  · intro spares other member
    rwa [Set.mem_singleton_iff.mp member]

theorem allDisposedOnce_singleton {path : List (Handling Token)} :
    AllDisposedOnce ({path} : Language (Handling Token)) ↔ DisposedOnce path := by
  constructor
  · exact fun once => once path (Set.mem_singleton path)
  · intro once other member
    rwa [Set.mem_singleton_iff.mp member]

theorem allSpare_one : AllSpare (1 : Language (Handling Token)) := by
  intro path member
  rw [(Language.mem_one path).mp member]
  exact spares_nil

theorem allDisposedOnce_one : AllDisposedOnce (1 : Language (Handling Token)) := by
  intro path member
  rw [(Language.mem_one path).mp member]
  exact disposedOnce_nil

theorem AllSpare.add (firstSpare : AllSpare first) (secondSpare : AllSpare second) :
    AllSpare (first + second) := by
  rintro path (member | member)
  · exact firstSpare path member
  · exact secondSpare path member

theorem allDisposedOnce_add :
    AllDisposedOnce (first + second) ↔ AllDisposedOnce first ∧ AllDisposedOnce second := by
  constructor
  · exact fun once => ⟨fun path member => once path (.inl member),
      fun path member => once path (.inr member)⟩
  · rintro ⟨firstOnce, secondOnce⟩ path (member | member)
    · exact firstOnce path member
    · exact secondOnce path member

theorem AllSpare.mul (firstSpare : AllSpare first) (secondSpare : AllSpare second) :
    AllSpare (first * second) := by
  intro path member
  rcases Language.mem_mul.mp member with ⟨before, beforeMem, after, afterMem, rfl⟩
  exact (firstSpare before beforeMem).append (secondSpare after afterMem)

theorem allDisposedOnce_mul (spare : AllSpare second) (firstFeasible : Monitor.Feasible first)
    (secondFeasible : Monitor.Feasible second) :
    AllDisposedOnce (first * second) ↔ AllDisposedOnce first ∧ AllDisposedOnce second := by
  constructor
  · intro once
    have both : ∀ before ∈ first, ∀ after ∈ second, DisposedOnce before ∧ DisposedOnce after :=
      fun before beforeMem after afterMem => (disposedOnce_append (spare after afterMem)).mp
        (once _ (Language.append_mem_mul beforeMem afterMem))
    rcases firstFeasible with ⟨witness, witnessMem⟩
    rcases secondFeasible with ⟨other, otherMem⟩
    exact ⟨fun before member => (both before member other otherMem).1,
      fun after member => (both witness witnessMem after member).2⟩
  · rintro ⟨firstOnce, secondOnce⟩ path member
    rcases Language.mem_mul.mp member with ⟨before, beforeMem, after, afterMem, rfl⟩
    exact (disposedOnce_append (spare after afterMem)).mpr
      ⟨firstOnce before beforeMem, secondOnce after afterMem⟩

theorem AllSpare.kstar (spare : AllSpare paths) : AllSpare paths∗ := by
  intro path member
  rcases Language.mem_kstar.mp member with ⟨iterations, rfl, each⟩
  induction iterations with
  | nil => exact spares_nil
  | cons iteration iterations induction =>
      have tail := fun other otherMem => each other (List.mem_cons_of_mem _ otherMem)
      rw [List.flatten_cons]
      exact (spare iteration (each iteration List.mem_cons_self)).append
        (induction tail (Language.join_mem_kstar tail))

theorem allDisposedOnce_kstar (spare : AllSpare paths) :
    AllDisposedOnce paths∗ ↔ AllDisposedOnce paths := by
  constructor
  · intro once path member
    apply once
    exact Language.mem_kstar.mpr ⟨[path], (List.flatten_singleton).symm, by simpa using member⟩
  · intro once path member
    rcases Language.mem_kstar.mp member with ⟨iterations, rfl, each⟩
    induction iterations with
    | nil => exact disposedOnce_nil
    | cons iteration iterations induction =>
        have tail := fun other otherMem => each other (List.mem_cons_of_mem _ otherMem)
        have tailMem := Language.join_mem_kstar tail
        rw [List.flatten_cons, disposedOnce_append (spare.kstar _ tailMem)]
        exact ⟨once iteration (each iteration List.mem_cons_self), induction tail tailMem⟩

end

end Handling
