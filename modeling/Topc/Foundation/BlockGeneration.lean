import Mathlib.Data.List.Forall2
import Topc.Foundation.BlockExecution

/-! # Generating blocks

A generator builds code and keeps a state of its own. It compiles a computation when
the code does what the computation does. The rules put generators together in the way
the computations are put together. -/

namespace BasicBlocks

/-! ## Generators -/

def Gen (S E Op L V α : Type) : Type :=
  S × Builder Op L V → Except E (α × (S × Builder Op L V))

namespace Gen

section

variable {S E Op L V α β : Type}

def bind (first : Gen S E Op L V α) (next : α → Gen S E Op L V β) : Gen S E Op L V β :=
  fun start =>
    match first start with
    | .error error => .error error
    | .ok (result, middle) => next result middle

instance : Monad (Gen S E Op L V) where
  pure result start := .ok (result, start)
  bind := bind

theorem bind_eq_ok {first : Gen S E Op L V α} {next : α → Gen S E Op L V β}
    {start finish : S × Builder Op L V} {result : β} :
    (first >>= next) start = .ok (result, finish) ↔
      ∃ value middle, first start = .ok (value, middle) ∧
        next value middle = .ok (result, finish) := by
  change bind first next start = _ ↔ _
  rw [bind]
  cases first start with
  | error error => simp
  | ok built =>
      rcases built with ⟨value, middle⟩
      constructor
      · exact fun rest => ⟨value, middle, rfl, rest⟩
      · rintro ⟨_, _, same, rest⟩
        cases same
        exact rest

/-! ### Steps -/

def throw (error : E) : Gen S E Op L V α := fun _ => .error error

def state : Gen S E Op L V S := fun start => .ok (start.1, start)

def modify (change : S → S) : Gen S E Op L V Unit := fun start => .ok ((), change start.1, start.2)

/-- The operand for what the operation computes. -/
def emit (operation : Op) : Gen S E Op L V (Operand L V) := fun start =>
  .ok (.register start.2.nextRegister, start.1, start.2.append operation)

/-- The label of the first of the new blocks. -/
def newBlocks (count : Nat) : Gen S E Op L V Nat := fun start =>
  .ok (start.2.blocks.length, start.1, start.2.newBlocks count)

def terminate (terminator : Terminator L V) : Gen S E Op L V Unit := fun start =>
  .ok ((), start.1, start.2.terminate terminator)

def setInsertPoint (label : Nat) : Gen S E Op L V Unit := fun start =>
  .ok ((), start.1, start.2.setInsertPoint label)

/-! ### Control flow -/

/-- Go on in a new block if the condition holds, and to the label if not. -/
def gate (condition : Operand L V) (otherwise : Nat) : Gen S E Op L V Unit := do
  let label ← newBlocks 1
  terminate (.condBr condition label otherwise)
  setInsertPoint label

/-- Code that can go to a new block, and what stands in that block. -/
def landing (closed : Nat → Gen S E Op L V Unit) (next : Gen S E Op L V Unit) :
    Gen S E Op L V Unit := do
  let label ← newBlocks 1
  closed label
  setInsertPoint label
  next

/-- A block that code can come back to. -/
def cycle (step : Nat → Gen S E Op L V Unit) : Gen S E Op L V Unit := do
  let header ← newBlocks 1
  terminate (.br header)
  setInsertPoint header
  step header

def enter : Nat → List (Gen S E Op L V Unit) → Gen S E Op L V Unit
  | _, [] => pure ()
  | label, branch :: branches => do
      setInsertPoint label
      branch
      enter (label + 1) branches

/-- A switch to a new block for each branch. -/
def cases (condition : Operand L V) (otherwise : Nat) (branches : List (V × Gen S E Op L V Unit)) :
    Gen S E Op L V Unit := do
  let first ← newBlocks branches.length
  terminate (.switch condition ((branches.map Prod.fst).zipIdx first) otherwise)
  enter first (branches.map Prod.snd)

/-- Two ways that come together again. -/
def branch (condition : Operand L V) (ifTrue ifFalse : Gen S E Op L V Unit) :
    Gen S E Op L V Unit :=
  landing (fun merge => landing (fun otherwise => do
      gate condition otherwise
      ifTrue
      terminate (.br merge)) (do
    ifFalse
    terminate (.br merge))) (pure ())

def loop (condition : Gen S E Op L V (Operand L V)) (body : Gen S E Op L V Unit) :
    Gen S E Op L V Unit :=
  landing (fun exit => cycle fun header => do
    gate (← condition) exit
    body
    terminate (.br header)) (pure ())

/-- Code that never goes on if the condition holds. -/
def trap (condition : Operand L V) (error : Gen S E Op L V Unit) : Gen S E Op L V Unit :=
  landing (fun rest => do
    gate condition rest
    error
    terminate .unreachable) (pure ())

/-! ### Generators that end without an error -/

/-- From such a state the generator ends without an error, in a state of the other kind. -/
def Succeeds (before : S → Prop) (gen : Gen S E Op L V α) (after : S → Prop) : Prop :=
  ∀ start, before start.1 → ∃ result finish, gen start = .ok (result, finish) ∧ after finish.1

namespace Succeeds

variable {before between after : S → Prop}

theorem pure {result : α} :
    Succeeds before (Pure.pure result : Gen S E Op L V α) before :=
  fun start holds => ⟨result, start, rfl, holds⟩

theorem bind {first : Gen S E Op L V α} {next : α → Gen S E Op L V β}
    (isFirst : Succeeds before first between)
    (isNext : ∀ result, Succeeds between (next result) after) :
    Succeeds before (first >>= next) after := by
  intro start holds
  rcases isFirst start holds with ⟨value, middle, first, holds⟩
  rcases isNext value middle holds with ⟨result, finish, rest, holds⟩
  exact ⟨result, finish, bind_eq_ok.mpr ⟨value, middle, first, rest⟩, holds⟩

theorem emit {operation : Op} :
    Succeeds before (Gen.emit operation : Gen S E Op L V (Operand L V)) before :=
  fun _ holds => ⟨_, _, rfl, holds⟩

theorem terminate {terminator : Terminator L V} :
    Succeeds before (Gen.terminate terminator : Gen S E Op L V Unit) before :=
  fun _ holds => ⟨_, _, rfl, holds⟩

theorem newBlocks {count : Nat} :
    Succeeds before (Gen.newBlocks count : Gen S E Op L V Nat) before :=
  fun _ holds => ⟨_, _, rfl, holds⟩

theorem setInsertPoint {label : Nat} :
    Succeeds before (Gen.setInsertPoint label : Gen S E Op L V Unit) before :=
  fun _ holds => ⟨_, _, rfl, holds⟩

theorem landing {closed : Nat → Gen S E Op L V Unit} {next : Gen S E Op L V Unit}
    (isClosed : ∀ label, Succeeds before (closed label) between)
    (isNext : Succeeds between next after) : Succeeds before (Gen.landing closed next) after :=
  newBlocks.bind fun label => (isClosed label).bind fun _ => setInsertPoint.bind fun _ => isNext

theorem cases {condition : Operand L V} {otherwise : Nat}
    {branches : List (V × Gen S E Op L V Unit)}
    (each : ∀ branch ∈ branches, Succeeds before branch.2 before) :
    Succeeds before (Gen.cases condition otherwise branches) before := by
  have enters : ∀ {label : Nat} {gens : List (Gen S E Op L V Unit)},
      (∀ gen ∈ gens, Succeeds before gen before) →
        Succeeds before (Gen.enter label gens) before := by
    intro label gens
    induction gens generalizing label with
    | nil => exact fun _ => pure
    | cons gen gens induction =>
        intro each
        apply setInsertPoint.bind
        intro _
        apply (each gen List.mem_cons_self).bind
        exact fun _ => induction fun other member => each other (List.mem_cons_of_mem _ member)
  apply newBlocks.bind
  intro first
  apply terminate.bind
  intro _
  apply enters
  intro gen member
  rcases List.mem_map.mp member with ⟨branch, isBranch, rfl⟩
  exact each branch isBranch

end Succeeds

/-! ### Entered branches -/

variable {before : S → Prop}

/-- Each branch that was entered stands in a block of its own, and the code has it. -/
structure Entered (before : S → Prop) (first : Nat) (branches : List (Gen S E Op L V Unit))
    (start finish : S × Builder Op L V) : Prop where
  stored : ∀ code, finish.2.Within code → start.2.Within code
  branch : ∀ (index : Nat) (gen : Gen S E Op L V Unit), branches[index]? = some gen →
    ∃ entered left, gen entered = .ok ((), left) ∧ before entered.1 ∧
      entered.2.OpenWith [] ∧ entered.2.insertPoint = first + index ∧
      start.2.nextRegister ≤ entered.2.nextRegister ∧
      ∀ code, finish.2.Within code → left.2.Within code

/-- What a branch builds comes to what was built before. -/
def Builds (before : S → Prop) (gen : Gen S E Op L V Unit) : Prop :=
  ∀ start finish, gen start = .ok ((), finish) → before start.1 → start.2.Open →
    start.2.Extends finish.2 ∧ before finish.1

theorem enter_entered (origin : Builder Op L V) {branches : List (Gen S E Op L V Unit)} :
    ∀ {label : Nat} {start finish : S × Builder Op L V},
      enter label branches start = .ok ((), finish) →
      (∀ gen ∈ branches, Builds before gen) → before start.1 → origin.Extends start.2 →
      origin.blocks.length ≤ label →
      (∀ index < branches.length, start.2.blocks[label + index]? = some ⟨[], none⟩) →
        origin.Extends finish.2 ∧ before finish.1 ∧ Entered before label branches start finish := by
  induction branches with
  | nil =>
      intro label start finish isBuilt _ holds extend _ _
      cases isBuilt
      exact ⟨extend, holds, fun _ within => within, fun _ _ absent => by cases absent⟩
  | cons gen branches induction =>
      intro label start finish isBuilt builds holds extend new fresh
      rcases bind_eq_ok.mp isBuilt with ⟨_, set, isSet, isBuilt⟩
      cases isSet
      rcases bind_eq_ok.mp isBuilt with ⟨_, middle, isGen, isBuilt⟩
      have isOpen := Builder.openWith_of_fresh (fresh 0 (Nat.zero_lt_succ _))
      rcases builds gen List.mem_cons_self _ _ isGen holds ⟨[], isOpen⟩ with ⟨extend₁, holds₁⟩
      have laterFresh : ∀ index < branches.length,
          middle.2.blocks[label + 1 + index]? = some ⟨[], none⟩ := by
        intro index bound
        have isFresh := fresh (index + 1) (Nat.succ_lt_succ bound)
        rw [Nat.add_right_comm, Nat.add_assoc]
        apply (extend₁.kept _ (List.getElem?_eq_some_iff.mp isFresh).1 _).trans isFresh
        exact Nat.ne_of_gt (Nat.lt_add_of_pos_right (Nat.zero_lt_succ _))
      rcases induction isBuilt (fun other member => builds other (List.mem_cons_of_mem _ member))
        holds₁ ((extend.setInsertPoint new).trans extend₁) (Nat.le_succ_of_le new) laterFresh with
        ⟨extend₂, holds₂, entered⟩
      refine ⟨extend₂, holds₂, fun code within => extend₁.within _ (entered.stored code within), ?_⟩
      intro index other found
      cases index with
      | zero =>
          cases found
          exact ⟨_, middle, isGen, holds, isOpen, rfl, Nat.le_refl _, entered.stored⟩
      | succ index =>
          rcases entered.branch index other found with ⟨start', left, isOther, holds', open', at',
            registers, within'⟩
          refine ⟨start', left, isOther, holds', open', ?_,
            Nat.le_trans extend₁.registers registers, within'⟩
          rw [at', Nat.add_right_comm, Nat.add_assoc]

end

end Gen

/-- The switch goes to the block of the branch that the value selects. -/
theorem find?_zipIdx {V U β : Type} [DecidableEq V] {branches : List (V × β)}
    {entries : List (V × U)}
    {related : V × β → V × U → Prop} (same : ∀ branch entry, related branch entry →
      branch.1 = entry.1) (each : List.Forall₂ related branches entries) (value : V) :
    ∀ first : Nat,
      (entries.find? (fun entry => entry.1 = value) = none ∧
        ((branches.map Prod.fst).zipIdx first).find? (fun entry => entry.1 = value) = none) ∨
      ∃ index branch entry, branches[index]? = some branch ∧ related branch entry ∧
        entries.find? (fun entry => entry.1 = value) = some entry ∧
        ((branches.map Prod.fst).zipIdx first).find? (fun entry => entry.1 = value) =
          some (value, first + index) := by
  induction each with
  | nil => exact fun _ => .inl ⟨rfl, rfl⟩
  | @cons branch entry branches entries isRelated _ induction =>
      intro first
      by_cases isValue : entry.1 = value
      · refine .inr ⟨0, branch, entry, rfl, isRelated, ?_, ?_⟩
        · rw [List.find?_cons_of_pos (by simpa using isValue)]
        · rw [List.map_cons, List.zipIdx_cons, same _ _ isRelated, isValue,
            List.find?_cons_of_pos (by simp)]
          rfl
      · have skip : ((branch.1, first) :: (branches.map Prod.fst).zipIdx (first + 1)).find?
            (fun entry => entry.1 = value) =
              ((branches.map Prod.fst).zipIdx (first + 1)).find? fun entry => entry.1 = value := by
          apply List.find?_cons_of_neg
          rw [same _ _ isRelated]
          simpa using isValue
        rw [List.find?_cons_of_neg (by simpa using isValue), List.map_cons, List.zipIdx_cons, skip]
        rcases induction (first + 1) with absent | ⟨index, other, found, isBranch, related, finds,
          goes⟩
        · exact .inl absent
        · refine .inr ⟨index + 1, other, found, isBranch, related, finds, ?_⟩
          rw [goes, Nat.add_right_comm, Nat.add_assoc]

/-! ## What is known of the registers -/

/-- A fact about registers numbered so far. Numbering more does not change it. -/
structure Knowledge (V : Type) where
  holds : Nat → (Nat → V) → Prop
  stable : ∀ {bound later : Nat} {registers registers' : Nat → V}, holds bound registers →
    bound ≤ later → AgreeBelow bound registers registers' → holds later registers'

namespace Knowledge

variable {V : Type}

def none : Knowledge V where
  holds _ _ := True
  stable _ _ _ := trivial

/-- What holds nowhere. -/
def never : Knowledge V where
  holds _ _ := False
  stable impossible _ _ := impossible

def and (left right : Knowledge V) : Knowledge V where
  holds bound registers := left.holds bound registers ∧ right.holds bound registers
  stable holds le agree := ⟨left.stable holds.1 le agree, right.stable holds.2 le agree⟩

end Knowledge

section

variable {L V : Type} (locals : L → V)

def Operand.Shows (operand : Operand L V) (value : V) : Knowledge V where
  holds bound registers := operand.Below bound ∧ valueOf locals registers operand = value
  stable holds le agree := ⟨holds.1.mono le, (agree.valueOf holds.1 locals).trans holds.2⟩

/-- The operands have the values, one by one. -/
def Operand.ShowAll (operands : List (Operand L V)) (values : List V) : Knowledge V where
  holds bound registers := (∀ operand ∈ operands, operand.Below bound) ∧
    operands.map (valueOf locals registers) = values
  stable holds le agree := by
    refine ⟨fun operand member => (holds.1 operand member).mono le, ?_⟩
    rw [← holds.2]
    apply List.map_congr_left
    exact fun operand member => agree.valueOf (holds.1 operand member) locals

end

/-! ## Compiled computations -/

/-- Where control stands: at a label, or else at the point reached. -/
def stopAt (point : Nat × Nat) : Option Nat → Nat × Nat
  | none => point
  | some label => (label, 0)

section

variable {S E Op L V W F U X α β : Type} [DecidableEq V] [Inhabited V]
  (machine : Machine Op L V W F) (code : Code Op L V) (locals : L → V)

/-- Code that contains what the generator builds does what the computation does. With a
value for which the computation leaves, control goes to a label; with another one it
goes on where building goes on. -/
structure Compiles (given : Knowledge V) (before : S → Prop) (gen : Gen S E Op L V α)
    (run : Run W U) (leave : U → Option Nat) (gives : α → U → Knowledge V) (after : S → Prop) :
    Prop where
  built : ∀ {start finish : S × Builder Op L V} {result : α}, gen start = .ok (result, finish) →
    before start.1 → start.2.Open → start.2.Extends finish.2 ∧ after finish.1 ∧
      ((∃ value, leave value = none) → finish.2.Open)
  runs : ∀ {start finish : S × Builder Op L V} {result : α}, gen start = .ok (result, finish) →
    before start.1 → start.2.Open → finish.2.Within code →
      ∀ (registers : Nat → V) (world : W), given.holds start.2.nextRegister registers →
        Realizes machine code locals start.2.point registers world run
          (fun value => stopAt finish.2.point (leave value)) fun value registers' =>
            AgreeBelow start.2.nextRegister registers registers' ∧
              (leave value = none → (gives result value).holds finish.2.nextRegister registers')

/-- The computation does not leave. -/
def stay (_ : U) : Option Nat := none

variable {machine code locals} {given : Knowledge V} {before between after : S → Prop}

namespace Compiles

section

variable {gen : Gen S E Op L V α} {run : Run W U} {leave : U → Option Nat}
  {gives : α → U → Knowledge V}

theorem congr {other : Run W U}
    (compiles : Compiles machine code locals given before gen run leave gives after)
    (same : run = other) : Compiles machine code locals given before gen other leave gives after :=
  same ▸ compiles

/-- Less is known before, more after. -/
theorem mono {given' : Knowledge V} {gives' : α → U → Knowledge V}
    (compiles : Compiles machine code locals given before gen run leave gives after)
    (weaker : ∀ bound registers, given'.holds bound registers → given.holds bound registers)
    (stronger : ∀ result value bound registers, (gives result value).holds bound registers →
      (gives' result value).holds bound registers) :
    Compiles machine code locals given' before gen run leave gives' after where
  built := compiles.built
  runs isBuilt holds isOpen within registers world known := by
    apply (compiles.runs isBuilt holds isOpen within registers world (weaker _ _ known)).mono
    rintro value registers' ⟨agree, gives⟩
    exact ⟨agree, fun stays => stronger _ _ _ _ (gives stays)⟩

/-- Where the computation has no outcome, or control cannot come, the code does anything. -/
theorem undefined {given' : Knowledge V} {run' : Run W X} {leave' : X → Option Nat}
    {gives' : α → X → Knowledge V}
    (compiles : Compiles machine code locals given before gen run leave gives after)
    (stays : (∃ value, leave' value = none) → ∃ value, leave value = none)
    (stuck : ∀ bound registers world, given'.holds bound registers → run' world = none) :
    Compiles machine code locals given' before gen run' leave' gives' after where
  built isBuilt holds isOpen := by
    rcases compiles.built isBuilt holds isOpen with ⟨extend, holds', isOpen'⟩
    exact ⟨extend, holds', fun goesOn => isOpen' (stays goesOn)⟩
  runs _ _ _ _ registers world known := Realizes.stuck (stuck _ registers world known)

theorem pure {result : α} {value : U} (stays : leave value = none)
    (known : ∀ bound registers, given.holds bound registers →
      (gives result value).holds bound registers) :
    Compiles machine code locals given before (Pure.pure result : Gen S E Op L V α)
      (Pure.pure value) leave gives before where
  built isBuilt holds isOpen := by
    cases isBuilt
    exact ⟨.refl, holds, fun _ => isOpen⟩
  runs isBuilt _ _ _ registers world holds := by
    cases isBuilt
    apply Realizes.pure
    · rw [stays]
      rfl
    · exact ⟨.refl _ _, fun _ => known _ _ holds⟩

/-- Another name for the values. -/
theorem map {leave' : X → Option Nat} {gives' : α → X → Knowledge V} {rename : U → X}
    (compiles : Compiles machine code locals given before gen run leave gives after)
    (leaves : ∀ value, leave' (rename value) = leave value)
    (stays : (∃ value, leave' value = none) → ∃ value, leave value = none)
    (known : ∀ result value bound registers, (gives result value).holds bound registers →
      (gives' result (rename value)).holds bound registers) :
    Compiles machine code locals given before gen (run >>= fun value => return rename value) leave'
      gives' after where
  built isBuilt holds isOpen := by
    rcases compiles.built isBuilt holds isOpen with ⟨extend, holds', isOpen'⟩
    exact ⟨extend, holds', fun goesOn => isOpen' (stays goesOn)⟩
  runs isBuilt holds isOpen within registers world given := by
    apply (compiles.runs isBuilt holds isOpen within registers world given).bind
    rintro value registers' world' ⟨agree, gives⟩
    apply Realizes.pure
    · rw [leaves]
    · refine ⟨agree, fun stays => known _ _ _ _ (gives ?_)⟩
      rw [← leaves]
      exact stays

theorem done : Compiles machine code locals given before
    (Pure.pure () : Gen S E Op L V Unit) (Pure.pure () : Run W Unit) stay
    (fun _ _ => Knowledge.none) before :=
  pure rfl fun _ _ _ => trivial

section

variable {next : α → Gen S E Op L V β} {rest : U → Run W X} {leave' : X → Option Nat}
  {gives' : β → X → Knowledge V}

/-- What comes next stands where the first computation goes on. -/
theorem bindLeaving (left : Compiles machine code locals given before gen run leave gives between)
    (stays : ∃ value, leave value = none)
    (right : ∀ result value, leave value = none →
      Compiles machine code locals (given.and (gives result value)) between (next result)
        (rest value) leave' gives' after)
    (leaves : ∀ value label, leave value = some label →
      ∃ value', rest value = Pure.pure value' ∧ leave' value' = some label) :
    Compiles machine code locals given before (gen >>= next) (run >>= rest) leave' gives'
      after where
  built isBuilt holds isOpen := by
    rcases Gen.bind_eq_ok.mp isBuilt with ⟨result, middle, first, second⟩
    rcases left.built first holds isOpen with ⟨extends₁, holds₁, open₁⟩
    rcases stays with ⟨value, stays⟩
    rcases (right result value stays).built second holds₁ (open₁ ⟨value, stays⟩) with
      ⟨extends₂, holds₂, open₂⟩
    exact ⟨extends₁.trans extends₂, holds₂, open₂⟩
  runs {start finish _} isBuilt holds isOpen within registers world known := by
    rcases Gen.bind_eq_ok.mp isBuilt with ⟨result, middle, first, second⟩
    rcases left.built first holds isOpen with ⟨extends₁, holds₁, open₁⟩
    have extends₂ : middle.2.Extends finish.2 := by
      rcases stays with ⟨value, stays⟩
      exact ((right result value stays).built second holds₁ (open₁ ⟨value, stays⟩)).1
    apply (left.runs first holds isOpen (extends₂.within _ within) registers world known).bind
    rintro value registers₁ world₁ ⟨agree, gives⟩
    cases goes : leave value with
    | none =>
        have known₁ := given.stable known extends₁.registers agree
        apply ((right result value goes).runs second holds₁ (open₁ ⟨value, goes⟩) within registers₁
          world₁ ⟨known₁, gives goes⟩).mono
        rintro value' registers₂ ⟨agree₂, gives₂⟩
        exact ⟨agree.trans agree₂ extends₁.registers, gives₂⟩
    | some label =>
        rcases leaves value label goes with ⟨value', same, goes'⟩
        rw [same]
        apply Realizes.pure
        · rw [goes']
          rfl
        · refine ⟨agree, fun stays => ?_⟩
          rw [goes'] at stays
          cases stays

theorem bind [Nonempty U]
    (left : Compiles machine code locals given before gen run stay gives between)
    (right : ∀ result value, Compiles machine code locals (given.and (gives result value)) between
      (next result) (rest value) leave' gives' after) :
    Compiles machine code locals given before (gen >>= next) (run >>= rest) leave' gives' after :=
  left.bindLeaving (Nonempty.elim ‹_› fun value => ⟨value, rfl⟩)
    (fun result value _ => right result value) (fun _ _ leaves => by cases leaves)

end

end

/-! ### Steps -/

section

variable {run : Run W U} {leave : U → Option Nat} {gives : α → U → Knowledge V}

theorem throw {error : E} :
    Compiles machine code locals given before (Gen.throw error : Gen S E Op L V α) run leave gives
      after where
  built impossible := by cases impossible
  runs impossible := by cases impossible

/-- What the generator does may depend on its state. -/
theorem state {next : S → Gen S E Op L V α}
    (each : ∀ state, before state →
      Compiles machine code locals given (fun other => other = state) (next state) run leave gives
        after) :
    Compiles machine code locals given before (Gen.state >>= next) run leave gives after where
  built isBuilt holds isOpen := by
    rcases Gen.bind_eq_ok.mp isBuilt with ⟨state, middle, first, second⟩
    cases first
    exact (each _ holds).built second rfl isOpen
  runs isBuilt holds isOpen within registers world known := by
    rcases Gen.bind_eq_ok.mp isBuilt with ⟨state, middle, first, second⟩
    cases first
    exact (each _ holds).runs second rfl isOpen within registers world known

theorem modify {change : S → S} (changes : ∀ state, before state → after (change state)) :
    Compiles machine code locals given before (Gen.modify change : Gen S E Op L V Unit)
      (Pure.pure () : Run W Unit) stay (fun _ _ => Knowledge.none) after where
  built isBuilt holds isOpen := by
    cases isBuilt
    exact ⟨.refl, changes _ holds, fun _ => isOpen⟩
  runs isBuilt _ _ _ registers world _ := by
    cases isBuilt
    apply Realizes.pure
    · rfl
    · exact ⟨.refl _ _, fun _ => trivial⟩

theorem emit {operation : Op} {run : Run W V}
    (denotes : ∀ bound registers world outcome, given.holds bound registers →
      run world = some outcome → Fuel.Converges (fun fuel =>
        machine.denote (machine.call fuel) (valueOf locals registers) operation world) outcome) :
    Compiles machine code locals given before
      (Gen.emit operation : Gen S E Op L V (Operand L V)) run stay
      (fun operand value => operand.Shows locals value) before where
  built isBuilt holds isOpen := by
    cases isBuilt
    rcases isOpen with ⟨instructions, isOpen⟩
    exact ⟨Builder.append_extends isOpen operation, holds, fun _ =>
      ⟨_, Builder.append_open isOpen operation⟩⟩
  runs isBuilt _ isOpen within registers world known := by
    cases isBuilt
    apply (Realizes.append isOpen within fun outcome => denotes _ registers world outcome known).mono
    rintro value registers' ⟨agree, shows⟩
    exact ⟨agree, fun _ => ⟨Nat.lt_succ_self _, shows⟩⟩

/-- An operation that only computes. What its operand shows may stand for another value. -/
theorem compute {operation : Op} {value : V} {meaning : U}
    {gives : Operand L V → U → Knowledge V}
    (denotes : ∀ bound registers call world, given.holds bound registers →
      machine.denote call (valueOf locals registers) operation world = some (.returned value world))
    (shows : ∀ operand bound registers, (operand.Shows locals value).holds bound registers →
      (gives operand meaning).holds bound registers) :
    Compiles machine code locals given before
      (Gen.emit operation : Gen S E Op L V (Operand L V)) (Pure.pure meaning : Run W U) stay gives
      before where
  built isBuilt holds isOpen := by
    cases isBuilt
    rcases isOpen with ⟨instructions, isOpen⟩
    exact ⟨Builder.append_extends isOpen operation, holds, fun _ =>
      ⟨_, Builder.append_open isOpen operation⟩⟩
  runs {start _ _} isBuilt _ isOpen within registers world known := by
    cases isBuilt
    have computes : Realizes machine code locals start.2.point registers world
        (Pure.pure value : Run W V) (fun _ => (start.2.append operation).point)
        fun value registers' => AgreeBelow start.2.nextRegister registers registers' ∧
          registers' start.2.nextRegister = value := by
      apply Realizes.append isOpen within
      intro outcome ran
      cases ran
      exact ⟨0, fun fuel _ => denotes _ registers (machine.call fuel) world known⟩
    rcases computes.returned value world rfl with ⟨registers', ⟨agree, stands⟩, continues⟩
    constructor
    · intro meaning' world' ran
      cases ran
      exact ⟨registers', ⟨agree, fun _ => shows _ _ _ ⟨Nat.lt_succ_self _, stands⟩⟩, continues⟩
    · intro world' ran
      cases ran

theorem computeThen {operation : Op} {value : V} {next : Operand L V → Gen S E Op L V α}
    (denotes : ∀ bound registers call world, given.holds bound registers →
      machine.denote call (valueOf locals registers) operation world = some (.returned value world))
    (right : ∀ operand, Compiles machine code locals (given.and (operand.Shows locals value)) before
      (next operand) run leave gives after) :
    Compiles machine code locals given before (Gen.emit operation >>= next) run leave gives
      after := by
  change Compiles machine code locals given before _ (Pure.pure () >>= fun _ => run) _ _ _
  have left : Compiles machine code locals given before
      (Gen.emit operation : Gen S E Op L V (Operand L V)) (Pure.pure () : Run W Unit) stay
      (fun operand _ => operand.Shows locals value) before :=
    compute denotes fun _ _ _ shows => shows
  exact left.bind fun operand _ => right operand

end

/-! ### Leaving -/

/-- Control goes to the label with false, and on with true. -/
def leaveUnless (label : Nat) (holds : Bool) : Option Nat :=
  if holds then none else some label

section

variable {leave : U → Option Nat} {gives : α → U → Knowledge V}

theorem goTo {target : Nat} {value : U} {leave : U → Option Nat}
    {gives : Unit → U → Knowledge V} (goes : leave value = some target)
    (total : ∀ value, leave value ≠ none) :
    Compiles machine code locals given before
      (Gen.terminate (.br target) : Gen S E Op L V Unit) (Pure.pure value : Run W U) leave gives
      before where
  built isBuilt holds isOpen := by
    cases isBuilt
    rcases isOpen with ⟨instructions, isOpen⟩
    exact ⟨Builder.terminate_extends isOpen _, holds, fun ⟨other, stays⟩ =>
      absurd stays (total other)⟩
  runs isBuilt _ isOpen within registers world _ := by
    cases isBuilt
    rcases isOpen with ⟨instructions, isOpen⟩
    have stored := Builder.terminate_at isOpen within
    rw [isOpen.point]
    apply Realizes.after_jump (fun outcome ended => Ends.of_goto stored rfl ended)
    apply Realizes.pure
    · rw [goes]
      rfl
    · refine ⟨.refl _ _, fun stays => ?_⟩
      exact absurd stays (total value)

/-- Control that cannot come here does anything. -/
theorem unreachable {run : Run W U} {gives : Unit → U → Knowledge V}
    (stuck : ∀ world, run world = none) (total : ∀ value, leave value ≠ none) :
    Compiles machine code locals given before
      (Gen.terminate .unreachable : Gen S E Op L V Unit) run leave gives before where
  built isBuilt holds isOpen := by
    cases isBuilt
    rcases isOpen with ⟨instructions, isOpen⟩
    exact ⟨Builder.terminate_extends isOpen _, holds, fun ⟨other, stays⟩ =>
      absurd stays (total other)⟩
  runs _ _ _ _ _ world _ := Realizes.stuck (stuck world)

theorem gate {condition : Operand L V} {otherwise : Nat} {holds : Bool}
    (shows : ∀ bound registers, given.holds bound registers →
      machine.truth (valueOf locals registers condition) = holds) :
    Compiles machine code locals given before
      (Gen.gate condition otherwise : Gen S E Op L V Unit) (Pure.pure holds : Run W Bool)
      (leaveUnless otherwise) (fun _ _ => Knowledge.none) before where
  built {start _ _} isBuilt holds isOpen := by
    cases isBuilt
    rcases isOpen with ⟨instructions, isOpen⟩
    have fresh := Builder.fork_first isOpen (.condBr condition start.2.blocks.length otherwise)
    exact ⟨(Builder.fork_extends isOpen _).setInsertPoint (Nat.le_refl _), holds, fun _ =>
      ⟨[], fresh⟩⟩
  runs {start _ _} isBuilt _ isOpen within registers world known := by
    cases isBuilt
    rcases isOpen with ⟨instructions, isOpen⟩
    have stored := Builder.fork_at isOpen within
    have fresh := Builder.fork_first isOpen (.condBr condition start.2.blocks.length otherwise)
    rw [isOpen.point]
    cases holds with
    | true =>
        have goes : Terminator.next machine.truth (valueOf locals registers)
            (.condBr condition start.2.blocks.length otherwise) =
              some (.inl start.2.blocks.length) := by
          rw [Terminator.next, shows _ _ known]
          rfl
        apply Realizes.after_jump (fun outcome ended => Ends.of_goto stored goes ended)
        apply Realizes.pure
        · exact (Builder.openWith_of_fresh fresh).point
        · exact ⟨.refl _ _, fun _ => trivial⟩
    | false =>
        have goes : Terminator.next machine.truth (valueOf locals registers)
            (.condBr condition start.2.blocks.length otherwise) = some (.inl otherwise) := by
          rw [Terminator.next, shows _ _ known]
          rfl
        apply Realizes.after_jump (fun outcome ended => Ends.of_goto stored goes ended)
        apply Realizes.pure
        · rfl
        · exact ⟨.refl _ _, fun _ => trivial⟩

/-- What comes next is for the value that stays, and leaves for the same label. -/
theorem andThen {run rest : Run W Bool} {gen : Gen S E Op L V Unit} {next : Gen S E Op L V Unit}
    {gives gives' : Unit → Bool → Knowledge V} {otherwise : Nat}
    (left : Compiles machine code locals given before gen run (leaveUnless otherwise) gives between)
    (right : Compiles machine code locals given between next rest (leaveUnless otherwise) gives'
      after) :
    Compiles machine code locals given before (do gen; next)
      (do if ← run then rest else return false) (leaveUnless otherwise) gives' after := by
  apply left.bindLeaving ⟨true, rfl⟩
  · intro _ passed stays
    cases passed with
    | false => cases stays
    | true => exact right.mono (fun _ _ known => known.1) fun _ _ _ _ known => known
  · intro passed label leaves
    cases passed with
    | false =>
        cases leaves
        exact ⟨false, rfl, rfl⟩
    | true => cases leaves

/-- Go on if the condition holds. -/
theorem gated {condition : Operand L V} {holds : Bool} {otherwise : Nat}
    (shows : ∀ bound registers, given.holds bound registers →
      machine.truth (valueOf locals registers condition) = holds)
    {next : Gen S E Op L V Unit} {rest : Run W Bool} {gives : Unit → Bool → Knowledge V}
    (right : Compiles machine code locals given before next rest (leaveUnless otherwise) gives
      after) :
    Compiles machine code locals given before (do Gen.gate condition otherwise; next)
      (if holds then rest else return false) (leaveUnless otherwise) gives after :=
  (gate shows).andThen right

end

/-! ### Coming together -/

section

variable {run : Run W U} {leave : Nat → U → Option Nat} {runNext : Run W X}
  {leave' : X → Option Nat} {closed : Nat → Gen S E Op L V Unit} {next : Gen S E Op L V Unit}
  {gives : Unit → U → Knowledge V}

/-- A value without a result for the whole makes control go to the new block. -/
theorem landing (lands : U → Option X)
    (left : ∀ label, Compiles machine code locals given before (closed label) run (leave label)
      gives between)
    (right : Compiles machine code locals given between next runNext leave'
      (fun _ _ => Knowledge.none) after)
    (goes : ∀ label value, lands value = none → leave label value = some label)
    (leaves : ∀ label value value', lands value = some value' →
      leave label value = leave' value' ∧ leave' value' ≠ none) :
    Compiles machine code locals given before (Gen.landing closed next)
      (run >>= fun value => ((lands value).map Pure.pure).getD runNext) leave'
      (fun _ _ => Knowledge.none) after where
  built {start finish result} isBuilt holds isOpen := by
    rcases Gen.bind_eq_ok.mp isBuilt with ⟨label, first, isFirst, isBuilt⟩
    cases isFirst
    rcases Gen.bind_eq_ok.mp isBuilt with ⟨_, middle, isClosed, isBuilt⟩
    rcases isOpen with ⟨instructions, isOpen⟩
    rcases (left _).built isClosed holds ⟨_, Builder.newBlocks_open isOpen 1⟩ with
      ⟨extends₁, holds₁, _⟩
    have fresh := Builder.newBlocks_kept isOpen extends₁
    rcases right.built isBuilt holds₁ ⟨[], fresh⟩ with ⟨extends₂, holds₂, open₂⟩
    exact ⟨((Builder.newBlocks_extends.trans extends₁).setInsertPoint (Nat.le_refl _)).trans
      extends₂, holds₂, open₂⟩
  runs {start finish result} isBuilt holds isOpen within registers world known := by
    rcases Gen.bind_eq_ok.mp isBuilt with ⟨label, first, isFirst, isBuilt⟩
    cases isFirst
    rcases Gen.bind_eq_ok.mp isBuilt with ⟨_, middle, isClosed, isBuilt⟩
    rcases isOpen with ⟨instructions, isOpen⟩
    have isOpen₁ := Builder.newBlocks_open isOpen 1
    rcases (left _).built isClosed holds ⟨_, isOpen₁⟩ with ⟨extends₁, holds₁, _⟩
    have fresh := Builder.newBlocks_kept isOpen extends₁
    have extends₂ := (right.built isBuilt holds₁ ⟨[], fresh⟩).1
    have runs := (left _).runs isClosed holds ⟨_, isOpen₁⟩ (extends₂.within _ within) registers
      world known
    rw [isOpen₁.point] at runs
    rw [isOpen.point]
    apply runs.bind
    rintro value registers₁ world₁ ⟨agree, _⟩
    cases landed : lands value with
    | none =>
        rw [goes _ _ landed]
        have runs₂ := right.runs isBuilt holds₁ ⟨[], fresh⟩ within registers₁ world₁
          (given.stable known extends₁.registers agree)
        rw [(Builder.openWith_of_fresh fresh).point] at runs₂
        apply runs₂.mono
        rintro value' registers₂ ⟨agree₂, gives₂⟩
        exact ⟨agree.trans agree₂ extends₁.registers, gives₂⟩
    | some value' =>
        rcases leaves start.2.blocks.length value value' landed with ⟨same, isLeft⟩
        apply Realizes.pure
        · rw [same]
          cases goes : leave' value' with
          | none => exact absurd goes isLeft
          | some label => rfl
        · exact ⟨agree, fun _ => trivial⟩

end

section

variable {leave : X → Option Nat} {closed : Nat → Gen S E Op L V Unit}
  {next : Gen S E Op L V Unit} {rest : Run W X}

/-- Where the computation leaves in any case, the code goes on in the new block. -/
theorem meet {run : Run W U} {gives : Unit → U → Knowledge V}
    (left : ∀ label, Compiles machine code locals given before (closed label) run
      (fun _ => some label) gives between)
    (right : Compiles machine code locals given between next rest leave
      (fun _ _ => Knowledge.none) after) :
    Compiles machine code locals given before (Gen.landing closed next) (run >>= fun _ => rest)
      leave (fun _ _ => Knowledge.none) after := by
  apply landing (fun _ => none) left right
  · exact fun _ _ _ => rfl
  · intro _ _ _ impossible
    cases impossible

/-- The new block is for the computation that has not passed. -/
theorem fallThrough {run : Run W Bool} {gives : Unit → Bool → Knowledge V} {target : Nat}
    {reached : X} (goes : leave reached = some target)
    (left : ∀ label, Compiles machine code locals given before (closed label) run
      (fun passed => some (if passed then target else label)) gives between)
    (right : Compiles machine code locals given between next rest leave
      (fun _ _ => Knowledge.none) after) :
    Compiles machine code locals given before (Gen.landing closed next)
      (run >>= fun passed => if passed then return reached else rest) leave
      (fun _ _ => Knowledge.none) after := by
  have landed := landing (fun passed => if passed then some reached else none) left right
    (fun label passed lands => by
      cases passed with
      | true => cases lands
      | false => rfl)
    (fun label passed value lands => by
      cases passed with
      | true =>
          cases lands
          rw [goes]
          exact ⟨rfl, Option.some_ne_none _⟩
      | false => cases lands)
  apply landed.congr
  apply congrArg (run >>= ·)
  funext passed
  cases passed <;> rfl

end

/-! ### Coming back -/

section

variable {step : Nat → Gen S E Op L V Unit} {run : Run W (Option U)} {leave : U → Option Nat}
  {gives : Unit → Option U → Knowledge V}

/-- Control goes back to the label without a result. -/
def orBack (header : Nat) (leave : U → Option Nat) : Option U → Option Nat
  | none => some header
  | some value => leave value

theorem cycle
    (each : ∀ header, Compiles machine code locals given before (step header) run
      (orBack header leave) gives after) (total : ∀ value, leave value ≠ none) (fuel : Nat) :
    Compiles machine code locals given before (Gen.cycle step) (Run.iterate run fuel) leave
      (fun _ _ => Knowledge.none) after where
  built {start finish result} isBuilt holds isOpen := by
    rcases Gen.bind_eq_ok.mp isBuilt with ⟨header, first, isFirst, isBuilt⟩
    cases isFirst
    rcases isOpen with ⟨instructions, isOpen⟩
    have fresh := Builder.fork_first isOpen (.br start.2.blocks.length)
    rcases (each _).built isBuilt holds ⟨[], fresh⟩ with ⟨extend, holds', _⟩
    exact ⟨((Builder.fork_extends isOpen _).setInsertPoint (Nat.le_refl _)).trans extend, holds',
      fun ⟨value, stays⟩ => absurd stays (total value)⟩
  runs {start finish result} isBuilt holds isOpen within registers world known := by
    rcases Gen.bind_eq_ok.mp isBuilt with ⟨header, first, isFirst, isBuilt⟩
    cases isFirst
    rcases isOpen with ⟨instructions, isOpen⟩
    have fresh := Builder.fork_first isOpen (.br start.2.blocks.length)
    have isOpen₁ := Builder.openWith_of_fresh fresh
    have extend := ((each _).built isBuilt holds ⟨[], fresh⟩).1
    have stored := Builder.fork_at isOpen (extend.within _ within)
    rw [isOpen.point]
    apply Realizes.after_jump (fun outcome ended => Ends.of_goto stored rfl ended)
    induction fuel generalizing registers world with
    | zero => exact Realizes.stuck rfl
    | succ fuel induction =>
        have runs := (each _).runs isBuilt holds ⟨[], fresh⟩ within registers world known
        rw [isOpen₁.point] at runs
        apply runs.bind
        rintro outcome registers₁ world₁ ⟨agree, _⟩
        cases outcome with
        | none =>
            have known₁ := given.stable known (Nat.le_refl _) agree
            apply (induction registers₁ world₁ known₁).mono
            rintro value registers₂ ⟨agree₂, gives₂⟩
            exact ⟨agree.trans agree₂ (Nat.le_refl _), gives₂⟩
        | some value =>
            apply Realizes.pure
            · cases goes : leave value with
              | none => exact absurd goes (total value)
              | some label => rw [orBack, goes]
            · exact ⟨agree, fun _ => trivial⟩

end

/-! ### Switches -/

section

variable {branches : List (V × Gen S E Op L V Unit)} {entries : List (V × Run W U)}
  {leave : U → Option Nat} {gives : Unit → U → Knowledge V}
  (each : List.Forall₂ (fun branch entry => branch.1 = entry.1 ∧
    Compiles machine code locals given before branch.2 entry.2 leave gives before) branches entries)

include each

theorem builds_branches : ∀ gen ∈ branches.map Prod.snd, Gen.Builds before gen := by
  induction each with
  | nil =>
      intro gen member
      cases member
  | cons related _ induction =>
      intro gen member
      rcases List.mem_cons.mp member with rfl | later
      · intro start finish isBuilt holds isOpen
        rcases related.2.built isBuilt holds isOpen with ⟨extend, holds', _⟩
        exact ⟨extend, holds'⟩
      · exact induction gen later

theorem cases {condition : Operand L V} {value : V} {otherwise : Nat} {fallthrough : U}
    (shows : ∀ bound registers, given.holds bound registers →
      valueOf locals registers condition = value)
    (total : ∀ value, leave value ≠ none) (falls : leave fallthrough = some otherwise) :
    Compiles machine code locals given before (Gen.cases condition otherwise branches)
      (Run.select entries value fallthrough) leave (fun _ _ => Knowledge.none) before where
  built {start finish result} isBuilt holds isOpen := by
    rcases Gen.bind_eq_ok.mp isBuilt with ⟨first, _, isFirst, isBuilt⟩
    cases isFirst
    rcases isOpen with ⟨instructions, isOpen⟩
    have entered := Gen.enter_entered start.2 isBuilt (builds_branches each) holds
      (Builder.fork_extends isOpen _) (Nat.le_refl _) fun index bound => by
        rw [List.length_map] at bound
        exact Builder.fork_fresh isOpen _ bound
    exact ⟨entered.1, entered.2.1, fun ⟨other, stays⟩ => absurd stays (total other)⟩
  runs {start finish result} isBuilt holds isOpen within registers world known := by
    rcases Gen.bind_eq_ok.mp isBuilt with ⟨first, _, isFirst, isBuilt⟩
    cases isFirst
    rcases isOpen with ⟨instructions, isOpen⟩
    have entered := (Gen.enter_entered start.2 isBuilt (builds_branches each) holds
      (Builder.fork_extends isOpen _) (Nat.le_refl _) fun index bound => by
        rw [List.length_map] at bound
        exact Builder.fork_fresh isOpen _ bound).2.2
    have stored := Builder.fork_at isOpen (entered.stored _ within)
    rw [isOpen.point]
    rcases find?_zipIdx (fun _ _ related => related.1) each value start.2.blocks.length with
      ⟨absent, goes⟩ | ⟨index, branch, entry, found, ⟨_, compiles⟩, finds, goes⟩
    · have target : Terminator.next machine.truth (valueOf locals registers)
          (.switch condition ((branches.map Prod.fst).zipIdx start.2.blocks.length) otherwise) =
            some (.inl otherwise) := by
        rw [Terminator.next, shows _ _ known, goes]
        rfl
      rw [Run.select, absent]
      apply Realizes.after_jump (fun outcome ended => Ends.of_goto stored target ended)
      apply Realizes.pure
      · rw [falls]
        rfl
      · exact ⟨.refl _ _, fun stays => absurd stays (total _)⟩
    · have target : Terminator.next machine.truth (valueOf locals registers)
          (.switch condition ((branches.map Prod.fst).zipIdx start.2.blocks.length) otherwise) =
            some (.inl (start.2.blocks.length + index)) := by
        rw [Terminator.next, shows _ _ known, goes]
        rfl
      rw [Run.select, finds]
      apply Realizes.after_jump (fun outcome ended => Ends.of_goto stored target ended)
      rcases entered.branch index branch.2 (by rw [List.getElem?_map, found]; rfl) with
        ⟨start', left, isGen, holds', open', here, registersLe, within'⟩
      have runs := compiles.runs isGen holds' ⟨[], open'⟩ (within' _ within) registers world
        (given.stable known registersLe (.refl _ _))
      rw [open'.point, here] at runs
      constructor
      · intro result' world' ran
        rcases runs.returned result' world' ran with ⟨registers', ⟨agree, _⟩, continues⟩
        refine ⟨registers', ⟨fun number below =>
          agree number (Nat.lt_of_lt_of_le below registersLe), fun stays =>
            absurd stays (total _)⟩, fun outcome ended => continues outcome ?_⟩
        cases leaves : leave result' with
        | none => exact absurd leaves (total result')
        | some label =>
            rw [leaves] at ended
            exact ended
      · exact runs.exited

end

/-! ### Structured statements -/

section

variable {condition : Operand L V} {holds : Bool}
  (shows : ∀ bound registers, given.holds bound registers →
    machine.truth (valueOf locals registers condition) = holds)

include shows

/-- A gate before code that goes to a label. -/
theorem gateThen {otherwise target : Nat} {gen : Gen S E Op L V Unit} {run : Run W Unit}
    {gives : Unit → Unit → Knowledge V}
    (compiles : Compiles machine code locals given before gen run stay gives before) :
    Compiles machine code locals given before (do
        Gen.gate condition otherwise
        gen
        Gen.terminate (.br target))
      (if holds then (do run; return true) else return false)
      (fun passed => some (if passed then target else otherwise)) (fun _ _ => Knowledge.none)
      before := by
  change Compiles machine code locals given before _ (Pure.pure holds >>= fun passed : Bool =>
    if passed then (do run; return true) else return false) _ _ before
  apply bindLeaving (gate shows) ⟨true, rfl⟩
  · intro _ passed stays
    cases passed with
    | false => cases stays
    | true =>
        have weaker : Compiles machine code locals (given.and Knowledge.none) before gen run stay
            gives before := compiles.mono (fun _ _ known => known.1) fun _ _ _ _ known => known
        apply weaker.bind
        intro _ _
        exact goTo rfl fun _ impossible => by cases impossible
  · intro passed label leaves
    cases passed with
    | false =>
        cases leaves
        exact ⟨false, rfl, rfl⟩
    | true => cases leaves

theorem branch {ifTrue ifFalse : Gen S E Op L V Unit} {runTrue runFalse : Run W Unit}
    {gives gives' : Unit → Unit → Knowledge V}
    (isTrue : Compiles machine code locals given before ifTrue runTrue stay gives before)
    (isFalse : Compiles machine code locals given before ifFalse runFalse stay gives' before) :
    Compiles machine code locals given before (Gen.branch condition ifTrue ifFalse)
      (if holds then runTrue else runFalse) stay (fun _ _ => Knowledge.none) before := by
  have inner : ∀ merge, Compiles machine code locals given before
      (Gen.landing (fun otherwise => do
          Gen.gate condition otherwise
          ifTrue
          Gen.terminate (.br merge)) (do
        ifFalse
        Gen.terminate (.br merge)))
      ((if holds then (do runTrue; return true) else return false) >>= fun passed =>
        if passed then return () else runFalse)
      (fun _ => some merge) (fun _ _ => Knowledge.none) before := by
    intro merge
    have other : Compiles machine code locals given before
        (do ifFalse; Gen.terminate (.br merge)) runFalse (fun _ => some merge)
        (fun _ _ => Knowledge.none) before := by
      rw [← Run.bind_unit runFalse]
      apply isFalse.bind
      intro _ _
      exact goTo rfl fun _ impossible => by cases impossible
    exact fallThrough rfl (fun otherwise => gateThen shows isTrue) other
  have met := meet inner done
  apply met.congr
  rw [Run.bind_unit]
  cases holds with
  | true => exact (Run.bind_assoc _ _ _).trans (Run.bind_unit _)
  | false => rfl

end

/-- The operand says whether the condition holds. -/
def Decides (machine : Machine Op L V W F) (locals : L → V) (operand : Operand L V) (holds : Bool) :
    Knowledge V where
  holds bound registers :=
    operand.Below bound ∧ machine.truth (valueOf locals registers operand) = holds
  stable known le agree := by
    refine ⟨known.1.mono le, ?_⟩
    rw [agree.valueOf known.1]
    exact known.2

theorem loop {condition : Gen S E Op L V (Operand L V)} {holds : Run W Bool}
    {body : Gen S E Op L V Unit} {run : Run W Unit} {gives : Unit → Unit → Knowledge V}
    (isCondition : Compiles machine code locals given before condition holds stay
      (Decides machine locals) before)
    (isBody : Compiles machine code locals given before body run stay gives before) (fuel : Nat) :
    Compiles machine code locals given before (Gen.loop condition body)
      (Run.whileLoop holds run fuel) stay (fun _ _ => Knowledge.none) before := by
  have step : ∀ exit header, Compiles machine code locals given before (do
      Gen.gate (← condition) exit
      body
      Gen.terminate (.br header)) (do
        if ← holds then
          run
          return none
        else
          return some ()) (orBack header fun _ : Unit => some exit) (fun _ _ => Knowledge.none)
        before := by
    intro exit header
    apply isCondition.bind
    intro operand passed
    have weaker : Compiles machine code locals (given.and (Decides machine locals operand passed))
        before body run stay gives before :=
      isBody.mono (fun _ _ known => known.1) fun _ _ _ _ known => known
    have shows : ∀ bound registers,
        (given.and (Decides machine locals operand passed)).holds bound registers →
          machine.truth (valueOf locals registers operand) = passed :=
      fun _ _ known => known.2.2
    have gated : Compiles machine code locals (given.and (Decides machine locals operand passed))
        before (do
          Gen.gate operand exit
          body
          Gen.terminate (.br header))
        ((if passed then (do run; return true) else return false) >>= fun passed : Bool =>
          return if passed then none else some ())
        (orBack header fun _ => some exit) (fun _ _ => Knowledge.none) before := by
      apply (gateThen shows weaker).map
      · intro passed
        cases passed <;> rfl
      · rintro ⟨result, stays⟩
        cases result <;> cases stays
      · exact fun _ _ _ _ _ => trivial
    apply gated.congr
    cases passed with
    | true => exact Run.bind_assoc _ _ _
    | false => rfl
  have met := meet (fun exit => cycle (step exit) (fun _ impossible => by cases impossible) fuel) done
  rwa [Run.bind_unit] at met

theorem trap {condition : Operand L V} {holds : Bool}
    (shows : ∀ bound registers, given.holds bound registers →
      machine.truth (valueOf locals registers condition) = holds)
    {error : Gen S E Op L V Unit} {run : Run W Unit} {gives : Unit → Unit → Knowledge V}
    (isError : Compiles machine code locals given before error run stay gives before) :
    Compiles machine code locals given before (Gen.trap condition error)
      (if holds then (do run; Run.stuck) else return ()) stay (fun _ _ => Knowledge.none)
      before := by
  have closed : ∀ rest, Compiles machine code locals given before (do
      Gen.gate condition rest
      error
      Gen.terminate .unreachable) (if holds then (do run; Run.stuck) else return ())
        (fun _ => some rest) (fun _ _ => Knowledge.none) before := by
    intro rest
    change Compiles machine code locals given before _ (Pure.pure holds >>= fun passed : Bool =>
      if passed then (do run; Run.stuck) else return ()) _ _ before
    apply bindLeaving (gate shows) ⟨true, rfl⟩
    · intro _ passed stays
      cases passed with
      | false => cases stays
      | true =>
          have weaker : Compiles machine code locals (given.and Knowledge.none) before error run
              stay gives before := isError.mono (fun _ _ known => known.1) fun _ _ _ _ known => known
          apply weaker.bind
          intro _ _
          exact unreachable (fun _ => rfl) fun _ impossible => by cases impossible
    · intro passed label leaves
      cases passed with
      | false =>
          cases leaves
          exact ⟨(), rfl, rfl⟩
      | true => cases leaves
  have met := meet closed done
  rwa [Run.bind_unit] at met

/-! ### Whole functions -/

/-- Code that is built from the entry block comes to the outcome of the computation. -/
theorem returns {gen : Gen S E Op L V (Operand L V)} {run : Run W V} {start : S}
    {finish : S × Builder Op L V} {result : Unit}
    (compiles : Compiles machine finish.2.blocks locals Knowledge.none before gen run stay
      (Operand.Shows locals) after)
    (isBuilt : (do Gen.terminate (.ret (← gen))) (start, .entry) = .ok (result, finish))
    (holds : before start) {registers : Nat → V} {world : W} {outcome : Outcome W V}
    (ran : run world = some outcome) :
    Ends machine finish.2.blocks locals (0, 0) registers world outcome := by
  rcases Gen.bind_eq_ok.mp isBuilt with ⟨operand, middle, first, isLast⟩
  cases isLast
  have isOpen : (Builder.entry : Builder Op L V).Open := ⟨[], Builder.entry_open⟩
  rcases (compiles.built first holds isOpen).2.2 ⟨default, rfl⟩ with ⟨instructions, lastOpen⟩
  have whole := Builder.within_self (middle.2.terminate (.ret operand))
  have within := (Builder.terminate_extends lastOpen (.ret operand)).within _ whole
  have stored := Builder.terminate_at lastOpen whole
  have runs := compiles.runs first holds isOpen within registers world trivial
  rw [Builder.entry_open.point] at runs
  cases outcome with
  | returned value world' =>
      rcases runs.returned value world' ran with ⟨registers', ⟨_, shows⟩, continues⟩
      apply continues
      change Ends machine _ locals middle.2.point registers' world' _
      rw [lastOpen.point]
      apply Ends.of_ret stored
      rw [Terminator.next, (shows rfl).2]
  | exited world' => exact runs.exited world' ran

end Compiles

end

end BasicBlocks
