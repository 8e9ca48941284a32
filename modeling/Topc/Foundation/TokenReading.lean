import Mathlib.Data.List.Basic

/-! # Reading token lists

Recursive descent over a list of tokens. A reader takes a value off the front
of the list and hands back the tokens behind it. Repetition and recursion are
bounded by the number of tokens left, and the bound never shows: as long as
readers consume what they accept, both satisfy the equations a grammar rule
states. -/

namespace Topc

/-- A value read off the front of a token list, and the tokens behind it. -/
abbrev Reader (Token Value : Type) := List Token → Option (Value × List Token)

namespace Reader

variable {Token Index Value Item Source : Type}

/-- The rest is what is left of the tokens behind at least one of them. -/
def Behind (rest tokens : List Token) : Prop :=
  rest <:+ tokens ∧ rest.length < tokens.length

/-- Whatever the reader accepts takes at least one token off the front. -/
def Consumes (read : Reader Token Value) : Prop :=
  ∀ tokens value rest, read tokens = some (value, rest) → Behind rest tokens

theorem behind_cons {rest tokens : List Token} (first : Token) (suffix : rest <:+ tokens) :
    Behind rest (first :: tokens) := by
  refine ⟨suffix.trans (List.suffix_cons first tokens), ?_⟩
  rw [List.length_cons]
  exact Nat.lt_succ_of_le suffix.length_le

theorem Behind.of_suffix {rest middle tokens : List Token} (behind : Behind middle tokens)
    (suffix : rest <:+ middle) : Behind rest tokens :=
  ⟨suffix.trans behind.1, Nat.lt_of_le_of_lt suffix.length_le behind.2⟩

/-- Two readers agree on the token lists shorter than a bound. -/
def AgreeBelow (length : Nat) (left right : Reader Token Value) : Prop :=
  ∀ tokens, tokens.length < length → left tokens = right tokens

/-- Two ways of reading on from the same value agree when they agree after
every value that can be read. -/
theorem bind_congr {read : Option (Item × List Token)}
    {left right : Item × List Token → Option (Value × List Token)}
    (agree : ∀ item rest, read = some (item, rest) → left (item, rest) = right (item, rest)) :
    read.bind left = read.bind right := by
  cases read with
  | none => rfl
  | some result => exact agree result.1 result.2 rfl

/-! ## Repetition -/

/-- Items are read as long as the next token starts one. -/
def repeatedWithin (starts : Token → Bool) (item : Reader Token Item) :
    Nat → Reader Token (List Item)
  | 0, tokens => some ([], tokens)
  | bound + 1, tokens =>
      if tokens.head?.any starts then
        (item tokens).bind fun (first, rest) =>
          (repeatedWithin starts item bound rest).bind fun (others, rest) =>
            some (first :: others, rest)
      else some ([], tokens)

/-- The grammar's `item*`. -/
def repeated (starts : Token → Bool) (item : Reader Token Item) : Reader Token (List Item) :=
  fun tokens => repeatedWithin starts item tokens.length tokens

theorem repeatedWithin_stop {starts : Token → Bool} {item : Reader Token Item}
    {tokens : List Token} (stop : tokens.head?.any starts = false) (bound : Nat) :
    repeatedWithin starts item bound tokens = some ([], tokens) := by
  cases bound with
  | zero => rfl
  | succ bound => simp [repeatedWithin, stop]

/-- Every bound that covers the tokens gives the same result. -/
theorem repeatedWithin_enough {starts : Token → Bool} {item : Reader Token Item}
    (consumes : Consumes item) (bound : Nat) :
    ∀ (other : Nat) (tokens : List Token), tokens.length ≤ bound → tokens.length ≤ other →
      repeatedWithin starts item bound tokens = repeatedWithin starts item other tokens := by
  induction bound with
  | zero =>
      intro other tokens short _
      have empty : tokens = [] := List.length_eq_zero_iff.mp (by omega)
      subst empty
      rw [repeatedWithin_stop rfl, repeatedWithin_stop rfl]
  | succ bound induction =>
      intro other tokens short shortOther
      by_cases next : tokens.head?.any starts
      · cases other with
        | zero =>
            have empty : tokens = [] := List.length_eq_zero_iff.mp (by omega)
            subst empty
            rw [repeatedWithin_stop rfl, repeatedWithin_stop rfl]
        | succ other =>
            simp only [repeatedWithin, next, if_true]
            apply bind_congr
            intro first rest accepted
            have shorter := (consumes tokens first rest accepted).2
            simp only [induction other rest (by omega) (by omega)]
      · rw [Bool.not_eq_true] at next
        rw [repeatedWithin_stop next, repeatedWithin_stop next]

theorem repeated_stop {starts : Token → Bool} {item : Reader Token Item} {tokens : List Token}
    (stop : tokens.head?.any starts = false) :
    repeated starts item tokens = some ([], tokens) :=
  repeatedWithin_stop stop tokens.length

theorem repeated_next {starts : Token → Bool} {item : Reader Token Item}
    (consumes : Consumes item) {tokens : List Token} (next : tokens.head?.any starts = true) :
    repeated starts item tokens =
      (item tokens).bind fun (first, rest) =>
        (repeated starts item rest).bind fun (others, rest) => some (first :: others, rest) := by
  have enough : repeatedWithin starts item tokens.length tokens =
      repeatedWithin starts item (tokens.length + 1) tokens :=
    repeatedWithin_enough consumes _ _ tokens (Nat.le_refl _) (by omega)
  rw [repeated, enough, repeatedWithin, if_pos next]
  apply bind_congr
  intro first rest accepted
  have shorter := (consumes tokens first rest accepted).2
  simp only [repeated, repeatedWithin_enough consumes tokens.length rest.length rest
    (by omega) (Nat.le_refl _)]

/-- What holds of every item read holds of all the items a repetition reads,
and the repetition leaves a suffix of its tokens. -/
theorem repeated_forall {starts : Token → Bool} {item : Reader Token Item}
    (consumes : Consumes item) {Holds : Item → Prop} {Allowed : List Token → Prop}
    (narrows : ∀ tokens rest, rest <:+ tokens → Allowed tokens → Allowed rest)
    (items : ∀ tokens value rest, Allowed tokens → item tokens = some (value, rest) → Holds value)
    {tokens : List Token} {values : List Item} {rest : List Token} (allowed : Allowed tokens)
    (accepted : repeated starts item tokens = some (values, rest)) :
    (∀ value ∈ values, Holds value) ∧ rest <:+ tokens := by
  induction values generalizing tokens with
  | nil =>
      refine ⟨List.forall_mem_nil _, ?_⟩
      by_cases next : tokens.head?.any starts
      · rw [repeated_next consumes next] at accepted
        simp [Option.bind_eq_some_iff] at accepted
      · rw [repeated_stop (by simpa using next)] at accepted
        cases accepted
        exact List.suffix_refl _
  | cons first others induction =>
      by_cases next : tokens.head?.any starts
      · rw [repeated_next consumes next] at accepted
        simp only [Option.bind_eq_some_iff, Option.some.injEq, Prod.mk.injEq, List.cons.injEq,
          Prod.exists] at accepted
        rcases accepted with ⟨value, middle, read, values, last, repeats, ⟨rfl, rfl⟩, rfl⟩
        have suffix := (consumes _ _ _ read).1
        have rests := induction (narrows _ _ suffix allowed) repeats
        exact ⟨List.forall_mem_cons.mpr ⟨items _ _ _ allowed read, rests.1⟩,
          rests.2.trans suffix⟩
      · rw [repeated_stop (by simpa using next)] at accepted
        simp at accepted

theorem repeated_suffix {starts : Token → Bool} {item : Reader Token Item}
    (consumes : Consumes item) {tokens : List Token} {values : List Item} {rest : List Token}
    (accepted : repeated starts item tokens = some (values, rest)) : rest <:+ tokens := by
  have nothing : ∀ tokens value rest, True → item tokens = some (value, rest) → True :=
    fun _ _ _ _ _ => trivial
  exact (repeated_forall consumes (fun _ _ _ _ => trivial) nothing trivial accepted).2

theorem repeated_congr {starts : Token → Bool} {left right : Reader Token Item}
    (consumes : Consumes left) {length : Nat} (agree : AgreeBelow length left right) :
    AgreeBelow length (repeated starts left) (repeated starts right) := by
  have within : ∀ bound, AgreeBelow length (repeatedWithin starts left bound)
      (repeatedWithin starts right bound) := by
    intro bound
    induction bound with
    | zero => exact fun _ _ => rfl
    | succ bound induction =>
        intro tokens short
        simp only [repeatedWithin, ← agree tokens short]
        congr 1
        apply bind_congr
        intro first rest accepted
        have less := (consumes tokens first rest accepted).2
        simp only [induction rest (by omega)]
  exact fun tokens short => within tokens.length tokens short

/-- Spelled one after the other, the items are read back in order. -/
theorem repeated_spelled {starts : Token → Bool} {item : Reader Token Item}
    (consumes : Consumes item) {spell : Source → List Token} {value : Source → Item}
    {Follows : List Token → Prop} (sources : List Source) {rest : List Token}
    (starting : ∀ source ∈ sources, ∀ tokens, (spell source ++ tokens).head?.any starts = true)
    (following : ∀ source ∈ sources, ∀ tokens, Follows (spell source ++ tokens))
    (reading : ∀ source ∈ sources, ∀ tokens, Follows tokens →
      item (spell source ++ tokens) = some (value source, tokens))
    (ending : Follows rest) (stopping : rest.head?.any starts = false) :
    repeated starts item (sources.flatMap spell ++ rest) = some (sources.map value, rest) := by
  induction sources with
  | nil => exact repeated_stop stopping
  | cons first others induction =>
      rw [List.forall_mem_cons] at starting following reading
      have followed : Follows (others.flatMap spell ++ rest) := by
        cases others with
        | nil => exact ending
        | cons second others =>
            rw [List.flatMap_cons, List.append_assoc]
            exact following.2 second List.mem_cons_self _
      rw [List.flatMap_cons, List.append_assoc, repeated_next consumes (starting.1 _),
        reading.1 _ followed, Option.bind_some]
      dsimp only
      rw [induction starting.2 following.2 reading.2]
      rfl

/-! ## Separated lists -/

/-- The reader behind one token. -/
def afterFirst (read : Reader Token Value) : Reader Token Value
  | [] => none
  | _ :: rest => read rest

theorem afterFirst_consumes {read : Reader Token Value} (consumes : Consumes read) :
    Consumes (afterFirst read) := by
  intro tokens value rest accepted
  cases tokens with
  | nil => cases accepted
  | cons first tokens =>
      exact behind_cons first (consumes tokens value rest accepted).1

variable [DecidableEq Token]

/-- The grammar's `item (separator item)*`. -/
def separated (separator : Token) (item : Reader Token Item) : Reader Token (List Item) :=
  fun tokens =>
    (item tokens).bind fun (first, rest) =>
      (repeated (· == separator) (afterFirst item) rest).bind fun (others, rest) =>
        some (first :: others, rest)

theorem separated_consumes {separator : Token} {item : Reader Token Item}
    (consumes : Consumes item) : Consumes (separated separator item) := by
  intro tokens values rest accepted
  simp only [separated, Option.bind_eq_some_iff, Option.some.injEq, Prod.mk.injEq,
    Prod.exists] at accepted
  rcases accepted with ⟨first, middle, read, others, last, repeats, -, rfl⟩
  exact (consumes _ _ _ read).of_suffix (repeated_suffix (afterFirst_consumes consumes) repeats)

theorem separated_congr {separator : Token} {left right : Reader Token Item}
    (consumes : Consumes left) {length : Nat} (agree : AgreeBelow length left right) :
    AgreeBelow length (separated separator left) (separated separator right) := by
  have agreeRest : AgreeBelow length (afterFirst left) (afterFirst right) := by
    intro tokens short
    cases tokens with
    | nil => rfl
    | cons head tail =>
        rw [List.length_cons] at short
        exact agree tail (by omega)
  intro tokens short
  rw [separated, separated, ← agree tokens short]
  apply bind_congr
  intro first rest accepted
  have shorter := (consumes _ _ _ accepted).2
  simp only [repeated_congr (afterFirst_consumes consumes) agreeRest rest (by omega)]

theorem separated_ne_nil {separator : Token} {item : Reader Token Item} {tokens : List Token}
    {values : List Item} {rest : List Token}
    (accepted : separated separator item tokens = some (values, rest)) : values ≠ [] := by
  simp only [separated, Option.bind_eq_some_iff, Option.some.injEq, Prod.mk.injEq,
    Prod.exists] at accepted
  rcases accepted with ⟨first, middle, read, others, last, repeats, rfl, rfl⟩
  exact List.cons_ne_nil _ _

theorem separated_forall {separator : Token} {item : Reader Token Item}
    (consumes : Consumes item) {Holds : Item → Prop} {Allowed : List Token → Prop}
    (narrows : ∀ tokens rest, rest <:+ tokens → Allowed tokens → Allowed rest)
    (items : ∀ tokens value rest, Allowed tokens → item tokens = some (value, rest) → Holds value)
    {tokens : List Token} {values : List Item} {rest : List Token} (allowed : Allowed tokens)
    (accepted : separated separator item tokens = some (values, rest)) :
    ∀ value ∈ values, Holds value := by
  simp only [separated, Option.bind_eq_some_iff, Option.some.injEq, Prod.mk.injEq,
    Prod.exists] at accepted
  rcases accepted with ⟨first, middle, read, others, last, repeats, rfl, rfl⟩
  have others := (repeated_forall (afterFirst_consumes consumes) narrows (by
      intro tokens value rest allowed accepted
      cases tokens with
      | nil => cases accepted
      | cons head tail =>
          exact items tail value rest (narrows _ _ (List.suffix_cons head tail) allowed) accepted)
    (narrows _ _ (consumes _ _ _ read).1 allowed) repeats).1
  exact List.forall_mem_cons.mpr ⟨items _ _ _ allowed read, others⟩

/-- Token lists with a separator between them. -/
def separate (separator : Token) : List (List Token) → List Token
  | [] => []
  | first :: others => first ++ others.flatMap (separator :: ·)

theorem separated_spelled {separator : Token} {item : Reader Token Item}
    (consumes : Consumes item) {spell : Source → List Token} {value : Source → Item}
    {Follows : List Token → Prop} {sources : List Source} {rest : List Token}
    (nonempty : sources ≠ [])
    (reading : ∀ source ∈ sources, ∀ tokens, Follows tokens →
      item (spell source ++ tokens) = some (value source, tokens))
    (following : ∀ tokens, Follows (separator :: tokens))
    (ending : Follows rest) (stopping : rest.head?.any (· == separator) = false) :
    separated separator item (separate separator (sources.map spell) ++ rest) =
      some (sources.map value, rest) := by
  cases sources with
  | nil => exact absurd rfl nonempty
  | cons first others =>
      rw [List.forall_mem_cons] at reading
      have othersRead : repeated (· == separator) (afterFirst item)
          (others.flatMap (fun source => separator :: spell source) ++ rest) =
            some (others.map value, rest) :=
        repeated_spelled (afterFirst_consumes consumes) others
          (fun _ _ _ => beq_self_eq_true separator) (fun _ _ _ => following _)
          (fun source member tokens follows => reading.2 source member tokens follows)
          ending stopping
      have followed : Follows (others.flatMap (fun source => separator :: spell source) ++ rest) := by
        cases others with
        | nil => exact ending
        | cons second others => exact following _
      rw [List.map_cons, separate, List.flatMap_map, List.append_assoc, separated,
        reading.1 _ followed, Option.bind_some]
      dsimp only
      rw [othersRead]
      rfl

omit [DecidableEq Token]

/-! ## Recursion -/

/-- A family of readers that call each other, to a depth. -/
def within (step : (Index → Reader Token Value) → Index → Reader Token Value) :
    Nat → Index → Reader Token Value
  | 0, _ => fun _ => none
  | depth + 1, index => step (within step depth) index

/-- A family of readers that call each other. -/
def recursive (step : (Index → Reader Token Value) → Index → Reader Token Value)
    (index : Index) : Reader Token Value :=
  fun tokens => within step (tokens.length + 1) index tokens

/-- The rules of a family consume, and call each other only behind a token of
their own. -/
structure Guarded (step : (Index → Reader Token Value) → Index → Reader Token Value) :
    Prop where
  consumes : ∀ family, (∀ index, Consumes (family index)) →
    ∀ index, Consumes (step family index)
  congr : ∀ left right, (∀ index, Consumes (left index)) → ∀ length,
    (∀ index, AgreeBelow length (left index) (right index)) →
    ∀ index, AgreeBelow (length + 1) (step left index) (step right index)

namespace Guarded

variable {step : (Index → Reader Token Value) → Index → Reader Token Value}

theorem within_consumes (guarded : Guarded step) (depth : Nat) (index : Index) :
    Consumes (within step depth index) := by
  induction depth generalizing index with
  | zero => exact fun _ _ _ accepted => by cases accepted
  | succ depth induction => exact guarded.consumes _ induction index

theorem recursive_consumes (guarded : Guarded step) (index : Index) :
    Consumes (recursive step index) :=
  fun tokens => guarded.within_consumes (tokens.length + 1) index tokens

/-- Every depth that covers the tokens gives the same result. -/
theorem within_enough (guarded : Guarded step) (length : Nat) :
    ∀ (depth other : Nat) (index : Index), length ≤ depth → length ≤ other →
      AgreeBelow length (within step depth index) (within step other index) := by
  induction length with
  | zero => exact fun _ _ _ _ _ _ short => absurd short (Nat.not_lt_zero _)
  | succ length induction =>
      intro depth other index covered otherCovered
      obtain ⟨depth, rfl⟩ : ∃ less, depth = less + 1 := ⟨depth - 1, by omega⟩
      obtain ⟨other, rfl⟩ : ∃ less, other = less + 1 := ⟨other - 1, by omega⟩
      apply guarded.congr _ _ (guarded.within_consumes depth)
      intro index
      exact induction depth other index (by omega) (by omega)

/-- The rules hold as equations. -/
theorem recursive_eq (guarded : Guarded step) (index : Index) (tokens : List Token) :
    recursive step index tokens = step (recursive step) index tokens := by
  apply guarded.congr _ _ (guarded.within_consumes tokens.length) tokens.length ?_ index
  · exact Nat.lt_succ_self _
  · intro index shorter short
    exact guarded.within_enough (shorter.length + 1) tokens.length (shorter.length + 1) index
      short (Nat.le_refl _) shorter (Nat.lt_succ_self _)

/-- What the rules preserve holds of everything the family reads. -/
theorem recursive_induction {Holds : Index → List Token → Value → List Token → Prop}
    (rules : ∀ family,
      (∀ index, Consumes (family index)) →
      (∀ index tokens value rest, family index tokens = some (value, rest) →
        Holds index tokens value rest) →
      ∀ index tokens value rest, step family index tokens = some (value, rest) →
        Holds index tokens value rest)
    (guarded : Guarded step) {index : Index} {tokens : List Token} {value : Value}
    {rest : List Token} (accepted : recursive step index tokens = some (value, rest)) :
    Holds index tokens value rest := by
  have holds : ∀ depth index tokens value rest,
      within step depth index tokens = some (value, rest) → Holds index tokens value rest := by
    intro depth
    induction depth with
    | zero => exact fun _ _ _ _ accepted => by cases accepted
    | succ depth induction => exact rules _ (guarded.within_consumes depth) induction
  exact holds _ _ _ _ _ accepted

end Guarded

end Reader

end Topc
