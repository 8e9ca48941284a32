import Topc.CodeGen.SourceValues

/-! # Running the blocks of an arm

On the encoding of a typed value the tests of a pattern run to the end exactly
when the pattern matches, and its bindings then find their fields. Neither reads
a field of a box before the tag of the box has been tested. -/

namespace Topc.CaseCodeGen

section

variable (value : Value)

/-- The tag of the box in the slot has been tested and was the expected one. -/
def Passed (tested : List CaseInstruction) (box : Slot) : Prop :=
  ∃ expected, .testTag box expected ∈ tested ∧ step value (.testTag box expected) = some true

/-- The slot is a field of a box whose tag has been tested. -/
def Opened (tested : List CaseInstruction) (slot : Slot) : Prop :=
  ∃ box offset, slot = box ++ [offset] ∧ Passed value tested box

/-- What the trace reads has been opened by then. -/
def Guarded (tested trace : List CaseInstruction) : Prop :=
  ∀ front slot rest, trace = front ++ .loadField slot :: rest → Opened value (tested ++ front) slot

/-- The field that the instruction makes the value of a variable. -/
def boundField? : CaseInstruction → Option (DeclNode × Option Value)
  | .perform (.bind decl slot) => some (decl, value.at? slot)
  | _ => none

end

variable {value : Value}

/-! ## Reading after testing -/

section

variable {tested more trace rest : List CaseInstruction} {instruction : CaseInstruction}
  {slot : Slot}

theorem Passed.mono (passed : Passed value tested slot) (subset : tested ⊆ more) :
    Passed value more slot := by
  rcases passed with ⟨expected, member, passes⟩
  exact ⟨expected, subset member, passes⟩

theorem guarded_nil : Guarded value tested [] := by
  intro front slot rest split
  cases front <;> cases split

theorem guarded_single (opens : ∀ slot, instruction = .loadField slot → Opened value tested slot) :
    Guarded value tested [instruction] := by
  intro front slot rest split
  cases front with
  | nil =>
      rw [List.append_nil]
      exact opens slot (List.cons.inj split).1
  | cons first front => cases front <;> cases split

theorem Guarded.append (first : Guarded value tested trace)
    (second : Guarded value (tested ++ trace) rest) : Guarded value tested (trace ++ rest) := by
  intro front slot after split
  rcases List.append_eq_append_iff.mp split with ⟨between, rfl, later⟩ | ⟨between, earlier, later⟩
  · rw [← List.append_assoc]
    exact second between slot after later
  · cases between with
    | nil =>
        rw [List.append_nil] at earlier
        rw [← earlier, ← List.append_nil (tested ++ trace)]
        exact second [] slot after later.symm
    | cons instruction between =>
        cases later
        exact first front slot between earlier

end

/-! ## Running a block -/

section

variable {code rest trace : List CaseInstruction} {tested : List CaseInstruction}

/-- A block goes on where all tests of its first part have passed. -/
theorem runBlock_append (code rest : List CaseInstruction) :
    runBlock value (code ++ rest) = (runBlock value code).bind fun (passed, trace) =>
      if passed then (runBlock value rest).map fun (holds, more) => (holds, trace ++ more)
      else some (false, trace) := by
  induction code with
  | nil => exact Option.map_id'.symm
  | cons instruction code induction =>
      rw [List.cons_append, runBlock, runBlock, induction]
      cases step value instruction with
      | none => rfl
      | some holds =>
          cases holds with
          | false => rfl
          | true =>
              cases runBlock value code with
              | none => rfl
              | some result =>
                  rcases result with ⟨passed, before⟩
                  cases passed with
                  | false => rfl
                  | true => exact Option.map_map _ _ _

theorem runBlock_append_passed (passed : runBlock value code = some (true, trace)) :
    runBlock value (code ++ rest) =
      (runBlock value rest).map fun (holds, more) => (holds, trace ++ more) := by
  rw [runBlock_append, passed]
  rfl

theorem runBlock_append_failed (failed : runBlock value code = some (false, trace)) :
    runBlock value (code ++ rest) = some (false, trace) := by
  rw [runBlock_append, failed]
  rfl

/-- A block that runs to the end has performed every instruction. -/
theorem runBlock_passed (passed : runBlock value code = some (true, trace)) :
    trace = code ∧ ∀ instruction ∈ code, step value instruction = some true := by
  induction code generalizing trace with
  | nil =>
      cases passed
      exact ⟨rfl, nofun⟩
  | cons instruction code induction =>
      rw [runBlock] at passed
      cases stepped : step value instruction with
      | none =>
          rw [stepped] at passed
          cases passed
      | some holds =>
          rw [stepped] at passed
          cases holds with
          | false => cases passed
          | true =>
              rcases Option.map_eq_some_iff.mp passed with ⟨⟨_, before⟩, ran, equal⟩
              cases equal
              rcases induction ran with ⟨rfl, passes⟩
              exact ⟨rfl, List.forall_mem_cons.mpr ⟨stepped, passes⟩⟩

/-- A run of tests: what it finds, and a trace without effects. -/
structure TestRun (value : Value) (tested code : List CaseInstruction) (holds : Bool)
    (trace : List CaseInstruction) : Prop where
  ran : runBlock value code = some (holds, trace)
  guarded : Guarded value tested trace
  effectFree : trace.filterMap CaseInstruction.effect? = []

theorem TestRun.nil : TestRun value tested [] true [] :=
  ⟨rfl, guarded_nil, rfl⟩

theorem TestRun.append {holds : Bool} {more : List CaseInstruction}
    (first : TestRun value tested code true trace)
    (second : TestRun value (tested ++ trace) rest holds more) :
    TestRun value tested (code ++ rest) holds (trace ++ more) where
  ran := by
    rw [runBlock_append_passed first.ran, second.ran]
    rfl
  guarded := first.guarded.append second.guarded
  effectFree := by rw [List.filterMap_append, first.effectFree, second.effectFree, List.nil_append]

theorem TestRun.append_failed (first : TestRun value tested code false trace) :
    TestRun value tested (code ++ rest) false trace where
  ran := runBlock_append_failed first.ran
  guarded := first.guarded
  effectFree := first.effectFree

/-- A run of bindings: it tests nothing, and binds what it should. -/
structure BindRun (value : Value) (tested code : List CaseInstruction)
    (bound : List (DeclNode × Option Value)) : Prop where
  ran : runBlock value code = some (true, code)
  guarded : Guarded value tested code
  testFree : ∀ slot expected, .testTag slot expected ∉ code
  binds : code.filterMap (boundField? value) = bound

theorem BindRun.nil : BindRun value tested [] [] :=
  ⟨rfl, guarded_nil, fun _ _ => List.not_mem_nil, rfl⟩

theorem BindRun.append {bound others : List (DeclNode × Option Value)}
    (first : BindRun value tested code bound)
    (second : BindRun value (tested ++ code) rest others) :
    BindRun value tested (code ++ rest) (bound ++ others) where
  ran := by
    rw [runBlock_append_passed first.ran, second.ran]
    rfl
  guarded := first.guarded.append second.guarded
  testFree slot expected member := by
    rcases List.mem_append.mp member with inFirst | inSecond
    · exact first.testFree slot expected inFirst
    · exact second.testFree slot expected inSecond
  binds := by rw [List.filterMap_append, first.binds, second.binds]

theorem BindRun.load {slot : Slot} {field : Value} (opened : Opened value tested slot)
    (stands : value.at? slot = some field) : BindRun value tested [.loadField slot] [] where
  ran := by rw [runBlock, step, stands]; rfl
  guarded := guarded_single fun slot' same => by cases same; exact opened
  testFree _ _ member := by cases List.mem_singleton.mp member
  binds := rfl

theorem TestRun.load {slot : Slot} {field : Value} (opened : Opened value tested slot)
    (stands : value.at? slot = some field) :
    TestRun value tested [.loadField slot] true [.loadField slot] where
  ran := (BindRun.load opened stands).ran
  guarded := (BindRun.load opened stands).guarded
  effectFree := rfl

theorem TestRun.test {slot : Slot} {expected : Nat} {holds : Bool}
    (stepped : step value (.testTag slot expected) = some holds) :
    TestRun value tested [.testTag slot expected] holds [.testTag slot expected] where
  ran := by
    rw [runBlock, stepped]
    cases holds <;> rfl
  guarded := guarded_single fun _ same => by cases same
  effectFree := rfl

theorem BindRun.effect (effect : MatchEffect) :
    BindRun value tested [.perform effect]
      ([.perform effect].filterMap (boundField? value)) where
  ran := rfl
  guarded := guarded_single fun _ same => by cases same
  testFree _ _ member := by cases List.mem_singleton.mp member
  binds := rfl

end

/-! ## Fields of a box -/

section

variable {symbols : SymbolTable}

/-- The encoded fields stand in the slots of the box from the offset on. -/
def FieldsAt (symbols : SymbolTable) (value : Value) (box : Slot) (offset : Nat)
    (fields : List SourceValue) : Prop :=
  ∀ index field, fields[index]? = some field →
    value.at? (box ++ [offset + index]) = some (field.encode symbols)

theorem FieldsAt.head {box : Slot} {offset : Nat} {field : SourceValue} {fields : List SourceValue}
    (stand : FieldsAt symbols value box offset (field :: fields)) :
    value.at? (box ++ [offset]) = some (field.encode symbols) :=
  stand 0 field rfl

theorem FieldsAt.tail {box : Slot} {offset : Nat} {field : SourceValue} {fields : List SourceValue}
    (stand : FieldsAt symbols value box offset (field :: fields)) :
    FieldsAt symbols value box (offset + 1) fields := by
  intro index inner stands
  have there := stand (index + 1) inner stands
  rwa [Nat.add_comm index 1, ← Nat.add_assoc] at there

theorem fieldsAt_of_ctor {box : Slot} {tag : String} {fields : List SourceValue}
    (stands : value.at? box = some ((SourceValue.ctor tag fields).encode symbols)) :
    FieldsAt symbols value box 1 fields := by
  intro index field inside
  rw [SourceValue.encode, construct] at stands
  rw [Nat.add_comm, Value.at?_field stands]
  have encoded := SourceValue.encodeAll_getElem? symbols inside
  rw [List.getElem?_append_left (List.getElem?_eq_some_iff.mp encoded).1]
  exact encoded

theorem step_testTag {box : Slot} {tag : String} {fields : List SourceValue}
    (stands : value.at? box = some ((SourceValue.ctor tag fields).encode symbols))
    (expected : Nat) :
    step value (.testTag box expected) = some (innerTagIdx symbols tag == expected) := by
  rw [SourceValue.encode, construct] at stands
  rw [step, stands]

/-! ## Tests -/

variable {program : Program} {payloadType : DeclNode → Option SumTypeDecl}

/-- The tag of a box is that of the pattern exactly for its own constructor. -/
theorem innerTagIdx_beq (holds : symbols.HoldsConstructors program) {owner : SumTypeDecl}
    {variant other : SumVariant} (declares : program.Declares owner variant)
    (again : other ∈ owner.variants) :
    (innerTagIdx symbols other.tag == innerTagIdx symbols variant.tag) =
      decide (variant.tag = other.tag) := by
  by_cases same : variant.tag = other.tag
  · rw [same, decide_eq_true rfl, beq_self_eq_true]
  · rw [decide_eq_false same, beq_eq_false_iff_ne]
    intro sameIdx
    exact same (congrArg SumVariant.tag (innerTagIdx_inj holds
      ⟨declares.ownerMem, again⟩ declares sameIdx)).symm

mutual
theorem testPattern (holds : symbols.HoldsConstructors program)
    {tested : List CaseInstruction} {slot : Slot} (opened : Opened value tested slot) :
    ∀ (pattern : Pattern) (type : Option SumTypeDecl) (source : SourceValue),
      pattern.HasType program payloadType type →
      source.HasType payloadType type → value.at? slot = some (source.encode symbols) →
        ∃ trace, TestRun value tested (emitPatternTestCode symbols slot pattern)
          (pattern.bindings? source).isSome trace
  | .var .., _, source, _, _, _ => by
      rw [emitPatternTestCode, Pattern.bindings?]
      exact ⟨[], .nil⟩
  | .wildcard _, _, source, _, _, _ => by
      rw [emitPatternTestCode, Pattern.bindings?]
      exact ⟨[], .nil⟩
  | .ctor .., none, _, typed, _, _ => typed.elim
  | .ctor .., some _, .word _, _, sourceTyped, _ => sourceTyped.elim
  | .ctor info tag subPatterns, some owner, .ctor tag' fields, typed, sourceTyped, stands => by
      rcases typed with ⟨variant, declares, rfl, subTyped⟩
      rcases sourceTyped with ⟨other, again, rfl, fieldsTyped⟩
      have load : TestRun value tested [.loadField slot] true [.loadField slot] :=
        .load opened stands
      have stepped := step_testTag stands (innerTagIdx symbols variant.tag)
      rw [innerTagIdx_beq holds declares again] at stepped
      have code : emitPatternTestCode symbols slot (.ctor info variant.tag subPatterns) =
          [.loadField slot] ++ ([.testTag slot (innerTagIdx symbols variant.tag)] ++
            emitPatternTestCodes symbols slot 1 subPatterns) := rfl
      rw [code, Pattern.bindings?]
      by_cases same : variant.tag = other.tag
      · rw [if_pos same]
        rw [decide_eq_true same] at stepped
        have sameVariant := (holds.unique.variant_eq declares ⟨declares.ownerMem, again⟩ same).2
        rw [← sameVariant] at fieldsTyped
        have passed : Passed value (tested ++ [.loadField slot] ++
            [.testTag slot (innerTagIdx symbols variant.tag)]) slot :=
          ⟨_, List.mem_append_right _ (List.mem_singleton_self _), stepped⟩
        rcases testPatterns holds passed subPatterns variant.params fields subTyped fieldsTyped
          (fieldsAt_of_ctor stands) with ⟨trace, run⟩
        exact ⟨_, load.append ((TestRun.test stepped).append run)⟩
      · rw [if_neg same]
        rw [decide_eq_false same] at stepped
        exact ⟨_, load.append (TestRun.test stepped).append_failed⟩

theorem testPatterns (holds : symbols.HoldsConstructors program)
    {tested : List CaseInstruction} {box : Slot} {offset : Nat}
    (passed : Passed value tested box) :
    ∀ (patterns : List Pattern) (params : List DeclNode) (fields : List SourceValue),
      Pattern.AllHaveTypes program payloadType patterns params →
      SourceValue.AllHaveTypes payloadType fields params →
      FieldsAt symbols value box offset fields →
        ∃ trace, TestRun value tested (emitPatternTestCodes symbols box offset patterns)
          (Pattern.allBindings? patterns fields).isSome trace
  | [], [], [], _, _, _ => ⟨[], .nil⟩
  | [], [], _ :: _, _, fieldsTyped, _ => fieldsTyped.elim
  | [], _ :: _, _, typed, _, _ => typed.elim
  | _ :: _, [], _, typed, _, _ => typed.elim
  | _ :: _, _ :: _, [], _, fieldsTyped, _ => fieldsTyped.elim
  | pattern :: patterns, param :: params, field :: fields, typed, fieldsTyped, stand => by
      rw [emitPatternTestCodes, Pattern.allBindings?]
      rcases testPattern holds ⟨box, offset, rfl, passed⟩ pattern _ field typed.1 fieldsTyped.1
        stand.head with ⟨first, firstRun⟩
      cases matched : pattern.bindings? field with
      | none =>
          rw [matched] at firstRun
          exact ⟨first, firstRun.append_failed⟩
      | some bound =>
          rw [matched] at firstRun
          have later : Passed value (tested ++ first) box :=
            passed.mono (List.subset_append_left _ _)
          rcases testPatterns holds later patterns params fields typed.2 fieldsTyped.2
            stand.tail with ⟨rest, restRun⟩
          rw [Option.bind_some, Option.isSome_map]
          exact ⟨_, firstRun.append restRun⟩
end

/-! ## Bindings -/

/-- The variables with their fields as the code sees them. -/
def encodedBindings (symbols : SymbolTable) (bound : List (DeclNode × SourceValue)) :
    List (DeclNode × Option Value) :=
  bound.map fun (decl, source) => (decl, some (source.encode symbols))

variable {types : TypeResults} {plan : DestructionPlan} {consuming : Bool}

theorem destroy_bindRun {tested : List CaseInstruction} (slot : Slot) (param : DeclNode) :
    BindRun value tested ((emitDestroyValue types slot param).map .perform) [] := by
  unfold emitDestroyValue
  split
  · exact .effect (.destroy slot param)
  · exact .nil

/-- The tests of the pattern have been performed and have passed. -/
def AllPassed (value : Value) (tested tests : List CaseInstruction) : Prop :=
  ∀ instruction ∈ tests, instruction ∈ tested ∧ step value instruction = some true

theorem AllPassed.mono {tested more tests others : List CaseInstruction}
    (passed : AllPassed value tested tests) (subset : tested ⊆ more) (fewer : others ⊆ tests) :
    AllPassed value more others := by
  intro instruction member
  rcases passed instruction (fewer member) with ⟨ran, passes⟩
  exact ⟨subset ran, passes⟩

mutual
theorem bindPattern {tested : List CaseInstruction} {slot : Slot}
    (opened : Opened value tested slot) (paramDecl : Option DeclNode) :
    ∀ (pattern : Pattern) (source : SourceValue) {bound : List (DeclNode × SourceValue)},
      pattern.bindings? source = some bound →
      value.at? slot = some (source.encode symbols) →
      AllPassed value tested (emitPatternTestCode symbols slot pattern) →
        BindRun value tested
          (emitPatternBindCode symbols types plan consuming slot paramDecl pattern)
          (encodedBindings symbols bound)
  | .var _ decl, source, bound, matched, stands, _ => by
      rw [Pattern.bindings?] at matched
      cases matched
      have bind : BindRun value (tested ++ [.loadField slot]) [.perform (.bind decl slot)]
          [(decl, some (source.encode symbols))] := by
        rw [← stands]
        exact .effect (.bind decl slot)
      exact (BindRun.load opened stands).append bind
  | .wildcard info, source, bound, matched, stands, _ => by
      rw [Pattern.bindings?] at matched
      cases matched
      have load := BindRun.load opened stands
      unfold emitPatternBindCode
      cases paramDecl with
      | none => exact load
      | some param =>
          dsimp only
          split
          · exact load.append (destroy_bindRun slot param)
          · exact load
  | .ctor _ _ _, .word _, _, matched, _, _ => by cases matched
  | .ctor info tag subPatterns, .ctor tag' fields, bound, matched, stands, passed => by
      rw [Pattern.bindings?] at matched
      split at matched
      · have tagPassed : Passed value (tested ++ [.loadField slot]) slot := by
          have tag := passed (.testTag slot (innerTagIdx symbols tag))
            (List.mem_cons_of_mem _ List.mem_cons_self)
          exact ⟨_, List.mem_append_left _ tag.1, tag.2⟩
        have subPassed : AllPassed value (tested ++ [.loadField slot])
            (emitPatternTestCodes symbols slot 1 subPatterns) :=
          passed.mono (List.subset_append_left _ _) fun _ member =>
            List.mem_cons_of_mem _ (List.mem_cons_of_mem _ member)
        have subs := bindPatterns tagPassed (innerParams symbols tag) subPatterns fields matched
          (fieldsAt_of_ctor stands) subPassed
        have shell : BindRun value (tested ++ [.loadField slot] ++ emitPatternBindCodes symbols
            types plan consuming slot 1 (innerParams symbols tag) subPatterns)
            (if consuming then [.perform (.free slot)] else []) [] := by
          cases consuming with
          | false => exact .nil
          | true => exact .effect (.free slot)
        have run := (BindRun.load opened stands).append (subs.append shell)
        rwa [List.nil_append, List.append_nil] at run
      · cases matched

theorem bindPatterns {tested : List CaseInstruction} {box : Slot} {offset : Nat}
    (boxPassed : Passed value tested box) (params : List DeclNode) : ∀ (patterns : List Pattern)
      (fields : List SourceValue) {bound : List (DeclNode × SourceValue)},
      Pattern.allBindings? patterns fields = some bound → FieldsAt symbols value box offset fields →
      AllPassed value tested (emitPatternTestCodes symbols box offset patterns) →
        BindRun value tested
          (emitPatternBindCodes symbols types plan consuming box offset params patterns)
          (encodedBindings symbols bound)
  | [], [], bound, matched, _, _ => by
      cases matched
      exact .nil
  | [], _ :: _, _, matched, _, _ => by cases matched
  | _ :: _, [], _, matched, _, _ => by cases matched
  | pattern :: patterns, field :: fields, bound, matched, stand, passed => by
      rw [Pattern.allBindings?] at matched
      rcases Option.bind_eq_some_iff.mp matched with ⟨first, firstMatched, matched⟩
      rcases Option.map_eq_some_iff.mp matched with ⟨others, othersMatched, rfl⟩
      rw [encodedBindings, List.map_append]
      have firstRun := bindPattern ⟨box, offset, rfl, boxPassed⟩ params.head? pattern field
        firstMatched stand.head
        (passed.mono (List.Subset.refl _) (List.subset_append_left _ _))
      apply firstRun.append
      apply bindPatterns _ params.tail patterns fields othersMatched stand.tail
      · exact passed.mono (List.subset_append_left _ _) (List.subset_append_right _ _)
      · exact boxPassed.mono (List.subset_append_left _ _)
end

end

end Topc.CaseCodeGen
