import Mathlib.Data.List.Find
import Topc.CodeGen.ChainExecution
import Topc.CodeGen.Preservation
import Topc.SemanticAnalysis.PassedFunctions

/-! # Arms selected in memory

On a word that represents a value of its type, the basic blocks of an accepted case
statement enter the arm that comes first in the source. -/

namespace Topc

open BasicBlocks CodeGenVisitor

/-! ## Values in memory -/

/-- What stands for a value: the word itself, or the address of a box with the tag and
then the payloads. -/
inductive Memory.Represents (memory : Memory) : Value → Word → Prop
  | word (bits : Int) : Represents memory (.word bits) (BitVec.ofInt 64 bits)
  | box {tag : Nat} {payloads : List Value} {address : Word} (contents : Nat → Word)
      (fits : tag < 2 ^ 64) (tagCell : memory.cell address = some (BitVec.ofNat 64 tag))
      (cells : ∀ index < payloads.length,
        memory.cell (Memory.field address (index + 1)) = some (contents index))
      (each : ∀ index payload, payloads[index]? = some payload →
        Represents memory payload (contents index)) :
      Represents memory (.box tag payloads) address

/-- The cell has a word for the value, if there is one. -/
def Memory.Holds (memory : Memory) (address : Word) (value : Option Value) : Prop :=
  ∀ inner, value = some inner →
    ∃ word, memory.cell address = some word ∧ memory.Represents inner word

theorem Memory.Represents.holds {memory : Memory} {value : Value} {slot : Slot} {tag : Nat}
    {payloads : List Value} {address : Word}
    (represents : memory.Represents (.box tag payloads) address)
    (stands : value.at? slot = some (.box tag payloads)) :
    ∀ offset, 0 < offset →
      memory.Holds (Memory.field address offset) (value.at? (slot ++ [offset])) := by
  intro offset positive inner isInner
  cases represents with
  | box contents fits tagCell cells each =>
      cases offset with
      | zero => exact absurd positive (Nat.lt_irrefl 0)
      | succ index =>
          rw [Value.at?_field stands] at isInner
          exact ⟨contents index, cells index (List.getElem?_eq_some_iff.mp isInner).1,
            each index inner isInner⟩

theorem Runtime.load_eq {world : World} {address word : Word}
    (cell : world.memory.cell address = some word) :
    Runtime.load address world = some (.returned word world) := by
  rw [Runtime.load, cell, Option.map_some]

/-! ## Tags -/

/-- The indices of the constructors fit into a word. -/
def SymbolTable.IndicesFit (symbols : SymbolTable) : Prop :=
  ∀ tag owner, symbols.getConstructorOwner tag = some owner → owner.variants.length ≤ 2 ^ 64

namespace CaseCodeGen

variable {symbols : SymbolTable}

theorem innerTagIdx_lt (fits : symbols.IndicesFit) (tag : String) :
    innerTagIdx symbols tag < 2 ^ 64 := by
  rw [innerTagIdx]
  cases owned : symbols.getConstructorOwner tag with
  | none => exact Nat.two_pow_pos 64
  | some owner =>
      dsimp only
      cases found : owner.variants.findIdx? fun variant => variant.tag == tag with
      | none => exact Nat.two_pow_pos 64
      | some index =>
          rw [List.findIdx?_eq_some_iff_getElem] at found
          rcases found with ⟨bounded, _⟩
          exact Nat.lt_of_lt_of_le bounded (fits tag owner owned)

theorem variantIndex_lt (fits : symbols.IndicesFit) (arms : List CaseArm) (tag : String) :
    variantIndex (ownerDecl symbols arms) tag < 2 ^ 64 := by
  rw [variantIndex]
  cases owned : ownerDecl symbols arms with
  | none => exact Nat.two_pow_pos 64
  | some owner =>
      rcases Option.bind_eq_some_iff.mp owned with ⟨first, _, owned⟩
      rw [Option.bind_some]
      cases found : owner.variants.zipIdx.reverse.find? fun entry => entry.1.tag == tag with
      | none => exact Nat.two_pow_pos 64
      | some entry =>
          have member := List.mem_reverse.mp (List.mem_of_find?_eq_some found)
          rcases entry with ⟨variant, index⟩
          rw [List.mk_mem_zipIdx_iff_getElem?] at member
          exact Nat.lt_of_lt_of_le (List.getElem?_eq_some_iff.mp member).1
            (fits first.getTag owner owned)

end CaseCodeGen

namespace Activation

/-! ## Tests -/

section

variable {activation : Activation} {value : Value} {world : World}

mutual
/-- What the instructions find in a value, the tests find in the memory. -/
theorem matchPattern_of_runBlock (fits : activation.context.symbols.IndicesFit)
    {box : Slot} {offset : Nat} {base : Word}
    (holds : world.memory.Holds (Memory.field base offset) (value.at? (box ++ [offset]))) :
    ∀ (pattern : Pattern) {passed : Bool} {trace : List CaseInstruction},
      CaseCodeGen.runBlock value (CaseCodeGen.emitPatternTestCode activation.context.symbols
        (box ++ [offset]) pattern) = some (passed, trace) →
      activation.matchPattern base offset pattern world = some (.returned passed world)
  | .var .. | .wildcard _ => by
      intro ran
      rw [CaseCodeGen.emitPatternTestCode] at ran
      cases ran
      rfl
  | .ctor info tag subPatterns => by
      intro ran
      rw [CaseCodeGen.emitPatternTestCode, CaseCodeGen.runBlock, CaseCodeGen.step] at ran
      cases stands : value.at? (box ++ [offset]) with
      | none =>
          rw [stands] at ran
          cases ran
      | some inner =>
          rw [stands] at ran
          rcases Option.map_eq_some_iff.mp ran with ⟨⟨_, later⟩, tagRan, equal⟩
          cases equal
          rcases holds inner stands with ⟨word, cell, represents⟩
          rw [matchPattern, Run.bind_of_returned _ (Runtime.load_eq cell)]
          rw [CaseCodeGen.runBlock, CaseCodeGen.step, stands] at tagRan
          cases represents with
          | word bits => cases tagRan
          | @box innerTag payloads _ contents tagFits tagCell cells each =>
              rw [Run.bind_of_returned _ (Runtime.load_eq tagCell)]
              have sameTag : BitVec.ofNat 64 innerTag = BitVec.ofNat 64
                  (CaseCodeGen.innerTagIdx activation.context.symbols tag) ↔
                    innerTag = CaseCodeGen.innerTagIdx activation.context.symbols tag :=
                Word.ofNat_inj tagFits (CaseCodeGen.innerTagIdx_lt fits tag)
              by_cases same : innerTag = CaseCodeGen.innerTagIdx activation.context.symbols tag
              · dsimp only at tagRan
                rw [beq_iff_eq.mpr same] at tagRan
                rw [if_pos (sameTag.mpr same)]
                rcases Option.map_eq_some_iff.mp tagRan with ⟨⟨_, rest⟩, restRan, equal⟩
                cases equal
                exact matchPatterns_of_runBlock fits (fun later positive =>
                  (Memory.Represents.box contents tagFits tagCell cells each).holds stands later
                    positive) subPatterns restRan
              · dsimp only at tagRan
                rw [beq_eq_false_iff_ne.mpr same] at tagRan
                cases tagRan
                rw [if_neg fun equal => same (sameTag.mp equal)]
                rfl

theorem matchPatterns_of_runBlock (fits : activation.context.symbols.IndicesFit)
    {box : Slot} {offset : Nat} {base : Word}
    (holds : ∀ later, offset ≤ later →
      world.memory.Holds (Memory.field base later) (value.at? (box ++ [later]))) :
    ∀ (patterns : List Pattern) {passed : Bool} {trace : List CaseInstruction},
      CaseCodeGen.runBlock value (CaseCodeGen.emitPatternTestCodes activation.context.symbols
        box offset patterns) = some (passed, trace) →
      activation.matchPatterns base offset patterns world = some (.returned passed world)
  | [] => by
      intro ran
      rw [CaseCodeGen.emitPatternTestCodes] at ran
      cases ran
      rfl
  | pattern :: patterns => by
      intro ran
      rw [CaseCodeGen.emitPatternTestCodes] at ran
      cases first : CaseCodeGen.runBlock value (CaseCodeGen.emitPatternTestCode
          activation.context.symbols (box ++ [offset]) pattern) with
      | none =>
          rw [CaseCodeGen.runBlock_append, first] at ran
          cases ran
      | some result =>
          rcases result with ⟨holdsFirst, tested⟩
          rw [matchPatterns, Run.bind_of_returned _ (matchPattern_of_runBlock
            fits (holds offset (Nat.le_refl _)) pattern first)]
          cases holdsFirst with
          | false =>
              rw [CaseCodeGen.runBlock_append_failed first] at ran
              cases ran
              rfl
          | true =>
              rw [CaseCodeGen.runBlock_append_passed first] at ran
              rcases Option.map_eq_some_iff.mp ran with ⟨⟨_, later⟩, restRan, equal⟩
              cases equal
              exact matchPatterns_of_runBlock fits (fun later after =>
                holds later (Nat.le_of_succ_le after)) patterns restRan
end

/-! ## Arms -/

variable (fits : activation.context.symbols.IndicesFit) (body : CaseArm → Runtime.Run Unit)
  {arms : List CaseArm} {consuming : Bool} {box : Word}

/-- Go into the arm that has been selected. -/
def enterSelected (activation : Activation) (body : CaseArm → Runtime.Run Unit) (box : Word)
    (consuming : Bool) (arms : List CaseArm) : Option CaseArm → Runtime.Run Bool
  | none => return false
  | some arm => do
      activation.enterArm body box (activation.armCode consuming arms arm)
      return true

include fits

theorem runChain_selects (represents : world.memory.Represents value box) {tag : Nat}
    {payloads : List Value} (isBox : value = .box tag payloads) (chain : List CaseArm) :
    ∀ {run : CaseCodeGen.Run},
      CaseCodeGen.runChain value (chain.map (activation.armCode consuming arms)) = some run →
      activation.runChain body box (chain.map (activation.armCode consuming arms)) world =
        activation.enterSelected body box consuming arms run.selected world := by
  induction chain with
  | nil =>
      intro run ran
      cases ran
      rfl
  | cons arm chain induction =>
      intro run ran
      rw [List.map_cons, CaseCodeGen.runChain] at ran
      cases tested : CaseCodeGen.runBlock value (activation.armCode consuming arms arm).tests with
      | none =>
          rw [tested] at ran
          cases ran
      | some result =>
          rcases result with ⟨passed, trace⟩
          have tests : activation.matchPatterns box 1 arm.getPatterns world =
              some (.returned passed world) := by
            subst isBox
            apply matchPatterns_of_runBlock fits _ _ tested
            exact fun offset positive => represents.holds rfl offset positive
          rw [List.map_cons, runChain, runBlock_tests, Run.bind_of_returned _ tests]
          rw [tested] at ran
          cases passed with
          | false =>
              rcases Option.map_eq_some_iff.mp ran with ⟨later, laterRan, rfl⟩
              have entered := induction laterRan
              exact entered
          | true =>
              rcases Option.map_eq_some_iff.mp ran with ⟨_, _, rfl⟩
              rfl

/-- On a word that represents the value the instructions select what they select on the value. -/
theorem runCase_selects {info : NodeInfo} (represents : world.memory.Represents value box)
    {run : CaseCodeGen.Run}
    (ran : CaseCodeGen.runCase value (activation.caseCode info arms) = some run) :
    activation.runCase body box (activation.caseCode info arms) world =
      activation.enterSelected body box (CaseCodeGen.isConsuming activation.context.plan info) arms
        run.selected world := by
  cases represents with
  | word bits => cases ran
  | @box index payloads _ contents indexFits indexCell cells each =>
      have sameBranch : ∀ name ∈ CaseCodeGen.tagOrder arms,
          decide (BitVec.ofNat 64 (CaseCodeGen.variantIndex
            (CaseCodeGen.ownerDecl activation.context.symbols arms) name) = BitVec.ofNat 64 index) =
              (CaseCodeGen.variantIndex (CaseCodeGen.ownerDecl activation.context.symbols arms)
                name == index) := by
        intro name _
        rw [Bool.eq_iff_iff, decide_eq_true_iff, beq_iff_eq,
          Word.ofNat_inj (CaseCodeGen.variantIndex_lt fits arms name) indexFits]
      rw [CaseCodeGen.runCase, caseCode, CaseCodeGen.generateCase, List.find?_map] at ran
      rw [runCase, Run.bind_of_returned _ (Runtime.load_eq indexCell), caseCode,
        CaseCodeGen.generateCase, List.map_map, Run.select, List.find?_map]
      unfold Function.comp at ran ⊢
      dsimp only at ran ⊢
      rw [List.find?_congr sameBranch]
      cases found : (CaseCodeGen.tagOrder arms).find? fun name => CaseCodeGen.variantIndex
          (CaseCodeGen.ownerDecl activation.context.symbols arms) name == index with
      | none =>
          rw [found] at ran
          cases ran
          rfl
      | some name =>
          rw [found] at ran
          rcases Option.map_eq_some_iff.mp ran with ⟨entered, chainRan, rfl⟩
          have selects := runChain_selects fits body
            (.box contents indexFits indexCell cells each) rfl _ chainRan
          exact selects

end

end Activation

/-! ## Accepted case statements -/

namespace SemanticAnalysis

section

variable {analysis : SemanticAnalysis} {program : Program}

theorem Infers.indicesFit (infers : analysis.Infers program) (fits : TagsFit program)
    (distinct : (program.functions.map Function.decl).Nodup) : analysis.marked.IndicesFit := by
  intro tag owner owned
  rw [infers.getConstructorOwner_marked distinct] at owned
  rcases SymbolTable.getConstructorOwner_declared infers.symbols owned with ⟨_, _, declares⟩
  exact fits owner declares.ownerMem

end

namespace PairInMemory

open CaseCodeGen.PairedArms

/-- The slots of `o`, `p` and `q`, and `Pair(Neg(3), Neg(4))` in three blocks. -/
def cells : List (Word × Word) :=
  [(0x288, 0x1000), (0x148, 0), (0x158, 0), (0x1000, 1), (0x1008, 0x2000), (0x1010, 0x3000),
    (0x2000, 1), (0x2008, 3), (0x3000, 1), (0x3008, 4)]

def blocks : List (Word × Nat) :=
  [(0x1000, 3), (0x2000, 2), (0x3000, 2)]

def world : World where
  memory := ⟨fun address => cells.lookup address, fun address => blocks.lookup address⟩
  inputs := []
  arguments := []
  events := []

def slotAddress (slot : NodeId) : Word := 8 * BitVec.ofNat 64 slot

def matchedExpr : Expr := .varExpr { id := 88 } "o"

def scope : NamedValues := (main.formals ++ main.declarations).foldl allocate ∅

section

variable (analysis : SemanticAnalysis)

def context : CodeGenContext := analysis.codeGenContext .allEnabled program

def activation : Activation :=
  ⟨context analysis, UnboxedSum.platform, program.functions.length,
    program.call (context analysis) UnboxedSum.platform 4, 4, slotAddress⟩

/-- What is done for `Pair(p, Neg(q)) -> output 0;`. -/
def entersPairNeg : Runtime.Run Unit := do
  let box ← (activation analysis).evalExpr scope matchedExpr
  (activation analysis).enterArm ((activation analysis).evalBody scope) box
    ((activation analysis).armCode
      (CaseCodeGen.isConsuming (activation analysis).context.plan caseInfo) arms pairNeg)
  Activation.freeIf (CaseCodeGen.isConsuming (activation analysis).context.plan caseInfo) box

/-- The output is written, and all blocks are free. -/
def ends : Bool :=
  (entersPairNeg analysis world).any fun outcome =>
    outcome.world.events = [.output 0] &&
      blocks.all fun block => outcome.world.memory.block block.1 = none

def pairCode : IrGen Unit := generateStmt (context analysis) (.caseStmt caseInfo matchedExpr arms)

/-- The indices of `Pair` and `Neg`, and how many payloads they have. -/
def layout : List Nat :=
  ["Pair", "Neg"].flatMap fun tag => [CaseCodeGen.innerTagIdx analysis.marked tag,
    (CaseCodeGen.innerParams analysis.marked tag).length]

end

theorem represents_neg {address : Word} {bits : Int} (tagCell : world.memory.cell address = some 1)
    (payload : world.memory.cell (Memory.field address 1) = some (BitVec.ofInt 64 bits)) :
    world.memory.Represents (.box 1 [.word bits]) address := by
  refine .box (fun _ => BitVec.ofInt 64 bits) (by decide) tagCell ?_ ?_
  · intro index bounded
    cases Nat.lt_one_iff.mp bounded
    exact payload
  · intro index payload stands
    cases index with
    | zero =>
        cases stands
        exact .word bits
    | succ index => cases stands

theorem represents {analysis : SemanticAnalysis} (laidOut : layout analysis = [1, 2, 1, 1]) :
    world.memory.Represents (value.encode analysis.marked) 0x1000 := by
  simp only [layout, List.flatMap_cons, List.flatMap_nil, List.cons_append, List.nil_append,
    List.append_nil, List.cons.injEq, and_true] at laidOut
  rcases laidOut with ⟨pairIndex, pairArity, negIndex, negArity⟩
  have encoded : value.encode analysis.marked =
      .box 1 [.box 1 [.word 3], .box 1 [.word 4]] := by
    simp [value, SourceValue.encode, SourceValue.encodeAll, CaseCodeGen.construct, pairIndex,
      pairArity, negIndex, negArity]
  rw [encoded]
  refine .box (fun index => if index = 0 then 0x2000 else 0x3000) (by decide) rfl ?_ ?_
  · decide
  · intro index payload stands
    rcases index with _ | _ | index
    · cases stands
      exact represents_neg rfl rfl
    · cases stands
      exact represents_neg rfl rfl
    · cases stands

end PairInMemory

end SemanticAnalysis

end Topc
