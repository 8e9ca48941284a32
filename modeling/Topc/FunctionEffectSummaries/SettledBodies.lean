import Topc.FunctionEffectSummaries.ReturnOrigins

/-! # Settled bodies

One pass tells the copies of any number of iterations where a second pass over a loop
copies nothing that one pass does not, names mean the same in the scope as in the table,
only formals and locals are assigned, and case statements cover every value. -/

namespace Topc.FunctionEffectSummaries

open OwnershipPaths (armBinders armScope functionScope)

/-! ## Settled statements -/

section

variable (taken : List CaseArm → Option CaseArm → Prop) (symbols : SymbolTable)
  (functionDecl : DeclNode) (assignable : Set DeclNode)

mutual
/-- Names mean the same in the table as in the scope, only assignable variables are
assigned, and a second pass over a loop copies nothing new. -/
def settled (scope : Scope) : Stmt → Prop
  | .assignStmt _ lhs rhs =>
      tabled symbols functionDecl lhs = denoted scope lhs ∧
        tabled symbols functionDecl rhs = denoted scope rhs ∧
          ∀ decl, denoted scope lhs = some decl → decl ∈ assignable
  | .blockStmt _ stmts => settledAll scope stmts
  | .whileStmt info condition body =>
      settled scope body ∧
        IsTrans _ (copiedOnce symbols functionDecl (.whileStmt info condition body))
  | .ifStmt _ _ thenStmt elseStmt => settled scope thenStmt ∧ settledElse scope elseStmt
  | .outputStmt .. | .errorStmt .. => True
  | .caseStmt _ caseExpr arms => ¬ taken arms none ∧ settledArms scope (!caseExpr.isDeRef) arms

def settledAll (scope : Scope) : List Stmt → Prop
  | [] => True
  | stmt :: stmts => settled scope stmt ∧ settledAll scope stmts

def settledElse (scope : Scope) : Option Stmt → Prop
  | none => True
  | some stmt => settled scope stmt

def settledArms (scope : Scope) (byValue : Bool) : List CaseArm → Prop
  | [] => True
  | .mk _ _ patterns body :: arms =>
      ((∀ decl ∈ Pattern.collectAllBindings patterns, decl ∉ assignable) ∧
        settled (armScope scope (armBinders byValue patterns)) body) ∧
          settledArms scope byValue arms
end

/-! ## One pass leaves other variables alone -/

/-- Where only assignable variables are assigned, one pass may leave any other source as
it is. -/
def LeavesOthers (stmt : Stmt) : Prop :=
  ∀ scope, settled taken symbols functionDecl assignable scope stmt →
    ∀ source ∉ some '' assignable, copiedOnce symbols functionDecl stmt source source

theorem leavesOthersAll {stmts : List Stmt}
    (each : ∀ stmt ∈ stmts, LeavesOthers taken symbols functionDecl assignable stmt) {scope : Scope}
    (isSettled : settledAll taken symbols functionDecl assignable scope stmts)
    {source : Source DeclNode} (other : source ∉ some '' assignable) :
    copiedOnceAll symbols functionDecl stmts source source := by
  induction stmts with
  | nil => rfl
  | cons stmt stmts induction =>
      have rest := induction (fun later member => each later (List.mem_cons_of_mem _ member))
        isSettled.2
      exact ⟨source, rest, each stmt List.mem_cons_self scope isSettled.1 source other⟩

theorem leavesOthers (stmt : Stmt) :
    LeavesOthers taken symbols functionDecl assignable stmt := by
  induction stmt with
  | assignStmt info lhs rhs =>
      rintro scope ⟨sameLhs, _, assigned⟩ source other
      rw [copiedOnce, sameLhs]
      cases target : denoted scope lhs with
      | none => rfl
      | some decl =>
          have different : source ≠ some decl := by
            rintro rfl
            exact other ⟨decl, assigned decl target, rfl⟩
          exact (if_neg different).symm
  | blockStmt info stmts each =>
      intro scope isSettled source other
      rw [copiedOnce]
      exact leavesOthersAll taken symbols functionDecl assignable each isSettled other
  | whileStmt => exact fun _ _ _ _ => .inl rfl
  | ifStmt info condition thenStmt elseStmt thenLeaves =>
      exact fun scope isSettled source other => .inl (thenLeaves scope isSettled.1 source other)
  | outputStmt | errorStmt => exact fun _ _ _ _ => rfl
  | caseStmt info caseExpr arms each =>
      intro scope isSettled source other
      cases arms with
      | nil => rfl
      | cons arm arms =>
          cases arm with
          | mk armInfo tag patterns body =>
              rcases isSettled with ⟨_, ⟨_, bodySettled⟩, _⟩
              exact .inl (each _ List.mem_cons_self _ bodySettled source other)

/-! ## One pass keeps what any number of iterations does -/

/-- A source that one pass leads to a set of assignable variables, every run does. -/
def Settles (stmt : Stmt) : Prop :=
  ∀ scope, settled taken symbols functionDecl assignable scope stmt → ∀ held ⊆ some '' assignable,
    keptBy (copiedOnce symbols functionDecl stmt) held ⊆ keptBy (flows taken scope stmt) held

variable {taken symbols functionDecl assignable}

theorem keptBy_assignable {copies : Source DeclNode → Source DeclNode → Prop}
    (leaves : ∀ source ∉ some '' assignable, copies source source) {held : Set (Source DeclNode)}
    (within : held ⊆ some '' assignable) : keptBy copies held ⊆ some '' assignable := by
  intro source kept
  by_contra other
  exact other (within (kept source (leaves source other)))

theorem settles_all {stmts : List Stmt}
    (each : ∀ stmt ∈ stmts, Settles taken symbols functionDecl assignable stmt) {scope : Scope}
    (isSettled : settledAll taken symbols functionDecl assignable scope stmts) :
    ∀ held ⊆ some '' assignable, keptBy (copiedOnceAll symbols functionDecl stmts) held ⊆
      keptBy (flowsAll taken scope stmts) held := by
  induction stmts with
  | nil => exact fun held _ => subset_rfl
  | cons stmt stmts induction =>
      intro held within
      have first := each stmt List.mem_cons_self scope isSettled.1 held within
      have rest := induction (fun later member => each later (List.mem_cons_of_mem _ member))
        isSettled.2
      have between := keptBy_assignable
        (leavesOthers taken symbols functionDecl assignable stmt scope isSettled.1) within
      rw [copiedOnceAll, flowsAll, keptBy_comp, keptBy_comp]
      exact (rest _ between).trans (keptBy_mono _ first)

theorem settles_arms {all arms : List CaseArm}
    (each : ∀ arm ∈ arms, Settles taken symbols functionDecl assignable arm.getBody)
    {scope : Scope} {byValue : Bool}
    (isSettled : settledArms taken symbols functionDecl assignable scope byValue arms) :
    ∀ held ⊆ some '' assignable, keptBy (copiedOnceArms symbols functionDecl arms) held ⊆
      keptBy (flowsArms taken scope byValue all arms) held := by
  induction arms with
  | nil => exact fun held _ source _ origin impossible => impossible.elim
  | cons arm arms induction =>
      intro held within source kept
      have rest := induction (fun later member => each later (List.mem_cons_of_mem _ member))
        (by cases arm; exact isSettled.2) held within
      cases arm with
      | mk info tag patterns body =>
          rcases isSettled with ⟨⟨binders, bodySettled⟩, _⟩
          rw [copiedOnceArms, keptBy_or] at kept
          have first := each _ List.mem_cons_self _ bodySettled held within kept.1
          rintro origin (⟨_, between, copied, received⟩ | later)
          · have holds := first between copied
            rcases within holds with ⟨decl, isAssignable, rfl⟩
            rw [if_neg] at received
            · exact received ▸ holds
            · rintro ⟨binder, bound, same⟩
              exact binders binder bound (Option.some.inj same ▸ isAssignable)
          · exact rest kept.2 origin later

theorem settles (stmt : Stmt) : Settles taken symbols functionDecl assignable stmt := by
  induction stmt with
  | assignStmt info lhs rhs =>
      rintro scope ⟨sameLhs, sameRhs, _⟩ held _
      rw [copiedOnce, flows, sameLhs, sameRhs]
      exact subset_rfl
  | blockStmt info stmts each =>
      intro scope isSettled
      rw [copiedOnce, flows]
      exact settles_all each isSettled
  | whileStmt info condition body bodySettles =>
      rintro scope ⟨bodySettled, isTrans⟩ held within
      rw [flows]
      refine keptBy_star (fun source kept => kept source (.inl rfl)) ?_
      have once := keptBy_assignable
        (leavesOthers taken symbols functionDecl assignable
          (.whileStmt info condition body) scope ⟨bodySettled, isTrans⟩) within
      refine Set.Subset.trans ?_ (bodySettles scope bodySettled _ once)
      intro source kept between copied origin copiedOn
      exact kept origin (isTrans.trans _ _ _ (.inr copied) copiedOn)
  | ifStmt info condition thenStmt elseStmt thenSettles elseSettles =>
      rintro scope ⟨thenSettled, elseSettled⟩ held within
      simp only [copiedOnce, flows, keptBy_or]
      refine Set.inter_subset_inter (thenSettles scope thenSettled held within) ?_
      cases elseStmt with
      | none => exact subset_rfl
      | some stmt => exact elseSettles stmt rfl scope elseSettled held within
  | outputStmt => exact fun _ _ _ _ => subset_rfl
  | errorStmt => exact fun _ _ _ _ _ _ _ impossible => impossible.elim
  | caseStmt info caseExpr arms each =>
      rintro scope ⟨covers, armsSettled⟩ held within source kept origin (⟨uncovered, _⟩ | copied)
      · exact absurd uncovered covers
      · cases arms with
        | nil => exact copied.elim
        | cons arm arms => exact settles_arms each armsSettled held within kept origin copied

end

/-! ## Case statements that cover every value -/

theorem forall_not_matches {value : Datum String} {arms : List CaseArm}
    (fallen : FirstMatch value arms none) : ∀ arm ∈ arms, ¬ arm.shape.Matches value := by
  induction arms with
  | nil => exact nofun
  | cons arm arms induction =>
      cases fallen with
      | later unmatched rest => exact List.forall_mem_cons.mpr ⟨unmatched, induction rest⟩

/-- No value falls through where each constructor has an arm that does not test its
payloads. -/
theorem not_branchTaken_none {symbols : SymbolTable} {types : TypeResults} {arms : List CaseArm}
    {owner : SumTypeDecl}
    (isOwner : (arms.head?.bind fun arm => symbols.getConstructorOwner arm.getTag) = some owner)
    (covers : ∀ variant ∈ owner.variants, ∃ arm ∈ arms, arm.getTag = variant.tag ∧
      arm.getPatterns.length = variant.params.length ∧
        ∀ shape ∈ Pattern.shapes arm.getPatterns, shape = .any) :
    ¬ BranchTaken symbols types arms none := by
  rintro ⟨other, value, isOther, fits, fallen⟩
  cases isOwner.symm.trans isOther
  cases value with
  | other => cases fits
  | ctor tag parts =>
      rcases fits with ⟨_, constructors, payloads, member, fit⟩
      cases constructors
      rcases List.mem_map.mp member with ⟨variant, isVariant, same⟩
      cases same
      rcases covers variant isVariant with ⟨arm, isArm, sameTag, sameLength, untested⟩
      apply forall_not_matches fallen arm isArm
      have sameParts : (Pattern.shapes arm.getPatterns).length = parts.length := by
        rw [Pattern.shapes_eq, List.length_map, sameLength, fit.length_eq, List.length_map]
      exact ⟨sameTag, Shape.allMatch_any untested sameParts⟩

/-! ## Settled functions -/

section

variable (symbols : SymbolTable) (types : TypeResults)

/-- The body is settled, where formals and locals are assigned, and the returned name
means the same in the table as in the scope. -/
def Settled (function : Function) : Prop :=
  settledAll (BranchTaken symbols types) symbols function.decl
      { decl | decl ∈ function.formals ++ function.declarations } (functionScope function)
      function.stmts ∧
    tabled symbols function.decl function.returnArg =
      denoted (functionScope function) function.returnArg

variable {symbols types}

theorem Settled.returnsCopyOf {function : Function} (settled : Settled symbols types function)
    {formal : DeclNode} (member : formal ∈ function.formals)
    (copies : CopiesOnce symbols function formal) :
    ReturnsCopyOf symbols types function formal := by
  have within : {some formal} ⊆
      some '' { decl | decl ∈ function.formals ++ function.declarations } := by
    rintro _ rfl
    exact ⟨formal, List.mem_append_left _ member, rfl⟩
  have kept := settles_all (fun stmt _ => settles stmt) settled.1 _ within
  rw [ReturnsCopyOf, ← settled.2]
  exact kept copies

/-- The formal that the summary of a settled function records is what every run returns. -/
theorem Settled.alwaysReturns {function : Function} (settled : Settled symbols types function)
    {rules : RuleToggles} {formal : DeclNode}
    (records : RecordsFormal rules symbols types function formal) (V : Type*) [Nontrivial V] :
    AlwaysReturns V symbols types function formal := by
  have summarized := records
  rcases summarized with ⟨summary, _, summarized, _⟩
  rw [recordsFormal_iff summarized] at records
  rw [alwaysReturns_iff]
  exact settled.returnsCopyOf records.1 records.2

end

/-! ## A loop that settles -/

namespace KeptFormal

def p : DeclNode := { id := 1, name := "p" }

def x : DeclNode := { id := 2, name := "x" }

def n : DeclNode := { id := 3, name := "n" }

def a : DeclNode := { id := 4, name := "a" }

def b : DeclNode := { id := 5, name := "b" }

def v : DeclNode := { id := 6, name := "v" }

/-- `while (n > 0) { b = a; n = n - 1; }` -/
def loop : Stmt :=
  .whileStmt { id := 11 }
    (.binaryExpr { id := 12 } .gt (.varExpr { id := 13 } "n") (.numExpr { id := 14 } 0))
    (.blockStmt { id := 15 } [
      .assignStmt { id := 16 } (.varExpr { id := 17 } "b") (.varExpr { id := 18 } "a"),
      .assignStmt { id := 19 } (.varExpr { id := 20 } "n")
        (.binaryExpr { id := 21 } .sub (.varExpr { id := 22 } "n") (.numExpr { id := 23 } 1))])

/-- `case x of { N -> a = p; S(v) -> { a = b; b = v; } }` -/
def arms : List CaseArm := [
  .mk { id := 24 } "N" []
    (.assignStmt { id := 25 } (.varExpr { id := 26 } "a") (.varExpr { id := 27 } "p")),
  .mk { id := 28 } "S" [.var { id := 29 } v]
    (.blockStmt { id := 30 } [
      .assignStmt { id := 31 } (.varExpr { id := 32 } "a") (.varExpr { id := 33 } "b"),
      .assignStmt { id := 34 } (.varExpr { id := 35 } "b") (.varExpr { id := 36 } "v")])]

/-- `keep(p, x, n) { var a, b; a = p; b = p; while … case … return a; }` -/
def keep : Function where
  decl := { id := 0, name := "keep" }
  formals := [p, x, n]
  declarations := [a, b]
  stmts := [
    .assignStmt { id := 7 } (.varExpr { id := 8 } "a") (.varExpr { id := 9 } "p"),
    .assignStmt { id := 10 } (.varExpr { id := 37 } "b") (.varExpr { id := 38 } "p"),
    loop,
    .caseStmt { id := 39 } (.varExpr { id := 40 } "x") arms]
  returnInfo := { id := 41 }
  returnArg := .varExpr { id := 42 } "a"

def payload : DeclNode := { id := 43, name := "x" }

def optional : SumTypeDecl := ⟨"O", [⟨"N", [], 0⟩, ⟨"S", [payload], 0⟩], 0⟩

/-- `main() { return keep(1, N, 2); }` -/
def main : Function where
  decl := { id := 44, name := "main" }
  formals := []
  declarations := []
  stmts := []
  returnInfo := { id := 45 }
  returnArg := .funAppExpr { id := 46 } (.varExpr { id := 47 } "keep")
    [.numExpr { id := 48 } 1, .sumCtorExpr { id := 49 } "N" [], .numExpr { id := 50 } 2]

/-- `type O = N | S(x);`, `keep` and `main`. -/
def program : Program where
  typedecls := [optional]
  functions := [keep, main]

def optionalType : TopType := .sumType "O" [("N", 0), ("S", 1)] [.int]

def types : TypeResults where
  ofDecl decl :=
    if decl = keep.decl then .function [.int, optionalType, .int] .int
    else if decl = main.decl then .function [] .int
    else if decl = x then optionalType
    else .int
  ofExpr
    | .sumCtorExpr .. => optionalType
    | .varExpr _ name => if name = "x" then optionalType else .int
    | _ => .int

/-- What the table says about the names of `keep`. -/
structure Tabled (symbols : SymbolTable) : Prop where
  isP : symbols.getLocal "p" keep.decl = some p
  isN : symbols.getLocal "n" keep.decl = some n
  isA : symbols.getLocal "a" keep.decl = some a
  isB : symbols.getLocal "b" keep.decl = some b
  isV : symbols.getLocal "v" keep.decl = some v
  variants : (symbols.getConstructorOwner "N").map (fun owner =>
    owner.variants.map fun variant => (variant.tag, variant.params)) =
      some [("N", []), ("S", [payload])]

theorem program_recorded : ∃ symbols, SymbolTable.build program = .ok symbols ∧
    Tabled symbols ∧ RecordsFormal .allEnabled symbols types keep p := by
  have holds : (match SymbolTable.build program with
      | .error _ => false
      | .ok symbols =>
          match summarize .allEnabled symbols types keep with
          | .error _ => false
          | .ok summary => decide ((symbols.getLocal "p" keep.decl = some p ∧
              symbols.getLocal "n" keep.decl = some n ∧
              symbols.getLocal "a" keep.decl = some a ∧
              symbols.getLocal "b" keep.decl = some b ∧
              symbols.getLocal "v" keep.decl = some v ∧
              (symbols.getConstructorOwner "N").map (fun owner =>
                owner.variants.map fun variant => (variant.tag, variant.params)) =
                  some [("N", []), ("S", [payload])]) ∧
              summary.returnOrigin = .fromFormal ∧ summary.returnFormalIndex = some 0)) = true := by
    decide +kernel
  split at holds
  · cases holds
  · rename_i symbols built
    split at holds
    · cases holds
    · rename_i summary summarized
      rcases of_decide_eq_true holds with ⟨⟨isP, isN, isA, isB, isV, variants⟩, origin, index⟩
      have table : Tabled symbols := ⟨isP, isN, isA, isB, isV, variants⟩
      exact ⟨symbols, built, table, summary, 0, summarized, rfl, origin, index⟩

/-- A second iteration copies nothing that one does not. -/
theorem loop_isTrans {symbols : SymbolTable} (table : Tabled symbols) :
    IsTrans _ (copiedOnce symbols keep.decl loop) := by
  have once : ∀ source origin, copiedOnce symbols keep.decl loop source origin ↔
      source = origin ∨ origin =
        if source = some n then none else if source = some b then some a else source := by
    intro source origin
    simp only [loop, copiedOnce, copiedOnceAll, Relation.Comp, tabled, table.isA, table.isB,
      table.isN]
    by_cases isN : source = some n <;> simp [isN]
  refine ⟨fun first second third firstCopied secondCopied => ?_⟩
  rw [once] at *
  rcases firstCopied with rfl | rfl
  · exact secondCopied
  · rcases secondCopied with rfl | rfl
    · exact .inr rfl
    · right
      by_cases isN : first = some n
      · simp [isN]
      · by_cases isB : first = some b
        · simp [isB, a, b, n]
        · simp [isN, isB]

/-- The two arms cover the type. -/
theorem arms_cover {symbols : SymbolTable} (table : Tabled symbols) :
    ¬ BranchTaken symbols types arms none := by
  have variants := table.variants
  rcases Option.map_eq_some_iff.mp variants with ⟨owner, isOwner, isVariants⟩
  refine not_branchTaken_none isOwner ?_
  intro variant member
  have listed : (variant.tag, variant.params) ∈ [("N", []), ("S", [payload])] := by
    rw [← isVariants]
    exact List.mem_map_of_mem member
  rcases List.mem_pair.mp listed with same | same
  · rw [Prod.mk.injEq] at same
    rw [same.1, same.2]
    exact ⟨_, List.mem_cons_self, rfl, rfl, nofun⟩
  · rw [Prod.mk.injEq] at same
    rw [same.1, same.2]
    exact ⟨_, List.mem_cons_of_mem _ List.mem_cons_self, rfl, rfl, by simp [CaseArm.getPatterns,
      Pattern.shapes, Pattern.shape]⟩

theorem keep_settled {symbols : SymbolTable} (table : Tabled symbols) :
    Settled symbols types keep := by
  refine ⟨⟨⟨table.isA, table.isP, by decide⟩, ⟨table.isB, table.isP, by decide⟩, ?_, ?_, trivial⟩,
    table.isA⟩
  · exact ⟨⟨⟨table.isB, table.isA, by decide⟩, ⟨table.isN, rfl, by decide⟩, trivial⟩,
      loop_isTrans table⟩
  · refine ⟨arms_cover table, ⟨by decide, table.isA, table.isP, by decide⟩, ⟨by decide, ?_⟩,
      trivial⟩
    exact ⟨⟨table.isA, table.isB, by decide⟩, ⟨table.isB, table.isV, by decide⟩, trivial⟩

/-- `keep` returns its first argument. -/
theorem keep_alwaysReturns : ∃ symbols, SymbolTable.build program = .ok symbols ∧
    Settled symbols types keep ∧ RecordsFormal .allEnabled symbols types keep p ∧
      AlwaysReturns Int symbols types keep p := by
  rcases program_recorded with ⟨symbols, built, table, records⟩
  have settled := keep_settled table
  exact ⟨symbols, built, settled, records, settled.alwaysReturns records Int⟩

end KeptFormal

end Topc.FunctionEffectSummaries
