import Topc.Types.SolvedConstraints

/-! # Closing reference modes

A reference mode closes to the concrete mode of its class. A class without one
has to be a single mode variable for its members to close at all. -/

namespace Topc

namespace TopTypeClosure

open TopType

/-! ## Which types close -/

section

variable {uf : TermUnionFind TopType}

theorem closeWithin_mode {depth : Nat} (deep : 0 < depth) (path : List TypeVar) (value : ReferenceMode) :
    closeWithin uf depth path (.mode value) = .ok (.mode value) := by
  obtain ⟨rest, rfl⟩ : ∃ rest, depth = rest + 1 := ⟨depth - 1, by omega⟩
  rfl

variable (keeps : TermUnifier.KeepsSort sort uf.root)

include keeps

/-- A mode variable is represented by a mode. -/
theorem root_modeVar (id : Nat) :
    (∃ value, uf.root (.modeVar id) = .mode value) ∨
      ∃ other, uf.root (.modeVar id) = .modeVar other := by
  have isMode : (uf.root (.modeVar id)).isMode = true := root_isMode keeps rfl
  cases rep : uf.root (.modeVar id) with
  | mode value => exact .inl ⟨value, rfl⟩
  | modeVar other => exact .inr ⟨other, rfl⟩
  | _ =>
      rw [rep] at isMode
      cases isMode

/-- Every type a walk from a type with settled modes meets is closed, with enough
depth for the variables the walk has not followed. -/
theorem closeWithin_exists {start : TopType} (settled : ModesSettled uf start)
    (startTerm : IsTerm start) (depth : Nat) : ∀ (type : TopType) (path : List TypeVar),
      Reaches uf ([], start) (path, type) → uf.edges.length + 2 ≤ depth + path.length →
        ∃ closed, closeWithin uf depth path type = .ok closed ∧
          (type.isMode = true → closed.isMode = true) := by
  induction depth with
  | zero =>
      intro type path walked enough
      have bounded := (Reaches.followed keeps walked startTerm .nil).length_le
      change path.length ≤ uf.edges.length at bounded
      omega
  | succ depth below =>
      intro type
      induction type using shapeInduction with
      | var v =>
          intro path walked enough
          rw [closeWithin, closeType, closeVar]
          by_cases follows : v ∉ path ∧ uf.root (.var v) ≠ .var v
          · rcases below _ (v :: path) (walked.tail (.follow follows.1 follows.2))
              (by rw [List.length_cons]; omega) with ⟨closedV, closedRep, _⟩
            refine ⟨bindCycle v closedV, ?_, fun impossible => by cases impossible⟩
            rw [if_pos follows, closedRep]
            rfl
          · exact ⟨.var (alphaOf v), if_neg follows, fun impossible => by cases impossible⟩
      | modeVar id =>
          intro path walked enough
          rw [closeWithin, closeType, closeModeVar]
          rcases root_modeVar keeps id with ⟨value, rep⟩ | ⟨other, rep⟩
          · have deep : 0 < depth := by
              have bounded := (Reaches.followed keeps walked startTerm .nil).length_le
              change path.length ≤ uf.edges.length at bounded
              omega
            rw [rep]
            exact ⟨.mode value, closeWithin_mode deep path value, fun _ => rfl⟩
          · have same := settled path id other walked rep
            subst same
            exact ⟨.modeVar other, if_pos rep, fun _ => rfl⟩
      | compound type compound children =>
          intro path walked enough
          apply closeType_compound_exists (Reaches.isTerm keeps walked startTerm) compound
          intro child member
          exact children child member path (walked.tail (.child member)) enough
      | mu v body =>
          intro path walked _
          exact absurd (Reaches.isTerm keeps walked startTerm) IsTerm.not_mu

/-- A type closes exactly when the modes met from it are settled. -/
theorem close_exists_iff {type : TopType} (term : IsTerm type) :
    (∃ closed, close uf type = .ok closed) ↔ ModesSettled uf type := by
  constructor
  · rintro ⟨closed, result⟩
    exact modesSettled_of_close result
  · intro settled
    rcases closeWithin_exists keeps settled term (uf.edges.length + 3) type [] .refl
      (by rw [List.length_nil]; omega) with ⟨closed, result, _⟩
    exact ⟨closed, result⟩

end

/-! ## The classes of modes -/

/-- The class of a mode variable has no concrete mode. -/
def Unsettled (uf : TermUnionFind TopType) (id : Nat) : Prop :=
  ∀ value, uf.root (.modeVar id) ≠ uf.root (.mode value)

/-- Every type of the program closes, a mode variable closes to the concrete mode
of its class, and all members of a class without one close to one mode variable. -/
structure ModesClose (uf : TermUnionFind TopType) : Prop where
  total : ∀ type : TopType, type.inProgram = true → ∃ closed, close uf type = .ok closed
  concrete : ∀ id value, uf.root (.modeVar id) = uf.root (.mode value) →
    close uf (.modeVar id) = .ok (.mode value)
  shared : ∀ id, Unsettled uf id → ∃ rep, ∀ other,
    uf.root (.modeVar other) = uf.root (.modeVar id) →
      close uf (.modeVar other) = .ok (.modeVar rep)

section

variable {uf : TermUnionFind TopType}

variable (keeps : TermUnifier.KeepsSort sort uf.root) (congruent : Term.Congruent uf.root)

include keeps congruent

/-- A concrete mode represents its own class. -/
theorem root_mode (value : ReferenceMode) : uf.root (.mode value) = .mode value := by
  have isMode : (uf.root (.mode value)).isMode = true := root_isMode keeps rfl
  have compound := congruent.compound (.mode value) rfl
  have functor := congruent.functor (.mode value) rfl
  cases rep : uf.root (.mode value) with
  | mode other =>
      rw [rep] at functor
      revert functor
      cases value <;> cases other <;> simp [Term.getFunctor, getFunctor]
  | modeVar id =>
      rw [rep] at compound
      cases compound
  | _ =>
      rw [rep] at isMode
      cases isMode

theorem unsettled_iff (id : Nat) :
    Unsettled uf id ↔ ∃ other, uf.root (.modeVar id) = .modeVar other := by
  constructor
  · intro unsettled
    apply (root_modeVar keeps id).resolve_left
    rintro ⟨value, rep⟩
    exact unsettled value (rep.trans (root_mode keeps congruent value).symm)
  · rintro ⟨other, rep⟩ value same
    rw [rep, root_mode keeps congruent] at same
    cases same

omit keeps congruent in
theorem close_modeVar {id : Nat} (unbound : uf.root (.modeVar id) = .modeVar id) :
    close uf (.modeVar id) = .ok (.modeVar id) := by
  rw [close, closeWithin, closeType, closeModeVar]
  exact if_pos unbound

omit keeps in
/-- A reference is represented by a reference. -/
theorem root_reference (refMode referenced : TopType) : ∃ repMode repReferenced,
    uf.root (.reference refMode referenced) = .reference repMode repReferenced := by
  have compound := congruent.compound (.reference refMode referenced) rfl
  have functor := congruent.functor (.reference refMode referenced) rfl
  cases rep : uf.root (.reference refMode referenced) with
  | reference repMode repReferenced => exact ⟨repMode, repReferenced, rfl⟩
  | var | modeVar =>
      rw [rep] at compound
      cases compound
  | mode value =>
      rw [rep] at functor
      revert functor
      cases value <;> simp [Term.getFunctor, getFunctor]
  | int | function | sumType | mu =>
      rw [rep] at functor
      revert functor
      simp [Term.getFunctor, getFunctor, String.ext_iff]

/-- A reference of a concrete mode closes to one of that mode, below a `mu` when it recurs. -/
theorem close_reference {v : TypeVar} {value : ReferenceMode} {referenced closed : TopType}
    (program : referenced.inProgram = true)
    (rep : uf.root (.var v) = uf.root (.reference (.mode value) referenced))
    (result : close uf (.var v) = .ok closed) : ∃ closedReferenced,
      closed = .reference (.mode value) closedReferenced ∨
        ∃ w, closed = .mu w (.reference (.mode value) closedReferenced) := by
  have subterms := congruent.subterms (.reference (.mode value) referenced) rfl
  have repProgram : (uf.root (.reference (.mode value) referenced)).inProgram = true :=
    root_inProgram keeps (by simp [inProgram, isMode, program])
  rcases root_reference congruent (.mode value) referenced with ⟨repMode, repReferenced, isRep⟩
  rw [isRep] at subterms repProgram rep
  have modeSame : uf.root repMode = .mode value := by
    cases subterms with
    | cons first _ => exact first.symm.trans (root_mode keeps congruent value)
  rw [inProgram, Bool.and_eq_true] at repProgram
  have follows : v ∉ [] ∧ uf.root (.var v) ≠ .var v := by
    rw [rep]
    exact ⟨List.not_mem_nil, fun impossible => by cases impossible⟩
  rw [close, closeWithin, closeType, closeVar, if_pos follows, bind_eq_ok, rep] at result
  rcases result with ⟨closedV, closedRep, result⟩
  cases result
  simp only [closeWithin, closeType, bind_eq_ok] at closedRep
  rcases closedRep with ⟨closedMode, modeClosed, closedReferenced, _, closedRep⟩
  rw [withReferenceChildren_ok closedRep]
  have modeIs : closedMode = .mode value := by
    cases repMode with
    | mode other =>
        cases modeClosed
        rwa [root_mode keeps congruent] at modeSame
    | modeVar id =>
        rw [closeType, closeModeVar, modeSame] at modeClosed
        cases modeClosed
        rfl
    | _ => cases repProgram.1
  rw [modeIs, bindCycle]
  split
  · exact ⟨_, .inr ⟨_, rfl⟩⟩
  · exact ⟨_, .inl rfl⟩

theorem ModesClose.alone (closes : ModesClose uf) {left right : Nat}
    (same : uf.root (.modeVar left) = uf.root (.modeVar right)) (unsettled : Unsettled uf left) :
    left = right := by
  rcases (unsettled_iff keeps congruent left).mp unsettled with ⟨rep, atRep⟩
  rcases closes.shared left unsettled with ⟨shared, closed⟩
  have each : ∀ id, uf.root (.modeVar id) = uf.root (.modeVar left) → rep = id := by
    intro id inClass
    apply modesSettled_of_close (closed id inClass) [] id rep .refl
    rw [inClass, atRep]
  rw [← each left rfl, ← each right same.symm]

theorem modesClose_of_alone
    (alone : ∀ left right, uf.root (.modeVar left) = uf.root (.modeVar right) →
      Unsettled uf left → left = right) : ModesClose uf := by
  have settled : ∀ id other, uf.root (.modeVar id) = .modeVar other → other = id := by
    intro id other rep
    have same : uf.root (.modeVar id) = uf.root (.modeVar other) := by
      rw [rep, ← rep, TermUnionFind.root_root]
    exact (alone id other same ((unsettled_iff keeps congruent id).mpr ⟨other, rep⟩)).symm
  constructor
  · intro type program
    rw [close_exists_iff keeps (.inr program)]
    exact fun path id other _ rep => settled id other rep
  · intro id value same
    rw [root_mode keeps congruent] at same
    rw [close, closeWithin, closeType, closeModeVar, same]
    exact closeWithin_mode (by omega) [] value
  · intro id unsettled
    rcases (unsettled_iff keeps congruent id).mp unsettled with ⟨rep, atRep⟩
    refine ⟨id, fun other inClass => ?_⟩
    have same : other = id := (alone id other inClass.symm unsettled).symm
    rw [same]
    apply close_modeVar
    rw [atRep, settled id rep atRep]

end

end TopTypeClosure

open TopTypeClosure

/-- After any successful solve, closing is total and settles every class of modes
exactly when no two mode variables share a class that has no concrete mode. -/
theorem modesClose_iff {batches : List (List (TopType × TopType))}
    (sorted : ∀ batch ∈ batches, ∀ constraint ∈ batch, TermUnifier.SameSort TopType.sort constraint)
    {uf : TermUnionFind TopType} (solved : TermUnifier.solveBatches batches = .ok uf) :
    ModesClose uf ↔ ∀ left right, uf.root (.modeVar left) = uf.root (.modeVar right) →
      Unsettled uf left → left = right := by
  have keeps := TermUnifier.solveBatches_keepsSort TopType.sortsDescend sorted solved
  have congruent :=
    (TermUnifier.foldlM_solve_sound batches solved TermUnifier.consistent_empty).1.congruent
  constructor
  · intro closes left right
    exact closes.alone keeps congruent
  · exact modesClose_of_alone keeps congruent

/-! ## A mode shared by two dereferences -/

namespace SharedMode

def p : DeclNode := { id := 1, name := "p" }

def q : DeclNode := { id := 6, name := "q" }

/-- `read(p) { return *p; }` -/
def read : Function where
  decl := { id := 0, name := "read" }
  formals := [p]
  declarations := []
  stmts := []
  returnInfo := { id := 2 }
  returnArg := .deRefExpr { id := 3 } (.varExpr { id := 4 } "p")

/-- `twice(q) { return *q + read(q); }` -/
def twice : Function where
  decl := { id := 5, name := "twice" }
  formals := [q]
  declarations := []
  stmts := []
  returnInfo := { id := 7 }
  returnArg := .binaryExpr { id := 8 } .add (.deRefExpr { id := 9 } (.varExpr { id := 10 } "q"))
    (.funAppExpr { id := 11 } (.varExpr { id := 12 } "read") [.varExpr { id := 13 } "q"])

/-- `main() { return 0; }` -/
def main : Function where
  decl := { id := 14, name := "main" }
  formals := []
  declarations := []
  stmts := []
  returnInfo := { id := 15 }
  returnArg := .numExpr { id := 16 } 0

def program : Program where
  typedecls := []
  functions := [read, twice, main]

def solver (symbols : SymbolTable) : Option CfaSolver :=
  CFAnalyzer.analyze program symbols id (fun s source target =>
    (s.findPath id 8 source target).getD []) 16

theorem program_solved : ∃ symbols callGraph marked uf,
    SymbolTable.build program = .ok symbols ∧ callGraph.IsBuilt program symbols ∧
      TypeInference.runPoly symbols callGraph = .ok (marked, uf) ∧
      (callGraph.vertices.map Function.decl).Nodup ∧
      close uf p.typeVar = .error (.internal "cyclic reference mode binding") := by
  have holds : (match SymbolTable.build program with
      | .error _ => false
      | .ok symbols =>
          match solver symbols with
          | none => false
          | some s =>
              match TypeInference.runPoly symbols (CallGraphBuilder.build program symbols s) with
              | .error _ => false
              | .ok result => decide (close result.2 p.typeVar =
                  .error (.internal "cyclic reference mode binding"))) = true := by
    decide +kernel
  split at holds
  · cases holds
  · rename_i symbols built
    split at holds
    · cases holds
    · rename_i s analyzed
      split at holds
      · cases holds
      · rename_i result inferred
        refine ⟨symbols, CallGraphBuilder.build program symbols s, result.1, result.2, built,
          ⟨_, _, _, s, analyzed, rfl, fun _ => .rfl, fun _ => .rfl⟩, inferred, ?_,
          of_decide_eq_true holds⟩
        change (program.functions.map Function.decl).Nodup
        decide

/-- The type of a formal does not close. -/
theorem program_not_modesClose : ∃ symbols callGraph marked uf,
    SymbolTable.build program = .ok symbols ∧ callGraph.IsBuilt program symbols ∧
      TypeInference.runPoly symbols callGraph = .ok (marked, uf) ∧
      close uf p.typeVar = .error (.internal "cyclic reference mode binding") ∧
      ¬ ModesClose uf := by
  rcases program_solved with ⟨symbols, callGraph, marked, uf, built, graph, inferred, _, thrown⟩
  refine ⟨symbols, callGraph, marked, uf, built, graph, inferred, thrown, fun closes => ?_⟩
  rcases closes.total p.typeVar rfl with ⟨closed, result⟩
  rw [thrown] at result
  cases result

theorem program_modesClose_iff : ∃ symbols callGraph marked uf,
    TypeInference.runPoly symbols callGraph = .ok (marked, uf) ∧
      (ModesClose uf ↔ ∀ left right, uf.root (.modeVar left) = uf.root (.modeVar right) →
        Unsettled uf left → left = right) := by
  rcases program_solved with ⟨symbols, callGraph, marked, uf, _, _, inferred, distinct, _⟩
  rcases (TypeInference.runPoly_solves distinct inferred).2 with ⟨batches, solved, _⟩
  exact ⟨symbols, callGraph, marked, uf, inferred, modesClose_iff solved.sorted solved.solved⟩

end SharedMode

end Topc
