import Topc.Types.ModeClosure

/-! # Ownership classes of solved types

The class of an inferred type can be read off the solver: it is that of the
representative, with the mode of a reference looked up once more. -/

namespace Topc

/-- The type is a recursive one that starts with its binder. -/
def TopType.isMu : TopType → Bool
  | .mu .. => true
  | _ => false

namespace TopTypeClosure

open TopType

/-- The class of a type whose variables stand for their solver classes. -/
def classIn (uf : TermUnionFind TopType) : TopType → OwnershipClass
  | .reference refMode _ => if uf.root refMode = .mode .own then .own else .copy
  | .sumType .. => .own
  | .var _ | .int | .function .. | .mode _ | .modeVar _ | .mu .. => .copy

def solvedClass (uf : TermUnionFind TopType) (type : TopType) : OwnershipClass :=
  classIn uf (uf.root type)

section

variable {uf : TermUnionFind TopType}

theorem solvedClass_congr {left right : TopType} (same : uf.root left = uf.root right) :
    solvedClass uf left = solvedClass uf right := by
  rw [solvedClass, same, solvedClass]

/-! ## Compound types -/

/-- The class is the same for all compound types of a solver class. -/
theorem solvedClass_compound (congruent : Term.Congruent uf.root) {type : TopType}
    (compound : type.isVariable = false) : solvedClass uf type = classIn uf type := by
  have repCompound := congruent.compound type compound
  have functor := congruent.functor type compound
  have subterms := congruent.subterms type compound
  rw [solvedClass]
  cases type with
  | var | modeVar => cases compound
  | reference refMode referenced =>
      rcases root_reference congruent refMode referenced with ⟨repMode, repReferenced, rep⟩
      rw [rep] at subterms ⊢
      cases subterms with
      | cons modes _ => rw [classIn, classIn, ← modes]
  | sumType typeName ctors payloads =>
      cases rep : uf.root (.sumType typeName ctors payloads) with
      | sumType => rfl
      | var | modeVar =>
          rw [rep] at repCompound
          cases repCompound
      | mode value =>
          rw [rep] at functor
          revert functor
          cases value <;> simp [Term.getFunctor, getFunctor, String.ext_iff]
      | _ =>
          rw [rep] at functor
          revert functor
          simp [Term.getFunctor, getFunctor, String.ext_iff]
  | mode value =>
      cases rep : uf.root (.mode value) with
      | reference | sumType =>
          rw [rep] at functor
          revert functor
          cases value <;> simp [Term.getFunctor, getFunctor, String.ext_iff]
      | _ => rfl
  | int =>
      cases rep : uf.root .int with
      | reference | sumType =>
          rw [rep] at functor
          revert functor
          simp [Term.getFunctor, getFunctor, String.ext_iff]
      | _ => rfl
  | function params ret =>
      cases rep : uf.root (.function params ret) with
      | reference | sumType =>
          rw [rep] at functor
          revert functor
          simp [Term.getFunctor, getFunctor, String.ext_iff]
      | _ => rfl
  | mu v body =>
      cases rep : uf.root (.mu v body) with
      | reference | sumType =>
          rw [rep] at functor
          revert functor
          simp [Term.getFunctor, getFunctor, String.ext_iff]
      | _ => rfl

/-- References of one solver class are to types of one solver class. -/
theorem root_referenced (congruent : Term.Congruent uf.root)
    {leftMode left rightMode right : TopType}
    (same : uf.root (.reference leftMode left) = uf.root (.reference rightMode right)) :
    uf.root left = uf.root right := by
  have leftSubterms := congruent.subterms (.reference leftMode left) rfl
  have rightSubterms := congruent.subterms (.reference rightMode right) rfl
  rcases root_reference congruent leftMode left with ⟨repMode, repReferenced, rep⟩
  rw [rep] at leftSubterms same
  rw [← same] at rightSubterms
  cases leftSubterms with
  | cons _ leftRest =>
      cases leftRest with
      | cons leftContent _ =>
          cases rightSubterms with
          | cons _ rightRest =>
              cases rightRest with
              | cons rightContent _ => exact leftContent.trans rightContent.symm

/-- No reference is in the solver class of a sum. -/
theorem root_reference_ne_sumType (congruent : Term.Congruent uf.root)
    (refMode referenced : TopType) (typeName : String) (ctors : List (String × Nat))
    (payloads : List TopType) :
    uf.root (.reference refMode referenced) ≠ uf.root (.sumType typeName ctors payloads) := by
  intro same
  have referenceFunctor := congruent.functor (.reference refMode referenced) rfl
  have sumFunctor := congruent.functor (.sumType typeName ctors payloads) rfl
  rw [same, sumFunctor] at referenceFunctor
  revert referenceFunctor
  simp [Term.getFunctor, getFunctor, String.ext_iff]

/-! ## Closed types -/

theorem classifyType_mapVars {replace : TypeVar → TopType} (renames : ∀ v, ∃ w, replace v = .var w)
    (type : TopType) : OwnershipClassifier.classifyType (type.mapVars replace) =
      OwnershipClassifier.classifyType type := by
  induction type with
  | var v =>
      rcases renames v with ⟨w, same⟩
      rw [mapVars, same]
      rfl
  | reference refMode referenced _ _ =>
      rw [mapVars]
      cases refMode with
      | mode value => cases value <;> rfl
      | var v =>
          rcases renames v with ⟨w, same⟩
          rw [mapVars, same]
          rfl
      | mu v body =>
          rcases renames v with ⟨w, same⟩
          rw [mapVars, same]
          rfl
      | _ => rfl
  | mu v body bodySame =>
      rcases renames v with ⟨w, same⟩
      rw [mapVars, same]
      exact bodySame
  | _ => rfl

/-- Binding a cycle keeps the class. -/
theorem classifyType_bindCycle (v : TypeVar) (closedV : TopType) :
    OwnershipClassifier.classifyType (bindCycle v closedV) =
      OwnershipClassifier.classifyType closedV := by
  rw [bindCycle]
  split
  · apply classifyType_mapVars
    intro w
    rw [Substituter.replaceVar]
    split
    · cases v <;> exact ⟨_, rfl⟩
    · exact ⟨w, rfl⟩
  · rfl

variable (keeps : TermUnifier.KeepsSort sort uf.root)

include keeps

/-- A reference mode closes to `own` when it is solved to it. -/
theorem closeType_mode_own {depth : Nat} {path : List TypeVar} {refMode closed : TopType}
    (mode : refMode.isMode = true) (congruent : Term.Congruent uf.root)
    (result : closeType uf (closeWithin uf depth) path refMode = .ok closed) :
    closed = .mode .own ↔ uf.root refMode = .mode .own := by
  cases refMode with
  | mode value =>
      cases result
      rw [root_mode keeps congruent]
  | modeVar id =>
      rw [closeType, closeModeVar] at result
      rcases root_modeVar keeps id with ⟨value, rep⟩ | ⟨other, rep⟩
      · rw [rep] at result ⊢
        cases depth with
        | zero => cases result
        | succ depth => cases result; rfl
      · rw [rep] at result ⊢
        split at result
        · cases result
          apply iff_of_false
          · intro same
            cases same
          · intro same
            cases same
        · cases result
  | _ => cases mode

theorem closeType_class {depth : Nat} {path : List TypeVar} {type closed : TopType}
    (congruent : Term.Congruent uf.root) (program : type.inProgram = true)
    (notVar : ∀ v, type ≠ .var v)
    (result : closeType uf (closeWithin uf depth) path type = .ok closed) :
    OwnershipClassifier.classifyType closed = classIn uf type := by
  cases type with
  | var v => exact absurd rfl (notVar v)
  | mode | modeVar | mu => cases program
  | int => cases result; rfl
  | function params ret =>
      simp only [closeType, bind_eq_ok] at result
      rcases result with ⟨_, _, _, _, result⟩
      cases result
      rfl
  | sumType typeName ctors payloads =>
      simp only [closeType, bind_eq_ok] at result
      rcases result with ⟨_, _, result⟩
      cases result
      rfl
  | reference refMode referenced =>
      rw [inProgram, Bool.and_eq_true] at program
      simp only [closeType, bind_eq_ok] at result
      rcases result with ⟨closedMode, modeClosed, closedReferenced, _, result⟩
      rw [withReferenceChildren_ok result, classIn]
      have own := closeType_mode_own keeps program.1 congruent modeClosed
      by_cases isOwn : uf.root refMode = .mode .own
      · rw [if_pos isOwn, own.mpr isOwn]
        rfl
      · rw [if_neg isOwn]
        have other : closedMode ≠ .mode .own := fun same => isOwn (own.mp same)
        cases closedMode with
        | mode value =>
            cases value with
            | own => exact absurd rfl other
            | borrow => rfl
        | _ => rfl

/-- The class of a closed type is that of the solved one, where the walk does not
come back to a variable. -/
theorem closeWithin_class {depth : Nat} {path : List TypeVar} {type closed : TopType}
    (congruent : Term.Congruent uf.root) (program : type.inProgram = true)
    (fresh : ∀ v, type = .var v → v ∉ path)
    (result : closeWithin uf depth path type = .ok closed) :
    OwnershipClassifier.classifyType closed = solvedClass uf type := by
  cases depth with
  | zero => cases result
  | succ depth =>
      rw [closeWithin] at result
      cases type with
      | var v =>
          rw [closeType, closeVar] at result
          by_cases unbound : uf.root (.var v) = .var v
          · rw [if_neg (fun follows => follows.2 unbound)] at result
            cases result
            rw [solvedClass, unbound]
            rfl
          · rw [if_pos ⟨fresh v rfl, unbound⟩, bind_eq_ok] at result
            rcases result with ⟨closedV, closedRep, result⟩
            cases result
            rw [classifyType_bindCycle, solvedClass]
            have repProgram := root_inProgram keeps program
            have repRoot : uf.root (uf.root (.var v)) = uf.root (.var v) := uf.root_root _
            generalize uf.root (.var v) = rep at closedRep repProgram repRoot ⊢
            cases depth with
            | zero => cases closedRep
            | succ depth =>
                rw [closeWithin] at closedRep
                cases rep with
                | var w =>
                    rw [closeType, closeVar, if_neg (fun follows => follows.2 repRoot)] at closedRep
                    cases closedRep
                    rfl
                | _ =>
                    apply closeType_class keeps congruent repProgram _ closedRep
                    intro w same
                    cases same
      | modeVar => cases program
      | _ =>
          rw [solvedClass_compound congruent rfl]
          apply closeType_class keeps congruent program _ result
          intro w same
          cases same

theorem close_class {type closed : TopType} (congruent : Term.Congruent uf.root)
    (program : type.inProgram = true) (result : close uf type = .ok closed) :
    OwnershipClassifier.classifyType closed = solvedClass uf type :=
  closeWithin_class keeps congruent program (fun _ _ => List.not_mem_nil) result

/-- An owning reference closes to one whose content has the class it was solved to,
unless its type recurs. -/
theorem close_owningRef {v : TypeVar} {referenced closed : TopType}
    (congruent : Term.Congruent uf.root) (program : referenced.inProgram = true)
    (rep : uf.root (.var v) = uf.root (.owningRef referenced))
    (result : close uf (.var v) = .ok closed) : closed.isMu = true ∨
      ∃ payload, closed = .owningRef payload ∧
        OwnershipClassifier.classifyType payload = solvedClass uf referenced := by
  have subterms := congruent.subterms (.owningRef referenced) rfl
  have repProgram : (uf.root (.owningRef referenced)).inProgram = true :=
    root_inProgram keeps (by simp [inProgram, isMode, program])
  rcases root_reference congruent (.mode .own) referenced with ⟨repMode, repReferenced, isRep⟩
  rw [isRep] at subterms repProgram rep
  have modeSame : uf.root repMode = .mode .own := by
    cases subterms with
    | cons first _ => exact first.symm.trans (root_mode keeps congruent .own)
  have contentSame : uf.root referenced = uf.root repReferenced := by
    cases subterms with
    | cons _ rest =>
        cases rest with
        | cons second _ => exact second
  rw [inProgram, Bool.and_eq_true] at repProgram
  have follows : v ∉ [] ∧ uf.root (.var v) ≠ .var v := by
    rw [rep]
    refine ⟨List.not_mem_nil, fun same => ?_⟩
    cases same
  rw [close, closeWithin, closeType, closeVar, if_pos follows, bind_eq_ok, rep] at result
  rcases result with ⟨closedV, closedRep, result⟩
  cases result
  rw [closeWithin] at closedRep
  simp only [closeType, bind_eq_ok] at closedRep
  rcases closedRep with ⟨closedMode, modeClosed, closedReferenced, contentClosed, closedRep⟩
  have isOwn : closedMode = .mode .own :=
    (closeType_mode_own keeps repProgram.1 congruent modeClosed).mpr modeSame
  rw [withReferenceChildren_ok closedRep, isOwn, bindCycle]
  split
  · exact .inl rfl
  · rename_i unwrapped
    refine .inr ⟨closedReferenced, rfl, ?_⟩
    rw [solvedClass_congr contentSame]
    refine closeWithin_class keeps congruent repProgram.2 ?_
      (show closeWithin uf (uf.edges.length + 2) [v] repReferenced = _ from contentClosed)
    -- Met again at once, the variable would have been bound.
    intro w isVar onPath
    rw [List.mem_singleton.mp onPath] at isVar
    subst isVar
    rw [closeType, closeVar, if_neg (fun fresh => fresh.1 (List.mem_singleton_self v))]
      at contentClosed
    cases contentClosed
    apply unwrapped
    constructor
    · intro same
      cases same
    · simp [TypeVars.collect, TypeVars.collectInto]

end

end TopTypeClosure

end Topc
