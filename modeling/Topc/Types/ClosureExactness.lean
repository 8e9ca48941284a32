import Topc.Types.ClosureFaithfulness

/-! # A faithfully closed type is closable

A type that is not closable is not closed faithfully: an alpha met below itself
loses its context there, and a mode variable that stands for another is an error. -/

namespace Topc

namespace TopTypeClosure

open TopType

/-! ## A faithfully closed type is closable -/

/-- A type that occurs in a closed type. -/
inductive Inside (part : TopType) : TopType → Prop
  | refl : Inside part part
  | child {child type : TopType} (member : child ∈ type.getChildTypes)
      (inside : Inside part child) : Inside part type
  | body {body : TopType} {v : TypeVar} (inside : Inside part body) : Inside part (.mu v body)

/-- A `mu` binds the variable and the variable does not occur below it. -/
def IdleBinder (w : TypeVar) (type : TopType) : Prop :=
  ∃ body, Inside (.mu w body) type ∧ w ∉ body.vars

theorem isCompound_of_child {type child : TopType} (member : child ∈ type.getChildTypes) :
    type.isCompound = true := by
  cases type with
  | function | reference | sumType => rfl
  | _ => cases member

theorem mem_vars_of_mem_freeVars (type : TopType) {w : TypeVar} :
    w ∈ type.freeVars → w ∈ type.vars := by
  induction type using shapeInduction with
  | var v => exact id
  | modeVar id => exact nofun
  | compound type compound children =>
      intro free
      rcases (mem_freeVars_compound compound).mp free with ⟨child, member, inside⟩
      exact (mem_vars_compound compound).mpr ⟨child, member, children child member inside⟩
  | mu v body induction =>
      intro free
      rw [freeVars, List.mem_filter] at free
      exact induction free.1

theorem Inside.mapVars {part type : TopType} (inside : Inside part type)
    (replace : TypeVar → TopType) : Inside (part.mapVars replace) (type.mapVars replace) := by
  induction inside with
  | refl => exact .refl
  | child member _ induction =>
      apply Inside.child _ induction
      rw [(mapVars_compound (isCompound_of_child member)).2]
      exact List.mem_map_of_mem member
  | body _ induction =>
      rw [TopType.mapVars]
      split <;> exact .body induction

/-- In a type with exact binders no binder is idle. -/
theorem BindersExact.not_idle {uf : TermUnionFind TopType} {w : TypeVar} {type : TopType}
    {assignment : Assignment} (exact : BindersExact uf type assignment) : ¬ IdleBinder w type := by
  rintro ⟨body, inside, idle⟩
  induction inside generalizing assignment with
  | refl =>
      rcases exact with ⟨v, _, _, binds, _⟩
      exact idle (mem_vars_of_mem_freeVars body binds)
  | child member _ induction =>
      exact induction ((bindersExact_compound (isCompound_of_child member)).mp exact _ member)
  | body _ induction =>
      rcases exact with ⟨v, _, _, _, _, inner⟩
      exact induction inner

/-- What wrapping another variable's type in a `mu` keeps. -/
theorem bindCycle_keeps {v w : TypeVar} (different : w ≠ v) (program : w.inProgram = true)
    (closed : TopType) :
    (w ∈ closed.vars → w ∈ (bindCycle v closed).vars) ∧
      (IdleBinder w closed → IdleBinder w (bindCycle v closed)) := by
  have kept : Substituter.replaceVar v (.var (alphaOf v)) w = .var w := if_neg different
  simp only [bindCycle]
  split
  · refine ⟨mem_mapVars_vars closed kept, ?_⟩
    rintro ⟨body, inside, idle⟩
    refine ⟨body.mapVars (Substituter.replaceVar v (.var (alphaOf v))), ?_, ?_⟩
    · have mapped := inside.mapVars (Substituter.replaceVar v (.var (alphaOf v)))
      rw [TopType.mapVars, kept] at mapped
      exact .body mapped
    · intro occurs
      rcases mem_vars_mapVars body occurs with ⟨u, uMem, replaced⟩
      rcases replaceVar_alpha v u with ⟨u', equal, same, dropped⟩
      rw [equal, TopType.vars, List.mem_singleton] at replaced
      subst replaced
      by_cases isV : u = v
      · rw [(dropped isV).1] at program
        cases program
      · exact idle (same isV ▸ uMem)
  · exact ⟨id, id⟩

section

variable {uf : TermUnionFind TopType}

/-- Closing a type closes all that a walk from it meets. An occurrence and an
idle binder of a variable that the walk does not follow are found in the whole. -/
theorem Reaches.closed {start final : List TypeVar × TopType} (reaches : Reaches uf start final)
    {depth : Nat} {closed : TopType} (result : closeWithin uf depth start.1 start.2 = .ok closed) :
    ∃ depth' closed', closeWithin uf depth' final.1 final.2 = .ok closed' ∧
      ∀ w : TypeVar, w.inProgram = true → (w ∈ start.1 ∨ w ∉ final.1) →
        (w ∈ closed'.vars → w ∈ closed.vars) ∧ (IdleBinder w closed' → IdleBinder w closed) := by
  induction reaches with
  | refl => exact ⟨depth, closed, result, fun _ _ _ => ⟨id, id⟩⟩
  | tail walked step induction =>
      rcases induction with ⟨depth', closed', result', kept⟩
      cases depth' with
      | zero => cases result'
      | succ depth' =>
          cases step with
          | @child path type child member =>
              have compound := isCompound_of_child member
              rcases closeType_compound compound result' with ⟨closedCompound, _, children⟩
              rcases List.mem_iff_getElem.mp member with ⟨index, bound, rfl⟩
              have bound' : index < closed'.getChildTypes.length := children.length_eq ▸ bound
              have inside := List.getElem_mem bound'
              refine ⟨depth' + 1, _, children.get bound bound', fun w program apart => ?_⟩
              rcases kept w program apart with ⟨occurs, idle⟩
              constructor
              · exact fun occurs' => occurs ((mem_vars_compound closedCompound).mpr ⟨_, inside, occurs'⟩)
              · rintro ⟨body, part, unused⟩
                exact idle ⟨body, .child inside part, unused⟩
          | @follow path v fresh bound =>
              rw [closeWithin, closeType, closeVar, if_pos ⟨fresh, bound⟩, bind_eq_ok] at result'
              rcases result' with ⟨closedV, closedRep, result'⟩
              cases result'
              refine ⟨depth', closedV, closedRep, fun w program apart => ?_⟩
              have different : w ≠ v := by
                rintro rfl
                rcases apart with seen | unseen
                · exact fresh (Reaches.path_suffix walked |>.subset seen)
                · exact unseen List.mem_cons_self
              have before : w ∈ start.1 ∨ w ∉ path :=
                apart.imp_right fun unseen seen => unseen (List.mem_cons_of_mem v seen)
              rcases kept w program before with ⟨occurs, idle⟩
              rcases bindCycle_keeps different program closedV with ⟨occurs', idle'⟩
              exact ⟨fun inside => occurs (occurs' inside), fun inside => idle (idle' inside)⟩

/-- Closing an alpha that recurs leaves an idle binder: the occurrences below it
lose their context. -/
theorem bindCycle_idle {path : List TypeVar} {v : TypeVar} {closed : TopType}
    (overAlphas : OverAlphas (v :: path) closed) (program : v.inProgram = true) (alpha : v.isPlain = false)
    (compound : closed.isCompound = true) (occurs : v ∈ closed.vars) :
    IdleBinder v (bindCycle v closed) := by
  have same := alphaOf_of_alpha alpha
  have unbound := (overAlphas.binder_ne program).1
  have wraps : closed ≠ .var (alphaOf v) ∧ alphaOf v ∈ TypeVars.collect closed := by
    constructor
    · rintro rfl
      cases compound
    · rw [TypeVars.mem_collect_of_not_binder unbound, same]
      exact occurs
  simp only [bindCycle]
  rw [if_pos wraps]
  rw [same]
  refine ⟨_, .refl, fun inside => ?_⟩
  rcases mem_vars_mapVars closed inside with ⟨u, _, replaced⟩
  rcases replaceVar_alpha v u with ⟨u', equal, kept, dropped⟩
  rw [same] at equal
  rw [equal, TopType.vars, List.mem_singleton] at replaced
  subst replaced
  by_cases isV : u = v
  · rw [(dropped isV).1] at program
    cases program
  · exact isV (kept isV).symm

/-- No mode variable met from the type stands for another one. -/
def ModesSettled (uf : TermUnionFind TopType) (type : TopType) : Prop :=
  ∀ path id other, Reaches uf ([], type) (path, .modeVar id) →
    uf.root (.modeVar id) = .modeVar other → other = id

theorem modesSettled_of_close {type closed : TopType} (result : close uf type = .ok closed) :
    ModesSettled uf type := by
  intro path id other reaches rep
  rcases reaches.closed result with ⟨depth, closedMode, modeResult, _⟩
  cases depth with
  | zero => cases modeResult
  | succ depth =>
      rw [closeWithin, closeType, closeModeVar, rep] at modeResult
      by_contra different
      rw [if_neg fun equal => different (TopType.modeVar.inj equal)] at modeResult
      cases modeResult

theorem closable_of_faithful (keeps : TermUnifier.KeepsSort sort uf.root) {type closed : TopType}
    (term : IsTerm type) (result : close uf type = .ok closed)
    (faithful : FaithfullyClosed uf type closed) : Closable uf type := by
  constructor
  · intro path v reaches seen
    by_contra notPlain
    have alpha : v.isPlain = false := Bool.eq_false_iff.mpr notPlain
    have program : v.inProgram = true := (Reaches.isTerm keeps reaches term).var_inProgram
    rcases reaches.split seen (by simp) with ⟨outer, fresh, bound, before, after⟩
    rcases before.closed result with ⟨depth, closedV, closedResult, kept⟩
    cases depth with
    | zero => cases closedResult
    | succ depth =>
        rw [closeWithin, closeType, closeVar, if_pos ⟨fresh, bound⟩, bind_eq_ok] at closedResult
        rcases closedResult with ⟨closedRep, repResult, closedResult⟩
        cases closedResult
        have rootProgram : (uf.root (.var v)).inProgram = true := root_inProgram keeps program
        have overAlphas := closeWithin_overAlphas keeps depth _ (.inr rootProgram) repResult
        have compound := Reaches.root_compound rootProgram bound after
        have closedCompound : closedRep.isCompound = true := by
          cases depth with
          | zero => cases repResult
          | succ depth => exact (closeType_compound compound repResult).1
        rcases after.closed repResult with ⟨depth', closedVar, varResult, keptRep⟩
        have occurs : v ∈ closedVar.vars := by
          cases depth' with
          | zero => cases varResult
          | succ depth' =>
              rw [closeWithin, closeType, closeVar, if_neg fun follows => follows.1 seen] at varResult
              cases varResult
              rw [alphaOf_of_alpha alpha]
              simp [TopType.vars]
        have idle := bindCycle_idle overAlphas program alpha closedCompound
          ((keptRep v program (.inl List.mem_cons_self)).1 occurs)
        exact faithful.binders.not_idle ((kept v program (.inr fresh)).2 idle)
  · exact modesSettled_of_close result

/-! ## Unbound variables -/

theorem solvedTree_apart (keeps : TermUnifier.KeepsSort sort uf.root) {v w : TypeVar}
    (vProgram : v.inProgram = true) (wProgram : w.inProgram = true)
    (vUnbound : (uf.root (.var v)).isVariable = true)
    (wUnbound : (uf.root (.var w)).isVariable = true) :
    solvedTree uf (.var v) = solvedTree uf (.var w) ↔ uf.root (.var v) = uf.root (.var w) := by
  rw [solvedTree_unbound vUnbound, solvedTree_unbound wUnbound,
    TermTree.leaf_injective.eq_iff]
  have vRoot : (uf.root (.var v)).inProgram = true := root_inProgram keeps vProgram
  have wRoot : (uf.root (.var w)).inProgram = true := root_inProgram keeps wProgram
  constructor
  · intro same
    cases left : uf.root (.var v) with
    | var v' =>
        cases right : uf.root (.var w) with
        | var w' =>
            rw [left] at same vRoot
            rw [right] at same wRoot
            rw [alphaOf_inj vRoot wRoot (TopType.var.inj same)]
        | _ => simp_all [isVariable, inProgram]
    | _ => simp_all [isVariable, inProgram]
  · intro same
    rw [same]

end

end TopTypeClosure

end Topc
