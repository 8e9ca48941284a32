import Topc.Types.ClosureVisits

/-! # Closing a type faithfully

Where no alpha of an instantiation is met below itself and every mode variable
met is settled, the closed type has the tree of the solved graph and each `mu`
binds the occurrences of its own variable. -/

namespace Topc

namespace TopTypeClosure

open TopType

/-! ## The alpha of a variable -/

theorem alphaOf_inj {v w : TypeVar} (vProgram : v.inProgram = true) (wProgram : w.inProgram = true)
    (same : alphaOf v = alphaOf w) : v = w := by
  cases v with
  | plain node =>
      cases w with
      | plain other => simpa [alphaOf] using same
      | alpha other context name =>
          cases same
          cases wProgram
  | alpha node context name =>
      cases w with
      | plain other =>
          cases same
          cases vProgram
      | alpha other context' name' => exact same

theorem alphaOf_isPlain (v : TypeVar) : (alphaOf v).isPlain = false := by
  cases v <;> rfl

theorem alphaOf_of_alpha {v : TypeVar} (alpha : v.isPlain = false) : alphaOf v = v := by
  cases v with
  | plain node => cases alpha
  | alpha node context name => rfl

/-! ## Closing a compound type -/

section

variable {uf : TermUnionFind TopType}
variable {closeRep : List TypeVar → TopType → Except CompileError TopType}
variable {visited : List TypeVar}

theorem closeAll_eq_ok {types closed : List TopType} :
    closeAll uf closeRep visited types = .ok closed ↔
      List.Forall₂ (fun type result => closeType uf closeRep visited type = .ok result)
        types closed := by
  induction types generalizing closed with
  | nil =>
      rw [closeAll, List.forall₂_nil_left_iff]
      exact ⟨fun result => (Except.ok.inj result).symm, fun empty => empty ▸ rfl⟩
  | cons type types induction =>
      simp only [closeAll, bind_eq_ok]
      constructor
      · rintro ⟨head, headClosed, tail, tailClosed, result⟩
        cases result
        exact .cons headClosed (induction.mp tailClosed)
      · rintro (_ | ⟨headClosed, tailClosed⟩)
        exact ⟨_, headClosed, _, induction.mpr tailClosed, rfl⟩

/-- Closing a compound type closes its children. -/
theorem closeType_compound {type closed : TopType} (compound : type.isCompound = true)
    (result : closeType uf closeRep visited type = .ok closed) :
    closed.isCompound = true ∧ closed.getFunctor = type.getFunctor ∧
      List.Forall₂ (fun child closedChild =>
        closeType uf closeRep visited child = .ok closedChild)
          type.getChildTypes closed.getChildTypes := by
  cases type with
  | var | modeVar | mu => cases compound
  | int | mode =>
      rw [closeType] at result
      cases result
      exact ⟨rfl, rfl, .nil⟩
  | function params ret =>
      simp only [closeType, bind_eq_ok] at result
      rcases result with ⟨closedParams, paramsClosed, closedRet, retClosed, result⟩
      cases result
      exact ⟨rfl, rfl, List.rel_append (closeAll_eq_ok.mp paramsClosed) (.cons retClosed .nil)⟩
  | reference refMode referenced =>
      simp only [closeType, bind_eq_ok] at result
      rcases result with ⟨closedMode, modeClosed, closedReferenced, referencedClosed, result⟩
      rw [withReferenceChildren_ok result]
      exact ⟨rfl, rfl, .cons modeClosed (.cons referencedClosed .nil)⟩
  | sumType typeName ctors payloads =>
      simp only [closeType, bind_eq_ok] at result
      rcases result with ⟨closedPayloads, payloadsClosed, result⟩
      cases result
      exact ⟨rfl, rfl, closeAll_eq_ok.mp payloadsClosed⟩

/-- A compound type closes when its children do. -/
theorem closeType_compound_exists {type : TopType} (term : IsTerm type)
    (compound : type.isCompound = true)
    (children : ∀ child ∈ type.getChildTypes, ∃ closed,
      closeType uf closeRep visited child = .ok closed ∧
        (child.isMode = true → closed.isMode = true)) :
    ∃ closed, closeType uf closeRep visited type = .ok closed ∧
      (type.isMode = true → closed.isMode = true) := by
  have closeList : ∀ types : List TopType, (∀ child ∈ types, ∃ closed,
      closeType uf closeRep visited child = .ok closed ∧
        (child.isMode = true → closed.isMode = true)) →
      ∃ closed, closeAll uf closeRep visited types = .ok closed := by
    intro types
    induction types with
    | nil => exact fun _ => ⟨[], rfl⟩
    | cons head tail induction =>
        intro each
        rcases each head List.mem_cons_self with ⟨closedHead, headClosed, _⟩
        rcases induction fun child member => each child (List.mem_cons_of_mem _ member) with
          ⟨closedTail, tailClosed⟩
        exact ⟨closedHead :: closedTail,
          closeAll_eq_ok.mpr (.cons headClosed (closeAll_eq_ok.mp tailClosed))⟩
  cases type with
  | var | modeVar | mu => cases compound
  | int => exact ⟨.int, rfl, fun impossible => by cases impossible⟩
  | mode value => exact ⟨.mode value, rfl, fun _ => rfl⟩
  | function params ret =>
      rcases closeList params fun child member => children child (List.mem_append_left _ member) with
        ⟨closedParams, paramsClosed⟩
      rcases children ret (List.mem_append_right _ List.mem_cons_self) with ⟨closedRet, retClosed, _⟩
      refine ⟨.function closedParams closedRet, ?_, fun impossible => by cases impossible⟩
      rw [closeType, paramsClosed, retClosed]
      rfl
  | reference refMode referenced =>
      rcases children refMode List.mem_cons_self with ⟨closedMode, modeClosed, keepsMode⟩
      rcases children referenced (by simp [getChildTypes]) with
        ⟨closedReferenced, referencedClosed, _⟩
      have isMode : refMode.isMode = true := by
        rcases term with mode | program
        · cases mode
        · simp only [inProgram, Bool.and_eq_true] at program
          exact program.1
      refine ⟨.reference closedMode closedReferenced, ?_, fun impossible => by cases impossible⟩
      rw [closeType, modeClosed, referencedClosed]
      have closedIsMode := keepsMode isMode
      cases closedMode with
      | mode | modeVar => rfl
      | _ => cases closedIsMode
  | sumType typeName ctors payloads =>
      rcases closeList payloads children with ⟨closedPayloads, payloadsClosed⟩
      refine ⟨.sumType typeName ctors closedPayloads, ?_, fun impossible => by cases impossible⟩
      rw [closeType, payloadsClosed]
      rfl

end

/-! ## The tree of a solved type -/

section

variable (uf : TermUnionFind TopType)

/-- The tree reached from a type by going to representatives, its unbound
variables named by their alphas. -/
def solvedTree (type : TopType) : TermTree String TopType :=
  (Term.unfolding uf.root type).subst fun leaf => .leaf (closedLeaf leaf)

variable {uf}

theorem solvedTree_root (type : TopType) : solvedTree uf (uf.root type) = solvedTree uf type := by
  rw [solvedTree, solvedTree, Term.unfolding_congr (TermUnionFind.root_root uf type)]

theorem solvedTree_unbound {type : TopType} (unbound : (uf.root type).isVariable = true) :
    solvedTree uf type = .leaf (closedLeaf (uf.root type)) := by
  rw [solvedTree, Term.unfolding_of_variable unbound, TermTree.subst_leaf]

theorem solvedTree_compound (congruent : Term.Congruent uf.root) {type : TopType}
    (compound : type.isVariable = false) :
    solvedTree uf type = .node type.getFunctor (type.getChildTypes.map (solvedTree uf)) := by
  rw [solvedTree, congruent.unfolding_interprets type compound, TermTree.subst_node, List.map_map]
  rfl

end

/-! ## Exact binders -/

section

variable (uf : TermUnionFind TopType)

mutual
/-- Every `mu` is that of a bound variable: it binds an occurrence of the alpha
of the variable, and its tree is that of the variable. -/
def BindersExact : TopType → Assignment → Prop
  | .var _, _ | .int, _ | .mode _, _ | .modeVar _, _ => True
  | .function params ret, assignment =>
      AllBindersExact params assignment ∧ BindersExact ret assignment
  | .reference refMode referenced, assignment =>
      BindersExact refMode assignment ∧ BindersExact referenced assignment
  | .sumType _ _ payloads, assignment => AllBindersExact payloads assignment
  | .mu w body, assignment =>
      ∃ v, w = alphaOf v ∧ uf.root (.var v) ≠ .var v ∧ w ∈ body.freeVars ∧
        (TopType.mu w body).unrolled assignment = solvedTree uf (.var v) ∧
        BindersExact body (Function.update assignment w (solvedTree uf (.var v)))

def AllBindersExact : List TopType → Assignment → Prop
  | [], _ => True
  | type :: types, assignment => BindersExact type assignment ∧ AllBindersExact types assignment
end

variable {uf}

theorem allBindersExact_iff {types : List TopType} {assignment : Assignment} :
    AllBindersExact uf types assignment ↔ ∀ type ∈ types, BindersExact uf type assignment := by
  induction types with
  | nil => simp [AllBindersExact]
  | cons type types induction => simp [AllBindersExact, induction]

theorem bindersExact_compound {type : TopType} (compound : type.isCompound = true)
    {assignment : Assignment} :
    BindersExact uf type assignment ↔ ∀ child ∈ type.getChildTypes, BindersExact uf child assignment := by
  cases type <;> simp_all [isCompound, BindersExact, getChildTypes, allBindersExact_iff, or_imp,
    forall_and]

theorem BindersExact.congr (type : TopType) : ∀ {assignment other : Assignment},
    BindersExact uf type assignment → (∀ v ∈ type.freeVars, assignment v = other v) →
      BindersExact uf type other := by
  induction type using shapeInduction with
  | var v => exact fun _ _ => trivial
  | modeVar id => exact fun _ _ => trivial
  | compound type compound children =>
      intro assignment other exact same
      rw [bindersExact_compound compound] at exact ⊢
      intro child member
      apply children child member (exact child member)
      exact fun v free => same v ((mem_freeVars_compound compound).mpr ⟨child, member, free⟩)
  | mu w body induction =>
      rintro assignment other ⟨v, alpha, bound, binds, tree, exact⟩ same
      refine ⟨v, alpha, bound, binds, ?_, induction exact ?_⟩
      · rw [← tree]
        exact (unrolled_congr _ same).symm
      · intro u free
        rcases eq_or_ne u w with rfl | different
        · rw [Function.update_self, Function.update_self]
        · rw [Function.update_of_ne different, Function.update_of_ne different]
          exact same u (by simp [freeVars, free, different])

end

/-! ## What closing has to keep -/

/-- The closed type has the tree of the solved type. Its free variables are the
alphas of unbound variables, equal where these are in one class. Its binders are
exact. -/
structure FaithfullyClosed (uf : TermUnionFind TopType) (type closed : TopType) : Prop where
  tree : closed.unrolled (fun v => .leaf (.var v)) = solvedTree uf type
  kept : ∀ w ∈ closed.freeVars, ∃ v, v.inProgram = true ∧ uf.root (.var v) = .var v ∧ w = alphaOf v
  apart : ∀ v w : TypeVar, v.inProgram = true → w.inProgram = true →
    (uf.root (.var v)).isVariable = true → (uf.root (.var w)).isVariable = true →
      (solvedTree uf (.var v) = solvedTree uf (.var w) ↔ uf.root (.var v) = uf.root (.var w))
  binders : BindersExact uf closed fun v => .leaf (.var v)

/-- No alpha of an instantiation is met below itself, and no mode variable met
stands for another one. -/
structure Closable (uf : TermUnionFind TopType) (type : TopType) : Prop where
  plainCycles : ∀ path v, Reaches uf ([], type) (path, .var v) → v ∈ path → v.isPlain = true
  modesSettled : ∀ path id other, Reaches uf ([], type) (path, .modeVar id) →
    uf.root (.modeVar id) = .modeVar other → other = id

/-! ## What a closed type is made of -/

/-- Only alphas occur in the type, and its binders are alphas of variables that
were not followed before. -/
structure OverAlphas (path : List TypeVar) (closed : TopType) : Prop where
  occur : ∀ w ∈ closed.vars, w.isPlain = false
  binders : ∀ w ∈ closed.binders, ∃ v, v.inProgram = true ∧ w = alphaOf v ∧ v ∉ path

theorem IsTerm.var_inProgram {v : TypeVar} (term : IsTerm (.var v)) :
    TopType.inProgram (.var v) = true :=
  term.resolve_left nofun

theorem IsTerm.not_mu {v : TypeVar} {body : TopType} : ¬ IsTerm (.mu v body) := by
  rintro (mode | program)
  · cases mode
  · cases program

theorem IsTerm.child {type : TopType} (term : IsTerm type) :
    ∀ child ∈ type.getChildTypes, IsTerm child := by
  intro child member
  rcases term with mode | program
  · cases type with
    | mode | modeVar => cases member
    | _ => cases mode
  · exact child_sort program child member

/-- Replacing a variable by its alpha gives variables again. -/
theorem replaceVar_alpha (v w : TypeVar) :
    ∃ u, Substituter.replaceVar v (.var (alphaOf v)) w = .var u ∧ (w ≠ v → u = w) ∧
      (w = v → u.inProgram = false ∧ u.isPlain = false) := by
  by_cases same : w = v
  · rw [Substituter.replaceVar, if_pos same]
    cases v with
    | plain node => exact ⟨.alpha node none "", rfl, fun different => absurd same different, fun _ => ⟨rfl, rfl⟩⟩
    | alpha node context name =>
        exact ⟨.alpha node none name, rfl, fun different => absurd same different, fun _ => ⟨rfl, rfl⟩⟩
  · rw [Substituter.replaceVar, if_neg same]
    exact ⟨w, rfl, fun _ => rfl, fun equal => absurd equal same⟩

/-- A binder of the closed representative is not the variable being closed. -/
theorem OverAlphas.binder_ne {path : List TypeVar} {v : TypeVar} {closed : TopType}
    (overAlphas : OverAlphas (v :: path) closed) (program : v.inProgram = true) :
    alphaOf v ∉ closed.binders ∧ ∀ w ∈ closed.binders, w ≠ v := by
  have notAlpha : alphaOf v ∉ closed.binders := by
    intro member
    rcases overAlphas.binders _ member with ⟨u, uProgram, same, fresh⟩
    exact fresh (alphaOf_inj program uProgram same ▸ List.mem_cons_self)
  refine ⟨notAlpha, ?_⟩
  rintro w member rfl
  cases kind : w.isPlain with
  | true =>
      rcases overAlphas.binders _ member with ⟨u, _, same, _⟩
      rw [same, alphaOf_isPlain] at kind
      cases kind
  | false =>
      rw [alphaOf_of_alpha kind] at notAlpha
      exact notAlpha member

theorem OverAlphas.bindCycle {path : List TypeVar} {v : TypeVar} {closed : TopType}
    (overAlphas : OverAlphas (v :: path) closed) (program : v.inProgram = true) (fresh : v ∉ path) :
    OverAlphas path (bindCycle v closed) := by
  have older : ∀ w ∈ closed.binders, ∃ u, u.inProgram = true ∧ w = alphaOf u ∧ u ∉ path := by
    intro w member
    rcases overAlphas.binders w member with ⟨u, uProgram, same, unseen⟩
    exact ⟨u, uProgram, same, fun seen => unseen (List.mem_cons_of_mem _ seen)⟩
  simp only [TopTypeClosure.bindCycle]
  split
  · constructor
    · intro w occurs
      rcases mem_vars_mapVars closed occurs with ⟨u, uMem, replaced⟩
      rcases replaceVar_alpha v u with ⟨u', equal, kept, dropped⟩
      rw [equal, TopType.vars, List.mem_singleton] at replaced
      subst replaced
      by_cases same : u = v
      · exact (dropped same).2
      · rw [kept same]
        exact overAlphas.occur u uMem
    · intro w member
      rw [TopType.binders, Substituter.substitute, binders_mapVars closed ?_ ?_] at member
      · rcases List.mem_cons.mp member with rfl | inside
        · exact ⟨v, program, rfl, fresh⟩
        · exact older w inside
      · intro u bound
        exact if_neg ((overAlphas.binder_ne program).2 u bound)
      · intro u
        rcases replaceVar_alpha v u with ⟨u', equal, _⟩
        exact ⟨u', equal⟩
  · exact ⟨overAlphas.occur, older⟩

section

variable {uf : TermUnionFind TopType} (keeps : TermUnifier.KeepsSort sort uf.root)

include keeps

theorem closeWithin_overAlphas (depth : Nat) : ∀ (type : TopType) {path : List TypeVar}
    {closed : TopType}, IsTerm type → closeWithin uf depth path type = .ok closed →
      OverAlphas path closed := by
  induction depth with
  | zero => exact fun type path closed _ result => by cases result
  | succ depth below =>
      intro type
      induction type using shapeInduction with
      | var v =>
          intro path closed term result
          have program := term.var_inProgram
          rw [closeWithin, closeType, closeVar] at result
          by_cases followed : v ∉ path ∧ uf.root (.var v) ≠ .var v
          · rw [if_pos followed, bind_eq_ok] at result
            rcases result with ⟨closedV, closedRep, result⟩
            cases result
            have overAlphas := below _ (.inr (root_inProgram keeps program)) closedRep
            exact overAlphas.bindCycle program followed.1
          · rw [if_neg followed] at result
            cases result
            constructor
            · intro w occurs
              rw [List.mem_singleton.mp occurs]
              exact alphaOf_isPlain v
            · exact List.forall_mem_nil _
      | modeVar id =>
          intro path closed term result
          rw [closeWithin, closeType, closeModeVar] at result
          split at result
          · cases result
            exact ⟨List.forall_mem_nil _, List.forall_mem_nil _⟩
          · split at result
            · cases result
            · exact below _ (.inl (root_isMode keeps rfl)) result
      | compound type compound children =>
          intro path closed term result
          rcases closeType_compound compound result with ⟨closedCompound, _, closedChildren⟩
          have each : ∀ closedChild ∈ closed.getChildTypes, OverAlphas path closedChild := by
            intro closedChild member
            rcases List.mem_iff_getElem.mp member with ⟨index, bound, rfl⟩
            have bound' : index < type.getChildTypes.length := closedChildren.length_eq ▸ bound
            exact children _ (List.getElem_mem bound') (term.child _ (List.getElem_mem bound'))
              (closedChildren.get bound' bound)
          constructor
          · intro w occurs
            rcases (mem_vars_compound closedCompound).mp occurs with ⟨child, member, inside⟩
            exact (each child member).occur w inside
          · intro w bound
            rcases (mem_binders_compound closedCompound).mp bound with ⟨child, member, inside⟩
            exact (each child member).binders w inside
      | mu v body => exact fun term _ => absurd term IsTerm.not_mu

end

/-! ## Closing a closable type -/

/-- The alphas of the variables being closed stand for their trees, those of
unbound variables for themselves. -/
structure NamesTrees (uf : TermUnionFind TopType) (path : List TypeVar)
    (assignment : Assignment) : Prop where
  followed : ∀ v ∈ path, assignment (alphaOf v) = solvedTree uf (.var v)
  unbound : ∀ v : TypeVar, v.inProgram = true → uf.root (.var v) = .var v →
    assignment (alphaOf v) = .leaf (.var (alphaOf v))

theorem NamesTrees.cons {uf : TermUnionFind TopType} {path : List TypeVar}
    {assignment : Assignment} (names : NamesTrees uf path assignment) {v : TypeVar}
    (program : v.inProgram = true) (pathProgram : ∀ w ∈ path, w.inProgram = true)
    (bound : uf.root (.var v) ≠ .var v) :
    NamesTrees uf (v :: path) (Function.update assignment (alphaOf v) (solvedTree uf (.var v))) := by
  constructor
  · intro w member
    by_cases same : w = v
    · rw [same, Function.update_self]
    · have older := (List.mem_cons.mp member).resolve_left same
      rw [Function.update_of_ne fun equal => same (alphaOf_inj (pathProgram w older) program equal)]
      exact names.followed w older
  · intro w wProgram unbound
    rw [Function.update_of_ne]
    · exact names.unbound w wProgram unbound
    · intro equal
      rw [alphaOf_inj wProgram program equal] at unbound
      exact bound unbound

/-- What closing a type gives when the variables on the path are being closed. -/
structure Sound (uf : TermUnionFind TopType) (path : List TypeVar) (type closed : TopType) :
    Prop where
  tree : ∀ assignment, NamesTrees uf path assignment →
    closed.unrolled assignment = solvedTree uf type
  free : ∀ w ∈ closed.freeVars, ∃ v, v.inProgram = true ∧ w = alphaOf v ∧
    (uf.root (.var v) = .var v ∨
      v ∈ path ∧ ∃ later, Reaches uf (path, type) (later, .var v))
  binders : ∀ assignment, NamesTrees uf path assignment → BindersExact uf closed assignment
  mode : type.isMode = true → closed.isMode = true
  compound : type.isCompound = true → closed.isCompound = true

section

variable {uf : TermUnionFind TopType}

/-- A variable met again, or without a binding, is left as its alpha. -/
theorem sound_alpha {path : List TypeVar} {v : TypeVar} (program : v.inProgram = true)
    (left : uf.root (.var v) = .var v ∨ v ∈ path) :
    Sound uf path (.var v) (.var (alphaOf v)) := by
  constructor
  · intro assignment names
    rw [unrolled]
    by_cases unbound : uf.root (.var v) = .var v
    · have isLeaf : (uf.root (.var v)).isVariable = true := by
        rw [unbound]
        rfl
      rw [names.unbound v program unbound, solvedTree_unbound isLeaf, unbound]
      rfl
    · exact names.followed v (left.resolve_left unbound)
  · intro w free
    rw [List.mem_singleton.mp free]
    exact ⟨v, program, rfl, left.imp_right fun member => ⟨member, path, .refl⟩⟩
  · exact fun _ _ => trivial
  · intro impossible
    cases impossible
  · intro impossible
    cases impossible

theorem sound_modeVar {path : List TypeVar} {id : Nat} (unbound : uf.root (.modeVar id) = .modeVar id) :
    Sound uf path (.modeVar id) (.modeVar id) := by
  constructor
  · intro assignment _
    have isLeaf : (uf.root (.modeVar id)).isVariable = true := by
      rw [unbound]
      rfl
    rw [unrolled, solvedTree_unbound isLeaf, unbound]
    rfl
  · exact List.forall_mem_nil _
  · exact fun _ _ => trivial
  · exact fun _ => rfl
  · intro impossible
    cases impossible

/-- A sound closed type keeps its children sound, and the other way round. -/
theorem sound_compound (congruent : Term.Congruent uf.root) {path : List TypeVar}
    {type closed : TopType} (compound : type.isCompound = true)
    (closedCompound : closed.isCompound = true) (functor : closed.getFunctor = type.getFunctor)
    (children : List.Forall₂ (Sound uf path) type.getChildTypes closed.getChildTypes)
    (mode : type.isMode = true → closed.isMode = true) : Sound uf path type closed := by
  have origin : ∀ closedChild ∈ closed.getChildTypes, ∃ child ∈ type.getChildTypes,
      Sound uf path child closedChild := by
    intro closedChild member
    rcases List.mem_iff_getElem.mp member with ⟨index, bound, rfl⟩
    have bound' : index < type.getChildTypes.length := children.length_eq ▸ bound
    exact ⟨_, List.getElem_mem bound', children.get bound' bound⟩
  constructor
  · intro assignment names
    rw [unrolled_compound closedCompound, solvedTree_compound congruent
      (isVariable_of_compound compound), functor]
    congr 1
    rw [← List.forall₂_eq_eq_eq, List.forall₂_map_left_iff, List.forall₂_map_right_iff]
    exact children.flip.imp fun _ _ sound => sound.tree assignment names
  · intro w free
    rcases (mem_freeVars_compound closedCompound).mp free with ⟨closedChild, member, inside⟩
    rcases origin closedChild member with ⟨child, childMem, sound⟩
    rcases sound.free w inside with ⟨v, program, alpha, unbound | ⟨seen, later, reaches⟩⟩
    · exact ⟨v, program, alpha, .inl unbound⟩
    · exact ⟨v, program, alpha, .inr ⟨seen, later, .head (.child childMem) reaches⟩⟩
  · intro assignment names
    rw [bindersExact_compound closedCompound]
    intro closedChild member
    rcases origin closedChild member with ⟨child, _, sound⟩
    exact sound.binders assignment names
  · exact mode
  · exact fun _ => closedCompound

/-- A walk does not leave a representative that is a variable. -/
theorem Reaches.eq_of_unbound {path later : List TypeVar} {u v : TypeVar}
    (unbound : uf.root (.var u) = .var u) (reaches : Reaches uf (path, .var u) (later, .var v)) :
    u = v := by
  rcases reaches.cases_head with equal | ⟨_, step, _⟩
  · cases equal
    rfl
  · cases step with
    | child member => cases member
    | follow fresh bound => exact absurd unbound bound

/-- A walk from a variable's representative back to the variable starts at a
compound type. -/
theorem Reaches.root_compound {path later : List TypeVar} {v : TypeVar}
    (program : (uf.root (.var v)).inProgram = true) (bound : uf.root (.var v) ≠ .var v)
    (reaches : Reaches uf (path, uf.root (.var v)) (later, .var v)) :
    (uf.root (.var v)).isCompound = true := by
  cases rep : uf.root (.var v) with
  | var u =>
      have unbound : uf.root (.var u) = .var u := by
        rw [← rep, TermUnionFind.root_root]
      rw [rep] at reaches
      rw [rep, reaches.eq_of_unbound unbound] at bound
      exact absurd rfl bound
  | modeVar | mu =>
      rw [rep] at program
      cases program
  | int | function | mode | reference | sumType => rfl

/-- An occurrence of the variable in its closed representative is a walk back to
it, so it is a plain one. -/
theorem Sound.recurs {start : TopType} (closable : Closable uf start) {path : List TypeVar}
    {v : TypeVar} {closed : TopType} (walked : Reaches uf ([], start) (path, .var v))
    (program : v.inProgram = true) (fresh : v ∉ path) (bound : uf.root (.var v) ≠ .var v)
    (rootProgram : (uf.root (.var v)).inProgram = true)
    (sound : Sound uf (v :: path) (uf.root (.var v)) closed) (free : alphaOf v ∈ closed.freeVars) :
    v.isPlain = true ∧ closed.isCompound = true := by
  rcases sound.free _ free with ⟨u, uProgram, same, unbound | ⟨_, later, reaches⟩⟩
  · rw [← alphaOf_inj program uProgram same] at unbound
    exact absurd unbound bound
  · rw [← alphaOf_inj program uProgram same] at reaches
    have seen : v ∈ later := reaches.path_suffix.subset List.mem_cons_self
    have all : Reaches uf ([], start) (later, .var v) :=
      (walked.tail (.follow fresh bound)).trans reaches
    exact ⟨closable.plainCycles later v all seen,
      sound.compound (Reaches.root_compound rootProgram bound reaches)⟩

theorem Sound.bindCycle {start : TopType} (closable : Closable uf start) {path : List TypeVar}
    {v : TypeVar} {closed : TopType} (walked : Reaches uf ([], start) (path, .var v))
    (followed : Followed uf path) (program : v.inProgram = true) (fresh : v ∉ path)
    (bound : uf.root (.var v) ≠ .var v) (rootProgram : (uf.root (.var v)).inProgram = true)
    (sound : Sound uf (v :: path) (uf.root (.var v)) closed)
    (overAlphas : OverAlphas (v :: path) closed) : Sound uf path (.var v) (bindCycle v closed) := by
  have collects : alphaOf v ∈ TypeVars.collect closed ↔ alphaOf v ∈ closed.freeVars := by
    have unbound := (overAlphas.binder_ne program).1
    rw [TypeVars.mem_collect_of_not_binder unbound, mem_freeVars_of_not_binder closed unbound]
  have names : ∀ assignment, NamesTrees uf path assignment → NamesTrees uf (v :: path)
      (Function.update assignment (alphaOf v) (solvedTree uf (.var v))) := fun assignment names =>
    names.cons program followed.program bound
  -- Every other free variable is free for the path without the variable.
  have older : ∀ w ∈ closed.freeVars, w ≠ alphaOf v → ∃ u, u.inProgram = true ∧ w = alphaOf u ∧
      (uf.root (.var u) = .var u ∨
        u ∈ path ∧ ∃ later, Reaches uf (path, .var v) (later, .var u)) := by
    intro w free different
    rcases sound.free w free with ⟨u, uProgram, same, unbound | ⟨seen, later, reaches⟩⟩
    · exact ⟨u, uProgram, same, .inl unbound⟩
    · have notV : u ≠ v := fun equal => different (equal ▸ same)
      exact ⟨u, uProgram, same, .inr ⟨(List.mem_cons.mp seen).resolve_left notV, later,
        .head (.follow fresh bound) reaches⟩⟩
  by_cases cyclic : alphaOf v ∈ closed.freeVars
  · rcases sound.recurs closable walked program fresh bound rootProgram cyclic with
      ⟨plain, compound⟩
    have wraps : closed ≠ .var (alphaOf v) ∧ alphaOf v ∈ TypeVars.collect closed := by
      refine ⟨?_, collects.mpr cyclic⟩
      rintro rfl
      cases compound
    -- The variable is plain and only alphas occur, so nothing is substituted.
    have same : Substituter.substitute closed v (.var (alphaOf v)) = closed := by
      apply mapVars_eq_self
      · intro w occurs
        apply if_neg
        rintro rfl
        rw [overAlphas.occur w occurs] at plain
        cases plain
      · exact fun w binder => if_neg ((overAlphas.binder_ne program).2 w binder)
    simp only [TopTypeClosure.bindCycle]
    rw [if_pos wraps, same]
    have tree : ∀ assignment, NamesTrees uf path assignment →
        (TopType.mu (alphaOf v) closed).unrolled assignment = solvedTree uf (.var v) := by
      intro assignment isNamed
      apply eq_unrolled_mu compound
      rw [sound.tree _ (names assignment isNamed), solvedTree_root]
    constructor
    · exact tree
    · intro w free
      rw [freeVars, List.mem_filter] at free
      exact older w free.1 (of_decide_eq_true free.2)
    · intro assignment isNamed
      exact ⟨v, rfl, bound, cyclic, tree assignment isNamed,
        sound.binders _ (names assignment isNamed)⟩
    · intro impossible
      cases impossible
    · intro impossible
      cases impossible
  · simp only [TopTypeClosure.bindCycle]
    rw [if_neg fun wraps => cyclic (collects.mp wraps.2)]
    have unused : ∀ assignment : Assignment, ∀ w ∈ closed.freeVars,
        Function.update assignment (alphaOf v) (solvedTree uf (.var v)) w = assignment w := by
      intro assignment w free
      rw [Function.update_of_ne]
      rintro rfl
      exact cyclic free
    constructor
    · intro assignment isNamed
      rw [← unrolled_congr closed (unused assignment), sound.tree _ (names assignment isNamed),
        solvedTree_root]
    · intro w free
      apply older w free
      rintro rfl
      exact cyclic free
    · intro assignment isNamed
      exact (sound.binders _ (names assignment isNamed)).congr closed (unused assignment)
    · intro impossible
      cases impossible
    · intro impossible
      cases impossible

variable (keeps : TermUnifier.KeepsSort sort uf.root) (congruent : Term.Congruent uf.root)

include keeps congruent

/-- Every type a walk from a closable type meets is closed, with enough depth for
the variables the walk has not followed. -/
theorem closes {start : TopType} (closable : Closable uf start) (startTerm : IsTerm start)
    (depth : Nat) : ∀ (type : TopType) (path : List TypeVar),
      Reaches uf ([], start) (path, type) → uf.edges.length + 2 ≤ depth + path.length →
        ∃ closed, closeWithin uf depth path type = .ok closed ∧ Sound uf path type closed := by
  induction depth with
  | zero =>
      intro type path walked enough
      have followed := Reaches.followed keeps walked startTerm .nil
      have bounded := followed.length_le
      change path.length ≤ uf.edges.length at bounded
      omega
  | succ depth below =>
      intro type
      induction type using shapeInduction with
      | var v =>
          intro path walked enough
          have followed := Reaches.followed keeps walked startTerm .nil
          have program : v.inProgram = true := (Reaches.isTerm keeps walked startTerm).var_inProgram
          rw [closeWithin, closeType, closeVar]
          by_cases follows : v ∉ path ∧ uf.root (.var v) ≠ .var v
          · have rootProgram : (uf.root (.var v)).inProgram = true := root_inProgram keeps program
            rcases below _ (v :: path) (walked.tail (.follow follows.1 follows.2))
              (by rw [List.length_cons]; omega) with ⟨closedV, closedRep, sound⟩
            refine ⟨bindCycle v closedV, ?_, ?_⟩
            · rw [if_pos follows, closedRep]
              rfl
            · exact sound.bindCycle closable walked followed program follows.1 follows.2
                rootProgram (closeWithin_overAlphas keeps depth _ (.inr rootProgram) closedRep)
          · refine ⟨.var (alphaOf v), if_neg follows, sound_alpha program ?_⟩
            by_cases unbound : uf.root (.var v) = .var v
            · exact .inl unbound
            · exact .inr (by_contra fun fresh => follows ⟨fresh, unbound⟩)
      | modeVar id =>
          intro path walked enough
          rw [closeWithin, closeType, closeModeVar]
          have isMode : (uf.root (.modeVar id)).isMode = true := root_isMode keeps rfl
          cases rep : uf.root (.modeVar id) with
          | modeVar other =>
              have same := closable.modesSettled path id other walked rep
              subst same
              exact ⟨.modeVar other, if_pos rfl, sound_modeVar rep⟩
          | mode value =>
              have deep : 0 < depth := by
                have bounded := (Reaches.followed keeps walked startTerm .nil).length_le
                change path.length ≤ uf.edges.length at bounded
                omega
              obtain ⟨rest, rfl⟩ : ∃ rest, depth = rest + 1 := ⟨depth - 1, by omega⟩
              refine ⟨.mode value, rfl, ?_, List.forall_mem_nil _, fun _ _ => trivial, fun _ => rfl,
                fun impossible => by cases impossible⟩
              intro assignment _
              rw [unrolled, ← solvedTree_root, rep, solvedTree_compound congruent rfl]
              rfl
          | _ =>
              rw [rep] at isMode
              cases isMode
      | compound type compound children =>
          intro path walked enough
          have each : ∀ child ∈ type.getChildTypes, ∃ closed,
              closeWithin uf (depth + 1) path child = .ok closed ∧ Sound uf path child closed :=
            fun child member => children child member path (walked.tail (.child member)) enough
          rcases closeType_compound_exists (Reaches.isTerm keeps walked startTerm) compound
            (fun child member => by
              rcases each child member with ⟨closed, result, sound⟩
              exact ⟨closed, result, sound.mode⟩) with ⟨closed, result, mode⟩
          rcases closeType_compound compound result with ⟨closedCompound, functor, closedChildren⟩
          refine ⟨closed, result, sound_compound congruent compound closedCompound functor ?_ mode⟩
          rw [List.forall₂_iff_get] at closedChildren ⊢
          refine ⟨closedChildren.1, fun index bound bound' => ?_⟩
          have childClosed := closedChildren.2 index bound bound'
          rcases each _ (List.get_mem _ _) with ⟨other, otherResult, sound⟩
          rw [show other = closed.getChildTypes.get ⟨index, bound'⟩ from
            Except.ok.inj (otherResult.symm.trans childClosed)] at sound
          exact sound
      | mu v body =>
          intro path walked _
          exact absurd (Reaches.isTerm keeps walked startTerm) IsTerm.not_mu

end

end TopTypeClosure

end Topc
