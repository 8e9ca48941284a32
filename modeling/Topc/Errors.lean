import Topc.Syntax

/-! # Diagnostics and rule toggles -/

namespace Topc

/-- What a pass of the compiler throws. A semantic or unification error rejects
the program; an internal error is a broken assumption of the compiler. -/
inductive CompileError
  | semantic (message : String)
  | unification (message : String)
  | internal (message : String)
deriving DecidableEq, Repr

/-- A pass that returns has passed each of its steps. -/
theorem bind_eq_ok {E : Type} {first : Except E α} {next : α → Except E β} {result : β} :
    (first >>= next) = .ok result ↔ ∃ value, first = .ok value ∧ next value = .ok result := by
  cases first <;> simp [bind, Except.bind]

theorem isOk_iff {outcome : Except CompileError α} :
    outcome.isOk = true ↔ ∃ result, outcome = .ok result := by
  cases outcome <;> simp [Except.isOk, Except.toBool]

theorem toOption_eq_some {E : Type} {outcome : Except E α} {result : α} :
    outcome.toOption = some result ↔ outcome = .ok result := by
  cases outcome <;> simp [Except.toOption]

/-- What every step of a traversal preserves, the traversal preserves. -/
theorem foldlM_preserves {E : Type} (property : β → Prop) {visit : β → α → Except E β}
    (preserved : ∀ before item after, visit before item = .ok after →
      property before → property after) (items : List α) :
    ∀ {start result}, items.foldlM visit start = .ok result → property start →
      property result := by
  induction items with
  | nil =>
      intro start result visited holds
      cases visited
      exact holds
  | cons item items induction =>
      intro start result visited holds
      rw [List.foldlM_cons, bind_eq_ok] at visited
      rcases visited with ⟨mid, first, rest⟩
      exact induction rest (preserved start item mid first holds)

/-- A traversal that returns has visited each of its items. -/
theorem foldlM_visits {E : Type} {visit : β → α → Except E β} {items : List α} :
    ∀ {start result}, items.foldlM visit start = .ok result →
      ∀ item ∈ items, ∃ before after, visit before item = .ok after := by
  induction items with
  | nil => exact fun _ _ => nofun
  | cons head items induction =>
      intro start result visited item member
      rw [List.foldlM_cons, bind_eq_ok] at visited
      rcases visited with ⟨mid, first, rest⟩
      rcases List.mem_cons.mp member with rfl | later
      · exact ⟨start, mid, first⟩
      · exact induction rest item later

/-- A check of every item passes when each item does. -/
theorem forM_eq_ok {check : α → Except CompileError Unit} {items : List α} :
    items.forM check = .ok () ↔ ∀ item ∈ items, check item = .ok () := by
  induction items with
  | nil => simp [pure, Except.pure]
  | cons item items induction =>
      rw [List.forM_eq_forM, List.forM_cons, bind_eq_ok, List.forall_mem_cons, ← induction]
      constructor
      · rintro ⟨⟨⟩, first, rest⟩
        exact ⟨first, rest⟩
      · rintro ⟨first, rest⟩
        exact ⟨(), first, rest⟩

/-- A traversal that collects results has one result for each item. -/
theorem mapM_eq_ok {E : Type} {visit : α → Except E β} {items : List α} {results : List β} :
    items.mapM visit = .ok results ↔
      List.Forall₂ (fun item result => visit item = .ok result) items results := by
  induction items generalizing results with
  | nil => simp [pure, Except.pure, eq_comm]
  | cons item items induction =>
      rw [List.mapM_cons, bind_eq_ok]
      simp only [bind_eq_ok, induction]
      constructor
      · rintro ⟨first, firstResult, rest, restResults, equal⟩
        cases equal
        exact .cons firstResult restResults
      · rintro (_ | ⟨firstResult, restResults⟩)
        exact ⟨_, firstResult, _, restResults, rfl⟩

/-- Each collected result is that of an item. -/
theorem mem_of_mapM {E : Type} {visit : α → Except E β} {items : List α} {results : List β}
    (collected : items.mapM visit = .ok results) :
    ∀ result ∈ results, ∃ item ∈ items, visit item = .ok result := by
  rw [mapM_eq_ok] at collected
  induction collected with
  | nil => exact nofun
  | @cons item result _ _ first _ induction =>
      intro other member
      rcases List.mem_cons.mp member with rfl | later
      · exact ⟨item, List.mem_cons_self, first⟩
      · rcases induction other later with ⟨item', itemMem, visited⟩
        exact ⟨item', List.mem_cons_of_mem _ itemMem, visited⟩

/-- Each item has a result among those collected. -/
theorem exists_of_mapM {E : Type} {visit : α → Except E β} {items : List α} {results : List β}
    (collected : items.mapM visit = .ok results) :
    ∀ item ∈ items, ∃ result ∈ results, visit item = .ok result := by
  rw [mapM_eq_ok] at collected
  induction collected with
  | nil => exact nofun
  | @cons item result _ _ first _ induction =>
      intro other member
      rcases List.mem_cons.mp member with rfl | later
      · exact ⟨result, List.mem_cons_self, first⟩
      · rcases induction other later with ⟨result', resultMem, visited⟩
        exact ⟨result', List.mem_cons_of_mem _ resultMem, visited⟩

/-- The ids of the rules switched off by `--unsafe-disable`. -/
structure RuleToggles where
  disabled : List String
deriving DecidableEq, Repr

namespace RuleToggles

/-- The compiler as shipped: every rule is enforced. -/
def allEnabled : RuleToggles := ⟨[]⟩

def enabled (rules : RuleToggles) (id : String) : Bool :=
  !rules.disabled.contains id

/-- Throw unless the rule is switched off. -/
def reject (rules : RuleToggles) (id message : String) : Except CompileError Unit :=
  if rules.enabled id then .error (.semantic message) else .ok ()

@[simp] theorem enabled_allEnabled (id : String) : allEnabled.enabled id = true := by
  simp [enabled, allEnabled]

@[simp] theorem reject_allEnabled (id message : String) :
    allEnabled.reject id message = .error (.semantic message) := by
  simp [reject]

end RuleToggles

end Topc
