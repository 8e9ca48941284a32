import Topc.CallGraph

/-! # Names of functions

A function name stands for a function of the program, which no local hides and
whose mark changes no name. -/

namespace Topc

namespace LocalNameCollector

def AllApartFrom (functionNames : FunctionNames) (names : Std.ExtTreeMap DeclNode LocalNames) :
    Prop :=
  ∀ (function : DeclNode) (locals : LocalNames), names[function]? = some locals →
    ApartFrom functionNames locals

theorem endVisitFunction_apart {functionNames : FunctionNames} {function : Function}
    {before after : Std.ExtTreeMap DeclNode LocalNames}
    (visited : endVisitFunction functionNames before function = .ok after)
    (apart : AllApartFrom functionNames before) : AllApartFrom functionNames after := by
  rw [endVisitFunction, bind_eq_ok] at visited
  rcases visited with ⟨names, visited, result⟩
  cases result
  intro other locals stored
  rw [Std.ExtTreeMap.getElem?_insertIfNew] at stored
  split at stored
  · cases stored
    exact visitFunction_apart visited
  · exact apart other locals stored

end LocalNameCollector

namespace SymbolTable

theorem functionNames_declared {functions : List Function} :
    ∀ {before after : FunctionNames}, functions.foldlM FunctionNameCollector.visit before =
        .ok after →
      ∀ (name : String) (entry : DeclNode × Bool), after[name]? = some entry →
        before[name]? = some entry ∨ ∃ function ∈ functions, function.decl = entry.1 := by
  induction functions with
  | nil =>
      intro before after built name entry stored
      cases built
      exact .inl stored
  | cons function functions induction =>
      intro before after built name entry stored
      rw [List.foldlM_cons, bind_eq_ok] at built
      rcases built with ⟨middle, first, rest⟩
      rcases induction rest name entry stored with earlier | ⟨other, member, same⟩
      · rw [FunctionNameCollector.visit] at first
        split at first
        · cases first
        · cases first
          rw [Std.ExtTreeMap.getElem?_insert] at earlier
          split at earlier
          · cases earlier
            exact .inr ⟨function, List.mem_cons_self, rfl⟩
          · exact .inl earlier
      · exact .inr ⟨other, List.mem_cons_of_mem _ member, same⟩

section

variable {program : Program} {symbols : SymbolTable}

/-- A function name stands for a function of the program. -/
theorem build_getFunction_mem (built : SymbolTable.build program = .ok symbols) {name : String}
    {decl : DeclNode} (named : symbols.getFunction name = some decl) :
    ∃ function ∈ program.functions, function.decl = decl := by
  rw [SymbolTable.build, bind_eq_ok] at built
  rcases built with ⟨functionNames, functionsBuilt, built⟩
  rw [bind_eq_ok] at built
  rcases built with ⟨localNames, _, built⟩
  cases built
  rw [getFunction, Option.map_eq_some_iff] at named
  rcases named with ⟨entry, stored, rfl⟩
  rcases functionNames_declared functionsBuilt name entry stored with empty | declared
  · simp at empty
  · exact declared

/-- No local hides a function. -/
theorem build_getLocal_of_function (built : SymbolTable.build program = .ok symbols) {name : String}
    {decl : DeclNode} (named : symbols.getFunction name = some decl) (scope : DeclNode) :
    symbols.getLocal name scope = none := by
  rw [SymbolTable.build, bind_eq_ok] at built
  rcases built with ⟨functionNames, _, built⟩
  rw [bind_eq_ok] at built
  rcases built with ⟨localNames, localsBuilt, built⟩
  cases built
  have apart := foldlM_preserves (LocalNameCollector.AllApartFrom functionNames)
    (fun _ _ _ => LocalNameCollector.endVisitFunction_apart) _ localsBuilt
    (by intro function names stored; simp at stored)
  by_contra hidden
  rcases Option.ne_none_iff_exists'.mp hidden with ⟨localDecl, isLocal⟩
  rw [getLocal, Option.bind_eq_some_iff] at isLocal
  rcases isLocal with ⟨names, stored, isLocal⟩
  have noFunction := apart scope names stored name (Option.isSome_of_eq_some isLocal)
  rw [getFunction, Option.map_eq_some_iff] at named
  rcases named with ⟨entry, isFunction, _⟩
  rw [Std.ExtTreeMap.contains_eq_isSome_getElem?, isFunction] at noFunction
  cases noFunction

end

/-! ## Marked functions -/

theorem setPoly_getFunction (symbols : SymbolTable) (name other : String) :
    (symbols.setPoly name).getFunction other = symbols.getFunction other := by
  unfold setPoly
  cases stored : symbols.functionNames[name]? with
  | none => rfl
  | some entry =>
      rw [getFunction, getFunction, Std.ExtTreeMap.getElem?_insert]
      split
      · rename_i same
        rw [← Std.LawfulEqCmp.eq_of_compare same, stored]
        rfl
      · rfl

theorem setPoly_getConstructorOwner (symbols : SymbolTable) (name tag : String) :
    (symbols.setPoly name).getConstructorOwner tag = symbols.getConstructorOwner tag := by
  unfold setPoly
  split <;> rfl

theorem setPoly_getLocal (symbols : SymbolTable) (name other : String) (scope : DeclNode) :
    (symbols.setPoly name).getLocal other scope = symbols.getLocal other scope := by
  unfold setPoly
  split <;> rfl

theorem setPoly_getCanonical (symbols : SymbolTable) (name : String) (scope : DeclNode)
    (expr : Expr) :
    (symbols.setPoly name).getCanonical scope expr = symbols.getCanonical scope expr := by
  cases expr with
  | varExpr info other => rw [getCanonical, getCanonical, setPoly_getLocal, setPoly_getFunction]
  | _ => rfl

end SymbolTable

end Topc
