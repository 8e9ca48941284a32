import Mathlib.Logic.Relation
import Mathlib.Order.Std
import Std.Data.TreeMap.Lemmas
import Topc.Solver.TermUnionFind

/-! # Union-find over pointers

The parent edges are kept in a map ordered by pointer and searched by the terms
behind the pointers. Pointers name terms that never change, and several may name
equal terms. -/

namespace Topc

namespace StoredTerms

section

variable {Pointer T : Type*} [LinearOrder Pointer] [DecidableEq T]

abbrev Edges (Pointer : Type*) [LinearOrder Pointer] := Std.TreeMap Pointer Pointer

variable (content : Pointer → T)

/-! ## Operations -/

/-- The stored pointer to a term that equals a given one. -/
def lookupEdge (edges : Edges Pointer) (t : Pointer) : Option Pointer :=
  (edges.toList.find? fun edge => content t == content edge.1).map Prod.fst

/-- Undefined unless the term is stored, as the code asserts. -/
def getParent (edges : Edges Pointer) (t : Pointer) : Option Pointer :=
  (lookupEdge content edges t).bind fun key => edges[key]?

def smartInsert (edges : Edges Pointer) (t : Pointer) : Edges Pointer × Pointer :=
  match lookupEdge content edges t with
  | some existing => (edges, existing)
  | none => (edges.insert t t, t)

def add (edges : Edges Pointer) (term : Pointer) : Edges Pointer :=
  (smartInsert content edges term).1

/-- Go to the parent until it equals the term. -/
def climb (edges : Edges Pointer) : Nat → Pointer → Option Pointer
  | 0, _ => none
  | steps + 1, parent =>
      (getParent content edges parent).bind fun next =>
        if content parent = content next then some parent else climb edges steps next

/-- The representative of a class. The loop tests at most each stored term and
the root once more. -/
def find (edges : Edges Pointer) (term : Pointer) : Option (Edges Pointer × Pointer) :=
  let (edges, term) := smartInsert content edges term
  (climb content edges (edges.size + 1) term).map fun parent => (edges, parent)

def quickUnion (edges : Edges Pointer) (t1 t2 : Pointer) : Option (Edges Pointer) :=
  let (edges, t1) := smartInsert content edges t1
  let (edges, t2) := smartInsert content edges t2
  (find content edges t1).bind fun (edges, t1_root) =>
    (find content edges t2).map fun (edges, t2_root) =>
      match lookupEdge content edges t1_root with
      | some key => (edges.erase key).insert t1_root t2_root
      | none => edges

def connected (edges : Edges Pointer) (t1 t2 : Pointer) : Option (Edges Pointer × Bool) :=
  (find content edges t1).bind fun (edges, t1_root) =>
    (find content edges t2).map fun (edges, t2_root) =>
      (edges, decide (content t1_root = content t2_root))

end

/-- What unification asks of a term. -/
structure TermMethods (T : Type*) where
  isVariable : T → Bool
  matchesFunctor : T → T → Bool
  preferAsRepresentativeOver : T → T → Bool
  unifiesByStructureOnlyWith : T → T → Bool

section

variable {Pointer T : Type*} [LinearOrder Pointer] [DecidableEq T]
variable (content : Pointer → T) (methods : TermMethods T)

/-- The union that unification makes of two representatives, if any. -/
def unionOf (t1 t2 : Pointer) : Option (Pointer × Pointer) :=
  if content t1 = content t2 then none
  else if methods.isVariable (content t1) && methods.isVariable (content t2) then some (t1, t2)
  else if methods.isVariable (content t1) && !methods.isVariable (content t2) then some (t1, t2)
  else if !methods.isVariable (content t1) && methods.isVariable (content t2) then some (t2, t1)
  -- here unification throws, with nothing united
  else if !methods.matchesFunctor (content t1) (content t2) then none
  else if methods.unifiesByStructureOnlyWith (content t1) (content t2) then none
  else if methods.preferAsRepresentativeOver (content t1) (content t2) then some (t2, t1)
  else some (t1, t2)

/-- The map and the unions made so far. -/
structure Classes (Pointer : Type*) [LinearOrder Pointer] where
  edges : Edges Pointer
  unions : List (Pointer × Pointer)

inductive Call (Pointer : Type*)
  | add (term : Pointer)
  | find (term : Pointer)
  | connected (t1 t2 : Pointer)
  | quickUnion (t1 t2 : Pointer)
  | unify (t1 t2 : Pointer)

def Classes.unite (classes : Classes Pointer) (t1 t2 : Pointer) : Option (Classes Pointer) :=
  (quickUnion content classes.edges t1 t2).map fun edges =>
    { edges, unions := (t1, t2) :: classes.unions }

def Classes.unify (classes : Classes Pointer) (t1 t2 : Pointer) : Option (Classes Pointer) :=
  (find content classes.edges t1).bind fun (edges, t1) =>
    (find content edges t2).bind fun (edges, t2) =>
      match unionOf content methods t1 t2 with
      | some (lower, upper) => Classes.unite content { classes with edges } lower upper
      | none => some { classes with edges }

def Classes.call (classes : Classes Pointer) : Call Pointer → Option (Classes Pointer)
  | .add term => some { classes with edges := StoredTerms.add content classes.edges term }
  | .find term => (StoredTerms.find content classes.edges term).map fun (edges, _) =>
      { classes with edges }
  | .connected t1 t2 => (StoredTerms.connected content classes.edges t1 t2).map fun (edges, _) =>
      { classes with edges }
  | .quickUnion t1 t2 => classes.unite content t1 t2
  | .unify t1 t2 => classes.unify content methods t1 t2

/-- The classes after a sequence of calls. -/
def run (calls : List (Call Pointer)) : Option (Classes Pointer) :=
  calls.foldlM (Classes.call content methods) ⟨∅, []⟩

end

/-! ## The terms behind the pointers -/

section

variable {Pointer T : Type*} [LinearOrder Pointer] [DecidableEq T] {content : Pointer → T}

/-- Between the terms, the edges are those of a union-find. -/
def Represents (content : Pointer → T) (edges : Edges Pointer) (uf : TermUnionFind T) : Prop :=
  (edges.toList.map fun edge => (content edge.1, content edge.2)).Perm uf.edges

variable {edges : Edges Pointer} {uf : TermUnionFind T}

theorem represents_empty : Represents content ∅ TermUnionFind.empty :=
  .refl []

namespace Represents

theorem mem_iff (represents : Represents content edges uf) {edge : T × T} :
    edge ∈ uf.edges ↔ ∃ key value, (key, value) ∈ edges.toList ∧
      content key = edge.1 ∧ content value = edge.2 := by
  rw [← List.Perm.mem_iff represents, List.mem_map]
  constructor
  · rintro ⟨⟨key, value⟩, member, rfl⟩
    exact ⟨key, value, member, rfl, rfl⟩
  · rintro ⟨key, value, member, isKey, isValue⟩
    exact ⟨(key, value), member, Prod.ext isKey isValue⟩

theorem stored_iff (represents : Represents content edges uf) {term : T} :
    uf.Stored term ↔ ∃ key value, (key, value) ∈ edges.toList ∧ content key = term := by
  rw [TermUnionFind.Stored, List.mem_map]
  constructor
  · rintro ⟨edge, member, rfl⟩
    rcases represents.mem_iff.mp member with ⟨key, value, stored, isKey, _⟩
    exact ⟨key, value, stored, isKey⟩
  · rintro ⟨key, value, stored, rfl⟩
    exact ⟨(content key, content value),
      represents.mem_iff.mpr ⟨key, value, stored, rfl, rfl⟩, rfl⟩

theorem size_eq (represents : Represents content edges uf) : edges.size = uf.edges.length := by
  rw [← Std.TreeMap.length_toList, ← List.Perm.length_eq represents, List.length_map]

/-- One stored pointer for each stored term. -/
theorem unique (represents : Represents content edges uf) {key value key' value' : Pointer}
    (stored : (key, value) ∈ edges.toList) (stored' : (key', value') ∈ edges.toList)
    (same : content key = content key') : (key, value) = (key', value') := by
  have nodup := uf.keysNodup
  rw [← (List.Perm.map Prod.fst represents).nodup_iff, List.map_map] at nodup
  exact List.inj_on_of_nodup_map nodup stored stored' same

theorem getParent_eq (represents : Represents content edges uf) {key value : Pointer}
    (member : (key, value) ∈ edges.toList) :
    TermUnionFind.getParent uf.edges (content key) = content value := by
  have stored : uf.Stored (content key) := represents.stored_iff.mpr ⟨key, value, member, rfl⟩
  rcases TermUnionFind.getParent_mem stored with ⟨edge, edgeMem, isKey, isParent⟩
  rcases represents.mem_iff.mp edgeMem with ⟨key', value', member', sameKey, sameValue⟩
  have equal := represents.unique member member' (by rw [sameKey, isKey])
  rw [← isParent, ← sameValue, (Prod.mk.inj equal).2]

end Represents

theorem lookupEdge_eq_some {t key : Pointer} (found : lookupEdge content edges t = some key) :
    ∃ value, (key, value) ∈ edges.toList ∧ content t = content key := by
  rw [lookupEdge, Option.map_eq_some_iff] at found
  rcases found with ⟨⟨key', value⟩, found, rfl⟩
  have same := List.find?_some (p := fun edge : Pointer × Pointer => content t == content edge.1)
    found
  exact ⟨value, List.mem_of_find?_eq_some found, eq_of_beq same⟩

theorem lookupEdge_isSome (represents : Represents content edges uf) {t : Pointer} :
    (lookupEdge content edges t).isSome = true ↔ uf.Stored (content t) := by
  rw [lookupEdge, Option.isSome_map, List.find?_isSome, represents.stored_iff]
  constructor
  · rintro ⟨⟨key, value⟩, stored, same⟩
    exact ⟨key, value, stored, (eq_of_beq same).symm⟩
  · rintro ⟨key, value, stored, same⟩
    exact ⟨(key, value), stored, beq_iff_eq.mpr same.symm⟩

theorem getParent_spec (represents : Represents content edges uf) {t : Pointer}
    (stored : uf.Stored (content t)) :
    ∃ parent, getParent content edges t = some parent ∧
      content parent = TermUnionFind.getParent uf.edges (content t) := by
  rcases Option.isSome_iff_exists.mp ((lookupEdge_isSome represents).mpr stored) with
    ⟨key, found⟩
  rcases lookupEdge_eq_some found with ⟨value, member, same⟩
  refine ⟨value, ?_, ?_⟩
  · rw [getParent, found, Option.bind_some]
    exact Std.TreeMap.mem_toList_iff_getElem?_eq_some.mp member
  · rw [same, represents.getParent_eq member]

theorem smartInsert_spec (represents : Represents content edges uf) (t : Pointer) :
    Represents content (smartInsert content edges t).1 (uf.smartInsert (content t)) ∧
      content (smartInsert content edges t).2 = content t := by
  rw [smartInsert, TermUnionFind.smartInsert]
  cases found : lookupEdge content edges t with
  | some existing =>
      have stored := (lookupEdge_isSome represents).mp (Option.isSome_of_eq_some found)
      rcases lookupEdge_eq_some found with ⟨_, _, same⟩
      rw [dif_pos (show content t ∈ uf.edges.map Prod.fst from stored)]
      exact ⟨represents, same.symm⟩
  | none =>
      have missing : ¬ uf.Stored (content t) := by
        rw [← lookupEdge_isSome represents, found]
        exact Bool.false_ne_true
      rw [dif_neg (show content t ∉ uf.edges.map Prod.fst from missing)]
      refine ⟨?_, rfl⟩
      have others : edges.toList.filter (fun edge => decide ¬ (t == edge.1) = true) =
          edges.toList := by
        rw [List.filter_eq_self]
        rintro ⟨key, value⟩ member
        rw [decide_eq_true_eq, beq_iff_eq]
        rintro rfl
        exact missing (represents.stored_iff.mpr ⟨t, value, member, rfl⟩)
      have inserted := Std.TreeMap.toList_insert_perm (t := edges) (k := t) (v := t)
      rw [others] at inserted
      exact (inserted.map _).trans (List.Perm.cons _ represents)

/-! ## Finding -/

theorem climb_spec (represents : Represents content edges uf) (steps : Nat) :
    ∀ {t : Pointer}, uf.Stored (content t) →
      TermUnionFind.getParent uf.edges
          (ParentForest.climb (TermUnionFind.getParent uf.edges) steps (content t)) =
        ParentForest.climb (TermUnionFind.getParent uf.edges) steps (content t) →
      ∃ r, climb content edges (steps + 1) t = some r ∧
        content r = ParentForest.climb (TermUnionFind.getParent uf.edges) steps (content t) := by
  induction steps with
  | zero =>
      intro t stored isRoot
      rw [ParentForest.climb] at isRoot ⊢
      rcases getParent_spec represents stored with ⟨parent, got, same⟩
      refine ⟨t, ?_, rfl⟩
      rw [climb, got, Option.bind_some, if_pos (by rw [same, isRoot])]
  | succ steps induction =>
      intro t stored isRoot
      rcases getParent_spec represents stored with ⟨parent, got, same⟩
      rw [climb, got, Option.bind_some]
      rw [ParentForest.climb] at isRoot ⊢
      by_cases fixed : TermUnionFind.getParent uf.edges (content t) = content t
      · rw [if_pos fixed]
        exact ⟨t, if_pos (by rw [same, fixed]), rfl⟩
      · rw [if_neg fixed] at isRoot ⊢
        rw [if_neg (by rw [same]; exact Ne.symm fixed)]
        rw [← same] at isRoot ⊢
        exact induction (same ▸ TermUnionFind.stored_getParent stored) isRoot

theorem find_spec (represents : Represents content edges uf) (t : Pointer) :
    ∃ edges' r, find content edges t = some (edges', r) ∧
      Represents content edges' (uf.smartInsert (content t)) ∧
      content r = uf.root (content t) := by
  rcases smartInsert_spec represents t with ⟨inserted, same⟩
  have stored : (uf.smartInsert (content t)).Stored (content (smartInsert content edges t).2) := by
    rw [same]
    exact TermUnionFind.stored_smartInsert.mpr (.inl rfl)
  rcases climb_spec inserted (smartInsert content edges t).1.size stored
    (by rw [inserted.size_eq]; exact TermUnionFind.getParent_root _ _) with ⟨r, climbed, isRoot⟩
  refine ⟨(smartInsert content edges t).1, r, ?_, inserted, ?_⟩
  · change (climb content (smartInsert content edges t).1
      ((smartInsert content edges t).1.size + 1) (smartInsert content edges t).2).map _ = _
    rw [climbed]
    rfl
  · rw [isRoot, inserted.size_eq, same]
    exact congrFun (TermUnionFind.root_smartInsert uf (content t)) _

/-- A stored term is found without a change. -/
theorem find_stored (represents : Represents content edges uf) {t : Pointer}
    (stored : uf.Stored (content t)) :
    ∃ edges' r, find content edges t = some (edges', r) ∧ Represents content edges' uf ∧
      content r = uf.root (content t) := by
  rcases find_spec represents t with ⟨edges', r, found, represents', isRoot⟩
  rw [TermUnionFind.smartInsert_of_stored stored] at represents'
  exact ⟨edges', r, found, represents', isRoot⟩

/-! ## Uniting -/

/-- The edge of a root replaced, under another pointer to an equal term. -/
theorem Represents.relink (represents : Represents content edges uf) {key t1_root t2_root : Pointer}
    (found : lookupEdge content edges t1_root = some key) {lower upper : T}
    (isLower : content t1_root = lower) (isUpper : content t2_root = upper)
    (upperStored : uf.Stored upper) (lowerRoot : TermUnionFind.getParent uf.edges lower = lower)
    (upperRoot : TermUnionFind.getParent uf.edges upper = upper) :
    Represents content ((edges.erase key).insert t1_root t2_root)
      (uf.relink lower upper upperStored lowerRoot upperRoot) := by
  subst isLower
  rcases lookupEdge_eq_some found with ⟨value, keyStored, same⟩
  have nodup : ∀ map : Edges Pointer, map.toList.Nodup := fun map =>
    Std.TreeMap.distinct_keys_toList.imp fun differ equal => differ (by rw [equal]; simp)
  have kept : ((edges.erase key).toList.filter fun edge =>
      decide ¬ (t1_root == edge.1) = true).Perm
      (edges.toList.filter fun edge => content edge.1 ≠ content t1_root) := by
    rw [List.perm_ext_iff_of_nodup ((nodup _).filter _) ((nodup _).filter _)]
    rintro ⟨other, parent⟩
    simp only [List.mem_filter, decide_eq_true_eq, beq_iff_eq,
      Std.TreeMap.mem_toList_iff_getElem?_eq_some, Std.TreeMap.getElem?_erase,
      Std.LawfulEqCmp.compare_eq_iff_eq]
    constructor
    · rintro ⟨stored, different⟩
      split at stored
      · cases stored
      · rename_i otherKey
        refine ⟨stored, fun equal => otherKey ?_⟩
        have member := Std.TreeMap.mem_toList_iff_getElem?_eq_some.mpr stored
        exact (Prod.mk.inj (represents.unique keyStored member (by rw [← same, equal]))).1
    · rintro ⟨stored, different⟩
      constructor
      · rw [if_neg]
        · exact stored
        · rintro rfl
          exact different same.symm
      · rintro rfl
        exact different rfl
  have inserted := Std.TreeMap.toList_insert_perm (t := edges.erase key) (k := t1_root)
    (v := t2_root)
  have mapped := (inserted.trans (kept.cons _)).map
    fun edge : Pointer × Pointer => (content edge.1, content edge.2)
  have others := List.Perm.filter (fun edge : T × T => edge.1 ≠ content t1_root) represents
  rw [List.filter_map] at others
  rw [List.map_cons, isUpper] at mapped
  exact mapped.trans (others.cons _)

theorem quickUnion_spec (represents : Represents content edges uf) (t1 t2 : Pointer) :
    ∃ edges', quickUnion content edges t1 t2 = some edges' ∧
      Represents content edges' (uf.quickUnion (content t1) (content t2)) := by
  rcases smartInsert_spec represents t1 with ⟨represents, same1⟩
  rcases smartInsert_spec represents t2 with ⟨represents, same2⟩
  have stored1 : ((uf.smartInsert (content t1)).smartInsert (content t2)).Stored (content t1) :=
    TermUnionFind.stored_smartInsert.mpr (.inr (TermUnionFind.stored_smartInsert.mpr (.inl rfl)))
  have stored2 : ((uf.smartInsert (content t1)).smartInsert (content t2)).Stored (content t2) :=
    TermUnionFind.stored_smartInsert.mpr (.inl rfl)
  rcases find_stored represents (by rw [same1]; exact stored1) with
    ⟨edges1, t1_root, found1, represents, root1⟩
  rcases find_stored represents (by rw [same2]; exact stored2) with
    ⟨edges2, t2_root, found2, represents, root2⟩
  rw [same1] at root1
  rw [same2] at root2
  have rootStored : (lookupEdge content edges2 t1_root).isSome = true := by
    rw [lookupEdge_isSome represents, root1]
    exact TermUnionFind.stored_root stored1
  rcases Option.isSome_iff_exists.mp rootStored with ⟨key, found⟩
  refine ⟨(edges2.erase key).insert t1_root t2_root, ?_,
    represents.relink found root1 root2 (TermUnionFind.stored_root stored2)
      (TermUnionFind.getParent_root _ _) (TermUnionFind.getParent_root _ _)⟩
  change (find content (smartInsert content (smartInsert content edges t1).1 t2).1
    (smartInsert content edges t1).2).bind _ = _
  rw [found1]
  change (find content edges1 (smartInsert content (smartInsert content edges t1).1 t2).2).map _ = _
  rw [found2, Option.map_some]
  simp only [found]

end

/-! ## Sequences of calls -/

section

variable {Pointer T : Type*} [LinearOrder Pointer] [DecidableEq T]

/-- The terms of the unions made so far. -/
def United (content : Pointer → T) (unions : List (Pointer × Pointer)) (left right : T) : Prop :=
  ∃ union ∈ unions, content union.1 = left ∧ content union.2 = right

/-- The edges form a union-find, whose classes come from the unions. -/
structure Sound (content : Pointer → T) (classes : Classes Pointer) (uf : TermUnionFind T) :
    Prop where
  represents : Represents content classes.edges uf
  classes : ∀ left right, uf.root left = uf.root right ↔
    Relation.EqvGen (United content classes.unions) left right

/-- A class with a compound term has a compound root. -/
def CompoundRoots (methods : TermMethods T) (uf : TermUnionFind T) : Prop :=
  ∀ term, methods.isVariable term = false → methods.isVariable (uf.root term) = false

variable {content : Pointer → T} {methods : TermMethods T} {classes : Classes Pointer}
  {uf : TermUnionFind T}

theorem sound_empty : Sound content (⟨∅, []⟩ : Classes Pointer) TermUnionFind.empty where
  represents := represents_empty
  classes left right := by
    constructor
    · rintro rfl
      exact .refl _
    · intro linked
      induction linked with
      | rel _ _ united =>
          rcases united with ⟨_, member, _⟩
          cases member
      | refl _ => rfl
      | symm _ _ _ induction => exact induction.symm
      | trans _ _ _ _ _ first second => exact first.trans second

theorem Sound.smartInsert (sound : Sound content classes uf) {edges : Edges Pointer} {term : T}
    (represents : Represents content edges (uf.smartInsert term)) :
    Sound content { classes with edges } (uf.smartInsert term) where
  represents := represents
  classes left right := by
    rw [TermUnionFind.root_smartInsert]
    exact sound.classes left right

theorem Sound.unite (sound : Sound content classes uf) (t1 t2 : Pointer) :
    ∃ classes', classes.unite content t1 t2 = some classes' ∧
      Sound content classes' (uf.quickUnion (content t1) (content t2)) := by
  rcases quickUnion_spec sound.represents t1 t2 with ⟨edges, united, represents⟩
  refine ⟨⟨edges, (t1, t2) :: classes.unions⟩, ?_, represents, ?_⟩
  · rw [Classes.unite, united, Option.map_some]
  · have merged := ParentForest.merged_classes sound.classes
      (TermUnionFind.root_quickUnion uf (content t1) (content t2))
    intro left right
    rw [merged]
    have same : (fun left right => left = content t1 ∧ right = content t2 ∨
        United content classes.unions left right) =
        United content ((t1, t2) :: classes.unions) := by
      funext left right
      simp only [United, List.exists_mem_cons_iff, eq_comm]
    rw [same]

omit [LinearOrder Pointer] in
/-- What unification unites: of a variable and a compound term, the latter is on top. -/
theorem unionOf_spec {t1 t2 lower upper : Pointer}
    (chosen : unionOf content methods t1 t2 = some (lower, upper)) :
    (lower = t1 ∧ upper = t2 ∨ lower = t2 ∧ upper = t1) ∧
      (methods.isVariable (content lower) = false →
        methods.isVariable (content upper) = false) := by
  rw [unionOf] at chosen
  cases left : methods.isVariable (content t1) <;>
    cases right : methods.isVariable (content t2) <;>
    simp only [left, right] at chosen <;> grind

theorem CompoundRoots.smartInsert (compound : CompoundRoots methods uf) (term : T) :
    CompoundRoots methods (uf.smartInsert term) := by
  rwa [CompoundRoots, TermUnionFind.root_smartInsert]

theorem CompoundRoots.quickUnion (compound : CompoundRoots methods uf) {lower upper : T}
    (ordered : methods.isVariable (uf.root lower) = false →
      methods.isVariable (uf.root upper) = false) :
    CompoundRoots methods (uf.quickUnion lower upper) := by
  intro term isCompound
  have rootCompound := compound term isCompound
  rw [TermUnionFind.root_quickUnion]
  split
  · rename_i inLower
    rw [inLower] at rootCompound
    exact ordered rootCompound
  · exact rootCompound

/-- Two terms are looked for, and the map stays a union-find. -/
theorem Sound.find_find (sound : Sound content classes uf) (t1 t2 : Pointer) :
    ∃ edges1 r1 edges2 r2, find content classes.edges t1 = some (edges1, r1) ∧
      find content edges1 t2 = some (edges2, r2) ∧
      Sound content { classes with edges := edges2 }
        ((uf.smartInsert (content t1)).smartInsert (content t2)) ∧
      content r1 = uf.root (content t1) ∧ content r2 = uf.root (content t2) := by
  rcases find_spec sound.represents t1 with ⟨edges1, r1, found1, represents1, root1⟩
  rcases find_spec represents1 t2 with ⟨edges2, r2, found2, represents2, root2⟩
  rw [TermUnionFind.root_smartInsert] at root2
  exact ⟨edges1, r1, edges2, r2, found1, found2,
    (sound.smartInsert represents1).smartInsert represents2, root1, root2⟩

theorem unify_sound (sound : Sound content classes uf) (t1 t2 : Pointer) :
    ∃ classes' uf', classes.unify content methods t1 t2 = some classes' ∧
      Sound content classes' uf' ∧ (CompoundRoots methods uf → CompoundRoots methods uf') := by
  rcases sound.find_find t1 t2 with
    ⟨edges1, r1, edges2, r2, found1, found2, found, root1, root2⟩
  cases chosen : unionOf content methods r1 r2 with
  | none =>
      refine ⟨_, _, ?_, found, fun compound => (compound.smartInsert _).smartInsert _⟩
      simp only [Classes.unify, found1, Option.bind_some, found2, chosen]
  | some pair =>
      rcases pair with ⟨lower, upper⟩
      rcases found.unite lower upper with ⟨classes', united, sound'⟩
      refine ⟨classes', _, ?_, sound', fun compound => ?_⟩
      · simp only [Classes.unify, found1, Option.bind_some, found2, chosen]
        exact united
      · have top1 : uf.root (content r1) = content r1 := by
          rw [root1, TermUnionFind.root_root]
        have top2 : uf.root (content r2) = content r2 := by
          rw [root2, TermUnionFind.root_root]
        apply ((compound.smartInsert _).smartInsert _).quickUnion
        simp only [TermUnionFind.root_smartInsert]
        rcases unionOf_spec chosen with ⟨⟨rfl, rfl⟩ | ⟨rfl, rfl⟩, ordered⟩
        · rwa [top1, top2]
        · rwa [top1, top2]

/-- A call other than a direct union keeps compound terms at the roots. -/
theorem call_sound (sound : Sound content classes uf) (call : Call Pointer) :
    ∃ classes' uf', classes.call content methods call = some classes' ∧
      Sound content classes' uf' ∧
      ((∀ t1 t2, call ≠ .quickUnion t1 t2) →
        CompoundRoots methods uf → CompoundRoots methods uf') := by
  cases call with
  | add term =>
      have inserted := (smartInsert_spec sound.represents term).1
      exact ⟨_, _, rfl, sound.smartInsert inserted, fun _ compound => compound.smartInsert _⟩
  | find term =>
      rcases find_spec sound.represents term with ⟨edges, r, found, represents, _⟩
      refine ⟨_, _, ?_, sound.smartInsert represents, fun _ compound => compound.smartInsert _⟩
      rw [Classes.call, found, Option.map_some]
  | connected t1 t2 =>
      rcases sound.find_find t1 t2 with ⟨edges1, r1, edges2, r2, found1, found2, found, _⟩
      refine ⟨_, _, ?_, found, fun _ compound => (compound.smartInsert _).smartInsert _⟩
      simp only [Classes.call, connected, found1, Option.bind_some, found2, Option.map_some]
  | quickUnion t1 t2 =>
      rcases sound.unite t1 t2 with ⟨classes', united, sound'⟩
      exact ⟨classes', _, united, sound', fun direct => absurd rfl (direct t1 t2)⟩
  | unify t1 t2 =>
      rcases unify_sound sound t1 t2 with ⟨classes', uf', unified, sound', compound⟩
      exact ⟨classes', uf', unified, sound', fun _ => compound⟩

theorem calls_sound (content : Pointer → T) (methods : TermMethods T)
    (calls : List (Call Pointer)) :
    ∀ {classes : Classes Pointer} {uf : TermUnionFind T}, Sound content classes uf →
      ∃ classes' uf', calls.foldlM (Classes.call content methods) classes = some classes' ∧
        Sound content classes' uf' ∧
        ((∀ call ∈ calls, ∀ t1 t2, call ≠ .quickUnion t1 t2) →
          CompoundRoots methods uf → CompoundRoots methods uf') := by
  induction calls with
  | nil => exact fun sound => ⟨_, _, rfl, sound, fun _ => id⟩
  | cons call calls induction =>
      intro classes uf sound
      rcases call_sound sound call with ⟨middle, ufMiddle, called, soundMiddle, first⟩
      rcases induction soundMiddle with ⟨last, ufLast, ran, soundLast, rest⟩
      refine ⟨last, ufLast, ?_, soundLast, fun direct compound => ?_⟩
      · rw [List.foldlM_cons, called]
        exact ran
      · exact rest (fun other member => direct other (List.mem_cons_of_mem call member))
          (first (direct call List.mem_cons_self) compound)

/-! ## The forest -/

/-- The parent edges form a forest over the terms, with one pointer to each. -/
structure IsForest (content : Pointer → T) (edges : Edges Pointer) : Prop where
  unique : ∀ {key value key' value'}, (key, value) ∈ edges.toList →
    (key', value') ∈ edges.toList → content key = content key' → key = key'
  parentStored : ∀ {key value}, (key, value) ∈ edges.toList →
    ∃ key' value', (key', value') ∈ edges.toList ∧ content key' = content value
  acyclic : ∃ depth : T → Nat, ∀ key value, (key, value) ∈ edges.toList →
    content value ≠ content key → depth (content value) < depth (content key)

theorem Represents.isForest {edges : Edges Pointer} (represents : Represents content edges uf) :
    IsForest content edges where
  unique stored stored' same := (Prod.mk.inj (represents.unique stored stored' same)).1
  parentStored {key value} stored := represents.stored_iff.mp
    (uf.parentsStored (content key, content value)
      (represents.mem_iff.mpr ⟨key, value, stored, rfl, rfl⟩))
  acyclic := by
    rcases uf.forest with ⟨depth, descends⟩
    refine ⟨depth, fun key value stored moving => ?_⟩
    have lower := descends (content key)
    rw [represents.getParent_eq stored] at lower
    exact lower moving

/-- After any calls the edges are a forest, `find` ends at a root of the class,
the classes are those that the unions generate, and while only unification
unites, a class with a compound term has a compound root. -/
theorem run_correct (content : Pointer → T) (methods : TermMethods T)
    (calls : List (Call Pointer)) :
    ∃ classes, run content methods calls = some classes ∧
      IsForest content classes.edges ∧
      (∀ term, ∃ edges root parent, find content classes.edges term = some (edges, root) ∧
        getParent content edges root = some parent ∧ content parent = content root ∧
        Relation.EqvGen (United content classes.unions) (content term) (content root)) ∧
      (∀ t1 t2, ∃ edges answer, connected content classes.edges t1 t2 = some (edges, answer) ∧
        (answer = true ↔
          Relation.EqvGen (United content classes.unions) (content t1) (content t2))) ∧
      ((∀ call ∈ calls, ∀ t1 t2, call ≠ .quickUnion t1 t2) →
        ∀ term compound : Pointer, methods.isVariable (content compound) = false →
          Relation.EqvGen (United content classes.unions) (content term) (content compound) →
          ∃ edges root, find content classes.edges term = some (edges, root) ∧
            methods.isVariable (content root) = false) := by
  rcases calls_sound content methods calls sound_empty with
    ⟨classes, uf, ran, sound, compoundRoots⟩
  refine ⟨classes, ran, sound.represents.isForest, fun term => ?_, fun t1 t2 => ?_,
    fun direct term compound isCompound linked => ?_⟩
  · rcases find_spec sound.represents term with ⟨edges, root, found, represents, isRoot⟩
    have rootStored : (uf.smartInsert (content term)).Stored (content root) := by
      rw [isRoot, ← TermUnionFind.root_smartInsert uf (content term)]
      exact TermUnionFind.stored_root (TermUnionFind.stored_smartInsert.mpr (.inl rfl))
    rcases getParent_spec represents rootStored with ⟨parent, got, isParent⟩
    refine ⟨edges, root, parent, found, got, ?_, ?_⟩
    · rw [isParent, isRoot, TermUnionFind.getParent_smartInsert, TermUnionFind.getParent_root]
    · rw [← sound.classes, isRoot, TermUnionFind.root_root]
  · rcases sound.find_find t1 t2 with ⟨edges1, r1, edges2, r2, found1, found2, _, root1, root2⟩
    refine ⟨edges2, decide (content r1 = content r2), ?_, ?_⟩
    · simp only [connected, found1, Option.bind_some, found2, Option.map_some]
    · rw [decide_eq_true_eq, root1, root2, sound.classes]
  · rcases find_spec sound.represents term with ⟨edges, root, found, _, isRoot⟩
    refine ⟨edges, root, found, ?_⟩
    have roots := compoundRoots direct fun _ compound => compound
    rw [isRoot, (sound.classes _ _).mpr linked]
    exact roots (content compound) isCompound

end

end StoredTerms

end Topc
