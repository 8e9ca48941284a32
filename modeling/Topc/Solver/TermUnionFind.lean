import Topc.Foundation.ParentForest

/-! # Union-find over terms

Terms are looked up by structural equality. Each stored term has a parent edge,
a self-loop when it represents its class. -/

namespace Topc

namespace TermUnionFind

section

variable {T : Type*} [DecidableEq T]

/-- The stored term that equals a term. -/
def lookupEdge (edges : List (T × T)) (t : T) : Option T :=
  (edges.find? fun edge => t == edge.1).map Prod.fst

/-- The parent of a stored term. A term that is not stored yet will be its own. -/
def getParent (edges : List (T × T)) (t : T) : T :=
  ((edges.find? fun edge => t == edge.1).map Prod.snd).getD t

theorem lookupEdge_isSome {edges : List (T × T)} {t : T} :
    (lookupEdge edges t).isSome = true ↔ t ∈ edges.map Prod.fst := by
  rw [lookupEdge, Option.isSome_map, List.find?_isSome, List.mem_map]
  constructor
  · rintro ⟨edge, member, same⟩
    exact ⟨edge, member, (eq_of_beq same).symm⟩
  · rintro ⟨edge, member, rfl⟩
    exact ⟨edge, member, beq_self_eq_true _⟩

theorem getParent_of_not_stored {edges : List (T × T)} {t : T}
    (missing : t ∉ edges.map Prod.fst) : getParent edges t = t := by
  have absent : edges.find? (fun edge => t == edge.1) = none := by
    rw [List.find?_eq_none]
    intro edge member same
    exact missing (List.mem_map.mpr ⟨edge, member, (eq_of_beq same).symm⟩)
  simp [getParent, absent]

theorem stored_of_moving {edges : List (T × T)} {t : T} (moving : getParent edges t ≠ t) :
    t ∈ edges.map Prod.fst := by
  by_contra missing
  exact moving (getParent_of_not_stored missing)

theorem getParent_mem {edges : List (T × T)} {t : T} (stored : t ∈ edges.map Prod.fst) :
    ∃ edge ∈ edges, edge.1 = t ∧ edge.2 = getParent edges t := by
  rw [← lookupEdge_isSome, lookupEdge, Option.isSome_map] at stored
  rcases Option.isSome_iff_exists.mp stored with ⟨edge, found⟩
  refine ⟨edge, List.mem_of_find?_eq_some found, ?_, ?_⟩
  · have same := List.find?_some (p := fun edge : T × T => t == edge.1) found
    exact (eq_of_beq same).symm
  · simp [getParent, found]

theorem getParent_cons (edge : T × T) (edges : List (T × T)) (t : T) :
    getParent (edge :: edges) t = if t = edge.1 then edge.2 else getParent edges t := by
  by_cases same : t = edge.1
  · simp [getParent, same]
  · simp [getParent, same]

theorem getParent_filter {edges : List (T × T)} {lower t : T} (other : t ≠ lower) :
    getParent (edges.filter fun edge => edge.1 ≠ lower) t = getParent edges t := by
  induction edges with
  | nil => rfl
  | cons edge edges induction =>
      by_cases kept : edge.1 = lower
      · rw [List.filter_cons_of_neg (by simp [kept]), induction, getParent_cons, kept,
          if_neg other]
      · rw [List.filter_cons_of_pos (by simp [kept]), getParent_cons, getParent_cons, induction]

end

end TermUnionFind

/-- Parent edges that form a forest, one for each stored term. -/
structure TermUnionFind (T : Type*) [DecidableEq T] where
  edges : List (T × T)
  keysNodup : (edges.map Prod.fst).Nodup
  parentsStored : ∀ edge ∈ edges, edge.2 ∈ edges.map Prod.fst
  forest : ParentForest (TermUnionFind.getParent edges)

namespace TermUnionFind

variable {T : Type*} [DecidableEq T]

def empty : TermUnionFind T where
  edges := []
  keysNodup := List.nodup_nil
  parentsStored := nofun
  forest := ⟨fun _ => 0, fun _ moving => absurd (getParent_of_not_stored List.not_mem_nil) moving⟩

def Stored (uf : TermUnionFind T) (t : T) : Prop :=
  t ∈ uf.edges.map Prod.fst

theorem getParent_insert {edges : List (T × T)} {t : T} (missing : t ∉ edges.map Prod.fst) :
    getParent ((t, t) :: edges) = getParent edges := by
  funext other
  rw [getParent_cons]
  split
  · rename_i same
    rw [same, getParent_of_not_stored missing]
  · rfl

/-- Store a term as its own root unless an equal one is stored. -/
def smartInsert (uf : TermUnionFind T) (t : T) : TermUnionFind T :=
  if stored : t ∈ uf.edges.map Prod.fst then uf
  else {
    edges := (t, t) :: uf.edges
    keysNodup := List.nodup_cons.mpr ⟨stored, uf.keysNodup⟩
    parentsStored := by
      intro edge member
      rcases List.mem_cons.mp member with rfl | older
      · exact List.mem_cons_self
      · exact List.mem_cons_of_mem _ (uf.parentsStored edge older)
    forest := getParent_insert stored ▸ uf.forest }

theorem smartInsert_of_stored {uf : TermUnionFind T} {t : T} (stored : uf.Stored t) :
    uf.smartInsert t = uf :=
  dif_pos stored

/-- The representative of a class. -/
def root (uf : TermUnionFind T) (t : T) : T :=
  ParentForest.climb (getParent uf.edges) uf.edges.length t

/-- Store the term, then climb to its root. -/
def find (uf : TermUnionFind T) (t : T) : TermUnionFind T × T :=
  let uf := uf.smartInsert t
  (uf, uf.root t)

theorem rootMap (uf : TermUnionFind T) :
    ParentForest.RootMap (getParent uf.edges) uf.root := by
  have climbed := uf.forest.climb_rootMap (uf.edges.map Prod.fst)
    fun _ => stored_of_moving
  rwa [List.length_map] at climbed

theorem getParent_root (uf : TermUnionFind T) (t : T) :
    getParent uf.edges (uf.root t) = uf.root t := by
  have climbed := uf.forest.climb_root (uf.edges.map Prod.fst)
    (fun _ => stored_of_moving) t
  rwa [List.length_map] at climbed

@[simp] theorem root_root (uf : TermUnionFind T) (t : T) : uf.root (uf.root t) = uf.root t :=
  uf.rootMap.fixed _ (uf.getParent_root t)

@[simp] theorem getParent_smartInsert (uf : TermUnionFind T) (t : T) :
    getParent (uf.smartInsert t).edges = getParent uf.edges := by
  rw [smartInsert]
  split
  · rfl
  · rename_i missing
    exact getParent_insert missing

@[simp] theorem root_smartInsert (uf : TermUnionFind T) (t : T) :
    (uf.smartInsert t).root = uf.root := by
  have inserted := (uf.smartInsert t).rootMap
  rw [getParent_smartInsert] at inserted
  exact inserted.unique uf.forest uf.rootMap

theorem stored_smartInsert {uf : TermUnionFind T} {t other : T} :
    (uf.smartInsert t).Stored other ↔ other = t ∨ uf.Stored other := by
  rw [smartInsert]
  split
  · rename_i stored
    constructor
    · exact Or.inr
    · rintro (rfl | already)
      · exact stored
      · exact already
  · simp [Stored]

@[simp] theorem find_fst (uf : TermUnionFind T) (t : T) : (uf.find t).1 = uf.smartInsert t :=
  rfl

@[simp] theorem find_snd (uf : TermUnionFind T) (t : T) : (uf.find t).2 = uf.root t := by
  simp [find]

theorem stored_getParent {uf : TermUnionFind T} {t : T} (stored : uf.Stored t) :
    uf.Stored (getParent uf.edges t) := by
  rcases getParent_mem stored with ⟨edge, member, _, isParent⟩
  exact isParent ▸ uf.parentsStored edge member

/-- A stored term has a stored root. -/
theorem stored_root {uf : TermUnionFind T} {t : T} (stored : uf.Stored t) :
    uf.Stored (uf.root t) := by
  have upward : ∀ steps, uf.Stored ((getParent uf.edges)^[steps] t) := by
    intro steps
    induction steps with
    | zero => exact stored
    | succ steps induction =>
        rw [Function.iterate_succ_apply']
        exact stored_getParent induction
  rw [root, ParentForest.climb_eq_iterate]
  exact upward uf.edges.length

/-! ## Union -/

theorem getParent_relink (edges : List (T × T)) (lower upper : T) :
    getParent ((lower, upper) :: edges.filter fun edge => edge.1 ≠ lower) =
      Function.update (getParent edges) lower upper := by
  funext t
  rw [getParent_cons]
  by_cases same : t = lower
  · rw [if_pos same, same, Function.update_self]
  · rw [if_neg same, getParent_filter same, Function.update_of_ne same]

theorem stored_relink {edges : List (T × T)} {lower t : T} (upper : T)
    (stored : t ∈ edges.map Prod.fst) :
    t ∈ ((lower, upper) :: edges.filter fun edge => edge.1 ≠ lower).map Prod.fst := by
  rcases List.mem_map.mp stored with ⟨edge, member, rfl⟩
  by_cases same : edge.1 = lower
  · simp [same]
  · have kept : edge ∈ edges.filter fun edge => edge.1 ≠ lower :=
      List.mem_filter.mpr ⟨member, by simpa using same⟩
    exact List.mem_cons_of_mem _ (List.mem_map_of_mem kept)

/-- Replace the edge of a root by one to another root. -/
def relink (uf : TermUnionFind T) (lower upper : T) (upperStored : uf.Stored upper)
    (lowerRoot : getParent uf.edges lower = lower)
    (upperRoot : getParent uf.edges upper = upper) : TermUnionFind T where
  edges := (lower, upper) :: uf.edges.filter fun edge => edge.1 ≠ lower
  keysNodup := by
    rw [List.map_cons, List.nodup_cons]
    constructor
    · simp
    · exact uf.keysNodup.sublist (List.filter_sublist.map Prod.fst)
  parentsStored := by
    intro edge member
    rcases List.mem_cons.mp member with rfl | older
    · exact stored_relink upper upperStored
    · exact stored_relink upper (uf.parentsStored edge (List.mem_filter.mp older).1)
  forest := by
    rw [getParent_relink]
    exact uf.forest.link uf.rootMap lowerRoot upperRoot

/-- Merge two classes. The second root represents the merged class. -/
def quickUnion (uf : TermUnionFind T) (t1 t2 : T) : TermUnionFind T :=
  let uf := (uf.smartInsert t1).smartInsert t2
  uf.relink (uf.root t1) (uf.root t2)
    (stored_root (stored_smartInsert.mpr (Or.inl rfl)))
    (uf.getParent_root t1) (uf.getParent_root t2)

theorem root_quickUnion (uf : TermUnionFind T) (t1 t2 t : T) :
    (uf.quickUnion t1 t2).root t =
      if uf.root t = uf.root t1 then uf.root t2 else uf.root t := by
  have linked := uf.rootMap.link (uf.getParent_root t1) (uf.getParent_root t2)
  have built := (uf.quickUnion t1 t2).rootMap
  have parents : getParent (uf.quickUnion t1 t2).edges =
      Function.update (getParent uf.edges) (uf.root t1) (uf.root t2) := by
    rw [quickUnion, relink, getParent_relink]
    simp
  have forest := (uf.quickUnion t1 t2).forest
  rw [parents] at built forest
  exact congrFun (built.unique forest linked) t

theorem stored_quickUnion {uf : TermUnionFind T} {t1 t2 t : T}
    (stored : (uf.quickUnion t1 t2).Stored t) : t = t1 ∨ t = t2 ∨ uf.Stored t ∨ t = uf.root t1 := by
  rw [quickUnion, Stored, relink, List.map_cons, List.mem_cons] at stored
  rcases stored with isRoot | older
  · simp_all
  · have kept : ((uf.smartInsert t1).smartInsert t2).Stored t :=
      List.Sublist.subset (List.filter_sublist.map Prod.fst) older
    rw [stored_smartInsert, stored_smartInsert] at kept
    tauto

end TermUnionFind

end Topc
