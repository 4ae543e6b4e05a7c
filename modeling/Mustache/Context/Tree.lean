import Mustache.Context

namespace Mustache

structure ScopeTree where
  scopes : Array Scope
  /-- The number of the outer scope of each scope. -/
  outer : Array (Option Nat)

namespace ScopeTree

def empty : ScopeTree := ⟨#[], #[]⟩

def push (tree : ScopeTree) (outer : Option Nat) (values : Mapping) : ScopeTree :=
  ⟨tree.scopes.push (.ofValues values), tree.outer.push outer⟩

def size (tree : ScopeTree) : Nat := tree.scopes.size

def outer? (tree : ScopeTree) (i : Nat) : Option Nat := (tree.outer[i]?).join

/-- The numbers of the scopes from one to the root. An outer scope is older. -/
def path (tree : ScopeTree) (i : Nat) : List Nat :=
  match tree.outer? i with
  | none => [i]
  | some o => if _h : o < i then i :: path tree o else [i]
termination_by i

def context (tree : ScopeTree) (i : Nat) : Context :=
  (tree.path i).filterMap fun j => tree.scopes[j]?

/-- The tree after something was done with the context that belongs to a scope. -/
def update (tree : ScopeTree) (i : Nat) (c : Context) : ScopeTree :=
  { tree with
    scopes := ((tree.path i).zip c).foldl (fun scopes (j, s) => scopes.setIfInBounds j s)
      tree.scopes }

def lookup (tree : ScopeTree) (i : Nat) (key : Text) : Option Value × ScopeTree :=
  let (found, c) := (tree.context i).lookup key
  (found, tree.update i c)

def values (tree : ScopeTree) : Array Mapping := tree.scopes.map Scope.values

/-- Whether each scope has an entry that says what its outer scope is. -/
def IsWhole (tree : ScopeTree) : Prop := tree.outer.size = tree.scopes.size

def IsRoot (tree : ScopeTree) (i : Nat) (values : Mapping) : Prop :=
  tree.outer[i]? = some none ∧ tree.values[i]? = some values

theorem le_of_mem_path {tree : ScopeTree} {i j : Nat} (h : j ∈ tree.path i) : j ≤ i := by
  induction i using Nat.strongRecOn with
  | ind i ih =>
    rw [path] at h
    split at h
    · exact Nat.le_of_eq (List.mem_singleton.1 h)
    next o _ =>
      split at h
      next hlt =>
        rcases List.mem_cons.1 h with rfl | hmem
        · exact Nat.le_refl j
        · exact Nat.le_trans (ih o hlt hmem) (Nat.le_of_lt hlt)
      · exact Nat.le_of_eq (List.mem_singleton.1 h)

theorem outer?_of_size_le {tree : ScopeTree} (hwhole : tree.IsWhole) {i : Nat}
    (h : tree.scopes.size ≤ i) : tree.outer? i = none := by
  rw [outer?, Array.getElem?_eq_none (hwhole ▸ h)]
  rfl

theorem path_of_outer?_none {tree : ScopeTree} {i : Nat} (h : tree.outer? i = none) :
    tree.path i = [i] := by
  rw [path, h]

theorem IsRoot.context_eq {tree : ScopeTree} {i : Nat} {values : Mapping}
    (h : tree.IsRoot i values) : ∃ claimed, tree.context i = [⟨values, claimed⟩] := by
  obtain ⟨houter, hvalues⟩ := h
  have hpath : tree.path i = [i] := path_of_outer?_none (by rw [outer?, houter]; rfl)
  rw [ScopeTree.values, Array.getElem?_map, Option.map_eq_some_iff] at hvalues
  obtain ⟨⟨_, claimed⟩, hscope, rfl⟩ := hvalues
  refine ⟨claimed, ?_⟩
  rw [context, hpath]
  simp [hscope]

theorem getElem?_values_of_mem_zip {tree : ScopeTree} {path : List Nat} {c : Context}
    (hbounds : ∀ j ∈ path, j < tree.scopes.size)
    (hc : c.map Scope.values = (path.filterMap fun j => tree.scopes[j]?).map Scope.values)
    {p : Nat × Scope} (hp : p ∈ path.zip c) : tree.values[p.1]? = some p.2.values := by
  induction path generalizing c with
  | nil => cases hp
  | cons j path ih =>
    obtain ⟨t, hj⟩ : ∃ t, tree.scopes[j]? = some t :=
      ⟨_, Array.getElem?_eq_getElem (hbounds j List.mem_cons_self)⟩
    cases c with
    | nil => cases hp
    | cons s c =>
      rw [List.filterMap_cons_some hj, List.map_cons, List.map_cons, List.cons.injEq] at hc
      rcases List.mem_cons.1 hp with rfl | htail
      · rw [values, Array.getElem?_map, hj, Option.map_some, hc.1]
      · exact ih (fun k hk => hbounds k (List.mem_cons_of_mem j hk)) hc.2 htail

theorem map_values_foldl {pairs : List (Nat × Scope)} {scopes : Array Scope}
    (h : ∀ p ∈ pairs, (scopes.map Scope.values)[p.1]? = some p.2.values) :
    (pairs.foldl (fun scopes (j, s) => scopes.setIfInBounds j s) scopes).map Scope.values =
      scopes.map Scope.values := by
  induction pairs generalizing scopes with
  | nil => rfl
  | cons p pairs ih =>
    have hset : (scopes.setIfInBounds p.1 p.2).map Scope.values = scopes.map Scope.values := by
      apply Array.ext_getElem?
      intro k
      rw [Array.map_setIfInBounds, Array.getElem?_setIfInBounds]
      split
      next hk =>
        rw [← hk, h p List.mem_cons_self]
        split
        · rfl
        next hsize =>
          have hnone := Array.getElem?_eq_none (Nat.not_lt.1 hsize)
          rw [h p List.mem_cons_self] at hnone
          cases hnone
      · rfl
    rw [List.foldl_cons, ih, hset]
    rw [hset]
    exact fun q hq => h q (List.mem_cons_of_mem p hq)

theorem values_update {tree : ScopeTree} (hwhole : tree.IsWhole) {i : Nat} {c : Context}
    (hc : c.map Scope.values = (tree.context i).map Scope.values) :
    (tree.update i c).values = tree.values := by
  apply map_values_foldl
  intro p hp
  by_cases hi : i < tree.scopes.size
  · exact getElem?_values_of_mem_zip
      (fun j hj => Nat.lt_of_le_of_lt (le_of_mem_path hj) hi) hc hp
  · -- A scope that is not there has no context.
    have hsize := Nat.not_lt.1 hi
    have hpath := path_of_outer?_none (outer?_of_size_le hwhole hsize)
    rw [context, hpath, List.filterMap_cons_none (Array.getElem?_eq_none hsize)] at hc
    rw [List.map_eq_nil_iff.1 hc, List.zip_nil_right] at hp
    cases hp

theorem IsWhole.update {tree : ScopeTree} (hwhole : tree.IsWhole) {i : Nat} {c : Context}
    (hc : c.map Scope.values = (tree.context i).map Scope.values) : (tree.update i c).IsWhole := by
  have hsize := congrArg Array.size (values_update hwhole hc)
  rw [values, values, Array.size_map, Array.size_map] at hsize
  exact hwhole.trans hsize.symm

theorem IsRoot.update {tree : ScopeTree} {j : Nat} {values : Mapping} (h : tree.IsRoot j values)
    (hwhole : tree.IsWhole) {i : Nat} {c : Context}
    (hc : c.map Scope.values = (tree.context i).map Scope.values) :
    (tree.update i c).IsRoot j values :=
  ⟨h.1, values_update hwhole hc ▸ h.2⟩

theorem IsWhole.push {tree : ScopeTree} (hwhole : tree.IsWhole) (outer : Option Nat)
    (values : Mapping) : (tree.push outer values).IsWhole := by
  rw [IsWhole, ScopeTree.push, Array.size_push, Array.size_push, hwhole]

theorem IsRoot.push {tree : ScopeTree} {i : Nat} {values : Mapping} (h : tree.IsRoot i values)
    (outer : Option Nat) (others : Mapping) : (tree.push outer others).IsRoot i values := by
  obtain ⟨houter, hvalues⟩ := h
  obtain ⟨hi, -⟩ := Array.getElem?_eq_some_iff.1 houter
  obtain ⟨hj, -⟩ := Array.getElem?_eq_some_iff.1 hvalues
  constructor
  · rw [ScopeTree.push, Array.getElem?_push_lt hi, ← houter, Array.getElem?_eq_getElem hi]
  · rw [ScopeTree.values, ScopeTree.push, Array.map_push, ← ScopeTree.values,
      Array.getElem?_push_lt hj, ← hvalues, Array.getElem?_eq_getElem hj]

end ScopeTree

end Mustache
