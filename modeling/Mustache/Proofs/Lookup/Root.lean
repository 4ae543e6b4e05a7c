import Mustache.Proofs.Lookup.History

namespace Mustache

def Mapping.AgreeExcept (name : Text) (values values' : Mapping) : Prop :=
  ∀ other, other ≠ name → values.get? other = values'.get? other

theorem Mapping.agreeExcept_insert (values : Mapping) (name : Text) (v : Value) :
    values.AgreeExcept name (values.insert name v) :=
  fun _ hother => (Entries.get?_insert_of_ne hother v values).symm

theorem Mapping.AgreeExcept.resolve_eq {name : Text} {values values' : Mapping}
    (h : values.AgreeExcept name values') {key : Text} (hkey : key.trim ≠ name)
    (hhead : key.trim.takeWhile (· ≠ '.') = name →
      (values.get? name).bind Value.object? = (values'.get? name).bind Value.object?) :
    values.resolve key = values'.resolve key := by
  have hobject (head rest : Text) (hsplit : Text.splitKey? key.trim = some (head, rest)) :
      (values.get? head).bind Value.object? = (values'.get? head).bind Value.object? := by
    by_cases hname : head = name
    · rw [hname]
      exact hhead ((Text.head_of_splitKey? hsplit).symm.trans hname)
    · rw [h head hname]
  rw [Mapping.resolve_eq, Mapping.resolve_eq, h _ hkey]
  cases hsplit : Text.splitKey? key.trim with
  | none => rfl
  | some p =>
    dsimp only
    rw [hobject p.1 p.2 hsplit]

/-- Contexts that differ in the values of their last scopes, which are the given ones. The values of
the scopes in front of these have a property. -/
inductive Context.DifferAtRoot (inner : Mapping → Prop) (values values' : Mapping) :
    Context → Context → Prop where
  | nil : DifferAtRoot inner values values' [] []
  | root (claimed : List Text) :
    DifferAtRoot inner values values' [⟨values, claimed⟩] [⟨values', claimed⟩]
  | cons {s : Scope} {outer outer' : Context} (hs : inner s.values) :
    DifferAtRoot inner values values' outer outer' →
      DifferAtRoot inner values values' (s :: outer) (s :: outer')

namespace Context.DifferAtRoot

variable {inner : Mapping → Prop} {values values' : Mapping} {c c' : Context}

theorem tail (h : c.DifferAtRoot inner values values' c') :
    Context.DifferAtRoot inner values values' c.tail c'.tail := by
  cases h with
  | nil => exact .nil
  | root => exact .nil
  | cons hs h => exact h

theorem values_of_mem (h : c.DifferAtRoot inner values values' c') {s : Scope} (hs : s ∈ c) :
    s.values = values ∨ inner s.values := by
  induction h with
  | nil => cases hs
  | root claimed =>
    rw [List.mem_singleton.1 hs]
    exact Or.inl rfl
  | cons hinner h ih =>
    rcases List.mem_cons.1 hs with rfl | hs
    · exact Or.inr hinner
    · exact ih hs

theorem append {scopes : List Scope} (hscopes : ∀ s ∈ scopes, inner s.values)
    (h : c.DifferAtRoot inner values values' c') :
    Context.DifferAtRoot inner values values' (scopes ++ c) (scopes ++ c') := by
  induction scopes with
  | nil => exact h
  | cons s scopes ih =>
    obtain ⟨hs, hscopes⟩ := List.forall_mem_cons.1 hscopes
    exact .cons hs (ih hscopes)

theorem lookup (h : c.DifferAtRoot inner values values' c') {key : Text}
    (hkey : values.resolve key = values'.resolve key) :
    (c.lookup key).1 = (c'.lookup key).1 ∧
      (c.lookup key).2.DifferAtRoot inner values values' (c'.lookup key).2 := by
  induction h with
  | nil => exact ⟨rfl, .nil⟩
  | root claimed =>
    rw [lookup_single, lookup_single, Scope.lookup, Scope.lookup, hkey]
    exact ⟨rfl, .root _⟩
  | @cons s outer outer' hs h ih =>
    obtain ⟨hfound, hrest⟩ := ih
    cases hpass : s.passes key with
    | true =>
      rw [lookup_cons_of_passes hpass, lookup_cons_of_passes hpass]
      exact ⟨hfound, .cons hs hrest⟩
    | false =>
      rw [lookup_cons_of_not_passes hpass, lookup_cons_of_not_passes hpass]
      exact ⟨rfl, .cons hs h⟩

end Context.DifferAtRoot

namespace Value

mutual

/-- The mappings in a value, also inside of others. -/
def nested : Value → List Mapping
  | object entries => entries :: nestedEntries entries
  | list items => nestedItems items
  | null | bool _ | number _ | string _ => []

def nestedEntries : List (Text × Value) → List Mapping
  | [] => []
  | (_, v) :: es => nested v ++ nestedEntries es

def nestedItems : List (List (Text × Value)) → List Mapping
  | [] => []
  | es :: is => es :: (nestedEntries es ++ nestedItems is)

end

end Value

namespace Mapping

def nested (values : Mapping) : List Mapping := Value.nestedEntries values

structure Lacks (name : Text) (values : Mapping) : Prop where
  outer : values.get? name = none
  nested (inner : Mapping) : inner ∈ values.nested → inner.get? name = none

theorem nested_of_mem {entries : Mapping} {items : List Mapping} (h : entries ∈ items) :
    entries :: entries.nested ⊆ (Value.list items).nested := by
  induction items with
  | nil => cases h
  | cons es items ih =>
    have hitems : (Value.list (es :: items)).nested =
        (es :: Mapping.nested es) ++ (Value.list items).nested := rfl
    rw [hitems]
    rcases List.mem_cons.1 h with rfl | h
    · exact List.subset_append_left _ _
    · exact List.Subset.trans (ih h) (List.subset_append_right _ _)

theorem nested_of_get? {name : Text} {values : Mapping} {v : Value}
    (h : values.get? name = some v) : v.nested ⊆ values.nested := by
  induction values with
  | nil => cases h
  | cons e es ih =>
    obtain ⟨k, w⟩ := e
    rw [nested, Value.nestedEntries]
    rw [Entries.get?] at h
    split at h
    · cases h
      exact List.subset_append_left _ _
    · exact List.Subset.trans (ih h) (List.subset_append_right _ _)

theorem nested_of_resolve {key : Text} {values : Mapping} {v : Value}
    (h : (values.resolve key).2 = some v) : v.nested ⊆ values.nested := by
  fun_induction resolve key values with
  | case1 key values hsplit => exact nested_of_get? h
  | case2 key values head rest hsplit entries hget entered found hrest ih =>
    have hinner : v.nested ⊆ Mapping.nested entries := ih (by rw [hrest]; exact h)
    have hobject : (Value.object entries).nested = entries :: Mapping.nested entries := rfl
    have hhead : (Value.object entries).nested ⊆ Mapping.nested values := nested_of_get? hget
    rw [hobject] at hhead
    exact List.Subset.trans hinner (List.Subset.trans (List.subset_cons_self _ _) hhead)
  | case3 key values head rest hsplit hnot => exact nested_of_get? h

theorem resolve_of_no_dot {key : Text} (hdot : '.' ∉ key) (htrim : key.trim = key)
    (values : Mapping) : values.resolve key = ([], values.get? key) := by
  rw [resolve_eq, htrim, Text.splitKey?_of_no_dot hdot]

end Mapping

namespace Context

theorem exists_of_lookup {key : Text} {c : Context} {v : Value} (h : (c.lookup key).1 = some v) :
    ∃ s ∈ c, (s.values.resolve key).2 = some v := by
  induction c with
  | nil => cases h
  | cons s outer ih =>
    cases hpass : s.passes key with
    | true =>
      rw [lookup_cons_of_passes hpass] at h
      obtain ⟨s', hs', hfound⟩ := ih h
      exact ⟨s', List.mem_cons_of_mem s hs', hfound⟩
    | false =>
      rw [lookup_cons_of_not_passes hpass] at h
      exact ⟨s, List.mem_cons_self, h⟩

end Context

/-- A scope that does not bind a key without a dot passes it on. -/
theorem Scope.passes_of_no_dot {key : Text} (hdot : '.' ∉ key) (htrim : key.trim = key) {s : Scope}
    (h : s.values.get? key = none) : s.passes key = true := by
  have hclaims (s : Scope) : s.claims key = false := by
    rw [claims, Text.splitKey?_of_no_dot hdot]
  have hfound : (s.lookup key).1 = none := by
    rw [Scope.lookup, Mapping.resolve_of_no_dot hdot htrim]
    exact h
  rw [passes, hfound, hclaims]
  rfl

namespace Context.DifferAtRoot

variable {key : Text} {values values' : Mapping} {c c' : Context}

theorem nested_of_lookup (h : c.DifferAtRoot (Mapping.Lacks key) values values' c')
    (hroot : ∀ inner ∈ values.nested, inner.get? key = none) {other : Text} {v : Value}
    (hfound : (c.lookup other).1 = some v) {inner : Mapping} (hinner : inner ∈ v.nested) :
    inner.get? key = none := by
  obtain ⟨s, hs, hresolve⟩ := exists_of_lookup hfound
  have hmem : inner ∈ s.values.nested := Mapping.nested_of_resolve hresolve hinner
  rcases h.values_of_mem hs with hvalues | hlacks
  · exact hroot inner (hvalues ▸ hmem)
  · exact hlacks.nested inner hmem

/-- A name that is bound at the roots only is looked up there. -/
theorem lookup_of_no_dot (h : c.DifferAtRoot (Mapping.Lacks key) values values' c')
    (hdot : '.' ∉ key) (htrim : key.trim = key) :
    ((c.lookup key).1 = none ∧ (c'.lookup key).1 = none ∨
        (c.lookup key).1 = values.get? key ∧ (c'.lookup key).1 = values'.get? key) ∧
      (c.lookup key).2.DifferAtRoot (Mapping.Lacks key) values values' (c'.lookup key).2 := by
  induction h with
  | nil => exact ⟨Or.inl ⟨rfl, rfl⟩, .nil⟩
  | root claimed =>
    rw [lookup_single, lookup_single, Scope.lookup, Scope.lookup,
      Mapping.resolve_of_no_dot hdot htrim, Mapping.resolve_of_no_dot hdot htrim]
    exact ⟨Or.inr ⟨rfl, rfl⟩, .root claimed⟩
  | @cons s outer outer' hs h ih =>
    have hpass := Scope.passes_of_no_dot hdot htrim hs.outer
    rw [lookup_cons_of_passes hpass, lookup_cons_of_passes hpass]
    exact ⟨ih.1, .cons hs ih.2⟩

end Context.DifferAtRoot

end Mustache
