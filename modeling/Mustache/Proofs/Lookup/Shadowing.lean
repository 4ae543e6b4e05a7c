import Mustache.Proofs.Lookup.History

namespace Mustache

namespace Text

theorem splitKey?_eq_some_iff {key head rest : Text} :
    splitKey? key = some (head, rest) ↔ key = head ++ '.' :: rest ∧ '.' ∉ head ∧ head ≠ [] := by
  constructor
  · exact of_splitKey?
  · rintro ⟨rfl, hdot, hne⟩
    exact splitKey?_append_cons hdot hne

end Text

namespace Mapping

/-- Whether a mapping answers for a key, be it with a value or with an object where the path that
the key describes begins. -/
def answersFor (key : Text) (values : Mapping) : Bool :=
  (values.resolve key).2.isSome ||
    match Text.splitKey? key with
    | none => false
    | some (head, _) => ((values.get? head).bind Value.object?).isSome

theorem isSome_object?_iff {found : Option Value} :
    (found.bind Value.object?).isSome = true ↔ ∃ entries, found = some (.object entries) := by
  cases found with
  | none => simp
  | some v => cases v <;> simp [Value.object?]

theorem answersFor_iff {key : Text} {values : Mapping} :
    values.answersFor key = true ↔ (values.resolve key).2 ≠ none ∨
      ∃ head rest entries, key = head ++ '.' :: rest ∧ '.' ∉ head ∧ head ≠ [] ∧
        values.get? head = some (.object entries) := by
  have hhead (head rest : Text) (entries : Mapping) :
      (key = head ++ '.' :: rest ∧ '.' ∉ head ∧ head ≠ [] ∧
        values.get? head = some (.object entries)) ↔
      Text.splitKey? key = some (head, rest) ∧ values.get? head = some (.object entries) := by
    rw [Text.splitKey?_eq_some_iff]
    simp only [and_assoc]
  simp only [hhead]
  unfold answersFor
  rw [Bool.or_eq_true, Option.isSome_iff_ne_none]
  cases Text.splitKey? key with
  | none => simp
  | some p =>
    obtain ⟨head, rest⟩ := p
    simp [isSome_object?_iff]

/-- The first name that a look-up enters is the part of the key before its first dot; if that is
no object, the look-up enters nothing. -/
theorem mem_resolve_iff {key head rest : Text} {values : Mapping}
    (hsplit : Text.splitKey? key.trim = some (head, rest)) :
    head ∈ (values.resolve key).1 ↔ ∃ entries, values.get? head = some (.object entries) := by
  constructor
  · intro hmem
    obtain ⟨name, names, hnames⟩ := List.exists_cons_of_ne_nil (List.ne_nil_of_mem hmem)
    obtain ⟨rest', entries, hsplit', hget⟩ := of_resolve_cons hnames
    rw [hsplit, Option.some.injEq, Prod.mk.injEq] at hsplit'
    rw [hsplit'.1]
    exact ⟨entries, hget⟩
  · rintro ⟨entries, hget⟩
    rw [resolve_of_object hsplit hget]
    exact List.mem_cons_self

end Mapping

/-- What a look-up in a new scope claims is read off the values: the names that it leaves with the
scope, those of inner objects included, make no difference to the key itself. -/
theorem Scope.passes_ofValues {key : Text} (htrim : key.trim = key) (values : Mapping) :
    (Scope.ofValues values).passes key = !values.answersFor key := by
  have hclaims : ((ofValues values).lookup key).2.claims key = true ↔
      ∃ head rest entries, Text.splitKey? key = some (head, rest) ∧
        values.get? head = some (.object entries) := by
    rw [claims_iff]
    constructor
    · rintro ⟨head, rest, hsplit, hmem⟩
      have hentered := (mem_claimed_lookup.1 hmem).resolve_left List.not_mem_nil
      obtain ⟨entries, hget⟩ := (Mapping.mem_resolve_iff (htrim.symm ▸ hsplit)).1 hentered
      exact ⟨head, rest, entries, hsplit, hget⟩
    · rintro ⟨head, rest, entries, hsplit, hget⟩
      refine ⟨head, rest, hsplit, mem_claimed_lookup.2 (Or.inr ?_)⟩
      exact (Mapping.mem_resolve_iff (htrim.symm ▸ hsplit)).2 ⟨entries, hget⟩
  have hanswers : values.answersFor key = true ↔ ((ofValues values).lookup key).1 ≠ none ∨
      ((ofValues values).lookup key).2.claims key = true := by
    rw [Mapping.answersFor_iff, hclaims]
    simp only [Text.splitKey?_eq_some_iff, and_assoc]
    rfl
  rw [Bool.eq_iff_iff, passes, Bool.and_eq_true, Option.isNone_iff_eq_none, Bool.not_eq_true',
    Bool.not_eq_true', ← Bool.not_eq_true, ← Bool.not_eq_true, hanswers, not_or, not_not]

namespace Context

/-- A scope with an object where the path of a key begins answers even where it finds nothing. -/
theorem lookup_fresh_eq_find (chain : List Mapping) (key : Text) (htrim : key.trim = key) :
    (lookup key (fresh chain)).1 =
      (chain.find? (Mapping.answersFor key)).bind fun values => (values.resolve key).2 := by
  induction chain with
  | nil => rfl
  | cons values chain ih =>
    have hpasses := Scope.passes_ofValues htrim values
    rw [fresh, List.map_cons, ← fresh]
    cases hanswers : values.answersFor key with
    | true =>
      rw [hanswers] at hpasses
      rw [lookup_cons_of_not_passes hpasses, List.find?_cons_of_pos hanswers]
      rfl
    | false =>
      rw [hanswers] at hpasses
      rw [lookup_cons_of_passes hpasses, ih, List.find?_cons_of_neg (by simp [hanswers])]

/-- The outer scope has the whole path, the inner one has an object where it begins. -/
theorem lookup_shadowed :
    Text.trim ['a', '.', 'b', '.', 'c'] = ['a', '.', 'b', '.', 'c'] ∧
    (lookup ['a', '.', 'b', '.', 'c'] (fresh
      [[(['x'], .null)], [(['a'], .object [(['b'], .null)])],
        [(['a'], .object [(['b'], .object [(['c'], .bool true)])])]])).1 = none := by
  have htrim : Text.trim ['a', '.', 'b', '.', 'c'] = ['a', '.', 'b', '.', 'c'] := by decide
  refine ⟨htrim, ?_⟩
  rw [lookup_fresh_eq_find _ _ htrim, ← Option.not_isSome_iff_eq_none]
  decide +kernel

end Context

end Mustache
