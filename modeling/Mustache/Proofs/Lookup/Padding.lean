import Mustache.Proofs.Lookup.Shadowing

namespace Mustache

namespace Scope

theorem passes_ofValues_iff {key : Text} {values : Mapping} :
    (ofValues values).passes key = true ↔ (values.resolve key).2 = none ∧
      ∀ head, (∃ rest, Text.splitKey? key = some (head, rest)) →
        head ∉ (values.resolve key).1 := by
  have hclaims : ((ofValues values).lookup key).2.claims key = true ↔
      ∃ head, (∃ rest, Text.splitKey? key = some (head, rest)) ∧
        head ∈ (values.resolve key).1 := by
    simp only [claims_iff, mem_claimed_lookup, ofValues, List.not_mem_nil, false_or,
      exists_and_right]
  rw [passes, Bool.and_eq_true, Option.isNone_iff_eq_none, Bool.not_eq_true', ← Bool.not_eq_true,
    hclaims, not_exists]
  simp only [not_and]
  rfl

theorem passes_append_blanks {q : Text} (hq : ∀ c ∈ q, Text.isBlank c = true) (key : Text)
    (values : Mapping) : (ofValues values).passes (key ++ q) = (ofValues values).passes key := by
  have htrim : (key ++ q).trim = key.trim := Text.trim_append_blanks (p := []) nofun hq key
  have hdot : '.' ∉ q := fun hmem => Bool.false_ne_true (Text.isBlank_dot.symm.trans (hq '.' hmem))
  have hheads (name : Text) : (∃ rest, Text.splitKey? (key ++ q) = some (name, rest)) ↔
      ∃ rest, Text.splitKey? key = some (name, rest) := by
    rw [Text.splitKey?_append hdot]
    simp [Option.map_eq_some_iff]
  rw [Bool.eq_iff_iff, passes_ofValues_iff, passes_ofValues_iff,
    Mapping.resolve_congr_trim htrim]
  simp only [hheads]

/-- A key that begins with a blank passes each new scope that has no value for it. -/
theorem passes_of_blank {c : Char} (hc : Text.isBlank c = true) (key : Text) (values : Mapping) :
    (ofValues values).passes (c :: key) = true ↔ (values.resolve (c :: key)).2 = none := by
  rw [passes_ofValues_iff, and_iff_left_iff_imp]
  rintro - head ⟨rest, hsplit⟩ hmem
  obtain ⟨hkey, -, hne⟩ := Text.of_splitKey? hsplit
  obtain ⟨d, t, rfl⟩ := List.exists_cons_of_ne_nil hne
  obtain ⟨rfl, -⟩ := List.cons.inj hkey
  exact Bool.false_ne_true ((Mapping.isBlank_of_mem_resolve hmem).symm.trans hc)

/-- A key that does not begin with a blank does not pass a new scope that has an object where the
path of the key begins. -/
theorem not_passes_iff {key : Text} (hkey : ∀ c ∈ key.head?, Text.isBlank c = false)
    {values : Mapping} (hnone : (values.resolve key).2 = none) :
    (ofValues values).passes key = false ↔ ∃ head rest entries, key = head ++ '.' :: rest ∧
      '.' ∉ head ∧ head ≠ [] ∧ values.get? head = some (.object entries) := by
  have hentered (head rest : Text) (hsplit : Text.splitKey? key = some (head, rest)) :
      head ∈ (values.resolve key).1 ↔ ∃ entries, values.get? head = some (.object entries) := by
    obtain ⟨rfl, -, hne⟩ := Text.of_splitKey? hsplit
    obtain ⟨c, t, rfl⟩ := List.exists_cons_of_ne_nil hne
    exact Mapping.mem_resolve_iff (Text.splitKey?_trim hsplit rfl (hkey c rfl))
  rw [← Bool.not_eq_true, passes_ofValues_iff]
  simp only [hnone, true_and, not_forall, not_not]
  constructor
  · rintro ⟨head, ⟨rest, hsplit⟩, hmem⟩
    obtain ⟨entries, hget⟩ := (hentered head rest hsplit).1 hmem
    obtain ⟨heq, hdot, hne⟩ := Text.of_splitKey? hsplit
    exact ⟨head, rest, entries, heq, hdot, hne, hget⟩
  · rintro ⟨head, rest, entries, heq, hdot, hne, hget⟩
    have hsplit := Text.splitKey?_eq_some_iff.2 ⟨heq, hdot, hne⟩
    exact ⟨head, ⟨rest, hsplit⟩, (hentered head rest hsplit).2 ⟨entries, hget⟩⟩

theorem resolve_of_passes {key : Text} {values : Mapping}
    (h : (ofValues values).passes key = true) : (values.resolve key).2 = none :=
  (passes_ofValues_iff.1 h).1

end Scope

namespace Context

theorem lookup_fresh_congr {key key' : Text} {chain : List Mapping}
    (hresolve : ∀ values : Mapping, values.resolve key = values.resolve key')
    (hpasses : ∀ values, (Scope.ofValues values).passes key = (Scope.ofValues values).passes key') :
    (lookup key (fresh chain)).1 = (lookup key' (fresh chain)).1 := by
  induction chain with
  | nil => rfl
  | cons values chain ih =>
    rw [fresh, List.map_cons, ← fresh]
    cases hpass : (Scope.ofValues values).passes key with
    | true =>
      rw [lookup_cons_of_passes hpass,
        lookup_cons_of_passes ((hpasses values).symm.trans hpass), ih]
    | false =>
      rw [lookup_cons_of_not_passes hpass,
        lookup_cons_of_not_passes ((hpasses values).symm.trans hpass)]
      exact congrArg Prod.snd (hresolve values)

variable {key : Text} {inner outer : List Mapping} {values : Mapping}

/-- The first scope that a key does not pass answers for it. -/
theorem lookup_fresh_append_cons (hinner : ∀ m ∈ inner, (Scope.ofValues m).passes key = true)
    (hkeeps : (Scope.ofValues values).passes key = false) :
    (lookup key (fresh (inner ++ values :: outer))).1 = (values.resolve key).2 := by
  rw [lookup_fresh_drop (n := inner.length) (by rwa [List.take_left]), List.drop_left, fresh,
    List.map_cons, lookup_cons_of_not_passes hkeeps]
  rfl

theorem findSome?_resolve_append (hinner : ∀ m ∈ inner, (Scope.ofValues m).passes key = true)
    (outer : List Mapping) : (inner ++ outer).findSome? (fun m => (Mapping.resolve key m).2) =
      outer.findSome? fun m => (Mapping.resolve key m).2 := by
  have hfront : inner.findSome? (fun m => (Mapping.resolve key m).2) = none :=
    List.findSome?_eq_none_iff.2 fun m hm => Scope.resolve_of_passes (hinner m hm)
  rw [List.findSome?_append, hfront, Option.none_or]

/-- In new scopes a key has the first value that one of them has for it, unless it does not pass a
scope further in, which has no value for it. -/
theorem lookup_fresh_cases (key : Text) (chain : List Mapping) :
    (lookup key (fresh chain)).1 = chain.findSome? (fun m => (m.resolve key).2) ∨
      (lookup key (fresh chain)).1 = none ∧ ∃ inner values outer, chain = inner ++ values :: outer ∧
        (∀ m ∈ inner, (Scope.ofValues m).passes key = true) ∧
        (Scope.ofValues values).passes key = false ∧ (values.resolve key).2 = none := by
  cases hfind : chain.find? (fun m => !(Scope.ofValues m).passes key) with
  | none =>
    have hall : ∀ m ∈ chain, (Scope.ofValues m).passes key = true := by
      simpa using List.find?_eq_none.1 hfind
    have hlookup : (lookup key (fresh chain)).1 = none := by
      rw [lookup_fresh_drop (n := chain.length) (by rwa [List.take_length]), List.drop_length]
      rfl
    rw [hlookup]
    left
    symm
    exact List.findSome?_eq_none_iff.2 fun m hm => Scope.resolve_of_passes (hall m hm)
  | some values =>
    obtain ⟨hkeeps, inner, outer, rfl, hinner⟩ := List.find?_eq_some_iff_append.1 hfind
    rw [Bool.not_eq_true'] at hkeeps
    have hpasses : ∀ m ∈ inner, (Scope.ofValues m).passes key = true := by simpa using hinner
    rw [lookup_fresh_append_cons hpasses hkeeps]
    cases hres : (values.resolve key).2 with
    | none => exact Or.inr ⟨rfl, inner, values, outer, rfl, hpasses, hkeeps, hres⟩
    | some v =>
      rw [findSome?_resolve_append hpasses, List.findSome?_cons, hres]
      exact Or.inl rfl

theorem lookup_of_blank {c : Char} (hc : Text.isBlank c = true) (key : Text)
    (chain : List Mapping) : (lookup (c :: key) (fresh chain)).1 =
      chain.findSome? fun m => (m.resolve (c :: key)).2 := by
  rcases lookup_fresh_cases (c :: key) chain with hfirst | ⟨-, _, values, _, -, -, hkeeps, hnone⟩
  · exact hfirst
  · cases hkeeps.symm.trans ((Scope.passes_of_blank hc key values).2 hnone)

/-- A key is trimmed where it is resolved, but not where a scope is asked whether it claims the key.
So blanks in front of a key can let it pass a scope that would keep it. -/
theorem lookup_padded_ne_iff (chain : List Mapping) (key p q : Text)
    (hp : ∀ c ∈ p, Text.isBlank c = true) (hq : ∀ c ∈ q, Text.isBlank c = true) :
    ((lookup (p ++ key ++ q) (fresh chain)).1 ≠ (lookup key (fresh chain)).1 ↔
      p ≠ [] ∧ (∀ c ∈ key.head?, Text.isBlank c = false) ∧
        ∃ inner values outer, chain = inner ++ values :: outer ∧
          (∀ m ∈ inner, (Scope.ofValues m).passes key = true) ∧
          (∃ head rest entries, key = head ++ '.' :: rest ∧ '.' ∉ head ∧ head ≠ [] ∧
            Entries.get? head values = some (.object entries)) ∧
          (Mapping.resolve key values).2 = none ∧ ∃ m ∈ outer, (Mapping.resolve key m).2 ≠ none) ∧
    ((lookup (p ++ key ++ q) (fresh chain)).1 = (lookup key (fresh chain)).1 ∨
      (lookup key (fresh chain)).1 = none ∧ (lookup (p ++ key ++ q) (fresh chain)).1 =
        chain.findSome? fun m => (m.resolve key).2) := by
  have hresolve := Mapping.resolve_congr_trim (Text.trim_append_blanks hp hq key)
  cases p with
  | nil =>
    have hsame : (lookup ([] ++ key ++ q) (fresh chain)).1 = (lookup key (fresh chain)).1 :=
      lookup_fresh_congr hresolve (Scope.passes_append_blanks hq key)
    exact ⟨⟨fun hne => absurd hsame hne, fun h => absurd rfl h.1⟩, Or.inl hsame⟩
  | cons b p =>
    have hpadded : (lookup (b :: p ++ key ++ q) (fresh chain)).1 =
        chain.findSome? fun m => (m.resolve key).2 := by
      simp only [← hresolve]
      exact lookup_of_blank (hp b List.mem_cons_self) (p ++ key ++ q) chain
    rw [hpadded]
    by_cases hkey : ∀ c ∈ key.head?, Text.isBlank c = false
    · have hcases := lookup_fresh_cases key chain
      refine ⟨⟨fun hne => ?_, ?_⟩, ?_⟩
      · rcases hcases with hfirst | ⟨hnone, inner, values, outer, rfl, hinner, hkeeps, hres⟩
        · exact absurd hfirst.symm hne
        · refine ⟨List.cons_ne_nil b p, hkey, inner, values, outer, rfl, hinner,
            (Scope.not_passes_iff hkey hres).1 hkeeps, hres, ?_⟩
          rw [hnone, findSome?_resolve_append hinner, List.findSome?_cons, hres] at hne
          simpa using mt List.findSome?_eq_none_iff.2 hne
      · rintro ⟨-, -, inner, values, outer, rfl, hinner, hobject, hres, m, hm, hfound⟩ hsame
        have hkeeps := (Scope.not_passes_iff hkey hres).2 hobject
        rw [lookup_fresh_append_cons hinner hkeeps, findSome?_resolve_append hinner,
          List.findSome?_cons, hres] at hsame
        exact hfound (List.findSome?_eq_none_iff.1 hsame m hm)
      · exact hcases.imp Eq.symm fun h => ⟨h.1, rfl⟩
    · -- Both keys begin with a blank.
      obtain ⟨c, t, rfl, hc⟩ : ∃ c t, key = c :: t ∧ Text.isBlank c = true := by
        cases key with
        | nil => exact absurd nofun hkey
        | cons c t => exact ⟨c, t, rfl, by simpa using hkey⟩
      rw [lookup_of_blank hc]
      exact ⟨⟨fun hne => absurd rfl hne, fun h => absurd h.2.1 hkey⟩, Or.inl rfl⟩

/-- Behind a scope without `b` and one in which `b` is an empty object, a third has `b.c`. -/
theorem lookup_leadingBlank :
    (∀ c ∈ [' '], Text.isBlank c = true) ∧
      (lookup [' ', 'b', '.', 'c', ' '] (fresh
        [[(['x'], .null)], [(['b'], .object [])], [(['b'], .object [(['c'], .bool true)])]])).1 ≠
      (lookup ['b', '.', 'c'] (fresh
        [[(['x'], .null)], [(['b'], .object [])],
          [(['b'], .object [(['c'], .bool true)])]])).1 := by
  have hblank : ∀ c ∈ [' '], Text.isBlank c = true := List.forall_mem_singleton.2 (by decide)
  have hhead : ∀ c ∈ ['b', '.', 'c'].head?, Text.isBlank c = false := by
    rintro _ ⟨⟩
    decide
  refine ⟨hblank, (lookup_padded_ne_iff _ ['b', '.', 'c'] [' '] [' '] hblank hblank).1.2
    ⟨List.cons_ne_nil _ _, hhead, [[(['x'], .null)]], [(['b'], .object [])],
      [[(['b'], .object [(['c'], .bool true)])]], rfl, by decide +kernel,
      ⟨['b'], ['c'], [], rfl, by decide, by decide, rfl⟩,
      Option.isNone_iff_eq_none.1 (by decide +kernel), _, List.mem_singleton_self _,
      Option.isSome_iff_ne_none.1 (by decide +kernel)⟩⟩

/-- The outer scope has `b.c`. The inner one has an object `b` without it, which keeps the key from
the outer scope, but not with a blank in front. -/
theorem lookup_blank_ne :
    (lookup [' ', 'b', '.', 'c'] (fresh
      [[(['b'], .object [])], [(['b'], .object [(['c'], .bool true)])]])).1 ≠
    (lookup ['b', '.', 'c'] (fresh
      [[(['b'], .object [])], [(['b'], .object [(['c'], .bool true)])]])).1 := by
  have hpadded : (lookup [' ', 'b', '.', 'c'] (fresh
      [[(['b'], .object [])], [(['b'], .object [(['c'], .bool true)])]])).1.isSome = true := by
    decide +kernel
  have hplain : (lookup ['b', '.', 'c'] (fresh
      [[(['b'], .object [])], [(['b'], .object [(['c'], .bool true)])]])).1.isSome = false := by
    decide +kernel
  intro h
  rw [h, hplain] at hpadded
  cases hpadded

end Context

end Mustache
