import Mathlib.Data.List.Induction
import Mustache.Proofs.Lookup.Key

namespace Mustache

namespace Scope

/-- Whether a look-up goes on behind a scope, because the scope neither has the key nor claims
it. -/
def passes (key : Text) (s : Scope) : Bool :=
  (s.lookup key).1.isNone && !(s.lookup key).2.claims key

theorem mem_foldl_insert {name : Text} {names claimed : List Text} :
    name ∈ names.foldl (fun ns n => ns.insert n) claimed ↔ name ∈ claimed ∨ name ∈ names := by
  induction names generalizing claimed with
  | nil => simp
  | cons n ns ih =>
    rw [List.foldl_cons, ih, List.mem_insert_iff, List.mem_cons]
    tauto

theorem mem_claimed_lookup {s : Scope} {key name : Text} :
    name ∈ (s.lookup key).2.claimed ↔ name ∈ s.claimed ∨ name ∈ (s.values.resolve key).1 :=
  mem_foldl_insert

theorem claims_iff {s : Scope} {key : Text} :
    s.claims key = true ↔
      ∃ head rest, Text.splitKey? key = some (head, rest) ∧ head ∈ s.claimed := by
  unfold claims
  cases hk : Text.splitKey? key with
  | none => simp
  | some p =>
    obtain ⟨head, rest⟩ := p
    simp

theorem claims_lookup_iff {s : Scope} {key : Text} :
    (s.lookup key).2.claims key = true ↔
      s.claims key = true ∨ ((ofValues s.values).lookup key).2.claims key = true := by
  simp only [claims_iff, mem_claimed_lookup]
  constructor
  · rintro ⟨head, rest, hk, hc | hc⟩
    · exact Or.inl ⟨head, rest, hk, hc⟩
    · exact Or.inr ⟨head, rest, hk, Or.inr hc⟩
  · rintro (⟨head, rest, hk, hc⟩ | ⟨head, rest, hk, hc | hc⟩)
    · exact ⟨head, rest, hk, Or.inl hc⟩
    · cases hc
    · exact ⟨head, rest, hk, Or.inr hc⟩

/-- Earlier look-ups only matter to a scope if it claims the key because of them. -/
theorem passes_iff {s : Scope} {key : Text} :
    s.passes key = true ↔ (ofValues s.values).passes key = true ∧ s.claims key = false := by
  have hfound : (s.lookup key).1 = ((ofValues s.values).lookup key).1 := rfl
  have hclaims := @claims_lookup_iff s key
  unfold passes
  rw [hfound]
  cases h : (s.lookup key).2.claims key <;> cases h1 : s.claims key <;>
    cases h2 : ((ofValues s.values).lookup key).2.claims key <;> simp_all

end Scope

namespace Context

def fresh (chain : List Mapping) : Context := chain.map Scope.ofValues

/-- What a look-up of a key leaves that begins at the scope with a number. -/
def lookupFrom (c : Context) (query : Nat × Text) : Context :=
  c.take query.1 ++ (lookup query.2 (c.drop query.1)).2

def after (c : Context) (history : List (Nat × Text)) : Context := history.foldl lookupFrom c

theorem lookup_cons_of_passes {key : Text} {s : Scope} (h : s.passes key = true)
    (outer : Context) :
    lookup key (s :: outer) = ((lookup key outer).1, (s.lookup key).2 :: (lookup key outer).2) := by
  simp only [Scope.passes, Bool.and_eq_true, Option.isNone_iff_eq_none, Bool.not_eq_true'] at h
  simp [lookup, h.1, h.2]

theorem lookup_cons_of_not_passes {key : Text} {s : Scope} (h : s.passes key = false)
    (outer : Context) :
    lookup key (s :: outer) = ((s.lookup key).1, (s.lookup key).2 :: outer) := by
  have hstop : (s.lookup key).1.isSome = true ∨ (s.lookup key).2.claims key = true := by
    unfold Scope.passes at h
    cases hf : (s.lookup key).1 <;> simp_all
  simp only [lookup, hstop, if_true]

/-- In a single scope a look-up does not depend on what was looked up before. -/
theorem lookup_single (key : Text) (s : Scope) :
    lookup key [s] = ((s.values.resolve key).2, [(s.lookup key).2]) := by
  have hfound : (s.lookup key).1 = (s.values.resolve key).2 := rfl
  rw [lookup, ← hfound]
  dsimp only
  split
  · rfl
  next hnone =>
    -- Without an outer scope the search ends with what the scope itself does not have.
    rw [not_or, Bool.not_eq_true, Option.isSome_eq_false_iff, Option.isNone_iff_eq_none] at hnone
    rw [lookup, hnone.1]

theorem getElem?_lookup (key : Text) (scopes : Context) (n : Nat) :
    (lookup key scopes).2[n]? =
      scopes[n]?.map fun s =>
        if (scopes.take n).all (Scope.passes key) then (s.lookup key).2 else s := by
  induction scopes generalizing n with
  | nil => simp [lookup]
  | cons s outer ih =>
    cases h : s.passes key with
    | true =>
      rw [lookup_cons_of_passes h]
      cases n with
      | zero => simp
      | succ n => simp [ih, h]
    | false =>
      rw [lookup_cons_of_not_passes h]
      cases n with
      | zero => simp
      | succ n => simp [h]

theorem getElem?_lookupFrom (scopes : Context) (query : Nat × Text) (n : Nat) :
    (scopes.lookupFrom query)[n]? =
      scopes[n]?.map fun s =>
        if query.1 ≤ n ∧ ((scopes.drop query.1).take (n - query.1)).all (Scope.passes query.2) then
          (s.lookup query.2).2 else s := by
  obtain ⟨i, key⟩ := query
  induction scopes generalizing i n with
  | nil => cases i <;> simp [lookupFrom, lookup]
  | cons s outer ih =>
    cases i with
    | zero => simpa [lookupFrom] using getElem?_lookup key (s :: outer) n
    | succ i =>
      have hstep : lookupFrom (s :: outer) (i + 1, key) = s :: lookupFrom outer (i, key) := rfl
      cases n with
      | zero => simp [hstep]
      | succ n =>
        rw [hstep, List.getElem?_cons_succ, ih]
        simp

theorem after_append_singleton (c : Context) (history : List (Nat × Text)) (query : Nat × Text) :
    c.after (history ++ [query]) = (c.after history).lookupFrom query := by
  simp [after]

theorem values_getElem?_after (chain : List Mapping) (history : List (Nat × Text)) (n : Nat) :
    ((fresh chain).after history)[n]?.map Scope.values = chain[n]? := by
  induction history using List.reverseRecOn with
  | nil => simp [after, fresh, Function.comp_def, Scope.ofValues]
  | append_singleton history query ih =>
    rw [after_append_singleton, getElem?_lookupFrom, ← ih, Option.map_map]
    congr 1
    funext s
    dsimp only [Function.comp_apply]
    split <;> rfl

/-- Whether one of some look-ups was for a key and came to the scope with a number. -/
def CameTo (chain : List Mapping) (history : List (Nat × Text)) (n : Nat) (key : Text) : Prop :=
  ∃ earlier i later, history = earlier ++ (i, key) :: later ∧ i ≤ n ∧
    ((((fresh chain).after earlier).drop i).take (n - i)).all (Scope.passes key) = true

theorem cameTo_append_singleton {chain : List Mapping} {history : List (Nat × Text)}
    {query : Nat × Text} {n : Nat} {key : Text} :
    CameTo chain (history ++ [query]) n key ↔ CameTo chain history n key ∨
      query.2 = key ∧ query.1 ≤ n ∧
        ((((fresh chain).after history).drop query.1).take (n - query.1)).all
          (Scope.passes query.2) = true := by
  constructor
  · rintro ⟨earlier, i, later, hsplit, hi, hall⟩
    -- The look-up that came to the scope is the last one or one of those before.
    rcases List.eq_nil_or_concat later with rfl | ⟨later, last, rfl⟩
    · obtain ⟨rfl, hq⟩ := List.append_inj' hsplit rfl
      obtain rfl : query = (i, key) := by simpa using hq
      exact Or.inr ⟨rfl, hi, hall⟩
    · have hsplit' : history ++ [query] = (earlier ++ (i, key) :: later) ++ [last] := by
        simpa using hsplit
      obtain ⟨rfl, -⟩ := List.append_inj' hsplit' rfl
      exact Or.inl ⟨earlier, i, later, rfl, hi, hall⟩
  · rintro (⟨earlier, i, later, rfl, hi, hall⟩ | ⟨rfl, hi, hall⟩)
    · exact ⟨earlier, i, later ++ [query], by simp, hi, hall⟩
    · exact ⟨history, query.1, [], rfl, hi, hall⟩

/-- A scope has the names of the objects that were entered by the look-ups that came to it. -/
theorem mem_claimed_after {chain : List Mapping} {history : List (Nat × Text)} {n : Nat}
    {s : Scope} (hs : ((fresh chain).after history)[n]? = some s) (name : Text) :
    name ∈ s.claimed ↔ ∃ key, CameTo chain history n key ∧ name ∈ (s.values.resolve key).1 := by
  -- From the last look-up backwards: it adds its names to those that the others have left.
  induction history using List.reverseRecOn generalizing s with
  | nil =>
    have hnew : s.claimed = [] := by
      simp only [after, fresh, List.foldl_nil, List.getElem?_map, Option.map_eq_some_iff] at hs
      obtain ⟨values, -, rfl⟩ := hs
      rfl
    simp [hnew, CameTo]
  | append_singleton history query ih =>
    rw [after_append_singleton, getElem?_lookupFrom, Option.map_eq_some_iff] at hs
    obtain ⟨s', hs', rfl⟩ := hs
    have hvalues : (if query.1 ≤ n ∧ ((((fresh chain).after history).drop query.1).take
        (n - query.1)).all (Scope.passes query.2) then (s'.lookup query.2).2 else s').values =
          s'.values := by
      split <;> rfl
    simp only [hvalues, cameTo_append_singleton, or_and_right, exists_or, ← ih hs']
    split
    next hcame =>
      rw [Scope.mem_claimed_lookup]
      simp only [hcame.1, hcame.2, and_true, exists_eq_left']
    next hcame =>
      have hnone : ¬ ∃ key, (query.2 = key ∧ query.1 ≤ n ∧
          ((((fresh chain).after history).drop query.1).take (n - query.1)).all
            (Scope.passes query.2) = true) ∧ name ∈ (s'.values.resolve key).1 := by
        rintro ⟨key, ⟨-, hcame'⟩, -⟩
        exact hcame hcame'
      simp only [hnone, or_false]

/-- Scopes that pass a key on have no part in what it finds. -/
theorem lookup_fresh_drop {key : Text} {chain : List Mapping} {n : Nat}
    (h : ∀ values ∈ chain.take n, (Scope.ofValues values).passes key = true) :
    (lookup key (fresh chain)).1 = (lookup key (fresh (chain.drop n))).1 := by
  induction n generalizing chain with
  | zero => rfl
  | succ n ih =>
    cases chain with
    | nil => rfl
    | cons values chain =>
      simp only [List.take_succ_cons, List.mem_cons, forall_eq_or_imp] at h
      rw [fresh, List.map_cons, lookup_cons_of_passes h.1]
      exact ih h.2

/-- The names that scopes have make a difference where they keep a look-up from a scope that
answers it. -/
theorem lookup_ne_fresh_iff {key : Text} {scopes : Context} :
    (lookup key scopes).1 ≠ (lookup key (fresh (scopes.map Scope.values))).1 ↔
      ∃ n s, scopes[n]? = some s ∧ s.claims key = true ∧
        (∀ values ∈ (scopes.map Scope.values).take (n + 1),
          (Scope.ofValues values).passes key = true) ∧
        (lookup key (fresh ((scopes.map Scope.values).drop (n + 1)))).1 ≠ none := by
  induction scopes with
  | nil => simp [fresh]
  | cons s outer ih =>
    have hfresh : fresh ((s :: outer).map Scope.values) =
      Scope.ofValues s.values :: fresh (outer.map Scope.values) := rfl
    rw [← Nat.or_exists_add_one, hfresh]
    simp only [List.getElem?_cons_zero, List.getElem?_cons_succ, List.map_cons, List.take_succ_cons,
      List.take_zero, List.drop_succ_cons, List.drop_zero, List.mem_cons, List.not_mem_nil,
      or_false, forall_eq_or_imp, forall_eq, Option.some.injEq, exists_eq_left']
    by_cases hnew : (Scope.ofValues s.values).passes key = true
    · rw [lookup_cons_of_passes hnew]
      by_cases hclaims : s.claims key = true
      · -- The scope stops the look-up only because of its names.
        have hpasses : s.passes key = false := by
          rw [← Bool.not_eq_true, Scope.passes_iff, hclaims]
          simp
        have hfound : (s.lookup key).1 = none := by
          simp only [Scope.passes, Bool.and_eq_true, Option.isNone_iff_eq_none] at hnew
          exact hnew.1
        rw [lookup_cons_of_not_passes hpasses, hfound]
        constructor
        · intro hne
          exact Or.inl ⟨hclaims, hnew, hne.symm⟩
        · rintro (⟨-, -, hne⟩ | ⟨n, s', -, -, ⟨-, hpass⟩, hne⟩)
          · exact hne.symm
          · rw [lookup_fresh_drop hpass]
            exact hne.symm
      · have hpasses : s.passes key = true :=
          Scope.passes_iff.2 ⟨hnew, Bool.eq_false_iff.2 hclaims⟩
        rw [lookup_cons_of_passes hpasses]
        simp only [ih, hclaims, hnew, true_and, false_and, false_or, Bool.false_eq_true]
    · have hpasses : s.passes key = false := by
        rw [← Bool.not_eq_true, Scope.passes_iff]
        exact fun h => hnew h.1
      rw [lookup_cons_of_not_passes hpasses]
      constructor
      · intro hne
        rw [lookup_cons_of_not_passes (Bool.eq_false_iff.2 hnew)] at hne
        exact absurd rfl hne
      · rintro (⟨-, h, -⟩ | ⟨n, s', -, -, ⟨h, -⟩, -⟩)
        · exact absurd h hnew
        · exact absurd h hnew

/-- A look-up that is kept from the scopes further out finds nothing. -/
theorem lookup_eq_none_of_ne_fresh {key : Text} {c : Context}
    (h : (lookup key c).1 ≠ (lookup key (fresh (c.map Scope.values))).1) :
    (lookup key c).1 = none := by
  induction c with
  | nil => rfl
  | cons s outer ih =>
    cases hpasses : s.passes key with
    | true =>
      have hnew := (Scope.passes_iff.1 hpasses).1
      rw [lookup_cons_of_passes hpasses] at h ⊢
      rw [fresh, List.map_cons, List.map_cons, lookup_cons_of_passes hnew] at h
      exact ih h
    | false =>
      rw [lookup_cons_of_not_passes hpasses] at h ⊢
      cases hnew : (Scope.ofValues s.values).passes key with
      | true =>
        simp only [Scope.passes, Bool.and_eq_true, Option.isNone_iff_eq_none] at hnew
        exact hnew.1
      | false =>
        rw [fresh, List.map_cons, List.map_cons, lookup_cons_of_not_passes hnew] at h
        exact absurd rfl h

/-- A name that was entered first is that of an object of the scope itself, and a key that begins
with it does not pass the scope anyway. -/
theorem mem_tail_of_passes {values : Mapping} {key earlier head rest : Text}
    (hpass : (Scope.ofValues values).passes key = true)
    (hsplit : Text.splitKey? key = some (head, rest)) (hmem : head ∈ (values.resolve earlier).1) :
    head ∈ (values.resolve earlier).1.tail := by
  cases hnames : (values.resolve earlier).1 with
  | nil => simp [hnames] at hmem
  | cons name names =>
    rw [hnames, List.mem_cons] at hmem
    rcases hmem with rfl | hmem
    · -- Looking the key up would enter the same object again and claim the key for the scope.
      obtain ⟨rest', entries, hearlier, hget⟩ := Mapping.of_resolve_cons hnames
      obtain ⟨-, -, hne⟩ := Text.of_splitKey? hsplit
      obtain ⟨c, t, hhead⟩ := List.exists_cons_of_ne_nil hne
      have htrim := Text.splitKey?_trim hsplit hhead (Text.isBlank_of_splitKey?_trim hearlier hhead)
      have hclaims : ((Scope.ofValues values).lookup key).2.claims key = true := by
        rw [Scope.claims_iff]
        refine ⟨head, rest, hsplit, Scope.mem_claimed_lookup.2 (Or.inr ?_)⟩
        have hvalues : (Scope.ofValues values).values = values := rfl
        rw [hvalues, Mapping.resolve_of_object htrim hget]
        exact List.mem_cons_self
      simp [Scope.passes, hclaims] at hpass
    · exact hmem

/-- A look-up claims the names of all objects that it enters, those inside of others too, and a
claim keeps every key that begins with the name from the scopes further out. -/
theorem lookup_after_ne_iff (chain : List Mapping) (history : List (Nat × Text)) (key : Text) :
    ((lookup key ((fresh chain).after history)).1 ≠ (lookup key (fresh chain)).1 ↔
      ∃ n values head rest earlier, chain[n]? = some values ∧
        Text.splitKey? key = some (head, rest) ∧
        CameTo chain history n earlier ∧ head ∈ (values.resolve earlier).1.tail ∧
        (∀ inner ∈ chain.take (n + 1), (Scope.ofValues inner).passes key = true) ∧
        (lookup key (fresh (chain.drop (n + 1)))).1 ≠ none) ∧
    ((lookup key ((fresh chain).after history)).1 = (lookup key (fresh chain)).1 ∨
      (lookup key ((fresh chain).after history)).1 = none) := by
  -- Look-ups change nothing but what scopes claim, so that the statement about given claims
  -- applies.
  have hchain : ((fresh chain).after history).map Scope.values = chain := by
    apply List.ext_getElem?
    intro n
    rw [List.getElem?_map]
    exact values_getElem?_after chain history n
  have hiff := @lookup_ne_fresh_iff key ((fresh chain).after history)
  have hnone := @lookup_eq_none_of_ne_fresh key ((fresh chain).after history)
  rw [hchain] at hiff hnone
  refine ⟨hiff.trans ⟨?_, ?_⟩, or_iff_not_imp_left.2 hnone⟩
  · rintro ⟨n, s, hs, hclaims, hpass, hfound⟩
    have hvalues : chain[n]? = some s.values := by
      rw [← values_getElem?_after chain history n, hs]
      rfl
    obtain ⟨head, rest, hsplit, hmem⟩ := Scope.claims_iff.1 hclaims
    obtain ⟨earlier, hcame, hentered⟩ := (mem_claimed_after hs head).1 hmem
    have hlast : (Scope.ofValues s.values).passes key = true := by
      apply hpass
      exact List.mem_of_getElem? (i := n) (by rw [List.getElem?_take, if_pos (by omega), hvalues])
    exact ⟨n, s.values, head, rest, earlier, hvalues, hsplit, hcame,
      mem_tail_of_passes hlast hsplit hentered, hpass, hfound⟩
  · rintro ⟨n, values, head, rest, earlier, hvalues, hsplit, hcame, hentered, hpass, hfound⟩
    rw [← values_getElem?_after chain history n, Option.map_eq_some_iff] at hvalues
    obtain ⟨s, hs, rfl⟩ := hvalues
    refine ⟨n, s, hs, Scope.claims_iff.2 ⟨head, rest, hsplit, ?_⟩, hpass, hfound⟩
    exact (mem_claimed_after hs head).2 ⟨earlier, hcame, List.mem_of_mem_tail hentered⟩

/-- In the inner scope of two, `a.b.c` enters `b`, which is not one of its own names, and then
`b.c` is not looked for in the outer scope, which has it. -/
theorem lookup_after_ne_fresh :
    (lookup ['b', '.', 'c'] ((fresh
      [[(['a'], .object [(['b'], .object [])])], [(['b'], .object [(['c'], .bool true)])]]).after
        [(0, ['a', '.', 'b', '.', 'c'])])).1 ≠
    (lookup ['b', '.', 'c'] (fresh
      [[(['a'], .object [(['b'], .object [])])], [(['b'], .object [(['c'], .bool true)])]])).1 := by
  have hafter : (lookup ['b', '.', 'c'] ((fresh
      [[(['a'], .object [(['b'], .object [])])], [(['b'], .object [(['c'], .bool true)])]]).after
        [(0, ['a', '.', 'b', '.', 'c'])])).1.isSome = false := by
    decide +kernel
  have hfresh : (lookup ['b', '.', 'c'] (fresh
      [[(['a'], .object [(['b'], .object [])])],
        [(['b'], .object [(['c'], .bool true)])]])).1.isSome = true := by
    decide +kernel
  intro h
  rw [h, hfresh] at hafter
  cases hafter

end Context

end Mustache
