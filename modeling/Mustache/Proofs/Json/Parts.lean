import Mustache.Json

namespace Mustache

namespace Json

def isObject : Json → Bool
  | object _ => true
  | _ => false

inductive Step where
  | index (i : Nat)
  | name (key : Text)
deriving DecidableEq

abbrev Path := List Step

def children : Json → List (Step × Json)
  | array items => items.zipIdx.map fun (item, i) => (.index i, item)
  | object members => members.map fun (key, item) => (.name key, item)
  | null | bool _ | int _ | double _ | string _ => []

theorem mem_children_array {items : List Json} {step : Step} {item : Json} :
    (step, item) ∈ (array items).children ↔ ∃ i, step = .index i ∧ items[i]? = some item := by
  simp only [children, List.mem_map, Prod.exists, List.mem_zipIdx_iff_getElem?, Prod.mk.injEq]
  constructor
  · rintro ⟨_, i, h, rfl, rfl⟩
    exact ⟨i, rfl, h⟩
  · rintro ⟨i, rfl, h⟩
    exact ⟨item, i, h, rfl, rfl⟩

theorem sizeOf_child {j : Json} {c : Step × Json} (h : c ∈ j.children) :
    sizeOf c.2 < sizeOf j := by
  obtain ⟨step, item⟩ := c
  cases j with
  | array items =>
    obtain ⟨i, -, hi⟩ := mem_children_array.1 h
    have hlt := List.sizeOf_lt_of_mem (List.mem_of_getElem? hi)
    simp only [array.sizeOf_spec]
    omega
  | object members =>
    obtain ⟨m, hm, heq⟩ := List.mem_map.1 h
    cases heq
    have hlt := List.sizeOf_lt_of_mem hm
    have hpair : sizeOf m = 1 + sizeOf m.1 + sizeOf m.2 := rfl
    simp only [object.sizeOf_spec]
    omega
  | null | bool _ | int _ | double _ | string _ => cases h

/-- What holds of a document if it holds of all that stands directly in it holds of every
document. -/
@[elab_as_elim]
theorem children_induction {motive : Json → Prop}
    (step : ∀ j : Json, (∀ c ∈ j.children, motive c.2) → motive j) (j : Json) : motive j :=
  step j fun c _ => children_induction step c.2
termination_by sizeOf j
decreasing_by exact sizeOf_child ‹_›

inductive At : Json → Path → Json → Prop where
  | root (j : Json) : At j [] j
  | child {j item part : Json} {step : Step} {path : Path} (hmem : (step, item) ∈ j.children)
    (h : At item path part) : At j (step :: path) part

theorem at_nil_iff {j part : Json} : j.At [] part ↔ part = j := by
  constructor
  · rintro ⟨⟩
    rfl
  · rintro rfl
    exact .root part

theorem at_cons_iff {j part : Json} {step : Step} {path : Path} :
    j.At (step :: path) part ↔ ∃ item, (step, item) ∈ j.children ∧ item.At path part := by
  constructor
  · rintro ⟨⟩
    exact ⟨_, ‹_›, ‹_›⟩
  · rintro ⟨item, hmem, h⟩
    exact .child hmem h

theorem at_concat_iff {j part : Json} {path : Path} {step : Step} :
    j.At (path ++ [step]) part ↔ ∃ outer, j.At path outer ∧ (step, part) ∈ outer.children := by
  induction path generalizing j with
  | nil => simp [at_cons_iff, at_nil_iff]
  | cons first path ih =>
    simp only [List.cons_append, at_cons_iff, ih]
    constructor
    · rintro ⟨item, hitem, outer, houter, hpart⟩
      exact ⟨outer, ⟨item, hitem, houter⟩, hpart⟩
    · rintro ⟨outer, ⟨item, hitem, houter⟩, hpart⟩
      exact ⟨item, hitem, outer, houter, hpart⟩

def Step.Before : Step → Step → Prop
  | .index i, .index k => i < k
  | .name key, .name other => key.compare other = .lt
  | _, _ => False

/-- The order in which parts are gone through: one part comes before those in it, and all that is in
one of two children before all that is in the other. -/
def Path.Before : Path → Path → Prop := List.Lex Step.Before

/-- What a JSON text can mean: the members of an object are in the order of their names, each name
once, doubles are finite, and integers have 64 bits. -/
inductive IsDocument : Json → Prop where
  | null : IsDocument .null
  | bool (b : Bool) : IsDocument (.bool b)
  | int {n : Int} (hlow : -(Nat.pow 2 63 : Int) ≤ n) (hhigh : n < Nat.pow 2 64) :
    IsDocument (.int n)
  | double {x : Binary64} (hfinite : x.isFinite = true) : IsDocument (.double x)
  | string (t : Text) : IsDocument (.string t)
  | array {items : List Json} (hitems : ∀ item ∈ items, IsDocument item) : IsDocument (.array items)
  | object {members : Entries Json} (hsorted : members.IsSorted)
    (hmembers : ∀ m ∈ members, IsDocument m.2) : IsDocument (.object members)

theorem isDocument_of_ofNumeral? {n : Numeral} {j : Json} (h : ofNumeral? n = some j) :
    j.IsDocument := by
  rw [ofNumeral?] at h
  split at h
  next hpositive =>
    cases h
    exact .int (by omega) (Int.ofNat_lt.2 hpositive.2.2)
  next =>
    split at h
    next hnegative =>
      cases h
      exact .int (Int.neg_le_neg (Int.ofNat_le.2 hnegative.2.2.2)) (by omega)
    next =>
      dsimp only at h
      split at h
      next hfinite =>
        cases h
        exact .double hfinite
      next => cases h

mutual

theorem isDocument_of_ofTree? : {depth : Nat} → (t : Tree) → {j : Json} →
    ofTree? depth t = some j → j.IsDocument
  | _, .null, _, h => by cases h; exact .null
  | _, .bool b, _, h => by cases h; exact .bool b
  | _, .number n, _, h => isDocument_of_ofNumeral? h
  | _, .string t, _, h => by
    obtain ⟨text, -, rfl⟩ := Option.map_eq_some_iff.1 h
    exact .string text
  | 0, .array items, _, h | 0, .object members, _, h => nomatch h
  | depth + 1, .array items, _, h => by
    obtain ⟨read, hread, rfl⟩ := Option.map_eq_some_iff.1 h
    exact .array (isDocument_of_ofItems? items hread)
  | depth + 1, .object members, _, h => by
    obtain ⟨read, hread, rfl⟩ := Option.map_eq_some_iff.1 h
    refine .object (Entries.isSorted_ofList read) fun m hm => ?_
    exact isDocument_of_ofMembers? members hread m (Entries.mem_of_mem_ofList hm)

theorem isDocument_of_ofItems? : {depth : Nat} → (ts : List Tree) → {items : List Json} →
    ofItems? depth ts = some items → ∀ item ∈ items, item.IsDocument
  | _, [], _, h => by cases h; exact nofun
  | _, t :: ts, _, h => by
    obtain ⟨item, hitem, h⟩ := Option.bind_eq_some_iff.1 h
    obtain ⟨items, hitems, h⟩ := Option.bind_eq_some_iff.1 h
    cases h
    exact List.forall_mem_cons.2 ⟨isDocument_of_ofTree? t hitem, isDocument_of_ofItems? ts hitems⟩

theorem isDocument_of_ofMembers? : {depth : Nat} → (ts : List (Option Text × Tree)) →
    {members : List (Text × Json)} → ofMembers? depth ts = some members →
    ∀ m ∈ members, m.2.IsDocument
  | _, [], _, h => by cases h; exact nofun
  | _, (name, t) :: ts, _, h => by
    obtain ⟨name, -, h⟩ := Option.bind_eq_some_iff.1 h
    obtain ⟨item, hitem, h⟩ := Option.bind_eq_some_iff.1 h
    obtain ⟨members, hmembers, h⟩ := Option.bind_eq_some_iff.1 h
    cases h
    exact List.forall_mem_cons.2
      ⟨isDocument_of_ofTree? t hitem, isDocument_of_ofMembers? ts hmembers⟩

end

theorem IsDocument.child {j : Json} (h : j.IsDocument) {c : Step × Json} (hc : c ∈ j.children) :
    c.2.IsDocument := by
  obtain ⟨step, item⟩ := c
  cases h with
  | array hitems =>
    obtain ⟨i, -, hi⟩ := mem_children_array.1 hc
    exact hitems item (List.mem_of_getElem? hi)
  | object hsorted hmembers =>
    obtain ⟨m, hm, heq⟩ := List.mem_map.1 hc
    cases heq
    exact hmembers m hm
  | null | bool _ | int _ _ | double _ | string _ => cases hc

theorem IsDocument.pairwise_children {j : Json} (h : j.IsDocument) :
    j.children.Pairwise fun c d => c.1.Before d.1 := by
  cases h with
  | @array items hitems =>
    have hindices : (items.zipIdx.map Prod.snd).Pairwise (· < ·) := by
      rw [List.zipIdx_map_snd]
      exact List.pairwise_lt_range'
    rw [List.pairwise_map] at hindices
    exact List.pairwise_map.2 hindices
  | object hsorted hmembers =>
    rw [Entries.IsSorted, Entries.keys, List.pairwise_map] at hsorted
    exact List.pairwise_map.2 hsorted
  | null | bool _ | int _ _ | double _ | string _ => exact List.Pairwise.nil

end Json

end Mustache
