import Mustache.Proofs.Json.Parts
import Mustache.Value.OfJson

namespace Mustache

namespace Json

structure IsOffender (j : Json) (path : Path) (entry : Json) : Prop where
  found : j.At path entry
  inArray : ∃ i, path.getLast? = some (.index i)
  noObject : entry.isObject = false

/-- Whether all arrays of a document, at any depth, hold only objects. -/
def ListsObjects (j : Json) : Prop :=
  ∀ path items, j.At path (.array items) → ∀ item ∈ items, item.isObject = true

theorem listsObjects_iff_no_offender {j : Json} :
    j.ListsObjects ↔ ∀ path entry, ¬ j.IsOffender path entry := by
  constructor
  · rintro hlists path entry ⟨hfound, ⟨i, hlast⟩, hentry⟩
    obtain ⟨outer, rfl⟩ := List.getLast?_eq_some_iff.1 hlast
    obtain ⟨around, haround, hmem⟩ := at_concat_iff.1 hfound
    cases around with
    | array items =>
      obtain ⟨k, -, hk⟩ := mem_children_array.1 hmem
      have hobject := hlists outer items haround entry (List.mem_of_getElem? hk)
      rw [hentry] at hobject
      cases hobject
    | object members =>
      obtain ⟨m, -, heq⟩ := List.mem_map.1 hmem
      cases heq
    | null | bool _ | int _ | double _ | string _ => cases hmem
  · intro hno path items hitems item hitem
    obtain ⟨i, hi⟩ := List.mem_iff_getElem?.1 hitem
    cases hobject : item.isObject with
    | true => rfl
    | false =>
      have hchild : (.index i, item) ∈ (array items).children := mem_children_array.2 ⟨i, rfl, hi⟩
      have hfound : j.At (path ++ [.index i]) item := at_concat_iff.2 ⟨_, hitems, hchild⟩
      exact absurd ⟨hfound, ⟨i, List.getLast?_concat⟩, hobject⟩ (hno _ item)

/-- Whether an entry is the first of those with a property, in the order of the paths to them. -/
structure Path.IsFirst (P : Path → Json → Prop) (path : Path) (entry : Json) : Prop where
  holds : P path entry
  before (path' : Path) (entry' : Json) :
    P path' entry' → path' = path ∧ entry' = entry ∨ path.Before path'

inductive IsOffenderIn : Step × Json → Path → Json → Prop where
  | here {i : Nat} {item : Json} (h : item.isObject = false) :
    IsOffenderIn (.index i, item) [.index i] item
  | inner {step : Step} {item entry : Json} {path : Path} (h : item.IsOffender path entry) :
    IsOffenderIn (step, item) (step :: path) entry

theorem isOffender_iff {j : Json} {path : Path} {entry : Json} :
    j.IsOffender path entry ↔ ∃ c ∈ j.children, IsOffenderIn c path entry := by
  constructor
  · rintro ⟨hfound, ⟨i, hlast⟩, hentry⟩
    -- The step into an array is the first one, or it is taken further inside.
    match path with
    | [] => cases hlast
    | [step] =>
      obtain rfl : step = .index i := Option.some.inj hlast
      obtain ⟨item, hmem, hroot⟩ := at_cons_iff.1 hfound
      obtain rfl := at_nil_iff.1 hroot
      exact ⟨_, hmem, .here hentry⟩
    | step :: next :: rest =>
      obtain ⟨item, hmem, hinner⟩ := at_cons_iff.1 hfound
      exact ⟨_, hmem, .inner ⟨hinner, ⟨i, hlast⟩, hentry⟩⟩
  · rintro ⟨c, hc, hin⟩
    cases hin with
    | here hentry => exact ⟨.child hc (.root entry), ⟨_, rfl⟩, hentry⟩
    | inner h =>
      obtain ⟨hfound, ⟨i, hlast⟩, hentry⟩ := h
      refine ⟨.child hc hfound, ⟨i, ?_⟩, hentry⟩
      rw [List.getLast?_cons, hlast]
      rfl

theorem IsOffenderIn.path_eq_cons {c : Step × Json} {path : Path} {entry : Json}
    (h : IsOffenderIn c path entry) : ∃ rest, path = c.1 :: rest := by
  cases h
  · exact ⟨_, rfl⟩
  · exact ⟨_, rfl⟩

theorem not_isOffender_nil {j entry : Json} : ¬ j.IsOffender [] entry := by
  rintro ⟨-, ⟨i, hlast⟩, -⟩
  cases hlast

/-- What is no object where an object has to be comes before all that it holds. -/
theorem IsOffenderIn.isFirst_here {i : Nat} {item : Json} (h : item.isObject = false) :
    Path.IsFirst (IsOffenderIn (.index i, item)) [.index i] item := by
  refine ⟨.here h, ?_⟩
  intro path' entry' hother
  cases hother with
  | here => exact Or.inl ⟨rfl, rfl⟩
  | @inner step item entry path hinner =>
    cases path with
    | nil => exact absurd hinner not_isOffender_nil
    | cons next rest => exact Or.inr (.cons .nil)

theorem IsOffenderIn.isFirst_inner {step : Step} {item : Json}
    (hobject : ∀ i, step = .index i → item.isObject = true) {path : Path} {entry : Json}
    (h : Path.IsFirst item.IsOffender path entry) :
    Path.IsFirst (IsOffenderIn (step, item)) (step :: path) entry := by
  refine ⟨.inner h.holds, ?_⟩
  intro path' entry' hother
  cases hother with
  | here hno => rw [hobject _ rfl] at hno; cases hno
  | inner hinner =>
    rcases h.before _ _ hinner with ⟨rfl, rfl⟩ | hbefore
    · exact Or.inl ⟨rfl, rfl⟩
    · exact Or.inr (.cons hbefore)

/-- The first offender in a document is the first one in the first of its children in which there is
one. -/
theorem IsDocument.isFirst_of_children {j : Json} (h : j.IsDocument) {c : Step × Json}
    {front back : List (Step × Json)} (hsplit : j.children = front ++ c :: back)
    (hfront : ∀ d ∈ front, ∀ path entry, ¬ IsOffenderIn d path entry) {path : Path} {entry : Json}
    (hfirst : Path.IsFirst (IsOffenderIn c) path entry) :
    Path.IsFirst j.IsOffender path entry := by
  refine ⟨isOffender_iff.2 ⟨c, by simp [hsplit], hfirst.holds⟩, ?_⟩
  intro path' entry' hother
  obtain ⟨d, hd, hin⟩ := isOffender_iff.1 hother
  rw [hsplit, List.mem_append, List.mem_cons] at hd
  -- Nothing is found in the children in front, and the steps to those behind come later.
  rcases hd with hd | rfl | hd
  · exact absurd hin (hfront d hd path' entry')
  · exact hfirst.before path' entry' hin
  · have hbefore : c.1.Before d.1 := by
      have hpairs := h.pairwise_children
      rw [hsplit, List.pairwise_append, List.pairwise_cons] at hpairs
      exact hpairs.2.1.1 d hd
    obtain ⟨rest, rfl⟩ := hfirst.holds.path_eq_cons
    obtain ⟨rest', rfl⟩ := hin.path_eq_cons
    exact Or.inr (.rel hbefore)

end Json

namespace Value

open Json (Step Path IsOffenderIn isOffender_iff)

def failure? {α : Type} : Except Error α → Option Error
  | .ok _ => none
  | .error e => some e

theorem failure?_eq_none_iff {α : Type} {r : Except Error α} :
    failure? r = none ↔ ∃ a, r = .ok a := by
  cases r <;> simp [failure?]

theorem failure?_eq_some_iff {α : Type} {r : Except Error α} {e : Error} :
    failure? r = some e ↔ r = .error e := by
  cases r <;> simp [failure?]

theorem failure?_map {α β : Type} (f : α → β) (r : Except Error α) :
    failure? (r.map f) = failure? r := by
  cases r <;> rfl

theorem failure?_bind {α β γ : Type} (r : Except Error α) (s : Except Error β) (f : α → β → γ) :
    failure? (do let a ← r; let b ← s; return f a b) = (failure? r).or (failure? s) := by
  cases r <;> cases s <;> rfl

def childFailure? : Step × Json → Option Error
  | (.index _, item) =>
    if item.isObject then failure? (ofJson item) else some (.unsupportedEntry item.toText)
  | (.name _, item) => failure? (ofJson item)

theorem failure?_ofMembers (members : List (Text × Json)) :
    failure? (ofMembers members) = members.findSome? fun m => failure? (ofJson m.2) := by
  induction members with
  | nil => rfl
  | cons m members ih =>
    rw [ofMembers, failure?_bind, ih, List.findSome?_cons]
    cases failure? (ofJson m.2) <;> rfl

/-- The items may be numbered from any number on. -/
theorem failure?_ofItems (items : List Json) (k : Nat) :
    failure? (ofItems items) =
      (items.zipIdx k).findSome? fun (item, i) => childFailure? (.index i, item) := by
  induction items generalizing k with
  | nil => rfl
  | cons item items ih =>
    rw [List.zipIdx_cons, List.findSome?_cons]
    dsimp only [childFailure?]
    cases item with
    | object members =>
      rw [ofItems, failure?_bind, ih (k + 1), Json.isObject, if_pos rfl, ofJson, failure?_map]
      cases failure? (ofMembers members) <;> rfl
    | null | bool _ | int _ | double _ | string _ | array _ => rfl

/-- A conversion fails as the first one of what stands directly in the document that fails. -/
theorem failure?_ofJson (j : Json) :
    failure? (ofJson j) = j.children.findSome? childFailure? := by
  cases j with
  | array items =>
    rw [ofJson, failure?_map, failure?_ofItems items 0, Json.children, List.findSome?_map]
    rfl
  | object members =>
    rw [ofJson, failure?_map, failure?_ofMembers, Json.children, List.findSome?_map]
    rfl
  | null | bool _ | int _ | double _ | string _ => rfl

/-- A child fails if and only if it has an offender, if this is so of what it holds. -/
theorem childFailure?_eq_none_iff {step : Step} {item : Json}
    (ih : failure? (ofJson item) = none ↔ ∀ path entry, ¬ item.IsOffender path entry) :
    childFailure? (step, item) = none ↔
      ∀ path entry, ¬ IsOffenderIn (step, item) path entry := by
  have hinner : (∀ path entry, ¬ IsOffenderIn (step, item) path entry) →
      failure? (ofJson item) = none := fun hno =>
    ih.2 fun path entry h => hno (step :: path) entry (.inner h)
  cases step with
  | name key =>
    refine ⟨fun hnone path entry hin => ?_, hinner⟩
    cases hin with
    | inner h => exact ih.1 hnone _ _ h
  | index i =>
    rw [childFailure?]
    cases hobject : item.isObject with
    | false => exact ⟨nofun, fun hno => absurd (.here hobject) (hno [.index i] item)⟩
    | true =>
      rw [if_pos rfl]
      refine ⟨fun hnone path entry hin => ?_, hinner⟩
      cases hin with
      | here h => rw [hobject] at h; cases h
      | inner h => exact ih.1 hnone _ _ h

theorem failure?_eq_none_iff_no_offender (j : Json) :
    failure? (ofJson j) = none ↔ ∀ path entry, ¬ j.IsOffender path entry := by
  induction j using Json.children_induction with
  | step j ih =>
    rw [failure?_ofJson, List.findSome?_eq_none_iff]
    constructor
    · intro hnone path entry hoffender
      obtain ⟨c, hc, hin⟩ := isOffender_iff.1 hoffender
      exact (childFailure?_eq_none_iff (ih c hc)).1 (hnone c hc) path entry hin
    · intro hno c hc
      refine (childFailure?_eq_none_iff (ih c hc)).2 fun path entry hin => ?_
      exact hno path entry (isOffender_iff.2 ⟨c, hc, hin⟩)

def ShowsFirst (P : Path → Json → Prop) (e : Error) : Prop :=
  ∃ path entry, Path.IsFirst P path entry ∧ e = .unsupportedEntry entry.toText

theorem childFailure?_showsFirst {step : Step} {item : Json} {e : Error}
    (ih : ∀ e, failure? (ofJson item) = some e → ShowsFirst item.IsOffender e)
    (h : childFailure? (step, item) = some e) : ShowsFirst (IsOffenderIn (step, item)) e := by
  have hinner (hobject : ∀ i, step = .index i → item.isObject = true)
      (hitem : failure? (ofJson item) = some e) : ShowsFirst (IsOffenderIn (step, item)) e := by
    obtain ⟨path, entry, hfirst, he⟩ := ih e hitem
    exact ⟨step :: path, entry, IsOffenderIn.isFirst_inner hobject hfirst, he⟩
  cases step with
  | name key => exact hinner nofun h
  | index i =>
    rw [childFailure?] at h
    cases hobject : item.isObject with
    | true =>
      rw [hobject, if_pos rfl] at h
      exact hinner (fun _ _ => hobject) h
    | false =>
      rw [hobject, if_neg nofun, Option.some.injEq] at h
      exact ⟨[.index i], item, IsOffenderIn.isFirst_here hobject, h.symm⟩

theorem failure?_showsFirst {j : Json} (hdocument : j.IsDocument) {e : Error}
    (h : failure? (ofJson j) = some e) : ShowsFirst j.IsOffender e := by
  induction j using Json.children_induction generalizing e with
  | step j ih =>
    rw [failure?_ofJson, List.findSome?_eq_some_iff] at h
    obtain ⟨front, c, back, hsplit, hc, hfront⟩ := h
    have hmem : c ∈ j.children := by simp [hsplit]
    have hfront' : ∀ d ∈ front, ∀ path entry, ¬ IsOffenderIn d path entry := fun d hd =>
      (childFailure?_eq_none_iff (failure?_eq_none_iff_no_offender d.2)).1 (hfront d hd)
    obtain ⟨path, entry, hfirst, he⟩ :=
      childFailure?_showsFirst (fun e he => ih c hmem (hdocument.child hmem) he) hc
    exact ⟨path, entry, hdocument.isFirst_of_children hsplit hfront' hfirst, he⟩

end Value

end Mustache
