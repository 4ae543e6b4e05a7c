import Mathlib.Data.Nat.Find
import Mustache.Proofs.Lookup.Root

namespace Mustache

namespace Text

/-- Whether a text may stand between the dots of a path. -/
structure IsSegment (t : Text) : Prop where
  ne_nil : t ≠ []
  no_dot : '.' ∉ t
  trim_eq : t.trim = t

instance (t : Text) : Decidable t.IsSegment :=
  decidable_of_iff (t ≠ [] ∧ '.' ∉ t ∧ t.trim = t)
    ⟨fun ⟨h₁, h₂, h₃⟩ => ⟨h₁, h₂, h₃⟩, fun ⟨h₁, h₂, h₃⟩ => ⟨h₁, h₂, h₃⟩⟩

def ofPath (segments : List Text) : Text := join ['.'] segments

theorem ofPath_cons_cons (s t : Text) (segments : List Text) :
    ofPath (s :: t :: segments) = s ++ '.' :: ofPath (t :: segments) := by
  simp [ofPath, join]

theorem trim_ofPath {segments : List Text} (h : ∀ s ∈ segments, s.IsSegment) :
    (ofPath segments).trim = ofPath segments := by
  induction segments with
  | nil => rfl
  | cons s segments ih =>
    obtain ⟨hs, hsegments⟩ := List.forall_mem_cons.1 h
    cases segments with
    | nil => exact hs.trim_eq
    | cons t segments =>
      rw [ofPath_cons_cons]
      exact trim_append_cons hs.ne_nil hs.trim_eq isBlank_dot (ih hsegments)

theorem splitKey?_ofPath {s t : Text} {segments : List Text}
    (h : ∀ u ∈ s :: t :: segments, u.IsSegment) :
    splitKey? (ofPath (s :: t :: segments)).trim = some (s, ofPath (t :: segments)) := by
  have hs := h s List.mem_cons_self
  rw [trim_ofPath h, ofPath_cons_cons]
  exact splitKey?_append_cons hs.no_dot hs.ne_nil

end Text

namespace Mapping

def objectAt? : List Text → Mapping → Option Mapping
  | [], values => some values
  | name :: names, values => ((values.get? name).bind Value.object?).bind (objectAt? names)

theorem objectAt?_cons_of_object {name : Text} {values entries : Mapping}
    (h : (values.get? name).bind Value.object? = some entries) (names : List Text) :
    values.objectAt? (name :: names) = entries.objectAt? names := by
  rw [objectAt?, h, Option.bind_some]

theorem objectAt?_cons_of_none {name : Text} {values : Mapping}
    (h : (values.get? name).bind Value.object? = none) (names : List Text) :
    values.objectAt? (name :: names) = none := by
  rw [objectAt?, h, Option.bind_none]

/-- The largest number of segments of a path, fewer than all, that lead through nested mappings. -/
def descent (segments : List Text) (values : Mapping) : Nat :=
  Nat.findGreatest (fun i => (values.objectAt? (segments.take i)).isSome = true)
    (segments.length - 1)

theorem descent_cons_of_object {s t : Text} {segments : List Text} {values entries : Mapping}
    (h : (values.get? s).bind Value.object? = some entries) :
    values.descent (s :: t :: segments) = entries.descent (t :: segments) + 1 := by
  have hstep (i : Nat) : values.objectAt? ((s :: t :: segments).take (i + 1)) =
      entries.objectAt? ((t :: segments).take i) :=
    objectAt?_cons_of_object h ((t :: segments).take i)
  obtain ⟨hle, hreached, hmost⟩ :=
    Nat.findGreatest_eq_iff.1 (Eq.refl (entries.descent (t :: segments)))
  apply Nat.findGreatest_eq_iff.2
  refine ⟨Nat.succ_le_succ hle, fun _ => ?_, fun i hlt hi => ?_⟩
  · rw [hstep]
    by_cases hzero : entries.descent (t :: segments) = 0
    · rw [hzero]
      rfl
    · exact hreached hzero
  · cases i with
    | zero => exact absurd hlt (Nat.not_lt_zero _)
    | succ i =>
      rw [hstep]
      exact hmost (Nat.lt_of_succ_lt_succ hlt) (Nat.le_of_succ_le_succ hi)

theorem descent_cons_of_none {s t : Text} {segments : List Text} {values : Mapping}
    (h : (values.get? s).bind Value.object? = none) :
    values.descent (s :: t :: segments) = 0 := by
  apply Nat.findGreatest_eq_zero_iff.2
  intro i hpos _
  cases i with
  | zero => exact absurd hpos (Nat.not_lt_zero 0)
  | succ i =>
    rw [List.take_succ_cons, objectAt?_cons_of_none h]
    exact Bool.false_ne_true

theorem descent_of_objectAt? {front : List Text} {last : Text} {values entries : Mapping}
    (h : values.objectAt? front = some entries) :
    values.descent (front ++ [last]) = front.length := by
  have hlength : (front ++ [last]).length - 1 = front.length := by simp
  rw [descent, hlength]
  apply Nat.findGreatest_eq
  rw [List.take_left, h]
  rfl

theorem resolve_ofPath {segments : List Text} (h : ∀ s ∈ segments, s.IsSegment)
    (values : Mapping) : ∃ entries,
      values.objectAt? (segments.take (values.descent segments)) = some entries ∧
      (values.resolve (.ofPath segments)).2 =
        entries.get? (.ofPath (segments.drop (values.descent segments))) := by
  -- The look-up enters an object with the first segment and goes on in it with the others.
  induction segments generalizing values with
  | nil => exact ⟨values, rfl, by rw [resolve_eq]; rfl⟩
  | cons s segments ih =>
    obtain ⟨hs, hsegments⟩ := List.forall_mem_cons.1 h
    cases segments with
    | nil => exact ⟨values, rfl, congrArg Prod.snd (resolve_of_no_dot hs.no_dot hs.trim_eq values)⟩
    | cons t segments =>
      have hsplit := Text.splitKey?_ofPath h
      cases hget : (values.get? s).bind Value.object? with
      | none =>
        refine ⟨values, ?_, ?_⟩
        · rw [descent_cons_of_none hget]
          rfl
        · rw [descent_cons_of_none hget, resolve_eq, hsplit, Text.trim_ofPath h]
          simp [hget]
      | some entries =>
        obtain ⟨reached, hreached, hfound⟩ := ih hsegments entries
        refine ⟨reached, ?_, ?_⟩
        · rw [descent_cons_of_object hget, List.take_succ_cons, objectAt?_cons_of_object hget]
          exact hreached
        · rw [descent_cons_of_object hget, resolve_eq, hsplit]
          simpa [hget] using hfound

end Mapping

namespace Context

/-- Where the objects end, what is left of a path is one name, dots included, and is not looked for
anywhere else. -/
theorem lookup_ofPath (values : Mapping) (claimed : List Text) (segments : List Text)
    (h : ∀ s ∈ segments, s.IsSegment) :
    (∃ entries, values.objectAt? (segments.take (values.descent segments)) = some entries ∧
      (lookup (.ofPath segments) [⟨values, claimed⟩]).1 =
        entries.get? (.ofPath (segments.drop (values.descent segments)))) ∧
    ∀ front last entries, segments = front ++ [last] → values.objectAt? front = some entries →
      (lookup (.ofPath segments) [⟨values, claimed⟩]).1 = entries.get? last := by
  rw [lookup_single]
  obtain ⟨entries, hreached, hfound⟩ := Mapping.resolve_ofPath h values
  refine ⟨⟨entries, hreached, hfound⟩, ?_⟩
  rintro front last inner rfl hinner
  rw [Mapping.descent_of_objectAt? hinner] at hreached hfound
  rw [List.take_left, hinner] at hreached
  obtain rfl := Option.some.inj hreached
  rw [List.drop_left] at hfound
  exact hfound

/-- The path `a.b.c` goes through the object `a`, in which `b` is none, to its literal key `b.c`,
and past the literal key `a.b.c` of the root. -/
theorem lookup_literalKey :
    (∀ s ∈ [['a'], ['b'], ['c']], Text.IsSegment s) ∧
      (lookup ['a', '.', 'b', '.', 'c'] [.ofValues
        [(['a'], .object [(['b'], .null), (['b', '.', 'c'], .bool true)]),
          (['a', '.', 'b', '.', 'c'], .bool false)]]).1 = some (.bool true) := by
  have hsegments : ∀ s ∈ [['a'], ['b'], ['c']], Text.IsSegment s := by decide
  obtain ⟨⟨entries, hreached, hfound⟩, -⟩ := lookup_ofPath
    [(['a'], .object [(['b'], .null), (['b', '.', 'c'], .bool true)]),
      (['a', '.', 'b', '.', 'c'], .bool false)] [] _ hsegments
  cases hreached
  exact ⟨hsegments, hfound⟩

end Context

end Mustache
