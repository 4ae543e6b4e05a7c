import Mustache.Text

namespace Mustache

abbrev Entries (α : Type u) := List (Text × α)

namespace Entries

variable {α : Type u}

def get? (key : Text) : Entries α → Option α
  | [] => none
  | (k, v) :: es => if k = key then some v else get? key es

def insert (key : Text) (value : α) : Entries α → Entries α
  | [] => [(key, value)]
  | (k, v) :: es =>
    match key.compare k with
    | .lt => (key, value) :: (k, v) :: es
    | .eq => (key, value) :: es
    | .gt => (k, v) :: insert key value es

/-- Inserts all pairs, later ones over earlier ones. -/
def ofList (pairs : List (Text × α)) : Entries α :=
  pairs.foldl (fun es (key, value) => es.insert key value) []

def keys (es : Entries α) : List Text := es.map Prod.fst

theorem get?_insert_self (key : Text) (value : α) (es : Entries α) :
    (es.insert key value).get? key = some value := by
  induction es with
  | nil => simp [insert, get?]
  | cons e es ih =>
    obtain ⟨k, v⟩ := e
    rw [insert]
    split
    · simp [get?]
    · simp [get?]
    next hgt =>
      have hne : k ≠ key := fun h => by
        rw [Text.compare_eq_iff.2 h.symm] at hgt
        cases hgt
      rw [get?, if_neg hne, ih]

theorem get?_insert_of_ne {key other : Text} (h : other ≠ key) (value : α) (es : Entries α) :
    (es.insert key value).get? other = es.get? other := by
  induction es with
  | nil => simp [insert, get?, Ne.symm h]
  | cons e es ih =>
    obtain ⟨k, v⟩ := e
    rw [insert]
    split
    · rw [get?, if_neg (Ne.symm h)]
    next heq =>
      obtain rfl := Text.compare_eq_iff.1 heq
      rw [get?, get?, if_neg (Ne.symm h), if_neg (Ne.symm h)]
    · rw [get?, get?, ih]

def IsSorted (es : Entries α) : Prop := es.keys.Pairwise fun k l => k.compare l = .lt

theorem mem_keys_iff {key : Text} {es : Entries α} : key ∈ es.keys ↔ es.get? key ≠ none := by
  induction es with
  | nil => simp [keys, get?]
  | cons e es ih =>
    obtain ⟨k, v⟩ := e
    rw [keys, List.map_cons, ← keys, List.mem_cons, ih, get?]
    by_cases hk : k = key
    · simp [hk]
    · simp [hk, Ne.symm hk]

/-- A new name is inserted between the entries that are there. -/
theorem insert_perm {key : Text} {es : Entries α} (hnew : es.get? key = none) (value : α) :
    (es.insert key value).Perm ((key, value) :: es) := by
  induction es with
  | nil => exact List.Perm.refl _
  | cons e es ih =>
    obtain ⟨k, v⟩ := e
    rw [get?] at hnew
    split at hnew
    · cases hnew
    next hne =>
      rw [insert]
      split
      · exact List.Perm.refl _
      next heq => exact absurd (Text.compare_eq_iff.1 heq).symm hne
      · exact ((ih hnew).cons (k, v)).trans (List.Perm.swap _ _ es)

theorem mem_keys_insert {key other : Text} {value : α} {es : Entries α}
    (h : other ∈ (es.insert key value).keys) : other = key ∨ other ∈ es.keys := by
  by_cases hother : other = key
  · exact Or.inl hother
  · rw [mem_keys_iff, get?_insert_of_ne hother, ← mem_keys_iff] at h
    exact Or.inr h

theorem isSorted_insert {es : Entries α} (h : es.IsSorted) (key : Text) (value : α) :
    (es.insert key value).IsSorted := by
  induction es with
  | nil => exact List.pairwise_singleton _ _
  | cons e es ih =>
    obtain ⟨k, v⟩ := e
    obtain ⟨hfirst, hrest⟩ := List.pairwise_cons.1 h
    rw [insert]
    split
    next hlt =>
      refine List.pairwise_cons.2 ⟨fun l hl => ?_, h⟩
      rcases List.mem_cons.1 hl with rfl | hl
      · exact hlt
      · exact Text.compare_lt_trans hlt (hfirst l hl)
    next heq =>
      obtain rfl := Text.compare_eq_iff.1 heq
      exact h
    next hgt =>
      refine List.pairwise_cons.2 ⟨fun l hl => ?_, ih hrest⟩
      rcases mem_keys_insert hl with rfl | hl
      · exact Text.compare_eq_lt_of_gt hgt
      · exact hfirst l hl

theorem mem_insert {key : Text} {value : α} {es : Entries α} {e : Text × α}
    (h : e ∈ es.insert key value) : e = (key, value) ∨ e ∈ es := by
  induction es with
  | nil => exact Or.inl (List.mem_singleton.1 h)
  | cons first es ih =>
    obtain ⟨k, v⟩ := first
    rw [insert] at h
    split at h
    · exact List.mem_cons.1 h
    · exact (List.mem_cons.1 h).imp_right (List.mem_cons_of_mem _)
    · rcases List.mem_cons.1 h with rfl | h
      · exact Or.inr List.mem_cons_self
      · exact (ih h).imp_right (List.mem_cons_of_mem _)

theorem isSorted_foldl_insert (pairs : List (Text × α)) {es : Entries α} (h : es.IsSorted) :
    (pairs.foldl (fun es (key, value) => es.insert key value) es).IsSorted := by
  induction pairs generalizing es with
  | nil => exact h
  | cons pair pairs ih => exact ih (isSorted_insert h pair.1 pair.2)

theorem isSorted_ofList (pairs : List (Text × α)) : (ofList pairs).IsSorted :=
  isSorted_foldl_insert pairs List.Pairwise.nil

theorem mem_foldl_insert {es : Entries α} {pairs : List (Text × α)} {e : Text × α}
    (h : e ∈ pairs.foldl (fun es (key, value) => es.insert key value) es) :
    e ∈ pairs ∨ e ∈ es := by
  induction pairs generalizing es with
  | nil => exact Or.inr h
  | cons pair pairs ih =>
    rcases ih h with hpairs | hinsert
    · exact Or.inl (List.mem_cons_of_mem pair hpairs)
    · exact (mem_insert hinsert).imp_left fun he : e = pair => he ▸ List.mem_cons_self

theorem mem_of_mem_ofList {pairs : List (Text × α)} {e : Text × α} (h : e ∈ ofList pairs) :
    e ∈ pairs :=
  (mem_foldl_insert h).resolve_right List.not_mem_nil

/-- What is inserted under a name that is there takes the place of what was there, so that a view of
the entries which does not tell the two apart does not change. -/
theorem map_insert {β : Type v} {es : Entries α} (h : es.IsSorted) {key : Text} {old new : α}
    (hold : es.get? key = some old) {view : Text × α → β}
    (hview : view (key, new) = view (key, old)) :
    (es.insert key new).map view = es.map view := by
  induction es with
  | nil => cases hold
  | cons e es ih =>
    obtain ⟨k, v⟩ := e
    obtain ⟨hfirst, hrest⟩ := List.pairwise_cons.1 h
    rw [get?] at hold
    split at hold
    next hk =>
      obtain rfl := hk
      obtain rfl := Option.some.inj hold
      rw [insert, Text.compare_eq_iff.2 rfl]
      exact congrArg (· :: es.map view) hview
    next hne =>
      -- The name stands further behind, so that it comes after the first one.
      have hmem : key ∈ keys es := mem_keys_iff.2 (hold ▸ Option.some_ne_none old)
      have hlt : k.compare key = .lt := hfirst key hmem
      have hgt : key.compare k = .gt := by
        cases hcompare : key.compare k with
        | gt => rfl
        | eq => exact absurd (Text.compare_eq_iff.1 hcompare).symm hne
        | lt =>
          have hself := Text.compare_lt_trans hlt hcompare
          rw [Text.compare_eq_iff.2 rfl] at hself
          cases hself
      rw [insert, hgt]
      exact congrArg (view (k, v) :: ·) (ih hrest hold)

end Entries

end Mustache
