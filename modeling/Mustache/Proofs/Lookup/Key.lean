import Mustache.Context
import Mustache.Proofs.Text.Trimming

namespace Mustache

namespace Text

theorem isBlank_dot : isBlank '.' = false := by decide

theorem splitKey?_append_cons {head rest : Text} (hdot : '.' ∉ head) (hne : head ≠ []) :
    splitKey? (head ++ '.' :: rest) = some (head, rest) := by
  have hp : ∀ c ∈ head, decide (c ≠ '.') = true := by
    intro c hc
    exact decide_eq_true (fun e => hdot (e ▸ hc))
  unfold splitKey?
  rw [List.dropWhile_append_of_pos hp, List.takeWhile_append_of_pos hp]
  simp [hne]

theorem of_splitKey? {key head rest : Text} (h : splitKey? key = some (head, rest)) :
    key = head ++ '.' :: rest ∧ '.' ∉ head ∧ head ≠ [] := by
  have hcut := List.takeWhile_append_dropWhile (p := (· ≠ '.')) (l := key)
  have hdot : '.' ∉ key.takeWhile (· ≠ '.') := by
    intro hm
    have hall := List.all_takeWhile (l := key) (p := (· ≠ '.'))
    simpa using List.all_eq_true.1 hall _ hm
  unfold splitKey? at h
  split at h
  · cases h
  next d rest' hk =>
    simp only [Option.ite_none_left_eq_some, Option.some.injEq, Prod.mk.injEq] at h
    obtain ⟨hne, rfl, rfl⟩ := h
    have hd : d = '.' := by
      have hhead := List.head?_dropWhile_not (· ≠ '.') key
      rw [hk] at hhead
      simpa using hhead
    rw [hk, hd] at hcut
    exact ⟨hcut.symm, hdot, fun e => hne (by rw [e]; rfl)⟩

theorem splitKey?_of_no_dot {key : Text} (hdot : '.' ∉ key) : splitKey? key = none := by
  rw [Option.eq_none_iff_forall_ne_some]
  rintro ⟨head, rest⟩ h
  obtain ⟨rfl, -, -⟩ := of_splitKey? h
  exact hdot (List.mem_append_right head List.mem_cons_self)

theorem head_of_splitKey? {key head rest : Text} (h : splitKey? key = some (head, rest)) :
    head = key.takeWhile (· ≠ '.') := by
  unfold splitKey? at h
  split at h
  · cases h
  · simp only [Option.ite_none_left_eq_some, Option.some.injEq, Prod.mk.injEq] at h
    exact h.2.1.symm

/-- What is added behind a key, if it has no dot, is added behind the first dot of the key. -/
theorem splitKey?_append {key more : Text} (hmore : '.' ∉ more) :
    splitKey? (key ++ more) = (splitKey? key).map fun (head, rest) => (head, rest ++ more) := by
  by_cases hdot : '.' ∈ key
  · obtain ⟨head, rest, rfl, hhead⟩ := List.eq_append_cons_of_mem hdot
    rw [List.append_assoc, List.cons_append]
    by_cases hne : head = []
    · simp [hne, splitKey?]
    · rw [splitKey?_append_cons hhead hne, splitKey?_append_cons hhead hne]
      rfl
  · have hboth : '.' ∉ key ++ more := fun h => (List.mem_append.1 h).elim hdot hmore
    rw [splitKey?_of_no_dot hdot, splitKey?_of_no_dot hboth]
    rfl

theorem splitKey?_trim {key head rest : Text} {c : Char} {t : Text}
    (h : splitKey? key = some (head, rest)) (hhead : head = c :: t) (hc : isBlank c = false) :
    splitKey? key.trim = some (head, trimEnd rest) := by
  obtain ⟨hkey, hdot, hne⟩ := of_splitKey? h
  have htrim : key.trim = head ++ '.' :: trimEnd rest := by
    rw [trim, hkey, hhead, List.cons_append, trimStart_cons hc, ← List.cons_append,
      trimEnd_append_cons isBlank_dot]
  rw [htrim]
  exact splitKey?_append_cons hdot hne

theorem isBlank_of_splitKey?_trim {key head rest : Text} {c : Char} {t : Text}
    (h : splitKey? key.trim = some (head, rest)) (hhead : head = c :: t) : isBlank c = false := by
  obtain ⟨hkey, -, -⟩ := of_splitKey? h
  have htrim : key.trim = c :: (t ++ '.' :: rest) := by rw [hkey, hhead, List.cons_append]
  exact isBlank_head_trim htrim

end Text

namespace Mapping

theorem resolve_eq (key : Text) (values : Mapping) :
    resolve key values =
      match Text.splitKey? key.trim with
      | none => ([], values.get? key.trim)
      | some (head, rest) =>
        match (values.get? head).bind Value.object? with
        | none => ([], values.get? key.trim)
        | some entries => (head :: (resolve rest entries).1, (resolve rest entries).2) := by
  rw [resolve]
  split
  next hnone => rw [hnone]
  next head rest hsome =>
    rw [hsome]
    dsimp only
    cases values.get? head with
    | none => rfl
    | some v => cases v <;> rfl

/-- Blanks around a key do not change what it finds in a mapping. -/
theorem resolve_congr_trim {key key' : Text} (h : key.trim = key'.trim) (values : Mapping) :
    values.resolve key = values.resolve key' := by
  rw [resolve_eq, resolve_eq, h]

/-- The names that a look-up enters do not begin with a blank. -/
theorem isBlank_of_mem_resolve {key t : Text} {values : Mapping} {c : Char}
    (h : c :: t ∈ (values.resolve key).1) : Text.isBlank c = false := by
  fun_induction resolve key values with
  | case1 => cases h
  | case2 key values head rest hsplit entries hget entered found hrest ih =>
    rcases List.mem_cons.1 h with hhead | hinner
    · exact Text.isBlank_of_splitKey?_trim hsplit hhead.symm
    · exact ih (by rw [hrest]; exact hinner)
  | case3 => cases h

theorem resolve_of_object {key head rest : Text} {values entries : Mapping}
    (h : Text.splitKey? key.trim = some (head, rest))
    (hget : values.get? head = some (.object entries)) :
    resolve key values = (head :: (resolve rest entries).1, (resolve rest entries).2) := by
  rw [resolve]
  split
  next hnone => simp [h] at hnone
  next head' rest' hsome =>
    obtain ⟨rfl, rfl⟩ : head = head' ∧ rest = rest' := by simpa [h] using hsome
    rw [hget]

theorem of_resolve_cons {key name : Text} {names : List Text} {values : Mapping}
    (h : (resolve key values).1 = name :: names) :
    ∃ rest entries, Text.splitKey? key.trim = some (name, rest) ∧
      values.get? name = some (.object entries) := by
  rw [resolve] at h
  split at h
  · cases h
  next head rest hsplit =>
    split at h
    next entries hget =>
      obtain ⟨rfl, -⟩ := List.cons.inj h
      exact ⟨rest, entries, hsplit, hget⟩
    · cases h

end Mapping

end Mustache
