import Mustache.Text

namespace Mustache.Text

theorem stripPrefix?_eq_some_iff {beginning t rest : Text} :
    stripPrefix? beginning t = some rest ↔ t = beginning ++ rest := by
  fun_induction stripPrefix? beginning t with
  | case1 t => simp
  | case2 => simp
  | case3 p ps cs ih => simpa using ih
  | case4 p ps c cs hc =>
    have hne : c ≠ p := fun h => hc h.symm
    simp [hne]

theorem stripSuffix?_eq_some_iff {ending t front : Text} :
    stripSuffix? ending t = some front ↔ t = front ++ ending := by
  rw [stripSuffix?, Option.map_eq_some_iff]
  constructor
  · rintro ⟨rest, hrest, rfl⟩
    have hreverse := congrArg List.reverse (stripPrefix?_eq_some_iff.1 hrest)
    simpa using hreverse
  · rintro rfl
    exact ⟨front.reverse, stripPrefix?_eq_some_iff.2 List.reverse_append,
      List.reverse_reverse front⟩

theorem stripSuffix?_append (front ending : Text) :
    stripSuffix? ending (front ++ ending) = some front :=
  stripSuffix?_eq_some_iff.2 rfl

theorem getD_stripPrefix?_suffix (beginning t : Text) :
    (stripPrefix? beginning t).getD t <:+ t := by
  cases h : stripPrefix? beginning t with
  | none => exact List.suffix_refl t
  | some rest =>
    rw [Option.getD_some, stripPrefix?_eq_some_iff.1 h]
    exact List.suffix_append beginning rest

theorem dropEndWhile_isPrefix (p : Char → Bool) (t : Text) : t.dropEndWhile p <+: t := by
  have h := (List.dropWhile_suffix p (l := t.reverse)).reverse
  rwa [List.reverse_reverse] at h

theorem dropEndWhile_append {p : Char → Bool} {s : Text} (h : ∀ c ∈ s, p c = true) (t : Text) :
    dropEndWhile p (t ++ s) = dropEndWhile p t := by
  have hs : ∀ c ∈ s.reverse, p c = true := fun c hc => h c (List.mem_reverse.1 hc)
  rw [dropEndWhile, List.reverse_append, List.dropWhile_append_of_pos hs]
  rfl

theorem dropEndWhile_concat_of_not {p : Char → Bool} {c : Char} (hc : p c = false) (t : Text) :
    dropEndWhile p (t ++ [c]) = t ++ [c] := by
  simp [dropEndWhile, hc]

theorem dropEndWhile_eq_self_iff {p : Char → Bool} {t : Text} :
    dropEndWhile p t = t ↔ ∀ c ∈ t.getLast?, p c = false := by
  cases hlast : t.getLast? with
  | none =>
    rw [List.getLast?_eq_none_iff.1 hlast]
    exact ⟨fun _ => nofun, fun _ => rfl⟩
  | some c =>
    obtain ⟨front, rfl⟩ := List.getLast?_eq_some_iff.1 hlast
    constructor
    · rintro hsame d ⟨⟩
      rw [← Bool.not_eq_true]
      intro hc
      have hle : (dropEndWhile p (front ++ [c])).length ≤ front.length := by
        rw [dropEndWhile_append (by simpa using hc)]
        exact (dropEndWhile_isPrefix p front).length_le
      rw [hsame, List.length_append] at hle
      exact Nat.not_succ_le_self _ hle
    · intro hc
      exact dropEndWhile_concat_of_not (hc c rfl) front

theorem dropEndWhile_dropEndWhile (p : Char → Bool) (t : Text) :
    dropEndWhile p (dropEndWhile p t) = dropEndWhile p t := by
  apply dropEndWhile_eq_self_iff.2
  intro c hc
  have hfirst := List.head?_dropWhile_not p t.reverse
  rw [dropEndWhile, List.getLast?_reverse] at hc
  rw [hc] at hfirst
  simpa using hfirst

theorem dropWhile_eq_nil {p : Char → Bool} {t : Text} (h : ∀ c ∈ t, p c = true) :
    t.dropWhile p = [] := by
  have happend : (t ++ []).dropWhile p = [] := List.dropWhile_append_of_pos h
  rwa [List.append_nil] at happend

theorem trim_eq_nil {t : Text} (h : ∀ c ∈ t, isBlank c = true) : trim t = [] := by
  have hstart : trimStart t = [] := dropWhile_eq_nil h
  rw [trim, hstart]
  rfl

theorem dropWhile_append_cons {p : Char → Bool} {c : Char} (hc : p c = false) (s t : Text) :
    (s ++ c :: t).dropWhile p = s.dropWhile p ++ c :: t := by
  induction s with
  | nil => simp [hc]
  | cons d s ih => cases hd : p d <;> simp [hd, ih]

theorem takeWhile_append_cons {p : Char → Bool} {c : Char} (hc : p c = false) (s t : Text) :
    (s ++ c :: t).takeWhile p = s.takeWhile p := by
  induction s with
  | nil => simp [hc]
  | cons d s ih => cases hd : p d <;> simp [hd, ih]

theorem trimEnd_append_cons {c : Char} (hc : isBlank c = false) (s t : Text) :
    trimEnd (s ++ c :: t) = s ++ c :: trimEnd t := by
  unfold trimEnd dropEndWhile
  rw [List.reverse_append, List.reverse_cons, List.append_assoc, List.singleton_append,
    dropWhile_append_cons hc]
  simp

theorem trimStart_cons {c : Char} (hc : isBlank c = false) (t : Text) :
    trimStart (c :: t) = c :: t := by
  simp [trimStart, hc]

theorem trimStart_cons_of_isBlank {c : Char} (hc : isBlank c = true) (t : Text) :
    trimStart (c :: t) = trimStart t := by
  simp [trimStart, hc]

theorem isBlank_head_trimStart {c : Char} {key t : Text} (h : key.trimStart = c :: t) :
    isBlank c = false := by
  have hhead := List.head?_dropWhile_not isBlank key
  rw [← trimStart, h] at hhead
  simpa using hhead

theorem trimStart_trimStart (t : Text) : t.trimStart.trimStart = t.trimStart := by
  cases h : t.trimStart with
  | nil => rfl
  | cons c u => exact trimStart_cons (isBlank_head_trimStart h) u

theorem isBlank_head_trim {c : Char} {key t : Text} (h : key.trim = c :: t) :
    isBlank c = false := by
  cases hs : trimStart key with
  | nil => simp [trim, hs, trimEnd, dropEndWhile] at h
  | cons d u =>
    have hd : isBlank d = false := isBlank_head_trimStart hs
    have ht : d :: trimEnd u = c :: t := by
      rw [← h, trim, hs]
      exact (trimEnd_append_cons hd [] u).symm
    obtain ⟨rfl, -⟩ := List.cons.inj ht
    exact hd

theorem trimEnd_trim (t : Text) : trimEnd t.trim = t.trim :=
  dropEndWhile_dropEndWhile isBlank (trimStart t)

theorem trim_trim (t : Text) : t.trim.trim = t.trim := by
  cases h : t.trim with
  | nil => rfl
  | cons c u =>
    have hstart : trimStart (c :: u) = c :: u := trimStart_cons (isBlank_head_trim h) u
    rw [trim, hstart, ← h, trimEnd_trim]

theorem trim_append_cons {s t : Text} {c : Char} (hne : s ≠ []) (hs : s.trim = s)
    (hc : isBlank c = false) (ht : t.trim = t) : (s ++ c :: t).trim = s ++ c :: t := by
  obtain ⟨d, s, rfl⟩ := List.exists_cons_of_ne_nil hne
  rw [trim, List.cons_append, trimStart_cons (isBlank_head_trim hs), ← List.cons_append,
    trimEnd_append_cons hc, ← ht, trimEnd_trim]

/-- Blanks around a text are taken away with those that it has at its ends. -/
theorem trim_append_blanks {p q : Text} (hp : ∀ c ∈ p, isBlank c = true)
    (hq : ∀ c ∈ q, isBlank c = true) (t : Text) : (p ++ t ++ q).trim = t.trim := by
  have hfront : trimStart (p ++ t ++ q) = trimStart (t ++ q) := by
    rw [List.append_assoc]
    exact List.dropWhile_append_of_pos hp
  rw [trim, hfront, trim]
  cases hrest : trimStart t with
  | nil =>
    have hblank : trimStart (t ++ q) = [] := by
      rw [trimStart, List.dropWhile_append, ← trimStart, hrest]
      exact dropWhile_eq_nil hq
    rw [hblank]
  | cons c rest =>
    have hkeep : trimStart (t ++ q) = c :: rest ++ q := by
      rw [trimStart, List.dropWhile_append, ← trimStart, hrest]
      rfl
    rw [hkeep]
    exact dropEndWhile_append hq (c :: rest)

end Mustache.Text
