import Mustache.Text

namespace Mustache.Text

theorem prefix_of_prefix_unifyLineBreaks {p t : Text} (hp : '\n' ∉ p)
    (h : p <+: t.unifyLineBreaks) : p <+: t := by
  fun_induction unifyLineBreaks t generalizing p with
  | case1 => exact h
  | case2 t ih =>
    cases p with
    | nil => exact List.nil_prefix
    | cons c p =>
      have hc := (List.cons_prefix_cons.1 h).1
      exact absurd (hc ▸ List.mem_cons_self) hp
  | case3 d t hcrlf ih =>
    cases p with
    | nil => exact List.nil_prefix
    | cons c p =>
      obtain ⟨hc, hrest⟩ := List.cons_prefix_cons.1 h
      have hd : c = d := by
        by_cases hcr : d = '\r'
        · rw [if_pos hcr] at hc
          exact absurd (hc ▸ List.mem_cons_self) hp
        · rwa [if_neg hcr] at hc
      rw [hd]
      exact List.cons_prefix_cons.2 ⟨rfl, ih (fun hm => hp (List.mem_cons_of_mem c hm)) hrest⟩

theorem infix_of_infix_unifyLineBreaks {p t : Text} (hp : '\n' ∉ p)
    (h : p <:+: t.unifyLineBreaks) : p <:+: t := by
  fun_induction unifyLineBreaks t with
  | case1 => exact h
  | case2 t ih =>
    rcases List.infix_cons_iff.1 h with hbegins | hrest
    · have hwhole : p <+: '\r' :: '\n' :: t := by
        apply prefix_of_prefix_unifyLineBreaks hp
        rw [unifyLineBreaks]
        exact hbegins
      exact hwhole.isInfix
    · exact (ih hrest).trans (List.suffix_append ['\r', '\n'] t).isInfix
  | case3 d t hcrlf ih =>
    rcases List.infix_cons_iff.1 h with hbegins | hrest
    · have hwhole : p <+: d :: t := by
        apply prefix_of_prefix_unifyLineBreaks hp
        rw [unifyLineBreaks]
        · exact hbegins
        · exact hcrlf
      exact hwhole.isInfix
    · exact (ih hrest).trans (List.suffix_cons d t).isInfix

theorem mem_of_mem_unifyLineBreaks {c : Char} {t : Text} (hc : c ≠ '\n')
    (h : c ∈ t.unifyLineBreaks) : c ∈ t := by
  obtain ⟨front, back, hsplit⟩ := List.append_of_mem h
  have hinfix : [c] <:+: t := by
    apply infix_of_infix_unifyLineBreaks (by simpa using hc.symm)
    exact ⟨front, back, by rw [hsplit, List.append_assoc]; rfl⟩
  exact hinfix.subset List.mem_cons_self

theorem unifyLineBreaks_append {s t : Text} (h : t.head? ≠ some '\n') :
    unifyLineBreaks (s ++ t) = unifyLineBreaks s ++ unifyLineBreaks t := by
  fun_induction unifyLineBreaks s with
  | case1 => rfl
  | case2 s ih =>
    rw [List.cons_append, List.cons_append, unifyLineBreaks, ih]
    rfl
  | case3 c s hcrlf ih =>
    rw [List.cons_append, unifyLineBreaks, ih]
    · rfl
    · intro u hc hu
      cases s with
      | nil =>
        rw [List.nil_append] at hu
        rw [hu] at h
        exact h rfl
      | cons d s => exact hcrlf s hc (congrArg (· :: s) (List.cons.inj hu).1)

theorem unifyLineBreaks_cons {c : Char} (hc : c ≠ '\r') (t : Text) :
    unifyLineBreaks (c :: t) = c :: unifyLineBreaks t := by
  rw [unifyLineBreaks, if_neg hc]
  intro u hcr
  exact absurd hcr hc

/-- A text without carriage returns is left as it is, whatever follows. -/
theorem unifyLineBreaks_append_of_not_mem {s : Text} (h : '\r' ∉ s) (t : Text) :
    unifyLineBreaks (s ++ t) = s ++ unifyLineBreaks t := by
  induction s with
  | nil => rfl
  | cons c s ih =>
    have hc : c ≠ '\r' := fun e => h (e ▸ List.mem_cons_self)
    have hs : '\r' ∉ s := fun hm => h (List.mem_cons_of_mem c hm)
    rw [List.cons_append, unifyLineBreaks_cons hc, ih hs, List.cons_append]

theorem not_mem_unifyLineBreaks (t : Text) : '\r' ∉ unifyLineBreaks t := by
  fun_induction unifyLineBreaks t with
  | case1 => exact List.not_mem_nil
  | case2 t ih => simpa using ih
  | case3 c t hcrlf ih =>
    by_cases hc : c = '\r'
    · simpa [hc] using ih
    · simpa [hc, ih] using Ne.symm hc

theorem unifyLineBreaks_eq_nil_iff {t : Text} : unifyLineBreaks t = [] ↔ t = [] := by
  fun_cases unifyLineBreaks t <;> simp

theorem getLast?_unifyLineBreaks {t : Text} (h : t.getLast? = some '\n' ∨ t.getLast? = some '\r') :
    (unifyLineBreaks t).getLast? = some '\n' := by
  fun_induction unifyLineBreaks t with
  | case1 => simp at h
  | case2 t ih =>
    by_cases hne : t = []
    · subst hne
      rfl
    · have huniform : unifyLineBreaks t ≠ [] := mt unifyLineBreaks_eq_nil_iff.1 hne
      rw [List.getLast?_cons_of_ne_nil huniform]
      apply ih
      rwa [List.getLast?_cons_of_ne_nil (List.cons_ne_nil '\n' t),
        List.getLast?_cons_of_ne_nil hne] at h
  | case3 c t hcrlf ih =>
    by_cases hne : t = []
    · subst hne
      rcases h with h | h <;> cases h <;> rfl
    · have huniform : unifyLineBreaks t ≠ [] := mt unifyLineBreaks_eq_nil_iff.1 hne
      rw [List.getLast?_cons_of_ne_nil huniform]
      apply ih
      rwa [List.getLast?_cons_of_ne_nil hne] at h

theorem head?_unifyLineBreaks {t : Text} {c : Char} (hc : c ≠ '\n') :
    (unifyLineBreaks t).head? = some c → t.head? = some c := by
  fun_cases unifyLineBreaks t with
  | case1 => exact id
  | case2 t => simpa using fun h => absurd h.symm hc
  | case3 d t hcrlf =>
    rw [List.head?_cons, List.head?_cons, Option.some.injEq, Option.some.injEq]
    split
    · intro h
      exact absurd h.symm hc
    · exact id

end Mustache.Text
