import Mathlib.Data.List.Basic
import Mustache.Proofs.Text.Escaping
import Mustache.Proofs.Text.Trimming

namespace Mustache.Text

structure Rule where
  pattern : Text
  replacement : Text
  pattern_ne_nil : pattern ≠ []

def replaceFirst? (rules : List Rule) (t : Text) : Option (Text × Text) :=
  rules.findSome? fun r => (stripPrefix? r.pattern t).map (r.replacement, ·)

section

variable {rules : List Rule} {t rest written : Text}

theorem replaceFirst?_eq_none_iff :
    replaceFirst? rules t = none ↔ ∀ r ∈ rules, ¬ r.pattern <+: t := by
  have hstrip (r : Rule) : stripPrefix? r.pattern t = none ↔ ¬ r.pattern <+: t := by
    rw [Option.eq_none_iff_forall_ne_some, List.IsPrefix, not_exists]
    exact forall_congr' fun rest => not_congr (stripPrefix?_eq_some_iff.trans eq_comm)
  simp only [replaceFirst?, List.findSome?_eq_none_iff, Option.map_eq_none_iff, hstrip]

theorem length_lt_of_replaceFirst? (h : replaceFirst? rules t = some (written, rest)) :
    rest.length < t.length := by
  obtain ⟨r, -, hr⟩ := List.exists_of_findSome?_eq_some h
  obtain ⟨rest', hrest, hpair⟩ := Option.map_eq_some_iff.mp hr
  obtain ⟨-, rfl⟩ := Prod.mk.inj hpair
  rw [stripPrefix?_eq_some_iff.mp hrest, List.length_append]
  have hpattern := List.length_pos_iff.mpr r.pattern_ne_nil
  omega

/-- Replaces the patterns of all rules in one pass. -/
def replaceAll (rules : List Rule) : Text → Text
  | [] => []
  | c :: t =>
    match _ : replaceFirst? rules (c :: t) with
    | some (written, rest) => written ++ replaceAll rules rest
    | none => c :: replaceAll rules t
termination_by t => t.length
decreasing_by
  · exact length_lt_of_replaceFirst? ‹_›
  · exact Nat.lt_succ_self _

@[simp] theorem replaceAll_nil : replaceAll rules [] = [] := by
  rw [replaceAll]

theorem replaceAll_of_replaceFirst? (h : replaceFirst? rules t = some (written, rest)) :
    replaceAll rules t = written ++ replaceAll rules rest := by
  cases t with
  | nil => exact absurd (length_lt_of_replaceFirst? h) (Nat.not_lt_zero _)
  | cons c t =>
    rw [replaceAll]
    split
    next written' rest' h' =>
      obtain ⟨rfl, rfl⟩ := Prod.mk.inj (Option.some.inj (h.symm.trans h'))
      rfl
    next h' => cases h.symm.trans h'

theorem replaceAll_cons_of_not_prefix {c : Char} (h : ∀ r ∈ rules, ¬ r.pattern <+: c :: t) :
    replaceAll rules (c :: t) = c :: replaceAll rules t := by
  rw [replaceAll]
  split
  next h' => cases (replaceFirst?_eq_none_iff.mpr h).symm.trans h'
  next => rfl

theorem replaceAll_singleton_cons {r : Rule} {c : Char} (h : ¬ r.pattern <+: c :: t) :
    replaceAll [r] (c :: t) = c :: replaceAll [r] t := by
  apply replaceAll_cons_of_not_prefix
  rintro s hs
  rwa [List.mem_singleton.mp hs]

theorem replaceAll_pattern_append (r : Rule) (t : Text) :
    replaceAll [r] (r.pattern ++ t) = r.replacement ++ replaceAll [r] t := by
  apply replaceAll_of_replaceFirst?
  have hstrip : stripPrefix? r.pattern (r.pattern ++ t) = some t :=
    stripPrefix?_eq_some_iff.mpr rfl
  simp [replaceFirst?, hstrip]

end

theorem mem_specials_iff {c : Char} :
    c ∈ specials ↔ c = '&' ∨ c = '<' ∨ c = '>' ∨ c = '"' ∨ c = '\'' := by
  simp [specials]

theorem one_lt_length_escapeHtmlChar {c : Char} (hc : c ∈ specials) :
    1 < (escapeHtmlChar c).length := by
  rcases mem_specials_iff.mp hc with rfl | rfl | rfl | rfl | rfl <;> decide

theorem length_escapeHtmlChar_pos (c : Char) : 0 < (escapeHtmlChar c).length := by
  by_cases hc : c ∈ specials
  · exact Nat.zero_lt_of_lt (one_lt_length_escapeHtmlChar hc)
  · rw [escapeHtmlChar_of_not_mem hc]
    exact Nat.one_pos

def referenceRules : List Rule :=
  [⟨"&amp;".toList, ['&'], by decide⟩,
    ⟨"&lt;".toList, ['<'], by decide⟩,
    ⟨"&gt;".toList, ['>'], by decide⟩,
    ⟨"&quot;".toList, ['"'], by decide⟩,
    ⟨"&#39;".toList, ['\''], by decide⟩]

def unescapeHtml (t : Text) : Text := replaceAll referenceRules t

/-- No reference begins another one. -/
theorem replaceFirst?_reference {c : Char} (hc : c ∈ specials) (t : Text) :
    replaceFirst? referenceRules (escapeHtmlChar c ++ t) = some ([c], t) := by
  rcases mem_specials_iff.mp hc with rfl | rfl | rfl | rfl | rfl <;> rfl

theorem unescapeHtml_reference {c : Char} (hc : c ∈ specials) (t : Text) :
    unescapeHtml (escapeHtmlChar c ++ t) = c :: unescapeHtml t :=
  replaceAll_of_replaceFirst? (replaceFirst?_reference hc t)

theorem unescapeHtml_cons {c : Char} (hc : c ≠ '&') (t : Text) :
    unescapeHtml (c :: t) = c :: unescapeHtml t := by
  have hbegins : ∀ r ∈ referenceRules, r.pattern.head? = some '&' := by decide
  apply replaceAll_cons_of_not_prefix
  rintro r hr ⟨rest, hrest⟩
  have hhead := congrArg List.head? hrest
  rw [List.head?_append, hbegins r hr, Option.some_or, List.head?_cons] at hhead
  exact hc (Option.some.inj hhead).symm

theorem unescapeHtml_escapeHtml (t : Text) : unescapeHtml (escapeHtml t) = t := by
  induction t with
  | nil => exact replaceAll_nil
  | cons c t ih =>
    rw [escapeHtml_cons]
    by_cases hc : c ∈ specials
    · rw [unescapeHtml_reference hc, ih]
    · have hampersand : c ≠ '&' := fun h => hc (mem_specials_iff.mpr (Or.inl h))
      rw [escapeHtmlChar_of_not_mem hc, List.singleton_append, unescapeHtml_cons hampersand, ih]

/-- What looks like a reference in a text is not taken for one when the text is read back. -/
example : escapeHtml "&lt;".toList = "&amp;lt;".toList := rfl

theorem length_le_length_escapeHtml (t : Text) : t.length ≤ (escapeHtml t).length := by
  induction t with
  | nil => exact Nat.le_refl 0
  | cons c t ih =>
    have hc := length_escapeHtmlChar_pos c
    rw [escapeHtml_cons, List.length_append, List.length_cons]
    omega

/-- A special character makes the text longer. -/
theorem escapeHtml_eq_self_iff {t : Text} : escapeHtml t = t ↔ t.IsPlain := by
  constructor
  · intro hsame c hmem hc
    obtain ⟨front, back, rfl⟩ := List.append_of_mem hmem
    have hlength := congrArg List.length hsame
    have hfront := length_le_length_escapeHtml front
    have hback := length_le_length_escapeHtml back
    have hlonger := one_lt_length_escapeHtmlChar hc
    simp only [escapeHtml_append, escapeHtml_cons, List.length_append, List.length_cons] at hlength
    omega
  · intro hplain
    have hkept : t.flatMap escapeHtmlChar = t.flatMap fun c => [c] :=
      List.flatMap_congr fun c hc => escapeHtmlChar_of_not_mem (hplain c hc)
    rw [escapeHtml, hkept, List.flatMap_singleton']

theorem escapeHtml_reversible (s t : Text) :
    unescapeHtml (escapeHtml t) = t ∧ (escapeHtml s = escapeHtml t ↔ s = t) ∧
      escapeHtml (s ++ t) = escapeHtml s ++ escapeHtml t ∧ (escapeHtml t = t ↔ t.IsPlain) := by
  have hinjective : Function.Injective escapeHtml :=
    Function.LeftInverse.injective unescapeHtml_escapeHtml
  exact ⟨unescapeHtml_escapeHtml t, hinjective.eq_iff, escapeHtml_append s t,
    escapeHtml_eq_self_iff⟩

end Mustache.Text
