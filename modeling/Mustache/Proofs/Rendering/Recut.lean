import Mustache.Proofs.Outline.Evaluation
import Mustache.Proofs.Template

namespace Mustache

open Outline (isBreak isBreak_eq_false_of_tag isLiteral_of_isBreak)

/-- The token that stands first in a list, or else behind it. -/
def Placed.next (after : Option Token) : List Placed → Option Token
  | [] => after
  | p :: _ => some p.token

/-- Literals that together stand for one literal in front of the given token. -/
structure Placed.Cuts (next : Option Token) (ls : List Placed) (q : Placed) : Prop where
  ne_nil : ls ≠ []
  literals : ∀ l ∈ ls, l.token.isLiteral = true
  whole : q.token.isLiteral = true
  trimmed : ls.flatMap trimmed = q.trimmed
  single : isBreak q = true → ∃ l, ls = [l] ∧ isBreak l = true
  first : ∀ l ∈ ls.head?, isBreak l = true → isBreak q = true
  last : next.any Token.closesSection = true → ∀ l ∈ ls.getLast?, isBreak l = true →
    isBreak q = true

/-- Tokens of which the first list holds runs in parts that the second holds in one. The given
token stands behind both. -/
inductive Recut (after : Option Token) : List Placed → List Placed → Prop
  | nil : Recut after [] []
  | tag {p q : Placed} {ps qs : List Placed} (htoken : p.token = q.token)
      (htag : q.token.isLiteral = false) (hrest : Recut after ps qs) :
      Recut after (p :: ps) (q :: qs)
  | run {ls : List Placed} {q : Placed} {ps qs : List Placed}
      (hcuts : Placed.Cuts (Placed.next after qs) ls q)
      (hnext : ∀ t ∈ Placed.next after qs, t.isLiteral = false) (hrest : Recut after ps qs) :
      Recut after (ls ++ ps) (q :: qs)

namespace Recut

variable {after : Option Token} {ps qs : List Placed}

theorem eq_nil_iff (h : Recut after ps qs) : ps = [] ↔ qs = [] := by
  cases h with
  | nil => simp
  | tag htoken htag hrest => simp
  | run hcuts hnext hrest => simp [hcuts.ne_nil]

/-- What stands behind the lists only says where they may not be cut. -/
theorem at_end (h : Recut after ps qs) : Recut none ps qs := by
  induction h with
  | nil => exact .nil
  | tag htoken htag hrest ih => exact .tag htoken htag ih
  | @run ls q ps qs hcuts hnext hrest ih =>
    cases qs with
    | nil => exact .run { hcuts with last := nofun } nofun ih
    | cons r qs => exact .run hcuts hnext ih

/-! ## Closing tags -/

theorem splitAtCloser?_literals_append {ls : List Placed}
    (h : ∀ l ∈ ls, l.token.isLiteral = true) (key : Text) (depth : Int) (ps : List Placed) :
    Template.splitAtCloser? key depth (ls ++ ps) =
      (Template.splitAtCloser? key depth ps).map fun (body, rest) => (ls ++ body, rest) := by
  induction ls with
  | nil => simp
  | cons l ls ih =>
    have hleaf := Token.isLeaf_of_isLiteral (h l List.mem_cons_self)
    have hrest := ih fun m hm => h m (List.mem_cons_of_mem l hm)
    simp [Template.splitAtCloser?, Outline.depthChange_of_isLeaf hleaf,
      Outline.closesSection_of_isLeaf hleaf, hrest, Function.comp_def]

/-- The search for a closing tag finds the same tag, and what it divides is cut as before. -/
theorem splitAtCloser? (h : Recut after ps qs) (key : Text) (depth : Int) :
    Template.splitAtCloser? key depth ps = none ∧ Template.splitAtCloser? key depth qs = none ∨
      ∃ body rest body' closer rest',
        Template.splitAtCloser? key depth ps = some (body, rest) ∧
        Template.splitAtCloser? key depth qs = some (body', rest') ∧
        qs = body' ++ closer :: rest' ∧ closer.token.closesSection = true ∧
        Recut (some closer.token) body body' ∧ Recut after rest rest' := by
  induction h generalizing depth with
  | nil => exact Or.inl ⟨rfl, rfl⟩
  | @tag p q ps qs htoken htag hrest ih =>
    simp only [Template.splitAtCloser?, htoken]
    by_cases hcloses : q.token.closesSection = true ∧ depth + q.token.depthChange = 0 ∧
        q.token.key = key
    · rw [if_pos hcloses, if_pos hcloses]
      exact Or.inr ⟨[], ps, [], q, qs, rfl, rfl, rfl, hcloses.1, .nil, hrest⟩
    · rw [if_neg hcloses, if_neg hcloses]
      rcases ih (depth + q.token.depthChange) with ⟨hps, hqs⟩ |
        ⟨body, rest, body', closer, rest', hps, hqs, hsplit, hc, hbody, hrest'⟩
      · rw [hps, hqs]
        exact Or.inl ⟨rfl, rfl⟩
      · rw [hps, hqs, hsplit]
        exact Or.inr ⟨p :: body, rest, q :: body', closer, rest', rfl, rfl, rfl, hc,
          .tag htoken htag hbody, hrest'⟩
  | @run ls q ps qs hcuts hnext hrest ih =>
    have hwhole : ∀ l ∈ [q], l.token.isLiteral = true := by simpa using hcuts.whole
    have hq := splitAtCloser?_literals_append hwhole key depth qs
    rw [List.singleton_append] at hq
    rw [splitAtCloser?_literals_append hcuts.literals, hq]
    rcases ih depth with ⟨hps, hqs⟩ |
      ⟨body, rest, body', closer, rest', hps, hqs, hsplit, hc, hbody, hrest'⟩
    · rw [hps, hqs]
      exact Or.inl ⟨rfl, rfl⟩
    · rw [hps, hqs]
      -- The closing tag follows the run where nothing else is left between them.
      have hsame : Placed.next after qs = Placed.next (some closer.token) body' := by
        rw [hsplit]
        cases body' <;> rfl
      rw [hsame] at hcuts hnext
      exact Or.inr ⟨ls ++ body, rest, q :: body', closer, rest', rfl, rfl,
        congrArg (q :: ·) hsplit, hc, .run hcuts hnext hbody, hrest'⟩

/-! ## Bodies of sections -/

theorem isBreak_congr {p q : Placed} (h : p.token = q.token) : isBreak p = isBreak q := by
  rw [isBreak, isBreak, h]

theorem dropFirstBreak (h : Recut after ps qs) :
    Recut after (if ps.head?.any isBreak then ps.tail else ps)
      (if qs.head?.any isBreak then qs.tail else qs) := by
  cases h with
  | nil => exact .nil
  | @tag p q ps qs htoken htag hrest =>
    have hq := isBreak_eq_false_of_tag htag
    simp only [List.head?_cons, Option.any_some, isBreak_congr htoken, hq, Bool.false_eq_true,
      if_false]
    exact .tag htoken htag hrest
  | @run ls q ps qs hcuts hnext hrest =>
    obtain ⟨l, more, rfl⟩ := List.exists_cons_of_ne_nil hcuts.ne_nil
    have hfirst : (l :: more ++ ps).head?.any isBreak = isBreak l := rfl
    have hwhole : (q :: qs).head?.any isBreak = isBreak q := rfl
    rw [hfirst, hwhole]
    by_cases hq : isBreak q = true
    · obtain ⟨l', hl, hbreak⟩ := hcuts.single hq
      cases hl
      rw [if_pos hbreak, if_pos hq]
      exact hrest
    · rw [if_neg (mt (hcuts.first l rfl) hq), if_neg hq]
      exact .run hcuts hnext hrest

/-- In front of a closing tag, a bare line break at the end is one in both lists. -/
theorem last_isBreak (h : Recut after ps qs) (hcloses : after.any Token.closesSection = true) :
    ps.getLast?.any isBreak = false ∧ qs.getLast?.any isBreak = false ∨
      ∃ ps' p qs' q, ps = ps' ++ [p] ∧ qs = qs' ++ [q] ∧ isBreak p = true ∧ isBreak q = true ∧
        Recut (some q.token) ps' qs' := by
  -- The last tokens are those of the rest, unless that is empty.
  induction h with
  | nil => exact Or.inl ⟨rfl, rfl⟩
  | @tag p q ps qs htoken htag hrest ih =>
    rcases ih with ⟨hps, hqs⟩ | ⟨ps', p', qs', q', rfl, rfl, hp', hq', hrest'⟩
    · left
      by_cases hnil : qs = []
      · obtain rfl := hrest.eq_nil_iff.2 hnil
        subst hnil
        have hq := isBreak_eq_false_of_tag htag
        exact ⟨(isBreak_congr htoken).trans hq, hq⟩
      · have hnil' := mt hrest.eq_nil_iff.1 hnil
        rw [List.getLast?_cons_of_ne_nil hnil, List.getLast?_cons_of_ne_nil hnil']
        exact ⟨hps, hqs⟩
    · exact Or.inr ⟨p :: ps', p', q :: qs', q', rfl, rfl, hp', hq', .tag htoken htag hrest'⟩
  | @run ls q ps qs hcuts hnext hrest ih =>
    rcases ih with ⟨hps, hqs⟩ | ⟨ps', p', qs', q', rfl, rfl, hp', hq', hrest'⟩
    · by_cases hnil : qs = []
      · obtain rfl := hrest.eq_nil_iff.2 hnil
        subst hnil
        rw [List.append_nil]
        cases hq : isBreak q with
        | true =>
          obtain ⟨l, rfl, hl⟩ := hcuts.single hq
          exact Or.inr ⟨[], l, [], q, rfl, rfl, hl, hq, .nil⟩
        | false =>
          refine Or.inl ⟨?_, hq⟩
          cases hl : ls.getLast? with
          | none => rfl
          | some l =>
            rw [Option.any_some, ← Bool.not_eq_true]
            intro hbreak
            exact absurd ((hcuts.last hcloses l hl hbreak).symm.trans hq) (by decide)
      · have hnil' := mt hrest.eq_nil_iff.1 hnil
        left
        rw [List.getLast?_cons_of_ne_nil hnil, List.getLast?_append,
          List.getLast?_eq_some_getLast hnil', Option.some_or,
          ← List.getLast?_eq_some_getLast hnil']
        exact ⟨hps, hqs⟩
    · have hsame : Placed.next after (qs' ++ [q']) = Placed.next (some q'.token) qs' := by
        cases qs' <;> rfl
      rw [hsame] at hcuts hnext
      exact Or.inr ⟨ls ++ ps', p', q :: qs', q', (List.append_assoc _ _ _).symm, rfl, hp', hq',
        .run hcuts hnext hrest'⟩

theorem one_lt_length_iff {t : Token} (h : Recut (some t) ps qs) (ht : t.isLiteral = true) :
    1 < ps.length ↔ 1 < qs.length := by
  have hlength (ps qs : List Placed) (hrest : Recut (some t) ps qs) :
      0 < ps.length ↔ 0 < qs.length := by
    rw [List.length_pos_iff, List.length_pos_iff, ne_eq, ne_eq, hrest.eq_nil_iff]
  cases h with
  | nil => simp
  | tag htoken htag hrest => simpa using hlength _ _ hrest
  | @run ls q ps qs hcuts hnext hrest =>
    cases qs with
    | nil => exact absurd (ht.symm.trans (hnext t rfl)) (by decide)
    | cons r qs =>
      have hps : 0 < ps.length := (hlength _ _ hrest).2 (Nat.succ_pos _)
      have hls : 0 < ls.length := List.length_pos_iff.2 hcuts.ne_nil
      simp only [List.length_append, List.length_cons]
      omega

theorem sectionBody {closer : Token} (h : Recut (some closer) ps qs)
    (hcloser : closer.closesSection = true) :
    Recut none (Template.sectionBody ps) (Template.sectionBody qs) := by
  rw [Outline.sectionBody_eq rfl, Outline.sectionBody_eq rfl]
  have hfront := h.dropFirstBreak
  generalize (if ps.head?.any isBreak then ps.tail else ps) = ps at hfront ⊢
  generalize (if qs.head?.any isBreak then qs.tail else qs) = qs at hfront ⊢
  rcases hfront.last_isBreak hcloser with ⟨hp, hq⟩ | ⟨ps', p, qs', q, rfl, rfl, hp, hq, hrest⟩
  · rw [hp, hq, if_neg (by simp), if_neg (by simp)]
    exact hfront.at_end
  · have hlength : 2 < (ps' ++ [p]).length ↔ 2 < (qs' ++ [q]).length := by
      rw [List.length_append, List.length_append]
      exact Nat.succ_lt_succ_iff.trans
        ((hrest.one_lt_length_iff (isLiteral_of_isBreak hq)).trans Nat.succ_lt_succ_iff.symm)
    simp only [hlength, List.getLast?_concat, Option.any_some, hp, hq, and_true,
      List.dropLast_concat]
    split
    · exact hrest.at_end
    · exact hfront.at_end

end Recut

/-! ## Runs -/

theorem Template.run_ofPlaced_literals_append {ls : List Placed}
    (h : ∀ l ∈ ls, l.token.isLiteral = true) (ps : List Placed) (s : Session) :
    (ofPlaced (ls ++ ps)).run s =
      (s.write (ls.flatMap Placed.trimmed)).andThen (ofPlaced ps).run := by
  induction ls generalizing s with
  | nil => rw [List.flatMap_nil, Session.write_nil, List.nil_append, Outcome.return_andThen]
  | cons l ls ih =>
    have hls : ∀ m ∈ ls, m.token.isLiteral = true := fun m hm => h m (List.mem_cons_of_mem l hm)
    rw [List.cons_append, Outline.run_ofPlaced_literal (h l List.mem_cons_self),
      List.flatMap_cons, Session.write_append, Outcome.andThen_andThen]
    exact congrArg (Outcome.andThen _) (funext (ih hls))

theorem Template.run_ofPlaced_tag {p q : Placed} {ps qs : List Placed} (htoken : p.token = q.token)
    (htag : q.token.isLiteral = false) (hrest : (ofPlaced ps).run = (ofPlaced qs).run)
    (hsection : splitAtCloser? q.token.key 1 ps = none ∧ splitAtCloser? q.token.key 1 qs = none ∨
      ∃ body rest body' rest',
        splitAtCloser? q.token.key 1 ps = some (body, rest) ∧
        splitAtCloser? q.token.key 1 qs = some (body', rest') ∧
        (ofPlaced (sectionBody body)).run = (ofPlaced (sectionBody body')).run ∧
        (ofPlaced rest).run = (ofPlaced rest').run) :
    (ofPlaced (p :: ps)).run = (ofPlaced (q :: qs)).run := by
  have hthen (first : Session → Outcome) : (fun s => (first s).andThen (ofPlaced ps).run) =
      fun s => (first s).andThen (ofPlaced qs).run := by
    rw [hrest]
  rw [ofPlaced_cons, ofPlaced_cons, htoken]
  split
  · exact hrest
  · cases hkind : q.token.kind with
    | literal => exact absurd (decide_eq_true hkind) (by rw [← Token.isLiteral, htag]; decide)
    | tripleTag => exact hthen _
    | tag =>
      dsimp only
      split
      · rfl
      · split
        · rcases hsection with ⟨hps, hqs⟩ | ⟨body, rest, body', rest', hps, hqs, hbody, hrest'⟩
          · rw [hps, hqs]
          · rw [hps, hqs]
            dsimp only
            split
            · rfl
            · funext s
              rw [run, run, hbody, hrest']
        · split
          · rfl
          · exact hthen _

/-- The template of tokens does not depend on where runs are cut. -/
theorem Recut.run_eq {after : Option Token} {ps qs : List Placed} (h : Recut after ps qs) :
    (Template.ofPlaced ps).run = (Template.ofPlaced qs).run := by
  -- Bodies of sections are no parts of the lists, but shorter.
  generalize hlength : qs.length = n
  induction n using Nat.strongRecOn generalizing after ps qs with
  | ind n ih =>
    subst hlength
    cases h with
    | nil => rfl
    | @run ls q ps qs hcuts hnext hrest =>
      funext s
      rw [Template.run_ofPlaced_literals_append hcuts.literals, hcuts.trimmed,
        Outline.run_ofPlaced_literal hcuts.whole, ih _ (Nat.lt_succ_self _) hrest rfl]
    | @tag p q ps qs htoken htag hrest =>
      apply Template.run_ofPlaced_tag htoken htag (ih _ (Nat.lt_succ_self _) hrest rfl)
      rcases hrest.splitAtCloser? q.token.key 1 with hnone |
        ⟨body, rest, body', closer, rest', hps, hqs, -, hcloses, hbody, hrest'⟩
      · exact Or.inl hnone
      · have hless := Template.length_of_splitAtCloser? hqs
        have hshort := Template.length_sectionBody_le body'
        refine Or.inr ⟨body, rest, body', rest', hps, hqs, ?_, ?_⟩
        · exact ih _ (by simp only [List.length_cons]; omega) (hbody.sectionBody hcloses) rfl
        · exact ih _ (by simp only [List.length_cons]; omega) hrest' rfl

end Mustache
