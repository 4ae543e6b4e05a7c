import Mustache.Fixture
import Mustache.Proofs.Text.LineBreaks
import Mustache.Proofs.Text.Replacing

namespace Mustache

namespace Text

inductive LineBreak where
  | feed
  | returnAndFeed
  | carriageReturn
deriving DecidableEq

namespace LineBreak

def text : LineBreak → Text
  | feed => ['\n']
  | returnAndFeed => ['\r', '\n']
  | carriageReturn => ['\r']

theorem text_ne_nil (b : LineBreak) : b.text ≠ [] := by
  cases b <;> exact List.cons_ne_nil _ _

def rule (b : LineBreak) : Rule := ⟨b.text, ['\n'], b.text_ne_nil⟩

end LineBreak

def replaceLineBreaks (t : Text) : Text :=
  replaceAll [LineBreak.carriageReturn.rule] (replaceAll [LineBreak.returnAndFeed.rule] t)

theorem replaceAll_return_cons {c : Char} (hc : c ≠ '\r') (t : Text) :
    replaceAll [LineBreak.carriageReturn.rule] (c :: t) =
      c :: replaceAll [LineBreak.carriageReturn.rule] t := by
  apply replaceAll_singleton_cons
  exact fun h => hc (List.cons_prefix_cons.mp h).1.symm

/-- The first replacement may put a carriage return in front of a line feed, but the second does not
take them together. -/
theorem unifyLineBreaks_eq_replaceLineBreaks (t : Text) :
    t.unifyLineBreaks = t.replaceLineBreaks := by
  unfold replaceLineBreaks
  fun_induction unifyLineBreaks t with
  | case1 => rw [replaceAll_nil, replaceAll_nil]
  | case2 t ih =>
    have hboth : replaceAll [LineBreak.returnAndFeed.rule] ('\r' :: '\n' :: t) =
        '\n' :: replaceAll [LineBreak.returnAndFeed.rule] t :=
      replaceAll_pattern_append LineBreak.returnAndFeed.rule t
    rw [hboth, replaceAll_return_cons (by decide), ih]
  | case3 c t hcrlf ih =>
    have hfirst : replaceAll [LineBreak.returnAndFeed.rule] (c :: t) =
        c :: replaceAll [LineBreak.returnAndFeed.rule] t := by
      apply replaceAll_singleton_cons
      rintro ⟨rest, hrest⟩
      obtain ⟨hc, ht⟩ := List.cons.inj hrest
      exact hcrlf rest hc.symm ht.symm
    rw [hfirst, ih]
    split
    next hc =>
      subst hc
      exact (replaceAll_pattern_append LineBreak.carriageReturn.rule _).symm
    next hc => exact (replaceAll_return_cons hc _).symm

example : unifyLineBreaks ['\r', '\r', '\n'] = ['\n', '\n'] := rfl

/-- Writes the line feeds of a text in the given spellings, one after the other. -/
def respell : (Nat → LineBreak) → Text → Text
  | _, [] => []
  | breaks, c :: t =>
    if c = '\n' then (breaks 0).text ++ respell (fun k => breaks (k + 1)) t
    else c :: respell breaks t

/-- Whether no carriage return that is written for a line feed stands in front of a line feed that
is written for the next one. -/
def IsSeparated (breaks : Nat → LineBreak) (t : Text) : Prop :=
  ∀ front back, t = front ++ '\n' :: '\n' :: back →
    breaks (front.count '\n') = .carriageReturn → breaks (front.count '\n' + 1) ≠ .feed

section

variable {breaks : Nat → LineBreak} {t : Text}

theorem respell_feed (breaks : Nat → LineBreak) (t : Text) : respell breaks ('\n' :: t) =
    (breaks 0).text ++ respell (fun k => breaks (k + 1)) t := by
  rw [respell, if_pos rfl]

theorem respell_cons {c : Char} (hc : c ≠ '\n') (breaks : Nat → LineBreak) (t : Text) :
    respell breaks (c :: t) = c :: respell breaks t := by
  rw [respell, if_neg hc]

theorem head?_respell : (respell breaks t).head? = some '\n' ↔
    t.head? = some '\n' ∧ breaks 0 = .feed := by
  cases t with
  | nil => simp [respell]
  | cons c t =>
    by_cases hc : c = '\n'
    · subst hc
      rw [respell_feed]
      cases breaks 0 <;> simp [LineBreak.text]
    · rw [respell_cons hc]
      simp [hc]

theorem isSeparated_cons {c : Char} (hc : c ≠ '\n') :
    IsSeparated breaks (c :: t) ↔ IsSeparated breaks t := by
  have hcount (front : Text) : (c :: front).count '\n' = front.count '\n' :=
    List.count_cons_of_ne hc
  constructor
  · intro h front back ht
    rw [← hcount front]
    exact h (c :: front) back (congrArg (c :: ·) ht)
  · intro h front back ht
    cases front with
    | nil => exact absurd (List.cons.inj ht).1 hc
    | cons d front =>
      obtain ⟨rfl, hback⟩ := List.cons.inj ht
      rw [hcount]
      exact h front back hback

theorem isSeparated_feed : IsSeparated breaks ('\n' :: t) ↔
    (breaks 0 = .carriageReturn → (respell (fun k => breaks (k + 1)) t).head? ≠ some '\n') ∧
      IsSeparated (fun k => breaks (k + 1)) t := by
  have hcount (front : Text) : ('\n' :: front).count '\n' = front.count '\n' + 1 :=
    List.count_cons_self
  constructor
  · intro h
    constructor
    · intro hreturn hhead
      obtain ⟨ht, hfeed⟩ := head?_respell.mp hhead
      obtain ⟨back, rfl⟩ := List.head?_eq_some_iff.mp ht
      exact h [] back rfl hreturn hfeed
    · intro front back ht
      have hnext := h ('\n' :: front) back (congrArg ('\n' :: ·) ht)
      rwa [hcount] at hnext
  · rintro ⟨hfirst, hrest⟩ front back ht
    cases front with
    | nil =>
      obtain ⟨-, rfl⟩ := List.cons.inj ht
      exact fun hreturn hfeed => hfirst hreturn (head?_respell.mpr ⟨rfl, hfeed⟩)
    | cons d front =>
      obtain ⟨rfl, hback⟩ := List.cons.inj ht
      rw [hcount]
      exact hrest front back hback

/-- A line break becomes a line feed, but for a carriage return in front of a line feed, which gets
lost. -/
theorem unifyLineBreaks_text_append (b : LineBreak) (t : Text) :
    unifyLineBreaks (b.text ++ t) =
      if b = .carriageReturn ∧ t.head? = some '\n' then unifyLineBreaks t
      else '\n' :: unifyLineBreaks t := by
  cases b with
  | feed => exact unifyLineBreaks_cons (by decide) t
  | returnAndFeed => rfl
  | carriageReturn =>
    split
    next hlost =>
      obtain ⟨u, rfl⟩ := List.head?_eq_some_iff.mp hlost.2
      exact (unifyLineBreaks_cons (by decide) u).symm
    next hkept =>
      exact unifyLineBreaks_append fun hhead => hkept ⟨rfl, hhead⟩

theorem length_unifyLineBreaks_respell (breaks : Nat → LineBreak) (ht : '\r' ∉ t) :
    (unifyLineBreaks (respell breaks t)).length ≤ t.length := by
  induction t generalizing breaks with
  | nil => exact Nat.le_refl 0
  | cons c t ih =>
    rw [List.mem_cons, not_or] at ht
    by_cases hc : c = '\n'
    · subst hc
      have hrest := ih (fun k => breaks (k + 1)) ht.2
      rw [respell_feed, unifyLineBreaks_text_append]
      split
      · exact Nat.le_succ_of_le hrest
      · exact Nat.succ_le_succ hrest
    · rw [respell_cons hc, unifyLineBreaks_cons (Ne.symm ht.1)]
      exact Nat.succ_le_succ (ih breaks ht.2)

theorem unifyLineBreaks_respell_iff (ht : '\r' ∉ t) :
    unifyLineBreaks (respell breaks t) = t ↔ IsSeparated breaks t := by
  induction t generalizing breaks with
  | nil => simp [respell, unifyLineBreaks, IsSeparated]
  | cons c t ih =>
    rw [List.mem_cons, not_or] at ht
    by_cases hc : c = '\n'
    · subst hc
      rw [respell_feed, unifyLineBreaks_text_append, isSeparated_feed, ← ih ht.2]
      split
      next hlost =>
        have hshort := length_unifyLineBreaks_respell (fun k => breaks (k + 1)) ht.2
        constructor
        · intro hsame
          rw [hsame] at hshort
          exact absurd hshort (Nat.not_succ_le_self t.length)
        · exact fun h => absurd hlost.2 (h.1 hlost.1)
      next hkept =>
        rw [List.cons_inj_right]
        exact ⟨fun hsame => ⟨fun hreturn hhead => hkept ⟨hreturn, hhead⟩, hsame⟩, And.right⟩
    · rw [respell_cons hc, unifyLineBreaks_cons (Ne.symm ht.1), List.cons_inj_right, ih ht.2,
        isSeparated_cons hc]

end

/-- Two line breaks that are not separated are one. -/
example : unifyLineBreaks (respell (fun k => if k = 0 then .carriageReturn else .feed)
    ['\n', '\n']) = ['\n'] := rfl

end Text

namespace Source

open Text (LineBreak respell IsSeparated)

/-- However its line breaks are spelled, a template is the same from here on. A carriage return may
not get in front of the line feed of the next line break: these two are one. -/
theorem ofText_spellings :
    (∀ (t : Text) (breaks : Nat → LineBreak), '\r' ∉ t → IsSeparated breaks t →
      ofText (respell breaks t) = ⟨none, [], t⟩ ∧
        (∀ limits, Token.lex limits (ofText (respell breaks t)) = Token.lex limits (ofText t)) ∧
        ∀ values, render (respell breaks t) values = render t values) ∧
      (∀ t : Text, ofContent (.ok t.encode) = .ok (ofText t) ∧
        (ofText t).text = t.replaceLineBreaks ∧ '\r' ∉ (ofText t).text ∧
        (ofText t).text.unifyLineBreaks = (ofText t).text) ∧
      ∀ c : FixtureCase, c.expectedOutput = c.expected.replaceLineBreaks ∧
        c.expectedOutput = (ofText c.expected).text := by
  refine ⟨fun t breaks ht hbreaks => ?_, fun t => ?_, fun c => ?_⟩
  · have hplain : ofText t = ⟨none, [], t⟩ := by
      rw [ofText, Text.unifyLineBreaks_eq_self ht]
    have hsame : ofText (respell breaks t) = ofText t := by
      rw [hplain, ofText, (Text.unifyLineBreaks_respell_iff ht).mpr hbreaks]
    refine ⟨hsame.trans hplain, fun limits => ?_, fun values => ?_⟩
    · rw [hsame]
    · simp only [render, hsame]
  · have hbytes : ofContent (.ok t.encode) = .ok (ofText t) := by
      rw [ofContent, Text.decode?_encode]
    have hreturn := Text.not_mem_unifyLineBreaks t
    exact ⟨hbytes, Text.unifyLineBreaks_eq_replaceLineBreaks t, hreturn,
      Text.unifyLineBreaks_eq_self hreturn⟩
  · exact ⟨Text.unifyLineBreaks_eq_replaceLineBreaks c.expected, rfl⟩

/-- One line break in each spelling. -/
theorem ofText_mixedSpelling :
    let breaks : Nat → LineBreak
      | 0 => .feed
      | 1 => .carriageReturn
      | _ => .returnAndFeed
    let t : Text := ['a', '\n', 'b', '\n', '\n', 'c']
    '\r' ∉ t ∧ IsSeparated breaks t ∧
      respell breaks t = ['a', '\n', 'b', '\r', '\r', '\n', 'c'] ∧
      ofText (respell breaks t) = ⟨none, [], t⟩ := by
  intro breaks t
  have ht : '\r' ∉ t := by decide
  have hbreaks : IsSeparated breaks t := by
    intro front back _ hreturn
    match front.count '\n', hreturn with
    | 1, _ => nofun
  exact ⟨ht, hbreaks, rfl, (ofText_spellings.1 t breaks ht hbreaks).1⟩

end Source

end Mustache
