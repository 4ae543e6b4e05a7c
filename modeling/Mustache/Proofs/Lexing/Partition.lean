import Mustache.Proofs.Lexing.Agreement

namespace Mustache.Token

open Scan

/-- Whether a text is one tag: it begins with two opening braces, and the first two closing braces
in it end it, or stand in front of a third one that ends it. -/
def IsTagText (t : Text) : Prop :=
  ['{', '{'] <+: t ∧ ∃ inner closing, t.breakOn? ['}', '}'] = some (inner, closing) ∧
    closing = if ['}', '}', '}'] <:+ t then ['}', '}', '}'] else ['}', '}']

/-- Where two closing braces end a text and stand nowhere before, there is no third one. -/
theorem not_third_of_breakOn? {t inner : Text}
    (h : t.breakOn? ['}', '}'] = some (inner, ['}', '}'])) : ¬ ['}', '}', '}'] <:+ t := by
  rintro ⟨front, rfl⟩
  have hinner : front ++ ['}'] = inner := by
    have htext := (Text.of_breakOn? h).1
    rw [List.append_cons] at htext
    exact List.append_cancel_right htext
  have hle := Text.length_le_of_breakOn? h (List.prefix_append ['}', '}'] ['}'])
  rw [← hinner, List.length_append, List.length_singleton] at hle
  omega

theorem isTagText_of_closed {t : Text} (hopen : opensTag t = true)
    (hclose : throughClosing? t = some t) : IsTagText t := by
  obtain ⟨inner, closing, hbreak, hpiece⟩ := throughClosing?_eq_some_iff.1 hclose
  obtain ⟨htext, more, rfl⟩ := Text.of_breakOn? hbreak
  refine ⟨opensTag_iff_begins.1 hopen, inner, ['}', '}'] ++ more, hbreak, ?_⟩
  have hall : (['}', '}'] ++ more).take (closingLength (['}', '}'] ++ more)) = ['}', '}'] ++ more :=
    List.append_cancel_left (hpiece.symm.trans htext)
  rcases take_closingLength more with htwo | hthree
  · have hclosing := hall.symm.trans htwo
    rw [hclosing] at hbreak ⊢
    rw [if_neg (not_third_of_breakOn? hbreak)]
  · have hclosing := hall.symm.trans hthree
    rw [hclosing] at htext ⊢
    rw [if_pos ⟨inner, htext.symm⟩]

theorem not_infix_of_noTagIn {piece rest : Text} (h : NoTagIn piece rest) :
    ¬ ['{', '{'] <:+: piece := by
  rintro ⟨front, back, rfl⟩
  rw [List.append_assoc, noTagIn_append] at h
  have hbraces : true = false := h.2.1
  cases hbraces

/-- How tokens are cut from the front of a text, and what they leave of it. -/
inductive Cuts : Text → List Token → Text → Prop where
  | nothing (rest : Text) : Cuts rest [] rest
  | tag {t : Token} {tokens : List Token} {behind rest : Text} (hopen : opensTag t.text = true)
      (hclose : throughClosing? t.text = some t.text) (h : Cuts behind tokens rest) :
      Cuts (t.text ++ behind) (t :: tokens) rest
  | plain {t : Token} {tokens : List Token} {behind rest : Text} (hne : t.text ≠ [])
      (hplain : NoTagIn t.text behind) (h : Cuts behind tokens rest) :
      Cuts (t.text ++ behind) (t :: tokens) rest

theorem cuts_of_next? {window : Nat} (hw : 3 ≤ window) {text : Text} (hne : text ≠ [])
    {t : Token} (hnext : next? window (text.takeBytes window) = some t.text) :
    ∃ behind, text = t.text ++ behind ∧
      ∀ {tokens rest}, Cuts behind tokens rest → Cuts text (t :: tokens) rest := by
  have hw' : 2 ≤ window := Nat.le_trans (by decide) hw
  cases hopen : opensTag text with
  | true =>
    have hclose := hnext
    rw [next?, opensTag_takeBytes hw', if_pos hopen] at hclose
    obtain ⟨unseen, hview⟩ := prefix_of_throughClosing? hclose
    have hlen := two_le_length_of_throughClosing? hclose
    have htext : text = t.text ++ (unseen ++ text.dropBytes window) := by
      rw [← List.append_assoc, hview, Text.takeBytes_append_dropBytes]
    refine ⟨_, htext, fun {tokens rest} h => ?_⟩
    rw [← hview] at hclose
    have hself := throughClosing?_of_begins hclose List.nil_prefix
    rw [List.append_nil] at hself
    rw [htext, opensTag_append hlen] at hopen
    rw [htext]
    exact .tag hopen hself h
  | false =>
    obtain ⟨piece, behind, htaken, rfl, hpiece, hplain⟩ := next?_takeBytes_of_plain hw hne hopen
    obtain rfl : piece = t.text := Option.some.inj (htaken.symm.trans hnext)
    exact ⟨behind, rfl, fun h => .plain hpiece hplain h⟩

theorem lexWithin_cuts (limits : Limits) (loops : Nat) (s : Source) :
    Cuts s.after (lexWithin limits loops s).tokens (lexWithin limits loops s).source.after ∧
      (lexWithin limits loops s).source.before =
        s.before ++ (lexWithin limits loops s).tokens.flatMap text ∧
      ((lexWithin limits loops s).failure = none →
        (lexWithin limits loops s).source.after = []) := by
  -- Each look cuts one piece off the front of what is left.
  induction loops generalizing s with
  | zero => exact ⟨.nothing _, (List.append_nil _).symm, nofun⟩
  | succ loops ih =>
    by_cases hne : s.after = []
    · rw [lexWithin_nil limits loops hne]
      exact ⟨.nothing _, (List.append_nil _).symm, fun _ => hne⟩
    · cases hnext : next? limits.window (s.after.takeBytes limits.window) with
      | none =>
        rw [lexWithin_of_next?_none loops hne hnext]
        exact ⟨.nothing _, (List.append_nil _).symm, nofun⟩
      | some piece =>
        have htext : text ⟨Source.fragmentAfter s.before piece⟩ = piece :=
          Source.text_fragmentAfter s.before piece
        obtain ⟨behind, hafter, hcuts⟩ := cuts_of_next? limits.three_le_window hne
          (t := ⟨Source.fragmentAfter s.before piece⟩) (htext.symm ▸ hnext)
        rw [htext] at hafter
        obtain ⟨hrest, hread, hend⟩ := ih ⟨s.name, s.before ++ piece, behind⟩
        rw [lexWithin_of_next?_some loops hne hafter hnext]
        refine ⟨hcuts hrest, ?_, hend⟩
        rw [List.flatMap_cons, htext, ← List.append_assoc]
        exact hread

namespace Cuts

variable {t : Token} {tokens front back : List Token} {whole rest : Text}

theorem eq_append (h : Cuts whole tokens rest) : whole = tokens.flatMap text ++ rest := by
  induction h with
  | nothing rest => rfl
  | tag hopen hclose h ih => rw [List.flatMap_cons, List.append_assoc, ← ih]
  | plain hne hplain h ih => rw [List.flatMap_cons, List.append_assoc, ← ih]

theorem of_append (h : Cuts whole (front ++ back) rest) :
    Cuts (back.flatMap text ++ rest) back rest := by
  induction front generalizing whole with
  | nil => exact h.eq_append ▸ h
  | cons t front ih =>
    cases h with
    | tag hopen hclose h => exact ih h
    | plain hne hplain h => exact ih h

theorem text_ne_nil (h : Cuts whole tokens rest) (ht : t ∈ tokens) : t.text ≠ [] := by
  induction h with
  | nothing rest => cases ht
  | tag hopen hclose h ih =>
    rcases List.mem_cons.1 ht with rfl | ht
    · exact List.ne_nil_of_length_pos (Nat.lt_of_lt_of_le (by decide)
        (two_le_length_of_throughClosing? hclose))
    · exact ih ht
  | plain hne hplain h ih =>
    rcases List.mem_cons.1 ht with rfl | ht
    · exact hne
    · exact ih ht

theorem isTagText (h : Cuts whole tokens rest) (ht : t ∈ tokens) (htag : t.isLiteral = false) :
    IsTagText t.text := by
  induction h with
  | nothing rest => cases ht
  | tag hopen hclose h ih =>
    rcases List.mem_cons.1 ht with rfl | ht
    · exact isTagText_of_closed hopen hclose
    · exact ih ht
  | plain hne hplain h ih =>
    rcases List.mem_cons.1 ht with rfl | ht
    · rw [isLiteral_eq, opensTag_of_noTagIn hne hplain] at htag
      cases htag
    · exact ih ht

/-- No tag begins in plain tokens that stand side by side, also not in two of them at once: each
was cut off where the text behind it does not make a tag of its end. -/
theorem noTagIn (h : Cuts whole (front ++ back) rest) (hliteral : ∀ t ∈ front, t.isLiteral = true) :
    NoTagIn (front.flatMap text) (back.flatMap text ++ rest) := by
  induction front generalizing whole with
  | nil => trivial
  | cons t front ih =>
    obtain ⟨ht, hfront⟩ := List.forall_mem_cons.1 hliteral
    cases h with
    | tag hopen hclose h =>
      rw [isLiteral_eq, hopen] at ht
      cases ht
    | @plain _ _ behind _ hne hplain h =>
      have hbehind : behind = front.flatMap text ++ (back.flatMap text ++ rest) := by
        rw [← List.append_assoc, ← List.flatMap_append]
        exact h.eq_append
      rw [List.flatMap_cons, noTagIn_append, ← hbehind]
      exact ⟨hplain, ih h hfront⟩

end Cuts

structure Lexing.Partitions (l : Lexing) (s : Source) : Prop where
  text : l.source.text = s.text
  read : l.source.before = s.before ++ l.tokens.flatMap Token.text
  all : l.failure = none → l.source.after = []
  nonempty : ∀ t ∈ l.tokens, t.text ≠ []
  /-- The run may be a single token. -/
  plain : ∀ run, run <:+: l.tokens → (∀ t ∈ run, t.isLiteral = true) →
    ¬ ['{', '{'] <:+: run.flatMap Token.text
  tag : ∀ t ∈ l.tokens, t.isLiteral = false → IsTagText t.text

/-- Nothing is lost or read twice, whatever the limits are and however lexing ends. -/
theorem lex_partitions (limits : Limits) (s : Source) : (lex limits s).Partitions s := by
  obtain ⟨hcuts, hread, hall⟩ := lexWithin_cuts limits limits.maxLoops s
  rw [← lex] at hcuts hread hall
  refine ⟨text_source_lexWithin limits limits.maxLoops s, hread, hall,
    fun t ht => hcuts.text_ne_nil ht, ?_, fun t ht => hcuts.isTagText ht⟩
  rintro run ⟨front, back, hsplit⟩ hliteral
  rw [← hsplit, List.append_assoc] at hcuts
  exact not_infix_of_noTagIn (hcuts.of_append.noTagIn hliteral)

end Mustache.Token
