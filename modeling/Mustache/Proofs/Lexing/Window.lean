import Mustache.Proofs.Lexing.Scan
import Mustache.Proofs.Text.Bytes

namespace Mustache.Token

open Scan

theorem opensTag_append {t : Text} (hlen : 2 ≤ t.length) (u : Text) :
    opensTag (t ++ u) = opensTag t := by
  have hbegins : ['{', '{'] <+: t ++ u ↔ ['{', '{'] <+: t := by
    constructor
    · intro h
      exact List.prefix_of_prefix_length_le h (List.prefix_append t u) hlen
    · intro h
      exact h.trans (List.prefix_append t u)
  rw [Bool.eq_iff_iff, opensTag_iff_begins, opensTag_iff_begins, hbegins]

theorem opensTag_takeBytes {window : Nat} (hw : 2 ≤ window) (t : Text) :
    opensTag (t.takeBytes window) = opensTag t := by
  rw [Bool.eq_iff_iff, opensTag_iff_begins, opensTag_iff_begins]
  constructor
  · intro h
    exact h.trans (Text.takeBytes_prefix window t)
  · rintro ⟨u, rfl⟩
    have hbraces : Text.byteCount ['{', '{'] ≤ window := hw
    rw [Text.takeBytes_append hbraces]
    exact List.prefix_append _ _

theorem isLiteral_eq (t : Token) : t.isLiteral = !opensTag t.text := by
  have hkind (u : Text) : decide (kindOf u = .literal) = !opensTag u := by
    unfold kindOf opensTag
    split <;> simp_all
  exact hkind t.text

theorem opensTag_of_isLiteral {t : Token} (h : t.isLiteral = false) : opensTag t.text = true := by
  rw [isLiteral_eq] at h
  simpa using h

theorem piece_of_opensTag {t : Token} (h : opensTag t.text = true) : t.piece = .tag t.text := by
  apply piece_of_not_isLiteral
  rw [isLiteral_eq, h]
  rfl

theorem piece_of_not_opensTag {t : Token} (h : opensTag t.text = false) :
    t.piece = .run t.text := by
  apply piece_of_isLiteral
  rw [isLiteral_eq, h]
  rfl

theorem next?_takeBytes_of_unclosed {window : Nat} (hw : 2 ≤ window) {t : Text}
    (hopen : opensTag t = true) (hclose : throughClosing? t = none) :
    next? window (t.takeBytes window) = none := by
  have hview : throughClosing? (t.takeBytes window) = none := by
    rw [throughClosing?_eq_none_iff] at hclose ⊢
    intro h
    exact hclose (h.trans (Text.takeBytes_prefix window t).isInfix)
  rw [next?, opensTag_takeBytes hw, if_pos hopen, hview]

theorem next?_takeBytes_of_closed {window : Nat} (hw : 2 ≤ window) {piece rest : Text}
    (hopen : opensTag (piece ++ rest) = true)
    (hclose : throughClosing? (piece ++ rest) = some piece) (hfit : piece.byteCount ≤ window) :
    next? window ((piece ++ rest).takeBytes window) = some piece := by
  rw [next?, opensTag_takeBytes hw, if_pos hopen, Text.takeBytes_append hfit]
  exact throughClosing?_of_begins hclose (Text.takeBytes_prefix _ rest)

theorem two_le_length_of_throughClosing? {t piece : Text} (h : throughClosing? t = some piece) :
    2 ≤ piece.length := by
  obtain ⟨inner, closing, hbreak, rfl⟩ := throughClosing?_eq_some_iff.1 h
  have hclosing : 2 ≤ closing.length := (Text.of_breakOn? hbreak).2.length_le
  have hcount := two_le_closingLength closing
  rw [List.length_append, List.length_take]
  omega

theorem noTagIn_of_append {piece rest : Text} (hne : rest ≠ []) (h : NoTagIn piece rest)
    (more : Text) : NoTagIn piece (rest ++ more) := by
  induction piece with
  | nil => trivial
  | cons c piece ih =>
    obtain ⟨hc, hpiece⟩ := h
    refine ⟨?_, ih hpiece⟩
    have hlen : 2 ≤ (c :: (piece ++ rest)).length := by
      have hrest := List.length_pos_iff.2 hne
      rw [List.length_cons, List.length_append]
      omega
    rw [← List.append_assoc, ← List.cons_append, opensTag_append hlen]
    exact hc

theorem opensTag_of_noTagIn {piece rest : Text} (hne : piece ≠ []) (h : NoTagIn piece rest) :
    opensTag piece = false := by
  cases piece with
  | nil => exact absurd rfl hne
  | cons c piece =>
    rw [← Bool.not_eq_true, opensTag_iff_begins]
    intro hbegins
    have hopen := opensTag_iff_begins.2 (hbegins.trans (List.prefix_append (c :: piece) rest))
    rw [List.cons_append, h.1] at hopen
    cases hopen

/-- Up to the first opening braces no tag begins, and there one does. -/
theorem untilOpening_spec (t : Text) :
    ∃ rest, t = untilOpening t ++ rest ∧ NoTagIn (untilOpening t) rest ∧
      (rest = [] ∨ opensTag rest = true) := by
  induction t with
  | nil => exact ⟨[], rfl, trivial, Or.inl rfl⟩
  | cons c t ih =>
    by_cases hopen : opensTag (c :: t) = true
    · rw [untilOpening, if_pos hopen]
      exact ⟨c :: t, rfl, trivial, Or.inr hopen⟩
    · obtain ⟨rest, ht, hplain, hrest⟩ := ih
      rw [untilOpening, if_neg hopen]
      refine ⟨rest, congrArg (c :: ·) ht, ⟨?_, hplain⟩, hrest⟩
      rw [← ht]
      exact Bool.eq_false_iff.2 hopen

/-- Without a last brace a tag begins at no place of the piece, whatever follows. -/
theorem noTagIn_of_getLast {piece : Text} (hlast : piece.getLast? ≠ some '{')
    (h : NoTagIn piece []) (rest : Text) : NoTagIn piece rest := by
  rcases List.eq_nil_or_concat piece with rfl | ⟨front, c, rfl⟩
  · trivial
  · have hc : c ≠ '{' := by simpa using hlast
    rw [List.concat_eq_append, noTagIn_append] at h ⊢
    -- In front of the last character the next one is known; the last one is no brace.
    refine ⟨noTagIn_of_append (List.cons_ne_nil c []) h.1 rest, ?_, trivial⟩
    rw [← Bool.not_eq_true, opensTag_iff_begins]
    rintro ⟨u, hu⟩
    exact hc (List.cons.inj hu).1.symm

/-- What is taken from a text is plain: it is not empty, and no tag begins in it. -/
def TakesPlain (taken : Option Text) (t : Text) : Prop :=
  ∃ piece rest, taken = some piece ∧ t = piece ++ rest ∧ piece ≠ [] ∧ NoTagIn piece rest

theorem next?_of_opening {window : Nat} {view rest : Text}
    (hsplit : view = untilOpening view ++ rest) (hplain : NoTagIn (untilOpening view) rest)
    (hrest : opensTag rest = true) (hview : opensTag view = false) (unseen : Text) :
    TakesPlain (next? window view) (view ++ unseen) := by
  have hne : rest ≠ [] := by
    rintro rfl
    cases hrest
  have hpart : untilOpening view ≠ view := by
    intro hall
    rw [hall] at hsplit
    exact hne (List.self_eq_append_right.1 hsplit)
  rw [next?, hview, if_neg Bool.false_ne_true, if_neg (fun h => hpart h.1)]
  refine ⟨untilOpening view, rest ++ unseen, rfl, ?_, ?_, noTagIn_of_append hne hplain unseen⟩
  · rw [← List.append_assoc, ← hsplit]
  · intro hempty
    rw [hempty, List.nil_append] at hsplit
    rw [hsplit, hrest] at hview
    cases hview

/-- Where no tag begins in the view, all of it is taken, up to a last brace of a full view. -/
theorem next?_of_no_opening {window : Nat} (hw : 3 ≤ window) {view unseen : Text}
    (hall : untilOpening view = view) (hplain : NoTagIn view []) (hne : view ≠ [])
    (hfull : window ≤ view.byteCount ∨ unseen = []) :
    TakesPlain (next? window view) (view ++ unseen) := by
  rw [next?, opensTag_of_noTagIn hne hplain, if_neg Bool.false_ne_true]
  by_cases hlast : view.getLast? = some '{'
  · by_cases hbytes : window ≤ view.byteCount
    · -- The last brace is left to the next view, which goes on with what is unseen here.
      obtain ⟨front, rfl⟩ := List.getLast?_eq_some_iff.1 hlast
      rw [if_pos ⟨hall, hbytes, hlast⟩, List.dropLast_concat]
      refine ⟨front, '{' :: unseen, rfl, List.append_assoc front ['{'] unseen, ?_, ?_⟩
      · rintro rfl
        have hbrace : Text.byteCount ([] ++ ['{']) = 1 := rfl
        omega
      · rw [noTagIn_append] at hplain
        exact noTagIn_of_append (List.cons_ne_nil '{' []) hplain.1 unseen
    · -- A view that is not full shows the text to its end: the brace begins no tag.
      have hend : unseen = [] := hfull.resolve_left hbytes
      rw [if_neg (fun h => hbytes h.2.1), hall, hend]
      exact ⟨view, [], rfl, rfl, hne, hplain⟩
  · rw [if_neg (fun h => hlast h.2.2), hall]
    exact ⟨view, unseen, rfl, rfl, hne, noTagIn_of_getLast hlast hplain unseen⟩

theorem next?_takeBytes_of_plain {window : Nat} (hw : 3 ≤ window) {t : Text} (hne : t ≠ [])
    (hopen : opensTag t = false) : TakesPlain (next? window (t.takeBytes window)) t := by
  have htext := Text.takeBytes_append_dropBytes window t
  have hview : t.takeBytes window ≠ [] := by
    rw [ne_eq, Text.takeBytes_eq_nil_iff (by omega)]
    exact hne
  have hfull : window ≤ (t.takeBytes window).byteCount ∨ t.dropBytes window = [] := by
    rcases Text.le_byteCount_takeBytes window t with h | h
    · exact Or.inl h
    · rw [h] at htext
      exact Or.inr (List.append_right_eq_self.1 htext)
  rw [← opensTag_takeBytes (Nat.le_trans (by decide) hw)] at hopen
  obtain ⟨rest, hsplit, hplain, hrest | hrest⟩ := untilOpening_spec (t.takeBytes window)
  · rw [hrest, List.append_nil] at hsplit
    rw [hrest, ← hsplit] at hplain
    have htaken := next?_of_no_opening hw hsplit.symm hplain hview hfull
    rwa [htext] at htaken
  · have htaken := @next?_of_opening window _ _ hsplit hplain hrest hopen (t.dropBytes window)
    rwa [htext] at htaken

/-- One look finds what the scan begins with: braces that are not closed, or a piece. -/
theorem next?_takeBytes {window : Nat} (hw : 3 ≤ window) {t : Text} (hne : t ≠ [])
    (hfit : ∀ u ∈ (ofText t).tags, u.byteCount ≤ window) :
    (next? window (t.takeBytes window) = none ∧ ofText t = ⟨[], some t⟩) ∨
      ∃ piece rest, next? window (t.takeBytes window) = some piece ∧ t = piece ++ rest ∧
        piece ≠ [] ∧
        ∀ token : Token, token.text = piece → ofText t = (ofText rest).cons token.piece := by
  have hw' : 2 ≤ window := Nat.le_trans (by decide) hw
  by_cases hopen : opensTag t = true
  · cases hclose : throughClosing? t with
    | none => exact Or.inl ⟨next?_takeBytes_of_unclosed hw' hopen hclose,
        ofText_of_not_closed hopen hclose⟩
    | some piece =>
      obtain ⟨rest, rfl⟩ := prefix_of_throughClosing? hclose
      have hscan := ofText_of_closed hopen hclose
      have hlen := two_le_length_of_throughClosing? hclose
      have hbytes : piece.byteCount ≤ window := by
        apply hfit
        rw [mem_tags, hscan]
        exact List.mem_cons_self
      refine Or.inr ⟨piece, rest, next?_takeBytes_of_closed hw' hopen hclose hbytes, rfl, ?_, ?_⟩
      · rintro rfl
        exact absurd hlen (by decide)
      · rintro token rfl
        rw [opensTag_append hlen] at hopen
        rw [piece_of_opensTag hopen, hscan]
  · obtain ⟨piece, rest, hnext, rfl, hpiece, hplain⟩ :=
      next?_takeBytes_of_plain hw hne (Bool.eq_false_iff.2 hopen)
    refine Or.inr ⟨piece, rest, hnext, rfl, hpiece, ?_⟩
    rintro token rfl
    rw [piece_of_not_opensTag (opensTag_of_noTagIn hpiece hplain), ofText_append hpiece hplain]

end Mustache.Token
