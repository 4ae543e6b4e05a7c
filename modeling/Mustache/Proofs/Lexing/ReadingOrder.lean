import Mustache.Proofs.Lexing.Cutting
import Mustache.Proofs.Location.Counting

namespace Mustache

namespace Location

/-- A line break has the location of the character in front of it. -/
theorem ofLast_concat_of_isBreak {t : Text} (ht : t ≠ []) {c : Char} (hc : isBreak c = true) :
    ofLast (t ++ [c]) = ofLast t := by
  have hcolumns : columns (t ++ [c]) = columns t := by rw [columns_concat, if_pos hc]
  have hlines : lineStarts (t ++ [c]) = lineStarts t := by simp [lineStarts_concat, Begins, hc]
  rw [ofLast_eq_count ht, ofLast_eq_count (List.append_ne_nil_of_left_ne_nil ht [c]), hlines,
    hcolumns]

theorem precedes_ofLast_concat {t : Text} (ht : t ≠ []) {c : Char} (hc : isBreak c = false) :
    (ofLast t).Precedes (ofLast (t ++ [c])) := by
  obtain ⟨front, d, rfl⟩ : ∃ front d, t = front ++ [d] :=
    ⟨t.dropLast, t.getLast ht, (List.dropLast_concat_getLast ht).symm⟩
  have hstep := precedes_ofLast front d [] hc
  rwa [List.append_cons, List.append_nil] at hstep

/-- Reading on never leads back. -/
theorem ofLast_append {t : Text} (ht : t ≠ []) (u : Text) :
    ofLast t = ofLast (t ++ u) ∨ (ofLast t).Precedes (ofLast (t ++ u)) := by
  induction u using List.reverseRecOn with
  | nil => exact Or.inl (by rw [List.append_nil])
  | append_singleton u c ih =>
    have hne : t ++ u ≠ [] := List.append_ne_nil_of_left_ne_nil ht u
    rw [← List.append_assoc]
    cases hc : isBreak c with
    | true =>
      rw [ofLast_concat_of_isBreak hne hc]
      exact ih
    | false =>
      right
      have hlast : (ofLast (t ++ u)).Precedes (ofLast (t ++ u ++ [c])) :=
        precedes_ofLast_concat hne hc
      rcases ih with hsame | hless
      · rwa [← hsame] at hlast
      · exact hless.trans hlast

end Location

namespace Token

/-- Whether a token begins behind the end of another one in reading order, or at its end if it
begins with a line break, and only then. -/
structure EndsBefore (t u : Token) : Prop where
  eq_iff : t.fragment.span.last = u.place ↔ u.text.head?.any Location.isBreak = true
  precedes : t.fragment.span.last ≠ u.place → t.fragment.span.last.Precedes u.place

theorem last_behind (before : Text) {piece : Text} (hne : piece ≠ []) :
    (behind before piece).fragment.span.last = .ofLast (before ++ piece) := by
  obtain ⟨c, piece, rfl⟩ := List.exists_cons_of_ne_nil hne
  rfl

theorem endsBefore_behind (before : Text) {piece next : Text} (hne : piece ≠ [])
    (hnext : next ≠ []) : (behind before piece).EndsBefore (behind (before ++ piece) next) := by
  obtain ⟨c, next, rfl⟩ := List.exists_cons_of_ne_nil hnext
  have hread : before ++ piece ≠ [] := List.append_ne_nil_of_right_ne_nil before hne
  have hplace : (behind (before ++ piece) (c :: next)).place = .ofLast (before ++ piece ++ [c]) :=
    rfl
  have hlast := last_behind before hne
  have hhead : (behind (before ++ piece) (c :: next)).text.head?.any Location.isBreak =
      Location.isBreak c := by
    rw [text_behind, List.head?_cons, Option.any_some]
  cases hc : Location.isBreak c with
  | true =>
    have hsame := Location.ofLast_concat_of_isBreak hread hc
    refine ⟨?_, ?_⟩ <;> rw [hplace, hlast, hsame]
    · exact iff_of_true rfl (hhead.trans hc)
    · exact fun hdiffer => absurd rfl hdiffer
  | false =>
    have hless := Location.precedes_ofLast_concat hread hc
    refine ⟨?_, ?_⟩ <;> rw [hplace, hlast]
    · exact iff_of_false hless.ne (by rw [hhead, hc]; exact Bool.false_ne_true)
    · exact fun _ => hless

theorem Successive.endsBefore {window : Nat} {before : Text} {front back : List Token}
    {t u : Token} (h : Successive window before (front ++ t :: u :: back)) : t.EndsBefore u := by
  obtain ⟨ht, htext, -, hu, hutext, -⟩ := h.append
  rw [ht, hu]
  exact endsBefore_behind _ htext hutext

end Token

namespace Source

structure LocatesByCounting (s : Source) : Prop where
  known {front back : Text} {c : Char} : s.text = front ++ c :: back →
    s.locationAt front.byteCount =
      ⟨1 + Location.lineStarts (front ++ [c]), Location.columns (front ++ [c])⟩
  /-- Where no character begins there is no location. -/
  unknown {offset : Nat} :
    (∀ (front : Text) c back, s.text = front ++ c :: back → front.byteCount ≠ offset) →
      s.locationAt offset = .unknown
  ordered {front back front' back' : Text} {c c' : Char} : s.text = front ++ c :: back →
    s.text = front' ++ c' :: back' → front.byteCount ≤ front'.byteCount →
      s.locationAt front.byteCount = s.locationAt front'.byteCount ∨
        (s.locationAt front.byteCount).Precedes (s.locationAt front'.byteCount)
  distinct {front back front' back' : Text} {c c' : Char} : s.text = front ++ c :: back →
    s.text = front' ++ c' :: back' → Location.isBreak c = false → Location.isBreak c' = false →
      s.locationAt front.byteCount = s.locationAt front'.byteCount → front = front'
  tokens (limits : Limits) {front back : List Token} {t u : Token} :
    (Token.lex limits s).tokens = front ++ t :: u :: back → t.EndsBefore u

theorem locatesByCounting (s : Source) : s.LocatesByCounting where
  known htext := by
    rw [locationAt_byteCount htext, Location.ofLast_eq_count]
    exact List.append_ne_nil_of_right_ne_nil _ (List.cons_ne_nil _ [])
  unknown hno := Location.ofOffset_eq_unknown hno
  ordered {front back front' back' c c'} htext htext' hle := by
    rw [locationAt_byteCount htext, locationAt_byteCount htext']
    have hfront : front <+: s.text := ⟨c :: back, htext.symm⟩
    have hfront' : front' <+: s.text := ⟨c' :: back', htext'.symm⟩
    obtain ⟨between, rfl⟩ := Text.prefix_of_byteCount_le hfront hfront' hle
    -- Both characters are counted from the first of them on.
    have hrest : c :: back = between ++ c' :: back' := by
      rw [htext, List.append_assoc] at htext'
      exact List.append_cancel_left htext'
    have hboth : [c] <+: c :: back := ⟨back, rfl⟩
    have hbehind : between ++ [c'] <+: c :: back := ⟨back', by rw [hrest, List.append_assoc]; rfl⟩
    obtain ⟨more, hmore⟩ := List.prefix_of_prefix_length_le hboth hbehind (by simp)
    rw [List.append_assoc, ← hmore, ← List.append_assoc]
    exact Location.ofLast_append (List.append_ne_nil_of_right_ne_nil _ (List.cons_ne_nil c [])) more
  distinct htext htext' hc hc' hsame := by
    rw [locationAt_byteCount htext, locationAt_byteCount htext'] at hsame
    exact Location.front_eq_of_ofLast_eq (htext.symm.trans htext') hc hc' hsame
  tokens limits {front back t u} htokens := by
    have hsuccessive := Token.lexWithin_successive limits limits.maxLoops s
    rw [← Token.lex, htokens] at hsuccessive
    exact hsuccessive.endsBefore

end Source

end Mustache
