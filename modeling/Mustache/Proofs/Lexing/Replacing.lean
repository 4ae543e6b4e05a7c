import Mustache.Proofs.Columns
import Mustache.Proofs.Lexing.Cutting
import Mustache.Proofs.Lexing.Partition

namespace Mustache

namespace Token

open Scan

theorem opensTag_braces {t : Text} (ht : t ≠ []) (u v : Text) :
    opensTag (t ++ '{' :: '{' :: u) = opensTag (t ++ '{' :: '{' :: v) := by
  have hlength : 2 ≤ (t ++ ['{']).length := by
    have hpositive := List.length_pos_iff.2 ht
    rw [List.length_append, List.length_singleton]
    omega
  have hfirst (w : Text) : opensTag (t ++ '{' :: '{' :: w) = opensTag (t ++ ['{']) := by
    rw [List.append_cons, opensTag_append hlength]
  rw [hfirst, hfirst]

/-- What stands behind opening braces has no part in where the first ones are. -/
theorem untilOpening_braces (t u v : Text) :
    untilOpening (t ++ '{' :: '{' :: u) = untilOpening (t ++ '{' :: '{' :: v) := by
  induction t with
  | nil => rfl
  | cons c t ih =>
    have hopen := opensTag_braces (List.cons_ne_nil c t) u v
    rw [List.cons_append, List.cons_append] at hopen
    rw [List.cons_append, List.cons_append, untilOpening, untilOpening, hopen, ih]

theorem untilOpening_ne_self {t : Text} (h : ['{', '{'] <:+: t) : untilOpening t ≠ t := by
  intro hall
  obtain ⟨rest, -, hplain, -⟩ := untilOpening_spec t
  rw [hall] at hplain
  exact not_infix_of_noTagIn hplain h

theorem next?_braces {window : Nat} {t u v piece : Text} (ht : t ≠ []) (hpiece : piece <+: t)
    (h : next? window (t ++ '{' :: '{' :: u) = some piece) :
    next? window (t ++ '{' :: '{' :: v) = some piece := by
  have hpart (w : Text) : untilOpening (t ++ '{' :: '{' :: w) ≠ t ++ '{' :: '{' :: w :=
    untilOpening_ne_self ⟨t, w, by simp⟩
  rw [next?] at h ⊢
  rw [opensTag_braces ht v u]
  cases hopen : opensTag (t ++ '{' :: '{' :: u) with
  | true =>
    rw [hopen, if_pos rfl] at h
    obtain ⟨behind, rfl⟩ := hpiece
    have hhead : (behind ++ '{' :: '{' :: v).head? = (behind ++ '{' :: '{' :: u).head? := by
      cases behind <;> rfl
    rw [List.append_assoc] at h ⊢
    exact throughClosing?_congr h fun hbrace => hhead ▸ hbrace
  | false =>
    rw [hopen, if_neg Bool.false_ne_true, if_neg (fun hfull => hpart u hfull.1)] at h
    rw [if_neg Bool.false_ne_true, if_neg (fun hfull => hpart v hfull.1), untilOpening_braces t v u]
    exact h

/-- So it is wherever the window ends behind the piece. -/
theorem next?_takeBytes_braces {window : Nat} {t u v piece : Text} (ht : t ≠ [])
    (hpiece : piece <+: t) (hu : opensTag u = true) (hv : opensTag v = true)
    (h : next? window ((t ++ u).takeBytes window) = some piece) :
    next? window ((t ++ v).takeBytes window) = some piece := by
  obtain ⟨u, rfl⟩ := opensTag_iff_begins.1 hu
  obtain ⟨v, rfl⟩ := opensTag_iff_begins.1 hv
  by_cases hshort : window ≤ (t ++ ['{']).byteCount
  · -- The window ends at the first brace at the latest.
    have hview (w : Text) :
        (t ++ (['{', '{'] ++ w)).takeBytes window = (t ++ ['{']).takeBytes window := by
      have hsplit : t ++ (['{', '{'] ++ w) = (t ++ ['{']) ++ '{' :: w := by simp
      rw [hsplit, Text.takeBytes_append_of_le hshort]
    rw [hview] at h ⊢
    exact h
  · have hbytes : (t ++ ['{', '{']).byteCount ≤ window := by
      have hone : (t ++ ['{']).byteCount = t.byteCount + 1 := Text.byteCount_append t ['{']
      have htwo : (t ++ ['{', '{']).byteCount = t.byteCount + 2 :=
        Text.byteCount_append t ['{', '{']
      omega
    have hview (w : Text) : (t ++ (['{', '{'] ++ w)).takeBytes window =
        t ++ '{' :: '{' :: Text.takeBytes (window - (t ++ ['{', '{']).byteCount) w := by
      rw [← List.append_assoc, Text.takeBytes_append hbytes, List.append_assoc]
      rfl
    rw [hview] at h ⊢
    exact next?_braces ht hpiece h

theorem place_behind_of_opensTag {u v : Text} (hu : opensTag u = true) (hv : opensTag v = true)
    (before : Text) : (behind before u).place = (behind before v).place := by
  obtain ⟨u, rfl⟩ := opensTag_iff_begins.1 hu
  obtain ⟨v, rfl⟩ := opensTag_iff_begins.1 hv
  rfl

def dropColumn (t : Token) : Text × Nat := (t.text, t.line)

theorem dropColumn_behind {before before' : Text} (h : Location.SameLine before before')
    {piece : Text} (hne : piece ≠ []) :
    (behind before piece).dropColumn = (behind before' piece).dropColumn := by
  obtain ⟨c, piece, rfl⟩ := List.exists_cons_of_ne_nil hne
  have hline : (behind before (c :: piece)).line = (behind before' (c :: piece)).line :=
    h.line_ofLast c
  rw [dropColumn, dropColumn, hline, text_behind, text_behind]

/-- Lexing goes on in the same way, whatever has been read before. -/
theorem lexWithin_sameLine (limits : Limits) (loops : Nat) {s s' : Source}
    (hafter : s'.after = s.after) (h : Location.SameLine s.before s'.before) :
    (lexWithin limits loops s').tokens.map dropColumn =
        (lexWithin limits loops s).tokens.map dropColumn ∧
      (lexWithin limits loops s').failure.map Error.dropColumn =
        (lexWithin limits loops s).failure.map Error.dropColumn := by
  -- What has been read is only asked for its last line, and both pieces go on in the same one.
  induction loops generalizing s s' with
  | zero => exact ⟨rfl, rfl⟩
  | succ loops ih =>
    by_cases hne : s.after = []
    · rw [lexWithin_nil limits loops hne, lexWithin_nil limits loops (hafter.trans hne)]
      exact ⟨rfl, rfl⟩
    · have hne' : s'.after ≠ [] := hafter ▸ hne
      cases hnext : next? limits.window (s.after.takeBytes limits.window) with
      | none =>
        rw [lexWithin_of_next?_none loops hne hnext,
          lexWithin_of_next?_none loops hne' (hafter ▸ hnext)]
        obtain ⟨c, rest, hrest⟩ := List.exists_cons_of_ne_nil hne
        have hplace (s : Source) (hs : s.after = c :: rest) :
            s.locationAt s.cursor = .ofLast (s.before ++ [c]) :=
          Source.locationAt_byteCount (congrArg (s.before ++ ·) hs)
        have hline : (s'.locationAt s'.cursor).dropColumn = (s.locationAt s.cursor).dropColumn := by
          rw [hplace s hrest, hplace s' (hafter.trans hrest)]
          exact congrArg (Location.mk · 0) (h.line_ofLast c).symm
        exact ⟨rfl, congrArg (fun place => some (Error.unclosedTag place)) hline⟩
      | some piece =>
        obtain ⟨rest, hrest, hpiece, -⟩ := of_next?_takeBytes limits.three_le_window hne hnext
        obtain ⟨htokens, hfailure⟩ := @ih ⟨s.name, s.before ++ piece, rest⟩
          ⟨s'.name, s'.before ++ piece, rest⟩ rfl (h.append piece)
        rw [lexWithin_of_next?_some loops hne hrest hnext,
          lexWithin_of_next?_some loops hne' (hafter.trans hrest) (hafter ▸ hnext)]
        refine ⟨?_, hfailure⟩
        rw [List.map_cons, List.map_cons, htokens]
        exact congrArg (· :: _) (dropColumn_behind h hpiece).symm

def Lexing.behind (front : List Token) (l : Lexing) : Lexing :=
  { l with tokens := front ++ l.tokens }

theorem Lexing.behind_behind (front more : List Token) (l : Lexing) :
    (l.behind more).behind front = l.behind (front ++ more) := by
  rw [behind, behind, behind, List.append_assoc]

theorem lexWithin_behind {limits : Limits} (loops : Nat) {s : Source} {piece rest : Text}
    (hne : s.after ≠ []) (hafter : s.after = piece ++ rest)
    (hnext : next? limits.window (s.after.takeBytes limits.window) = some piece) :
    lexWithin limits (loops + 1) s =
      (lexWithin limits loops ⟨s.name, s.before ++ piece, rest⟩).behind
        [behind s.before piece] := by
  rw [lexWithin_of_next?_some loops hne hafter hnext]
  rfl

theorem TakesFirst.lexWithin_eq {limits : Limits} {loops : Nat} {s : Source} {t : Token}
    {ts : List Token} {rest : Text} (h : TakesFirst limits loops s t ts rest) :
    lexWithin limits (loops + 1) s =
      (lexWithin limits loops ⟨s.name, s.before ++ t.text, rest⟩).behind [t] := by
  rw [lexWithin_behind loops h.after_ne_nil h.after h.look, ← h.token]

/-- The tokens in front of opening braces are the same whatever follows these. -/
theorem lexWithin_front (limits : Limits) (loops : Nat) {front back : List Token} {u v : Text}
    {s s' : Source} (hbefore : s'.before = s.before) (hafter : s.after = front.flatMap text ++ u)
    (hafter' : s'.after = front.flatMap text ++ v) (hu : opensTag u = true)
    (hv : opensTag v = true) (htokens : (lexWithin limits loops s).tokens = front ++ back) :
    ∃ loops',
      lexWithin limits loops s =
        (lexWithin limits loops' ⟨s.name, s.before ++ front.flatMap text, u⟩).behind front ∧
      lexWithin limits loops s' =
        (lexWithin limits loops' ⟨s'.name, s.before ++ front.flatMap text, v⟩).behind front := by
  induction front generalizing loops s s' with
  | nil =>
    obtain ⟨name, before, after⟩ := s
    obtain ⟨name', before', after'⟩ := s'
    obtain rfl : after = u := hafter
    obtain rfl : after' = v := hafter'
    obtain rfl : before' = before := hbefore
    rw [List.flatMap_nil, List.append_nil]
    exact ⟨loops, rfl, rfl⟩
  | cons f front ih =>
    obtain ⟨loops, rest, rfl, hfirst⟩ := of_tokens_lexWithin htokens
    rw [List.flatMap_cons, List.append_assoc] at hafter hafter'
    obtain rfl : rest = front.flatMap text ++ u :=
      List.append_cancel_left (hfirst.after.symm.trans hafter)
    -- The views differ only behind the opening braces, and the piece ends in front of these.
    have hlook : next? limits.window (s'.after.takeBytes limits.window) = some f.text := by
      have hlook := hfirst.look
      rw [hafter, ← List.append_assoc] at hlook
      rw [hafter', ← List.append_assoc]
      exact next?_takeBytes_braces (List.append_ne_nil_of_left_ne_nil hfirst.text_ne_nil _)
        (List.prefix_append _ _) hu hv hlook
    have hne : s'.after ≠ [] := by
      rw [hafter']
      exact List.append_ne_nil_of_left_ne_nil hfirst.text_ne_nil _
    obtain ⟨loops', hrest, hrest'⟩ := @ih loops
      ⟨s.name, s.before ++ f.text, front.flatMap text ++ u⟩
      ⟨s'.name, s'.before ++ f.text, front.flatMap text ++ v⟩ (by rw [hbefore]) rfl rfl hfirst.tail
    refine ⟨loops', ?_, ?_⟩
    · rw [hfirst.lexWithin_eq, hrest, Lexing.behind_behind, List.flatMap_cons, ← List.append_assoc]
      rfl
    · rw [lexWithin_behind loops hne hafter' hlook, hrest', Lexing.behind_behind, hbefore,
        ← hfirst.token, List.flatMap_cons, ← List.append_assoc]
      rfl

section

variable {limits : Limits} {loops : Nat} {front back : List Token} {t : Token} {s s' : Source}
  {v rest : Text}

theorem opensTag_append_of_opensTag {u : Text} (h : opensTag u = true) (v : Text) :
    opensTag (u ++ v) = true := by
  rw [opensTag_append (two_le_length_of_opensTag h), h]

/-- A tag among the tokens that does not fill the window ends where it does in the whole text. -/
theorem throughClosing?_of_tokens
    (htokens : (lexWithin limits loops s).tokens = front ++ t :: back)
    (hafter : s.after = front.flatMap text ++ (t.text ++ rest)) (htag : t.isLiteral = false)
    (hfit : t.text.byteCount < limits.window) :
    throughClosing? (t.text ++ rest) = some t.text := by
  have hopen := opensTag_of_isLiteral htag
  have hwhole := opensTag_append_of_opensTag hopen rest
  obtain ⟨loops', hfront, -⟩ := lexWithin_front limits loops rfl hafter hafter hwhole hwhole htokens
  rw [hfront] at htokens
  obtain ⟨_, _, -, hfirst⟩ := of_tokens_lexWithin (List.append_cancel_left htokens)
  have hhead : (Text.takeBytes (limits.window - t.text.byteCount) rest).head? = rest.head? := by
    cases rest with
    | nil => cases limits.window - t.text.byteCount <;> rfl
    | cons c rest =>
      rw [Text.takeBytes_cons (Nat.sub_pos_of_lt hfit)]
      rfl
  have hview := hfirst.look
  dsimp only at hview
  rw [Text.takeBytes_append (Nat.le_of_lt hfit), next?, opensTag_append_of_opensTag hopen,
    if_pos rfl] at hview
  exact throughClosing?_congr hview fun hbrace => hhead.trans hbrace

/-- Behind the tag the lexer remembers only how much it has read, and both tags end on the same
line, so that nothing but columns can differ. -/
theorem lexWithin_replace
    (htokens : (lexWithin limits loops s).tokens = front ++ t :: back)
    (hbefore : s'.before = s.before)
    (hafter : s.after = front.flatMap text ++ (t.text ++ rest))
    (hafter' : s'.after = front.flatMap text ++ (v ++ rest)) (htag : t.isLiteral = false)
    (hopen : opensTag v = true) (hclose : throughClosing? (v ++ rest) = some v)
    (hfit : v.byteCount ≤ limits.window)
    (hline : Location.SameLine (s.before ++ front.flatMap text ++ t.text)
      (s.before ++ front.flatMap text ++ v)) :
    ∃ t' back', (lexWithin limits loops s').tokens = front ++ t' :: back' ∧ t'.text = v ∧
      t'.place = t.place ∧ back'.map dropColumn = back.map dropColumn ∧
      (lexWithin limits loops s').failure.map Error.dropColumn =
        (lexWithin limits loops s).failure.map Error.dropColumn := by
  have hopenText := opensTag_of_isLiteral htag
  have hwhole' := opensTag_append_of_opensTag hopen rest
  obtain ⟨loops', hfront, hfront'⟩ := lexWithin_front limits loops hbefore hafter hafter'
    (opensTag_append_of_opensTag hopenText rest) hwhole' htokens
  rw [hfront] at htokens
  obtain ⟨loops, rest', rfl, hfirst⟩ := of_tokens_lexWithin (List.append_cancel_left htokens)
  obtain rfl : rest = rest' := List.append_cancel_left hfirst.after
  -- In the place of the tag its replacement is taken.
  have hreplaced : lexWithin limits (loops + 1)
      ⟨s'.name, s.before ++ front.flatMap text, v ++ rest⟩ =
        (lexWithin limits loops ⟨s'.name, s.before ++ front.flatMap text ++ v, rest⟩).behind
          [behind (s.before ++ front.flatMap text) v] := by
    apply lexWithin_behind loops _ rfl
    · exact next?_takeBytes_of_closed (Nat.le_trans (by decide) limits.three_le_window) hwhole'
        hclose hfit
    · apply List.append_ne_nil_of_left_ne_nil
      exact List.ne_nil_of_length_pos
        (Nat.lt_of_lt_of_le (by decide) (two_le_length_of_opensTag hopen))
  -- Behind the tag nothing but the columns of places is new.
  obtain ⟨hbehind, hfailure⟩ := @lexWithin_sameLine limits loops
    ⟨s.name, s.before ++ front.flatMap text ++ t.text, rest⟩
    ⟨s'.name, s.before ++ front.flatMap text ++ v, rest⟩ rfl hline
  have hplace : (behind (s.before ++ front.flatMap text) v).place = t.place := by
    rw [hfirst.token]
    exact place_behind_of_opensTag hopen hopenText _
  rw [hfront', hreplaced, hfront, hfirst.lexWithin_eq]
  refine ⟨behind (s.before ++ front.flatMap text) v, _, rfl, text_behind _ _, hplace, ?_, hfailure⟩
  exact hbehind.trans (congrArg (List.map dropColumn) hfirst.tail)

end

end Token

end Mustache
