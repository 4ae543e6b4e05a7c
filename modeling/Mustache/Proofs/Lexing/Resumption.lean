import Mustache.Proofs.Lexing.Cutting

namespace Mustache.Token

theorem length_after_read_lt {window : Nat} (hw : 3 ≤ window) {s : Source} {piece : Text}
    (hne : s.after ≠ []) (hnext : next? window (s.after.takeBytes window) = some piece) :
    (s.read piece.byteCount).2.after.length < s.after.length := by
  obtain ⟨rest, hafter, hpiece, -⟩ := of_next?_takeBytes hw hne hnext
  have hlength := List.length_pos_iff.2 hpiece
  rw [Source.after_read_byteCount hafter, hafter, List.length_append]
  omega

/-- Lexes what is left of a source, with as many looks as that takes: to the end, or to a tag that
does not end in view. -/
def lexAll (lookahead : Nat) (s : Source) : Lexing :=
  let window := Limits.window { lookahead }
  if _hne : s.after = [] then ⟨[], s, none⟩
  else
    match _hnext : next? window (s.after.takeBytes window) with
    | none => ⟨[], s, some (.unclosedTag (s.peek window).span.first)⟩
    | some piece =>
      let rest := lexAll lookahead (s.read piece.byteCount).2
      ⟨⟨(s.read piece.byteCount).1⟩ :: rest.tokens, rest.source, rest.failure⟩
termination_by s.after.length
decreasing_by exact length_after_read_lt (Limits.three_le_window _) _hne _hnext

section

variable {lookahead : Nat} {s : Source}

theorem lexAll_nil (hafter : s.after = []) : lexAll lookahead s = ⟨[], s, none⟩ := by
  rw [lexAll, dif_pos hafter]

theorem lexAll_of_next?_none (hne : s.after ≠ [])
    (hnext : next? (Limits.window { lookahead })
      (s.after.takeBytes (Limits.window { lookahead })) = none) :
    lexAll lookahead s = ⟨[], s, some (.unclosedTag (s.locationAt s.cursor))⟩ := by
  have hwindow : 0 < Limits.window { lookahead } :=
    Nat.lt_of_lt_of_le (by decide) (Limits.three_le_window { lookahead })
  rw [lexAll, dif_neg hne]
  dsimp only
  split
  next => rw [Source.first_peek hwindow hne]
  next h => cases hnext.symm.trans h

theorem lexAll_of_next?_some {piece rest : Text} (hne : s.after ≠ [])
    (hafter : s.after = piece ++ rest)
    (hnext : next? (Limits.window { lookahead })
      (s.after.takeBytes (Limits.window { lookahead })) = some piece) :
    lexAll lookahead s =
      let l := lexAll lookahead ⟨s.name, s.before ++ piece, rest⟩
      ⟨⟨Source.fragmentAfter s.before piece⟩ :: l.tokens, l.source, l.failure⟩ := by
  rw [lexAll, dif_neg hne]
  dsimp only
  split
  next h => cases hnext.symm.trans h
  next piece' h =>
    obtain rfl : piece = piece' := Option.some.inj (hnext.symm.trans h)
    rw [s.read_byteCount hafter]

end

/-- Whether lexing ended where it has to: at the end of the source, or in front of a tag that does
not end in view, which it names by its place. -/
def Lexing.Ends (l : Lexing) : Prop :=
  l.failure = none ∧ l.source.after = [] ∨
    opensTag l.source.after = true ∧
      l.failure = some (.unclosedTag (l.source.locationAt l.source.cursor))

theorem lexAll_spec (lookahead : Nat) (s : Source) :
    (lexAll lookahead s).Ends ∧ (lexAll lookahead s).tokens.length ≤ s.after.byteCount := by
  have hw := Limits.three_le_window { lookahead }
  have hw' : 2 ≤ Limits.window { lookahead } := Nat.le_trans (by decide) hw
  -- By induction on what is left, of which every piece takes a part.
  generalize hlength : s.after.length = n
  induction n using Nat.strongRecOn generalizing s with
  | ind n ih =>
    by_cases hne : s.after = []
    · rw [lexAll_nil hne]
      exact ⟨Or.inl ⟨rfl, hne⟩, Nat.zero_le _⟩
    · cases hnext : next? (Limits.window { lookahead })
          (s.after.takeBytes (Limits.window { lookahead })) with
      | none =>
        have hopen : opensTag s.after = true := by
          rw [← Bool.not_eq_false]
          intro hplain
          obtain ⟨piece, -, hpiece, -⟩ := next?_takeBytes_of_plain hw hne hplain
          cases hnext.symm.trans hpiece
        rw [lexAll_of_next?_none hne hnext]
        exact ⟨Or.inr ⟨hopen, rfl⟩, Nat.zero_le _⟩
      | some piece =>
        obtain ⟨rest, hafter, hpiece, -⟩ := of_next?_takeBytes hw hne hnext
        have hbytes : piece.byteCount ≠ 0 := mt Text.byteCount_eq_zero_iff.1 hpiece
        have hshorter : rest.length < n := by
          have hpositive := List.length_pos_iff.2 hpiece
          rw [← hlength, hafter, List.length_append]
          omega
        obtain ⟨hends, hcount⟩ := ih _ hshorter ⟨s.name, s.before ++ piece, rest⟩ rfl
        rw [lexAll_of_next?_some hne hafter hnext]
        refine ⟨hends, ?_⟩
        rw [hafter, Text.byteCount_append, List.length_cons]
        dsimp only at hcount
        omega

/-- A lexing that broke off behind so many of the tokens that a lexing of the source without a limit
has: it has read these tokens and nothing else, and a lexing of what it left, again without a limit,
has the others and ends in the same way. -/
structure Lexing.BreaksOff (lookahead count : Nat) (s : Source) (l : Lexing) : Prop where
  tokens : l.tokens = (lexAll lookahead s).tokens.take count
  text : l.source.text = s.text
  read : l.source.before = s.before ++ l.tokens.flatMap Token.text
  resumed : lexAll lookahead l.source =
    { lexAll lookahead s with tokens := (lexAll lookahead s).tokens.drop count }

/-- With more looks than there are tokens a limit is none. -/
theorem lexWithin_eq_lexAll (limits : Limits) (loops : Nat) (s : Source)
    (h : (lexAll limits.lookahead s).tokens.length < loops) :
    lexWithin limits loops s = lexAll limits.lookahead s := by
  induction loops generalizing s with
  | zero => exact absurd h (Nat.not_lt_zero _)
  | succ loops ih =>
    by_cases hne : s.after = []
    · rw [lexWithin_nil limits loops hne, lexAll_nil hne]
    · cases hnext : next? limits.window (s.after.takeBytes limits.window) with
      | none => rw [lexWithin_of_next?_none loops hne hnext, lexAll_of_next?_none hne hnext]
      | some piece =>
        obtain ⟨rest, hafter, -⟩ := of_next?_takeBytes limits.three_le_window hne hnext
        have hall := lexAll_of_next?_some hne hafter hnext
        rw [hall] at h ⊢
        rw [lexWithin_of_next?_some loops hne hafter hnext, ih _ (Nat.lt_of_succ_lt_succ h)]

/-- With fewer looks lexing breaks off when they are used up, one token having been read at each. -/
theorem lexWithin_breaksOff (limits : Limits) (loops : Nat) (s : Source)
    (h : loops ≤ (lexAll limits.lookahead s).tokens.length) :
    (lexWithin limits loops s).failure = some (.loopLimit limits.maxLoops) ∧
      (lexWithin limits loops s).BreaksOff limits.lookahead loops s := by
  induction loops generalizing s with
  | zero =>
    refine ⟨rfl, rfl, rfl, ?_, rfl⟩
    exact (List.append_nil s.before).symm
  | succ loops ih =>
    by_cases hne : s.after = []
    · rw [lexAll_nil hne] at h
      exact absurd h (Nat.not_succ_le_zero loops)
    · cases hnext : next? limits.window (s.after.takeBytes limits.window) with
      | none =>
        rw [lexAll_of_next?_none hne hnext] at h
        exact absurd h (Nat.not_succ_le_zero loops)
      | some piece =>
        obtain ⟨rest, hafter, -⟩ := of_next?_takeBytes limits.three_le_window hne hnext
        have hall := lexAll_of_next?_some hne hafter hnext
        rw [hall] at h
        obtain ⟨hfailure, hrest⟩ := ih _ (Nat.le_of_succ_le_succ h)
        have htext := text_source_lexWithin limits (loops + 1) s
        rw [lexWithin_of_next?_some loops hne hafter hnext] at htext ⊢
        refine ⟨hfailure, ?_, htext, ?_, ?_⟩
        · rw [hall]
          exact congrArg _ hrest.tokens
        · have hpiece : text ⟨Source.fragmentAfter s.before piece⟩ = piece :=
            Source.text_fragmentAfter s.before piece
          rw [List.flatMap_cons, hpiece, ← List.append_assoc]
          exact hrest.read
        · rw [hall]
          exact hrest.resumed

/-- A limit on looks only decides how far lexing gets: what it leaves is cut into the tokens that
are missing, at the same places. -/
theorem lex_resumable (maxLoops lookahead : Nat) (s : Source) :
    let all := lexAll lookahead s
    let limited := lex ⟨maxLoops, lookahead⟩ s
    all.Ends ∧ all.tokens.length ≤ s.after.byteCount ∧
      (s.after.byteCount < maxLoops → limited = all) ∧
      (all.tokens.length < maxLoops → limited = all) ∧
      (maxLoops ≤ all.tokens.length →
        limited.failure = some (.loopLimit maxLoops) ∧
          limited.BreaksOff lookahead maxLoops s) := by
  intro all limited
  obtain ⟨hends, hcount⟩ := lexAll_spec lookahead s
  have henough : all.tokens.length < maxLoops → limited = all :=
    lexWithin_eq_lexAll ⟨maxLoops, lookahead⟩ maxLoops s
  refine ⟨hends, hcount, fun hbytes => ?_, henough, ?_⟩
  · exact henough (Nat.lt_of_le_of_lt hcount hbytes)
  · exact lexWithin_breaksOff ⟨maxLoops, lookahead⟩ maxLoops s

end Mustache.Token
