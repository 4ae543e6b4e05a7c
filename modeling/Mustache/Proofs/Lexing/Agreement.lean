import Mustache.Proofs.Lexing.Window

namespace Mustache.Token

open Scan

theorem view_ne_nil {limits : Limits} {t : Text} (hne : t ≠ []) :
    (t.takeBytes limits.window).isEmpty = false := by
  have hwindow := limits.three_le_window
  rw [List.isEmpty_eq_false_iff, ne_eq, Text.takeBytes_eq_nil_iff (by omega)]
  exact hne

theorem lexWithin_nil (limits : Limits) (loops : Nat) {s : Source} (hafter : s.after = []) :
    lexWithin limits (loops + 1) s = ⟨[], s, none⟩ := by
  have hview : s.after.takeBytes limits.window = [] := by
    rw [hafter]
    cases limits.window <;> rfl
  rw [lexWithin, hview]
  rfl

theorem lexWithin_of_next?_none {limits : Limits} (loops : Nat) {s : Source} (hne : s.after ≠ [])
    (hnext : next? limits.window (s.after.takeBytes limits.window) = none) :
    lexWithin limits (loops + 1) s = ⟨[], s, some (.unclosedTag (s.locationAt s.cursor))⟩ := by
  have hwindow : 0 < limits.window := Nat.lt_of_lt_of_le (by decide) limits.three_le_window
  rw [lexWithin, view_ne_nil hne, if_neg Bool.false_ne_true, hnext]
  dsimp only
  rw [Source.first_peek hwindow hne]

theorem lexWithin_of_next?_some {limits : Limits} (loops : Nat) {s : Source} {piece rest : Text}
    (hne : s.after ≠ []) (hafter : s.after = piece ++ rest)
    (hnext : next? limits.window (s.after.takeBytes limits.window) = some piece) :
    lexWithin limits (loops + 1) s =
      let l := lexWithin limits loops ⟨s.name, s.before ++ piece, rest⟩
      ⟨⟨Source.fragmentAfter s.before piece⟩ :: l.tokens, l.source, l.failure⟩ := by
  rw [lexWithin, view_ne_nil hne, if_neg Bool.false_ne_true, hnext]
  dsimp only
  rw [s.read_byteCount hafter]

theorem text_source_lexWithin (limits : Limits) (loops : Nat) (s : Source) :
    (lexWithin limits loops s).source.text = s.text := by
  induction loops generalizing s with
  | zero => rfl
  | succ loops ih =>
    rw [lexWithin]
    dsimp only
    split
    · rfl
    · split
      · rfl
      next piece _ => exact (ih _).trans (s.text_read piece.byteCount)

theorem text_piece (t : Token) : t.piece.text = t.text := by
  unfold piece
  split <;> rfl

structure Lexing.Follows (l : Lexing) (s : Source) (scan : Scan) : Prop where
  pieces : Piece.merge (l.tokens.map piece) = scan.pieces
  source : l.source = ⟨s.name, s.before ++ scan.read, scan.unclosed.getD []⟩
  failure : l.failure =
    scan.unclosed.map fun _ => .unclosedTag (s.locationAt (s.before ++ scan.read).byteCount)

theorem Lexing.follows_end {s : Source} (hafter : s.after = []) :
    Follows ⟨[], s, none⟩ s ⟨[], none⟩ := by
  refine ⟨rfl, ?_, rfl⟩
  rw [read_nil, List.append_nil, Option.getD_none, ← hafter]

theorem Lexing.follows_unclosed (s : Source) :
    Follows ⟨[], s, some (.unclosedTag (s.locationAt s.cursor))⟩ s ⟨[], some s.after⟩ := by
  refine ⟨rfl, ?_, ?_⟩
  · rw [read_nil, List.append_nil, Option.getD_some]
  · rw [read_nil, List.append_nil]
    rfl

theorem Lexing.Follows.cons {l : Lexing} {s : Source} {scan : Scan} {t : Token} {front rest : Text}
    (htext : t.text = front) (hafter : s.after = front ++ rest)
    (h : l.Follows ⟨s.name, s.before ++ front, rest⟩ scan) :
    Follows ⟨t :: l.tokens, l.source, l.failure⟩ s (scan.cons t.piece) := by
  have hread : s.before ++ (scan.cons t.piece).read = (s.before ++ front) ++ scan.read := by
    rw [read_cons, text_piece, htext, List.append_assoc]
  have hwhole : Source.text ⟨s.name, s.before ++ front, rest⟩ = s.text := by
    rw [Source.text, Source.text, hafter, List.append_assoc]
  constructor
  · exact congrArg (Piece.cons t.piece) h.pieces
  · rw [hread]
    exact h.source
  · rw [hread, Source.locationAt, ← hwhole]
    exact h.failure

/-- Every lexing follows the scan: each look finds what the scan of the rest begins with. -/
theorem lexWithin_follows (limits : Limits) (loops : Nat) (s : Source)
    (hloops : s.after.byteCount < loops)
    (hfit : ∀ t ∈ (ofText s.after).tags, t.byteCount ≤ limits.window) :
    (lexWithin limits loops s).Follows s (ofText s.after) := by
  induction loops generalizing s with
  | zero => exact absurd hloops (Nat.not_lt_zero _)
  | succ loops ih =>
    by_cases hne : s.after = []
    · rw [lexWithin_nil limits loops hne, hne, ofText_nil]
      exact Lexing.follows_end hne
    · obtain ⟨hnext, hscan⟩ | ⟨piece, rest, hnext, hafter, hpiece, hscan⟩ :=
        next?_takeBytes limits.three_le_window hne hfit
      · rw [lexWithin_of_next?_none loops hne hnext, hscan]
        exact Lexing.follows_unclosed s
      · have htext := Source.text_fragmentAfter s.before piece
        have hpieces := hscan ⟨Source.fragmentAfter s.before piece⟩ htext
        rw [lexWithin_of_next?_some loops hne hafter hnext, hpieces]
        apply Lexing.Follows.cons htext hafter
        apply ih
        · -- The piece has a byte at least: the looks that are left suffice for the rest.
          have hbytes : piece.byteCount ≠ 0 := by
            rw [ne_eq, Text.byteCount_eq_zero_iff]
            exact hpiece
          rw [hafter, Text.byteCount_append] at hloops
          dsimp only
          omega
        · intro t ht
          apply hfit
          rw [mem_tags, hpieces]
          exact Piece.mem_cons_of_mem (mem_tags.1 ht)

/-- A window may cut plain text, but nothing else can be seen of it as long as tags fit. -/
theorem lex_eq_scan (limits : Limits) (s : Source) (hloops : s.after.byteCount < limits.maxLoops)
    (hfit : ∀ t ∈ (ofText s.after).tags, t.byteCount ≤ limits.window) :
    match (ofText s.after).unclosed with
    | none => ∃ tokens, (lex limits s).result = .ok tokens ∧
        Piece.merge (tokens.map piece) = (ofText s.after).pieces
    | some opened => ∃ read, s.after = read ++ opened ∧
        (lex limits s).result = .error (.unclosedTag (s.locationAt (s.before ++ read).byteCount)) ∧
        (lex limits s).source = ⟨s.name, s.before ++ read, opened⟩ := by
  have hlex := lexWithin_follows limits limits.maxLoops s hloops hfit
  rw [← lex] at hlex
  have hread := read_append_unclosed s.after
  have hfailure := hlex.failure
  have hsource := hlex.source
  cases hend : (ofText s.after).unclosed with
  | none =>
    rw [hend, Option.map_none] at hfailure
    refine ⟨(lex limits s).tokens, ?_, hlex.pieces⟩
    rw [Lexing.result, hfailure]
  | some opened =>
    rw [hend, Option.map_some] at hfailure
    rw [hend, Option.getD_some] at hread hsource
    refine ⟨(ofText s.after).read, hread.symm, ?_, hsource⟩
    rw [Lexing.result, hfailure]

/-- A tag in three braces that fills the window, a run that a window cuts in front of a brace, and
braces that are not closed. -/
def unclosedSource : Source :=
  ⟨none, ['é'], ['a', '{', 'é', '\n', '{', '{', '{', 'x', '}', '}', '}', '{', 'b', '{', '{', 'y']⟩

theorem ofText_unclosedSource : ofText unclosedSource.after =
    ⟨[.run ['a', '{', 'é', '\n'], .tag ['{', '{', '{', 'x', '}', '}', '}'], .run ['{', 'b']],
      some ['{', '{', 'y']⟩ := by
  decide +kernel

theorem lex_unclosedSource :
    unclosedSource.after.byteCount < 20 ∧
      (∀ t ∈ (ofText unclosedSource.after).tags, t.byteCount ≤ 7) ∧
      (lex ⟨20, 7⟩ unclosedSource).result = .error (.unclosedTag ⟨2, 10⟩) := by
  have hloops : unclosedSource.after.byteCount < 20 := by decide
  have hfit : ∀ t ∈ (ofText unclosedSource.after).tags, t.byteCount ≤ 7 := by decide +kernel
  refine ⟨hloops, hfit, ?_⟩
  have h := lex_eq_scan ⟨20, 7⟩ unclosedSource hloops hfit
  rw [ofText_unclosedSource] at h
  obtain ⟨read, hread, hresult, -⟩ := h
  have hfront : ['a', '{', 'é', '\n', '{', '{', '{', 'x', '}', '}', '}', '{', 'b'] = read :=
    List.append_cancel_right hread
  rw [hresult, ← hfront]
  rfl

end Mustache.Token
