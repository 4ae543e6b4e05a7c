import Mustache.Proofs.Lexing.Agreement

namespace Mustache

namespace Token

open Scan

theorem two_le_length_of_opensTag {t : Text} (h : opensTag t = true) : 2 ≤ t.length :=
  (opensTag_iff_begins.1 h).length_le

/-- Where a window cuts plain text, the piece fills it, up to a last brace that is left. -/
theorem le_byteCount_of_cut {window : Nat} (hw : 2 ≤ window) {piece rest : Text}
    (hopen : opensTag (piece ++ rest) = false)
    (hnext : next? window ((piece ++ rest).takeBytes window) = some piece) (hne : rest ≠ [])
    (hplain : opensTag rest = false) : window ≤ piece.byteCount + 1 := by
  have htext := Text.takeBytes_append_dropBytes window (piece ++ rest)
  have hfull := Text.le_byteCount_takeBytes window (piece ++ rest)
  rw [← opensTag_takeBytes hw] at hopen
  generalize (piece ++ rest).takeBytes window = view at *
  generalize (piece ++ rest).dropBytes window = unseen at *
  rw [next?, hopen, if_neg Bool.false_ne_true] at hnext
  split at hnext
  next hheld =>
    obtain ⟨front, rfl⟩ := List.getLast?_eq_some_iff.1 hheld.2.2
    rw [List.dropLast_concat, Option.some.injEq] at hnext
    have hbytes := hheld.2.1
    rw [Text.byteCount_append, hnext] at hbytes
    exact hbytes
  next =>
    obtain ⟨seen, hsplit, -, hseen⟩ := untilOpening_spec view
    rw [Option.some.inj hnext] at hsplit
    rw [hsplit, List.append_assoc] at htext
    have hrest : seen ++ unseen = rest := List.append_cancel_left htext
    rcases hseen with rfl | hseen
    · rw [List.append_nil] at hsplit
      rcases hfull with hbytes | hall
      · rw [hsplit] at hbytes
        exact Nat.le_succ_of_le hbytes
      · -- A view of all the text leaves nothing behind the piece.
        rw [hsplit] at hall
        exact absurd (List.self_eq_append_right.1 hall) hne
    · rw [← hrest, opensTag_append (two_le_length_of_opensTag hseen), hseen] at hplain
      cases hplain

/-- One look takes a piece from the front of the text: a tag where one begins, and plain text
elsewhere, which is cut only where it fills the window. -/
theorem of_next?_takeBytes {window : Nat} (hw : 3 ≤ window) {t piece : Text} (hne : t ≠ [])
    (hnext : next? window (t.takeBytes window) = some piece) :
    ∃ rest, t = piece ++ rest ∧ piece ≠ [] ∧ opensTag piece = opensTag t ∧
      (opensTag t = false → rest ≠ [] → opensTag rest = false → window ≤ piece.byteCount + 1) := by
  have hw' : 2 ≤ window := Nat.le_trans (by decide) hw
  cases hopen : opensTag t with
  | true =>
    have hclose := hnext
    rw [next?, opensTag_takeBytes hw', if_pos hopen] at hclose
    have hlen := two_le_length_of_throughClosing? hclose
    obtain ⟨rest, hrest⟩ : piece <+: t :=
      (prefix_of_throughClosing? hclose).trans (Text.takeBytes_prefix window t)
    refine ⟨rest, hrest.symm, ?_, ?_, fun h => absurd h (by decide)⟩
    · rintro rfl
      exact absurd hlen (by decide)
    · rw [← opensTag_append hlen rest, hrest, hopen]
  | false =>
    obtain ⟨taken, rest, htaken, rfl, hpiece, hplain⟩ := next?_takeBytes_of_plain hw hne hopen
    obtain rfl : taken = piece := Option.some.inj (htaken.symm.trans hnext)
    exact ⟨rest, rfl, hpiece, opensTag_of_noTagIn hpiece hplain,
      fun _ => le_byteCount_of_cut hw' hopen hnext⟩

def behind (before piece : Text) : Token := ⟨Source.fragmentAfter before piece⟩

@[simp] theorem text_behind (before piece : Text) : (behind before piece).text = piece :=
  Source.text_fragmentAfter before piece

/-- Whether tokens stand one behind the other after a text, plain text being cut only where it
fills a window. -/
def Successive (window : Nat) : Text → List Token → Prop
  | _, [] => True
  | before, t :: ts =>
    t = behind before t.text ∧ t.text ≠ [] ∧
      (t.isLiteral = true → ∀ u ∈ ts.head?, u.isLiteral = true → window ≤ t.text.byteCount + 1) ∧
      Successive window (before ++ t.text) ts

/-- How the tokens of a lexing begin: a look takes the first one and leaves a rest, whose tokens are
the others. -/
structure TakesFirst (limits : Limits) (loops : Nat) (s : Source) (t : Token) (ts : List Token)
    (rest : Text) : Prop where
  after : s.after = t.text ++ rest
  text_ne_nil : t.text ≠ []
  look : next? limits.window (s.after.takeBytes limits.window) = some t.text
  token : t = behind s.before t.text
  tail : (lexWithin limits loops ⟨s.name, s.before ++ t.text, rest⟩).tokens = ts

theorem TakesFirst.after_ne_nil {limits : Limits} {loops : Nat} {s : Source} {t : Token}
    {ts : List Token} {rest : Text} (h : TakesFirst limits loops s t ts rest) : s.after ≠ [] := by
  rw [h.after]
  exact List.append_ne_nil_of_left_ne_nil h.text_ne_nil rest

theorem of_tokens_lexWithin {limits : Limits} {loops : Nat} {s : Source} {t : Token}
    {ts : List Token} (h : (lexWithin limits loops s).tokens = t :: ts) :
    ∃ loops' rest, loops = loops' + 1 ∧ TakesFirst limits loops' s t ts rest := by
  cases loops with
  | zero => cases h
  | succ loops =>
    by_cases hne : s.after = []
    · rw [lexWithin_nil limits loops hne] at h
      cases h
    · cases hnext : next? limits.window (s.after.takeBytes limits.window) with
      | none =>
        rw [lexWithin_of_next?_none loops hne hnext] at h
        cases h
      | some piece =>
        obtain ⟨rest, hafter, hpiece, -⟩ := of_next?_takeBytes limits.three_le_window hne hnext
        rw [lexWithin_of_next?_some loops hne hafter hnext] at h
        obtain ⟨rfl, htail⟩ := List.cons.inj h
        have htext : piece = text ⟨Source.fragmentAfter s.before piece⟩ := (text_behind _ _).symm
        exact ⟨loops, rest, rfl, {
          after := htext ▸ hafter
          text_ne_nil := htext ▸ hpiece
          look := hnext.trans (congrArg some htext)
          token := congrArg (behind s.before) htext
          tail := htext ▸ htail }⟩

theorem tokens_lexWithin (limits : Limits) (loops : Nat) (s : Source) :
    (lexWithin limits loops s).tokens = [] ∨ ∃ piece rest loops',
      (lexWithin limits loops s).tokens = behind s.before piece ::
          (lexWithin limits loops' ⟨s.name, s.before ++ piece, rest⟩).tokens ∧
        loops = loops' + 1 ∧ s.after = piece ++ rest ∧ piece ≠ [] ∧
        opensTag piece = opensTag s.after ∧
        (opensTag s.after = false → rest ≠ [] → opensTag rest = false →
          limits.window ≤ piece.byteCount + 1) := by
  cases htokens : (lexWithin limits loops s).tokens with
  | nil => exact Or.inl rfl
  | cons t ts =>
    obtain ⟨loops', rest, hloops, hfirst⟩ := of_tokens_lexWithin htokens
    obtain ⟨rest', hafter, -, hopen, hcut⟩ :=
      of_next?_takeBytes limits.three_le_window hfirst.after_ne_nil hfirst.look
    obtain rfl : rest = rest' := List.append_cancel_left (hfirst.after.symm.trans hafter)
    refine Or.inr ⟨t.text, rest, loops', ?_, hloops, hafter, hfirst.text_ne_nil, hopen, hcut⟩
    rw [← hfirst.token, hfirst.tail]

theorem opensTag_of_head_lexWithin {limits : Limits} {loops : Nat} {s : Source} {t : Token}
    (h : t ∈ (lexWithin limits loops s).tokens.head?) (hliteral : t.isLiteral = true) :
    s.after ≠ [] ∧ opensTag s.after = false := by
  rcases tokens_lexWithin limits loops s with hnone |
    ⟨piece, rest, loops', htokens, -, hafter, hpiece, hopen, -⟩
  · rw [hnone] at h
    cases h
  · rw [htokens] at h
    cases h
    rw [isLiteral_eq, text_behind, hopen] at hliteral
    refine ⟨?_, Bool.not_eq_true' _ ▸ hliteral⟩
    rw [hafter]
    exact List.append_ne_nil_of_left_ne_nil hpiece rest

theorem lexWithin_successive (limits : Limits) (loops : Nat) (s : Source) :
    Successive limits.window s.before (lexWithin limits loops s).tokens := by
  induction loops generalizing s with
  | zero => trivial
  | succ loops ih =>
    rcases tokens_lexWithin limits (loops + 1) s with hnone |
      ⟨piece, rest, loops', htokens, hloops, hafter, hpiece, hopen, hcut⟩
    · rw [hnone]
      trivial
    · obtain rfl : loops = loops' := Nat.succ.inj hloops
      rw [htokens]
      refine ⟨?_, ?_, ?_, ?_⟩
      · rw [text_behind]
      · rw [text_behind]
        exact hpiece
      · rw [isLiteral_eq, text_behind, hopen, Bool.not_eq_true']
        intro hplain u hu hliteral
        obtain ⟨hrest, hplain'⟩ := opensTag_of_head_lexWithin hu hliteral
        exact hcut hplain hrest hplain'
      · rw [text_behind]
        exact ih ⟨s.name, s.before ++ piece, rest⟩

theorem Successive.append {window : Nat} {before : Text} {front rest : List Token}
    (h : Successive window before (front ++ rest)) :
    Successive window (before ++ front.flatMap text) rest := by
  induction front generalizing before with
  | nil => simpa using h
  | cons t front ih =>
    have hrest := ih h.2.2.2
    rwa [List.append_assoc] at hrest

end Token

namespace Piece

theorem merge_cons (p : Piece) (ps : List Piece) : merge (p :: ps) = cons p (merge ps) := rfl

theorem cons_ne_nil (p : Piece) (ps : List Piece) : cons p ps ≠ [] := by
  unfold cons
  split <;> exact List.cons_ne_nil _ _

theorem eq_nil_of_merge {ps : List Piece} (h : merge ps = []) : ps = [] := by
  cases ps with
  | nil => rfl
  | cons p ps => exact absurd h (cons_ne_nil p (merge ps))

/-- After merging, what follows a run is a tag. -/
theorem head?_of_merge_eq_run {ps qs : List Piece} {r : Text} (h : merge ps = .run r :: qs)
    (u : Text) : qs.head? ≠ some (.run u) := by
  induction ps generalizing r qs with
  | nil => cases h
  | cons p ps ih =>
    rw [merge_cons] at h
    cases p with
    | tag t => cases h
    | run t =>
      cases hmerge : merge ps with
      | nil =>
        rw [hmerge] at h
        cases h
        exact nofun
      | cons q rest =>
        rw [hmerge] at h
        cases q with
        | tag v =>
          cases h
          exact nofun
        | run v =>
          cases h
          exact ih hmerge

/-- The tokens of a run are plain texts that make it up. -/
theorem of_merge_eq_run {tokens : List Token} {r : Text} {ps : List Piece}
    (h : merge (tokens.map Token.piece) = .run r :: ps) :
    ∃ front rest, tokens = front ++ rest ∧ front ≠ [] ∧ (∀ t ∈ front, t.isLiteral = true) ∧
      front.flatMap Token.text = r ∧ merge (rest.map Token.piece) = ps := by
  -- A literal in front joins the run that the rest begins with, or is a run by itself.
  induction tokens generalizing r with
  | nil => cases h
  | cons t tokens ih =>
    rw [List.map_cons, merge_cons] at h
    cases hliteral : t.isLiteral with
    | false =>
      rw [Token.piece_of_not_isLiteral hliteral] at h
      cases h
    | true =>
      rw [Token.piece_of_isLiteral hliteral] at h
      have hsingle : ∀ u ∈ [t], u.isLiteral = true := by simpa using hliteral
      cases hmerge : merge (tokens.map Token.piece) with
      | nil =>
        rw [hmerge] at h
        cases h
        exact ⟨[t], tokens, rfl, List.cons_ne_nil t [], hsingle, by simp, hmerge⟩
      | cons q rest =>
        rw [hmerge] at h
        cases q with
        | tag v =>
          cases h
          exact ⟨[t], tokens, rfl, List.cons_ne_nil t [], hsingle, by simp, hmerge⟩
        | run v =>
          cases h
          obtain ⟨front, rest', rfl, -, hfront, rfl, hrest⟩ := ih hmerge
          refine ⟨t :: front, rest', rfl, List.cons_ne_nil t front, ?_, rfl, hrest⟩
          exact List.forall_mem_cons.2 ⟨hliteral, hfront⟩

theorem of_merge_eq_tag {tokens : List Token} {u : Text} {ps : List Piece}
    (h : merge (tokens.map Token.piece) = .tag u :: ps) :
    ∃ t rest, tokens = t :: rest ∧ t.isLiteral = false ∧ t.text = u ∧
      merge (rest.map Token.piece) = ps := by
  cases tokens with
  | nil => cases h
  | cons t tokens =>
    rw [List.map_cons, merge_cons] at h
    cases hliteral : t.isLiteral with
    | false =>
      rw [Token.piece_of_not_isLiteral hliteral] at h
      cases h
      exact ⟨t, tokens, rfl, hliteral, rfl, rfl⟩
    | true =>
      rw [Token.piece_of_isLiteral hliteral] at h
      unfold cons at h
      split at h <;> cases h

def tokens : Text → List Piece → List Token
  | _, [] => []
  | before, p :: ps => Token.behind before p.text :: tokens (before ++ p.text) ps

end Piece

end Mustache
