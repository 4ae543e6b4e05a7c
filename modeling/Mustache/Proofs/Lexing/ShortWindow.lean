import Mustache.Proofs.Lexing.Partition

namespace Mustache

/-- Whether a window shows all of a tag in three closing braces but the last one. -/
def Text.LosesBrace (window : Nat) (t : Text) : Prop :=
  t.byteCount = window + 1 ∧ ['}', '}', '}'] <:+ t

instance (window : Nat) (t : Text) : Decidable (t.LosesBrace window) :=
  inferInstanceAs (Decidable (_ ∧ _))

namespace Piece

/-- What the lexer makes of a piece of which the window shows two closing braces. -/
def shown (window : Nat) : Piece → List Piece
  | run t => [run t]
  | tag t => if t.LosesBrace window then [tag t.dropLast, run ['}']] else [tag t]

theorem shown_of_byteCount_le {window : Nat} {p : Piece}
    (h : ∀ t ∈ p.tag?, t.byteCount ≤ window) : p.shown window = [p] := by
  cases p with
  | run t => rfl
  | tag t =>
    have hkeeps : ¬ t.LosesBrace window := fun hloses =>
      absurd (h t rfl) (Nat.not_le.2 (hloses.1 ▸ Nat.lt_succ_self window))
    rw [shown, if_neg hkeeps]

theorem filterMap_tag?_cons (p : Piece) (ps : List Piece) :
    (cons p ps).filterMap tag? = (p :: ps).filterMap tag? := by
  unfold cons
  split <;> rfl

theorem filterMap_tag?_merge (ps : List Piece) :
    (merge ps).filterMap tag? = ps.filterMap tag? := by
  induction ps with
  | nil => rfl
  | cons p ps ih =>
    have hmerge : merge (p :: ps) = cons p (merge ps) := rfl
    rw [hmerge, filterMap_tag?_cons, List.filterMap_cons, List.filterMap_cons, ih]

/-- Of tags that lose a brace the rest is shown, and of all others everything. -/
theorem filterMap_tag?_shown (window : Nat) (ps : List Piece) :
    (ps.flatMap (shown window)).filterMap tag? =
      (ps.filterMap tag?).map fun t => if t.LosesBrace window then t.dropLast else t := by
  induction ps with
  | nil => rfl
  | cons p ps ih =>
    rw [List.flatMap_cons, List.filterMap_append, ih]
    cases p with
    | run t => rfl
    | tag t => by_cases hloses : t.LosesBrace window <;> simp [shown, hloses, tag?]

end Piece

namespace Scan

def ReadableIn (window : Nat) (s : Scan) : Prop :=
  s.unclosed = none ∧ ∀ t ∈ s.tags, t.byteCount ≤ window ∨ t.LosesBrace window

def shown (window : Nat) (s : Scan) : List Piece :=
  Piece.merge (s.pieces.flatMap (Piece.shown window))

variable {window : Nat} {t : Text} {s : Scan}

theorem readableIn_cons_run : (s.cons (.run t)).ReadableIn window ↔ s.ReadableIn window := by
  have htags : (s.cons (.run t)).tags = s.tags := Piece.filterMap_tag?_cons (.run t) s.pieces
  unfold ReadableIn
  rw [htags]
  rfl

theorem readableIn_cons_tag : (s.cons (.tag t)).ReadableIn window ↔
    (t.byteCount ≤ window ∨ t.LosesBrace window) ∧ s.ReadableIn window := by
  have htags : (s.cons (.tag t)).tags = t :: s.tags := Piece.filterMap_tag?_cons (.tag t) s.pieces
  unfold ReadableIn
  rw [htags, List.forall_mem_cons]
  exact and_left_comm

theorem shown_cons_run : (s.cons (.run t)).shown window = Piece.cons (.run t) (s.shown window) := by
  obtain ⟨pieces, unclosed⟩ := s
  rcases pieces with - | ⟨p, ps⟩
  · rfl
  · cases p with
    | run u => exact (Piece.cons_cons t u _).symm
    | tag u => rfl

theorem shown_cons_tag (h : ¬ t.LosesBrace window) :
    (s.cons (.tag t)).shown window = Piece.cons (.tag t) (s.shown window) := by
  have hpieces : (s.cons (.tag t)).pieces = .tag t :: s.pieces := rfl
  rw [shown, hpieces, List.flatMap_cons, Piece.shown, if_neg h]
  rfl

theorem shown_cons_tag_of_losesBrace (h : t.LosesBrace window) :
    (s.cons (.tag t)).shown window =
      Piece.cons (.tag t.dropLast) (Piece.cons (.run ['}']) (s.shown window)) := by
  have hpieces : (s.cons (.tag t)).pieces = .tag t :: s.pieces := rfl
  rw [shown, hpieces, List.flatMap_cons, Piece.shown, if_pos h]
  rfl

end Scan

namespace Token

open Scan

/-! ## One look -/

section

variable {window : Nat} {tag rest : Text}

/-- Of a tag that is too long by its last brace everything else is taken. -/
theorem next?_takeBytes_of_losesBrace (hw : 2 ≤ window) (hopen : opensTag (tag ++ rest) = true)
    (hclose : throughClosing? (tag ++ rest) = some tag) (h : tag.LosesBrace window) :
    next? window ((tag ++ rest).takeBytes window) = some tag.dropLast := by
  have hself := throughClosing?_of_begins hclose List.nil_prefix
  rw [List.append_nil] at hself
  rw [opensTag_append (two_le_length_of_throughClosing? hclose)] at hopen
  obtain ⟨-, inner, closing, hbreak, hclosing⟩ := isTagText_of_closed hopen hself
  rw [if_pos h.2] at hclosing
  subst hclosing
  obtain ⟨rfl, -⟩ := Text.of_breakOn? hbreak
  -- The brace that is lost is one byte long: what is in front of it fills the window.
  have hbytes : (inner ++ ['}', '}']).byteCount = window := by
    have hlong := h.1
    rw [Text.byteCount_append] at hlong ⊢
    exact Nat.succ.inj hlong
  have hview : ((inner ++ ['}', '}', '}']) ++ rest).takeBytes window = inner ++ ['}', '}'] := by
    rw [← hbytes, List.append_assoc]
    have hsplit : inner ++ (['}', '}', '}'] ++ rest) = (inner ++ ['}', '}']) ++ '}' :: rest := by
      simp
    rw [hsplit, Text.takeBytes_byteCount_append]
  have hdrop : (inner ++ ['}', '}', '}']).dropLast = inner ++ ['}', '}'] := by simp
  have hopen' : opensTag (((inner ++ ['}', '}', '}']) ++ rest).takeBytes window) = true := by
    rw [opensTag_takeBytes hw, opensTag_append (by simp), hopen]
  have hbreak' : (inner ++ (['}', '}'] ++ [])).breakOn? ['}', '}'] =
      some (inner, ['}', '}'] ++ []) := Text.breakOn?_congr (t := ['}']) hbreak
  rw [next?, if_pos hopen', hview, hdrop]
  exact throughClosing?_eq_some_iff.2 ⟨inner, ['}', '}'] ++ [], hbreak', rfl⟩

/-- Of a tag that is longer still the window does not show two closing braces. -/
theorem next?_takeBytes_of_too_long (hw : 2 ≤ window) (hopen : opensTag (tag ++ rest) = true)
    (hclose : throughClosing? (tag ++ rest) = some tag) (hlong : window < tag.byteCount)
    (h : ¬ tag.LosesBrace window) : next? window ((tag ++ rest).takeBytes window) = none := by
  rw [next?, opensTag_takeBytes hw, if_pos hopen, ← Option.not_isSome_iff_eq_none,
    Option.isSome_iff_exists]
  rintro ⟨seen, hseen⟩
  have htext := Text.takeBytes_append_dropBytes window (tag ++ rest)
  obtain ⟨inner, closing, hbreak, -⟩ := throughClosing?_eq_some_iff.1 hseen
  obtain ⟨hview, more, rfl⟩ := Text.of_breakOn? hbreak
  -- The closing braces in view are those of the tag, and the second one begins inside the window.
  obtain ⟨inner', closing', hbreak', htag⟩ := throughClosing?_eq_some_iff.1 hclose
  obtain ⟨rfl, rfl⟩ : inner = inner' ∧
      ['}', '}'] ++ (more ++ (tag ++ rest).dropBytes window) = closing' := by
    rw [← htext, hview, List.append_assoc, List.append_assoc] at hbreak'
    rw [hview] at hbreak
    have hsame := (Text.breakOn?_congr hbreak).symm.trans hbreak'
    simpa using hsame
  have hbytes : (inner ++ ['}']).byteCount < window := by
    have hsecond : (tag ++ rest).takeBytes window = (inner ++ ['}']) ++ '}' :: more := by
      rw [hview, List.append_assoc]
      rfl
    exact Text.byteCount_lt_of_takeBytes hsecond
  rw [Text.byteCount_append] at hbytes
  have hbrace : Text.byteCount ['}'] = 1 := rfl
  rcases take_closingLength (more ++ (tag ++ rest).dropBytes window) with htwo | hthree
  · rw [htwo] at htag
    have hcount : tag.byteCount = inner.byteCount + 2 := by
      rw [htag, Text.byteCount_append]
      rfl
    omega
  · rw [hthree] at htag
    have hcount : tag.byteCount = inner.byteCount + 3 := by
      rw [htag, Text.byteCount_append]
      rfl
    exact h ⟨by omega, inner, htag.symm⟩

/-- The brace that is lost stands in front of what follows the tag, as plain text. -/
theorem append_of_losesBrace (hopen : opensTag (tag ++ rest) = true) (h : tag.LosesBrace window) :
    tag ++ rest = tag.dropLast ++ '}' :: rest ∧ opensTag tag.dropLast = true ∧
      ofText ('}' :: rest) = cons (.run ['}']) (ofText rest) := by
  obtain ⟨inner, rfl⟩ := h.2
  have hdrop : (inner ++ ['}', '}', '}']).dropLast = inner ++ ['}', '}'] := by simp
  have hsplit : inner ++ ['}', '}', '}'] ++ rest = inner ++ ['}', '}'] ++ '}' :: rest := by simp
  have hlen : 2 ≤ (inner ++ ['}', '}']).length := by simp
  rw [hsplit, opensTag_append hlen] at hopen
  rw [hdrop]
  exact ⟨hsplit, hopen, ofText_cons rfl⟩

end

theorem next?_takeBytes_shown {window : Nat} (hw : 3 ≤ window) {t : Text} (hne : t ≠ []) :
    (next? window (t.takeBytes window) = none ∧ ¬ (ofText t).ReadableIn window) ∨
      ∃ piece rest, next? window (t.takeBytes window) = some piece ∧ t = piece ++ rest ∧
        piece ≠ [] ∧ ((ofText t).ReadableIn window ↔ (ofText rest).ReadableIn window) ∧
        ∀ token : Token, token.text = piece →
          (ofText t).shown window = Piece.cons token.piece ((ofText rest).shown window) := by
  have hw' : 2 ≤ window := Nat.le_trans (by decide) hw
  by_cases hopen : opensTag t = true
  · cases hclose : throughClosing? t with
    | none =>
      rw [ofText_of_not_closed hopen hclose]
      exact Or.inl ⟨next?_takeBytes_of_unclosed hw' hopen hclose, fun h => nomatch h.1⟩
    | some piece =>
      obtain ⟨rest, rfl⟩ := prefix_of_throughClosing? hclose
      have hlen := two_le_length_of_throughClosing? hclose
      have hpiece : piece ≠ [] := List.ne_nil_of_length_pos (Nat.lt_of_lt_of_le (by decide) hlen)
      have hopen' : opensTag piece = true := opensTag_append hlen rest ▸ hopen
      rw [ofText_of_closed hopen hclose, readableIn_cons_tag]
      -- In view are two of three closing braces, or less than two, or the whole tag.
      by_cases hloses : piece.LosesBrace window
      · obtain ⟨hsplit, hopens, hscan⟩ := append_of_losesBrace hopen hloses
        have hnext := next?_takeBytes_of_losesBrace hw' hopen hclose hloses
        refine Or.inr ⟨piece.dropLast, '}' :: rest, hnext, hsplit, ?_, ?_, ?_⟩
        · intro hnil
          rw [hnil] at hopens
          exact absurd hopens (by decide)
        · rw [hscan, readableIn_cons_run]
          exact and_iff_right (Or.inr hloses)
        · intro token htoken
          rw [shown_cons_tag_of_losesBrace hloses, hscan, shown_cons_run,
            piece_of_opensTag (htoken ▸ hopens), htoken]
      · by_cases hlong : window < piece.byteCount
        · left
          refine ⟨next?_takeBytes_of_too_long hw' hopen hclose hlong hloses, fun h => ?_⟩
          rcases h.1 with hfits | hloses'
          · omega
          · exact hloses hloses'
        · have hfits : piece.byteCount ≤ window := Nat.not_lt.1 hlong
          refine Or.inr ⟨piece, rest, next?_takeBytes_of_closed hw' hopen hclose hfits, rfl, hpiece,
            and_iff_right (Or.inl hfits), ?_⟩
          rintro token rfl
          rw [shown_cons_tag hloses, piece_of_opensTag hopen']
  · obtain ⟨piece, rest, hnext, rfl, hpiece, hplain⟩ :=
      next?_takeBytes_of_plain hw hne (Bool.eq_false_iff.2 hopen)
    rw [ofText_append hpiece hplain, readableIn_cons_run]
    refine Or.inr ⟨piece, rest, hnext, rfl, hpiece, Iff.rfl, ?_⟩
    rintro token rfl
    rw [shown_cons_run, piece_of_not_opensTag (opensTag_of_noTagIn hpiece hplain)]

/-! ## Runs -/

theorem lexWithin_shown (limits : Limits) (loops : Nat) (s : Source)
    (hloops : s.after.byteCount < loops) :
    ((lexWithin limits loops s).failure = none ↔ (ofText s.after).ReadableIn limits.window) ∧
      ((lexWithin limits loops s).failure = none →
        Piece.merge ((lexWithin limits loops s).tokens.map piece) =
          (ofText s.after).shown limits.window) := by
  induction loops generalizing s with
  | zero => exact absurd hloops (Nat.not_lt_zero _)
  | succ loops ih =>
    by_cases hne : s.after = []
    · rw [lexWithin_nil limits loops hne, hne, ofText_nil]
      exact ⟨iff_of_true rfl ⟨rfl, nofun⟩, fun _ => rfl⟩
    · obtain ⟨hnext, hread⟩ | ⟨piece, rest, hnext, hafter, hpiece, hread, hshown⟩ :=
        next?_takeBytes_shown limits.three_le_window hne
      · rw [lexWithin_of_next?_none loops hne hnext]
        exact ⟨iff_of_false nofun hread, nofun⟩
      · -- A piece takes a byte at least, so that the looks that are left are enough for the rest.
        have hbytes : piece.byteCount ≠ 0 := by
          rw [ne_eq, Text.byteCount_eq_zero_iff]
          exact hpiece
        have hrest : Text.byteCount rest < loops := by
          rw [hafter, Text.byteCount_append] at hloops
          omega
        obtain ⟨hiff, hpieces⟩ := ih ⟨s.name, s.before ++ piece, rest⟩ hrest
        rw [lexWithin_of_next?_some loops hne hafter hnext, hread,
          hshown ⟨Source.fragmentAfter s.before piece⟩ (Source.text_fragmentAfter s.before piece)]
        exact ⟨hiff, fun hend => congrArg _ (hpieces hend)⟩

/-! ## Two windows -/

end Token

namespace Scan

theorem shown_eq_merge {window : Nat} {s : Scan} (h : ∀ t ∈ s.tags, t.byteCount ≤ window) :
    s.shown window = Piece.merge s.pieces := by
  have hpieces : ∀ p ∈ s.pieces, p.shown window = [p] := by
    intro p hp
    apply Piece.shown_of_byteCount_le
    intro t ht
    exact h t (List.mem_filterMap.2 ⟨p, hp, ht⟩)
  rw [shown, List.flatMap_def, List.map_congr_left hpieces, ← List.flatMap_def,
    List.flatMap_singleton']

/-- A larger window shows the same only if it shows no brace that the smaller one does not. -/
theorem shown_eq_shown_iff_of_lt {window window' : Nat} {s : Scan} (hlt : window < window')
    (h : s.ReadableIn window) :
    s.shown window = s.shown window' ↔ ∀ t ∈ s.tags, t.byteCount ≤ window := by
  constructor
  · intro hshown t ht
    refine (h.2 t ht).resolve_right fun hloses => ?_
    have hkeeps : ¬ t.LosesBrace window' := fun hloses' => by
      have hcount := hloses.1.symm.trans hloses'.1
      omega
    have htags := congrArg (List.filterMap Piece.tag?) hshown
    simp only [shown, Piece.filterMap_tag?_merge, Piece.filterMap_tag?_shown] at htags
    have hsame := List.map_inj_left.1 htags t ht
    rw [if_pos hloses, if_neg hkeeps] at hsame
    have hlen := congrArg List.length hsame
    have hthree : 3 ≤ t.length := hloses.2.length_le
    rw [List.length_dropLast] at hlen
    omega
  · intro hfits
    have hfits' : ∀ t ∈ s.tags, t.byteCount ≤ window' :=
      fun t ht => Nat.le_trans (hfits t ht) (Nat.le_of_lt hlt)
    rw [shown_eq_merge hfits, shown_eq_merge hfits']

theorem shown_eq_shown_iff {window window' : Nat} {s : Scan} (h : s.ReadableIn window)
    (h' : s.ReadableIn window') :
    s.shown window = s.shown window' ↔
      window = window' ∨ ∀ t ∈ s.tags, t.byteCount ≤ window ∧ t.byteCount ≤ window' := by
  rcases Nat.lt_trichotomy window window' with hlt | rfl | hlt
  · rw [shown_eq_shown_iff_of_lt hlt h, or_iff_right (Nat.ne_of_lt hlt)]
    have hle := Nat.le_of_lt hlt
    exact forall₂_congr fun t _ => (and_iff_left_of_imp fun hfits => Nat.le_trans hfits hle).symm
  · exact iff_of_true rfl (Or.inl rfl)
  · rw [eq_comm, shown_eq_shown_iff_of_lt hlt h', or_iff_right (Nat.ne_of_gt hlt)]
    have hle := Nat.le_of_lt hlt
    exact forall₂_congr fun t _ => (and_iff_right_of_imp fun hfits => Nat.le_trans hfits hle).symm

end Scan

namespace Token

open Scan

/-- Of a tag in three closing braces a window that is one byte too short shows two, and the lexer is
content with these. The third becomes plain text. -/
theorem lex_pieces_eq_iff (limits limits' : Limits) (s : Source)
    (hloops : s.after.byteCount < limits.maxLoops)
    (hloops' : s.after.byteCount < limits'.maxLoops) :
    ((lex limits s).failure = none ↔ (ofText s.after).ReadableIn limits.window) ∧
      ((lex limits s).failure = none → (lex limits' s).failure = none →
        (Piece.merge ((lex limits s).tokens.map piece) =
            Piece.merge ((lex limits' s).tokens.map piece) ↔
          limits.window = limits'.window ∨ ∀ t ∈ (ofText s.after).tags,
            t.byteCount ≤ limits.window ∧ t.byteCount ≤ limits'.window)) := by
  obtain ⟨hread, hshown⟩ := lexWithin_shown limits limits.maxLoops s hloops
  obtain ⟨hread', hshown'⟩ := lexWithin_shown limits' limits'.maxLoops s hloops'
  rw [← lex] at hread hshown hread' hshown'
  refine ⟨hread, fun hend hend' => ?_⟩
  rw [hshown hend, hshown' hend']
  exact shown_eq_shown_iff (hread.1 hend) (hread'.1 hend')

/-- A tag in three braces that fills a window, between runs that it cuts. -/
def tripleSource : Source :=
  .ofText ("a longer ".toList ++ ['{', '{', '{', 'x', '}', '}', '}'] ++ " text".toList)

theorem lex_tripleSource :
    tripleSource.after.byteCount < 30 ∧
      (lex ⟨30, 7⟩ tripleSource).failure = none ∧ (lex ⟨40, 12⟩ tripleSource).failure = none ∧
      Piece.merge ((lex ⟨30, 7⟩ tripleSource).tokens.map piece) =
        Piece.merge ((lex ⟨40, 12⟩ tripleSource).tokens.map piece) := by
  have hloops : tripleSource.after.byteCount < 30 := by decide +kernel
  have hloops' : tripleSource.after.byteCount < 40 := Nat.lt_trans hloops (by decide)
  have hread : (ofText tripleSource.after).ReadableIn 7 := ⟨by decide +kernel, by decide +kernel⟩
  have hfits : ∀ t ∈ (ofText tripleSource.after).tags, t.byteCount ≤ 7 ∧ t.byteCount ≤ 12 := by
    decide +kernel
  obtain ⟨hiff, hpieces⟩ := lex_pieces_eq_iff ⟨30, 7⟩ ⟨40, 12⟩ tripleSource hloops hloops'
  have hend := hiff.2 hread
  have hend' : (lex ⟨40, 12⟩ tripleSource).failure = none := by decide +kernel
  exact ⟨hloops, hend, hend', (hpieces hend hend').2 (Or.inr hfits)⟩

def bareTriple : Source := .ofText ['{', '{', '{', 'x', '}', '}', '}']

/-- A window of six bytes cuts the last brace off a tag of seven, which a window of seven bytes
takes whole. -/
theorem lex_cutTag_ne :
    bareTriple.after.byteCount < 20 ∧
      (lex ⟨20, 6⟩ bareTriple).failure = none ∧ (lex ⟨20, 7⟩ bareTriple).failure = none ∧
      Piece.merge ((lex ⟨20, 6⟩ bareTriple).tokens.map piece) =
        [.tag ['{', '{', '{', 'x', '}', '}'], .run ['}']] ∧
      Piece.merge ((lex ⟨20, 6⟩ bareTriple).tokens.map piece) ≠
        Piece.merge ((lex ⟨20, 7⟩ bareTriple).tokens.map piece) := by
  decide +kernel

end Token

end Mustache
