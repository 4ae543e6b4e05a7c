import Mustache.Token

namespace Mustache

namespace Text

/-- A text up to the first place at which it goes on with a pattern, and from there. -/
def breakOn? : Text → Text → Option (Text × Text)
  | [], pattern => if pattern = [] then some ([], []) else none
  | c :: cs, pattern =>
    if pattern.isPrefixOf (c :: cs) then some ([], c :: cs)
    else (breakOn? cs pattern).map fun (before, rest) => (c :: before, rest)

theorem breakOn?_of_begins {t pattern : Text} (h : pattern <+: t) :
    t.breakOn? pattern = some ([], t) := by
  cases t with
  | nil => simp [breakOn?, List.prefix_nil.1 h]
  | cons c cs => rw [breakOn?, if_pos (List.isPrefixOf_iff_prefix.2 h)]

theorem breakOn?_cons_of_not_begins {c : Char} {t pattern : Text} (h : ¬ pattern <+: c :: t) :
    breakOn? (c :: t) pattern =
      (breakOn? t pattern).map fun (before, rest) => (c :: before, rest) := by
  rw [breakOn?, if_neg (fun hp => h (List.isPrefixOf_iff_prefix.1 hp))]

theorem of_breakOn? {t pattern before rest : Text} (h : t.breakOn? pattern = some (before, rest)) :
    t = before ++ rest ∧ pattern <+: rest := by
  induction t generalizing before with
  | nil =>
    simp only [breakOn?, Option.ite_none_right_eq_some, Option.some.injEq, Prod.mk.injEq] at h
    obtain ⟨rfl, rfl, rfl⟩ := h
    exact ⟨rfl, List.nil_prefix⟩
  | cons c cs ih =>
    by_cases hp : pattern <+: c :: cs
    · rw [breakOn?_of_begins hp] at h
      cases h
      exact ⟨rfl, hp⟩
    · rw [breakOn?_cons_of_not_begins hp] at h
      obtain ⟨⟨before', rest'⟩, hb, he⟩ := Option.map_eq_some_iff.1 h
      cases he
      obtain ⟨rfl, hrest⟩ := ih hb
      exact ⟨rfl, hrest⟩

theorem length_le_of_breakOn? {front back pattern before rest : Text}
    (h : (front ++ back).breakOn? pattern = some (before, rest)) (hback : pattern <+: back) :
    before.length ≤ front.length := by
  induction front generalizing before with
  | nil =>
    rw [List.nil_append, breakOn?_of_begins hback] at h
    cases h
    exact Nat.le_refl _
  | cons c front ih =>
    rw [List.cons_append] at h
    by_cases hp : pattern <+: c :: (front ++ back)
    · rw [breakOn?_of_begins hp] at h
      cases h
      exact Nat.zero_le _
    · rw [breakOn?_cons_of_not_begins hp] at h
      obtain ⟨⟨before', rest'⟩, hb, he⟩ := Option.map_eq_some_iff.1 h
      cases he
      exact Nat.succ_le_succ (ih hb)

theorem breakOn?_eq_none_iff {t pattern : Text} :
    t.breakOn? pattern = none ↔ ¬ pattern <:+: t := by
  induction t with
  | nil =>
    by_cases hp : pattern = []
    · simp [breakOn?, hp]
    · simp [breakOn?, hp, List.infix_nil]
  | cons c cs ih =>
    by_cases hp : pattern <+: c :: cs
    · simp [breakOn?_of_begins hp, hp.isInfix]
    · rw [breakOn?_cons_of_not_begins hp, Option.map_eq_none_iff, ih, List.infix_cons_iff]
      simp [hp]

/-- What stands behind the pattern has no part in where the pattern is found. -/
theorem breakOn?_congr {before pattern t u : Text}
    (h : (before ++ (pattern ++ t)).breakOn? pattern = some (before, pattern ++ t)) :
    (before ++ (pattern ++ u)).breakOn? pattern = some (before, pattern ++ u) := by
  induction before with
  | nil => exact breakOn?_of_begins (List.prefix_append _ _)
  | cons c before ih =>
    -- Whether the pattern stands at the front is seen in as many characters as it has, and the
    -- first character with `before` and the pattern are more.
    have hnot (x : Text) (hx : pattern <+: c :: (before ++ (pattern ++ x))) (y : Text) :
        pattern <+: c :: (before ++ (pattern ++ y)) := by
      have hfirst : pattern <+: c :: (before ++ pattern) := by
        apply List.prefix_of_prefix_length_le hx
        · exact ⟨x, by simp⟩
        · simp only [List.length_cons, List.length_append]
          omega
      exact hfirst.trans ⟨y, by simp⟩
    rw [List.cons_append] at h ⊢
    by_cases hp : pattern <+: c :: (before ++ (pattern ++ t))
    · rw [breakOn?_of_begins hp] at h
      cases h
    · rw [breakOn?_cons_of_not_begins hp] at h
      rw [breakOn?_cons_of_not_begins (fun hu => hp (hnot u hu t))]
      obtain ⟨⟨before', rest⟩, hb, he⟩ := Option.map_eq_some_iff.1 h
      simp only [Prod.mk.injEq, List.cons.injEq, true_and] at he
      obtain ⟨rfl, rfl⟩ := he
      rw [ih hb]
      rfl

end Text

inductive Piece where
  | run (t : Text)
  | tag (t : Text)
deriving DecidableEq

namespace Piece

def text : Piece → Text
  | run t | tag t => t

def tag? : Piece → Option Text
  | run _ => none
  | tag t => some t

/-- A piece in front of others. Plain text becomes one run with plain text that follows. -/
def cons : Piece → List Piece → List Piece
  | run t, run u :: ps => run (t ++ u) :: ps
  | p, ps => p :: ps

def merge (ps : List Piece) : List Piece := ps.foldr cons []

def ofRun (t : Text) : List Piece := if t = [] then [] else [run t]

theorem cons_ofRun (c : Char) (t : Text) : ofRun (c :: t) = cons (run [c]) (ofRun t) := by
  unfold ofRun
  by_cases ht : t = []
  · simp [ht, cons]
  · simp [ht, cons]

theorem cons_ofRun_append (c : Char) (t tagText : Text) (ps : List Piece) :
    ofRun (c :: t) ++ tag tagText :: ps = cons (run [c]) (ofRun t ++ tag tagText :: ps) := by
  unfold ofRun
  by_cases ht : t = []
  · simp [ht, cons]
  · simp [ht, cons]

theorem mem_cons_of_mem {t : Text} {p : Piece} {ps : List Piece} (h : tag t ∈ ps) :
    tag t ∈ cons p ps := by
  unfold cons
  split
  · simpa using h
  · exact List.mem_cons_of_mem p h

theorem tag_mem_merge {t : Text} {ps : List Piece} (h : tag t ∈ ps) : tag t ∈ merge ps := by
  induction ps with
  | nil => cases h
  | cons p ps ih =>
    rcases List.mem_cons.1 h with rfl | htail
    · exact List.mem_cons_self
    · exact mem_cons_of_mem (ih htail)

theorem flatMap_cons {f : Piece → Text} (hf : ∀ t u, f (run (t ++ u)) = f (run t) ++ f (run u))
    (p : Piece) (ps : List Piece) : (cons p ps).flatMap f = f p ++ ps.flatMap f := by
  unfold cons
  split
  · simp [hf]
  · rfl

/-- What is made of each piece does not depend on how runs are cut. -/
theorem flatMap_merge {f : Piece → Text} (hf : ∀ t u, f (run (t ++ u)) = f (run t) ++ f (run u))
    (ps : List Piece) : (merge ps).flatMap f = ps.flatMap f := by
  induction ps with
  | nil => rfl
  | cons p ps ih => exact (flatMap_cons hf p (merge ps)).trans (congrArg (f p ++ ·) ih)

theorem flatMap_ofRun {f : Piece → Text} (hf : f (run []) = []) (t : Text) :
    (ofRun t).flatMap f = f (run t) := by
  by_cases ht : t = []
  · rw [ht, hf]
    rfl
  · rw [ofRun, if_neg ht]
    exact List.append_nil _

theorem cons_cons (t u : Text) (ps : List Piece) :
    cons (run t) (cons (run u) ps) = cons (run (t ++ u)) ps := by
  cases ps with
  | nil => rfl
  | cons p ps => cases p <;> simp [cons]

end Piece

def Token.piece (t : Token) : Piece := if t.isLiteral then .run t.text else .tag t.text

theorem Token.piece_of_isLiteral {t : Token} (h : t.isLiteral = true) : t.piece = .run t.text := by
  rw [piece, if_pos h]

theorem Token.piece_of_not_isLiteral {t : Token} (h : t.isLiteral = false) :
    t.piece = .tag t.text := by
  rw [piece, h, if_neg Bool.false_ne_true]

/-- The pieces of a text, up to two opening braces without closing braces after them if there are
such. -/
structure Scan where
  pieces : List Piece
  unclosed : Option Text
deriving DecidableEq

namespace Scan

def closingLength (t : Text) : Nat := if ['}', '}', '}'].isPrefixOf t then 3 else 2

theorem closingLength_third (t : Text) : closingLength ('}' :: '}' :: '}' :: t) = 3 := by
  simp [closingLength]

theorem closingLength_of_not_third {t : Text} (h : t.head? ≠ some '}') :
    closingLength ('}' :: '}' :: t) = 2 := by
  cases t with
  | nil => simp [closingLength]
  | cons c t =>
    have hc : '}' ≠ c := fun e => h (by rw [e]; rfl)
    simp [closingLength, hc]

theorem two_le_closingLength (t : Text) : 2 ≤ closingLength t := by
  unfold closingLength
  split <;> omega

theorem take_closingLength (more : Text) :
    (['}', '}'] ++ more).take (closingLength (['}', '}'] ++ more)) = ['}', '}'] ∨
      (['}', '}'] ++ more).take (closingLength (['}', '}'] ++ more)) = ['}', '}', '}'] := by
  by_cases hthird : more.head? = some '}'
  · obtain ⟨behind, rfl⟩ := List.head?_eq_some_iff.1 hthird
    right
    rw [List.cons_append, List.cons_append, List.nil_append, closingLength_third]
    rfl
  · left
    rw [List.cons_append, List.cons_append, List.nil_append, closingLength_of_not_third hthird]
    rfl

theorem length_drop_closing_lt {t run opened inner closing : Text}
    (hopen : t.breakOn? ['{', '{'] = some (run, opened))
    (hclose : opened.breakOn? ['}', '}'] = some (inner, closing)) :
    (closing.drop (closingLength closing)).length < t.length := by
  obtain ⟨rfl, -⟩ := Text.of_breakOn? hopen
  obtain ⟨rfl, hbraces⟩ := Text.of_breakOn? hclose
  have hlength : 2 ≤ closing.length := hbraces.length_le
  have hcount := two_le_closingLength closing
  simp only [List.length_drop, List.length_append]
  omega

def ofText (t : Text) : Scan :=
  match _hopen : t.breakOn? ['{', '{'] with
  | none => ⟨Piece.ofRun t, none⟩
  | some (run, opened) =>
    match _hclose : opened.breakOn? ['}', '}'] with
    | none => ⟨Piece.ofRun run, some opened⟩
    | some (inner, closing) =>
      let rest := ofText (closing.drop (closingLength closing))
      ⟨Piece.ofRun run ++ .tag (inner ++ closing.take (closingLength closing)) :: rest.pieces,
        rest.unclosed⟩
termination_by t.length
decreasing_by exact length_drop_closing_lt _hopen _hclose

def cons (p : Piece) (s : Scan) : Scan := ⟨p.cons s.pieces, s.unclosed⟩

theorem ofText_of_no_tag {t : Text} (hopen : t.breakOn? ['{', '{'] = none) :
    ofText t = ⟨Piece.ofRun t, none⟩ := by
  rw [ofText]
  split <;> simp_all

theorem ofText_of_unclosed {t run opened : Text}
    (hopen : t.breakOn? ['{', '{'] = some (run, opened))
    (hclose : opened.breakOn? ['}', '}'] = none) :
    ofText t = ⟨Piece.ofRun run, some opened⟩ := by
  rw [ofText]
  split
  next h => simp [hopen] at h
  next h =>
    obtain ⟨rfl, rfl⟩ : run = _ ∧ opened = _ := by simpa [hopen] using h
    split <;> simp_all

theorem ofText_of_tag {t run opened inner closing : Text}
    (hopen : t.breakOn? ['{', '{'] = some (run, opened))
    (hclose : opened.breakOn? ['}', '}'] = some (inner, closing)) :
    ofText t =
      ⟨Piece.ofRun run ++ .tag (inner ++ closing.take (closingLength closing)) ::
          (ofText (closing.drop (closingLength closing))).pieces,
        (ofText (closing.drop (closingLength closing))).unclosed⟩ := by
  rw [ofText]
  split
  next h => simp [hopen] at h
  next h =>
    obtain ⟨rfl, rfl⟩ : run = _ ∧ opened = _ := by simpa [hopen] using h
    split
    next h' => simp [hclose] at h'
    next h' =>
      obtain ⟨rfl, rfl⟩ : inner = _ ∧ closing = _ := by simpa [hclose] using h'
      rfl

theorem ofText_nil : ofText [] = ⟨[], none⟩ := ofText_of_no_tag rfl

def tags (s : Scan) : List Text := s.pieces.filterMap Piece.tag?

theorem mem_tags {s : Scan} {t : Text} : t ∈ s.tags ↔ .tag t ∈ s.pieces := by
  rw [tags, List.mem_filterMap]
  constructor
  · rintro ⟨p, hp, ht⟩
    cases p with
    | run u => cases ht
    | tag u =>
      cases ht
      exact hp
  · intro h
    exact ⟨.tag t, h, rfl⟩

def read (s : Scan) : Text := s.pieces.flatMap Piece.text

theorem read_nil (unclosed : Option Text) : read ⟨[], unclosed⟩ = [] := rfl

theorem read_cons (p : Piece) (s : Scan) : (s.cons p).read = p.text ++ s.read :=
  Piece.flatMap_cons (fun _ _ => rfl) p s.pieces

theorem read_ofRun (t : Text) (unclosed : Option Text) : read ⟨Piece.ofRun t, unclosed⟩ = t :=
  Piece.flatMap_ofRun rfl t

theorem read_append_unclosed (t : Text) :
    (ofText t).read ++ (ofText t).unclosed.getD [] = t := by
  fun_induction ofText t with
  | case1 t hopen => rw [read_ofRun, Option.getD_none, List.append_nil]
  | case2 t run opened hopen hclose =>
    rw [read_ofRun, Option.getD_some]
    exact (Text.of_breakOn? hopen).1.symm
  | case3 t run opened hopen inner closing hclose rest ih =>
    have hcut := List.take_append_drop (closingLength closing) closing
    rw [← ih] at hcut
    rw [(Text.of_breakOn? hopen).1, (Text.of_breakOn? hclose).1]
    have hrun : (Piece.ofRun run).flatMap Piece.text = run := read_ofRun run none
    simpa [read, hrun, Piece.text, rest] using hcut

theorem opensTag_iff_begins {t : Text} : Token.opensTag t = true ↔ ['{', '{'] <+: t := by
  constructor
  · intro h
    unfold Token.opensTag at h
    split at h
    next u => exact ⟨u, rfl⟩
    next => cases h
  · rintro ⟨u, rfl⟩
    rfl

theorem ofText_cons {c : Char} {t : Text} (h : Token.opensTag (c :: t) = false) :
    ofText (c :: t) = cons (.run [c]) (ofText t) := by
  have hbreak : Text.breakOn? (c :: t) ['{', '{'] =
      (t.breakOn? ['{', '{']).map fun (before, rest) => (c :: before, rest) := by
    apply Text.breakOn?_cons_of_not_begins
    rw [← opensTag_iff_begins, h]
    exact Bool.false_ne_true
  cases hopen : t.breakOn? ['{', '{'] with
  | none =>
    rw [hopen] at hbreak
    rw [ofText_of_no_tag hopen, ofText_of_no_tag hbreak, cons, Piece.cons_ofRun]
  | some p =>
    obtain ⟨run, opened⟩ := p
    rw [hopen, Option.map_some] at hbreak
    cases hclose : opened.breakOn? ['}', '}'] with
    | none => rw [ofText_of_unclosed hopen hclose, ofText_of_unclosed hbreak hclose, cons,
        Piece.cons_ofRun]
    | some q =>
      obtain ⟨inner, closing⟩ := q
      rw [ofText_of_tag hopen hclose, ofText_of_tag hbreak hclose, cons, Piece.cons_ofRun_append]

/-- No tag begins in a piece of a text that goes on in the given way. -/
def NoTagIn : Text → Text → Prop
  | [], _ => True
  | c :: piece, rest => Token.opensTag (c :: (piece ++ rest)) = false ∧ NoTagIn piece rest

theorem noTagIn_append {piece more rest : Text} :
    NoTagIn (piece ++ more) rest ↔ NoTagIn piece (more ++ rest) ∧ NoTagIn more rest := by
  induction piece with
  | nil => simp [NoTagIn]
  | cons c piece ih => simp [NoTagIn, ih, and_assoc]

/-- A piece in which no tag begins joins the run that follows it. -/
theorem ofText_append {piece rest : Text} (hne : piece ≠ []) (h : NoTagIn piece rest) :
    ofText (piece ++ rest) = cons (.run piece) (ofText rest) := by
  induction piece with
  | nil => exact absurd rfl hne
  | cons c piece ih =>
    obtain ⟨hc, hpiece⟩ := h
    rw [List.cons_append, ofText_cons hc]
    by_cases hp : piece = []
    · rw [hp, List.nil_append]
    · rw [ih hp hpiece, cons, cons, Piece.cons_cons]
      rfl

/-! ## Tags -/

theorem throughClosing?_eq_breakOn? (t : Text) :
    Token.throughClosing? t = (t.breakOn? ['}', '}']).map fun (inner, closing) =>
      inner ++ closing.take (closingLength closing) := by
  fun_induction Token.throughClosing? t with
  | case1 => rfl
  | case2 u =>
    have hp : ['}', '}'] <+: '}' :: '}' :: '}' :: u := ⟨'}' :: u, rfl⟩
    rw [Text.breakOn?_of_begins hp]
    rfl
  | case3 u hthird =>
    have hp : ['}', '}'] <+: '}' :: '}' :: u := ⟨u, rfl⟩
    have hhead : u.head? ≠ some '}' := by
      intro hhead
      obtain ⟨v, hv⟩ := List.head?_eq_some_iff.1 hhead
      exact hthird v hv
    rw [Text.breakOn?_of_begins hp, Option.map_some]
    dsimp only
    rw [closingLength_of_not_third hhead]
    rfl
  | case4 c u hthree htwo ih =>
    have hp : ¬ ['}', '}'] <+: c :: u := by
      rintro ⟨v, hv⟩
      simp only [List.cons_append, List.nil_append, List.cons.injEq] at hv
      exact htwo v hv.1.symm hv.2.symm
    rw [Text.breakOn?_cons_of_not_begins hp, ih, Option.map_map, Option.map_map]
    rfl

theorem throughClosing?_eq_none_iff {t : Text} :
    Token.throughClosing? t = none ↔ ¬ ['}', '}'] <:+: t := by
  rw [throughClosing?_eq_breakOn?, Option.map_eq_none_iff, Text.breakOn?_eq_none_iff]

theorem throughClosing?_eq_some_iff {t piece : Text} :
    Token.throughClosing? t = some piece ↔ ∃ inner closing,
      t.breakOn? ['}', '}'] = some (inner, closing) ∧
      piece = inner ++ closing.take (closingLength closing) := by
  rw [throughClosing?_eq_breakOn?, Option.map_eq_some_iff]
  constructor
  · rintro ⟨⟨inner, closing⟩, hbreak, rfl⟩
    exact ⟨inner, closing, hbreak, rfl⟩
  · rintro ⟨inner, closing, hbreak, rfl⟩
    exact ⟨(inner, closing), hbreak, rfl⟩

theorem prefix_of_throughClosing? {t piece : Text} (h : Token.throughClosing? t = some piece) :
    piece <+: t := by
  obtain ⟨inner, closing, hbreak, rfl⟩ := throughClosing?_eq_some_iff.1 h
  obtain ⟨rfl, -⟩ := Text.of_breakOn? hbreak
  exact (List.prefix_append_right_inj inner).2 (List.take_prefix _ _)

/-- A tag ends where it does whatever follows, if that does not begin with one more brace. -/
theorem throughClosing?_congr {piece t u : Text}
    (h : Token.throughClosing? (piece ++ t) = some piece)
    (hu : u.head? = some '}' → t.head? = some '}') :
    Token.throughClosing? (piece ++ u) = some piece := by
  obtain ⟨inner, closing, hbreak, hpiece⟩ := throughClosing?_eq_some_iff.1 h
  obtain ⟨htext, x, rfl⟩ := Text.of_breakOn? hbreak
  -- A third brace belongs to the piece. Where there is none in the one text, there is none in the
  -- other.
  by_cases hthird : x.head? = some '}'
  · obtain ⟨y, rfl⟩ := List.head?_eq_some_iff.1 hthird
    have hpiece' : piece = inner ++ ['}', '}', '}'] := by
      rw [hpiece, List.cons_append, List.cons_append, List.nil_append, closingLength_third]
      rfl
    refine throughClosing?_eq_some_iff.2 ⟨inner, ['}', '}'] ++ '}' :: u, ?_, ?_⟩
    · rw [htext] at hbreak
      simpa [hpiece'] using Text.breakOn?_congr (u := '}' :: u) hbreak
    · rw [List.cons_append, List.cons_append, List.nil_append, closingLength_third, hpiece']
      rfl
  · have hpiece' : piece = inner ++ ['}', '}'] := by
      rw [hpiece, List.cons_append, List.cons_append, List.nil_append,
        closingLength_of_not_third hthird]
      rfl
    have ht : t = x := by simpa [hpiece'] using htext
    have hhead : u.head? ≠ some '}' := fun hhead => hthird (ht ▸ hu hhead)
    refine throughClosing?_eq_some_iff.2 ⟨inner, ['}', '}'] ++ u, ?_, ?_⟩
    · rw [htext] at hbreak
      simpa [hpiece'] using Text.breakOn?_congr (u := u) hbreak
    · rw [List.cons_append, List.cons_append, List.nil_append, closingLength_of_not_third hhead,
        hpiece']
      rfl

/-- A tag ends where it does if less of the text behind it is in view. -/
theorem throughClosing?_of_begins {piece t u : Text}
    (h : Token.throughClosing? (piece ++ t) = some piece) (hu : u <+: t) :
    Token.throughClosing? (piece ++ u) = some piece := by
  apply throughClosing?_congr h
  intro hhead
  obtain ⟨v, rfl⟩ := List.head?_eq_some_iff.1 hhead
  obtain ⟨w, rfl⟩ := hu
  rfl

theorem ofText_of_not_closed {t : Text} (hopen : Token.opensTag t = true)
    (hclose : Token.throughClosing? t = none) : ofText t = ⟨[], some t⟩ := by
  rw [throughClosing?_eq_breakOn?, Option.map_eq_none_iff] at hclose
  rw [ofText_of_unclosed (Text.breakOn?_of_begins (opensTag_iff_begins.1 hopen)) hclose]
  rfl

theorem ofText_of_closed {piece t : Text} (hopen : Token.opensTag (piece ++ t) = true)
    (hclose : Token.throughClosing? (piece ++ t) = some piece) :
    ofText (piece ++ t) = cons (.tag piece) (ofText t) := by
  obtain ⟨inner, closing, hbreak, hpiece⟩ := throughClosing?_eq_some_iff.1 hclose
  have htext := (Text.of_breakOn? hbreak).1
  have hrest : closing.drop (closingLength closing) = t := by
    rw [hpiece, List.append_assoc, List.append_cancel_left_eq] at htext
    have hcut := List.take_append_drop (closingLength closing) closing
    exact List.append_cancel_left (hcut.trans htext.symm)
  rw [ofText_of_tag (Text.breakOn?_of_begins (opensTag_iff_begins.1 hopen)) hbreak, hrest, ← hpiece]
  rfl

end Scan

end Mustache
