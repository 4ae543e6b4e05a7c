import Mustache.Proofs.Rendering.Lookahead
import Mustache.Proofs.Text.LineBreaks

namespace Mustache

namespace Text

def comment (body : Text) : Text := ['{', '{', '!'] ++ body ++ ['}', '}']

/-- What is written of a text in front of a comment: spaces at its end are left out if it has
several lines or is blank. -/
def beforeComment (t : Text) : Text :=
  if '\n' ∈ t ∨ t.trim = [] then t.dropEndWhile (· = ' ') else t

/-- What is written of a text behind a comment: a line break at its beginning is left out if more
follows. -/
def afterComment : Text → Text
  | '\n' :: c :: t => c :: t
  | t => t

theorem beforeComment_isPrefix (t : Text) : t.beforeComment <+: t := by
  unfold beforeComment
  split
  · exact dropEndWhile_isPrefix _ t
  · exact List.prefix_refl t

theorem afterComment_isSuffix (t : Text) : t.afterComment <:+ t := by
  unfold afterComment
  split
  · exact List.suffix_cons _ _
  · exact List.suffix_refl _

theorem beforeComment_eq_self_iff {t : Text} :
    t.beforeComment = t ↔ ¬ (t.getLast? = some ' ' ∧ ('\n' ∈ t ∨ t.trim = [])) := by
  unfold beforeComment
  split
  next hloses =>
    rw [dropEndWhile_eq_self_iff, and_iff_left hloses]
    constructor
    · intro hends hspace
      exact absurd (hends ' ' hspace) (by decide)
    · intro hspace c hc
      exact decide_eq_false fun h => hspace (h ▸ hc)
  next hkeeps =>
    rw [eq_self, true_iff]
    exact fun h => hkeeps h.2

theorem afterComment_eq_self_iff {t : Text} :
    t.afterComment = t ↔ ¬ (t.head? = some '\n' ∧ 1 < t.length) := by
  match t with
  | [] => simp [afterComment]
  | [c] => simp [afterComment]
  | c :: d :: t =>
    by_cases hc : c = '\n' <;> simp [afterComment, hc]

/-- Around a comment nothing is added, so that all bytes are kept only if all characters are. -/
theorem around_comment_eq {p q : Text}
    (h : byteCount (p.beforeComment ++ q.afterComment) = byteCount (p ++ q)) :
    p.beforeComment = p ∧ q.afterComment = q := by
  have hp := byteCount_le_of_sublist p.beforeComment_isPrefix.sublist
  have hq := byteCount_le_of_sublist q.afterComment_isSuffix.sublist
  rw [byteCount_append, byteCount_append] at h
  constructor
  · exact eq_of_sublist_of_byteCount_le p.beforeComment_isPrefix.sublist (by omega)
  · exact eq_of_sublist_of_byteCount_le q.afterComment_isSuffix.sublist (by omega)

theorem breakOn?_append {before pattern rest : Text} (hrest : pattern <+: rest)
    (h : ∀ back, back <:+ before → back ≠ [] → ¬ pattern <+: back ++ rest) :
    (before ++ rest).breakOn? pattern = some (before, rest) := by
  induction before with
  | nil => exact breakOn?_of_begins hrest
  | cons c before ih =>
    have hnot : ¬ pattern <+: c :: (before ++ rest) :=
      h (c :: before) (List.suffix_refl _) (List.cons_ne_nil c before)
    rw [List.cons_append, breakOn?_cons_of_not_begins hnot, ih]
    · rfl
    · intro back hback
      exact h back (hback.trans (List.suffix_cons c before))

theorem breakOn?_opening {p rest : Text} (hp : ¬ ['{', '{'] <:+: p ++ ['{'])
    (hrest : ['{', '{'] <+: rest) : (p ++ rest).breakOn? ['{', '{'] = some (p, rest) := by
  apply breakOn?_append hrest
  rintro back hback hne hbegins
  obtain ⟨c, back, rfl⟩ := List.exists_cons_of_ne_nil hne
  obtain ⟨more, rfl⟩ := hrest
  -- Braces that begin inside of the text end at most one character behind it.
  have hseen : ['{', '{'] <+: (c :: back) ++ ['{'] := by
    apply List.prefix_of_prefix_length_le hbegins
    · exact ⟨'{' :: more, by simp⟩
    · simp
  exact hp (hseen.isInfix.trans ((List.suffix_append_inj_of_length_eq rfl).2 ⟨hback, rfl⟩).isInfix)

theorem breakOn?_closing_append {front : Text} (hfront : '}' ∉ front) (rest : Text) :
    (front ++ (['}', '}'] ++ rest)).breakOn? ['}', '}'] = some (front, ['}', '}'] ++ rest) := by
  apply breakOn?_append (List.prefix_append _ _)
  rintro back hback hne hbegins
  obtain ⟨c, back, rfl⟩ := List.exists_cons_of_ne_nil hne
  have hc : '}' = c := (List.cons_prefix_cons.1 hbegins).1
  exact hfront (hback.subset (hc ▸ List.mem_cons_self))

theorem breakOn?_closing {body : Text} (hbody : '}' ∉ body) (q : Text) :
    (comment body ++ q).breakOn? ['}', '}'] = some (['{', '{', '!'] ++ body, ['}', '}'] ++ q) := by
  have hfront : '}' ∉ ['{', '{', '!'] ++ body := by simp [hbody]
  rw [comment, List.append_assoc]
  exact breakOn?_closing_append hfront q

/-- A comment divides a text also when the line breaks are made uniform. -/
theorem unifyLineBreaks_comment {p body q : Text} (hbody : '\r' ∉ body) :
    (p ++ comment body ++ q).unifyLineBreaks =
      p.unifyLineBreaks ++ (comment body ++ q.unifyLineBreaks) := by
  have hcomment : '\r' ∉ comment body := by simp [comment, hbody]
  rw [List.append_assoc, unifyLineBreaks_append, unifyLineBreaks_append_of_not_mem hcomment]
  exact nofun

end Text

theorem Scan.ofText_comment {p body q : Text} (hp : ¬ ['{', '{'] <:+: p ++ ['{'])
    (hq : ¬ ['{', '{'] <:+: q) (hbody : '}' ∉ body) (hhead : q.head? ≠ some '}') :
    ofText (p ++ (Text.comment body ++ q)) =
      ⟨Piece.ofRun p ++ .tag (Text.comment body) :: Piece.ofRun q, none⟩ := by
  have hopen : (p ++ (Text.comment body ++ q)).breakOn? ['{', '{'] =
      some (p, Text.comment body ++ q) := Text.breakOn?_opening hp ⟨_, rfl⟩
  have hclose := Text.breakOn?_closing hbody q
  have hlength : closingLength (['}', '}'] ++ q) = 2 := closingLength_of_not_third hhead
  rw [ofText_of_tag hopen hclose, hlength]
  have hrest : ofText ((['}', '}'] ++ q).drop 2) = ⟨Piece.ofRun q, none⟩ :=
    ofText_of_no_tag (Text.breakOn?_eq_none_iff.2 hq)
  rw [hrest]
  rfl

namespace Token

theorem comment_mem_modifiers {t : Token} {body : Text} (h : t.text = Text.comment body) :
    .comment ∈ t.modifiers := by
  have hkind : kindOf (Text.comment body) = .tag := rfl
  have hfront : Text.stripPrefix? ['{', '{'] (Text.comment body) =
      some ('!' :: body ++ ['}', '}']) := rfl
  have hback : Text.stripSuffix? ['}', '}'] ('!' :: body ++ ['}', '}']) = some ('!' :: body) :=
    Text.stripSuffix?_append _ _
  have hstrip : stripBraces 2 (Text.comment body) = '!' :: body := by
    have hopening : List.replicate 2 '{' = ['{', '{'] := rfl
    have hclosing : List.replicate 2 '}' = ['}', '}'] := rfl
    rw [stripBraces, hopening, hclosing, hfront, Option.getD_some, hback]
    rfl
  rw [modifiers, parts, partsOf, h, hkind]
  dsimp only
  rw [hstrip]
  exact List.mem_cons_self

theorem isComment_of_text {t : Token} {body : Text} (h : t.text = Text.comment body) :
    t.isComment = true :=
  List.contains_iff_mem.2 (comment_mem_modifiers h)

end Token

/-! ## Trimming next to a comment -/

theorem Location.isBreak_eq_false_iff {c : Char} : isBreak c = false ↔ c ≠ '\n' ∧ c ≠ '\r' := by
  simp [isBreak]

namespace Placed

theorem line_comment_eq_one_iff {t : Text} (ht : '\r' ∉ t) (body : Text) :
    (Token.behind t (Text.comment body)).line = 1 ↔ '\n' ∉ t := by
  have hline : (Token.behind t (Text.comment body)).line =
      (Location.ofLast (t ++ ['{'])).line := rfl
  rw [hline, Location.line_ofLast_eq_one_iff rfl]
  constructor
  · intro hplain hbreak
    exact absurd (hplain '\n' hbreak) (by decide)
  · intro hbreak c hc
    rw [Location.isBreak_eq_false_iff]
    exact ⟨fun h => hbreak (h ▸ hc), fun h => ht (h ▸ hc)⟩

theorem trimmed_beforeComment {t : Text} (hne : t ≠ []) (ht : '\r' ∉ t) (body : Text) :
    trimmed ⟨none, Token.behind [] t, some (Token.behind t (Text.comment body))⟩ =
      t.beforeComment := by
  have hcomment : (Token.behind t (Text.comment body)).isComment = true :=
    Token.isComment_of_text (Token.text_behind _ _)
  have hfirst : (Token.behind [] t).line = 1 := by
    obtain ⟨c, t, rfl⟩ := List.exists_cons_of_ne_nil hne
    exact Location.line_ofLast_singleton c
  have hend : trimsEnd ⟨none, Token.behind [] t, some (Token.behind t (Text.comment body))⟩ =
      decide ('\n' ∈ t ∨ t.trim = []) := by
    simp only [trimsEnd, Token.standsAlone_of_isComment hcomment, hfirst, Token.text_behind,
      Bool.true_and]
    rw [Bool.eq_iff_iff, Bool.or_eq_true, decide_eq_true_eq, decide_eq_true_eq, ne_eq,
      line_comment_eq_one_iff ht, Classical.not_not, List.isEmpty_iff]
  rw [trimmed, hend]
  simp only [trimsStart, Token.text_behind, Text.beforeComment]
  simp

theorem line_behind_comment {body : Text} (hbody : ∀ c ∈ body, Location.isBreak c = false)
    (before : Text) {t : Text} (hne : t ≠ []) :
    (Token.behind (before ++ Text.comment body) t).line =
      (Token.behind before (Text.comment body)).line := by
  obtain ⟨c, t, rfl⟩ := List.exists_cons_of_ne_nil hne
  have hplain : ∀ e ∈ ['{', '!'] ++ body ++ ['}', '}'], Location.isBreak e = false := by
    simpa [or_imp, forall_and, Location.isBreak] using hbody
  exact Location.line_ofLast_append rfl hplain

theorem trimmed_afterComment {body t : Text} (hbody : ∀ c ∈ body, Location.isBreak c = false)
    (before : Text) (hne : t ≠ []) :
    trimmed ⟨some (Token.behind before (Text.comment body)),
      Token.behind (before ++ Text.comment body) t, none⟩ = t.afterComment := by
  have hcomment : (Token.behind before (Text.comment body)).isComment = true :=
    Token.isComment_of_text (Token.text_behind _ _)
  have hstart : trimsStart ⟨some (Token.behind before (Text.comment body)),
      Token.behind (before ++ Text.comment body) t, none⟩ =
        (decide (t.head? = some '\n') && decide (1 < t.length)) := by
    simp [trimsStart, Token.standsAlone_of_isComment hcomment, line_behind_comment hbody before hne]
  rw [trimmed, hstart]
  simp only [trimsEnd, Token.text_behind]
  cases t with
  | nil => rfl
  | cons c t =>
    by_cases hc : c = '\n'
    · subst hc
      cases t <;> rfl
    · simp [Text.afterComment, hc]

end Placed

/-! ## Rendering -/

theorem Token.isLiteral_behind {t : Text} (h : ¬ ['{', '{'] <:+: t) (before : Text) :
    (behind before t).isLiteral = true := by
  rw [isLiteral_eq, text_behind, Bool.not_eq_true', ← Bool.not_eq_true, Scan.opensTag_iff_begins]
  exact fun hbegins => h hbegins.isInfix

/-- A comment between two texts leaves what is written of these. -/
theorem Template.run_ofTokens_comment {p body q : Text} (hp : ¬ ['{', '{'] <:+: p)
    (hbreaks : '\r' ∉ p) (hbody : ∀ c ∈ body, Location.isBreak c = false)
    (hq : ¬ ['{', '{'] <:+: q) (s : Session) :
    (ofTokens (Piece.tokens []
      (Piece.ofRun p ++ .tag (Text.comment body) :: Piece.ofRun q))).run s =
        s.write (p.beforeComment ++ q.afterComment) := by
  have hcomment (before : Text) : (Token.behind before (Text.comment body)).isComment = true :=
    Token.isComment_of_text (Token.text_behind _ _)
  have hback (s : Session) : (ofPlaced (Placed.ofTokens (some (Token.behind p (Text.comment body)))
      (Piece.tokens (p ++ Text.comment body) (Piece.ofRun q)))).run s = s.write q.afterComment := by
    by_cases hne : q = []
    · rw [hne]
      exact (Outline.run_ofPlaced_nil s).trans (Session.write_nil s).symm
    · rw [Piece.ofRun, if_neg hne]
      change (ofPlaced [⟨_, Token.behind _ q, none⟩]).run s = _
      rw [Outline.run_ofPlaced_literal (Token.isLiteral_behind hq _),
        Placed.trimmed_afterComment hbody p hne, funext Outline.run_ofPlaced_nil]
      exact Outcome.andThen_return _
  have hskip (before : Option Token) (t : Text) (after : Option Token) (ps : List Placed) :
      (ofPlaced (⟨before, Token.behind t (Text.comment body), after⟩ :: ps)).run =
        (ofPlaced ps).run :=
    funext (Outline.run_ofPlaced_comment (hcomment t) ps)
  -- An empty text makes no token, so that the comment is the first one.
  by_cases hne : p = []
  · subst hne
    change (ofPlaced (⟨none, Token.behind [] (Text.comment body), _⟩ :: _)).run s = _
    rw [hskip]
    exact hback s
  · rw [Piece.ofRun, if_neg hne]
    change (ofPlaced (⟨none, Token.behind [] p, some (Token.behind p (Text.comment body))⟩ ::
      ⟨some _, Token.behind p (Text.comment body), _⟩ :: _)).run s = _
    rw [Outline.run_ofPlaced_literal (Token.isLiteral_behind hp []), Session.write_append,
      Placed.trimmed_beforeComment hne hbreaks]
    rw [hskip]
    exact congrArg (Outcome.andThen _) (funext hback)

/-! ## Renderers -/

/-- The rendering of a source that writes a text and does nothing else: the sink has taken as much
of the text as it has room for, and the context is as before. -/
structure Rendering.WritesOnly (sink : Sink) (context : Context) (t : Text)
    (rendering : Rendering) : Prop where
  failure : rendering.failure = (sink.write t.encode).2.map .fault
  sink : rendering.renderer.sink = some (sink.write t.encode).1
  context : rendering.context = context

theorem Rendering.WritesOnly.encode_eq {rendering : Rendering} {sink : Sink} {context : Context}
    {t u : Text} (ht : rendering.WritesOnly sink context t) (htroom : sink.HasRoom t.encode)
    (hu : rendering.WritesOnly sink context u) (huroom : sink.HasRoom u.encode) :
    t.encode = u.encode := by
  have hsink : sink.took t.encode = sink.took u.encode := by
    apply Option.some.inj
    have h := ht.sink.symm.trans hu.sink
    rwa [Sink.write_of_hasRoom htroom, Sink.write_of_hasRoom huroom] at h
  have hcontents := congrArg Sink.contents hsink
  rw [Sink.contents_took, Sink.contents_took] at hcontents
  exact List.append_cancel_left hcontents

theorem Token.run_lex_comment {limits : Limits} {s : Source} {p body q : Text}
    (hp : ¬ ['{', '{'] <:+: p ++ ['{']) (hbreaks : '\r' ∉ p)
    (hbody : ∀ c ∈ body, c ∉ ['{', '}', '\n', '\r']) (hq : ¬ ['{', '{'] <:+: q)
    (hhead : q.head? ≠ some '}') (hbefore : s.before = [])
    (hafter : s.after = p ++ (Text.comment body ++ q))
    (hloops : s.after.byteCount < limits.maxLoops) (hfit : s.after.byteCount ≤ limits.window)
    (session : Session) :
    (lex limits s).run session = session.write (p.beforeComment ++ q.afterComment) := by
  have hbrace : '}' ∉ body := fun hm => hbody '}' hm (by decide)
  have hplain (c : Char) (hc : c ∈ body) : Location.isBreak c = false := by
    rw [Location.isBreak_eq_false_iff]
    exact ⟨fun e => hbody c hc (by simp [e]), fun e => hbody c hc (by simp [e])⟩
  have hscan := Scan.ofText_comment hp hq hbrace hhead
  rw [← hafter] at hscan
  have hsuffice := Limits.suffice_of_byteCount_le hloops hfit
  have hhides : Piece.HidesCuts limits.window (Scan.ofText s.after).pieces :=
    Piece.hidesCuts_of_byteCount_le hfit
  have hfailure : (lex limits s).failure = none := by
    rw [lex, (lexWithin_follows limits limits.maxLoops s hloops hsuffice.fits).failure, hscan,
      Option.map_none]
  rw [Lexing.run, hfailure, Template.run_ofTokens_lex hsuffice hhides, hscan, hbefore]
  apply Template.run_ofTokens_comment _ hbreaks hplain hq
  exact fun hseen => hp (hseen.trans (List.prefix_append p ['{']).isInfix)

theorem Renderer.render_of_run {r : Renderer} {name t : Text} {source : Source} {sink : Sink}
    {context : Context} (hsink : r.sink = some sink) (hsource : r.sources.get? name = some source)
    (hrun : (Token.lex r.limits source.rewind).run ⟨context, sink⟩ =
      Session.write ⟨context, sink⟩ t) :
    (r.render name context).WritesOnly sink context t := by
  rw [render, hsink]
  dsimp only
  rw [hsource]
  dsimp only
  rw [hrun]
  exact ⟨rfl, rfl, rfl⟩

structure Text.HasOnlyComment (p body q : Text) : Prop where
  front : ¬ ['{', '{'] <:+: p
  frontEnd : p.getLast? ≠ some '{'
  body : ∀ c ∈ body, c ∉ ['{', '}', '\n', '\r']
  back : ¬ ['{', '{'] <:+: q
  backBegin : q.head? ≠ some '}'

namespace Text.HasOnlyComment

variable {p body q : Text}

theorem not_infix_front (h : HasOnlyComment p body q) : ¬ ['{', '{'] <:+: p ++ ['{'] := by
  rw [List.infix_concat_iff]
  rintro (hends | hinside)
  · obtain ⟨before, hbefore⟩ := hends
    have hp : before ++ ['{'] = p := by
      rw [List.append_cons] at hbefore
      exact List.append_cancel_right hbefore
    exact h.frontEnd (List.getLast?_eq_some_iff.2 ⟨before, hp.symm⟩)
  · exact h.front hinside

theorem not_mem_body (h : HasOnlyComment p body q) {c : Char} (hc : c ∈ ['{', '}', '\n', '\r']) :
    c ∉ body :=
  fun hm => h.body c hm hc

theorem unifyLineBreaks_eq (h : HasOnlyComment p body q) :
    (p ++ comment body ++ q).unifyLineBreaks =
      p.unifyLineBreaks ++ (comment body ++ q.unifyLineBreaks) :=
  unifyLineBreaks_comment (h.not_mem_body (by decide))

end Text.HasOnlyComment

theorem Renderer.render_comment {r : Renderer} {name p body q : Text} {source : Source}
    {sink : Sink} (h : Text.HasOnlyComment p body q) (hsink : r.sink = some sink)
    (hsource : r.sources.get? name = some source)
    (htext : source.text = (p ++ Text.comment body ++ q).unifyLineBreaks)
    (hloops : source.text.byteCount < r.limits.maxLoops)
    (hfit : source.text.byteCount ≤ r.limits.window) (context : Context) :
    (r.render name context).WritesOnly sink context
      (p.unifyLineBreaks.beforeComment ++ q.unifyLineBreaks.afterComment) := by
  rw [h.unifyLineBreaks_eq] at htext
  have hp : ¬ ['{', '{'] <:+: p.unifyLineBreaks ++ ['{'] := by
    have huniform : (p ++ ['{']).unifyLineBreaks = p.unifyLineBreaks ++ ['{'] :=
      Text.unifyLineBreaks_append nofun
    rw [← huniform]
    exact fun hseen => h.not_infix_front (Text.infix_of_infix_unifyLineBreaks (by decide) hseen)
  have hq : ¬ ['{', '{'] <:+: q.unifyLineBreaks := fun hseen =>
    h.back (Text.infix_of_infix_unifyLineBreaks (by decide) hseen)
  have hhead : q.unifyLineBreaks.head? ≠ some '}' := fun hbegins =>
    h.backBegin (Text.head?_unifyLineBreaks (by decide) hbegins)
  have hbreaks := Text.not_mem_unifyLineBreaks p
  generalize p.unifyLineBreaks = p at *
  generalize q.unifyLineBreaks = q at *
  apply render_of_run hsink hsource
  exact Token.run_lex_comment hp hbreaks h.body hq hhead rfl htext hloops hfit ⟨context, sink⟩

/-- Whether a text beside a comment is trimmed is decided by the lines on which tokens begin. What
else is on the line of the comment has no part in this. -/
theorem Renderer.render_comment_eq_iff (r : Renderer) (name p body q : Text) (source : Source)
    (sink : Sink) (h : Text.HasOnlyComment p body q) (hsink : r.sink = some sink)
    (hsource : r.sources.get? name = some source)
    (htext : source.text = (p ++ Text.comment body ++ q).unifyLineBreaks)
    (hloops : source.text.byteCount < r.limits.maxLoops)
    (hfit : source.text.byteCount ≤ r.limits.window) (context : Context) :
    let front := p.unifyLineBreaks
    let back := q.unifyLineBreaks
    (r.render name context).WritesOnly sink context (front.beforeComment ++ back.afterComment) ∧
      (sink.HasRoom (front ++ back).encode →
        ((r.render name context).WritesOnly sink context (front ++ back) ↔
          ¬ (front.getLast? = some ' ' ∧ ('\n' ∈ front ∨ front.trim = [])) ∧
            ¬ (back.head? = some '\n' ∧ 1 < back.length))) := by
  intro front back
  have hwrites := render_comment h hsink hsource htext hloops hfit context
  refine ⟨hwrites, fun hroom => ?_⟩
  rw [← Text.beforeComment_eq_self_iff, ← Text.afterComment_eq_self_iff]
  constructor
  · intro hwhole
    -- What is kept is no longer than the whole, so that the sink has room for both.
    have hless : (front.beforeComment ++ back.afterComment).Sublist (front ++ back) :=
      front.beforeComment_isPrefix.sublist.append back.afterComment_isSuffix.sublist
    have hroom' : sink.HasRoom (front.beforeComment ++ back.afterComment).encode := by
      apply hroom.of_length_le
      rw [Text.length_encode, Text.length_encode]
      exact Text.byteCount_le_of_sublist hless
    apply Text.around_comment_eq
    rw [← Text.length_encode, ← Text.length_encode, hwrites.encode_eq hroom' hwhole hroom]
  · rintro ⟨hfront, hback⟩
    rwa [hfront, hback] at hwrites

/-- What stands on the line of a comment between two texts, besides the comment. -/
def Text.besideComment (p q : Text) : Text :=
  (p.reverse.takeWhile (· ≠ '\n')).reverse ++ q.takeWhile (· ≠ '\n')

def commentedLine : Text := ['x', '\n', 'a', ' '] ++ Text.comment ['c'] ++ ['\n', 'b']

/-- The space in front of the comment and the line break behind it are lost. -/
theorem render_commentedLine :
    Text.HasOnlyComment ['x', '\n', 'a', ' '] ['c'] ['\n', 'b'] ∧
      ((Renderer.ofTemplate commentedLine {}).render ['t'] []).WritesOnly .unlimited []
        ['x', '\n', 'a', 'b'] ∧
      ¬ ((Renderer.ofTemplate commentedLine {}).render ['t'] []).WritesOnly .unlimited []
        ['x', '\n', 'a', ' ', '\n', 'b'] := by
  have honly : Text.HasOnlyComment ['x', '\n', 'a', ' '] ['c'] ['\n', 'b'] :=
    ⟨by decide, by decide, by simp, by decide, by decide⟩
  obtain ⟨hwrites, hiff⟩ := Renderer.render_comment_eq_iff (.ofTemplate commentedLine {}) ['t']
    _ _ _ (.ofText commentedLine) .unlimited honly rfl rfl rfl (by decide) (by decide) []
  refine ⟨honly, hwrites, ?_⟩
  intro hwhole
  exact absurd ((hiff (Sink.hasRoom_of_limit rfl _)).1 hwhole) (by decide)

/-- The line of the comment holds a letter, and yet not all is rendered that stands around it. -/
theorem render_commentedLine_ne :
    Text.HasOnlyComment ['x', '\n', 'a', ' '] ['c'] ['\n', 'b'] ∧
      (∃ c ∈ Text.besideComment ['x', '\n', 'a', ' '] ['\n', 'b'], Text.isBlank c = false) ∧
      commentedLine.byteCount ≤ Limits.lookahead {} ∧
      commentedLine.byteCount < Limits.maxLoops {} ∧
      (render commentedLine []).toOption = some ['x', '\n', 'a', 'b'] ∧
      ['x', '\n', 'a', 'b'] ≠ ['x', '\n', 'a', ' '] ++ ['\n', 'b'] := by
  have honly : Text.HasOnlyComment ['x', '\n', 'a', ' '] ['c'] ['\n', 'b'] :=
    ⟨by decide, by decide, by simp, by decide, by decide⟩
  refine ⟨honly, ⟨'a', by decide, by decide⟩, by decide, by decide, ?_, by decide⟩
  decide +kernel

/-! ## Comments on a line of their own -/

namespace Text

theorem beforeComment_append_spaces {p s : Text} (hp : p = [] ∨ p.getLast? = some '\n')
    (hs : ∀ c ∈ s, c = ' ') : beforeComment (p ++ s) = p := by
  have hspaces : ∀ c ∈ s, decide (c = ' ') = true := fun c hc => decide_eq_true (hs c hc)
  have hloses : '\n' ∈ p ++ s ∨ trim (p ++ s) = [] := by
    rcases hp with rfl | hends
    · right
      apply trim_eq_nil
      intro c hc
      rw [hs c hc]
      decide
    · exact Or.inl (List.mem_append_left s (List.mem_of_getLast? hends))
  rw [beforeComment, if_pos hloses, dropEndWhile_append hspaces, dropEndWhile_eq_self_iff]
  intro c hc
  rcases hp with rfl | hends
  · cases hc
  · cases hends.symm.trans hc
    decide

theorem afterComment_newline_cons (t : Text) :
    afterComment ('\n' :: t) = if t = [] then ['\n'] else t := by
  cases t <;> rfl

/-- Opening braces are not found in a text because of what follows it without a brace. -/
theorem not_infix_append {p s : Text} (hp : ¬ ['{', '{'] <:+: p) (hs : '{' ∉ s) :
    ¬ ['{', '{'] <:+: p ++ s := by
  rw [List.infix_append_iff]
  rintro (hseen | hseen | ⟨front, back, hsplit, hfront, hback⟩)
  · exact hp hseen
  · exact hs (hseen.subset List.mem_cons_self)
  · cases back with
    | nil =>
      rw [List.append_nil] at hsplit
      exact hp (hsplit ▸ hfront.isInfix)
    | cons c back =>
      have hc : c ∈ ['{', '{'] := hsplit ▸ List.mem_append_right front List.mem_cons_self
      have hbrace : c = '{' := by simpa using hc
      exact hs (hbrace ▸ hback.subset List.mem_cons_self)

end Text

/-- A line break behind a comment is left out only if more follows it, so that a comment on the last
line leaves an empty line. -/
theorem Renderer.render_standaloneComment (r : Renderer) (name p s body q : Text) (source : Source)
    (sink : Sink) (hp : ¬ ['{', '{'] <:+: p)
    (hends : p = [] ∨ p.getLast? = some '\n' ∨ p.getLast? = some '\r') (hs : ∀ c ∈ s, c = ' ')
    (hbody : ∀ c ∈ body, c ∉ ['{', '}', '\n', '\r']) (hq : ¬ ['{', '{'] <:+: q)
    (hsink : r.sink = some sink) (hsource : r.sources.get? name = some source)
    (htext : source.text = (p ++ s ++ Text.comment body ++ ['\n'] ++ q).unifyLineBreaks)
    (hloops : source.text.byteCount < r.limits.maxLoops)
    (hfit : source.text.byteCount ≤ r.limits.window) (context : Context) :
    (r.render name context).WritesOnly sink context
      (p.unifyLineBreaks ++ if q = [] then ['\n'] else q.unifyLineBreaks) := by
  have hbrace : '{' ∉ s := fun hm => absurd (hs '{' hm) (by decide)
  have hreturn : '\r' ∉ s := fun hm => absurd (hs '\r' hm) (by decide)
  -- The spaces belong to the run in front of the comment, its line break to the run behind it.
  have honly : Text.HasOnlyComment (p ++ s) body ('\n' :: q) := by
    refine ⟨Text.not_infix_append hp hbrace, ?_, hbody, ?_, by simp⟩
    · rw [List.getLast?_append]
      cases hlast : s.getLast? with
      | some c => simp [hs c (List.mem_of_getLast? hlast)]
      | none =>
        rcases hends with rfl | hends | hends
        · simp
        · simp [hends]
        · simp [hends]
    · rw [List.infix_cons_iff]
      rintro (hbegins | hinside)
      · exact absurd (List.cons_prefix_cons.1 hbegins).1 (by decide)
      · exact hq hinside
  have hfront : (p ++ s).unifyLineBreaks = p.unifyLineBreaks ++ s := by
    rw [Text.unifyLineBreaks_append, Text.unifyLineBreaks_eq_self hreturn]
    intro hhead
    exact absurd (hs '\n' (List.mem_of_head? hhead)) (by decide)
  have hends' : p.unifyLineBreaks = [] ∨ p.unifyLineBreaks.getLast? = some '\n' := by
    rcases hends with rfl | hends
    · exact Or.inl rfl
    · exact Or.inr (Text.getLast?_unifyLineBreaks hends)
  have hback : Text.unifyLineBreaks ('\n' :: q) = '\n' :: q.unifyLineBreaks := rfl
  have hwrites := render_comment honly hsink hsource (by rw [htext]; simp) hloops hfit context
  rw [hfront, Text.beforeComment_append_spaces hends' hs, hback,
    Text.afterComment_newline_cons] at hwrites
  simp only [Text.unifyLineBreaks_eq_nil_iff] at hwrites
  exact hwrites

/-- An indented comment on its own line, behind a line that ends in two characters. -/
def indentedComment (q : Text) : Text :=
  ['a', '\r', '\n'] ++ [' ', ' '] ++ Text.comment ['c'] ++ ['\n'] ++ q

theorem render_indentedComment :
    ((Renderer.ofTemplate (indentedComment [' ', 'b']) {}).render ['t'] []).WritesOnly .unlimited []
        ['a', '\n', ' ', 'b'] ∧
      ((Renderer.ofTemplate (indentedComment []) {}).render ['t'] []).WritesOnly .unlimited []
        ['a', '\n', '\n'] := by
  constructor
  · exact Renderer.render_standaloneComment (.ofTemplate (indentedComment [' ', 'b']) {}) ['t'] _ _
      _ _ (.ofText (indentedComment [' ', 'b'])) .unlimited (by decide) (by decide) (by simp)
      (by simp) (by decide) rfl rfl rfl (by decide) (by decide) []
  · exact Renderer.render_standaloneComment (.ofTemplate (indentedComment []) {}) ['t'] _ _ _ _
      (.ofText (indentedComment [])) .unlimited (by decide) (by decide) (by simp) (by simp)
      (by decide) rfl rfl rfl (by decide) (by decide) []

/-- The line break behind a comment on the last line is not left out. -/
theorem render_lastComment_ne :
    (render (['a', '\n'] ++ [] ++ Text.comment ['c'] ++ ['\n'] ++ []) []).toOption =
        some ['a', '\n', '\n'] ∧
      ['a', '\n', '\n'] ≠ Text.unifyLineBreaks ['a', '\n'] ++ Text.unifyLineBreaks [] := by
  decide +kernel

end Mustache
