import Mathlib.Data.List.TakeWhile
import Mustache.Proofs.Lookup.Root
import Mustache.Proofs.Rendering.Repetition

namespace Mustache

namespace Text

/-- Whether a text is another without a line break at its front, or without spaces at its end, or
without both. -/
def IsTrimmedFrom (u t : Text) : Prop :=
  ∃ front back, t = front ++ u ++ back ∧ (front = [] ∨ front = ['\n']) ∧ ∀ c ∈ back, c = ' '

/-- The second texts are the first in their order, each of them trimmed, where some that are no more
than a line break are left out. -/
inductive TrimsTo : List Text → List Text → Prop
  | nil : TrimsTo [] []
  | written {t u : Text} {ts us : List Text} : u.IsTrimmedFrom t → TrimsTo ts us →
    TrimsTo (t :: ts) (u :: us)
  | omitted {ts us : List Text} : TrimsTo ts us → TrimsTo (['\n'] :: ts) us

theorem TrimsTo.append {ts us ts' us' : List Text} (h : TrimsTo ts us) (h' : TrimsTo ts' us') :
    TrimsTo (ts ++ ts') (us ++ us') := by
  induction h with
  | nil => exact h'
  | written htrimmed _ ih => exact .written htrimmed ih
  | omitted _ ih => exact .omitted ih

def visible (t : Text) : Text := t.filter fun c => c ≠ ' ' && c ≠ '\n'

@[simp] theorem visible_append (s t : Text) : (s ++ t).visible = s.visible ++ t.visible :=
  List.filter_append s t

theorem visible_eq_nil {t : Text} (h : ∀ c ∈ t, c = ' ' ∨ c = '\n') : t.visible = [] := by
  apply List.filter_eq_nil_iff.2
  intro c hc
  rcases h c hc with rfl | rfl <;> decide

theorem IsTrimmedFrom.visible {u t : Text} (h : u.IsTrimmedFrom t) : u.visible = t.visible := by
  obtain ⟨front, back, rfl, hfront, hback⟩ := h
  have hfront' : front.visible = [] := by
    rcases hfront with rfl | rfl <;> rfl
  have hback' : back.visible = [] := visible_eq_nil fun c hc => Or.inl (hback c hc)
  rw [visible_append, visible_append, hfront', hback', List.nil_append, List.append_nil]

theorem TrimsTo.visible {ts us : List Text} (h : TrimsTo ts us) :
    Text.visible us.flatten = Text.visible ts.flatten := by
  induction h with
  | nil => rfl
  | written htrimmed _ ih =>
    rw [List.flatten_cons, List.flatten_cons, visible_append, visible_append, htrimmed.visible, ih]
  | omitted _ ih =>
    rw [ih, List.flatten_cons, visible_append]
    rfl

theorem dropEndWhile_append_eq (p : Char → Bool) (t : Text) :
    ∃ back, t = t.dropEndWhile p ++ back ∧ ∀ c ∈ back, p c = true := by
  refine ⟨(t.reverse.takeWhile p).reverse, ?_, fun c hc => ?_⟩
  · rw [dropEndWhile, ← List.reverse_append, List.takeWhile_append_dropWhile, List.reverse_reverse]
  · exact List.mem_takeWhile_imp (List.mem_reverse.1 hc)

end Text

theorem Placed.isTrimmedFrom_trimmed (p : Placed) : p.trimmed.IsTrimmedFrom p.token.text := by
  unfold trimmed
  dsimp only
  -- The front is the same for both ways to treat the end.
  obtain ⟨front, hfront, htext⟩ : ∃ front, (front = [] ∨ front = ['\n']) ∧ p.token.text = front ++
      if p.trimsStart then (Text.stripPrefix? ['\n'] p.token.text).getD p.token.text
      else p.token.text := by
    split
    · cases hstrip : Text.stripPrefix? ['\n'] p.token.text with
      | none => exact ⟨[], Or.inl rfl, rfl⟩
      | some rest => exact ⟨['\n'], Or.inr rfl, Text.stripPrefix?_eq_some_iff.1 hstrip⟩
    · exact ⟨[], Or.inl rfl, rfl⟩
  generalize (if p.trimsStart then _ else p.token.text) = t at htext ⊢
  split
  · obtain ⟨back, hback, hspaces⟩ := t.dropEndWhile_append_eq (· = ' ')
    refine ⟨front, back, ?_, hfront, fun c hc => of_decide_eq_true (hspaces c hc)⟩
    rw [htext, List.append_assoc, ← hback]
  · exact ⟨front, [], by rw [htext, List.append_nil], hfront, nofun⟩

/-! ## Texts of tokens -/

def Token.literals (tokens : List Token) : List Text := (tokens.filter isLiteral).map text

namespace Token

@[simp] theorem literals_append (front back : List Token) :
    literals (front ++ back) = literals front ++ literals back := by
  rw [literals, List.filter_append, List.map_append]
  rfl

theorem literals_cons_of_isLiteral {t : Token} (h : t.isLiteral = true) (tokens : List Token) :
    literals (t :: tokens) = t.text :: literals tokens := by
  rw [literals, List.filter_cons_of_pos h]
  rfl

theorem literals_cons_of_not_isLiteral {t : Token} (h : t.isLiteral = false)
    (tokens : List Token) : literals (t :: tokens) = literals tokens := by
  rw [literals, List.filter_cons_of_neg (by simp [h])]
  rfl

end Token

namespace Template

open Outline (isBreak isLiteral_of_isBreak)

theorem trimsTo_of_isBreak {ps : List Placed} (h : ∀ p ∈ ps, isBreak p = true) :
    Text.TrimsTo (Token.literals (ps.map Placed.token)) [] := by
  induction ps with
  | nil => exact .nil
  | cons p ps ih =>
    obtain ⟨hp, hps⟩ := List.forall_mem_cons.1 h
    have htext : p.token.text = ['\n'] := of_decide_eq_true hp
    rw [List.map_cons, Token.literals_cons_of_isLiteral (isLiteral_of_isBreak hp), htext]
    exact .omitted (ih hps)

/-- What is taken from the body of a section are bare line breaks in front of it and behind it. -/
theorem sectionBody_append (ps : List Placed) :
    ∃ front back, ps = front ++ sectionBody ps ++ back ∧
      (∀ p ∈ front, isBreak p = true) ∧ ∀ p ∈ back, isBreak p = true := by
  obtain ⟨front, hfront, hps⟩ : ∃ front : List Placed, (∀ p ∈ front, isBreak p = true) ∧
      ps = front ++ if ps.head?.any isBreak then ps.tail else ps := by
    split
    next hbreak =>
      cases ps with
      | nil => exact ⟨[], nofun, rfl⟩
      | cons p ps => exact ⟨[p], by simpa using hbreak, rfl⟩
    next => exact ⟨[], nofun, rfl⟩
  rw [Outline.sectionBody_eq rfl]
  generalize (if ps.head?.any _ then ps.tail else ps) = rest at hps ⊢
  split
  next hbreak =>
    obtain ⟨p, hlast, hp⟩ := (Option.any_eq_true _ _).1 hbreak.2
    obtain ⟨body, rfl⟩ := List.getLast?_eq_some_iff.1 hlast
    exact ⟨front, [p], by simpa using hps, hfront, by simpa using hp⟩
  next => exact ⟨front, [], by simpa using hps, hfront, nofun⟩

theorem trimsTo_of_sectionBody {ps : List Placed} {us : List Text}
    (h : Text.TrimsTo (Token.literals ((sectionBody ps).map Placed.token)) us) :
    Text.TrimsTo (Token.literals (ps.map Placed.token)) us := by
  obtain ⟨front, back, hps, hfront, hback⟩ := sectionBody_append ps
  rw [hps, List.map_append, List.map_append, Token.literals_append, Token.literals_append]
  simpa using ((trimsTo_of_isBreak hfront).append h).append (trimsTo_of_isBreak hback)

end Template

/-! ## Sections that are rendered as they are -/

/-- Whether a token is plain text, a comment, a closing tag, or a tag that opens a section whose
value is true or an inverted section whose value is false. -/
def Token.IsShown (value : Text → Option Value) (t : Token) : Prop :=
  t.isLiteral = true ∨ t.isComment = true ∨ t.has .closer = true ∨
    t.opensSection = true ∧ t.key ≠ ['i', 'f'] ∧ value t.key = some (.bool (t.has .opener))

theorem Token.IsShown.of_isLeaf {value : Text → Option Value} {t : Token} (h : t.IsShown value)
    (hleaf : t.isLeaf = true) : t.isLiteral = true ∨ t.isComment = true := by
  rcases h with hliteral | hcomment | hcloser | ⟨hopens, -⟩
  · exact Or.inl hliteral
  · exact Or.inr hcomment
  · simpa [isLeaf, hcloser] using hleaf
  · have hsection : (!t.has .opener && !t.has .inverter) = false := by
      rw [← Bool.not_or, ← opensSection, hopens]
      rfl
    simpa [isLeaf, hsection] using hleaf

theorem Token.IsShown.of_isOpener {value : Text → Option Value} {t : Token} (h : t.IsShown value)
    (hopener : t.isOpener = true) :
    t.key ≠ ['i', 'f'] ∧ value t.key = some (.bool (t.has .opener)) := by
  obtain ⟨hkind, -, hcloser, -, hcomment⟩ := Outline.isOpener_iff.1 hopener
  have hliteral := Outline.isLiteral_of_kind_tag hkind
  simpa [IsShown, hliteral, hcomment, hcloser, Outline.opensSection_of_isOpener hopener] using h

theorem Session.enter_of_bool {s : Session} {opener : Token} (hif : opener.key ≠ ['i', 'f'])
    (hvalue : (s.lookup opener.key).1 = some (.bool (opener.has .opener)))
    (body : Session → Outcome) : s.enter opener body = body (s.lookup opener.key).2 := by
  let after : Session := (s.lookup opener.key).2
  have hlookup : s.lookup opener.key = (some (.bool (opener.has .opener)), after) := by
    rw [← hvalue]
  rw [enter, if_neg hif, hlookup]
  cases opener.has .opener <;> rfl

namespace Outline

def shown : Outline Placed → List Text
  | done => []
  | leaf p rest => if p.token.isLiteral then p.trimmed :: rest.shown else rest.shown
  | sect _ body _ rest => body.trimBreaks.shown ++ rest.shown
termination_by o => o.flatten.length
decreasing_by
  · simp [flatten]
  · simp [flatten]
  · have h := length_flatten_trimBreaks_le body
    simp only [flatten, List.length_cons, List.length_append]
    omega
  · simp only [flatten, List.length_cons, List.length_append]
    omega

/-- Of the plain texts of an outline nothing gets lost but what trimming takes away. -/
theorem trimsTo_shown {o : Outline Placed} (h : (o.map Placed.token).isWellNested = true) :
    Text.TrimsTo (Token.literals (o.flatten.map Placed.token)) o.shown := by
  induction o using shown.induct with
  | case1 =>
    rw [shown]
    exact .nil
  | case2 p rest hliteral ih =>
    simp only [map, isWellNested, Bool.and_eq_true] at h
    rw [shown, if_pos hliteral, flatten, List.map_cons, Token.literals_cons_of_isLiteral hliteral]
    exact .written p.isTrimmedFrom_trimmed (ih h.2)
  | case3 p rest hliteral ih =>
    simp only [map, isWellNested, Bool.and_eq_true] at h
    rw [shown, if_neg hliteral, flatten, List.map_cons,
      Token.literals_cons_of_not_isLiteral (Bool.eq_false_iff.2 hliteral)]
    exact ih h.2
  | case4 opener body closer rest ihb ihr =>
    simp only [map, isWellNested, Bool.and_eq_true] at h
    obtain ⟨⟨⟨ho, hb⟩, hc⟩, hr⟩ := h
    have hopener := isLiteral_of_kind_tag (isOpener_iff.1 ho).1
    have hcloser := isLiteral_of_kind_tag (isCloserOf_iff.1 hc).1
    have hbody := ihb (isWellNested_trimBreaks hb)
    rw [flatten_trimBreaks hb] at hbody
    rw [shown, flatten, List.map_cons, Token.literals_cons_of_not_isLiteral hopener,
      List.map_append, Token.literals_append, List.map_cons,
      Token.literals_cons_of_not_isLiteral hcloser]
    exact (Template.trimsTo_of_sectionBody hbody).append (ihr hr)

variable {Keeps : Context → Prop} {value : Text → Option Value}

theorem eval_writes {o : Outline Placed} (h : (o.map Placed.token).isWellNested = true)
    (hshown : ∀ p ∈ o.flatten, p.token.IsShown value)
    (hlookup : ∀ key c, Keeps c →
      (Context.lookup key c).1 = value key ∧ Keeps (Context.lookup key c).2)
    {s : Session} (hkeeps : Keeps s.context)
    (hroom : s.sink.HasRoom (Text.encode o.shown.flatten)) :
    (o.eval s).Writes s.sink Keeps o.shown.flatten := by
  induction o using shown.induct generalizing s with
  | case1 =>
    rw [eval, shown]
    exact Session.return_writes hkeeps
  | case2 p rest hliteral ih =>
    simp only [map, isWellNested, Bool.and_eq_true] at h
    rw [flatten, List.forall_mem_cons] at hshown
    rw [shown, if_pos hliteral, List.flatten_cons] at hroom ⊢
    have hfirst : s.sink.HasRoom p.trimmed.encode := Sink.hasRoom_of_append hroom
    rw [eval]
    dsimp only
    rw [Placed.render_of_isLiteral hliteral]
    exact (Session.write_writes hkeeps hfirst).andThen hroom fun s => ih h.2 hshown.2
  | case3 p rest hliteral ih =>
    simp only [map, isWellNested, Bool.and_eq_true] at h
    rw [flatten, List.forall_mem_cons] at hshown
    have hcomment := (hshown.1.of_isLeaf h.1).resolve_left hliteral
    rw [shown, if_neg hliteral] at hroom ⊢
    rw [eval]
    dsimp only
    rw [Placed.render_of_isComment hcomment, Outcome.return_andThen]
    exact ih h.2 hshown.2 hkeeps hroom
  | case4 opener body closer rest ihb ihr =>
    simp only [map, isWellNested, Bool.and_eq_true] at h
    obtain ⟨⟨⟨ho, hb⟩, -⟩, hr⟩ := h
    simp only [flatten, List.forall_mem_cons, List.forall_mem_append] at hshown
    obtain ⟨hopener, hbody, -, hrest⟩ := hshown
    have htrimmed : ∀ p ∈ body.trimBreaks.flatten, p.token.IsShown value := by
      rw [flatten_trimBreaks hb]
      exact fun p hp => hbody p ((Template.sectionBody_sublist _).subset hp)
    obtain ⟨hif, hvalue⟩ := hopener.of_isOpener ho
    obtain ⟨hfound, hkeeps'⟩ := hlookup opener.token.key s.context hkeeps
    rw [shown, List.flatten_append] at hroom ⊢
    have hfirst : s.sink.HasRoom (Text.encode body.trimBreaks.shown.flatten) :=
      Sink.hasRoom_of_append hroom
    -- The look-up of the key leaves the sink alone.
    let after : Session := (s.lookup opener.token.key).2
    have hwrites : (body.trimBreaks.eval after).Writes s.sink Keeps body.trimBreaks.shown.flatten :=
      ihb (isWellNested_trimBreaks hb) htrimmed (s := after) hkeeps' hfirst
    rw [eval]
    dsimp only
    rw [Session.enter_of_bool hif (hfound.trans hvalue)]
    exact hwrites.andThen hroom fun s => ihr hr hrest

end Outline

/-! ## Renderers -/

theorem Token.Lexing.run_of_result {l : Lexing} {tokens : List Token} (h : l.result = .ok tokens)
    (s : Session) : l.run s = (Template.ofTokens tokens).run s := by
  unfold Lexing.result at h
  unfold Lexing.run
  split at h
  next hend =>
    rw [hend, Except.ok.inj h]
  next => cases h

/-- A single scope finds the same values whatever was looked up in it. -/
theorem Context.lookup_of_isSingle_eq (scope : Scope) (key : Text) {c : Context}
    (h : c.IsSingle scope.values) :
    (c.lookup key).1 = (Context.lookup key [scope]).1 ∧ (c.lookup key).2.IsSingle scope.values := by
  obtain ⟨hfound, hkeeps⟩ := lookup_of_isSingle h key
  exact ⟨hfound.trans (lookup_of_isSingle ⟨scope.claimed, rfl⟩ key).1.symm, hkeeps⟩

/-- Trimming takes no visible text away, at any depth of nesting. -/
theorem Renderer.render_shown (r : Renderer) (name : Text) (scope : Scope) (source : Source)
    (sink : Sink) (o : Outline Token) (hsink : r.sink = some sink) (hlimit : sink.limit = none)
    (hsource : r.sources.get? name = some source)
    (hresult : (Token.lex r.limits source.rewind).result = .ok o.flatten)
    (hnested : o.isWellNested = true)
    (hshown : ∀ t ∈ o.flatten, t.IsShown fun key => (Context.lookup key [scope]).1) :
    ∃ written, Text.TrimsTo (Token.literals o.flatten) written ∧
      (r.render name [scope]).Writes sink written.flatten ∧
      Text.visible written.flatten = Text.visible (Token.literals o.flatten).flatten := by
  -- The lexer gives the outline without neighbours; what is evaluated has them.
  let placed : Outline Placed := o.place none none
  have hplaced : placed.flatten = Placed.ofTokens none o.flatten := Outline.flatten_place o
  have htokens : placed.flatten.map Placed.token = o.flatten := by
    rw [hplaced, Placed.map_token_ofTokens]
  have hnested' : (placed.map Placed.token).isWellNested = true := by
    rwa [Outline.map_token_place]
  have hshown' : ∀ p ∈ placed.flatten,
      p.token.IsShown fun key => (Context.lookup key [scope]).1 := by
    intro p hp
    exact hshown p.token (htokens ▸ List.mem_map_of_mem hp)
  have htrims : Text.TrimsTo (Token.literals o.flatten) placed.shown :=
    htokens ▸ Outline.trimsTo_shown hnested'
  have hrun : ((Token.lex r.limits source.rewind).run ⟨[scope], sink⟩).Writes sink
      (Context.IsSingle scope.values) placed.shown.flatten := by
    rw [Token.Lexing.run_of_result hresult, Template.ofTokens, ← hplaced,
      Outline.run_ofPlaced_flatten hnested']
    exact Outline.eval_writes (s := ⟨[scope], sink⟩) hnested' hshown'
      (fun key c => Context.lookup_of_isSingle_eq scope key) ⟨scope.claimed, rfl⟩
      (Sink.hasRoom_of_limit hlimit _)
  refine ⟨placed.shown, htrims, ?_, htrims.visible⟩
  rw [render_of_source hsink hsource]
  refine ⟨hrun.failure, ?_⟩
  dsimp only
  rw [Option.map_some, hrun.sink, Sink.contents_took]

def standaloneSections : Outline Token :=
  .leaf ⟨⟨['x', '\n'], ⟨1, 1⟩, ⟨1, 1⟩⟩⟩
    (.sect (Outline.tokenAt 2 1 ['{', '{', '#', 'a', '}', '}'])
      (.leaf (Outline.tokenAt 2 6 ['\n'])
        (.sect (Outline.tokenAt 3 1 ['{', '{', '^', 'b', '}', '}'])
          (.leaf ⟨⟨[' ', 'y', ' ', '\n', ' '], ⟨3, 7⟩, ⟨4, 1⟩⟩⟩ .done)
          (Outline.tokenAt 4 2 ['{', '{', '/', 'b', '}', '}'])
          (.leaf (Outline.tokenAt 4 7 ['\n']) .done)))
      (Outline.tokenAt 5 1 ['{', '{', '/', 'a', '}', '}'])
      (.leaf ⟨⟨['\n', ' ', 'z'], ⟨5, 6⟩, ⟨6, 2⟩⟩⟩ .done))

def standaloneScope : Scope := .ofValues [(['a'], .bool true), (['b'], .bool false)]

theorem render_standaloneSections :
    let template := standaloneSections.flatten.flatMap Token.text
    (Token.lex ⟨40, 7⟩ (Source.ofText template).rewind).result = .ok standaloneSections.flatten ∧
      standaloneSections.isWellNested = true ∧
      ∃ written, Text.TrimsTo (Token.literals standaloneSections.flatten) written ∧
        ((shortRenderer template).render ['t'] [standaloneScope]).Writes .unlimited
          written.flatten ∧
        Text.visible written.flatten = ['x', 'y', 'z'] := by
  intro template
  have hresult : (Token.lex ⟨40, 7⟩ (Source.ofText template).rewind).result =
      .ok standaloneSections.flatten := by
    decide +kernel
  have hnested : standaloneSections.isWellNested = true := by decide
  have ha : (Context.lookup ['a'] [standaloneScope]).1 = some (.bool true) := by
    rw [Context.lookup_single, Mapping.resolve_of_no_dot (by decide) (by decide)]
    rfl
  have hb : (Context.lookup ['b'] [standaloneScope]).1 = some (.bool false) := by
    rw [Context.lookup_single, Mapping.resolve_of_no_dot (by decide) (by decide)]
    rfl
  have hshown : ∀ t ∈ standaloneSections.flatten,
      t.IsShown fun key => (Context.lookup key [standaloneScope]).1 := by
    have hkinds : ∀ t ∈ standaloneSections.flatten, t.isLiteral = true ∨ t.has .closer = true ∨
        t.opensSection = true ∧ (t.key = ['a'] ∧ t.has .opener = true ∨
          t.key = ['b'] ∧ t.has .opener = false) := by
      decide
    intro t ht
    rcases hkinds t ht with hliteral | hcloser | ⟨hopens, ⟨hkey, hhas⟩ | ⟨hkey, hhas⟩⟩
    · exact Or.inl hliteral
    · exact Or.inr (Or.inr (Or.inl hcloser))
    · exact Or.inr (Or.inr (Or.inr ⟨hopens, by rw [hkey]; decide, by rw [hkey, hhas]; exact ha⟩))
    · exact Or.inr (Or.inr (Or.inr ⟨hopens, by rw [hkey]; decide, by rw [hkey, hhas]; exact hb⟩))
  obtain ⟨written, htrims, hwrites, hvisible⟩ := Renderer.render_shown (shortRenderer template)
    ['t'] standaloneScope (.ofText template) .unlimited standaloneSections rfl rfl rfl hresult
    hnested hshown
  refine ⟨hresult, hnested, written, htrims, hwrites, ?_⟩
  rw [hvisible]
  decide

end Mustache
