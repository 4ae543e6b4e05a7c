import Mustache.Proofs.Lexing.Replacing
import Mustache.Proofs.Rendering.Comment
import Mustache.Proofs.Rendering.Repetition

namespace Mustache

def Outcome.dropColumn (o : Outcome) : Outcome :=
  { o with failure := o.failure.map Error.dropColumn }

theorem Session.dropColumn_congruence :
    Congruence (fun e => e.dropColumn = e) (fun _ => True)
      fun run run' => ∀ s, run' s = (run s).dropColumn where
  skip s := rfl
  fail e he s := congrArg (fun e => Outcome.mk s (some e)) he.symm
  write t s := by
    dsimp only [Session.write, Outcome.dropColumn]
    rw [Option.map_map]
    rfl
  andThen {run run' next next'} hrun hnext s := by
    dsimp only
    rw [hrun s]
    dsimp only [Outcome.andThen, Outcome.dropColumn]
    cases hfailure : (run s).failure with
    | none => exact hnext _
    | some e =>
      dsimp only [Option.map_some]
      rw [hfailure, Option.map_some]
  within {run run' values} hrun _ s := by
    dsimp only [Session.within]
    rw [hrun]
    rfl

theorem Template.run_dropColumns (t : Template) :
    ∀ s, t.dropColumns.run s = (t.run s).dropColumn := by
  have hcongr := Session.dropColumn_congruence
  induction t with
  | done => exact hcongr.skip
  | text t rest ih => exact hcongr.andThen (hcongr.write t) ih
  | value key escaped rest ih =>
    refine hcongr.andThen (fun s => ?_) ih
    rw [Session.writeValue_eq]
    exact hcongr.writeFor (fun _ => rfl) escaped _ _
  | sect tag body rest ihbody ih =>
    refine hcongr.andThen (fun s => ?_) ih
    rw [Session.runSection_eq, Session.runSection_eq]
    have hkey : tag.dropColumn.key = tag.key := rfl
    rw [hkey]
    cases (s.lookup tag.key).1 with
    | none => rfl
    | some v => exact hcongr.sectionFor (fun _ => rfl) (fun _ _ => trivial) ihbody _
  | stop failure => exact fun s => rfl

theorem Token.map_aspect_congr {ts us : List Token}
    (h : us.map dropColumn = ts.map dropColumn) : us.map aspect = ts.map aspect := by
  induction ts generalizing us with
  | nil => rw [List.map_eq_nil_iff.1 h]
  | cons t ts ih =>
    obtain ⟨u, us, rfl, hfirst, hrest⟩ := List.map_eq_cons_iff.1 h
    obtain ⟨htext, hline⟩ := Prod.mk.inj hfirst
    rw [List.map_cons, List.map_cons, aspect_congr htext hline, ih hrest]

theorem Token.Lexing.run_congr {l l' : Lexing}
    (htokens : l'.tokens.map aspect = l.tokens.map aspect)
    (hfailure : l'.failure.map Error.dropColumn = l.failure.map Error.dropColumn) (s : Session) :
    (l'.run s).dropColumn = (l.run s).dropColumn := by
  unfold run
  cases hl : l.failure with
  | none =>
    rw [hl] at hfailure
    rw [Option.map_eq_none_iff.1 hfailure]
    dsimp only
    rw [← Template.run_dropColumns, ← Template.run_dropColumns,
      Template.dropColumns_ofTokens_congr htokens]
  | some e =>
    rw [hl, Option.map_some] at hfailure
    obtain ⟨e', hl', he⟩ := Option.map_eq_some_iff.1 hfailure
    rw [hl']
    exact congrArg (fun e => Outcome.mk s (some e)) he

/-- The renderings write the same, leave the same context, and fail with the same error but for the
column in it, or not at all. -/
structure Rendering.Agrees (o o' : Rendering) : Prop where
  sink : o.renderer.sink = o'.renderer.sink
  context : o.context = o'.context
  failure : o.failure.map Error.dropColumn = o'.failure.map Error.dropColumn

theorem Renderer.agrees_of_lexing {r : Renderer} {name : Text} {source source' : Source}
    (hsource : r.sources.get? name = some source)
    (htokens : (Token.lex r.limits source'.rewind).tokens.map Token.aspect =
      (Token.lex r.limits source.rewind).tokens.map Token.aspect)
    (hfailure : (Token.lex r.limits source'.rewind).failure.map Error.dropColumn =
      (Token.lex r.limits source.rewind).failure.map Error.dropColumn) (context : Context) :
    ({ r with sources := r.sources.insert name source' }.render name context).Agrees
      (r.render name context) := by
  have hsource' : (r.sources.insert name source').get? name = some source' :=
    Entries.get?_insert_self name source' r.sources
  obtain ⟨sink, sources, limits⟩ := r
  cases sink with
  | none => exact ⟨rfl, rfl, rfl⟩
  | some sink =>
    rw [render_of_source rfl hsource, render_of_source rfl hsource']
    have hrun := Token.Lexing.run_congr htokens hfailure ⟨context, sink⟩
    have hsession := congrArg Outcome.session hrun
    exact ⟨congrArg (fun s => some s.sink) hsession, congrArg Session.context hsession,
      congrArg Outcome.failure hrun⟩

def Text.IsCommentBody (t : Text) : Prop := ∀ c ∈ t, c ≠ '}' ∧ Location.isBreak c = false

namespace Text.IsCommentBody

variable {body : Text} (h : body.IsCommentBody)

include h

theorem not_mem_brace : '}' ∉ body := fun hmem => (h _ hmem).1 rfl

theorem not_mem_return : '\r' ∉ body := fun hmem => Bool.false_ne_true (h _ hmem).2.symm

theorem no_break : ∀ c ∈ comment body, Location.isBreak c = false := by
  intro c hc
  rcases List.mem_append.1 hc with hfront | hclosing
  · rcases List.mem_append.1 hfront with hopening | hbody
    · simp only [List.mem_cons, List.not_mem_nil, or_false] at hopening
      rcases hopening with rfl | rfl | rfl <;> rfl
    · exact (h c hbody).2
  · simp only [List.mem_cons, List.not_mem_nil, or_false] at hclosing
    rcases hclosing with rfl | rfl <;> rfl

end Text.IsCommentBody

/-- A tag with no closing braces inside is closed by its own unless one more follows. -/
theorem Text.throughClosing?_append_iff {front rest : Text} (hfront : '}' ∉ front) :
    Token.throughClosing? (front ++ ['}', '}'] ++ rest) = some (front ++ ['}', '}']) ↔
      rest.head? ≠ some '}' := by
  have hbreak := breakOn?_closing_append hfront rest
  rw [List.append_assoc, Scan.throughClosing?_eq_some_iff]
  constructor
  · rintro ⟨inner, closing, hinner, hpiece⟩ hbrace
    obtain ⟨more, rfl⟩ := List.head?_eq_some_iff.1 hbrace
    cases hbreak.symm.trans hinner
    have hthree : Scan.closingLength (['}', '}'] ++ '}' :: more) = 3 :=
      Scan.closingLength_third more
    have hlength := congrArg List.length hpiece
    rw [hthree] at hlength
    simp at hlength
  · intro hrest
    have htwo : Scan.closingLength (['}', '}'] ++ rest) = 2 := Scan.closingLength_of_not_third hrest
    refine ⟨_, _, hbreak, ?_⟩
    rw [htwo]
    rfl

theorem Text.throughClosing?_comment_iff {body rest : Text} (hbody : '}' ∉ body) :
    Token.throughClosing? (comment body ++ rest) = some (comment body) ↔
      rest.head? ≠ some '}' :=
  throughClosing?_append_iff (by simp [hbody])

theorem Text.opensTag_comment (body : Text) : Token.opensTag (comment body) = true := rfl

theorem Token.aspect_comment {t u : Token} {c d : Text} (ht : t.text = Text.comment c)
    (hu : u.text = Text.comment d) (hplace : u.place = t.place) : u.aspect = t.aspect := by
  have hline : u.line = t.line := congrArg Location.line hplace
  rw [aspect_of_isComment (isComment_of_text ht), aspect_of_isComment (isComment_of_text hu), hline]

/-- A comment is a comment whatever its text looks like. A line break in it would move what follows
to another line, and in a comment that fills the window the closing braces might not be in view. -/
theorem Renderer.render_replaceComment (r : Renderer) (name : Text) (context : Context)
    (source source' : Source) (p q c d : Text) (front back : List Token) (t : Token)
    (hsource : r.sources.get? name = some source)
    (htext : source.text = (p ++ Text.comment c ++ q).unifyLineBreaks)
    (htext' : source'.text = (p ++ Text.comment d ++ q).unifyLineBreaks)
    (htokens : (Token.lex r.limits source.rewind).tokens = front ++ t :: back)
    (hfront : front.flatMap Token.text = p.unifyLineBreaks) (ht : t.text = Text.comment c)
    (hc : c.IsCommentBody) (hd : d.IsCommentBody)
    (hfit : (Text.comment c).byteCount < r.limits.window)
    (hfit' : (Text.comment d).byteCount < r.limits.window) :
    ({ r with sources := r.sources.insert name source' }.render name context).Agrees
      (r.render name context) := by
  rw [Text.unifyLineBreaks_comment hc.not_mem_return, ← hfront, ← ht] at htext
  rw [Text.unifyLineBreaks_comment hd.not_mem_return, ← hfront] at htext'
  have htag : t.isLiteral = false := by
    rw [Token.isLiteral_eq, ht, Text.opensTag_comment]
    rfl
  have hrest : q.unifyLineBreaks.head? ≠ some '}' := by
    apply (Text.throughClosing?_comment_iff hc.not_mem_brace).1
    rw [← ht] at hfit ⊢
    exact Token.throughClosing?_of_tokens htokens htext htag hfit
  have hline : Location.SameLine ([] ++ front.flatMap Token.text ++ t.text)
      ([] ++ front.flatMap Token.text ++ Text.comment d) := by
    rw [ht]
    exact Location.sameLine_append_of_no_break _ nofun nofun hc.no_break hd.no_break
  obtain ⟨t', back', htokens', ht', hplace, hback, hfailure⟩ :=
    @Token.lexWithin_replace r.limits r.limits.maxLoops front back t source.rewind source'.rewind
      (Text.comment d) q.unifyLineBreaks htokens rfl htext htext' htag (Text.opensTag_comment d)
      ((Text.throughClosing?_comment_iff hd.not_mem_brace).2 hrest) (Nat.le_of_lt hfit') hline
  apply agrees_of_lexing hsource _ hfailure
  rw [htokens, Token.lex, htokens', List.map_append, List.map_append, List.map_cons, List.map_cons,
    Token.aspect_comment ht ht' hplace, Token.map_aspect_congr hback]

def commentedSection : Text := "a\r\n{{#b}}{{!c}}{{k}}{{/b}}{{#z}}".toList

/-- The comment looks like the tags of sections. -/
def misleadingComment : Text := "a\r\n{{#b}}{{!/b}}{{k}}{{/b}}{{#z}}".toList

/-- The section goes on behind the comment, and the error is found on the second line. -/
theorem render_misleadingComment :
    let r := Renderer.ofTemplate commentedSection {}
    let r' := { r with sources := r.sources.insert ['t'] (.ofText misleadingComment) }
    let rendering := r'.render ['t'] [.ofValues [(['b'], .bool true), (['k'], .string ['1'])]]
    rendering.renderer.sink.map Sink.contents = some (Text.encode ['a', '\n', '1']) ∧
      rendering.failure.map Error.dropColumn = some (.unmatchedSection ['z'] ⟨2, 0⟩) := by
  intro r r'
  let tokens := (Token.lex {} (Source.ofText commentedSection).rewind).tokens
  have hagrees := Renderer.render_replaceComment r ['t']
    [.ofValues [(['b'], .bool true), (['k'], .string ['1'])]] (.ofText commentedSection)
    (.ofText misleadingComment) "a\r\n{{#b}}".toList "{{k}}{{/b}}{{#z}}".toList ['c'] ['/', 'b']
    (tokens.take 2) (tokens.drop 3)
    (.behind ['a', '\n', '{', '{', '#', 'b', '}', '}'] (Text.comment ['c'])) rfl
    (by decide +kernel) (by decide +kernel) (by decide +kernel) (by decide +kernel) rfl
    (by simp [Text.IsCommentBody, Location.isBreak])
    (by simp [Text.IsCommentBody, Location.isBreak]) (by decide) (by decide)
  dsimp only
  rw [hagrees.sink, hagrees.failure]
  decide +kernel

end Mustache
