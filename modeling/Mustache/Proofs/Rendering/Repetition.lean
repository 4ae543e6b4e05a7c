import Mustache.Proofs.Rendering.Compositional
import Mustache.Proofs.Rendering.Interpolation

namespace Mustache

/-- Contexts that differ at most in the names that their last scopes claim. -/
inductive Context.SameButRoot : Context → Context → Prop
  | nil : SameButRoot [] []
  | root (values : Mapping) (claimed claimed' : List Text) :
    SameButRoot [⟨values, claimed⟩] [⟨values, claimed'⟩]
  | cons (s : Scope) {outer outer' : Context} :
    SameButRoot outer outer' → SameButRoot (s :: outer) (s :: outer')

namespace Context

theorem SameButRoot.tail {c c' : Context} (h : c.SameButRoot c') : SameButRoot c.tail c'.tail := by
  cases h with
  | nil => exact .nil
  | root => exact .nil
  | cons s h => exact h

/-- The last scope has no say in whether a look-up goes on. -/
theorem SameButRoot.lookup {c c' : Context} (h : c.SameButRoot c') (key : Text) :
    (c.lookup key).1 = (c'.lookup key).1 ∧ (c.lookup key).2.SameButRoot (c'.lookup key).2 := by
  induction h with
  | nil => exact ⟨rfl, .nil⟩
  | root values claimed claimed' =>
    rw [lookup_single, lookup_single]
    exact ⟨rfl, .root values _ _⟩
  | cons s h ih =>
    obtain ⟨hfound, hsame⟩ := ih
    cases hpass : s.passes key with
    | true =>
      rw [lookup_cons_of_passes hpass, lookup_cons_of_passes hpass]
      exact ⟨hfound, .cons _ hsame⟩
    | false =>
      rw [lookup_cons_of_not_passes hpass, lookup_cons_of_not_passes hpass]
      exact ⟨rfl, .cons _ h⟩

theorem values_lookup (c : Context) (key : Text) :
    (c.lookup key).2.map Scope.values = c.map Scope.values := by
  induction c with
  | nil => rfl
  | cons s outer ih =>
    cases hpass : s.passes key with
    | true =>
      rw [lookup_cons_of_passes hpass, List.map_cons, List.map_cons, ih]
      rfl
    | false =>
      rw [lookup_cons_of_not_passes hpass]
      rfl

end Context

/-- The session is another one with more names claimed by its last scope and more bytes in front in
its sink, and both sinks are without a limit. -/
structure Session.Repeats (before : Text.Bytes) (s first : Session) : Prop where
  context : s.context.SameButRoot first.context
  limit : s.sink.limit = none
  limit_first : first.sink.limit = none
  contents : s.sink.contents = before ++ first.sink.contents

structure Outcome.Repeats (before : Text.Bytes) (o first : Outcome) : Prop where
  session : o.session.Repeats before first.session
  failure : o.failure = first.failure

theorem Session.write_of_limit {s : Session} (h : s.sink.limit = none) (t : Text) :
    s.write t = ⟨{ s with sink := s.sink.took t.encode }, none⟩ := by
  rw [Session.write, Sink.write_of_hasRoom (Sink.hasRoom_of_limit h t.encode)]
  rfl

theorem Session.Repeats.write {before : Text.Bytes} {s first : Session} (h : s.Repeats before first)
    (t : Text) : (s.write t).Repeats before (first.write t) := by
  rw [write_of_limit h.limit, write_of_limit h.limit_first]
  refine ⟨⟨h.context, h.limit, h.limit_first, ?_⟩, rfl⟩
  dsimp only
  rw [Sink.contents_took, Sink.contents_took, h.contents, List.append_assoc]

theorem Session.repeats_compositional (before : Text.Bytes) : Compositional fun run =>
    ∀ s first : Session, s.Repeats before first → (run s).Repeats before (run first) where
  skip s first h := ⟨h, rfl⟩
  fail e s first h := ⟨h, rfl⟩
  write t s first h := h.write t
  lookup key {next} hnext s first h := by
    obtain ⟨hfound, hsame⟩ := h.context.lookup key
    have hfound' : (s.lookup key).1 = (first.lookup key).1 := hfound
    dsimp only
    rw [hfound']
    exact hnext _ _ _ ⟨hsame, h.limit, h.limit_first, h.contents⟩
  andThen {run next} hrun hnext s first h := by
    obtain ⟨hsession, hfailure⟩ := hrun s first h
    dsimp only [Outcome.andThen]
    rw [hfailure]
    cases (run first).failure with
    | none => exact hnext _ _ hsession
    | some e => exact hrun s first h
  within {run} hrun values s first h := by
    obtain ⟨hsession, hfailure⟩ := hrun ⟨.ofValues values :: s.context, s.sink⟩
      ⟨.ofValues values :: first.context, first.sink⟩
      ⟨.cons _ h.context, h.limit, h.limit_first, h.contents⟩
    exact ⟨⟨hsession.context.tail, hsession.limit, hsession.limit_first, hsession.contents⟩,
      hfailure⟩

/-- A run leaves the values of its context as they are. -/
theorem Session.values_compositional : Compositional fun run => ∀ s : Session,
    (run s).session.context.map Scope.values = s.context.map Scope.values where
  skip _ := rfl
  fail _ _ := rfl
  write _ _ := rfl
  lookup key {next} hnext s := (hnext _ _).trans (s.context.values_lookup key)
  andThen {run next} hrun hnext s := by
    dsimp only [Outcome.andThen]
    cases (run s).failure with
    | none => exact (hnext _).trans (hrun s)
    | some e => exact hrun s
  within {run} hrun values s := by
    have hinner := hrun ⟨.ofValues values :: s.context, s.sink⟩
    exact List.map_tail.trans (congrArg List.tail hinner)

namespace Token

/-- Two sources of which the same has been read, and of which the same is left, are cut in the same
way whatever their names are. -/
theorem lexWithin_eq_of_text (limits : Limits) (loops : Nat) {s s' : Source}
    (hbefore : s.before = s'.before) (hafter : s.after = s'.after) :
    (lexWithin limits loops s).tokens = (lexWithin limits loops s').tokens ∧
      (lexWithin limits loops s).failure = (lexWithin limits loops s').failure := by
  induction loops generalizing s s' with
  | zero => exact ⟨rfl, rfl⟩
  | succ loops ih =>
    have hpeek (size : Nat) : s.peek size = s'.peek size := by
      rw [Source.peek, Source.peek, hbefore, hafter]
    rw [lexWithin, lexWithin, hafter]
    dsimp only
    split
    · exact ⟨rfl, rfl⟩
    · split
      · rw [hpeek]
        exact ⟨rfl, rfl⟩
      next piece _ =>
        obtain ⟨htokens, hfailure⟩ := @ih (s.read piece.byteCount).2 (s'.read piece.byteCount).2
          (by rw [Source.read, Source.read, hbefore, hafter])
          (by rw [Source.read, Source.read, hafter])
        exact ⟨congrArg₂ _ (congrArg _ (hpeek _)) htokens, hfailure⟩

end Token

theorem Session.Compositional.run_lexing {P : (Session → Outcome) → Prop} (h : Compositional P)
    (l : Token.Lexing) : P l.run := by
  unfold Token.Lexing.run
  cases l.failure with
  | none => exact h.run _
  | some e => exact h.fail e

namespace Renderer

theorem render_of_source {r : Renderer} {name : Text} {source : Source} {sink : Sink}
    (hsink : r.sink = some sink) (hsource : r.sources.get? name = some source)
    (context : Context) :
    r.render name context =
      let lexing := Token.lex r.limits source.rewind
      let outcome := lexing.run ⟨context, sink⟩
      ⟨{ r with
          sink := some outcome.session.sink
          sources := r.sources.insert name lexing.source },
        outcome.session.context, outcome.failure⟩ := by
  rw [render, hsink]
  dsimp only
  rw [hsource]

theorem render_cases (r : Renderer) (name : Text) (context : Context) :
    (∃ e, r.render name context = ⟨r, context, some e⟩) ∨
      ∃ sink source, r.sink = some sink ∧ r.sources.get? name = some source := by
  rw [render]
  cases r.sink with
  | none => exact Or.inl ⟨_, rfl⟩
  | some sink =>
    cases r.sources.get? name with
    | none => exact Or.inl ⟨_, rfl⟩
    | some source => exact Or.inr ⟨sink, source, rfl, rfl⟩

theorem values_context_render (r : Renderer) (name : Text) (context : Context) :
    (r.render name context).context.map Scope.values = context.map Scope.values := by
  obtain ⟨e, hrender⟩ | ⟨sink, source, hsink, hsource⟩ := r.render_cases name context
  · rw [hrender]
  · rw [render_of_source hsink hsource]
    exact Session.values_compositional.run_lexing _ _

theorem limits_render (r : Renderer) (name : Text) (context : Context) :
    (r.render name context).renderer.limits = r.limits := by
  obtain ⟨e, hrender⟩ | ⟨sink, source, hsink, hsource⟩ := r.render_cases name context
  · rw [hrender]
  · rw [render_of_source hsink hsource]

theorem text_get?_render (r : Renderer) (name other : Text) (context : Context) :
    ((r.render name context).renderer.sources.get? other).map Source.text =
      (r.sources.get? other).map Source.text := by
  obtain ⟨e, hrender⟩ | ⟨sink, source, hsink, hsource⟩ := r.render_cases name context
  · rw [hrender]
  · rw [render_of_source hsink hsource]
    dsimp only
    by_cases hother : other = name
    · rw [hother, Entries.get?_insert_self, hsource, Option.map_some, Option.map_some, Token.lex,
        Token.text_source_lexWithin, Source.text_rewind]
    · rw [Entries.get?_insert_of_ne hother]

/-- What last scopes claim has no effect, since there is no scope further out to keep a key from. -/
theorem render_repeats {r first : Renderer} {name firstName : Text} {source firstSource : Source}
    {sink firstSink : Sink} {context firstContext : Context} {before : Text.Bytes}
    (hlimits : r.limits = first.limits) (hsource : r.sources.get? name = some source)
    (hfirst : first.sources.get? firstName = some firstSource)
    (htext : source.text = firstSource.text) (hsink : r.sink = some sink)
    (hfirstSink : first.sink = some firstSink)
    (h : Session.Repeats before ⟨context, sink⟩ ⟨firstContext, firstSink⟩) :
    (r.render name context).failure = (first.render firstName firstContext).failure ∧
      ∃ s s₁, (r.render name context).renderer.sink = some s ∧
        (first.render firstName firstContext).renderer.sink = some s₁ ∧
        s.contents = before ++ s₁.contents := by
  obtain ⟨htokens, hfailure⟩ := @Token.lexWithin_eq_of_text first.limits first.limits.maxLoops
    source.rewind firstSource.rewind rfl htext
  have hrun : (Token.lex r.limits source.rewind).run =
      (Token.lex first.limits firstSource.rewind).run := by
    unfold Token.Lexing.run
    rw [hlimits, Token.lex, Token.lex, htokens, hfailure]
  obtain ⟨hsession, hfailed⟩ :=
    (Session.repeats_compositional before).run_lexing (Token.lex r.limits source.rewind) _ _ h
  rw [render_of_source hsink hsource, render_of_source hfirstSink hfirst]
  dsimp only
  rw [← hrun]
  exact ⟨hfailed, _, _, rfl, rfl, hsession.contents⟩

end Renderer

end Mustache
