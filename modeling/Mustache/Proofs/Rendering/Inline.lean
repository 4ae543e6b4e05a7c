import Mustache.Proofs.Rendering.Places
import Mustache.Proofs.Rendering.Workshop

namespace Mustache

/-- Whether a template or its values are the reason of an error, and not what is read or written, or
how sources and settings are kept. -/
def Error.arisesFromTemplate : Error → Bool
  | unclosedTag _ | loopLimit _ | unmatchedSection _ _ | missingSectionVariable _ _
  | untestableKind _ _ | unwritableKind _ | unsupported _ _ => true
  | _ => false

theorem Token.Causes.arisesFromTemplate {t : Token} {e : Error} (h : t.Causes e) :
    e.arisesFromTemplate = true := by
  cases h <;> rfl

theorem Token.arisesFromTemplate_of_failure_lex {limits : Limits} {s : Source} {e : Error}
    (h : (lex limits s).failure = some e) : e.arisesFromTemplate = true := by
  rcases of_failure_lex h with rfl | ⟨-, rfl⟩ <;> rfl

/-- The sink has taken a text behind what it had, and what has failed is an error of the given
ones. -/
structure Outcome.WritesText (errors : Error → Prop) (before : Sink) (o : Outcome) : Prop where
  sink : ∃ t : Text, o.session.sink = before.took t.encode
  failure (e : Error) : o.failure = some e → errors e

theorem Session.fail_writesText {errors : Error → Prop} {e : Error} (he : errors e) (s : Session) :
    (s.fail e).WritesText errors s.sink := by
  refine ⟨⟨[], s.sink.took_nil.symm⟩, fun e' h => ?_⟩
  cases h
  exact he

/-- Texts written one behind the other are a text, so that a run into a sink without a limit writes
one, wherever it stops. -/
theorem Session.writesText_compositionalOver (keys : Text → Prop) (errors : Error → Prop) :
    CompositionalOver keys errors fun run =>
      ∀ s : Session, s.sink.limit = none → (run s).WritesText errors s.sink where
  skip s _ := by
    refine ⟨⟨[], s.sink.took_nil.symm⟩, fun e h => ?_⟩
    cases h
  fail e he s _ := s.fail_writesText he
  write t s hlimit := by
    dsimp only
    rw [write_of_limit hlimit]
    refine ⟨⟨t, rfl⟩, fun e h => ?_⟩
    cases h
  lookup key _ _ hnext s hlimit := hnext (s.lookup key).1 (s.lookup key).2 hlimit
  andThen {run next} hrun hnext s hlimit := by
    have hfirst := hrun s hlimit
    dsimp only [Outcome.andThen]
    cases (run s).failure with
    | some e => exact hfirst
    | none =>
      obtain ⟨t, ht⟩ := hfirst.sink
      have hunlimited : (run s).session.sink.limit = none := by
        rw [ht]
        exact hlimit
      have hsecond := hnext (run s).session hunlimited
      obtain ⟨u, hu⟩ := hsecond.sink
      refine ⟨⟨t ++ u, ?_⟩, hsecond.failure⟩
      rw [hu, ht, Sink.took_took, Text.encode_append]
  within hrun values s hlimit := by
    have hinner := hrun ⟨.ofValues values :: s.context, s.sink⟩ hlimit
    exact ⟨hinner.sink, hinner.failure⟩

theorem Token.writesText_run_lex (limits : Limits) (source : Source) {s : Session}
    (hlimit : s.sink.limit = none) :
    ((lex limits source).run s).WritesText (·.arisesFromTemplate = true) s.sink := by
  unfold Lexing.run
  cases hlexing : (lex limits source).failure with
  | some e => exact s.fail_writesText (arisesFromTemplate_of_failure_lex hlexing)
  | none =>
    have hrun := (Session.writesText_compositionalOver _ _).run
      (Template.usesOnly_ofTokens (lex limits source).tokens) s hlimit
    refine ⟨hrun.sink, fun e he => ?_⟩
    obtain ⟨t, -, -, hcauses⟩ := hrun.failure e he
    exact hcauses.arisesFromTemplate

def inlineSource (template : Text) : Source :=
  { Source.ofText template with name := some inlineName }

/-- Nothing but the template and its values can make this fail: the name is new, the sink takes
everything, and what is written can be decoded. -/
theorem render_result (template : Text) (values : Mapping) :
    ∃ source renderer written, (Source.ofText template).named inlineName = .ok source ∧
      { Renderer.ofLimits {} with sink := some .unlimited }.add source = .ok renderer ∧
      let rendering := renderer.render inlineName [.ofValues values]
      rendering.renderer.sink.map Sink.contents = some written.encode ∧
        match rendering.failure with
        | none => render template values = .ok written
        | some e => render template values = .error e ∧ e.arisesFromTemplate = true := by
  have hnamed : (Source.ofText template).named inlineName = .ok (inlineSource template) := rfl
  have hname : (inlineSource template).name = some inlineName := rfl
  obtain ⟨r, hadd, -, hsink, hsource⟩ := Renderer.exists_add
    (r := { Renderer.ofLimits {} with sink := some .unlimited }) hname (by decide) rfl
  have hwrites := Token.writesText_run_lex r.limits (inlineSource template).rewind
    (s := ⟨[.ofValues values], .unlimited⟩) rfl
  -- A run that fails has written a text too, so that decoding is the same in both cases.
  obtain ⟨written, hwritten⟩ := hwrites.sink
  have hrender := Renderer.render_of_source hsink hsource [.ofValues values]
  have hcontents :
      (r.render inlineName [.ofValues values]).renderer.sink.map Sink.contents =
        some written.encode := by
    rw [hrender]
    dsimp only
    rw [hwritten, Option.map_some, Sink.contents_took]
    rfl
  refine ⟨inlineSource template, r, written, hnamed, hadd, hcontents, ?_⟩
  simp only [render, hnamed, hadd, bind, Except.bind]
  cases hfailure : (r.render inlineName [.ofValues values]).failure with
  | none =>
    dsimp only
    rw [hcontents, Option.getD_some, Text.decode?_encode]
  | some e =>
    rw [hrender] at hfailure
    exact ⟨rfl, hwrites.failure e hfailure⟩

end Mustache
