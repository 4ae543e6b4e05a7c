import Mustache.Proofs.Lookup.Root
import Mustache.Proofs.Rendering.Lookahead
import Mustache.Proofs.Rendering.Repetition

namespace Mustache

/-- The contexts of two sessions are in a relation, and the sinks are the same. -/
structure Session.AlikeIn (R : Context → Context → Prop) (s s' : Session) : Prop where
  context : R s.context s'.context
  sink : s.sink = s'.sink

structure Outcome.AlikeIn (R : Context → Context → Prop) (o o' : Outcome) : Prop where
  session : o.session.AlikeIn R o'.session
  failure : o.failure = o'.failure

def Session.Alike (R : Context → Context → Prop) (run run' : Session → Outcome) : Prop :=
  ∀ s s' : Session, s.AlikeIn R s' → (run s).AlikeIn R (run' s')

namespace Session

variable {R : Context → Context → Prop} {run run' next next' : Session → Outcome}

theorem alike_skip : Alike R (fun s => ⟨s, none⟩) fun s => ⟨s, none⟩ :=
  fun _ _ h => ⟨h, rfl⟩

theorem alike_fail (e : Error) : Alike R (fun s => s.fail e) fun s => s.fail e :=
  fun _ _ h => ⟨h, rfl⟩

theorem alike_write (t : Text) : Alike R (fun s => s.write t) fun s => s.write t := by
  rintro ⟨c, sink⟩ ⟨c', sink'⟩ ⟨hcontext, hsink⟩
  obtain rfl : sink = sink' := hsink
  exact ⟨⟨hcontext, rfl⟩, rfl⟩

theorem Alike.andThen (hrun : Alike R run run') (hnext : Alike R next next') :
    Alike R (fun s => (run s).andThen next) fun s => (run' s).andThen next' := by
  intro s s' h
  obtain ⟨hsession, hfailure⟩ := hrun s s' h
  dsimp only [Outcome.andThen]
  rw [← hfailure]
  cases (run s).failure with
  | none => exact hnext _ _ hsession
  | some e => exact hrun s s' h

theorem Alike.within {inner : Mapping → Prop} {values values' : Mapping}
    (hrun : Alike (Context.DifferAtRoot inner values values') run run') {entries : Mapping}
    (hentries : inner entries) :
    Alike (Context.DifferAtRoot inner values values') (Session.within run (some entries))
      (Session.within run' (some entries)) := by
  intro s s' h
  obtain ⟨hsession, hfailure⟩ := hrun ⟨.ofValues entries :: s.context, s.sink⟩
    ⟨.ofValues entries :: s'.context, s'.sink⟩ ⟨.cons hentries h.context, h.sink⟩
  exact ⟨⟨hsession.context.tail, hsession.sink⟩, hfailure⟩

theorem alike_congruence (errors : Error → Prop) (inner : Mapping → Prop)
    (values values' : Mapping) :
    Congruence errors inner (Alike (Context.DifferAtRoot inner values values')) where
  skip := alike_skip
  fail e _ := alike_fail e
  write := alike_write
  andThen := Alike.andThen
  within hrun hentries := hrun.within hentries

theorem alike_compositionalOver {values values' : Mapping} {keys : Text → Prop}
    {errors : Error → Prop}
    (hkeys : ∀ key, keys key → values.resolve key = values'.resolve key) :
    CompositionalOver keys errors fun run =>
      Alike (Context.DifferAtRoot (fun _ => True) values values') run run where
  skip := alike_skip
  fail e _ := alike_fail e
  write := alike_write
  lookup key {next} hkey hnext s s' h := by
    obtain ⟨hfound, hafter⟩ := h.context.lookup (hkeys key hkey)
    have hfound' : (s.lookup key).1 = (s'.lookup key).1 := hfound
    dsimp only
    rw [hfound']
    exact hnext _ _ _ ⟨hafter, h.sink⟩
  andThen := Alike.andThen
  within hrun _ := hrun.within trivial

theorem alike_run_lexing {values values' : Mapping} {l : Token.Lexing}
    (hkeys : ∀ key, (∃ t ∈ l.tokens, t.isLiteral = false ∧ t.key = key) →
      values.resolve key = values'.resolve key) :
    Alike (Context.DifferAtRoot (fun _ => True) values values') l.run l.run := by
  unfold Token.Lexing.run
  cases l.failure with
  | some e => exact alike_fail e
  | none => exact (alike_compositionalOver hkeys).run (Template.usesOnly_ofTokens l.tokens)

end Session

/-- The key of a tag stands without the blanks around it. -/
theorem Token.trim_key {t : Token} (h : t.isLiteral = false) : t.key.trim = t.key := by
  have hinner (inner : Text) : (partsOfInner inner).2.trim = (partsOfInner inner).2 :=
    Text.trim_trim _
  have hkind : kindOf t.text ≠ .literal := of_decide_eq_false h
  rw [key, parts, partsOf]
  cases hcases : kindOf t.text with
  | literal => exact absurd hcases hkind
  | tag => exact hinner _
  | tripleTag => exact hinner _

namespace Renderer

/-- The root is asked for the keys of tags, and for the names with which these begin, and for
nothing else. -/
theorem render_unnamed (r : Renderer) (name unnamed : Text) (source : Source)
    (scopes : List Scope) (values values' : Mapping) (claimed : List Text)
    (hsource : r.sources.get? name = some source)
    (htags : ∀ t ∈ (Token.lex r.limits source.rewind).tokens, t.isLiteral = false →
      t.key ≠ unnamed ∧ t.key.takeWhile (· ≠ '.') ≠ unnamed)
    (hagree : values.AgreeExcept unnamed values') :
    let rendering := r.render name (scopes ++ [⟨values, claimed⟩])
    let rendering' := r.render name (scopes ++ [⟨values', claimed⟩])
    rendering.renderer = rendering'.renderer ∧ rendering.failure = rendering'.failure := by
  have hkeys (key : Text)
      (hkey : ∃ t ∈ (Token.lex r.limits source.rewind).tokens, t.isLiteral = false ∧ t.key = key) :
      values.resolve key = values'.resolve key := by
    obtain ⟨t, ht, htag, rfl⟩ := hkey
    obtain ⟨hne, hhead⟩ := htags t ht htag
    rw [← Token.trim_key htag] at hne hhead
    exact hagree.resolve_eq hne fun heq => absurd heq hhead
  -- The scopes in front are the same, so that all they differ in is at the root.
  have hroot : Context.DifferAtRoot (fun _ => True) values values' (scopes ++ [⟨values, claimed⟩])
      (scopes ++ [⟨values', claimed⟩]) :=
    .append (fun _ _ => trivial) (.root claimed)
  dsimp only
  cases hsink : r.sink with
  | none =>
    rw [render, render, hsink]
    exact ⟨rfl, rfl⟩
  | some sink =>
    have hrun := Session.alike_run_lexing hkeys ⟨_, sink⟩ ⟨_, sink⟩ ⟨hroot, rfl⟩
    rw [render_of_source hsink hsource, render_of_source hsink hsource]
    dsimp only
    rw [hrun.session.sink]
    exact ⟨rfl, hrun.failure⟩

/-- A section that looks keys up at the root, one of them dotted, and a section without a value. -/
def sectionsTemplate : Text :=
  "{{#a}}{{b}}{{c.d}}{{/a}}{{#e}}{{/e}}".toList

def sectionsValues : Mapping :=
  [(['a'], .object []), (['b'], .string ['x']), (['c'], .object [(['d'], .string ['y'])])]

/-- A value under the last part of a dotted key is not looked at. -/
theorem render_sections_unnamed :
    let renderer := Renderer.ofTemplate sectionsTemplate {}
    let scope := Scope.ofValues (sectionsValues.insert ['d'] (.string ['z']))
    (renderer.render ['t'] [scope]).renderer.sink.map Sink.contents =
        some (Text.encode ['x', 'y']) ∧
      (renderer.render ['t'] [scope]).failure =
        some (.missingSectionVariable ['e'] ⟨1, 25⟩) := by
  obtain ⟨hrenderer, hfailure⟩ := render_unnamed (.ofTemplate sectionsTemplate {}) ['t'] ['d']
    (.ofText sectionsTemplate) [] sectionsValues (sectionsValues.insert ['d'] (.string ['z'])) []
    rfl (by decide +kernel) (Mapping.agreeExcept_insert _ _ _)
  dsimp only [Scope.ofValues]
  rw [List.nil_append, List.nil_append] at hrenderer hfailure
  rw [← hrenderer, ← hfailure]
  decide +kernel

end Renderer

end Mustache
