import Mustache.Context.Tree
import Mustache.Proofs.Rendering.Repetition

namespace Mustache

structure Workshop where
  renderer : Renderer
  scopes : ScopeTree

namespace Workshop

inductive Action where
  /-- Adds a source, of which some may have been read. -/
  | add (source : Source)
  | setSink (sink : Option Sink)
  | nest (outer : Option Nat) (values : Mapping)
  | lookup (scope : Nat) (key : Text)
  | render (name : Text) (scope : Nat)
  /-- Lets another renderer use a scope. -/
  | lend (other : Renderer) (name : Text) (scope : Nat)

def start (limits : Limits) : Workshop := ⟨.ofLimits limits, .empty⟩

/-- What an action leaves behind, be it successful or not. -/
def perform (w : Workshop) : Action → Workshop
  | .add source =>
    match w.renderer.add source with
    | .ok renderer => { w with renderer }
    | .error _ => w
  | .setSink sink => { w with renderer := { w.renderer with sink } }
  | .nest outer values => { w with scopes := w.scopes.push outer values }
  | .lookup scope key => { w with scopes := (w.scopes.lookup scope key).2 }
  | .render name scope =>
    let rendering := w.renderer.render name (w.scopes.context scope)
    ⟨rendering.renderer, w.scopes.update scope rendering.context⟩
  | .lend other name scope =>
    let rendering := other.render name (w.scopes.context scope)
    { w with scopes := w.scopes.update scope rendering.context }

def after (w : Workshop) (history : List Action) : Workshop := history.foldl perform w

end Workshop

theorem Renderer.add_eq_ok_iff {r r' : Renderer} {source : Source} :
    r.add source = .ok r' ↔ ∃ name, source.name = some name ∧ name ≠ [] ∧
      r.sources.get? name = none ∧ { r with sources := r.sources.insert name source } = r' := by
  unfold add
  cases source.name with
  | none => simp
  | some name =>
    cases name with
    | nil => simp
    | cons c cs => cases hfound : r.sources.get? (c :: cs) <;> simp [hfound]

theorem Renderer.exists_add {r : Renderer} {source : Source} {name : Text}
    (hname : source.name = some name) (hne : name ≠ []) (hnew : r.sources.get? name = none) :
    ∃ r', r.add source = .ok r' ∧ r'.limits = r.limits ∧ r'.sink = r.sink ∧
      r'.sources.get? name = some source :=
  ⟨_, add_eq_ok_iff.2 ⟨name, hname, hne, hnew, rfl⟩, rfl, rfl,
    Entries.get?_insert_self name source r.sources⟩

namespace Workshop

/-- The second workshop has the limits of the first, sources of the same texts and scopes without an
outer one of the same values, and maybe more of both. -/
structure Extends (w w' : Workshop) : Prop where
  limits : w'.renderer.limits = w.renderer.limits
  text {name t : Text} : (w.renderer.sources.get? name).map Source.text = some t →
    (w'.renderer.sources.get? name).map Source.text = some t
  whole : w.scopes.IsWhole → w'.scopes.IsWhole
  root {i : Nat} {values : Mapping} :
    w.scopes.IsWhole → w.scopes.IsRoot i values → w'.scopes.IsRoot i values

theorem Extends.refl (w : Workshop) : w.Extends w := ⟨rfl, id, id, fun _ => id⟩

theorem Extends.trans {w w' w'' : Workshop} (h : w.Extends w') (h' : w'.Extends w'') :
    w.Extends w'' :=
  ⟨h'.limits.trans h.limits, fun ht => h'.text (h.text ht), fun hw => h'.whole (h.whole hw),
    fun hw hi => h'.root (h.whole hw) (h.root hw hi)⟩

theorem extends_renderer {w : Workshop} {r : Renderer} (hlimits : r.limits = w.renderer.limits)
    (htext : ∀ {name t}, (w.renderer.sources.get? name).map Source.text = some t →
      (r.sources.get? name).map Source.text = some t) : w.Extends { w with renderer := r } :=
  ⟨hlimits, htext, id, fun _ => id⟩

theorem extends_update {w : Workshop} {scope : Nat} {c : Context}
    (hc : c.map Scope.values = (w.scopes.context scope).map Scope.values) :
    w.Extends { w with scopes := w.scopes.update scope c } :=
  ⟨rfl, id, fun hw => hw.update hc, fun hw hi => hi.update hw hc⟩

theorem extends_add {w : Workshop} {source : Source} {r : Renderer}
    (h : w.renderer.add source = .ok r) : w.Extends { w with renderer := r } := by
  obtain ⟨name, -, -, hnew, rfl⟩ := Renderer.add_eq_ok_iff.1 h
  refine extends_renderer (r := _) rfl @fun other t hother => ?_
  have hne : other ≠ name := fun heq => by
    rw [heq, hnew] at hother
    cases hother
  dsimp only
  rw [Entries.get?_insert_of_ne hne, hother]

theorem extends_perform (w : Workshop) (action : Action) : w.Extends (w.perform action) := by
  cases action with
  | add source =>
    rw [perform]
    split
    next r hadd => exact extends_add hadd
    next => exact .refl w
  | setSink sink => exact extends_renderer rfl id
  | nest outer values =>
    exact ⟨rfl, id, fun hw => hw.push outer values, fun _ hi => hi.push outer values⟩
  | lookup scope key => exact extends_update (Context.values_lookup _ key)
  | render name scope =>
    have hrenderer : w.Extends { w with
        renderer := (w.renderer.render name (w.scopes.context scope)).renderer } :=
      extends_renderer (w.renderer.limits_render name _) fun ht =>
        (w.renderer.text_get?_render name _ _).trans ht
    exact hrenderer.trans (extends_update (w.renderer.values_context_render name _))
  | lend other name scope => exact extends_update (other.values_context_render name _)

theorem extends_after (w : Workshop) (history : List Action) : w.Extends (w.after history) := by
  induction history generalizing w with
  | nil => exact .refl w
  | cons action history ih => exact (w.extends_perform action).trans (ih _)

theorem extends_of_earlier (w : Workshop) {earlier history : List Action}
    (h : earlier <+: history) : (w.after earlier).Extends (w.after history) := by
  obtain ⟨later, rfl⟩ := h
  rw [after, after, List.foldl_append]
  exact extends_after _ later

theorem isWhole_start (limits : Limits) : (start limits).scopes.IsWhole := rfl

/-- Earlier calls leave claims with the scopes and bytes in the sink. A scope without an outer one
makes nothing of its claims, and the bytes are only added to. -/
theorem render_after (limits : Limits) (history : List Action) {earlier earlier' : List Action}
    (hearlier : earlier <+: history) (hearlier' : earlier' <+: history)
    {name : Text} {source : Source}
    (hsource : ((start limits).after earlier).renderer.sources.get? name = some source)
    {i : Nat} {values : Mapping} (hroot : ((start limits).after earlier').scopes.IsRoot i values)
    {sink : Sink} (hsink : ((start limits).after history).renderer.sink = some sink)
    (hlimit : sink.limit = none) {new : Source} (htext : new.text = source.text)
    {newName : Text} (hname : new.name = some newName) (hne : newName ≠ []) :
    ∃ fresh, { Renderer.ofLimits limits with sink := some .unlimited }.add new = .ok fresh ∧
      let w := (start limits).after history
      let first := fresh.render newName [.ofValues values]
      let again := w.renderer.render name (w.scopes.context i)
      again.failure = first.failure ∧
        ∃ bytes, first.renderer.sink.map Sink.contents = some bytes ∧
          again.renderer.sink.map Sink.contents = some (sink.contents ++ bytes) := by
  have hsources := (start limits).extends_of_earlier hearlier
  have hscopes := (start limits).extends_of_earlier hearlier'
  have hwhole := ((start limits).extends_after earlier').whole (isWhole_start limits)
  obtain ⟨source', hsource', htext'⟩ : ∃ source',
      ((start limits).after history).renderer.sources.get? name = some source' ∧
        source'.text = source.text := by
    apply Option.map_eq_some_iff.1
    apply hsources.text
    rw [hsource, Option.map_some]
  obtain ⟨claimed, hcontext⟩ := (hscopes.root hwhole hroot).context_eq
  obtain ⟨fresh, hadd, hlimits, hunlimited, hnew⟩ := Renderer.exists_add
    (r := { Renderer.ofLimits limits with sink := some .unlimited }) hname hne rfl
  have hsame := ((start limits).extends_after history).limits.trans hlimits.symm
  -- The scope claims what was looked up before, and the sink holds what was written before.
  have hrepeats : Session.Repeats sink.contents ⟨[⟨values, claimed⟩], sink⟩
      ⟨[.ofValues values], .unlimited⟩ :=
    ⟨.root values claimed [], hlimit, rfl, (List.append_nil _).symm⟩
  obtain ⟨hfailure, s, s₁, hs, hs₁, hcontents⟩ := Renderer.render_repeats hsame hsource' hnew
    (htext'.trans htext.symm) hsink hunlimited hrepeats
  dsimp only
  rw [hcontext]
  refine ⟨fresh, hadd, hfailure, s₁.contents, ?_, ?_⟩
  · rw [hs₁, Option.map_some]
  · rw [hs, Option.map_some, hcontents]

/-- A text with a section, in which a key is looked up further out, and with a tag whose value is an
object. -/
def objectTemplate : Text :=
  ['{', '{', '#', 'a', '}', '}', '{', '{', 'b', '.', 'c', '}', '}', '{', '{', '/', 'a', '}', '}',
    '{', '{', 'a', '}', '}']

def unreadSource : Source := { Source.ofText objectTemplate with name := some ['n'] }

def partlyReadSource : Source :=
  { ((Source.ofText objectTemplate).read 4).2 with name := some ['t'] }

def twoObjects : Mapping :=
  [(['a'], .object [(['d'], .null)]), (['b'], .object [(['c'], .string ['x'])])]

/-- A source of which some was read, renderings that fail without a sink, in the lexer and behind
what they have written, and look-ups from a root and from a scope in it. -/
def mixedHistory : List Action :=
  [.nest none twoObjects, .add partlyReadSource, .render ['t'] 0, .setSink (some .unlimited),
    .add ⟨some ['u'], [], ['y', '{', '{']⟩, .render ['u'] 0, .render ['t'] 0,
    .lookup 0 ['b', '.', 'c'], .nest (some 0) [], .lookup 1 ['a', '.', 'd']]

theorem render_after_mixedHistory :
    let w := (start ⟨30, 12⟩).after mixedHistory
    w.renderer.sink = some ⟨#[120], none, .device []⟩ ∧
      ∃ fresh, { Renderer.ofLimits ⟨30, 12⟩ with sink := some .unlimited }.add unreadSource =
          .ok fresh ∧
        let first := fresh.render ['n'] [.ofValues twoObjects]
        let again := w.renderer.render ['t'] (w.scopes.context 0)
        again.failure = first.failure ∧
          ∃ bytes, first.renderer.sink.map Sink.contents = some bytes ∧
            again.renderer.sink.map Sink.contents = some (120 :: bytes) := by
  have hsource : ((start ⟨30, 12⟩).after (mixedHistory.take 2)).renderer.sources.get? ['t'] =
      some partlyReadSource := by
    decide +kernel
  have hroot : ((start ⟨30, 12⟩).after (mixedHistory.take 1)).scopes.IsRoot 0 twoObjects := by
    refine ⟨rfl, ?_⟩
    simp [mixedHistory, after, perform, start, ScopeTree.push, ScopeTree.empty, ScopeTree.values,
      Scope.ofValues]
  have hsink : ((start ⟨30, 12⟩).after mixedHistory).renderer.sink =
      some ⟨#[120], none, .device []⟩ := by
    decide +kernel
  have htext : unreadSource.text = partlyReadSource.text :=
    (Source.text_read (.ofText objectTemplate) 4).symm
  exact ⟨hsink, render_after ⟨30, 12⟩ mixedHistory (List.take_prefix 2 _) (List.take_prefix 1 _)
    hsource hroot hsink rfl htext rfl (by decide)⟩

end Workshop

end Mustache
