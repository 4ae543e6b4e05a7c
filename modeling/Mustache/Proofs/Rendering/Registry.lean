import Mustache.Proofs.Rendering.Truncation
import Mustache.Proofs.Rendering.Workshop

namespace Mustache

theorem Token.name_source_lexWithin (limits : Limits) (loops : Nat) (s : Source) :
    (lexWithin limits loops s).source.name = s.name := by
  induction loops generalizing s with
  | zero => rfl
  | succ loops ih =>
    rw [lexWithin]
    dsimp only
    split
    · rfl
    · split
      · rfl
      next piece _ => exact ih (s.read piece.byteCount).2

/-- Whether an error is found before anything is written: there is no sink or no source, or the
source is not cut into tokens to its end. -/
def Error.precedesWriting : Error → Bool
  | noSink | unknownSource _ | unclosedTag _ | loopLimit _ => true
  | _ => false

theorem Token.Causes.precedesWriting {t : Token} {e : Error} (h : t.Causes e) :
    e.precedesWriting = false := by
  cases h <;> rfl

/-- A run appends to its sink, and an error that precedes writing keeps it from doing so. -/
theorem Token.Lexing.sink_run (l : Token.Lexing) (s : Session) :
    ∃ bytes, (l.run s).session.sink = s.sink.took bytes ∧
      ∀ e, (l.run s).failure = some e → e.precedesWriting = true → bytes = [] := by
  cases hlexing : l.failure with
  | some e =>
    rw [Lexing.run, hlexing]
    exact ⟨[], s.sink.took_nil.symm, fun _ _ _ => rfl⟩
  | none =>
    obtain ⟨bytes, after, failure, h⟩ := Session.emits_compositional.run_lexing l s.context
    have hlate (e : Error) (he : (l.run s).failure = some e) : e.precedesWriting = false := by
      rw [Lexing.run, hlexing] at he
      rcases Template.failure_run_ofTokens he with ⟨cause, rfl⟩ | ⟨t, -, -, hcauses⟩
      · rfl
      · exact hcauses.precedesWriting
    have hnone (e : Error) (he : (l.run s).failure = some e) (hearly : e.precedesWriting = true) :
        false = true := (hlate e he).symm.trans hearly
    by_cases hroom : s.sink.HasRoom bytes
    · refine ⟨bytes, ?_, fun e he hearly => absurd (hnone e he hearly) Bool.false_ne_true⟩
      rw [h.whole hroom]
    · obtain ⟨room, -, -, hwrite⟩ := Sink.write_of_not_hasRoom hroom
      obtain ⟨hsink, -⟩ := h.cut hroom
      refine ⟨bytes.take room, ?_, fun e he hearly => absurd (hnone e he hearly) Bool.false_ne_true⟩
      rw [hsink, hwrite]

namespace Renderer

def registry (r : Renderer) : List (Text × Option Text × Text) :=
  r.sources.map fun (name, source) => (name, source.name, source.text)

theorem names_eq (r : Renderer) : r.names = r.registry.map Prod.fst := by
  rw [names, Entries.keys, registry, List.map_map]
  rfl

structure Appends (r : Renderer) (o : Rendering) : Prop where
  registry : o.renderer.registry = r.registry
  sink : ∃ bytes, o.renderer.sink = r.sink.map (·.took bytes) ∧
    ∀ e, o.failure = some e → e.precedesWriting = true → bytes = []

theorem appends_render {r : Renderer} (hsorted : r.sources.IsSorted) (name : Text)
    (context : Context) : r.Appends (r.render name context) := by
  obtain ⟨e, hrender⟩ | ⟨sink, source, hsink, hsource⟩ := r.render_cases name context
  · rw [hrender]
    refine ⟨rfl, [], ?_, fun _ _ _ => rfl⟩
    cases hsink : r.sink with
    | none => rfl
    | some sink => rw [Option.map_some, Sink.took_nil]
  · rw [render_of_source hsink hsource]
    constructor
    · apply Entries.map_insert hsorted hsource
      dsimp only
      rw [Token.lex, Token.name_source_lexWithin, Token.text_source_lexWithin, Source.text_rewind]
      rfl
    · obtain ⟨bytes, htook, hearly⟩ :=
        (Token.lex r.limits source.rewind).sink_run ⟨context, sink⟩
      refine ⟨bytes, ?_, hearly⟩
      rw [hsink, Option.map_some]
      exact congrArg some htook

theorem add_eq_error_iff {r : Renderer} {source : Source} {e : Error} :
    r.add source = .error e ↔
      (e = .emptySourceName ∧ (source.name = none ∨ source.name = some [])) ∨
        ∃ name, e = .duplicateSource name ∧ source.name = some name ∧ name ≠ [] ∧
          name ∈ r.names := by
  rw [names]
  simp only [Entries.mem_keys_iff]
  unfold add
  cases source.name with
  | none => simp [eq_comm]
  | some name =>
    cases name with
    | nil => simp [eq_comm]
    | cons c cs => cases hfound : r.sources.get? (c :: cs) <;> simp [hfound, eq_comm]

inductive Call where
  | add (source : Source)
  | setSink (sink : Sink)
  | takeSink
  | render (name : Text) (context : Context)

/-- What a call leaves behind, be it successful or not. -/
def perform (r : Renderer) : Call → Renderer
  | .add source =>
    match r.add source with
    | .ok r' => r'
    | .error _ => r
  | .setSink sink => { r with sink := some sink }
  | .takeSink => { r with sink := none }
  | .render name context => (r.render name context).renderer

def accepts (r : Renderer) : Call → List Source
  | .add source =>
    match r.add source with
    | .ok _ => [source]
    | .error _ => []
  | .setSink _ | .takeSink | .render _ _ => []

def after (r : Renderer) (calls : List Call) : Renderer := calls.foldl perform r

def accepted (r : Renderer) : List Call → List Source
  | [] => []
  | call :: calls => r.accepts call ++ (r.perform call).accepted calls

/-- A renderer keeps exactly the given sources, the first of each name, and each name once. -/
structure Registers (r : Renderer) (accepted : List Source) : Prop where
  sorted : r.names.Pairwise fun name other => name.compare other = .lt
  names (name : Text) : name ∈ r.names ↔ ∃ source ∈ accepted, source.name = some name
  entry {name : Text} {own : Option Text} {text : Text} : (name, own, text) ∈ r.registry →
    name ≠ [] ∧ own = some name ∧
      (accepted.find? fun source => source.name = some name).map Source.text = some text

namespace Registers

variable {r r' : Renderer} {accepted : List Source}

theorem of_registry_eq (h : r.Registers accepted) (hregistry : r'.registry = r.registry) :
    r'.Registers accepted where
  sorted := by
    rw [names_eq, hregistry, ← names_eq]
    exact h.sorted
  names name := by
    rw [names_eq, hregistry, ← names_eq]
    exact h.names name
  entry hentry := h.entry (hregistry ▸ hentry)

theorem find?_eq_none (h : r.Registers accepted) {name : Text} (hnew : name ∉ r.names) :
    accepted.find? (fun source => source.name = some name) = none := by
  apply List.find?_eq_none.2
  intro source hsource hname
  exact hnew ((h.names name).2 ⟨source, hsource, of_decide_eq_true hname⟩)

theorem add (h : r.Registers accepted) {source : Source} (hadd : r.add source = .ok r') :
    r'.Registers (accepted ++ [source]) := by
  obtain ⟨name, hname, hne, hnew, rfl⟩ := add_eq_ok_iff.1 hadd
  have hperm := Entries.insert_perm hnew source
  constructor
  case sorted => exact Entries.isSorted_insert h.sorted name source
  case names =>
    intro other
    have hother : other ∈ (r.sources.insert name source).keys ↔ other = name ∨ other ∈ r.names :=
      (hperm.map Prod.fst).mem_iff.trans List.mem_cons
    have hsame : source.name = some other ↔ other = name := by
      rw [hname, Option.some.injEq, eq_comm]
    change other ∈ (r.sources.insert name source).keys ↔ _
    rw [hother, h.names, or_comm, ← hsame]
    simp only [List.mem_append, List.mem_singleton, or_and_right, exists_or, exists_eq_left]
  case entry =>
    intro other own text hentry
    rw [List.find?_append]
    rcases List.mem_cons.1 ((hperm.map _).mem_iff.1 hentry) with heq | hold
    · cases heq
      -- The name was free, so that no source accepted before has it.
      have hfresh : name ∉ r.names := fun hmem => Entries.mem_keys_iff.1 hmem hnew
      have hfirst : [source].find? (fun source => source.name = some name) = some source :=
        List.find?_cons_of_pos (decide_eq_true hname)
      rw [h.find?_eq_none hfresh, Option.none_or, hfirst]
      exact ⟨hne, hname, rfl⟩
    · obtain ⟨hnonempty, hown, hfind⟩ := h.entry hold
      obtain ⟨first, hfirst, htext⟩ := Option.map_eq_some_iff.1 hfind
      refine ⟨hnonempty, hown, ?_⟩
      rw [hfirst, Option.some_or, Option.map_some, htext]

theorem perform (h : r.Registers accepted) (call : Call) :
    (r.perform call).Registers (accepted ++ r.accepts call) := by
  cases call with
  | add source =>
    rw [Renderer.perform, accepts]
    cases hadd : r.add source with
    | ok r' => exact h.add hadd
    | error e =>
      rw [List.append_nil]
      exact h
  | setSink sink =>
    rw [accepts, List.append_nil]
    exact h.of_registry_eq rfl
  | takeSink =>
    rw [accepts, List.append_nil]
    exact h.of_registry_eq rfl
  | render name context =>
    rw [accepts, List.append_nil]
    exact h.of_registry_eq (appends_render h.sorted name context).registry

theorem after (h : r.Registers accepted) (calls : List Call) :
    (r.after calls).Registers (accepted ++ r.accepted calls) := by
  induction calls generalizing r accepted with
  | nil =>
    rw [Renderer.accepted, List.append_nil]
    exact h
  | cons call calls ih =>
    rw [Renderer.accepted, ← List.append_assoc]
    exact ih (h.perform call)

end Registers

theorem registers_ofLimits (limits : Limits) : (ofLimits limits).Registers [] where
  sorted := List.Pairwise.nil
  names name := by simp [ofLimits, names, Entries.keys]
  entry hentry := absurd hentry List.not_mem_nil

/-- A call that fails leaves no trace but what a rendering has written by then. -/
theorem registers_after (limits : Limits) (calls : List Call) :
    let r := (ofLimits limits).after calls
    r.Registers ((ofLimits limits).accepted calls) ∧
      (∀ source e, r.add source = .error e → r.perform (.add source) = r ∧
        ((e = .emptySourceName ∧ (source.name = none ∨ source.name = some [])) ∨
          ∃ name, e = .duplicateSource name ∧ source.name = some name ∧ name ≠ [] ∧
            name ∈ r.names)) ∧
      ∀ name context, r.Appends (r.render name context) := by
  have hregisters := (registers_ofLimits limits).after calls
  refine ⟨hregisters, fun source e herror => ⟨?_, add_eq_error_iff.1 herror⟩,
    fun name context => appends_render hregisters.sorted name context⟩
  rw [perform, herror]

end Renderer

end Mustache
