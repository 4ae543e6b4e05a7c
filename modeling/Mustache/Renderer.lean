import Mustache.Context
import Mustache.Sink
import Mustache.Template

namespace Mustache

structure Session where
  context : Context
  sink : Sink

/-- What a run leaves behind, and why it stopped if it did not reach the end. What it has written by
then stays in the sink. -/
structure Outcome where
  session : Session
  failure : Option Error

namespace Outcome

def andThen (o : Outcome) (next : Session → Outcome) : Outcome :=
  match o.failure with
  | none => next o.session
  | some _ => o

def each {α : Type} (run : α → Session → Outcome) : List α → Session → Outcome
  | [], s => ⟨s, none⟩
  | a :: as, s => (run a s).andThen (each run as)

end Outcome

namespace Value

/-- The text that a tag writes for a value, or the kind of a value that has none. -/
def written (escaped : Bool) : Value → Except Kind Text
  | null => .ok []
  | string t => .ok (if escaped then t.escapeHtml else t)
  | number x => .ok x.toText
  | v => .error v.kind

/-- How often the body of a section is rendered, and with which values in front of the context. -/
def passes : Value → List (Option Mapping)
  | null | bool false => []
  | bool true => [none]
  | object entries => [some entries]
  | v@(string _) | v@(number _) => [some [(['.'], v)]]
  | list items => items.map some

/-- Whether a value counts as empty, or the kind of a value of which this cannot be said. -/
def isEmpty : Value → Except Kind Bool
  | null | bool false | list [] => .ok true
  | bool true | object _ | list (_ :: _) => .ok false
  | v@(string _) | v@(number _) => .error v.kind

end Value

namespace Session

def fail (s : Session) (e : Error) : Outcome := ⟨s, some e⟩

def write (s : Session) (t : Text) : Outcome :=
  let (sink, refusal) := s.sink.write t.encode
  ⟨{ s with sink }, refusal.map .fault⟩

def lookup (s : Session) (key : Text) : Option Value × Session :=
  let (found, context) := s.context.lookup key
  (found, { s with context })

/-- A run with values in front of the context, which are gone afterwards. -/
def within (run : Session → Outcome) (values : Option Mapping) (s : Session) : Outcome :=
  match values with
  | none => run s
  | some values =>
    let o := run { s with context := .ofValues values :: s.context }
    { o with session := { o.session with context := o.session.context.tail } }

def writeValue (s : Session) (key : Text) (escaped : Bool) : Outcome :=
  let (found, s) := s.lookup key
  match found with
  | none => ⟨s, none⟩
  | some v =>
    match v.written escaped with
    | .error kind => s.fail (.unwritableKind kind)
    | .ok t => s.write t

def runSection (s : Session) (tag : SectionTag) (body : Session → Outcome) : Outcome :=
  let (found, s) := s.lookup tag.key
  match found with
  | none => s.fail (.missingSectionVariable tag.key tag.place)
  | some v =>
    (Outcome.each (within body) (if tag.direct then v.passes else []) s).andThen fun s =>
      if tag.inverted then
        match v.isEmpty with
        | .error kind => s.fail (.untestableKind tag.key kind)
        | .ok true => body s
        | .ok false => ⟨s, none⟩
      else ⟨s, none⟩

end Session

def Template.run : Template → Session → Outcome
  | done, s => ⟨s, none⟩
  | text t rest, s => (s.write t).andThen rest.run
  | value key escaped rest, s => (s.writeValue key escaped).andThen rest.run
  | sect tag body rest, s => (s.runSection tag body.run).andThen rest.run
  | stop failure, s => s.fail failure

structure Renderer where
  sink : Option Sink
  sources : Entries Source
  limits : Limits

structure Rendering where
  renderer : Renderer
  context : Context
  failure : Option Error

def Token.Lexing.run (l : Token.Lexing) (s : Session) : Outcome :=
  match l.failure with
  | some e => s.fail e
  | none => (Template.ofTokens l.tokens).run s

namespace Renderer

def ofLimits (limits : Limits) : Renderer := ⟨none, [], limits⟩

/-- Adds a source under its name, which must be new. -/
def add (r : Renderer) (s : Source) : Except Error Renderer :=
  match s.name with
  | none => .error .emptySourceName
  | some name =>
    if name.isEmpty then .error .emptySourceName
    else if (r.sources.get? name).isSome then .error (.duplicateSource name)
    else .ok { r with sources := r.sources.insert name s }

def names (r : Renderer) : List Text := r.sources.keys

def render (r : Renderer) (name : Text) (context : Context) : Rendering :=
  match r.sink with
  | none => ⟨r, context, some .noSink⟩
  | some sink =>
    match r.sources.get? name with
    | none => ⟨r, context, some (.unknownSource name)⟩
    | some source =>
      let lexing := Token.lex r.limits source.rewind
      let outcome := lexing.run ⟨context, sink⟩
      let r := { r with
        sink := some outcome.session.sink
        sources := r.sources.insert name lexing.source }
      ⟨r, outcome.session.context, outcome.failure⟩

end Renderer

/-- The name of a source that is rendered without being kept. -/
def inlineName : Text := "__inline__".toList

def render (template : Text) (values : Mapping) : Except Error Text := do
  let source ← (Source.ofText template).named inlineName
  let renderer ← { Renderer.ofLimits {} with sink := some .unlimited }.add source
  let rendering := renderer.render inlineName [.ofValues values]
  match rendering.failure with
  | some e => .error e
  | none =>
    match Text.decode? ((rendering.renderer.sink.map Sink.contents).getD []) with
    | none => .error (.fault .invalidText)
    | some t => .ok t

end Mustache
