import Mustache.Location
import Mustache.Value

namespace Mustache

inductive Fault where
  /-- The device gave this reason. -/
  | device (reason : Text)
  | invalidText
  | notFound
  | notADirectory
  | isADirectory
  | nameTooLong
  | zeroInPath
deriving DecidableEq

/-- Parts of the template language that are recognised but not rendered. -/
inductive Feature where
  | partials
  | ifSections
deriving DecidableEq

inductive Error where
  | fault (cause : Fault)
  | unclosedTag (place : Location)
  /-- The lexer went through its loop as often as it may. -/
  | loopLimit (limit : Nat)
  | unmatchedSection (name : Text) (place : Location)
  | missingSectionVariable (name : Text) (place : Location)
  | untestableKind (name : Text) (kind : Kind)
  | unwritableKind (kind : Kind)
  | unsupported (feature : Feature) (place : Location)
  | noSink
  | unknownSource (name : Text)
  | emptySourceName
  | duplicateSource (name : Text)
  | invalidSettings
  | invalidFixture (path : Text)
  /-- A list of the data holds something other than an object. -/
  | unsupportedEntry (entry : Text)
deriving DecidableEq

def Fault.message : Fault → String
  | .device reason => String.ofList reason
  | .invalidText => "stream did not contain valid UTF-8"
  | .notFound => "No such file or directory (os error 2)"
  | .notADirectory => "Not a directory (os error 20)"
  | .isADirectory => "Is a directory (os error 21)"
  | .nameTooLong => "File name too long (os error 36)"
  | .zeroInPath => "file name contained an unexpected NUL byte"

def Feature.name : Feature → String
  | .partials => "partials"
  | .ifSections => "`if` sections"

namespace Error

private def shown (t : Text) : String := String.ofList t

private def shownPlace (place : Location) : String := String.ofList place.toText

def message : Error → String
  | fault cause => cause.message
  | unclosedTag place =>
    "missing end token `\x7d\x7d` for tag opened at " ++ shownPlace place
  | loopLimit limit =>
    s!"max loops exceeded: the lexer stopped after {limit} iteration(s)"
  | unmatchedSection name place =>
    "unable to find a closing tag for section `" ++ shown name ++ "` opened at " ++
      shownPlace place
  | missingSectionVariable name place =>
    "missing variable for section `" ++ shown name ++ "` at " ++ shownPlace place
  | untestableKind name kind =>
    "inverted section `" ++ shown name ++ "` cannot test a " ++ kind.name ++ " value"
  | unwritableKind kind => "unable to write a " ++ kind.name ++ " value"
  | unsupported feature place =>
    feature.name ++ " not implemented (at " ++ shownPlace place ++ ")"
  | noSink => "no writer has been set"
  | unknownSource name => "source name not found: `" ++ shown name ++ "`"
  | emptySourceName => "empty source name"
  | duplicateSource name => "duplicate source name: `" ++ shown name ++ "`"
  | invalidSettings => "failed to parse config file: "
  | invalidFixture path => "failed to load fixture file `" ++ shown path ++ "`: "
  | unsupportedEntry entry =>
    "unsupported data value: list entry `" ++ shown entry ++ "` (lists may only contain objects)"

def code : Error → String
  | fault _ => "stache::io_error"
  | unclosedTag _ => "stache::missing_end_token"
  | loopLimit _ => "stache::max_loops_exceeded"
  | unmatchedSection _ _ => "stache::unmatched_section"
  | missingSectionVariable _ _ => "stache::missing_section_variable"
  | untestableKind _ _ => "stache::unsupported_inverted_type"
  | unwritableKind _ => "stache::unhandled_value_type"
  | unsupported _ _ => "stache::not_implemented"
  | noSink => "stache::no_writer"
  | unknownSource _ => "stache::source_name_not_found"
  | emptySourceName => "stache::empty_source_name"
  | duplicateSource _ => "stache::duplicate_source_name"
  | invalidSettings => "stache::config_parse"
  | invalidFixture _ => "stache::fixture"
  | unsupportedEntry _ => "stache::unsupported_data"

def hint? : Error → Option String
  | unclosedTag _ => some "close the tag with `\x7d\x7d` before the end of the template"
  | loopLimit _ => some "raise `lexer.max_loops` in stache.toml for very large templates"
  | unmatchedSection name _ =>
    some ("add `\x7b\x7b/" ++ shown name ++ "\x7d\x7d` to close this section")
  | untestableKind _ _ => some "inverted sections accept booleans, null, lists and objects"
  | unwritableKind _ => some "only strings, numbers and null can be interpolated"
  | noSink => some "call `Renderer::set_writer` before rendering"
  | emptySourceName => some "name the source with `Source::with_name` before adding it"
  | duplicateSource _ => some "each source added to a renderer must have a unique name"
  | invalidSettings =>
    some "check that stache.toml is valid TOML with an optional [lexer] section"
  | unsupportedEntry _ =>
    some "data may contain null, booleans, numbers, strings, objects and lists of objects"
  | fault _ | missingSectionVariable _ _ | unsupported _ _ | unknownSource _
  | invalidFixture _ => none

end Error

end Mustache
