import Mustache.FileTree
import Mustache.Renderer
import Mustache.Value.OfJson

namespace Mustache

structure FixtureCase where
  name : Text
  description : Text
  data : Json
  /-- Templates of partials by name, which are not rendered. -/
  partials : Entries Text
  template : Text
  expected : Text

structure Fixture where
  overview : Text
  cases : List FixtureCase

namespace FixtureCase

def values (c : FixtureCase) : Except Error Mapping := Value.rootOfJson c.data

/-- The expected output with the line breaks of a template. -/
def expectedOutput (c : FixtureCase) : Text := c.expected.unifyLineBreaks

def render (c : FixtureCase) : Except Error Text := do
  Mustache.render c.template (← c.values)

end FixtureCase

namespace Fixture

open Json (Tree)

/-- The value of a known member, if it is there. There may not be two of one name. -/
def member? (name : String) (members : List (Text × Tree)) : Option (Option Tree) :=
  match members.filter (·.1 = name.toList) with
  | [] => some none
  | [(_, t)] => some (some t)
  | _ => none

def text? : Tree → Option Text
  | .string t => t
  | _ => none

def namedMembers? (members : List (Option Text × Tree)) : Option (List (Text × Tree)) :=
  members.mapM fun (name, t) => name.map (·, t)

/-- How deeply the data of a case may be nested: a case is an object in a list in an object. -/
def dataDepth : Nat := Json.maxDepth - 3

def partials? : Tree → Option (Entries Text)
  | .object members => do
    let members ← namedMembers? members
    Entries.ofList <$> members.mapM fun (name, t) => (text? t).map (name, ·)
  | _ => none

/-- A case from its members. Description, data and partials may be missing. -/
def caseOfMembers? (name description data partials template expected : Option Tree) :
    Option FixtureCase := do
  return {
    name := ← text? (← name)
    description := ← (description.map text?).getD (some [])
    data := ← (data.map (Json.ofTree? dataDepth)).getD (some .null)
    partials := ← (partials.map partials?).getD (some [])
    template := ← text? (← template)
    expected := ← text? (← expected) }

/-- A case is an object, or a list of all members in their order. -/
def case? : Tree → Option FixtureCase
  | .object members => do
    let members ← namedMembers? members
    caseOfMembers? (← member? "name" members) (← member? "desc" members)
      (← member? "data" members) (← member? "partials" members)
      (← member? "template" members) (← member? "expected" members)
  | .array [name, description, data, partials, template, expected] =>
    caseOfMembers? name description data partials template expected
  | _ => none

def cases? : Tree → Option (List FixtureCase)
  | .array items => items.mapM case?
  | _ => none

/-- A fixture is an object, or a list of its overview and its cases. The overview may be missing in
an object. -/
def ofTree? : Tree → Option Fixture
  | .object members => do
    let members ← namedMembers? members
    let overview ← member? "overview" members
    let tests ← member? "tests" members
    return ⟨← (overview.map text?).getD (some []), ← cases? (← tests)⟩
  | .array [overview, tests] => do return ⟨← text? overview, ← cases? tests⟩
  | _ => none

def ofText (path t : Text) : Except Error Fixture :=
  match (Tree.ofText? t).bind ofTree? with
  | none => .error (.invalidFixture path)
  | some f => .ok f

def inlinePath : Text := "<inline>".toList

def load (tree : FileTree) (path : Text) : Except Error Fixture :=
  match (tree.read path).toOption.bind Text.decode? with
  | none => .error (.invalidFixture path)
  | some t => ofText path t

end Fixture

end Mustache
