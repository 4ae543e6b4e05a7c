import Mustache.Entries
import Mustache.Toml.Statement

namespace Mustache.Toml

structure Origin where
  /-- It was only named in front of a dot. -/
  implicit : Bool := false
  /-- It was named in front of a dot in the key of a value. -/
  dotted : Bool := false
  /-- It stands in braces. -/
  braced : Bool := false
deriving DecidableEq

inductive Node where
  | scalar (s : Scalar)
  | array (items : List Node)
  | table (origin : Origin) (entries : List (Text × Node))
  /-- The tables of headers in double brackets. -/
  | tables (items : List (List (Text × Node)))

structure Table where
  origin : Origin
  entries : Entries Node

namespace Table

def toNode (t : Table) : Node := .table t.origin t.entries

def insert (t : Table) (name : Text) (node : Node) : Table :=
  { t with entries := t.entries.insert name node }

/-- Changes the table at a path in a table. Names in front of a value's key enter only tables that
were not defined, and make dotted ones of them; braced tables are entered only from inside. -/
def alter (dotted inBraces : Bool) (change : Table → Option Table) :
    Path → Table → Option Table
  | [], t => change t
  | name :: path, t =>
    match t.entries.get? name with
    | none => do
      let origin : Origin := { implicit := true, dotted, braced := inBraces }
      return t.insert name (← alter dotted inBraces change path ⟨origin, []⟩).toNode
    | some (.table origin entries) =>
      if origin.braced ∧ !inBraces ∨ dotted ∧ !origin.implicit then none
      else do
        let origin := { origin with dotted := origin.dotted || dotted }
        return t.insert name (← alter dotted inBraces change path ⟨origin, entries⟩).toNode
    | some (.tables items) =>
      match inBraces, items.getLast? with
      | false, some last => do
        let last ← alter dotted inBraces change path ⟨{}, last⟩
        return t.insert name (.tables (items.dropLast ++ [last.entries]))
      | _, _ => none
    | some (.scalar _) | some (.array _) => none

/-- Gives a value to the last name of a key. The table it belongs to has to be dotted if the key is,
and not to be if it is not. -/
def assign (inBraces : Bool) (path : Path) (node : Node) (t : Table) : Option Table :=
  match path.getLast? with
  | none => none
  | some name =>
    let dotted := 1 < path.length
    alter dotted inBraces
      (fun t =>
        if t.origin.dotted ≠ dotted ∨ (t.entries.get? name).isSome then none
        else some (t.insert name node))
      path.dropLast t

/-- Defines the table of a header. It may have been named before, but not defined. -/
def define (path : Path) (t : Table) : Option Table :=
  match path.getLast? with
  | none => none
  | some name =>
    alter false false
      (fun t =>
        match t.entries.get? name with
        | none => some (t.insert name (.table {} []))
        | some (.table origin entries) =>
          if origin.implicit ∧ !origin.dotted then
            some (t.insert name (.table { origin with implicit := false } entries))
          else none
        | some _ => none)
      path.dropLast t

def append (path : Path) (t : Table) : Option Table :=
  match path.getLast? with
  | none => none
  | some name =>
    alter false false
      (fun t =>
        match t.entries.get? name with
        | none => some (t.insert name (.tables [[]]))
        | some (.tables items) => some (t.insert name (.tables (items ++ [[]])))
        | some _ => none)
      path.dropLast t

end Table

mutual

def Node.ofExpr? : Expr → Option Node
  | .scalar s => some (.scalar s)
  | .array items => (Node.ofItems? items).map .array
  | .table members => (Node.addMembers? ⟨{ braced := true }, []⟩ members).map Table.toNode

def Node.ofItems? : List Expr → Option (List Node)
  | [] => some []
  | e :: es => do
    let node ← Node.ofExpr? e
    return node :: (← Node.ofItems? es)

def Node.addMembers? (t : Table) : List (Path × Expr) → Option Table
  | [] => some t
  | (path, e) :: members => do
    let node ← Node.ofExpr? e
    Node.addMembers? (← t.assign true path node) members

end

namespace Table

def run : Path → Table → List Statement → Option Table
  | _, t, [] => some t
  | _, t, .header path :: rest => do run path (← t.define path) rest
  | _, t, .itemHeader path :: rest => do run path (← t.append path) rest
  | current, t, .assign path e :: rest => do
    let node ← Node.ofExpr? e
    run current (← alter false false (assign false path node) current t) rest

def ofText? (t : Text) : Option Table := do
  run [] ⟨{}, []⟩ (← Statement.listOfText? t)

end Table

end Mustache.Toml
