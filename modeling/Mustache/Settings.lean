import Mustache.FileTree
import Mustache.Token
import Mustache.Toml.Table

namespace Mustache.Settings

open Toml

mutual

/-- Whether every number in a node has a value in the range of numbers that can be read. -/
def inRange : Node → Bool
  | .scalar (.integer n) => n.any fun n => -(Nat.pow 2 127 : Int) ≤ n && n < Nat.pow 2 128
  | .scalar (.float x) => x.isSome
  | .scalar _ => true
  | .array items => itemsInRange items
  | .table _ entries => entriesInRange entries
  | .tables items => tablesInRange items

def itemsInRange : List Node → Bool
  | [] => true
  | node :: nodes => inRange node && itemsInRange nodes

def entriesInRange : List (Text × Node) → Bool
  | [] => true
  | (_, node) :: entries => inRange node && entriesInRange entries

def tablesInRange : List (List (Text × Node)) → Bool
  | [] => true
  | entries :: tables => entriesInRange entries && tablesInRange tables

end

/-- A limit, which is an integer of 64 bits without a sign, or the default if it is missing. -/
def limit? (default : Nat) : Option Node → Option Nat
  | none => some default
  | some (.scalar (.integer (some n))) => if 0 ≤ n ∧ n < Nat.pow 2 64 then some n.toNat else none
  | some _ => none

def limits? (maxLoops lookahead : Option Node) : Option Limits := do
  let default : Limits := {}
  return ⟨← limit? default.maxLoops maxLoops, ← limit? default.lookahead lookahead⟩

/-- The limits of the value under `lexer`: the entries of a table by their names, the first two
items of an array in their order. A moment sets nothing. -/
def limitsOfNode? : Option Node → Option Limits
  | none => some {}
  | some (.table _ entries) =>
    if entriesInRange entries then
      limits? (Entries.get? "max_loops".toList entries) (Entries.get? "lookahead".toList entries)
    else none
  | some (.array items) => limits? items[0]? items[1]?
  | some (.scalar (.moment _)) => some {}
  | some (.scalar _) | some (.tables _) => none

/-- The limits that a TOML text sets. What it sets beside them is read, but not used. -/
def ofText (t : Text) : Except Error Limits :=
  let name := "lexer".toList
  let limits := do
    let table ← Table.ofText? t
    if entriesInRange (table.entries.filter (·.1 ≠ name)) then
      limitsOfNode? (table.entries.get? name)
    else none
  match limits with
  | none => .error .invalidSettings
  | some limits => .ok limits

/-- The places of settings in a project, the first one that is there being used. -/
def candidates : List Text :=
  ["stache.toml".toList, ".stache.toml".toList, ".config/stache.toml".toList]

def path? (tree : FileTree) (directory : Text) : Option Text :=
  (candidates.map (FileTree.join directory)).find? tree.isFile

def load (tree : FileTree) (directory : Text) : Except Error (Option Limits) :=
  match path? tree directory with
  | none => .ok none
  | some path =>
    match tree.read path with
    | .error cause => .error (.fault cause)
    | .ok bytes =>
      match Text.decode? bytes with
      | none => .error (.fault .invalidText)
      | some t => (ofText t).map some

end Mustache.Settings
