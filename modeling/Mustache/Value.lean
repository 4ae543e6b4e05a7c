import Mustache.Binary64
import Mustache.Entries

namespace Mustache

inductive Kind where
  | null
  | boolean
  | number
  | string
  | object
  | list
deriving DecidableEq

def Kind.name : Kind → String
  | .null => "null"
  | .boolean => "boolean"
  | .number => "number"
  | .string => "string"
  | .object => "object"
  | .list => "list"

inductive Value where
  | null
  | bool (b : Bool)
  | number (x : Binary64)
  | string (t : Text)
  | object (entries : List (Text × Value))
  /-- A list holds the entries of objects. -/
  | list (items : List (List (Text × Value)))

abbrev Mapping := Entries Value

namespace Value

def kind : Value → Kind
  | null => .null
  | bool _ => .boolean
  | number _ => .number
  | string _ => .string
  | object _ => .object
  | list _ => .list

def object? : Value → Option Mapping
  | object entries => some entries
  | _ => none

/-- The entries of a value at the root of the data. What is no object has the name `.`. -/
def root : Value → Mapping
  | object entries => entries
  | v => [(['.'], v)]

mutual

def isNear : Value → Value → Bool
  | null, null => true
  | bool a, bool b => a == b
  | number x, number y => x.isNear y
  | string s, string t => s == t
  | object es, object fs => isNearEntries es fs
  | list is, list js => isNearItems is js
  | _, _ => false

def isNearEntries : List (Text × Value) → List (Text × Value) → Bool
  | [], [] => true
  | (k, v) :: es, (l, w) :: fs => k == l && isNear v w && isNearEntries es fs
  | _, _ => false

def isNearItems : List (List (Text × Value)) → List (List (Text × Value)) → Bool
  | [], [] => true
  | es :: is, fs :: js => isNearEntries es fs && isNearItems is js
  | _, _ => false

end

end Value

end Mustache
