import Mustache.Binary64
import Mustache.Entries
import Mustache.Json.Tree

namespace Mustache

inductive Json where
  | null
  | bool (b : Bool)
  | int (n : Int)
  | double (x : Binary64)
  | string (t : Text)
  | array (items : List Json)
  | object (members : List (Text × Json))

namespace Json

/-- The number a numeral stands for, if it is in the range of doubles. -/
def ofNumeral? (n : Numeral) : Option Json :=
  if n.whole ∧ !n.negative ∧ n.digits < Nat.pow 2 64 then some (.int n.digits)
  else if n.whole ∧ n.negative ∧ 0 < n.digits ∧ n.digits ≤ Nat.pow 2 63 then some (.int (-n.digits))
  else
    let x := Binary64.ofDecimal n.negative n.digits n.exponent
    if x.isFinite then some (.double x) else none

mutual

/-- The document of a tree in which arrays and objects are nested to at most the given depth. -/
def ofTree? (depth : Nat) : Tree → Option Json
  | .null => some .null
  | .bool b => some (.bool b)
  | .number n => ofNumeral? n
  | .string t => t.map .string
  | .array items =>
    match depth with
    | 0 => none
    | depth + 1 => (ofItems? depth items).map .array
  | .object members =>
    match depth with
    | 0 => none
    | depth + 1 => (ofMembers? depth members).map fun es => .object (Entries.ofList es)

def ofItems? (depth : Nat) : List Tree → Option (List Json)
  | [] => some []
  | t :: ts => do
    let item ← ofTree? depth t
    return item :: (← ofItems? depth ts)

def ofMembers? (depth : Nat) : List (Option Text × Tree) → Option (List (Text × Json))
  | [] => some []
  | (name, t) :: ts => do
    let name ← name
    let item ← ofTree? depth t
    return (name, item) :: (← ofMembers? depth ts)

end

def maxDepth : Nat := 127

def escapeChar (c : Char) : Text :=
  if c = '"' ∨ c = '\\' then ['\\', c]
  else if c = '\x08' then ['\\', 'b']
  else if c = '\x0c' then ['\\', 'f']
  else if c = '\n' then ['\\', 'n']
  else if c = '\r' then ['\\', 'r']
  else if c = '\t' then ['\\', 't']
  else if c.toNat < 0x20 then
    ['\\', 'u', '0', '0', Nat.digitChar (c.toNat / 16), Nat.digitChar (c.toNat % 16)]
  else [c]

def stringText (t : Text) : Text := ['"'] ++ t.flatMap escapeChar ++ ['"']

def intText (n : Int) : Text := if n < 0 then '-' :: Text.ofNat n.natAbs else Text.ofNat n.natAbs

mutual

def toText : Json → Text
  | null => ['n', 'u', 'l', 'l']
  | bool true => ['t', 'r', 'u', 'e']
  | bool false => ['f', 'a', 'l', 's', 'e']
  | int n => intText n
  | double x => x.shortestText
  | string t => stringText t
  | array items => ['['] ++ Text.join [','] (itemTexts items) ++ [']']
  | object members => ['{'] ++ Text.join [','] (memberTexts members) ++ ['}']

def itemTexts : List Json → List Text
  | [] => []
  | j :: js => toText j :: itemTexts js

def memberTexts : List (Text × Json) → List Text
  | [] => []
  | (name, j) :: js => (stringText name ++ [':'] ++ toText j) :: memberTexts js

end

end Json

end Mustache
