import Mustache.Text

namespace Mustache.Json

/-- A number as it is written, `digits * 10 ^ exponent` with a sign. -/
structure Numeral where
  negative : Bool
  digits : Nat
  exponent : Int
  /-- Whether it is written without a fraction and without an exponent. -/
  whole : Bool
deriving DecidableEq

inductive Tree where
  | null
  | bool (b : Bool)
  | number (n : Numeral)
  /-- None stands for a string with an unpaired surrogate. -/
  | string (t : Option Text)
  | array (items : List Tree)
  | object (members : List (Option Text × Tree))

namespace Tree

def isBlank (c : Char) : Bool := c = ' ' || c = '\t' || c = '\n' || c = '\r'

def skipBlank (t : Text) : Text := t.dropWhile isBlank

/-- What stands between the quotes of a string: characters, and UTF-16 units given by number. -/
inductive Piece where
  | char (c : Char)
  | unit (n : Nat)

def stringPieces? : Text → Option (List Piece × Text)
  | [] => none
  | '"' :: cs => some ([], cs)
  | '\\' :: 'u' :: a :: b :: c :: d :: cs => do
    let (unit, _) ← Text.fixedDigits? 16 4 [a, b, c, d]
    let (pieces, rest) ← stringPieces? cs
    return (.unit unit :: pieces, rest)
  | '\\' :: c :: cs => do
    let escaped ← match c with
      | '"' => some '"'
      | '\\' => some '\\'
      | '/' => some '/'
      | 'b' => some '\x08'
      | 'f' => some '\x0c'
      | 'n' => some '\n'
      | 'r' => some '\r'
      | 't' => some '\t'
      | _ => none
    let (pieces, rest) ← stringPieces? cs
    return (.char escaped :: pieces, rest)
  | c :: cs => do
    if c.toNat < 0x20 ∨ c = '\\' then none
    let (pieces, rest) ← stringPieces? cs
    return (.char c :: pieces, rest)

def isHighSurrogate (n : Nat) : Bool := 0xd800 ≤ n && n ≤ 0xdbff

def isLowSurrogate (n : Nat) : Bool := 0xdc00 ≤ n && n ≤ 0xdfff

/-- The text of the pieces of a string, a pair of surrogates being one character. -/
def textOfPieces? : List Piece → Option Text
  | [] => some []
  | .char c :: ps => (textOfPieces? ps).map (c :: ·)
  | .unit h :: .unit l :: ps =>
    if isHighSurrogate h then
      if isLowSurrogate l then
        (textOfPieces? ps).map (Char.ofNat (0x10000 + (h - 0xd800) * 0x400 + (l - 0xdc00)) :: ·)
      else none
    else if isLowSurrogate h then none
    else (textOfPieces? (.unit l :: ps)).map (Char.ofNat h :: ·)
  | .unit n :: ps =>
    if isHighSurrogate n ∨ isLowSurrogate n then none
    else (textOfPieces? ps).map (Char.ofNat n :: ·)

def string? (t : Text) : Option (Option Text × Text) :=
  (stringPieces? t).map fun (pieces, rest) => (textOfPieces? pieces, rest)

def digits (t : Text) : Text × Text := t.span (Text.isDigit 10)

def fraction? : Text → Option (Text × Text)
  | '.' :: cs => if (digits cs).1.isEmpty then none else some (digits cs)
  | cs => some ([], cs)

def exponent? : Text → Option (Option Int × Text)
  | [] => some (none, [])
  | e :: cs =>
    if e = 'e' ∨ e = 'E' then
      let (negative, cs) := match cs with
        | '-' :: ds => (true, ds)
        | '+' :: ds => (false, ds)
        | ds => (false, ds)
      let (ds, rest) := digits cs
      let n : Int := Text.ofDigits 10 ds
      if ds.isEmpty then none else some (some (if negative then -n else n), rest)
    else some (none, e :: cs)

/-- A number, which has no zero before another digit. -/
def numeral? (t : Text) : Option (Numeral × Text) := do
  let (negative, t) := match t with
    | '-' :: cs => (true, cs)
    | cs => (false, cs)
  let (whole, t) := match t with
    | '0' :: cs => (['0'], cs)
    | cs => digits cs
  if whole.isEmpty then none
  let (fraction, t) ← fraction? t
  let (exponent, t) ← exponent? t
  return ({
    negative
    digits := Text.ofDigits 10 (whole ++ fraction)
    exponent := exponent.getD 0 - fraction.length
    whole := fraction.isEmpty && exponent.isNone }, t)

mutual

def value? : Nat → Text → Option (Tree × Text)
  | 0, _ => none
  | n + 1, t =>
    match skipBlank t with
    | 'n' :: 'u' :: 'l' :: 'l' :: cs => some (.null, cs)
    | 't' :: 'r' :: 'u' :: 'e' :: cs => some (.bool true, cs)
    | 'f' :: 'a' :: 'l' :: 's' :: 'e' :: cs => some (.bool false, cs)
    | '"' :: cs => (string? cs).map fun (s, rest) => (.string s, rest)
    | '[' :: cs =>
      match skipBlank cs with
      | ']' :: rest => some (.array [], rest)
      | rest => (items? n rest).map fun (items, rest) => (.array items, rest)
    | '{' :: cs =>
      match skipBlank cs with
      | '}' :: rest => some (.object [], rest)
      | rest => (members? n rest).map fun (members, rest) => (.object members, rest)
    | cs => (numeral? cs).map fun (x, rest) => (.number x, rest)

def items? : Nat → Text → Option (List Tree × Text)
  | 0, _ => none
  | n + 1, t => do
    let (item, t) ← value? n t
    match skipBlank t with
    | ',' :: rest => (items? n rest).map fun (items, rest) => (item :: items, rest)
    | ']' :: rest => some ([item], rest)
    | _ => none

def members? : Nat → Text → Option (List (Option Text × Tree) × Text)
  | 0, _ => none
  | n + 1, t => do
    let t ← Text.stripPrefix? ['"'] (skipBlank t)
    let (key, t) ← string? t
    let t ← Text.stripPrefix? [':'] (skipBlank t)
    let (item, t) ← value? n t
    match skipBlank t with
    | ',' :: rest => (members? n rest).map fun (members, rest) => ((key, item) :: members, rest)
    | '}' :: rest => some ([(key, item)], rest)
    | _ => none

end

/-- The tree of a text that holds one value and nothing else. Every step reads a character. -/
def ofText? (t : Text) : Option Tree := do
  let (tree, rest) ← value? (t.length + 1) t
  if (skipBlank rest).isEmpty then some tree else none

end Tree

end Mustache.Json
