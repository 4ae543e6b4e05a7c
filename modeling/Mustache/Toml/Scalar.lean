import Mustache.Binary64

namespace Mustache.Toml

inductive Moment where
  | date
  | time
  | dateTime
  | dateTimeOffset
deriving DecidableEq

inductive Scalar where
  | bool (b : Bool)
  /-- None stands for a word that only looks like an integer. -/
  | integer (n : Option Int)
  /-- None stands for a number beyond the range of doubles. -/
  | float (x : Option Binary64)
  | moment (m : Moment)
  | string (t : Text)
deriving DecidableEq

namespace Scalar

def joinDigits? (base : Nat) : Text → Option Text
  | [] => none
  | [c] => if Text.isDigit base c then some [c] else none
  | c :: '_' :: cs => if Text.isDigit base c then (joinDigits? base cs).map (c :: ·) else none
  | c :: cs => if Text.isDigit base c then (joinDigits? base cs).map (c :: ·) else none

def splitSign : Text → Bool × Text
  | '+' :: cs => (false, cs)
  | '-' :: cs => (true, cs)
  | cs => (false, cs)

def signed (negative : Bool) (n : Nat) : Int := if negative then -(n : Int) else n

/-- The decimal digits of a whole number behind its sign, without the underscores between them. Of
several digits the first is not zero. -/
def wholeDigits? (t : Text) : Option Text := do
  let digits ← joinDigits? 10 (splitSign t).2
  if digits.head? = some '0' ∧ 1 < digits.length then none else some digits

def base? : Text → Option (Nat × Text)
  | '0' :: 'x' :: cs => some (16, cs)
  | '0' :: 'o' :: cs => some (8, cs)
  | '0' :: 'b' :: cs => some (2, cs)
  | _ => none

def integer? (t : Text) : Option Int :=
  match base? t with
  | some (base, cs) => (joinDigits? base cs).map fun ds => (Text.ofDigits base ds : Int)
  | none => (wholeDigits? t).map fun ds => signed (splitSign t).1 (Text.ofDigits 10 ds)

/-- Whether hexadecimal digits stand on both sides of each underscore. One at the front has nothing
before it to be a digit. -/
def separatesDigits : Text → Bool
  | [] => true
  | [c] => c ≠ '_'
  | c :: d :: cs =>
    (d ≠ '_' || Text.isDigit 16 c) && (c ≠ '_' || Text.isDigit 16 d) && separatesDigits (d :: cs)

/-- Whether a word looks like an integer: a base without digits, or decimal digits and an underscore
with any characters behind it, except spaces and those that make a float of it. -/
def isLikeInteger (t : Text) : Bool :=
  match base? t with
  | some (_, cs) => cs.isEmpty
  | none =>
    let (digits, rest) := (splitSign t).2.span (Text.isDigit 10)
    !digits.isEmpty && digits.head? ≠ some '0' && rest.head? = some '_' &&
      separatesDigits (splitSign t).2 && !rest.any [' ', '.', 'e', 'E'].contains

def decimalFloat? (t : Text) : Option (Option Binary64) := do
  let negative := (splitSign t).1
  let isE (c : Char) : Bool := c = 'e' || c = 'E'
  let mantissa := t.takeWhile (!isE ·)
  let exponent ← match t.dropWhile (!isE ·) with
    | [] => some none
    | _ :: cs =>
      (joinDigits? 10 (splitSign cs).2).map fun ds =>
        some (signed (splitSign cs).1 (Text.ofDigits 10 ds))
  let whole ← wholeDigits? (mantissa.takeWhile (· ≠ '.'))
  let fraction ← match mantissa.dropWhile (· ≠ '.') with
    | [] => some []
    | _ :: cs => joinDigits? 10 cs
  if fraction.isEmpty ∧ exponent.isNone then none
  let x := Binary64.ofDecimal negative (Text.ofDigits 10 (whole ++ fraction))
    (exponent.getD 0 - fraction.length)
  return if x.isFinite then some x else none

def float? (t : Text) : Option (Option Binary64) :=
  let (negative, word) := splitSign t
  if word = ['i', 'n', 'f'] then some (some (.infinity negative))
  else if word = ['n', 'a', 'n'] then some (some ⟨0x7ff8000000000000⟩)
  else decimalFloat? t

def upTo? (greatest : Nat) (t : Text) : Option (Nat × Text) :=
  (Text.fixedDigits? 10 2 t).filter (·.1 ≤ greatest)

def char? (c : Char) (t : Text) : Option Text := Text.stripPrefix? [c] t

def isLeapYear (year : Nat) : Bool := year % 4 = 0 && (year % 100 ≠ 0 || year % 400 = 0)

def daysOfMonth (year month : Nat) : Nat :=
  if month = 2 then (if isLeapYear year then 29 else 28)
  else if month = 4 ∨ month = 6 ∨ month = 9 ∨ month = 11 then 30
  else 31

def date? (t : Text) : Option Text := do
  let (year, t) ← Text.fixedDigits? 10 4 t
  let t ← char? '-' t
  let (month, t) ← upTo? 12 t
  let t ← char? '-' t
  let (day, t) ← upTo? (daysOfMonth year month) t
  if month = 0 ∨ day = 0 then none else some t

def secondFraction? : Text → Option Text
  | '.' :: cs =>
    let (digits, rest) := cs.span (Text.isDigit 10)
    if digits.isEmpty then none else some rest
  | cs => some cs

/-- A time of day, of which the seconds may be missing, and what follows it. -/
def time? (t : Text) : Option Text := do
  let (_, t) ← upTo? 23 t
  let t ← char? ':' t
  let (_, t) ← upTo? 59 t
  match t with
  | ':' :: cs => secondFraction? (← upTo? 60 cs).2
  | cs => some cs

def offset? : Text → Option Text
  | [] => none
  | c :: cs =>
    if c = 'Z' ∨ c = 'z' then some cs
    else if c = '+' ∨ c = '-' then do
      let (_, t) ← upTo? 23 cs
      let t ← char? ':' t
      let (_, t) ← upTo? 59 t
      return t
    else none

def moment? (t : Text) : Option Moment :=
  match date? t with
  | some [] => some .date
  | some (c :: cs) =>
    if c = 'T' ∨ c = 't' ∨ c = ' ' then do
      let rest ← time? cs
      if rest.isEmpty then some .dateTime
      else if offset? rest = some [] then some .dateTimeOffset
      else none
    else none
  | none => if time? t = some [] then some .time else none

def ofWord? (t : Text) : Option Scalar :=
  if t = ['t', 'r', 'u', 'e'] then some (.bool true)
  else if t = ['f', 'a', 'l', 's', 'e'] then some (.bool false)
  else
    (integer? t).map (.integer ∘ some) <|> (float? t).map .float <|> (moment? t).map .moment <|>
      if isLikeInteger t then some (.integer none) else none

end Scalar

end Mustache.Toml
