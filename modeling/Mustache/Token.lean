import Mustache.Source

namespace Mustache

/-- What the characters between the opening braces and the key say about a tag. -/
inductive Modifier where
  /-- `#` opens a section. -/
  | opener
  /-- `^` opens an inverted section. -/
  | inverter
  /-- `/` closes a section. -/
  | closer
  /-- `!` makes the tag a comment. -/
  | comment
  /-- `&` writes the value as it is. -/
  | raw
  /-- `>` includes a partial. -/
  | inclusion
  /-- `~` is reserved. -/
  | tilde
deriving DecidableEq

namespace Modifier

def ofChar? : Char → Option Modifier
  | '#' => some opener
  | '^' => some inverter
  | '/' => some closer
  | '!' => some comment
  | '&' => some raw
  | '>' => some inclusion
  | '~' => some tilde
  | _ => none

def toChar : Modifier → Char
  | opener => '#'
  | inverter => '^'
  | closer => '/'
  | comment => '!'
  | raw => '&'
  | inclusion => '>'
  | tilde => '~'

theorem ofChar?_toChar (m : Modifier) : ofChar? m.toChar = some m := by cases m <;> rfl

/-- The modifiers a text begins with, and the rest. -/
def takeAll : Text → List Modifier × Text
  | [] => ([], [])
  | c :: cs =>
    match ofChar? c with
    | none => ([], c :: cs)
    | some m => (m :: (takeAll cs).1, (takeAll cs).2)

def standsAlone : Modifier → Bool
  | opener | inverter | closer | comment => true
  | raw | inclusion | tilde => false

end Modifier

inductive TokenKind where
  | literal
  | tag
  | tripleTag
deriving DecidableEq

structure Token where
  fragment : Fragment
deriving DecidableEq

namespace Token

def text (t : Token) : Text := t.fragment.text

def toText (t : Token) : Text := "Token: ".toList ++ t.fragment.toText

def place (t : Token) : Location := t.fragment.span.first

def line (t : Token) : Nat := t.place.line

def kindOf : Text → TokenKind
  | '{' :: '{' :: '{' :: _ => .tripleTag
  | '{' :: '{' :: _ => .tag
  | _ => .literal

def kind (t : Token) : TokenKind := kindOf t.text

def isLiteral (t : Token) : Bool := t.kind = .literal

/-- A text without the braces around it. Three closing braces count as two where only two are
there; braces that are missing are not asked for. -/
def stripBraces (count : Nat) (t : Text) : Text :=
  let t := (Text.stripPrefix? (List.replicate count '{') t).getD t
  (Text.stripSuffix? (List.replicate count '}') t <|> Text.stripSuffix? ['}', '}'] t).getD t

def partsOfInner (inner : Text) : List Modifier × Text :=
  let (modifiers, key) := Modifier.takeAll inner.trimStart
  (modifiers, key.trim)

/-- The modifiers and the key of a text. Plain text has no modifiers and is its own key. -/
def partsOf (t : Text) : List Modifier × Text :=
  match kindOf t with
  | .literal => ([], t)
  | .tag => partsOfInner (stripBraces 2 t)
  | .tripleTag => partsOfInner (stripBraces 3 t)

def parts (t : Token) : List Modifier × Text := partsOf t.text

def modifiers (t : Token) : List Modifier := t.parts.1

def key (t : Token) : Text := t.parts.2

def has (t : Token) (m : Modifier) : Bool := t.modifiers.contains m

def isComment (t : Token) : Bool := t.has .comment

def opensSection (t : Token) : Bool := t.has .opener || t.has .inverter

def standsAlone (t : Token) : Bool := t.modifiers.any Modifier.standsAlone

end Token

structure Limits where
  /-- How often the lexer may look for a token; the last look finds the end of the source. -/
  maxLoops : Nat := 500
  /-- How many bytes the lexer looks ahead. -/
  lookahead : Nat := 100
deriving DecidableEq

namespace Limits

/-- The least number of bytes in view, in which three braces fit. -/
def minLookahead : Nat := 3

def window (limits : Limits) : Nat := max limits.lookahead minLookahead

theorem three_le_window (limits : Limits) : 3 ≤ limits.window := Nat.le_max_right _ _

end Limits

namespace Token

def opensTag : Text → Bool
  | '{' :: '{' :: _ => true
  | _ => false

/-- A text up to its first closing braces, these included, with a third one if it follows. -/
def throughClosing? : Text → Option Text
  | [] => none
  | '}' :: '}' :: '}' :: _ => some ['}', '}', '}']
  | '}' :: '}' :: _ => some ['}', '}']
  | c :: cs => (throughClosing? cs).map (c :: ·)

def untilOpening : Text → Text
  | [] => []
  | c :: cs => if opensTag (c :: cs) then [] else c :: untilOpening cs

/-- The next token of what is in view, none if a tag begins there and does not end. Where a full
view without a tag ends in an opening brace, the brace is left to the next view: it may begin a
tag. -/
def next? (window : Nat) (view : Text) : Option Text :=
  if opensTag view then throughClosing? view
  else if untilOpening view = view ∧ window ≤ view.byteCount ∧ view.getLast? = some '{' then
    some view.dropLast
  else some (untilOpening view)

/-- The outcome of lexing: the tokens that were read, what is left of the source, and why lexing
stopped if it was not at the end. -/
structure Lexing where
  tokens : List Token
  source : Source
  failure : Option Error
deriving DecidableEq

def Lexing.result (l : Lexing) : Except Error (List Token) :=
  match l.failure with
  | none => .ok l.tokens
  | some e => .error e

def lexWithin (limits : Limits) : Nat → Source → Lexing
  | 0, s => ⟨[], s, some (.loopLimit limits.maxLoops)⟩
  | loops + 1, s =>
    let view := s.after.takeBytes limits.window
    if view.isEmpty then ⟨[], s, none⟩
    else
      match next? limits.window view with
      | none => ⟨[], s, some (.unclosedTag (s.peek limits.window).span.first)⟩
      | some piece =>
        let (fragment, s) := s.read piece.byteCount
        let rest := lexWithin limits loops s
        ⟨⟨fragment⟩ :: rest.tokens, rest.source, rest.failure⟩

def lex (limits : Limits) (s : Source) : Lexing := lexWithin limits limits.maxLoops s

end Token

end Mustache
