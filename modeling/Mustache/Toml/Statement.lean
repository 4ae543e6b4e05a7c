import Mustache.Toml.Scalar

namespace Mustache.Toml

abbrev Path := List Text

inductive Expr where
  | scalar (s : Scalar)
  | array (items : List Expr)
  | table (members : List (Path × Expr))

inductive Statement where
  /-- `[path]` -/
  | header (path : Path)
  /-- `[[path]]` -/
  | itemHeader (path : Path)
  /-- `path = value` -/
  | assign (path : Path) (value : Expr)

/-- How deeply values may be nested, and how many names a path may have. -/
def maxNesting : Nat := 80

namespace Statement

def isBlank (c : Char) : Bool := c = ' ' || c = '\t'

def skipBlank (t : Text) : Text := t.dropWhile isBlank

def isPlain (c : Char) : Bool := c = '\t' || 0x20 ≤ c.toNat && c.toNat ≠ 0x7f

def lineBreak? : Text → Option Text
  | '\n' :: cs => some cs
  | '\r' :: '\n' :: cs => some cs
  | _ => none

/-- What follows a comment, which may be missing, or the end of the line if it is not reached. -/
def skipComment (t : Text) : Text :=
  match t with
  | '#' :: cs => cs.dropWhile isPlain
  | cs => cs

def endOfLine? (t : Text) : Option Text :=
  match skipComment (skipBlank t) with
  | [] => some []
  | cs => lineBreak? cs

def skipLines (t : Text) : Text := go t.length t
where
  go : Nat → Text → Text
    | 0, t => t
    | n + 1, t =>
      let t := skipComment (skipBlank t)
      match lineBreak? t with
      | none => t
      | some rest => go n rest

def codePoint? (count : Nat) (t : Text) : Option (Char × Text) := do
  let (n, rest) ← Text.fixedDigits? 16 count t
  if n.isValidChar then some (Char.ofNat n, rest) else none

def escape? : Text → Option (Char × Text)
  | 'b' :: cs => some ('\x08', cs)
  | 't' :: cs => some ('\t', cs)
  | 'n' :: cs => some ('\n', cs)
  | 'f' :: cs => some ('\x0c', cs)
  | 'r' :: cs => some ('\r', cs)
  | 'e' :: cs => some ('\x1b', cs)
  | '"' :: cs => some ('"', cs)
  | '\\' :: cs => some ('\\', cs)
  | 'x' :: cs => codePoint? 2 cs
  | 'u' :: cs => codePoint? 4 cs
  | 'U' :: cs => codePoint? 8 cs
  | _ => none

/-- A string of one line behind its opening quote. Backslashes escape only between double quotes. -/
def line? (quote : Char) : Nat → Text → Option (Text × Text)
  | 0, _ => none
  | _, [] => none
  | n + 1, c :: cs =>
    if c = quote then some ([], cs)
    else if c = '\\' ∧ quote = '"' then do
      let (c, cs) ← escape? cs
      let (t, rest) ← line? quote n cs
      return (c :: t, rest)
    else if isPlain c then (line? quote n cs).map fun (t, rest) => (c :: t, rest)
    else none

/-- What follows blanks and line breaks, of which at least one is a line break. -/
def joinedLine? (t : Text) : Option Text :=
  (lineBreak? (skipBlank t)).map (go t.length)
where
  go : Nat → Text → Text
    | 0, t => t
    | n + 1, t =>
      match lineBreak? (skipBlank t) with
      | none => skipBlank t
      | some rest => go n rest

/-- A string of several lines behind its opening quotes. Up to two quotes may stand in front of the
closing ones. -/
def lines? (quote : Char) : Nat → Text → Option (Text × Text)
  | 0, _ => none
  | _, [] => none
  | n + 1, c :: cs =>
    match Text.stripPrefix? [quote, quote, quote] (c :: cs) with
    | some rest =>
      let extra := (rest.take 2).takeWhile (· = quote)
      some (extra, rest.drop extra.length)
    | none =>
      if c = '\\' ∧ quote = '"' then
        match joinedLine? cs with
        | some cs => lines? quote n cs
        | none => do
          let (c, cs) ← escape? cs
          let (t, rest) ← lines? quote n cs
          return (c :: t, rest)
      else
        match lineBreak? (c :: cs) with
        | some cs => (lines? quote n cs).map fun (t, rest) => ('\n' :: t, rest)
        | none =>
          if isPlain c then (lines? quote n cs).map fun (t, rest) => (c :: t, rest) else none

def string? (quote : Char) (t : Text) : Option (Text × Text) :=
  match Text.stripPrefix? [quote, quote, quote] t with
  | some rest => lines? quote (t.length + 1) ((lineBreak? rest).getD rest)
  | none => do line? quote (t.length + 1) (← Text.stripPrefix? [quote] t)

def isBareKeyChar (c : Char) : Bool := c.isAlphanum || c = '_' || c = '-'

def name? : Text → Option (Text × Text)
  | '"' :: cs => line? '"' (cs.length + 1) cs
  | '\'' :: cs => line? '\'' (cs.length + 1) cs
  | cs =>
    if (cs.takeWhile isBareKeyChar).isEmpty then none
    else some (cs.takeWhile isBareKeyChar, cs.dropWhile isBareKeyChar)

def path? (t : Text) : Option (Path × Text) := do
  let (path, rest) ← go (t.length + 1) t
  if maxNesting < path.length then none else some (path, rest)
where
  go : Nat → Text → Option (Path × Text)
    | 0, _ => none
    | n + 1, t => do
      let (name, t) ← name? (skipBlank t)
      match skipBlank t with
      | '.' :: rest => (go n rest).map fun (path, rest) => (name :: path, rest)
      | rest => some ([name], rest)

def isWordChar (c : Char) : Bool :=
  !([' ', '\t', '\r', '\n', '#', '=', ',', '[', ']', '{', '}'].contains c)

/-- Whether a word goes on behind blanks. A quote there would begin a string. -/
def goesOn (t : Text) : Bool :=
  (skipBlank t).head?.any fun c => isWordChar c && c ≠ '"' && c ≠ '\''

/-- A word, and the rest. The blanks between two words belong to one word with them, as those
between a date and a time do. -/
def word : Text → Text × Text
  | [] => ([], [])
  | c :: cs =>
    if isWordChar c || isBlank c && goesOn cs then
      let (w, rest) := word cs
      (c :: w, rest)
    else ([], c :: cs)

mutual

def value? (depth : Nat) : Nat → Text → Option (Expr × Text)
  | 0, _ => none
  | n + 1, t =>
    match t with
    | '"' :: _ => (string? '"' t).map fun (s, rest) => (.scalar (.string s), rest)
    | '\'' :: _ => (string? '\'' t).map fun (s, rest) => (.scalar (.string s), rest)
    | '[' :: cs =>
      if depth = 0 then none
      else (items? (depth - 1) n cs).map fun (items, rest) => (.array items, rest)
    | '{' :: cs =>
      if depth = 0 then none
      else (members? (depth - 1) n cs).map fun (members, rest) => (.table members, rest)
    | cs => (Scalar.ofWord? (word cs).1).map fun s => (.scalar s, (word cs).2)

def items? (depth : Nat) : Nat → Text → Option (List Expr × Text)
  | 0, _ => none
  | n + 1, t =>
    match skipLines t with
    | ']' :: rest => some ([], rest)
    | t => do
      let (item, t) ← value? depth n t
      match skipLines t with
      | ',' :: rest => (items? depth n rest).map fun (items, rest) => (item :: items, rest)
      | ']' :: rest => some ([item], rest)
      | _ => none

def members? (depth : Nat) : Nat → Text → Option (List (Path × Expr) × Text)
  | 0, _ => none
  | n + 1, t =>
    match skipLines t with
    | '}' :: rest => some ([], rest)
    | t => do
      let (path, t) ← path? t
      let t ← Text.stripPrefix? ['='] (skipLines t)
      let (item, t) ← value? depth n (skipLines t)
      match skipLines t with
      | ',' :: rest =>
        (members? depth n rest).map fun (members, rest) => ((path, item) :: members, rest)
      | '}' :: rest => some ([(path, item)], rest)
      | _ => none

end

def ofLine? (t : Text) : Option (Statement × Text) :=
  match t with
  | '[' :: '[' :: cs => do
    let (path, t) ← path? cs
    let t ← Text.stripPrefix? [']', ']'] t
    return (itemHeader path, ← endOfLine? t)
  | '[' :: cs => do
    let (path, t) ← path? cs
    let t ← Text.stripPrefix? [']'] t
    return (header path, ← endOfLine? t)
  | cs => do
    let (path, t) ← path? cs
    let t ← Text.stripPrefix? ['='] t
    let (v, t) ← value? maxNesting (t.length + 1) (skipBlank t)
    return (assign path v, ← endOfLine? t)

/-- The statements of a text, which may begin with a byte order mark. -/
def listOfText? (t : Text) : Option (List Statement) :=
  go (t.length + 1) ((Text.stripPrefix? ['\ufeff'] t).getD t)
where
  go : Nat → Text → Option (List Statement)
    | 0, _ => none
    | n + 1, t =>
      match skipLines t with
      | [] => some []
      | t => do
        let (statement, rest) ← ofLine? t
        return statement :: (← go n rest)

end Statement

end Mustache.Toml
