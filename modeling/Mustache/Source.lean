import Mustache.Error
import Mustache.Text.Quoted

namespace Mustache

structure Fragment where
  text : Text
  span : Span
deriving DecidableEq

def Fragment.empty : Fragment := ⟨[], .unknown⟩

def Fragment.toText (f : Fragment) : Text := f.text.quote ++ ' ' :: f.span.toText

/-- A text that has been read up to some character. -/
structure Source where
  name : Option Text
  /-- The part that has been read. -/
  before : Text
  /-- The part that is still to be read. -/
  after : Text
deriving DecidableEq

namespace Source

def ofText (t : Text) : Source := ⟨none, [], t.unifyLineBreaks⟩

def ofContent : Except Fault Text.Bytes → Except Error Source
  | .error cause => .error (.fault cause)
  | .ok bytes =>
    match Text.decode? bytes with
    | none => .error (.fault .invalidText)
    | some t => .ok (ofText t)

def named (s : Source) (name : Text) : Except Error Source :=
  if name.isEmpty then .error .emptySourceName else .ok { s with name := some name }

def text (s : Source) : Text := s.before ++ s.after

def cursor (s : Source) : Nat := s.before.byteCount

def rewind (s : Source) : Source := { s with before := [], after := s.text }

def locationAt (s : Source) (offset : Nat) : Location := .ofOffset s.text offset

def fragmentAfter (before : Text) : Text → Fragment
  | [] => .empty
  | c :: cs => ⟨c :: cs, .ofLast (before ++ [c]), .ofLast (before ++ c :: cs)⟩

/-- The next characters, as many as make up `size` bytes, without reading them. -/
def peek (s : Source) (size : Nat) : Fragment := fragmentAfter s.before (s.after.takeBytes size)

def read (s : Source) (size : Nat) : Fragment × Source :=
  (s.peek size, { s with
    before := s.before ++ s.after.takeBytes size
    after := s.after.dropBytes size })

@[simp] theorem text_read (s : Source) (size : Nat) : (s.read size).2.text = s.text := by
  simp [read, text, Text.takeBytes_append_dropBytes]

@[simp] theorem text_rewind (s : Source) : s.rewind.text = s.text := rfl

theorem text_fragmentAfter (before piece : Text) : (fragmentAfter before piece).text = piece := by
  cases piece <;> rfl

theorem locationAt_byteCount {s : Source} {before after : Text} {c : Char}
    (htext : s.text = before ++ c :: after) :
    s.locationAt before.byteCount = .ofLast (before ++ [c]) := by
  rw [locationAt, htext, Location.ofOffset_byteCount]

theorem first_peek {s : Source} {size : Nat} (hsize : 0 < size) (hne : s.after ≠ []) :
    (s.peek size).span.first = s.locationAt s.cursor := by
  obtain ⟨c, after, hafter⟩ := List.exists_cons_of_ne_nil hne
  rw [locationAt, text, cursor, hafter, Location.ofOffset_byteCount, peek, hafter,
    Text.takeBytes_cons hsize]
  rfl

theorem read_byteCount (s : Source) {piece rest : Text} (hafter : s.after = piece ++ rest) :
    s.read piece.byteCount =
      (fragmentAfter s.before piece, ⟨s.name, s.before ++ piece, rest⟩) := by
  rw [read, peek, hafter, Text.takeBytes_byteCount_append, Text.dropBytes_byteCount_append]

theorem after_read_byteCount {s : Source} {piece rest : Text} (hafter : s.after = piece ++ rest) :
    (s.read piece.byteCount).2.after = rest := by
  rw [s.read_byteCount hafter]

end Source

end Mustache
