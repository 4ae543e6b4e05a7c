import Mustache.Proofs.Lexing.Agreement
import Mustache.Proofs.Text.Bytes

namespace Mustache

namespace Source

inductive Call where
  | peek (size : Nat)
  | read (size : Nat)
  | rewind

structure Reading where
  source : Source
  pieces : List Fragment

namespace Reading

def ofText (t : Text) : Reading := ⟨.ofText t, []⟩

def perform (r : Reading) : Call → Reading
  | .peek _ => r
  | .read size => ⟨(r.source.read size).2, r.pieces ++ [(r.source.read size).1]⟩
  | .rewind => ⟨r.source.rewind, []⟩

def after (r : Reading) (calls : List Call) : Reading := calls.foldl perform r

structure IsOf (r : Reading) (t : Text) : Prop where
  text : r.source.text = t
  pieces : r.pieces.flatMap Fragment.text = r.source.before

theorem isOf_ofText (t : Text) : (ofText t).IsOf t.unifyLineBreaks := ⟨rfl, rfl⟩

theorem IsOf.perform {r : Reading} {t : Text} (h : r.IsOf t) (call : Call) :
    (r.perform call).IsOf t := by
  cases call with
  | peek size => exact h
  | read size =>
    constructor
    · exact (r.source.text_read size).trans h.text
    · have hpiece : (r.source.read size).1.text = r.source.after.takeBytes size :=
        text_fragmentAfter _ _
      have hbefore : (r.source.read size).2.before =
          r.source.before ++ r.source.after.takeBytes size := rfl
      rw [Reading.perform, hbefore, List.flatMap_append, h.pieces, List.flatMap_singleton, hpiece]
  | rewind => exact ⟨r.source.text_rewind.trans h.text, rfl⟩

theorem IsOf.after {r : Reading} {t : Text} (h : r.IsOf t) (calls : List Call) :
    (r.after calls).IsOf t := by
  induction calls generalizing r with
  | nil => exact h
  | cons call calls ih => exact ih (h.perform call)

/-- Whether a source stands at a boundary of a text and what was read is what stands in front. -/
structure StandsIn (r : Reading) (t : Text) : Prop where
  text : r.source.text = t
  boundary : t.IsBoundary r.source.cursor
  read : Text.encode (r.pieces.flatMap Fragment.text) = t.encode.take r.source.cursor
  left : r.source.after.encode = t.encode.drop r.source.cursor

theorem IsOf.standsIn {r : Reading} {t : Text} (h : r.IsOf t) : r.StandsIn t where
  text := h.text
  boundary := Text.isBoundary_iff.2 ⟨r.source.before, ⟨r.source.after, h.text⟩, rfl⟩
  read := by
    rw [h.pieces, ← h.text]
    exact (Text.take_encode_append r.source.before r.source.after).symm
  left := by
    rw [← h.text]
    exact (Text.drop_encode_append r.source.before r.source.after).symm

end Reading

/-- Whether a piece is what a source gives when it is asked for so many bytes. -/
structure Gives (s : Source) (size : Nat) (f : Fragment) : Prop where
  begins : f.text <+: s.after
  /-- No shorter beginning has so many bytes, or all there are. -/
  least : IsLeast {k | min size s.after.byteCount ≤ k ∧ s.after.IsBoundary k} f.text.byteCount
  bound : f.text.byteCount < size + 4
  nothing : size = 0 ∨ s.after = [] → f = .empty
  something : 0 < size → s.after ≠ [] → f.text ≠ []
  span : f.text ≠ [] →
    f.span = ⟨s.locationAt s.cursor, s.locationAt (s.cursor + Text.byteCount f.text.dropLast)⟩

theorem span_fragmentAfter {s : Source} {piece : Text} (hne : piece ≠ [])
    (hpiece : piece <+: s.after) : (fragmentAfter s.before piece).span =
      ⟨s.locationAt s.cursor, s.locationAt (s.cursor + Text.byteCount piece.dropLast)⟩ := by
  obtain ⟨behind, hafter⟩ := hpiece
  have hlast : piece.dropLast ++ [piece.getLast hne] = piece := List.dropLast_concat_getLast hne
  have hend : s.text = (s.before ++ piece.dropLast) ++ piece.getLast hne :: behind := by
    rw [List.append_assoc, List.append_cons, hlast, hafter, Source.text]
  rw [cursor, ← Text.byteCount_append, locationAt_byteCount hend, List.append_assoc, hlast]
  cases piece with
  | nil => exact absurd rfl hne
  | cons c piece =>
    have hstart : s.text = s.before ++ c :: (piece ++ behind) := by
      rw [Source.text, ← hafter, List.cons_append]
    rw [locationAt_byteCount hstart]
    rfl

theorem gives_peek (s : Source) (size : Nat) : s.Gives size (s.peek size) := by
  have htext : (s.peek size).text = s.after.takeBytes size := text_fragmentAfter _ _
  constructor
  · rw [htext]
    exact Text.takeBytes_prefix size s.after
  · rw [htext]
    exact Text.isLeast_byteCount_takeBytes size s.after
  · rw [htext]
    exact Text.byteCount_takeBytes_lt size s.after
  · intro hnothing
    have htaken : s.after.takeBytes size = [] := by
      rcases hnothing with rfl | hnone
      · cases s.after <;> rfl
      · rw [hnone]
        cases size <;> rfl
    rw [peek, htaken]
    rfl
  · intro hsize hne
    rw [htext]
    exact mt (Text.takeBytes_eq_nil_iff hsize).1 hne
  · rw [htext]
    exact fun hne => span_fragmentAfter hne (Text.takeBytes_prefix size s.after)

structure Advances (s s' : Source) (f : Fragment) : Prop where
  name : s'.name = s.name
  before : s'.before = s.before ++ f.text
  after : s.after = f.text ++ s'.after

theorem advances_read (s : Source) (size : Nat) :
    s.Advances (s.read size).2 (s.read size).1 := by
  have htext : (s.read size).1.text = s.after.takeBytes size := text_fragmentAfter _ _
  refine ⟨rfl, ?_, ?_⟩
  · rw [htext]
    rfl
  · rw [htext]
    exact (Text.takeBytes_append_dropBytes size s.after).symm

theorem Advances.eq_of_empty {s s' : Source} (h : s.Advances s' .empty) : s' = s := by
  obtain ⟨name, before, after⟩ := s
  obtain ⟨name', before', after'⟩ := s'
  obtain ⟨rfl, hbefore, hafter⟩ := h
  obtain rfl : before' = before := hbefore.trans (List.append_nil before)
  obtain rfl : after = after' := hafter
  rfl

/-- However calls are mixed, a source is never left inside of a character, and looking ahead tells
what reading would give. -/
theorem reading_after (t : Text) (calls : List Call) (size : Nat) :
    let r := (Reading.ofText t).after calls
    r.StandsIn t.unifyLineBreaks ∧ r.source.Gives size (r.source.peek size) ∧
      r.perform (.peek size) = r ∧ (r.source.read size).1 = r.source.peek size ∧
      (r.source.read size).2.cursor = r.source.cursor + (r.source.peek size).text.byteCount ∧
      (size = 0 ∨ r.source.after = [] → (r.source.read size).2 = r.source) := by
  intro r
  have hread := r.source.advances_read size
  have hstands := ((Reading.isOf_ofText t).after calls).standsIn
  refine ⟨hstands, r.source.gives_peek size, rfl, rfl, ?_, ?_⟩
  · rw [cursor, cursor, hread.before, Text.byteCount_append]
    rfl
  · intro hnothing
    have hempty : (r.source.read size).1 = .empty := (r.source.gives_peek size).nothing hnothing
    rw [hempty] at hread
    exact hread.eq_of_empty

end Source

end Mustache
