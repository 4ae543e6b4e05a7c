import Mathlib.Data.List.Induction
import Mustache.Proofs.Lexing.Agreement

namespace Mustache.Location

/-- How many characters of a text directly follow a line break and are none themselves. -/
def lineStarts (t : Text) : Nat := (t.zip t.tail).countP fun (c, d) => isBreak c && !isBreak d

/-- The end of a text from the last character on that begins a line, or all of it if none does. -/
def lastLine : Text → Text
  | [] => []
  | c :: t => if lineStarts (c :: t) = 0 then c :: t else lastLine t

/-- How many characters of the last line of a text are no line breaks. -/
def columns (t : Text) : Nat := (lastLine t).countP fun c => !isBreak c

theorem lineStarts_cons_cons (c d : Char) (t : Text) :
    lineStarts (c :: d :: t) =
      lineStarts (d :: t) + if isBreak c && !isBreak d then 1 else 0 := by
  simp only [lineStarts, List.tail_cons, List.zip_cons_cons, List.countP_cons]

/-- A character begins a line if it is no line break and the text before it ends in one. -/
def Begins (t : Text) (c : Char) : Bool := t.getLast?.any isBreak && !isBreak c

theorem begins_cons {t : Text} (h : t ≠ []) (c d : Char) : Begins (d :: t) c = Begins t c := by
  rw [Begins, Begins, List.getLast?_cons_of_ne_nil h]

theorem lineStarts_concat (t : Text) (c : Char) :
    lineStarts (t ++ [c]) = lineStarts t + if Begins t c then 1 else 0 := by
  induction t with
  | nil => rfl
  | cons d t ih =>
    cases t with
    | nil => simp [lineStarts, Begins, List.countP_cons]
    | cons e t =>
      have hbegins : Begins (d :: e :: t) c = Begins (e :: t) c :=
        begins_cons (List.cons_ne_nil e t) c d
      have hstep := lineStarts_cons_cons d e (t ++ [c])
      rw [List.cons_append] at ih
      rw [List.cons_append, List.cons_append, hstep, ih, lineStarts_cons_cons, hbegins]
      omega

theorem lastLine_concat_of_begins {t : Text} {c : Char} (h : Begins t c = true) :
    lastLine (t ++ [c]) = [c] := by
  induction t with
  | nil => rfl
  | cons d t ih =>
    have hcount : lineStarts (d :: (t ++ [c])) ≠ 0 := by
      have hmore := lineStarts_concat (d :: t) c
      rw [if_pos h, List.cons_append] at hmore
      omega
    rw [List.cons_append, lastLine, if_neg hcount]
    by_cases ht : t = []
    · rw [ht]
      rfl
    · exact ih (begins_cons ht c d ▸ h)

theorem lastLine_concat_of_not_begins {t : Text} {c : Char} (h : Begins t c = false) :
    lastLine (t ++ [c]) = lastLine t ++ [c] := by
  induction t with
  | nil => rfl
  | cons d t ih =>
    have hcount := lineStarts_concat (d :: t) c
    rw [h, if_neg Bool.false_ne_true, Nat.add_zero, List.cons_append] at hcount
    rw [List.cons_append, lastLine, lastLine, hcount]
    by_cases hzero : lineStarts (d :: t) = 0
    · rw [if_pos hzero, if_pos hzero, List.cons_append]
    · have ht : t ≠ [] := by
        rintro rfl
        exact hzero rfl
      rw [if_neg hzero, if_neg hzero, ih (begins_cons ht c d ▸ h)]

theorem columns_concat (t : Text) (c : Char) :
    columns (t ++ [c]) =
      if isBreak c then columns t else if Begins t c then 1 else columns t + 1 := by
  cases hbegins : Begins t c with
  | true =>
    have hc : isBreak c = false := by
      rw [Begins, Bool.and_eq_true, Bool.not_eq_true'] at hbegins
      exact hbegins.2
    rw [columns, lastLine_concat_of_begins hbegins]
    simp [hc]
  | false =>
    rw [columns, lastLine_concat_of_not_begins hbegins, List.countP_append, columns]
    cases hc : isBreak c <;> simp [hc]

theorem foldl_step_eq (t : Text) : t.foldl Progress.step .start =
    ⟨⟨1 + lineStarts t, columns t⟩, t.getLast?.any isBreak⟩ := by
  induction t using List.reverseRecOn with
  | nil => rfl
  | append_singleton t c ih =>
    rw [List.foldl_append, List.foldl_cons, List.foldl_nil, ih, Progress.step, lineStarts_concat,
      columns_concat, List.getLast?_concat, Begins]
    cases hc : isBreak c <;> cases t.getLast?.any isBreak <;> simp [hc, Nat.add_assoc]

theorem ofLast_eq_count {t : Text} (h : t ≠ []) : ofLast t = ⟨1 + lineStarts t, columns t⟩ := by
  cases t with
  | nil => exact absurd rfl h
  | cons c t =>
    have hread := foldl_step_eq (c :: t)
    rw [ofLast, hread]
    exact List.cons_ne_nil c t

example : ofLast "\na\n\nbc\n".toList = ⟨3, 2⟩ := by decide

theorem ofOffset_eq_unknown {t : Text} {offset : Nat}
    (h : ∀ (front : Text) c back, t = front ++ c :: back → front.byteCount ≠ offset) :
    ofOffset t offset = unknown := by
  rw [ofOffset]
  generalize Progress.start = p
  induction t generalizing offset p with
  | nil => rfl
  | cons c t ih =>
    have hzero : offset ≠ 0 := fun hoffset => h [] c t rfl hoffset.symm
    rw [ofOffset.go, if_neg hzero]
    split
    · rfl
    next hsize =>
      apply ih
      intro front d back ht hfront
      apply h (c :: front) d back (by rw [ht, List.cons_append])
      rw [Text.byteCount_cons]
      omega

end Mustache.Location
