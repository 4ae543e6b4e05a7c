import Mustache.Text

namespace Mustache

structure Location where
  line : Nat
  column : Nat
deriving DecidableEq

structure Span where
  first : Location
  last : Location
deriving DecidableEq

namespace Location

def unknown : Location := ⟨0, 0⟩

def isKnown (l : Location) : Bool := 0 < l.line

def compare (a b : Location) : Ordering :=
  (Ord.compare a.line b.line).then (Ord.compare a.column b.column)

def toText (l : Location) : Text := Text.ofNat l.line ++ ':' :: Text.ofNat l.column

/-- The location of the last character read, and whether that was a line break. -/
structure Progress where
  location : Location
  atBreak : Bool

def Progress.start : Progress := ⟨⟨1, 0⟩, false⟩

def isBreak (c : Char) : Bool := c = '\n' || c = '\r'

/-- A line break keeps the location of the character before it. The next character that is none
begins a line, so that a run of line breaks counts once. -/
def Progress.step (p : Progress) (c : Char) : Progress :=
  if isBreak c then ⟨p.location, true⟩
  else if p.atBreak then ⟨⟨p.location.line + 1, 1⟩, false⟩
  else ⟨⟨p.location.line, p.location.column + 1⟩, false⟩

def ofLast : Text → Location
  | [] => unknown
  | t => (t.foldl Progress.step .start).location

/-- The location of the character that begins at a byte offset of a text, if one does. -/
def ofOffset (t : Text) (offset : Nat) : Location :=
  go t offset .start
where
  go : Text → Nat → Progress → Location
    | [], _, _ => unknown
    | c :: cs, offset, p =>
      if offset = 0 then (p.step c).location
      else if offset < c.utf8Size then unknown
      else go cs (offset - c.utf8Size) (p.step c)

end Location

namespace Span

def unknown : Span := ⟨.unknown, .unknown⟩

def toText (s : Span) : Text := s.first.toText ++ '-' :: s.last.toText

end Span

namespace Location

namespace Progress

theorem line_le_step (p : Progress) (c : Char) :
    p.location.line ≤ (p.step c).location.line := by
  unfold step
  split
  · exact Nat.le_refl _
  · split
    · exact Nat.le_succ _
    · exact Nat.le_refl _

theorem line_le_foldl (p : Progress) (t : Text) :
    p.location.line ≤ (t.foldl step p).location.line := by
  induction t generalizing p with
  | nil => exact Nat.le_refl _
  | cons c t ih => exact Nat.le_trans (p.line_le_step c) (ih (p.step c))

theorem step_of_isBreak (p : Progress) {c : Char} (hc : isBreak c = true) :
    p.step c = ⟨p.location, true⟩ := if_pos hc

theorem step_of_not_isBreak {p : Progress} {c : Char} (hp : p.atBreak = false)
    (hc : isBreak c = false) : (p.step c).location.line = p.location.line ∧
      (p.step c).atBreak = false := by
  rw [step, hc, hp, if_neg Bool.false_ne_true, if_neg Bool.false_ne_true]
  exact ⟨rfl, rfl⟩

theorem foldl_of_no_break {p : Progress} {t : Text} (hp : p.atBreak = false)
    (ht : ∀ c ∈ t, isBreak c = false) :
    (t.foldl step p).location.line = p.location.line ∧ (t.foldl step p).atBreak = false := by
  induction t generalizing p with
  | nil => exact ⟨rfl, hp⟩
  | cons c t ih =>
    obtain ⟨hline, hafter⟩ := step_of_not_isBreak hp (ht c List.mem_cons_self)
    obtain ⟨hline', hafter'⟩ := ih hafter (fun d hd => ht d (List.mem_cons_of_mem c hd))
    exact ⟨hline'.trans hline, hafter'⟩

theorem line_lt_step_of_atBreak {p : Progress} {c : Char} (hp : p.atBreak = true)
    (hc : isBreak c = false) : p.location.line < (p.step c).location.line := by
  rw [step, hc, hp, if_neg Bool.false_ne_true, if_pos rfl]
  exact Nat.lt_succ_self _

/-- A character stands on a later line than a line break in front of it. -/
theorem line_lt_of_break {p : Progress} {t : Text} {d : Char}
    (h : p.atBreak = true ∨ ∃ c ∈ t, isBreak c = true) (hd : isBreak d = false) :
    p.location.line < ((t.foldl step p).step d).location.line := by
  induction t generalizing p with
  | nil => exact line_lt_step_of_atBreak (h.resolve_right (by simp)) hd
  | cons c t ih =>
    have hon : (p.step c).location.line ≤ (((c :: t).foldl step p).step d).location.line :=
      Nat.le_trans ((p.step c).line_le_foldl t) (line_le_step _ d)
    cases hc : isBreak c with
    | true =>
      rw [List.foldl_cons, step_of_isBreak p hc]
      exact @ih ⟨p.location, true⟩ (Or.inl rfl)
    | false =>
      cases hp : p.atBreak with
      | true => exact Nat.lt_of_lt_of_le (line_lt_step_of_atBreak hp hc) hon
      | false =>
        have hbreak : ∃ c ∈ t, isBreak c = true := by simpa [hp, hc] using h
        exact Nat.lt_of_le_of_lt (p.line_le_step c) (ih (Or.inr hbreak))

end Progress

theorem ofLast_concat (t : Text) (c : Char) :
    ofLast (t ++ [c]) = ((t.foldl Progress.step .start).step c).location := by
  have hne : t ++ [c] ≠ [] := List.append_ne_nil_of_right_ne_nil t (List.cons_ne_nil c [])
  cases hlast : t ++ [c] with
  | nil => exact absurd hlast hne
  | cons d ds =>
    rw [ofLast, ← hlast, List.foldl_append]
    · rfl
    · exact List.cons_ne_nil d ds

theorem ofOffset_byteCount (before : Text) (c : Char) (after : Text) :
    ofOffset (before ++ c :: after) before.byteCount = ofLast (before ++ [c]) := by
  have hgo (p : Progress) : ofOffset.go (before ++ c :: after) before.byteCount p =
      ((before.foldl Progress.step p).step c).location := by
    induction before generalizing p with
    | nil => rfl
    | cons d before ih =>
      have hd := d.utf8Size_pos
      rw [List.cons_append, Text.byteCount_cons, ofOffset.go, if_neg (by omega), if_neg (by omega),
        Nat.add_sub_cancel_left, ih]
      rfl
  rw [ofOffset, hgo, ofLast_concat]

theorem line_ofLast_singleton (c : Char) : (ofLast [c]).line = 1 := by
  change (Progress.start.step c).location.line = 1
  unfold Progress.step
  split <;> rfl

theorem line_ofLast_eq_one_iff {t : Text} {c : Char} (hc : isBreak c = false) :
    (ofLast (t ++ [c])).line = 1 ↔ ∀ d ∈ t, isBreak d = false := by
  rw [ofLast_concat]
  constructor
  · intro hline d hd
    cases hbreak : isBreak d with
    | false => rfl
    | true =>
      have hlt : 1 < ((t.foldl Progress.step .start).step c).location.line :=
        @Progress.line_lt_of_break .start t c (Or.inr ⟨d, hd, hbreak⟩) hc
      exact absurd hline (Nat.ne_of_gt hlt)
  · intro hplain
    obtain ⟨hline, hafter⟩ := @Progress.foldl_of_no_break .start t rfl hplain
    exact (Progress.step_of_not_isBreak hafter hc).1.trans hline

/-- A character is on the line of another in front of it if no line break stands between them. -/
theorem line_ofLast_append {before t : Text} {c d : Char} (hc : isBreak c = false)
    (ht : ∀ e ∈ t, isBreak e = false) :
    (ofLast (before ++ c :: t ++ [d])).line = (ofLast (before ++ [c])).line := by
  have hstep (p : Progress) : (p.step c).atBreak = false := by
    rw [Progress.step, hc, if_neg Bool.false_ne_true]
    split <;> rfl
  rw [ofLast_concat, ofLast_concat, List.foldl_append, List.foldl_cons]
  obtain ⟨hline, hafter⟩ := Progress.foldl_of_no_break (hstep (before.foldl .step .start)) ht
  cases hd : isBreak d with
  | true =>
    rw [Progress.step_of_isBreak _ hd]
    exact hline
  | false => exact (Progress.step_of_not_isBreak hafter hd).1.trans hline

/-! ## Texts that arrive on the same line -/

namespace Progress

/-- Whether what is read next stands on the same line in both cases. -/
structure SameLine (p q : Progress) : Prop where
  line : p.location.line = q.location.line
  atBreak : p.atBreak = q.atBreak

theorem SameLine.refl (p : Progress) : p.SameLine p := ⟨rfl, rfl⟩

theorem SameLine.trans {p q r : Progress} (h : p.SameLine q) (h' : q.SameLine r) : p.SameLine r :=
  ⟨h.line.trans h'.line, h.atBreak.trans h'.atBreak⟩

/-- The columns have no part in this, nor what the characters are besides line breaks. -/
theorem SameLine.step {p q : Progress} (h : p.SameLine q) {c d : Char}
    (hbreak : isBreak c = isBreak d) : (p.step c).SameLine (q.step d) := by
  obtain ⟨⟨line, column⟩, atBreak⟩ := p
  obtain ⟨⟨line', column'⟩, atBreak'⟩ := q
  obtain ⟨rfl, rfl⟩ : line = line' ∧ atBreak = atBreak' := ⟨h.line, h.atBreak⟩
  rw [Progress.step, Progress.step, hbreak]
  cases isBreak d with
  | true => exact ⟨rfl, rfl⟩
  | false => cases atBreak <;> exact ⟨rfl, rfl⟩

theorem SameLine.foldl {p q : Progress} (h : p.SameLine q) (t : Text) :
    (t.foldl Progress.step p).SameLine (t.foldl Progress.step q) := by
  induction t generalizing p q with
  | nil => exact h
  | cons c t ih => exact ih (h.step rfl)

/-- Texts on one line each end on the same line. -/
theorem sameLine_of_no_break (p : Progress) {t u : Text} (ht : t ≠ []) (hu : u ≠ [])
    (htb : ∀ c ∈ t, isBreak c = false) (hub : ∀ c ∈ u, isBreak c = false) :
    (t.foldl step p).SameLine (u.foldl step p) := by
  obtain ⟨c, t, rfl⟩ := List.exists_cons_of_ne_nil ht
  obtain ⟨d, u, rfl⟩ := List.exists_cons_of_ne_nil hu
  obtain ⟨hc, ht⟩ := List.forall_mem_cons.1 htb
  obtain ⟨hd, hu⟩ := List.forall_mem_cons.1 hub
  have hfirst : (p.step c).SameLine (p.step d) := (SameLine.refl p).step (hc.trans hd.symm)
  have hafter : (p.step c).atBreak = false := by
    rw [step, hc, if_neg Bool.false_ne_true]
    split <;> rfl
  obtain ⟨htline, htbreak⟩ := foldl_of_no_break hafter ht
  obtain ⟨huline, hubreak⟩ := foldl_of_no_break (hfirst.atBreak.symm.trans hafter) hu
  exact ⟨htline.trans (hfirst.line.trans huline.symm), htbreak.trans hubreak.symm⟩

end Progress

/-- Whether what follows two texts stands on the same line behind both. -/
def SameLine (before before' : Text) : Prop :=
  (before.foldl Progress.step .start).SameLine (before'.foldl .step .start)

theorem SameLine.append {before before' : Text} (h : SameLine before before') (t : Text) :
    SameLine (before ++ t) (before' ++ t) := by
  unfold SameLine
  rw [List.foldl_append, List.foldl_append]
  exact Progress.SameLine.foldl h t

theorem SameLine.line_ofLast {before before' : Text} (h : SameLine before before') (c : Char) :
    (ofLast (before ++ [c])).line = (ofLast (before' ++ [c])).line := by
  rw [ofLast_concat, ofLast_concat]
  exact (Progress.SameLine.step h rfl).line

theorem sameLine_append_of_no_break (before : Text) {t u : Text} (ht : t ≠ []) (hu : u ≠ [])
    (htb : ∀ c ∈ t, isBreak c = false) (hub : ∀ c ∈ u, isBreak c = false) :
    SameLine (before ++ t) (before ++ u) := by
  unfold SameLine
  rw [List.foldl_append, List.foldl_append]
  exact Progress.sameLine_of_no_break _ ht hu htb hub

theorem SameLine.append_of_no_break {before before' : Text} (h : SameLine before before')
    {t u : Text} (ht : t ≠ []) (hu : u ≠ []) (htb : ∀ c ∈ t, isBreak c = false)
    (hub : ∀ c ∈ u, isBreak c = false) : SameLine (before ++ t) (before' ++ u) :=
  Progress.SameLine.trans (h.append t) (sameLine_append_of_no_break before' ht hu htb hub)

/-! ## Reading order -/

def Precedes (a b : Location) : Prop :=
  a.line < b.line ∨ a.line = b.line ∧ a.column < b.column

theorem Precedes.trans {a b c : Location} (h : a.Precedes b) (h' : b.Precedes c) :
    a.Precedes c := by
  unfold Precedes at *
  omega

theorem Precedes.ne {a b : Location} (h : a.Precedes b) : a ≠ b := by
  rintro rfl
  unfold Precedes at h
  omega

namespace Progress

theorem precedes_step {p : Progress} {c : Char} (hc : isBreak c = false) :
    p.location.Precedes (p.step c).location := by
  rw [step, hc, if_neg Bool.false_ne_true]
  split
  · exact Or.inl (Nat.lt_succ_self _)
  · exact Or.inr ⟨rfl, Nat.lt_succ_self _⟩

theorem precedes_of_read {p : Progress} (t : Text) {d : Char} (hd : isBreak d = false) :
    p.location.Precedes ((t.foldl step p).step d).location := by
  induction t generalizing p with
  | nil => exact precedes_step hd
  | cons c t ih =>
    rw [List.foldl_cons]
    cases hc : isBreak c with
    | true =>
      rw [step_of_isBreak p hc]
      exact @ih ⟨p.location, true⟩
    | false => exact (precedes_step hc).trans ih

end Progress

theorem precedes_ofLast (before : Text) (c : Char) (t : Text) {d : Char} (hd : isBreak d = false) :
    (ofLast (before ++ [c])).Precedes (ofLast (before ++ c :: t ++ [d])) := by
  rw [ofLast_concat, ofLast_concat, List.foldl_append, List.foldl_cons]
  exact Progress.precedes_of_read t hd

/-- No two characters of a text have one location, unless one of them is a line break. -/
theorem front_eq_of_ofLast_eq {front back front' back' : Text} {c d : Char}
    (htext : front ++ c :: back = front' ++ d :: back') (hc : isBreak c = false)
    (hd : isBreak d = false) (h : ofLast (front ++ [c]) = ofLast (front' ++ [d])) :
    front = front' := by
  rcases List.append_eq_append_iff.1 htext with ⟨between, rfl, hback⟩ | ⟨between, rfl, hback⟩
  · rcases List.cons_eq_append_iff.1 hback with ⟨rfl, -⟩ | ⟨more, rfl, -⟩
    · exact (List.append_nil front).symm
    · exact absurd h (precedes_ofLast front c more hd).ne
  · rcases List.cons_eq_append_iff.1 hback with ⟨rfl, -⟩ | ⟨more, rfl, -⟩
    · exact List.append_nil front'
    · exact absurd h.symm (precedes_ofLast front' d more hc).ne

theorem one_le_ofLast (t : Text) {c : Char} (hc : isBreak c = false) :
    1 ≤ (ofLast (t ++ [c])).line ∧ 1 ≤ (ofLast (t ++ [c])).column := by
  have hline : 1 ≤ (t.foldl Progress.step .start).location.line :=
    Progress.line_le_foldl .start t
  rw [ofLast_concat]
  refine ⟨Nat.le_trans hline (Progress.line_le_step _ c), ?_⟩
  rw [Progress.step, hc, if_neg Bool.false_ne_true]
  split
  · exact Nat.le_refl 1
  · exact Nat.succ_le_succ (Nat.zero_le _)

end Location

end Mustache
