import Mustache.Proofs.Lexing.Window

namespace Mustache

/-- Whether a renaming of characters keeps what the lexer tells apart. -/
structure Token.IsRenaming (f : Char → Char) : Prop where
  size (c : Char) : (f c).utf8Size = c.utf8Size
  opening (c : Char) : f c = '{' ↔ c = '{'
  closing (c : Char) : f c = '}' ↔ c = '}'
  isBreak (c : Char) : Location.isBreak (f c) = Location.isBreak c

namespace Text

variable {f : Char → Char}

theorem byteCount_map (hsize : ∀ c, (f c).utf8Size = c.utf8Size) (t : Text) :
    byteCount (t.map f) = byteCount t := by
  induction t with
  | nil => rfl
  | cons c t ih => rw [List.map_cons, byteCount_cons, byteCount_cons, hsize, ih]

theorem takeBytes_map (hsize : ∀ c, (f c).utf8Size = c.utf8Size) (n : Nat) (t : Text) :
    takeBytes n (t.map f) = (takeBytes n t).map f := by
  induction t generalizing n with
  | nil => cases n <;> rfl
  | cons c t ih =>
    cases n with
    | zero => rfl
    | succ n => rw [List.map_cons, takeBytes, takeBytes, hsize, ih, List.map_cons]

theorem dropBytes_map (hsize : ∀ c, (f c).utf8Size = c.utf8Size) (n : Nat) (t : Text) :
    dropBytes n (t.map f) = (dropBytes n t).map f := by
  induction t generalizing n with
  | nil => cases n <;> rfl
  | cons c t ih =>
    cases n with
    | zero => rfl
    | succ n => rw [List.map_cons, dropBytes, dropBytes, hsize, ih]

end Text

namespace Location

variable {f : Char → Char}

theorem Progress.foldl_map (hbreak : ∀ c, isBreak (f c) = isBreak c) (p : Progress) (t : Text) :
    (t.map f).foldl step p = t.foldl step p := by
  rw [List.foldl_map]
  congr 1
  funext p c
  rw [step, step, hbreak]

theorem ofLast_map (hbreak : ∀ c, isBreak (f c) = isBreak c) (t : Text) :
    ofLast (t.map f) = ofLast t := by
  cases t with
  | nil => rfl
  | cons c t => exact congrArg Progress.location (Progress.foldl_map hbreak .start (c :: t))

end Location

def Fragment.rename (f : Char → Char) (fragment : Fragment) : Fragment :=
  { fragment with text := fragment.text.map f }

def Source.rename (f : Char → Char) (s : Source) : Source :=
  { s with before := s.before.map f, after := s.after.map f }

namespace Token

def rename (f : Char → Char) (t : Token) : Token := ⟨t.fragment.rename f⟩

def Lexing.rename (f : Char → Char) (l : Lexing) : Lexing :=
  ⟨l.tokens.map (Token.rename f), l.source.rename f, l.failure⟩

/-- The kind of a text is told by whether tags begin at its first and its second character. -/
theorem kindOf_eq (t : Text) :
    kindOf t = if opensTag t then if opensTag t.tail then .tripleTag else .tag else .literal := by
  unfold kindOf
  split
  · rfl
  next u hthird =>
    have hopen : opensTag ('{' :: u) = false := by
      rw [← Bool.not_eq_true, Scan.opensTag_iff_begins]
      rintro ⟨v, hv⟩
      simp only [List.cons_append, List.nil_append, List.cons.injEq, true_and] at hv
      exact hthird v hv.symm
    rw [List.tail_cons, hopen]
    rfl
  next hnot =>
    have hopen : opensTag t = false := by
      unfold opensTag
      split
      · exact absurd rfl (hnot _)
      · rfl
    rw [hopen]
    rfl

namespace IsRenaming

variable {f : Char → Char} (h : IsRenaming f)

include h

theorem fragmentAfter_map (before t : Text) :
    Source.fragmentAfter (before.map f) (t.map f) = (Source.fragmentAfter before t).rename f := by
  cases t with
  | nil => rfl
  | cons c t =>
    have hfirst : Location.ofLast (before.map f ++ [f c]) = Location.ofLast (before ++ [c]) := by
      rw [← Location.ofLast_map h.isBreak (before ++ [c]), List.map_append, List.map_singleton]
    have hlast : Location.ofLast (before.map f ++ f c :: t.map f) =
        Location.ofLast (before ++ c :: t) := by
      rw [← Location.ofLast_map h.isBreak (before ++ c :: t), List.map_append, List.map_cons]
    rw [List.map_cons, Source.fragmentAfter, Source.fragmentAfter, hfirst, hlast]
    rfl

theorem peek_rename (s : Source) (size : Nat) :
    (s.rename f).peek size = (s.peek size).rename f := by
  rw [Source.peek, Source.peek, ← h.fragmentAfter_map, ← Text.takeBytes_map h.size]
  rfl

theorem read_rename (s : Source) (size : Nat) :
    (s.rename f).read size = ((s.read size).1.rename f, (s.read size).2.rename f) := by
  rw [Source.read, Source.read, h.peek_rename]
  simp only [Source.rename, Text.takeBytes_map h.size, Text.dropBytes_map h.size, List.map_append]

theorem opensTag_map (t : Text) : opensTag (t.map f) = opensTag t := by
  rw [Bool.eq_iff_iff, Scan.opensTag_iff_begins, Scan.opensTag_iff_begins]
  match t with
  | [] => simp
  | [c] => simp
  | c :: d :: t => simp [h.opening, eq_comm]

theorem kindOf_map (t : Text) : kindOf (t.map f) = kindOf t := by
  rw [kindOf_eq, kindOf_eq, h.opensTag_map, ← List.map_tail, h.opensTag_map]

theorem throughClosing?_map (t : Text) :
    throughClosing? (t.map f) = (throughClosing? t).map (List.map f) := by
  have hbrace : f '}' = '}' := (h.closing '}').2 rfl
  -- A renamed text begins with a brace only where the text does.
  have hbegins {u v : Text} (hv : u.map f = '}' :: v) : ∃ w, u = '}' :: w ∧ w.map f = v := by
    obtain ⟨c, w, rfl, hc, hw⟩ := List.map_eq_cons_iff.1 hv
    exact ⟨w, by rw [(h.closing c).1 hc], hw⟩
  fun_induction throughClosing? t with
  | case1 => rfl
  | case2 u => simp [throughClosing?, hbrace]
  | case3 u hthird =>
    simp only [List.map_cons, hbrace]
    rw [throughClosing?]
    · simp [hbrace]
    · intro v hv
      obtain ⟨w, hw, -⟩ := hbegins hv
      exact hthird w hw
  | case4 c u hthree htwo ih =>
    have hnone (v : Text) (hc : f c = '}') (hv : u.map f = '}' :: v) : False := by
      obtain ⟨w, hw, -⟩ := hbegins hv
      exact htwo w ((h.closing c).1 hc) hw
    rw [List.map_cons, throughClosing?, ih, Option.map_map, Option.map_map]
    · rfl
    · exact fun v => hnone ('}' :: v)
    · exact hnone

theorem untilOpening_map (t : Text) : untilOpening (t.map f) = (untilOpening t).map f := by
  induction t with
  | nil => rfl
  | cons c t ih =>
    have hopen : opensTag (f c :: t.map f) = opensTag (c :: t) := h.opensTag_map (c :: t)
    rw [List.map_cons, untilOpening, untilOpening, hopen, ih]
    split <;> rfl

theorem next?_map (window : Nat) (view : Text) :
    next? window (view.map f) = (next? window view).map (List.map f) := by
  have hall : untilOpening (view.map f) = view.map f ↔ untilOpening view = view := by
    rw [h.untilOpening_map]
    constructor
    · intro hmap
      obtain ⟨rest, hsplit, -⟩ := untilOpening_spec view
      have hlength := congrArg List.length hmap
      rw [List.length_map, List.length_map] at hlength
      have hbegins : untilOpening view <+: view := ⟨rest, hsplit.symm⟩
      exact hbegins.eq_of_length hlength
    · exact congrArg (List.map f)
  have hlast : (view.map f).getLast? = some '{' ↔ view.getLast? = some '{' := by
    simp [h.opening]
  have hheld : untilOpening (view.map f) = view.map f ∧ window ≤ Text.byteCount (view.map f) ∧
      (view.map f).getLast? = some '{' ↔
        untilOpening view = view ∧ window ≤ view.byteCount ∧ view.getLast? = some '{' := by
    rw [hall, hlast, Text.byteCount_map h.size]
  rw [next?, next?, h.opensTag_map, h.throughClosing?_map]
  split
  · rfl
  · simp only [hheld]
    split
    · rw [← List.map_dropLast]
      rfl
    · rw [h.untilOpening_map]
      rfl

theorem lexWithin_rename (limits : Limits) (loops : Nat) (s : Source) :
    lexWithin limits loops (s.rename f) = (lexWithin limits loops s).rename f := by
  induction loops generalizing s with
  | zero => rfl
  | succ loops ih =>
    have hview : (s.rename f).after.takeBytes limits.window =
        (s.after.takeBytes limits.window).map f := Text.takeBytes_map h.size _ _
    rw [lexWithin, lexWithin, hview, h.next?_map, List.isEmpty_map, h.peek_rename]
    dsimp only
    split
    · rfl
    · cases next? limits.window (s.after.takeBytes limits.window) with
      | none => rfl
      | some piece =>
        dsimp only [Option.map_some]
        rw [Text.byteCount_map h.size, h.read_rename, ih]
        rfl

end IsRenaming

/-- Tokens are known by what they are renamed to and by the text that they begin. -/
theorem eq_of_rename {f : Char → Char} {ts us : List Token} {rest rest' : Text}
    (hrename : ts.map (rename f) = us.map (rename f))
    (htext : ts.flatMap text ++ rest = us.flatMap text ++ rest') : ts = us := by
  induction ts generalizing us with
  | nil => exact (List.map_eq_nil_iff.1 hrename.symm).symm
  | cons t ts ih =>
    obtain ⟨u, us, rfl, hu, hus⟩ := List.map_eq_cons_iff.1 hrename.symm
    have hfragment := congrArg Token.fragment hu
    have hlength : t.text.length = u.text.length := by
      have hmap := congrArg (fun fragment => fragment.text.length) hfragment
      exact (List.length_map f).symm.trans (hmap.symm.trans (List.length_map f))
    rw [List.flatMap_cons, List.flatMap_cons, List.append_assoc, List.append_assoc] at htext
    obtain ⟨hhead, htail⟩ := List.append_inj htext hlength
    have hspan : t.fragment.span = u.fragment.span := (congrArg Fragment.span hfragment).symm
    have htoken : t = u :=
      calc t = ⟨⟨t.text, t.fragment.span⟩⟩ := rfl
        _ = ⟨⟨u.text, u.fragment.span⟩⟩ := by rw [hhead, hspan]
        _ = u := rfl
    rw [htoken, ih hus.symm htail]

end Token

end Mustache
