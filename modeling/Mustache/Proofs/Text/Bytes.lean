import Mathlib.Order.Bounds.Defs
import Mustache.Text

namespace Mustache.Text

theorem byteCount_eq_zero_iff {t : Text} : t.byteCount = 0 ↔ t = [] := by
  cases t with
  | nil => simp
  | cons c t =>
    have hc := c.utf8Size_pos
    simp only [byteCount_cons, List.cons_ne_nil, iff_false]
    omega

theorem byteCount_le_of_sublist {s t : Text} (h : s.Sublist t) : s.byteCount ≤ t.byteCount := by
  induction h with
  | slnil => exact Nat.le_refl 0
  | cons c h ih => exact Nat.le_add_left_of_le ih
  | cons_cons c h ih => exact Nat.add_le_add_left ih c.utf8Size

theorem eq_of_sublist_of_byteCount_le {s t : Text} (h : s.Sublist t)
    (hbytes : t.byteCount ≤ s.byteCount) : s = t := by
  induction h with
  | slnil => rfl
  | cons c h ih =>
    have hc := c.utf8Size_pos
    have hle := byteCount_le_of_sublist h
    rw [byteCount_cons] at hbytes
    omega
  | cons_cons c h ih =>
    rw [byteCount_cons, byteCount_cons] at hbytes
    rw [ih (Nat.le_of_add_le_add_left hbytes)]

/-- Of two beginnings of a text the one with fewer bytes begins the other. -/
theorem prefix_of_byteCount_le {t front front' : Text} (hfront : front <+: t)
    (hfront' : front' <+: t) (h : front.byteCount ≤ front'.byteCount) : front <+: front' := by
  rcases List.prefix_or_prefix_of_prefix hfront hfront' with hless | hmore
  · exact hless
  · obtain rfl := eq_of_sublist_of_byteCount_le hmore.sublist h
    exact List.prefix_refl front'

theorem takeBytes_prefix (n : Nat) (t : Text) : takeBytes n t <+: t :=
  ⟨dropBytes n t, takeBytes_append_dropBytes n t⟩

theorem takeBytes_append {n : Nat} {t : Text} (h : t.byteCount ≤ n) (u : Text) :
    takeBytes n (t ++ u) = t ++ takeBytes (n - t.byteCount) u := by
  induction t generalizing n with
  | nil => rfl
  | cons c t ih =>
    have hc := c.utf8Size_pos
    rw [byteCount_cons] at h
    rw [List.cons_append, takeBytes_cons (by omega), ih (by omega), byteCount_cons, Nat.sub_sub]
    rfl

theorem takeBytes_append_of_le {n : Nat} {t : Text} (h : n ≤ t.byteCount) (u : Text) :
    takeBytes n (t ++ u) = takeBytes n t := by
  induction t generalizing n with
  | nil =>
    obtain rfl : n = 0 := Nat.le_zero.1 h
    cases u <;> rfl
  | cons c t ih =>
    cases n with
    | zero => rfl
    | succ n =>
      rw [byteCount_cons] at h
      rw [List.cons_append, takeBytes, takeBytes, ih (by omega)]

theorem le_byteCount_takeBytes (n : Nat) (t : Text) :
    n ≤ (takeBytes n t).byteCount ∨ takeBytes n t = t := by
  induction t generalizing n with
  | nil => exact Or.inr (by cases n <;> rfl)
  | cons c t ih =>
    by_cases hn : n = 0
    · exact Or.inl (by omega)
    · rw [takeBytes_cons (by omega), byteCount_cons]
      rcases ih (n - c.utf8Size) with h | h
      · exact Or.inl (by omega)
      · exact Or.inr (by rw [h])

/-- What is taken in front of a last character is less than asked for. -/
theorem byteCount_lt_of_takeBytes {n : Nat} {t front back : Text} {c : Char}
    (h : takeBytes n t = front ++ c :: back) : front.byteCount < n := by
  induction front generalizing n t with
  | nil =>
    cases n with
    | zero => cases t <;> cases h
    | succ n => exact Nat.succ_pos n
  | cons d front ih =>
    cases t with
    | nil => cases n <;> cases h
    | cons e t =>
      have hn : 0 < n := by
        cases n with
        | zero => cases h
        | succ n => exact Nat.succ_pos n
      rw [takeBytes_cons hn, List.cons_append] at h
      obtain ⟨rfl, htail⟩ := List.cons.inj h
      have hlt := ih htail
      rw [byteCount_cons]
      omega

theorem takeBytes_eq_nil_iff {n : Nat} (hn : 0 < n) {t : Text} : takeBytes n t = [] ↔ t = [] := by
  cases t with
  | nil => cases n <;> simp [takeBytes]
  | cons c t => simp [takeBytes_cons hn]

/-- Whether an offset into the bytes of a text is at their end, or a character begins there. -/
def IsBoundary (t : Text) (offset : Nat) : Prop :=
  offset = t.byteCount ∨ ∃ b ∈ t.encode[offset]?, b.IsUTF8FirstByte

theorem encode_cons (c : Char) (t : Text) : encode (c :: t) = String.utf8EncodeChar c ++ encode t :=
  rfl

/-- Inside of a character there is no boundary. -/
theorem isBoundary_cons {c : Char} {t : Text} {offset : Nat} :
    IsBoundary (c :: t) offset ↔
      offset = 0 ∨ c.utf8Size ≤ offset ∧ IsBoundary t (offset - c.utf8Size) := by
  have hsize := c.utf8Size_pos
  have hlength : (String.utf8EncodeChar c).length = c.utf8Size := String.length_utf8EncodeChar c
  unfold IsBoundary
  rw [byteCount_cons, encode_cons]
  by_cases hinside : offset < c.utf8Size
  · have hbyte : offset < (String.utf8EncodeChar c).length := hlength ▸ hinside
    rw [List.getElem?_append_left hbyte, List.getElem?_eq_getElem hbyte]
    simp only [Option.mem_some_iff, exists_eq_left', UInt8.isUTF8FirstByte_getElem_utf8EncodeChar]
    omega
  · rw [List.getElem?_append_right (by omega), hlength]
    have hend : offset = c.utf8Size + t.byteCount ↔ offset - c.utf8Size = t.byteCount := by omega
    rw [hend]
    constructor
    · exact fun h => Or.inr ⟨by omega, h⟩
    · rintro (hzero | ⟨-, h⟩)
      · omega
      · exact h

theorem isBoundary_iff {t : Text} {offset : Nat} :
    t.IsBoundary offset ↔ ∃ front, front <+: t ∧ byteCount front = offset := by
  induction t generalizing offset with
  | nil =>
    constructor
    · rintro (rfl | ⟨b, hb, -⟩)
      · exact ⟨[], List.prefix_refl [], rfl⟩
      · cases hb
    · rintro ⟨front, hfront, rfl⟩
      exact Or.inl (by rw [List.prefix_nil.1 hfront])
  | cons c t ih =>
    rw [isBoundary_cons, ih]
    constructor
    · rintro (rfl | ⟨hle, front, hfront, hcount⟩)
      · exact ⟨[], List.nil_prefix, rfl⟩
      · refine ⟨c :: front, List.cons_prefix_cons.2 ⟨rfl, hfront⟩, ?_⟩
        rw [byteCount_cons]
        omega
    · rintro ⟨front, hfront, rfl⟩
      cases front with
      | nil => exact Or.inl rfl
      | cons d front =>
        obtain ⟨rfl, htail⟩ := List.cons_prefix_cons.1 hfront
        rw [byteCount_cons]
        exact Or.inr ⟨by omega, front, htail, by omega⟩

/-- What is taken ends at the first boundary behind the bytes asked for, or behind all there are. -/
theorem isLeast_byteCount_takeBytes (n : Nat) (t : Text) :
    IsLeast {k | min n t.byteCount ≤ k ∧ t.IsBoundary k} (takeBytes n t).byteCount := by
  constructor
  · refine ⟨?_, isBoundary_iff.2 ⟨_, takeBytes_prefix n t, rfl⟩⟩
    rcases le_byteCount_takeBytes n t with hlong | hall
    · exact Nat.le_trans (Nat.min_le_left n _) hlong
    · rw [hall]
      exact Nat.min_le_right n _
  · rintro k ⟨hmin, hk⟩
    obtain ⟨front, hfront, rfl⟩ := isBoundary_iff.1 hk
    refine Nat.le_of_not_lt fun hless => ?_
    obtain ⟨more, hmore⟩ :=
      prefix_of_byteCount_le hfront (Text.takeBytes_prefix n t) (Nat.le_of_lt hless)
    -- What stands behind a front that is long enough would not have been taken.
    cases more with
    | nil =>
      rw [← hmore, List.append_nil] at hless
      omega
    | cons c more =>
      have hn : byteCount front < n := byteCount_lt_of_takeBytes hmore.symm
      have ht : (takeBytes n t).byteCount ≤ t.byteCount :=
        byteCount_le_of_sublist (Text.takeBytes_prefix n t).sublist
      omega

/-- At most three bytes more than asked for are taken. -/
theorem byteCount_takeBytes_lt (n : Nat) (t : Text) : (takeBytes n t).byteCount < n + 4 := by
  rcases List.eq_nil_or_concat (takeBytes n t) with hnone | ⟨front, c, htaken⟩
  · rw [hnone, byteCount_nil]
    omega
  · rw [List.concat_eq_append] at htaken
    have hfront := byteCount_lt_of_takeBytes htaken
    have hc := c.utf8Size_le_four
    rw [htaken, byteCount_append, byteCount_cons, byteCount_nil]
    omega

theorem take_encode_append (front back : Text) :
    (encode (front ++ back)).take front.byteCount = encode front := by
  rw [encode_append, ← length_encode, List.take_left]

theorem drop_encode_append (front back : Text) :
    (encode (front ++ back)).drop front.byteCount = encode back := by
  rw [encode_append, ← length_encode, List.drop_left]

end Mustache.Text
