import Mustache.Binary64

namespace Mustache

namespace Text

def specials : Text := ['&', '<', '>', '"', '\'']

def references : List Text :=
  ["&amp;".toList, "&lt;".toList, "&gt;".toList, "&quot;".toList, "&#39;".toList]

/-- Whether bytes hold no special character but ampersands, and a reference begins at each of
these. -/
structure IsEscaped (bytes : Bytes) : Prop where
  marks : ∀ b ∈ bytes, b ∉ encode ['<', '>', '"', '\'']
  ampersands : ∀ rest, rest <:+ bytes → encode ['&'] <+: rest → ∃ r ∈ references, encode r <+: rest

def IsPlain (t : Text) : Prop := ∀ c ∈ t, c ∉ specials

instance (t : Text) : Decidable t.IsPlain := List.decidableBAll (· ∉ specials) t

theorem isEscaped_nil : IsEscaped [] := by
  refine ⟨by simp, ?_⟩
  intro rest hrest hbegins
  rw [List.suffix_nil.1 hrest] at hbegins
  cases List.prefix_nil.1 hbegins

theorem IsEscaped.append {a b : Bytes} (ha : IsEscaped a) (hb : IsEscaped b) :
    IsEscaped (a ++ b) := by
  constructor
  · intro c hc
    exact (List.mem_append.1 hc).elim (ha.marks c) (hb.marks c)
  · rintro rest ⟨front, hfront⟩ hbegins
    rcases List.append_eq_append_iff.1 hfront with ⟨inside, rfl, rfl⟩ | ⟨more, rfl, rfl⟩
    · cases inside with
      | nil => exact hb.ampersands b (List.suffix_refl b) hbegins
      | cons c inside =>
        -- The ampersand is the first byte, so that it is seen without what stands behind.
        have hampersand : encode ['&'] <+: c :: inside :=
          List.prefix_of_prefix_length_le hbegins (List.prefix_append _ b) (by
            rw [List.length_cons]
            exact Nat.le_add_left 1 _)
        obtain ⟨r, hr, hreference⟩ := ha.ampersands _ (List.suffix_append front _) hampersand
        exact ⟨r, hr, hreference.trans (List.prefix_append _ b)⟩
    · exact hb.ampersands rest (List.suffix_append more rest) hbegins

/-- A byte of a character is the character itself or none of ASCII. -/
theorem toNat_of_mem_utf8EncodeChar {c : Char} {b : UInt8} (h : b ∈ String.utf8EncodeChar c) :
    b.toNat = c.toNat ∨ 128 ≤ b.toNat := by
  unfold String.utf8EncodeChar at h
  dsimp only at h
  repeat' split at h
  all_goals
    simp only [List.mem_cons, List.not_mem_nil, or_false] at h
  · subst h
    refine Or.inl ?_
    rw [UInt8.toNat_ofNat', Nat.mod_eq_of_lt (by omega)]
    rfl
  all_goals
    refine Or.inr ?_
    rcases h with rfl | rfl | rfl | rfl <;> rw [UInt8.toNat_ofNat'] <;> omega

theorem not_mem_specials_of_mem_utf8EncodeChar {c : Char} (hc : c ∉ specials) {b : UInt8}
    (hb : b ∈ String.utf8EncodeChar c) : b ∉ encode specials := by
  have hbytes : encode specials = specials.map fun a => UInt8.ofNat a.toNat := rfl
  rw [hbytes, List.mem_map]
  rintro ⟨a, ha, rfl⟩
  have hascii : a.toNat < 128 := by
    have hall : ∀ a ∈ specials, a.toNat < 128 := by simp [specials]
    exact hall a ha
  have hvalue : (UInt8.ofNat a.toNat).toNat = a.toNat := by
    rw [UInt8.toNat_ofNat', Nat.mod_eq_of_lt (by omega)]
  rcases toNat_of_mem_utf8EncodeChar hb with h | h
  · rw [hvalue, Char.toNat_inj] at h
    exact hc (h ▸ ha)
  · omega

theorem isEscaped_of_not_mem {bytes : Bytes} (h : ∀ b ∈ bytes, b ∉ encode specials) :
    IsEscaped bytes := by
  constructor
  · intro b hb hmark
    exact h b hb (List.mem_append_right (encode ['&']) hmark)
  · rintro rest hrest ⟨more, rfl⟩
    have hampersand : 38 ∈ bytes := hrest.subset List.mem_cons_self
    exact absurd (by decide) (h 38 hampersand)

theorem IsPlain.isEscaped {t : Text} (h : IsPlain t) : IsEscaped t.encode := by
  apply isEscaped_of_not_mem
  intro b hb
  obtain ⟨c, hc, hbyte⟩ := List.mem_flatMap.1 hb
  exact not_mem_specials_of_mem_utf8EncodeChar (h c hc) hbyte

theorem isEscaped_of_mem_references {r : Text} (hr : r ∈ references) : IsEscaped (encode r) := by
  have hmarks : ∀ r ∈ references, (encode r).filter (· ∈ encode ['<', '>', '"', '\'']) = [] := by
    decide
  have hbegins : ∀ r ∈ references, encode r = 38 :: (encode r).tail := by decide
  have honly : ∀ r ∈ references, 38 ∉ (encode r).tail := by decide
  constructor
  · intro b hb hmark
    exact List.filter_eq_nil_iff.1 (hmarks r hr) b hb (decide_eq_true hmark)
  intro rest hrest hampersand
  rw [hbegins r hr, List.suffix_cons_iff] at hrest
  rcases hrest with rfl | hinside
  · exact ⟨r, hr, [], (List.append_nil _).trans (hbegins r hr)⟩
  · exact absurd (hinside.subset (hampersand.subset List.mem_cons_self)) (honly r hr)

theorem escapeHtmlChar_of_not_mem {c : Char} (hc : c ∉ specials) : escapeHtmlChar c = [c] := by
  unfold escapeHtmlChar
  split
  case h_6 => rfl
  all_goals exact absurd (by decide) hc

theorem isEscaped_escapeHtmlChar (c : Char) : IsEscaped (encode (escapeHtmlChar c)) := by
  by_cases hc : c ∈ specials
  · apply isEscaped_of_mem_references
    have hnone : (specials.filter fun d => escapeHtmlChar d ∉ references) = [] := by decide
    simpa using List.filter_eq_nil_iff.1 hnone c hc
  · rw [escapeHtmlChar_of_not_mem hc]
    apply IsPlain.isEscaped
    intro d hd
    rwa [List.mem_singleton.1 hd]

theorem escapeHtml_cons (c : Char) (t : Text) :
    escapeHtml (c :: t) = escapeHtmlChar c ++ escapeHtml t := rfl

theorem isEscaped_escapeHtml (t : Text) : IsEscaped (encode t.escapeHtml) := by
  induction t with
  | nil => exact isEscaped_nil
  | cons c t ih =>
    rw [escapeHtml_cons, encode_append]
    exact (isEscaped_escapeHtmlChar c).append ih

end Text

namespace Binary64

theorem isDigit_digitChar_mod (n : Nat) : (Nat.digitChar (n % 10)).isDigit = true := by
  rw [Nat.isDigit_digitChar]
  exact decide_eq_true (Nat.mod_lt n (by decide))

theorem mem_placesText {n : Nat} {c : Char} (h : c ∈ placesText n) :
    c.isDigit = true ∨ c = '.' := by
  have hwhole (hc : c ∈ Text.ofNat (n / 100)) : c.isDigit = true :=
    Nat.isDigit_of_mem_toDigits (by decide) (by decide) hc
  have htenth := isDigit_digitChar_mod (n / 10)
  have hhundredth := isDigit_digitChar_mod n
  unfold placesText at h
  dsimp only at h
  split at h
  · exact Or.inl (hwhole h)
  · split at h
    all_goals
      simp only [List.mem_append, List.mem_cons, List.not_mem_nil, or_false] at h
    · rcases h with hc | rfl | rfl
      · exact Or.inl (hwhole hc)
      · exact Or.inr rfl
      · exact Or.inl htenth
    · rcases h with hc | rfl | rfl | rfl
      · exact Or.inl (hwhole hc)
      · exact Or.inr rfl
      · exact Or.inl htenth
      · exact Or.inl hhundredth

theorem mem_toText {x : Binary64} {c : Char} (h : c ∈ x.toText) :
    c.isAlphanum = true ∨ c = '-' ∨ c = '.' := by
  have hword : ∀ d ∈ ['N', 'a', 'N', 'i', 'n', 'f'], d.isAlphanum = true :=
    List.all_eq_true.1 (by decide)
  have hsign (negative : Bool) (hc : c ∈ if negative then ['-'] else []) : c = '-' := by
    cases negative
    · cases hc
    · exact List.mem_singleton.1 hc
  unfold toText at h
  dsimp only at h
  split at h
  · exact Or.inl (hword c (List.mem_append_left ['i', 'n', 'f'] h))
  · split at h
    all_goals
      rcases List.mem_append.1 h with hs | hc
      · exact Or.inr (Or.inl (hsign _ hs))
    · rcases mem_placesText hc with hdigit | hpoint
      · refine Or.inl ?_
        rw [Char.isAlphanum, hdigit, Bool.or_true]
      · exact Or.inr (Or.inr hpoint)
    · exact Or.inl (hword c (List.mem_append_right ['N', 'a', 'N'] hc))

theorem isPlain_toText (x : Binary64) : Text.IsPlain x.toText := by
  intro c hc hspecial
  have hnone : (Text.specials.filter fun d => d.isAlphanum = true ∨ d = '-' ∨ d = '.') = [] := by
    decide
  exact List.filter_eq_nil_iff.1 hnone c hspecial (decide_eq_true (mem_toText hc))

end Binary64

end Mustache
