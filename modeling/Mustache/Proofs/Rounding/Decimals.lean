import Mathlib.Data.List.TakeWhile
import Mustache.Proofs.Rounding
import Mustache.Proofs.Text.Escaping
import Mustache.Proofs.Text.Trimming

namespace Mustache

@[ext]
structure Decimals where
  negative : Bool
  whole : Text
  fraction : Text
  whole_ne_nil : whole ≠ []
  isDigit_whole : ∀ c ∈ whole, c.isDigit = true
  isDigit_fraction : ∀ c ∈ fraction, c.isDigit = true

namespace Decimals

def value (d : Decimals) : ℚ :=
  (if d.negative then -1 else 1) *
    (Nat.ofDigitChars 10 d.whole 0 + Nat.ofDigitChars 10 d.fraction 0 / 10 ^ d.fraction.length)

def pointed (fraction : Text) : Text := if fraction = [] then [] else '.' :: fraction

def toText (d : Decimals) : Text :=
  (if d.negative then ['-'] else []) ++ (d.whole ++ pointed d.fraction)

def unsigned (t : Text) : Text := if t.head? = some '-' then t.tail else t

/-- Reads a number. There are digits in front of a point and behind it. -/
def ofText? (t : Text) : Option Decimals :=
  let whole := (unsigned t).takeWhile Char.isDigit
  let rest := (unsigned t).dropWhile Char.isDigit
  if h : whole ≠ [] ∧ pointed rest.tail = rest ∧ rest.tail.all Char.isDigit = true then
    some ⟨t.head? = some '-', whole, rest.tail, h.1, fun _ hc => List.mem_takeWhile_imp hc,
      List.all_eq_true.mp h.2.2⟩
  else none

theorem takeWhile_pointed (fraction : Text) : (pointed fraction).takeWhile Char.isDigit = [] := by
  unfold pointed
  split <;> rfl

theorem dropWhile_pointed (fraction : Text) :
    (pointed fraction).dropWhile Char.isDigit = pointed fraction := by
  unfold pointed
  split <;> rfl

theorem tail_pointed (fraction : Text) : (pointed fraction).tail = fraction := by
  unfold pointed
  split
  next h => exact h.symm
  next => rfl

theorem head?_unsigned (d : Decimals) : (d.whole ++ pointed d.fraction).head? ≠ some '-' := by
  obtain ⟨c, rest, hwhole⟩ := List.exists_cons_of_ne_nil d.whole_ne_nil
  have hdigit := d.isDigit_whole c (by simp [hwhole])
  rw [hwhole, List.cons_append, List.head?_cons]
  rintro ⟨⟩
  exact absurd hdigit (by decide)

theorem head?_toText (d : Decimals) : d.toText.head? = some '-' ↔ d.negative = true := by
  unfold toText
  cases d.negative with
  | false => simpa using d.head?_unsigned
  | true => simp

theorem unsigned_toText (d : Decimals) : unsigned d.toText = d.whole ++ pointed d.fraction := by
  unfold unsigned
  simp only [head?_toText]
  unfold toText
  cases d.negative <;> rfl

theorem sign_append_unsigned (t : Text) :
    (if t.head? = some '-' then ['-'] else []) ++ unsigned t = t := by
  unfold unsigned
  split
  next hsign =>
    obtain ⟨rest, rfl⟩ := List.head?_eq_some_iff.mp hsign
    rfl
  next => rfl

/-- What is read is what was written. -/
theorem ofText?_eq_some_iff {t : Text} {d : Decimals} : ofText? t = some d ↔ t = d.toText := by
  constructor
  · intro h
    unfold ofText? at h
    dsimp only at h
    split at h
    next hform =>
      obtain rfl := Option.some.inj h
      unfold toText
      dsimp only
      rw [hform.2.1, List.takeWhile_append_dropWhile]
      simpa using (sign_append_unsigned t).symm
    next => cases h
  · rintro rfl
    have hwhole : (unsigned d.toText).takeWhile Char.isDigit = d.whole := by
      rw [unsigned_toText, List.takeWhile_append_of_pos d.isDigit_whole, takeWhile_pointed,
        List.append_nil]
    have hrest : (unsigned d.toText).dropWhile Char.isDigit = pointed d.fraction := by
      rw [unsigned_toText, List.dropWhile_append_of_pos d.isDigit_whole, dropWhile_pointed]
    unfold ofText?
    simp only [hwhole, hrest, tail_pointed]
    rw [dif_pos ⟨d.whole_ne_nil, trivial, List.all_eq_true.mpr d.isDigit_fraction⟩]
    simp [head?_toText]

theorem getLast?_toText (d : Decimals) : d.toText.getLast? ≠ some '.' := by
  intro hpoint
  by_cases hfraction : d.fraction = []
  · have htext : d.toText = (if d.negative then ['-'] else []) ++ d.whole := by
      simp [toText, pointed, hfraction]
    rw [htext, List.getLast?_append_of_ne_nil _ d.whole_ne_nil] at hpoint
    exact absurd (d.isDigit_whole _ (List.mem_of_getLast? hpoint)) (by decide)
  · have htext : d.toText =
        (if d.negative then ['-'] else []) ++ d.whole ++ ['.'] ++ d.fraction := by
      simp [toText, pointed, hfraction]
    rw [htext, List.getLast?_append_of_ne_nil _ hfraction] at hpoint
    exact absurd (d.isDigit_fraction _ (List.mem_of_getLast? hpoint)) (by decide)

/-! ## Hundredths -/

def fractionDigits (n : ℕ) : Text :=
  if n % 100 = 0 then []
  else if n % 10 = 0 then [Nat.digitChar (n / 10 % 10)]
  else [Nat.digitChar (n / 10 % 10), Nat.digitChar (n % 10)]

theorem length_fractionDigits_le (n : ℕ) : (fractionDigits n).length ≤ 2 := by
  unfold fractionDigits
  split
  · exact Nat.zero_le 2
  · split <;> simp

theorem isDigit_fractionDigits (n : ℕ) : ∀ c ∈ fractionDigits n, c.isDigit = true := by
  have htenth := Binary64.isDigit_digitChar_mod (n / 10)
  have hhundredth := Binary64.isDigit_digitChar_mod n
  unfold fractionDigits
  split
  · simp
  · split <;> simp [htenth, hhundredth]

theorem getLast?_fractionDigits (n : ℕ) : (fractionDigits n).getLast? ≠ some '0' := by
  unfold fractionDigits
  split
  · simp
  · split
    · simp only [List.getLast?_singleton, ne_eq, Option.some.injEq, Nat.digitChar_eq_zero]
      omega
    · simpa using by assumption

theorem value_fractionDigits (n : ℕ) :
    (Nat.ofDigitChars 10 (fractionDigits n) 0 : ℚ) / 10 ^ (fractionDigits n).length =
      (n % 100 : ℕ) / 100 := by
  have htenth : n / 10 % 10 < 10 := Nat.mod_lt _ (by decide)
  have hhundredth : n % 10 < 10 := Nat.mod_lt _ (by decide)
  have hparts : n % 100 = 10 * (n / 10 % 10) + n % 10 := by omega
  unfold fractionDigits
  split
  next hnone => simp [hnone]
  next =>
    split
    next hzero =>
      rw [hparts, hzero, Nat.ofDigitChars_cons_digitChar_of_lt_ten htenth]
      simp
      ring
    next =>
      rw [hparts, Nat.ofDigitChars_cons_digitChar_of_lt_ten htenth,
        Nat.ofDigitChars_cons_digitChar_of_lt_ten hhundredth]
      simp
      ring

def ofHundredths (negative : Bool) (n : ℕ) : Decimals where
  negative := negative
  whole := Text.ofNat (n / 100)
  fraction := fractionDigits n
  whole_ne_nil := Nat.toDigits_ne_nil
  isDigit_whole _ hc := Nat.isDigit_of_mem_toDigits (by decide) (by decide) hc
  isDigit_fraction := isDigit_fractionDigits n

theorem value_ofHundredths (negative : Bool) (n : ℕ) :
    (ofHundredths negative n).value = (if negative then -1 else 1) * (n / 100) := by
  have hwhole : Nat.ofDigitChars 10 (Text.ofNat (n / 100)) 0 = n / 100 :=
    Nat.ofDigitChars_ten_toDigits
  have hsplit : (n : ℚ) = (n / 100 : ℕ) * 100 + (n % 100 : ℕ) := by
    exact_mod_cast (Nat.div_add_mod' n 100).symm
  unfold value ofHundredths
  dsimp only
  rw [hwhole, value_fractionDigits, hsplit, add_div, mul_div_cancel_right₀ _ (by norm_num)]

theorem placesText_eq (n : ℕ) :
    Binary64.placesText n = Text.ofNat (n / 100) ++ pointed (fractionDigits n) := by
  unfold Binary64.placesText fractionDigits pointed
  dsimp only
  split
  · simp
  · split <;> simp

end Decimals

/-! ## Zeros at the end -/

namespace Text

theorem stripSuffix?_append_of_length {ending ending' : Text}
    (h : ending.length = ending'.length) (front : Text) :
    stripSuffix? ending (front ++ ending') = if ending = ending' then some front else none := by
  split
  next hsame => rw [← hsame, stripSuffix?_append]
  next hne =>
    rw [Option.eq_none_iff_forall_ne_some]
    intro front' hfront
    exact hne (List.append_inj' (stripSuffix?_eq_some_iff.mp hfront) h.symm).2.symm

/-- A text without a fraction of two zeros, or else without a single zero, at its end. -/
def stripZeros (t : Text) : Text :=
  (stripSuffix? ['.', '0', '0'] t <|> stripSuffix? ['0'] t).getD t

theorem stripZeros_append (front : Text) (c d : Char) :
    stripZeros (front ++ ['.', c, d]) =
      if c = '0' ∧ d = '0' then front
      else if d = '0' then front ++ ['.', c]
      else front ++ ['.', c, d] := by
  have hboth : ['.', '0', '0'].length = ['.', c, d].length := rfl
  have hlast : ['0'].length = [d].length := rfl
  have hsplit : front ++ ['.', c, d] = front ++ ['.', c] ++ [d] := by simp
  rw [stripZeros, stripSuffix?_append_of_length hboth, hsplit, stripSuffix?_append_of_length hlast]
  by_cases hd : d = '0' <;> by_cases hc : c = '0' <;> simp [hc, hd, eq_comm]

end Text

namespace Binary64

def fixedText (x : Binary64) : Text :=
  (if x.isNegative then ['-'] else []) ++ Text.ofNat (x.hundredths / 100) ++
    ['.', Nat.digitChar (x.hundredths / 10 % 10), Nat.digitChar (x.hundredths % 10)]

theorem toText_of_isFinite {x : Binary64} (hx : x.isFinite = true) :
    x.toText = (if x.isNegative then ['-'] else []) ++ placesText x.hundredths := by
  rw [toText, isNaN_of_isFinite hx, if_neg (by decide)]
  dsimp only
  rw [if_pos hx]

theorem toText_eq_stripZeros {x : Binary64} (hx : x.isFinite = true) :
    x.toText = x.fixedText.stripZeros := by
  have hzero : x.hundredths % 100 = 0 ↔ x.hundredths / 10 % 10 = 0 ∧ x.hundredths % 10 = 0 := by
    omega
  rw [toText_of_isFinite hx, fixedText, Text.stripZeros_append, placesText]
  simp only [Nat.digitChar_eq_zero, ← hzero, List.append_assoc]
  generalize (if x.isNegative = true then ['-'] else []) = sign
  split
  · rfl
  · split <;> rfl

def decimals (x : Binary64) : Decimals := .ofHundredths x.isNegative x.hundredths

theorem toText_eq_decimals {x : Binary64} (hx : x.isFinite = true) :
    x.toText = x.decimals.toText := by
  rw [toText_of_isFinite hx, Decimals.placesText_eq]
  rfl

/-- A finite double is written as so many hundredths, the nearest ones: it is read as decimals of
this value, with its own sign, all digits in front of the point and, of the two behind it, those
that are left when zeros at the end are taken away. -/
structure IsWrittenAs (x : Binary64) (n : ℤ) (d : Decimals) : Prop where
  rounded (k : ℤ) : IsNearest (100 * x.value) k ↔ k = n
  reads : Decimals.ofText? x.toText = some d
  value : d.value = n / 100
  sign : x.toText.head? = some '-' ↔ x.isNegative = true
  whole : d.whole = Text.ofNat (n.natAbs / 100)
  places : d.fraction.length ≤ 2
  fraction_end : d.fraction.getLast? ≠ some '0'
  text_end : x.toText.getLast? ≠ some '.'
  stripped : x.toText = x.fixedText.stripZeros

theorem natAbs_signedHundredths (x : Binary64) : x.signedHundredths.natAbs = x.hundredths := by
  unfold signedHundredths
  split <;> simp

theorem isWrittenAs_decimals {x : Binary64} (hx : x.isFinite = true) :
    x.IsWrittenAs x.signedHundredths x.decimals where
  rounded := x.isNearest_signedHundredths.iff_eq
  reads := Decimals.ofText?_eq_some_iff.mpr (toText_eq_decimals hx)
  value := by
    rw [decimals, Decimals.value_ofHundredths, signedHundredths]
    cases x.isNegative <;> simp [neg_div]
  sign := by
    rw [toText_eq_decimals hx, Decimals.head?_toText]
    rfl
  whole := by
    rw [natAbs_signedHundredths]
    rfl
  places := Decimals.length_fractionDigits_le _
  fraction_end := Decimals.getLast?_fractionDigits _
  text_end := by
    rw [toText_eq_decimals hx]
    exact x.decimals.getLast?_toText
  stripped := toText_eq_stripZeros hx

/-- All that is lost of a double when it is written is what lies beyond its hundredths. -/
theorem toText_eq_toText_iff (x y : Binary64) (hx : x.isFinite = true) (hy : y.isFinite = true) :
    ∃ m d n e, x.IsWrittenAs m d ∧ y.IsWrittenAs n e ∧
      (x.toText = y.toText ↔ x.isNegative = y.isNegative ∧ m = n) := by
  refine ⟨_, _, _, _, isWrittenAs_decimals hx, isWrittenAs_decimals hy, ?_⟩
  constructor
  · intro hsame
    have hdecimals : x.decimals = y.decimals := by
      apply Option.some.inj
      rw [← (isWrittenAs_decimals hx).reads, ← (isWrittenAs_decimals hy).reads, hsame]
    refine ⟨congrArg Decimals.negative hdecimals, ?_⟩
    have hvalue := (isWrittenAs_decimals hx).value
    rw [hdecimals, (isWrittenAs_decimals hy).value, div_left_inj' (by norm_num)] at hvalue
    exact (Int.cast_inj.mp hvalue).symm
  · rintro ⟨hsign, hnumber⟩
    have hhundredths : x.hundredths = y.hundredths := by
      rw [← natAbs_signedHundredths x, hnumber, natAbs_signedHundredths]
    rw [toText_of_isFinite hx, toText_of_isFinite hy, hsign, hhundredths]

/-- Twelve and a half hundredths are rounded to twelve, an even number, and are then written like
the double nearest to twelve hundredths. -/
theorem toText_negativeEighth :
    let eighth : Binary64 := ⟨0xbfc0000000000000⟩
    let twelve : Binary64 := ⟨0xbfbeb851eb851eb8⟩
    eighth.isFinite = true ∧ twelve.isFinite = true ∧ eighth.toText = "-0.12".toList ∧
      eighth.toText = twelve.toText ∧ IsNearest (100 * eighth.value) (-12) := by
  intro eighth twelve
  have heighth : eighth.isFinite = true := by decide
  have htwelve : twelve.isFinite = true := by decide
  have htext : eighth.toText = "-0.12".toList := by decide +kernel
  obtain ⟨m, d, n, e, hm, -, hiff⟩ := toText_eq_toText_iff eighth twelve heighth htwelve
  have hsame : eighth.toText = twelve.toText := htext.trans (by decide +kernel)
  refine ⟨heighth, htwelve, htext, hsame, ?_⟩
  have hread : (Decimals.ofText? eighth.toText).map
      (fun d => (d.negative, d.whole, d.fraction)) = some (true, ['0'], ['1', '2']) := by
    decide +kernel
  rw [hm.reads, Option.map_some, Option.some.injEq, Prod.mk.injEq, Prod.mk.injEq] at hread
  obtain ⟨hnegative, hwhole, hfraction⟩ := hread
  have hzero : Nat.ofDigitChars 10 ['0'] 0 = 0 := rfl
  have hdigits : Nat.ofDigitChars 10 ['1', '2'] 0 = 12 := rfl
  have hvalue := hm.value
  rw [Decimals.value, hnegative, hwhole, hfraction, hzero, hdigits] at hvalue
  have hnumber : (-12 : ℚ) = m := by
    norm_num at hvalue
    linarith
  rw [hm.rounded]
  exact_mod_cast hnumber

end Binary64

end Mustache
