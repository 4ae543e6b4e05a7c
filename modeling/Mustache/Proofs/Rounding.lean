import Mathlib.Algebra.Order.Round
import Mathlib.Data.Rat.Floor
import Mathlib.Tactic.Linarith
import Mustache.Binary64

namespace Mustache

/-- Whether an integer is nearest to a number, and even if another one is as near. -/
structure IsNearest (q : ℚ) (n : ℤ) : Prop where
  nearest (k : ℤ) : |q - n| ≤ |q - k|
  even (k : ℤ) : |q - k| = |q - n| → k ≠ n → Even n

theorem one_le_abs_cast_sub {m n : ℤ} (h : m ≠ n) : 1 ≤ |(m : ℚ) - n| := by
  have hint : 1 ≤ |m - n| := Int.one_le_abs (sub_ne_zero.mpr h)
  exact_mod_cast hint

theorem isNearest_iff {q : ℚ} {n : ℤ} :
    IsNearest q n ↔ |q - n| ≤ 1 / 2 ∧ (|q - n| = 1 / 2 → Even n) := by
  constructor
  · intro h
    refine ⟨(h.nearest (round q)).trans (abs_sub_round q), fun htie => ?_⟩
    -- On the other side of the number an integer is as far away.
    rcases abs_choice (q - n) with hside | hside
    · apply h.even (n + 1) _ (by omega)
      have hother : q - (n + 1 : ℤ) = -(1 / 2) := by push_cast; linarith
      rw [hother, htie, abs_neg, abs_of_pos (by norm_num)]
    · apply h.even (n - 1) _ (by omega)
      have hother : q - (n - 1 : ℤ) = 1 / 2 := by push_cast; linarith
      rw [hother, htie, abs_of_pos (by norm_num)]
  · rintro ⟨hhalf, heven⟩
    have hfar (k : ℤ) (hk : k ≠ n) : 1 ≤ |q - k| + |q - n| := by
      calc (1 : ℚ) ≤ |(n : ℚ) - k| := one_le_abs_cast_sub hk.symm
        _ ≤ |(n : ℚ) - q| + |q - k| := abs_sub_le _ _ _
        _ = |q - k| + |q - n| := by rw [abs_sub_comm (n : ℚ) q, add_comm]
    refine ⟨fun k => ?_, fun k hsame hk => ?_⟩
    · by_cases hk : k = n
      · rw [hk]
      · linarith [hfar k hk]
    · exact heven (by linarith [hfar k hk])

theorem IsNearest.unique {q : ℚ} {m n : ℤ} (hm : IsNearest q m) (hn : IsNearest q n) : m = n := by
  by_contra hne
  obtain ⟨hm', hmeven⟩ := isNearest_iff.mp hm
  obtain ⟨hn', hneven⟩ := isNearest_iff.mp hn
  have hsum : |(m : ℚ) - n| ≤ |q - m| + |q - n| := by
    rw [abs_sub_comm q m]
    exact abs_sub_le _ _ _
  have hone := one_le_abs_cast_sub hne
  have hdiff : |m - n| = 1 := by
    have hle : |m - n| ≤ 1 := by exact_mod_cast (by linarith : |(m : ℚ) - n| ≤ 1)
    have hge := Int.one_le_abs (sub_ne_zero.mpr hne)
    omega
  obtain ⟨a, ha⟩ := hmeven (by linarith)
  obtain ⟨b, hb⟩ := hneven (by linarith)
  rcases eq_or_eq_neg_of_abs_eq hdiff with h | h <;> omega

theorem IsNearest.iff_eq {q : ℚ} {n : ℤ} (h : IsNearest q n) (k : ℤ) : IsNearest q k ↔ k = n :=
  ⟨fun hk => hk.unique h, fun hk => hk ▸ h⟩

theorem IsNearest.neg {q : ℚ} {n : ℤ} (h : IsNearest q n) : IsNearest (-q) (-n) := by
  rw [isNearest_iff] at h ⊢
  have hside : -q - (-n : ℤ) = -(q - n) := by push_cast; ring
  rwa [hside, abs_neg, even_neg]

theorem isNearest_roundQuotient (num : ℕ) {den : ℕ} (h : 0 < den) :
    IsNearest (num / den) (roundQuotient num den) := by
  have hden : (0 : ℚ) < den := by exact_mod_cast h
  have hsplit : (den : ℚ) * (num / den : ℕ) + (num % den : ℕ) = num := by
    exact_mod_cast Nat.div_add_mod num den
  have hquotient : (num : ℚ) / den = (num / den : ℕ) + (num % den : ℕ) / (den : ℚ) := by
    rw [← hsplit, add_div, mul_div_cancel_left₀ _ hden.ne']
  have hless : ((num % den : ℕ) : ℚ) / den < 1 := by
    rw [div_lt_one hden]
    exact_mod_cast Nat.mod_lt num h
  have hdown : 2 * (num % den) < den ↔ ((num % den : ℕ) : ℚ) / den < 1 / 2 := by
    rw [div_lt_div_iff₀ hden (by norm_num), one_mul, mul_comm]
    exact_mod_cast Iff.rfl
  have htie : 2 * (num % den) = den ↔ ((num % den : ℕ) : ℚ) / den = 1 / 2 := by
    rw [div_eq_div_iff hden.ne' (by norm_num), one_mul, mul_comm]
    exact_mod_cast Iff.rfl
  have hpos : 0 ≤ ((num % den : ℕ) : ℚ) / den := by positivity
  rw [isNearest_iff, hquotient, roundQuotient]
  simp only [hdown, htie]
  -- With `t` for the fraction nothing is left of the division.
  generalize ((num % den : ℕ) : ℚ) / den = t at *
  generalize num / den = n at *
  split
  next hlow =>
    rw [Int.cast_natCast, add_sub_cancel_left, abs_of_nonneg hpos]
    rcases hlow with hlow | ⟨hlow, heven⟩
    · exact ⟨hlow.le, fun hhalf => absurd hhalf hlow.ne⟩
    · exact ⟨hlow.le, fun _ => (Int.even_coe_nat n).mpr (Nat.even_iff.mpr heven)⟩
  next hhigh =>
    have hup : (n : ℚ) + t - ((n + 1 : ℕ) : ℤ) = -(1 - t) := by push_cast; ring
    rw [hup, abs_neg, abs_of_pos (by linarith)]
    rw [not_or, not_lt, not_and] at hhigh
    refine ⟨by linarith [hhigh.1], fun hhalf => ?_⟩
    have hodd := hhigh.2 (by linarith)
    rw [Int.even_coe_nat, Nat.even_iff]
    omega

namespace Binary64

def value (x : Binary64) : ℚ :=
  (if x.isNegative then -1 else 1) * (x.significand * 2 ^ x.exponent)

theorem two_zpow_eq (e : ℤ) : (2 : ℚ) ^ e = 2 ^ e.toNat / 2 ^ (-e).toNat := by
  rcases Int.le_total 0 e with h | h
  · have hnone : (-e).toNat = 0 := by omega
    rw [hnone, pow_zero, div_one, ← zpow_natCast, Int.toNat_of_nonneg h]
  · have hnone : e.toNat = 0 := by omega
    rw [hnone, pow_zero, one_div, ← zpow_natCast, Int.toNat_of_nonneg (by omega), zpow_neg, inv_inv]

theorem isNearest_hundredths (x : Binary64) :
    IsNearest (100 * (x.significand * 2 ^ x.exponent)) x.hundredths := by
  have hquotient : (100 : ℚ) * (x.significand * 2 ^ x.exponent) =
      (100 * x.significand * Nat.pow 2 x.exponent.toNat : ℕ) /
        (Nat.pow 2 (-x.exponent).toNat : ℕ) := by
    rw [two_zpow_eq, Nat.pow_eq, Nat.pow_eq]
    push_cast
    ring
  rw [hquotient]
  exact isNearest_roundQuotient _ (Nat.pow_pos (by decide))

def signedHundredths (x : Binary64) : ℤ := if x.isNegative then -x.hundredths else x.hundredths

theorem isNearest_signedHundredths (x : Binary64) :
    IsNearest (100 * x.value) x.signedHundredths := by
  have h := x.isNearest_hundredths
  unfold value signedHundredths
  cases x.isNegative with
  | false => simpa using h
  | true => simpa using h.neg

end Binary64

end Mustache
