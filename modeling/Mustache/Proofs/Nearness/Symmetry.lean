import Mustache.Proofs.Nearness
import Mustache.Proofs.Rounding

namespace Mustache

namespace Binary64

def unit : ℚ := 2 ^ (-1074 : ℤ)

theorem unit_ne_zero : unit ≠ 0 := zpow_ne_zero _ two_ne_zero

def units (magnitude : ℕ) : ℕ :=
  (if magnitude < 2 ^ 52 then magnitude else magnitude % 2 ^ 52 + 2 ^ 52) *
    2 ^ (magnitude / 2 ^ 52 - 1)

theorem units_lt_units_succ (m : ℕ) : units m < units (m + 1) := by
  unfold units
  by_cases hcarry : (m + 1) % 2 ^ 52 = 0
  · -- The significand is full, so that the next one is the least of the next exponent.
    have hnext : ¬ m + 1 < 2 ^ 52 := by omega
    have hexponent : (m + 1) / 2 ^ 52 - 1 = m / 2 ^ 52 := by omega
    rw [if_neg hnext, hcarry, hexponent, Nat.zero_add]
    split
    next hsmall =>
      have hzero : m / 2 ^ 52 = 0 := by omega
      rw [hzero]
      omega
    next hlarge =>
      have hpow : 2 ^ (m / 2 ^ 52) = 2 * 2 ^ (m / 2 ^ 52 - 1) := by
        rw [← Nat.pow_succ']
        congr 1
        omega
      rw [hpow, ← Nat.mul_assoc]
      exact Nat.mul_lt_mul_of_pos_right (by omega) (Nat.two_pow_pos _)
  · have hexponent : (m + 1) / 2 ^ 52 = m / 2 ^ 52 := by omega
    rw [hexponent]
    apply Nat.mul_lt_mul_of_pos_right _ (Nat.two_pow_pos _)
    split <;> split <;> omega

theorem units_strictMono : StrictMono units := strictMono_nat_of_lt_succ units_lt_units_succ

def signedUnits (x : Binary64) : ℤ :=
  if x.isNegative then -(units x.magnitude : ℤ) else units x.magnitude

theorem value_eq_signedUnits (x : Binary64) : x.value = x.signedUnits * unit := by
  have hexponent : x.exponent = (x.magnitude / 2 ^ 52 - 1 : ℕ) + (-1074 : ℤ) := by
    rw [exponent, Nat.pow_eq]
    omega
  have hunits : (x.significand : ℚ) * 2 ^ x.exponent = units x.magnitude * unit := by
    rw [hexponent, zpow_add₀ two_ne_zero, ← unit, zpow_natCast, ← mul_assoc, units, significand,
      Nat.pow_eq]
    push_cast
    rfl
  rw [value, hunits, signedUnits]
  split <;> push_cast <;> ring

theorem signedUnits_eq_iff {x y : Binary64} :
    x.signedUnits = y.signedUnits ↔ x.bits = y.bits ∨ x.magnitude = 0 ∧ y.magnitude = 0 := by
  have hxbits := x.bits.toNat_lt
  have hybits := y.bits.toNat_lt
  have hzero (m : ℕ) : units m = 0 ↔ m = 0 := units_strictMono.injective.eq_iff' rfl
  have hsame : units x.magnitude = units y.magnitude ↔ x.magnitude = y.magnitude :=
    units_strictMono.injective.eq_iff
  have hx := hzero x.magnitude
  have hy := hzero y.magnitude
  rw [← UInt64.toNat_inj]
  simp only [signedUnits, isNegative, decide_eq_true_eq]
  generalize units x.magnitude = m at *
  generalize units y.magnitude = n at *
  simp only [magnitude, Nat.pow_eq] at *
  split <;> split <;> omega

theorem numEq_iff_value_eq {x y : Binary64} (hx : x.isFinite = true) (hy : y.isFinite = true) :
    x.numEq y = true ↔ x.value = y.value := by
  rw [value_eq_signedUnits, value_eq_signedUnits, mul_left_inj' unit_ne_zero, Int.cast_inj,
    signedUnits_eq_iff, numEq, isNaN_of_isFinite hx, isNaN_of_isFinite hy]
  simp

theorem stepsBetween_comm (x y : Binary64) : x.stepsBetween y = y.stepsBetween x :=
  Nat.min_comm _ _

/-- The steps are the absolute value of the difference, which wraps around in a signed word. -/
theorem stepsBetween_eq_natAbs (x y : Binary64) :
    x.stepsBetween y = (x.rank - y.rank).toInt64.toInt.natAbs := by
  have hx := x.rank.toNat_lt
  have hy := y.rank.toNat_lt
  have hsigned : (x.rank - y.rank).toInt64.toInt =
      if 2 * (x.rank - y.rank).toNat < 2 ^ 64 then ((x.rank - y.rank).toNat : ℤ)
      else (x.rank - y.rank).toNat - (2 ^ 64 : ℕ) :=
    BitVec.toInt_eq_toNat_cond (x.rank - y.rank).toBitVec
  rw [hsigned, stepsBetween, UInt64.toNat_sub, UInt64.toNat_sub]
  split <;> omega

/-- Whether two doubles are equal numbers, differ by nothing, or have bits that are at most two
apart when they are put in order. -/
def IsApprox (x y : Binary64) : Prop :=
  x.numEq y = true ∨ (x.isFinite = true ∧ y.isFinite = true ∧ |x.value - y.value| ≤ 0) ∨
    |(x.rank - y.rank).toInt64.toInt| ≤ 2

theorem isNear_iff_isApprox (x y : Binary64) : x.isNear y = true ↔ x.IsApprox y := by
  have hsteps : |(x.rank - y.rank).toInt64.toInt| ≤ 2 ↔ x.stepsBetween y ≤ 2 := by
    rw [stepsBetween_eq_natAbs, Int.abs_eq_natAbs]
    exact Int.ofNat_le
  have hnothing (h : x.isFinite = true ∧ y.isFinite = true ∧ |x.value - y.value| ≤ 0) :
      x.numEq y = true := by
    obtain ⟨hx, hy, hdifference⟩ := h
    exact (numEq_iff_value_eq hx hy).mpr (sub_eq_zero.mp (abs_nonpos_iff.mp hdifference))
  rw [isNear, Bool.or_eq_true, decide_eq_true_eq, IsApprox, hsteps, ← or_assoc,
    or_iff_left_of_imp hnothing]

end Binary64

namespace Value

section Alike

variable {R : Binary64 → Binary64 → Prop}

mutual

theorem alike_refl (h : ∀ x, R x x) : (v : Value) → v.Alike R v
  | null => trivial
  | bool _ => rfl
  | number x => h x
  | string _ => rfl
  | object es => alikeEntries_refl h es
  | list is => alikeItems_refl h is

theorem alikeEntries_refl (h : ∀ x, R x x) : (es : List (Text × Value)) → AlikeEntries R es es
  | [] => trivial
  | (_, v) :: es => ⟨rfl, alike_refl h v, alikeEntries_refl h es⟩

theorem alikeItems_refl (h : ∀ x, R x x) :
    (is : List (List (Text × Value))) → AlikeItems R is is
  | [] => trivial
  | es :: is => ⟨alikeEntries_refl h es, alikeItems_refl h is⟩

end

mutual

theorem Alike.symm (h : ∀ x y, R x y → R y x) : {v w : Value} → v.Alike R w → w.Alike R v
  | null, w, halike => by
    obtain rfl := null_alike_iff.mp halike
    exact halike
  | bool b, w, halike => by
    obtain rfl := bool_alike_iff.mp halike
    exact halike
  | number x, w, halike => by
    obtain ⟨y, hxy, rfl⟩ := number_alike_iff.mp halike
    exact h x y hxy
  | string t, w, halike => by
    obtain rfl := string_alike_iff.mp halike
    exact halike
  | object es, w, halike => by
    obtain ⟨fs, hentries, rfl⟩ := object_alike_iff.mp halike
    exact AlikeEntries.symm h hentries
  | list is, w, halike => by
    obtain ⟨js, hitems, rfl⟩ := list_alike_iff.mp halike
    exact AlikeItems.symm h hitems

theorem AlikeEntries.symm (h : ∀ x y, R x y → R y x) :
    {es fs : List (Text × Value)} → AlikeEntries R es fs → AlikeEntries R fs es
  | [], fs, halike => by
    obtain rfl := alikeEntries_nil_iff.mp halike
    exact halike
  | (k, v) :: es, fs, halike => by
    obtain ⟨w, gs, hvalue, hentries, rfl⟩ := alikeEntries_cons_iff.mp halike
    exact ⟨rfl, hvalue.symm h, AlikeEntries.symm h hentries⟩

theorem AlikeItems.symm (h : ∀ x y, R x y → R y x) :
    {is js : List (List (Text × Value))} → AlikeItems R is js → AlikeItems R js is
  | [], js, halike => by
    obtain rfl := alikeItems_nil_iff.mp halike
    exact halike
  | es :: is, js, halike => by
    obtain ⟨fs, ks, hentries, hitems, rfl⟩ := alikeItems_cons_iff.mp halike
    exact ⟨AlikeEntries.symm h hentries, AlikeItems.symm h hitems⟩

end

end Alike

theorem isWithin_self (steps : Nat) (v : Value) : v.IsWithin steps v := by
  apply alike_refl
  intro x
  rw [Binary64.stepsBetween_self]
  exact Nat.zero_le steps

theorem IsWithin.symm {steps : Nat} {v w : Value} (h : v.IsWithin steps w) :
    w.IsWithin steps v := by
  apply Alike.symm _ h
  intro x y hsteps
  rwa [Binary64.stepsBetween_comm]

theorem isNear_refl_comm (v w : Value) :
    (v.isNear w = true ↔ v.Alike Binary64.IsApprox w) ∧
      v.isNear v = true ∧ v.isNear w = w.isNear v := by
  refine ⟨?_, ?_, ?_⟩
  · simp only [isNear_iff_alike, Binary64.isNear_iff_isApprox]
  · exact isNear_iff_isWithin.mpr (isWithin_self 2 v)
  · rw [Bool.eq_iff_iff, isNear_iff_isWithin, isNear_iff_isWithin]
    exact ⟨IsWithin.symm, IsWithin.symm⟩

/-- What is no number is equal to nothing, but near to itself. -/
example :
    let x : Binary64 := ⟨0xfff8000000000001⟩
    x.numEq x = false ∧ (number x).isNear (number x) = true := by
  decide

end Value

end Mustache
