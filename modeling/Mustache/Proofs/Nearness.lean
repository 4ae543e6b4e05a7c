import Mathlib.Algebra.Group.Nat.Defs
import Mathlib.Logic.Equiv.Defs
import Mathlib.Logic.Relation
import Mustache.Value

namespace Mustache

namespace Binary64

/-- The highest bit is flipped by adding it. -/
theorem toNat_xor_highestBit (w : UInt64) :
    (w ^^^ 0x8000000000000000).toNat = (w.toNat + 2 ^ 63) % 2 ^ 64 := by
  have hw := w.toNat_lt
  have hbit : (0x8000000000000000 : UInt64).toNat = 2 ^ 63 := rfl
  have hlow : (w.toNat ^^^ 2 ^ 63) % 2 ^ 63 = w.toNat % 2 ^ 63 := by
    rw [Nat.xor_mod_two_pow, Nat.mod_self, Nat.xor_zero]
  have hhigh : (w.toNat ^^^ 2 ^ 63) / 2 ^ 63 = 1 - w.toNat / 2 ^ 63 := by
    have hcases : w.toNat / 2 ^ 63 = 0 ∨ w.toNat / 2 ^ 63 = 1 := by omega
    rw [Nat.xor_div_two_pow, Nat.div_self (by decide)]
    rcases hcases with h | h <;> rw [h] <;> rfl
  rw [UInt64.toNat_xor, hbit]
  omega

theorem toNat_rank (x : Binary64) : x.rank.toNat =
    if 2 ^ 63 ≤ x.bits.toNat then 2 ^ 64 - 1 - x.bits.toNat else x.bits.toNat + 2 ^ 63 := by
  have hbits := x.bits.toNat_lt
  unfold rank isNegative
  simp only [Nat.pow_eq, decide_eq_true_eq]
  split
  · exact UInt64.toNat_not x.bits
  · rw [toNat_xor_highestBit]
    omega

def ofRank (w : UInt64) : Binary64 :=
  ⟨if 2 ^ 63 ≤ w.toNat then w ^^^ 0x8000000000000000 else ~~~w⟩

theorem toNat_bits_ofRank (w : UInt64) : (ofRank w).bits.toNat =
    if 2 ^ 63 ≤ w.toNat then w.toNat - 2 ^ 63 else 2 ^ 64 - 1 - w.toNat := by
  have hw := w.toNat_lt
  unfold ofRank
  dsimp only
  split
  · rw [toNat_xor_highestBit]
    omega
  · exact UInt64.toNat_not w

/-- One double stands at each place, those that are not numbers among them. -/
def rankEquiv : Binary64 ≃ UInt64 where
  toFun := rank
  invFun := ofRank
  left_inv x := by
    have hbits := x.bits.toNat_lt
    have hsame : (ofRank x.rank).bits = x.bits := by
      apply UInt64.toNat_inj.mp
      rw [toNat_bits_ofRank, toNat_rank]
      split <;> split <;> omega
    exact congrArg Binary64.mk hsame
  right_inv w := by
    have hw := w.toNat_lt
    apply UInt64.toNat_inj.mp
    rw [toNat_rank, toNat_bits_ofRank]
    split <;> split <;> omega

/-- The order is closed to a circle, so that the steps may lead over its ends. -/
theorem steps_le_iff (v w : UInt64) (k : Nat) :
    min (v - w).toNat (w - v).toNat ≤ k ↔
      v.toNat ≤ w.toNat + k ∧ w.toNat ≤ v.toNat + k ∨
        v.toNat + 2 ^ 64 ≤ w.toNat + k ∨ w.toNat + 2 ^ 64 ≤ v.toNat + k := by
  have hv := v.toNat_lt
  have hw := w.toNat_lt
  rw [UInt64.toNat_sub, UInt64.toNat_sub]
  omega

/-- A way can be cut in two after any number of its steps. -/
theorem exists_between {v w : UInt64} {m n : Nat}
    (h : min (v - w).toNat (w - v).toNat ≤ m + n) :
    ∃ u, min (v - u).toNat (u - v).toNat ≤ m ∧ min (u - w).toNat (w - u).toNat ≤ n := by
  by_cases hfirst : min (v - w).toNat (w - v).toNat ≤ m
  · refine ⟨w, hfirst, ?_⟩
    rw [UInt64.sub_self]
    exact Nat.zero_le n
  · have hv := v.toNat_lt
    have hw := w.toNat_lt
    have hsmall : m < 2 ^ 64 := by
      have hless := (v - w).toNat_lt
      omega
    have hm : (UInt64.ofNat m).toNat = m := UInt64.toNat_ofNat_of_lt' hsmall
    rw [steps_le_iff] at h hfirst
    simp only [steps_le_iff]
    by_cases hdown : (v - w).toNat ≤ (w - v).toNat
    · refine ⟨v - UInt64.ofNat m, ?_⟩
      simp only [UInt64.toNat_sub, hm] at hdown ⊢
      omega
    · refine ⟨v + UInt64.ofNat m, ?_⟩
      simp only [UInt64.toNat_sub, UInt64.toNat_add, hm] at hdown ⊢
      omega

theorem steps_le_add {u v w : UInt64} {m n : Nat} (hm : min (v - u).toNat (u - v).toNat ≤ m)
    (hn : min (u - w).toNat (w - u).toNat ≤ n) :
    min (v - w).toNat (w - v).toNat ≤ m + n := by
  have hu := u.toNat_lt
  have hv := v.toNat_lt
  have hw := w.toNat_lt
  rw [steps_le_iff] at hm hn ⊢
  omega

/-- Steps add up, and so many steps can be divided at a double between the two. -/
theorem stepsBetween_le_add_iff (x z : Binary64) (m n : Nat) :
    x.stepsBetween z ≤ m + n ↔ ∃ y, x.stepsBetween y ≤ m ∧ y.stepsBetween z ≤ n := by
  constructor
  · intro h
    obtain ⟨u, hxu, huz⟩ := exists_between h
    refine ⟨ofRank u, ?_⟩
    have hu : (ofRank u).rank = u := rankEquiv.apply_symm_apply u
    rw [stepsBetween, stepsBetween, hu]
    exact ⟨hxu, huz⟩
  · rintro ⟨y, hxy, hyz⟩
    exact steps_le_add hxy hyz

theorem stepsBetween_self (x : Binary64) : x.stepsBetween x = 0 := by
  rw [stepsBetween, UInt64.sub_self]
  rfl

/-- Equal numbers are no exception, since there is at most one step between them. -/
theorem isNear_iff {x y : Binary64} : x.isNear y = true ↔ x.stepsBetween y ≤ 2 := by
  have hequal (h : x.numEq y = true) : x.stepsBetween y ≤ 2 := by
    simp only [numEq, Bool.and_eq_true, Bool.or_eq_true, decide_eq_true_eq] at h
    obtain ⟨-, hbits | ⟨hx, hy⟩⟩ := h
    · obtain rfl : x = y := congrArg Binary64.mk hbits
      rw [stepsBetween_self]
      exact Nat.zero_le 2
    · have hxbits := x.bits.toNat_lt
      have hybits := y.bits.toNat_lt
      rw [magnitude, Nat.pow_eq] at hx hy
      rw [stepsBetween, steps_le_iff, toNat_rank, toNat_rank]
      split <;> split <;> omega
  rw [isNear, Bool.or_eq_true, decide_eq_true_eq]
  exact or_iff_right_of_imp hequal

end Binary64

/-! ## Values of the same shape -/

namespace Value

mutual

/-- Whether two values have the same shape and the same texts, and numbers at the same places that
are related. -/
def Alike (R : Binary64 → Binary64 → Prop) : Value → Value → Prop
  | null, null => True
  | bool a, bool b => a = b
  | number x, number y => R x y
  | string s, string t => s = t
  | object es, object fs => AlikeEntries R es fs
  | list is, list js => AlikeItems R is js
  | _, _ => False

def AlikeEntries (R : Binary64 → Binary64 → Prop) :
    List (Text × Value) → List (Text × Value) → Prop
  | [], [] => True
  | (k, v) :: es, (l, w) :: fs => k = l ∧ Alike R v w ∧ AlikeEntries R es fs
  | _, _ => False

def AlikeItems (R : Binary64 → Binary64 → Prop) :
    List (List (Text × Value)) → List (List (Text × Value)) → Prop
  | [], [] => True
  | es :: is, fs :: js => AlikeEntries R es fs ∧ AlikeItems R is js
  | _, _ => False

end

mutual

theorem isNear_iff_alike : (v w : Value) →
    (v.isNear w = true ↔ v.Alike (fun x y => x.isNear y = true) w)
  | null, w => by cases w <;> simp [isNear, Alike]
  | bool b, w => by cases w <;> simp [isNear, Alike]
  | number x, w => by cases w <;> simp [isNear, Alike]
  | string t, w => by cases w <;> simp [isNear, Alike]
  | object es, w => by
    cases w with
    | object fs => simpa only [isNear, Alike] using isNearEntries_iff_alike es fs
    | _ => simp [isNear, Alike]
  | list is, w => by
    cases w with
    | list js => simpa only [isNear, Alike] using isNearItems_iff_alike is js
    | _ => simp [isNear, Alike]

theorem isNearEntries_iff_alike : (es fs : List (Text × Value)) →
    (isNearEntries es fs = true ↔ AlikeEntries (fun x y => x.isNear y = true) es fs)
  | [], fs => by cases fs <;> simp [isNearEntries, AlikeEntries]
  | (k, v) :: es, [] => by simp [isNearEntries, AlikeEntries]
  | (k, v) :: es, (l, w) :: fs => by
    simp [isNearEntries, AlikeEntries, isNear_iff_alike v w, isNearEntries_iff_alike es fs,
      and_assoc]

theorem isNearItems_iff_alike : (is js : List (List (Text × Value))) →
    (isNearItems is js = true ↔ AlikeItems (fun x y => x.isNear y = true) is js)
  | [], js => by cases js <;> simp [isNearItems, AlikeItems]
  | es :: is, [] => by simp [isNearItems, AlikeItems]
  | es :: is, fs :: js => by
    simp [isNearItems, AlikeItems, isNearEntries_iff_alike es fs, isNearItems_iff_alike is js]

end

section Alike

variable {R S : Binary64 → Binary64 → Prop}

/-! What is alike to a value is put together like it. -/

@[simp] theorem null_alike_iff {w : Value} : null.Alike R w ↔ w = null := by
  cases w <;> simp [Alike]

@[simp] theorem bool_alike_iff {b : Bool} {w : Value} : (bool b).Alike R w ↔ w = bool b := by
  cases w <;> simp [Alike, eq_comm]

@[simp] theorem number_alike_iff {x : Binary64} {w : Value} :
    (number x).Alike R w ↔ ∃ y, R x y ∧ w = number y := by
  cases w <;> simp [Alike]

@[simp] theorem string_alike_iff {t : Text} {w : Value} :
    (string t).Alike R w ↔ w = string t := by
  cases w <;> simp [Alike, eq_comm]

@[simp] theorem object_alike_iff {es : List (Text × Value)} {w : Value} :
    (object es).Alike R w ↔ ∃ fs, AlikeEntries R es fs ∧ w = object fs := by
  cases w <;> simp [Alike]

@[simp] theorem list_alike_iff {is : List (List (Text × Value))} {w : Value} :
    (list is).Alike R w ↔ ∃ js, AlikeItems R is js ∧ w = list js := by
  cases w <;> simp [Alike]

@[simp] theorem alikeEntries_nil_iff {fs : List (Text × Value)} :
    AlikeEntries R [] fs ↔ fs = [] := by
  cases fs <;> simp [AlikeEntries]

@[simp] theorem alikeEntries_cons_iff {k : Text} {v : Value} {es fs : List (Text × Value)} :
    AlikeEntries R ((k, v) :: es) fs ↔
      ∃ w gs, v.Alike R w ∧ AlikeEntries R es gs ∧ fs = (k, w) :: gs := by
  constructor
  · intro h
    match fs, h with
    | (l, w) :: fs, h =>
      obtain ⟨rfl, hv, hes⟩ := h
      exact ⟨w, fs, hv, hes, rfl⟩
  · rintro ⟨w, gs, hv, hes, rfl⟩
    exact ⟨rfl, hv, hes⟩

@[simp] theorem alikeItems_nil_iff {js : List (List (Text × Value))} :
    AlikeItems R [] js ↔ js = [] := by
  cases js <;> simp [AlikeItems]

@[simp] theorem alikeItems_cons_iff {es : List (Text × Value)}
    {is js : List (List (Text × Value))} :
    AlikeItems R (es :: is) js ↔
      ∃ fs ks, AlikeEntries R es fs ∧ AlikeItems R is ks ∧ js = fs :: ks := by
  cases js <;> simp [AlikeItems]

mutual

/-- Values that are alike in two steps have one between them, with numbers that stand between
theirs. -/
theorem alike_comp_iff : (v w : Value) →
    (v.Alike (Relation.Comp R S) w ↔ ∃ u, v.Alike R u ∧ u.Alike S w)
  | null, w => by simp
  | bool b, w => by simp
  | number x, w => by
    simp only [number_alike_iff, Relation.Comp]
    grind [number_alike_iff]
  | string t, w => by simp
  | object es, w => by
    simp only [object_alike_iff, alikeEntries_comp_iff es]
    grind [object_alike_iff]
  | list is, w => by
    simp only [list_alike_iff, alikeItems_comp_iff is]
    grind [list_alike_iff]

theorem alikeEntries_comp_iff : (es fs : List (Text × Value)) →
    (AlikeEntries (Relation.Comp R S) es fs ↔ ∃ gs, AlikeEntries R es gs ∧ AlikeEntries S gs fs)
  | [], fs => by simp
  | (k, v) :: es, fs => by
    simp only [alikeEntries_cons_iff, alike_comp_iff v, alikeEntries_comp_iff es]
    grind [alikeEntries_cons_iff]

theorem alikeItems_comp_iff : (is js : List (List (Text × Value))) →
    (AlikeItems (Relation.Comp R S) is js ↔ ∃ ks, AlikeItems R is ks ∧ AlikeItems S ks js)
  | [], js => by simp
  | es :: is, js => by
    simp only [alikeItems_cons_iff, alikeEntries_comp_iff es, alikeItems_comp_iff is]
    grind [alikeItems_cons_iff]

end

end Alike

/-! ## Steps between values -/

def IsWithin (steps : Nat) (v w : Value) : Prop :=
  v.Alike (fun x y => x.stepsBetween y ≤ steps) w

theorem isNear_iff_isWithin {v w : Value} : v.isNear w = true ↔ v.IsWithin 2 w := by
  simp only [isNear_iff_alike, Binary64.isNear_iff]
  exact Iff.rfl

theorem isWithin_add_iff (m n : Nat) (v w : Value) :
    v.IsWithin (m + n) w ↔ ∃ u, v.IsWithin m u ∧ u.IsWithin n w := by
  unfold IsWithin
  rw [← alike_comp_iff]
  simp only [Binary64.stepsBetween_le_add_iff]
  exact Iff.rfl

/-- Steps add up, so that values which are near to the same one may be twice as far apart. -/
theorem isNear_through_iff (a c : Value) :
    (∃ b, a.isNear b = true ∧ b.isNear c = true ∧ a.isNear c = false) ↔
      a.IsWithin 4 c ∧ ¬ a.IsWithin 2 c := by
  rw [isWithin_add_iff 2 2, ← Bool.not_eq_true]
  simp only [isNear_iff_isWithin, ← and_assoc, exists_and_right]

/-- The first and the last of three doubles, each two steps behind the one before it. -/
theorem isNear_not_trans :
    let a := number ⟨0x3ff0000000000000⟩
    let b := number ⟨0x3ff0000000000002⟩
    let c := number ⟨0x3ff0000000000004⟩
    a.isNear b = true ∧ b.isNear c = true ∧ a.isNear c = false := by
  decide

end Value

end Mustache
