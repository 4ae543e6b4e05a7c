import Mustache.Text

namespace Mustache

/-- A double is its bits, so that all that are no numbers stay apart. -/
structure Binary64 where
  bits : UInt64
deriving DecidableEq

namespace Binary64

def isNegative (x : Binary64) : Bool := Nat.pow 2 63 ≤ x.bits.toNat

def magnitude (x : Binary64) : Nat := x.bits.toNat % Nat.pow 2 63

/-- The magnitude of infinity. Greater magnitudes are not numbers. -/
def infinityMagnitude : Nat := 2047 * Nat.pow 2 52

def isNaN (x : Binary64) : Bool := infinityMagnitude < x.magnitude

def isFinite (x : Binary64) : Bool := x.magnitude < infinityMagnitude

theorem isNaN_of_isFinite {x : Binary64} (h : x.isFinite = true) : x.isNaN = false := by
  simp only [isFinite, isNaN, decide_eq_true_eq, decide_eq_false_iff_not] at h ⊢
  exact Nat.lt_asymm h

/-- The absolute value of a finite double is `significand * 2 ^ exponent`. -/
def significand (x : Binary64) : Nat :=
  if x.magnitude < Nat.pow 2 52 then x.magnitude
  else x.magnitude % Nat.pow 2 52 + Nat.pow 2 52

def exponent (x : Binary64) : Int := (max 1 (x.magnitude / Nat.pow 2 52) : Nat) - 1075

def ofMagnitude (negative : Bool) (magnitude : Nat) : Binary64 :=
  ⟨UInt64.ofNat (magnitude + if negative then Nat.pow 2 63 else 0)⟩

def zero (negative : Bool) : Binary64 := ofMagnitude negative 0

def infinity (negative : Bool) : Binary64 := ofMagnitude negative infinityMagnitude

/-- Equality of numbers: the two zeros are equal, and no other number but itself is equal to a
number; what is not a number is equal to nothing. -/
def numEq (x y : Binary64) : Bool :=
  !x.isNaN && !y.isNaN && (x.bits = y.bits || x.magnitude = 0 && y.magnitude = 0)

/-- The place of a double when all are put in the order of the numbers they stand for. -/
def rank (x : Binary64) : UInt64 :=
  if x.isNegative then ~~~x.bits else x.bits ^^^ 0x8000000000000000

/-- How many steps of the order lie between two doubles, the way around the ends counting too. -/
def stepsBetween (x y : Binary64) : Nat := min (x.rank - y.rank).toNat (y.rank - x.rank).toNat

def isNear (x y : Binary64) : Bool := x.numEq y || x.stepsBetween y ≤ 2

end Binary64

/-- The integer nearest to `num / den`, the even one of two. -/
def roundQuotient (num den : Nat) : Nat :=
  let q := num / den
  let r := num % den
  if 2 * r < den ∨ 2 * r = den ∧ q % 2 = 0 then q else q + 1

theorem roundQuotient_le (num den : Nat) : roundQuotient num den ≤ num / den + 1 := by
  rw [roundQuotient]
  split
  · exact Nat.le_succ _
  · exact Nat.le_refl _

namespace Binary64

/-- `num / den` in units of `2 ^ e`, as a quotient of integers. -/
def inUnits (num den : Nat) (e : Int) : Nat × Nat :=
  (num * Nat.pow 2 (-e).toNat, den * Nat.pow 2 e.toNat)

/-- The greatest `k` with `2 ^ k ≤ num / den`. -/
def log2Quotient (num den : Nat) : Int :=
  let k : Int := (num.log2 : Int) - den.log2
  let (n, d) := inUnits num den k
  if n < d then k - 1 else k

/-- The double nearest to `num / den`. -/
def ofQuotient (negative : Bool) (num den : Nat) : Binary64 :=
  if num = 0 then zero negative
  else
    let e := max (log2Quotient num den - 52) (-1074)
    let (n, d) := inUnits num den e
    let magnitude := (e + 1074).toNat * Nat.pow 2 52 + roundQuotient n d
    ofMagnitude negative (min magnitude infinityMagnitude)

def ofInt (n : Int) : Binary64 := ofQuotient (n < 0) n.natAbs 1

/-- The double nearest to `digits * 10 ^ exponent`. Powers of ten beyond the range of doubles are
not computed. -/
def ofDecimal (negative : Bool) (digits : Nat) (exponent : Int) : Binary64 :=
  let top : Int := (Nat.toDigits 10 digits).length + exponent
  if digits = 0 ∨ top < -330 then zero negative
  else if 310 < top then infinity negative
  else ofQuotient negative (digits * Nat.pow 10 exponent.toNat) (Nat.pow 10 (-exponent).toNat)

theorem magnitude_ofMagnitude (negative : Bool) {m : Nat} (h : m < Nat.pow 2 63) :
    (ofMagnitude negative m).magnitude = m := by
  have hpow : Nat.pow 2 63 = 9223372036854775808 := by decide
  rw [magnitude, ofMagnitude, UInt64.toNat_ofNat']
  rw [hpow] at h ⊢
  cases negative <;> simp <;> omega

theorem isFinite_ofMagnitude (negative : Bool) {m : Nat} (h : m < infinityMagnitude) :
    (ofMagnitude negative m).isFinite = true := by
  have hlarge : infinityMagnitude < Nat.pow 2 63 := by decide
  rw [isFinite, magnitude_ofMagnitude negative (Nat.lt_trans h hlarge)]
  exact decide_eq_true h

theorem log2Quotient_one {num : Nat} (h : num ≠ 0) : log2Quotient num 1 = num.log2 := by
  have hone : Nat.log2 1 = 0 := by decide
  have hunits : (-(num.log2 : Int)).toNat = 0 := by omega
  rw [log2Quotient, inUnits, hone]
  simp only [Int.natCast_zero, Int.sub_zero]
  rw [hunits, Int.toNat_natCast, if_neg]
  simpa using Nat.log2_self_le h

/-- A number in units of a double's last place has at most 53 binary digits. -/
theorem roundQuotient_inUnits_le {num k : Nat} (h : num < Nat.pow 2 (k + 1)) :
    roundQuotient (inUnits num 1 (k - 52)).1 (inUnits num 1 (k - 52)).2 ≤ Nat.pow 2 53 := by
  have hlt : (inUnits num 1 (k - 52)).1 / (inUnits num 1 (k - 52)).2 < Nat.pow 2 53 := by
    have hpos : 0 < 1 * Nat.pow 2 ((k : Int) - 52).toNat := by
      rw [Nat.one_mul]
      exact Nat.pow_pos (by decide)
    have hsum : k + 1 + (-((k : Int) - 52)).toNat = 53 + ((k : Int) - 52).toNat := by omega
    rw [inUnits, Nat.div_lt_iff_lt_mul hpos]
    calc num * Nat.pow 2 (-((k : Int) - 52)).toNat
        < Nat.pow 2 (k + 1) * Nat.pow 2 (-((k : Int) - 52)).toNat :=
          Nat.mul_lt_mul_of_pos_right h (Nat.pow_pos (by decide))
      _ = Nat.pow 2 (k + 1 + (-((k : Int) - 52)).toNat) := (Nat.pow_add 2 _ _).symm
      _ = Nat.pow 2 (53 + ((k : Int) - 52).toNat) := by rw [hsum]
      _ = Nat.pow 2 53 * (1 * Nat.pow 2 ((k : Int) - 52).toNat) := by
          rw [Nat.one_mul]
          exact Nat.pow_add 2 _ _
  exact Nat.le_trans (roundQuotient_le _ _) hlt

theorem isFinite_ofInt {n : Int} (h : n.natAbs < Nat.pow 2 64) : (ofInt n).isFinite = true := by
  rw [ofInt, ofQuotient]
  split
  · exact isFinite_ofMagnitude _ (by decide)
  next hne =>
    have hlog : n.natAbs.log2 < 64 := (Nat.log2_lt hne).2 h
    have hround := roundQuotient_inUnits_le (k := n.natAbs.log2) Nat.lt_log2_self
    have hmax : max ((n.natAbs.log2 : Int) - 52) (-1074) = n.natAbs.log2 - 52 := by omega
    rw [log2Quotient_one hne, hmax]
    refine isFinite_ofMagnitude _ (Nat.lt_of_le_of_lt (Nat.min_le_left _ _) ?_)
    have hexponent : ((n.natAbs.log2 : Int) - 52 + 1074).toNat ≤ 1085 := by omega
    have hbits : 1085 * Nat.pow 2 52 + Nat.pow 2 53 < infinityMagnitude := by decide
    exact Nat.lt_of_le_of_lt (Nat.add_le_add (Nat.mul_le_mul_right _ hexponent) hround) hbits

def hundredths (x : Binary64) : Nat :=
  roundQuotient (100 * x.significand * Nat.pow 2 x.exponent.toNat) (Nat.pow 2 (-x.exponent).toNat)

def placesText (hundredths : Nat) : Text :=
  let whole := Text.ofNat (hundredths / 100)
  let tenth := Nat.digitChar (hundredths / 10 % 10)
  let hundredth := Nat.digitChar (hundredths % 10)
  if hundredths % 100 = 0 then whole
  else if hundredths % 10 = 0 then whole ++ ['.', tenth]
  else whole ++ ['.', tenth, hundredth]

/-- The sign is that of the double, also where the number rounds to zero. -/
def toText (x : Binary64) : Text :=
  if x.isNaN then ['N', 'a', 'N']
  else
    let sign : Text := if x.isNegative then ['-'] else []
    if x.isFinite then sign ++ placesText x.hundredths else sign ++ ['i', 'n', 'f']

structure Decimal where
  digits : Nat
  exponent : Int
deriving DecidableEq

/-- A positive finite double as a quotient, with the distances to the ends of the interval of
numbers that round to it, all in one unit, and whether these ends belong to it. -/
structure Neighbourhood where
  value : Nat
  below : Nat
  above : Nat
  unit : Nat
  closed : Bool

def neighbourhood (x : Binary64) : Neighbourhood :=
  let m := x.significand
  let e := x.exponent - 2
  let scale := Nat.pow 2 e.toNat
  { value := 4 * m * scale
    below := (if m = Nat.pow 2 52 ∧ x.exponent ≠ -1074 then 1 else 2) * scale
    above := 2 * scale
    unit := Nat.pow 2 (-e).toNat
    closed := m % 2 = 0 }

def Neighbourhood.contains (n : Neighbourhood) (d : Decimal) : Bool :=
  let p := d.digits * Nat.pow 10 d.exponent.toNat * n.unit
  let scale := Nat.pow 10 (-d.exponent).toNat
  let low := (n.value - n.below) * scale
  let high := (n.value + n.above) * scale
  if n.closed then low ≤ p && p ≤ high else low < p && p < high

/-- The two multiples of `10 ^ exponent` around the double, and whether the first is not the
farther one. -/
def Neighbourhood.around (n : Neighbourhood) (exponent : Int) : Decimal × Decimal × Bool :=
  let num := n.value * Nat.pow 10 (-exponent).toNat
  let den := n.unit * Nat.pow 10 exponent.toNat
  let q := num / den
  let r := num % den
  (⟨q, exponent⟩, ⟨q + 1, exponent⟩, 2 * r < den || 2 * r = den && q % 2 = 0)

def Neighbourhood.best? (n : Neighbourhood) (exponent : Int) : Option Decimal :=
  let (lower, upper, lowerFirst) := n.around exponent
  match n.contains lower, n.contains upper with
  | true, true => some (if lowerFirst then lower else upper)
  | true, false => some lower
  | false, true => some upper
  | false, false => none

/-- The first of the powers of ten, from the given one down, of which a multiple rounds to the
double. -/
def Neighbourhood.search (n : Neighbourhood) (exponent : Int) : Nat → Decimal
  | 0 => (n.around exponent).1
  | k + 1 => (n.best? exponent).getD (search n (exponent - 1) k)

def Decimal.reduce (d : Decimal) : Decimal :=
  go d.digits d.exponent (Nat.toDigits 10 d.digits).length
where
  go (digits : Nat) (exponent : Int) : Nat → Decimal
    | 0 => ⟨digits, exponent⟩
    | k + 1 => if digits % 10 = 0 then go (digits / 10) (exponent + 1) k else ⟨digits, exponent⟩

/-- The shortest decimal of the absolute value of a finite double. No double needs more than
seventeen digits, and the search begins above its first digit. -/
def shortest (x : Binary64) : Decimal :=
  if x.magnitude = 0 then ⟨0, 0⟩
  else
    let top : Int := ((x.significand.log2 : Int) + x.exponent + 1) * 30103 / 100000 + 1
    (x.neighbourhood.search top 20).reduce

/-- The digits of a decimal with a point between them or a power of ten behind them. The point is
used for numbers from `1e-5` to below `1e16`. -/
def Decimal.toText (d : Decimal) : Text :=
  let digits := Text.ofNat d.digits
  let count : Int := digits.length
  let point := d.exponent + count
  if d.digits = 0 then ['0', '.', '0']
  else if 0 ≤ d.exponent ∧ point ≤ 16 then
    digits ++ List.replicate d.exponent.toNat '0' ++ ['.', '0']
  else if 0 < point ∧ point ≤ 16 then
    digits.take point.toNat ++ ['.'] ++ digits.drop point.toNat
  else if -5 < point ∧ point ≤ 0 then
    ['0', '.'] ++ List.replicate (-point).toNat '0' ++ digits
  else
    let mantissa := if digits.length = 1 then digits else digits.take 1 ++ ['.'] ++ digits.drop 1
    let sign : Text := if point ≤ 0 then ['-'] else ['+']
    mantissa ++ ['e'] ++ sign ++ Text.ofNat (point - 1).natAbs

def shortestText (x : Binary64) : Text :=
  (if x.isNegative then ['-'] else []) ++ x.shortest.toText

end Binary64

end Mustache
