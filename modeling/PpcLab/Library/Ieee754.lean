import Mathlib.Algebra.Ring.Int.Defs
import Mathlib.Algebra.Ring.Nat
import Mathlib.Data.Nat.Sqrt
import Mathlib.Tactic.Linarith
import Mathlib.Tactic.Ring

/-!
# Binary floating point

Software floating point over the bit patterns of a binary interchange format,
rounding to nearest with ties to even.  Every operation computes its exact
result and rounds once.  Which NaN an operation returns is left to the caller:
the pattern is passed in and handed back unchanged.

A whole number below `2 ^ 53` is a double.  The quotient of two such numbers
is rounded to a significand of 53 bits, so it lies within half a unit in the
last place of the exact one; quotients that are further apart than that are
ordered as the exact ones.
-/

namespace PpcLab.Ieee754

structure Format where
  exponentBits : Nat
  fractionBits : Nat

def binary32 : Format := ⟨8, 23⟩
def binary64 : Format := ⟨11, 52⟩

/-- The value of a bit pattern.  A finite value is
`± significand * 2 ^ exponent`. -/
inductive Datum where
  | nan
  | infinity (negative : Bool)
  | finite (negative : Bool) (significand : Nat) (exponent : Int)

namespace Format

/-- The exponent of the least significant bit of a subnormal number. -/
def leastExponent (format : Format) : Int :=
  2 - 2 ^ (format.exponentBits - 1) - format.fractionBits

def signBit (format : Format) (negative : Bool) : Nat :=
  if negative then 2 ^ (format.exponentBits + format.fractionBits) else 0

def infinityBits (format : Format) : Nat :=
  (2 ^ format.exponentBits - 1) * 2 ^ format.fractionBits

def magnitude (format : Format) (bits : Nat) : Nat :=
  bits % 2 ^ (format.exponentBits + format.fractionBits)

def isNegative (format : Format) (bits : Nat) : Bool :=
  bits.testBit (format.exponentBits + format.fractionBits)

def isNaN (format : Format) (bits : Nat) : Bool :=
  decide (format.infinityBits < format.magnitude bits)

end Format

def decode (format : Format) (bits : Nat) : Datum :=
  let fraction := bits % 2 ^ format.fractionBits
  let exponent := bits / 2 ^ format.fractionBits % 2 ^ format.exponentBits
  let negative := format.isNegative bits
  if exponent = 2 ^ format.exponentBits - 1 then
    if fraction = 0 then .infinity negative else .nan
  else if exponent = 0 then
    .finite negative fraction format.leastExponent
  else
    .finite negative (2 ^ format.fractionBits + fraction)
      (format.leastExponent + (exponent - 1))

/-- Round the magnitude `significand * 2 ^ exponent`, plus something below one
unit in its last place when `inexact`, to nearest even. -/
def round (format : Format) (negative : Bool) (significand : Nat)
    (exponent : Int) (inexact : Bool) : Nat :=
  if significand = 0 then format.signBit negative
  else
    let target := max (exponent + significand.log2 - format.fractionBits)
      format.leastExponent
    let rounded :=
      if target ≤ exponent then
        significand * 2 ^ (exponent - target).toNat
      else
        let shift := (target - exponent).toNat
        let kept := significand / 2 ^ shift
        let rest := significand % 2 ^ shift
        let half := 2 ^ (shift - 1)
        if half < rest ∨ (rest = half ∧ (inexact ∨ kept % 2 = 1)) then
          kept + 1
        else kept
    let bits :=
      (target - format.leastExponent).toNat * 2 ^ format.fractionBits + rounded
    format.signBit negative + min bits format.infinityBits

def signed (negative : Bool) (magnitude : Nat) : Int :=
  if negative then -magnitude else magnitude

/-- The rounded sum of two finite values.  An exact zero is negative only when
both terms are. -/
def addFinite (format : Format) (negative : Bool) (significand : Nat)
    (exponent : Int) (negative' : Bool) (significand' : Nat)
    (exponent' : Int) : Nat :=
  let common := min exponent exponent'
  let sum :=
    signed negative (significand * 2 ^ (exponent - common).toNat) +
      signed negative' (significand' * 2 ^ (exponent' - common).toNat)
  if sum = 0 then format.signBit (negative && negative')
  else round format (decide (sum < 0)) sum.natAbs common false

def neg (format : Format) (bits : Nat) : Nat :=
  format.signBit (!format.isNegative bits) + format.magnitude bits

def abs (format : Format) (bits : Nat) : Nat :=
  format.magnitude bits

def add (format : Format) (nan left right : Nat) : Nat :=
  match decode format left, decode format right with
  | .nan, _ => nan
  | _, .nan => nan
  | .infinity sign, .infinity sign' => if sign = sign' then left else nan
  | .infinity _, .finite _ _ _ => left
  | .finite _ _ _, .infinity _ => right
  | .finite sign significand exponent, .finite sign' significand' exponent' =>
      addFinite format sign significand exponent sign' significand' exponent'

def sub (format : Format) (nan left right : Nat) : Nat :=
  if format.isNaN right then nan
  else add format nan left (neg format right)

def mul (format : Format) (nan left right : Nat) : Nat :=
  match decode format left, decode format right with
  | .nan, _ => nan
  | _, .nan => nan
  | .infinity sign, .infinity sign' =>
      format.signBit (xor sign sign') + format.infinityBits
  | .infinity sign, .finite sign' significand _ =>
      if significand = 0 then nan
      else format.signBit (xor sign sign') + format.infinityBits
  | .finite sign significand _, .infinity sign' =>
      if significand = 0 then nan
      else format.signBit (xor sign sign') + format.infinityBits
  | .finite sign significand exponent, .finite sign' significand' exponent' =>
      round format (xor sign sign') (significand * significand')
        (exponent + exponent') false

def div (format : Format) (nan left right : Nat) : Nat :=
  match decode format left, decode format right with
  | .nan, _ => nan
  | _, .nan => nan
  | .infinity _, .infinity _ => nan
  | .infinity sign, .finite sign' _ _ =>
      format.signBit (xor sign sign') + format.infinityBits
  | .finite sign _ _, .infinity sign' => format.signBit (xor sign sign')
  | .finite sign significand exponent, .finite sign' significand' exponent' =>
      if significand' = 0 then
        if significand = 0 then nan
        else format.signBit (xor sign sign') + format.infinityBits
      else
        let scale := format.fractionBits + 3 + significand'.log2
        let dividend := significand * 2 ^ scale
        round format (xor sign sign') (dividend / significand')
          (exponent - exponent' - scale)
          (decide (dividend % significand' ≠ 0))

def sqrt (format : Format) (nan value : Nat) : Nat :=
  match decode format value with
  | .nan => nan
  | .infinity negative => if negative then nan else value
  | .finite negative significand exponent =>
      if significand = 0 then value
      else if negative then nan
      else
        let scale := 2 * (format.fractionBits + 3) + (exponent % 2).toNat
        let radicand := significand * 2 ^ scale
        let root := radicand.sqrt
        round format false root ((exponent - scale) / 2)
          (decide (root * root ≠ radicand))

/-- `left * right + addend` with one rounding. -/
def fma (format : Format) (nan left right addend : Nat) : Nat :=
  match decode format left, decode format right, decode format addend with
  | .finite sign significand exponent, .finite sign' significand' exponent',
      .finite sign'' significand'' exponent'' =>
      addFinite format (xor sign sign') (significand * significand')
        (exponent + exponent') sign'' significand'' exponent''
  | .finite _ _ _, .finite _ _ _, .infinity _ => addend
  | _, _, _ =>
      let product := mul format nan left right
      if format.isNaN product then nan else add format nan product addend

inductive Rounding where
  | trunc
  | ceil
  | floor
  | nearbyint

/-- Round to an integral value of the same format. -/
def roundIntegral (format : Format) (rounding : Rounding)
    (nan value : Nat) : Nat :=
  match decode format value with
  | .nan => nan
  | .infinity _ => value
  | .finite negative significand exponent =>
      if 0 ≤ exponent then value
      else
        let scale := 2 ^ (-exponent).toNat
        let kept := significand / scale
        let rest := significand % scale
        let up :=
          match rounding with
          | .trunc => false
          | .ceil => !negative && decide (rest ≠ 0)
          | .floor => negative && decide (rest ≠ 0)
          | .nearbyint =>
              decide (scale < 2 * rest ∨ (2 * rest = scale ∧ kept % 2 = 1))
        round format negative (if up then kept + 1 else kept) 0 false

/-- Change of format. -/
def convert (source target : Format) (nan value : Nat) : Nat :=
  match decode source value with
  | .nan => nan
  | .infinity negative => target.signBit negative + target.infinityBits
  | .finite negative significand exponent =>
      round target negative significand exponent false

def ofInt (format : Format) (value : Int) : Nat :=
  round format (decide (value < 0)) value.natAbs 0 false

/-- The integer part of a finite value. -/
def toInt (format : Format) (value : Nat) : Int :=
  match decode format value with
  | .finite negative significand exponent =>
      signed negative
        (significand * 2 ^ exponent.toNat / 2 ^ (-exponent).toNat)
  | _ => 0

/-- Patterns that are not NaN compare as sign and magnitude, so the two zeros
are equal. -/
def orderKey (format : Format) (bits : Nat) : Int :=
  signed (format.isNegative bits) (format.magnitude bits)

def lt (format : Format) (left right : Nat) : Bool :=
  !format.isNaN left && !format.isNaN right &&
    decide (orderKey format left < orderKey format right)

def eq (format : Format) (left right : Nat) : Bool :=
  !format.isNaN left && !format.isNaN right &&
    decide (orderKey format left = orderKey format right)

/-- The integer that `round` keeps of a quotient after a shift. -/
def nearest (dividend divisor shift : Nat) : Nat :=
  let kept := dividend / divisor / 2 ^ shift
  let rest := dividend / divisor % 2 ^ shift
  if 2 ^ (shift - 1) < rest ∨
      (rest = 2 ^ (shift - 1) ∧
        (decide (dividend % divisor ≠ 0) = true ∨ kept % 2 = 1)) then
    kept + 1
  else kept

theorem nearest_le (dividend divisor shift : Nat) :
    nearest dividend divisor shift ≤ dividend / divisor / 2 ^ shift + 1 := by
  unfold nearest
  dsimp only
  split
  · exact Nat.le_refl _
  · exact Nat.le_succ _

/-- It is within half a unit of the exact quotient. -/
theorem nearest_bracket {dividend divisor shift : Nat} (positive : 0 < divisor)
    (shifted : 0 < shift) :
    2 * (nearest dividend divisor shift * (2 ^ shift * divisor)) ≤
        2 * dividend + 2 ^ shift * divisor ∧
      2 * dividend ≤
        2 * (nearest dividend divisor shift * (2 ^ shift * divisor)) +
          2 ^ shift * divisor := by
  obtain ⟨below, rfl⟩ := Nat.exists_eq_succ_of_ne_zero (Nat.ne_of_gt shifted)
  have doubled : 2 ^ (below + 1) = 2 * 2 ^ below := by
    rw [Nat.pow_succ, Nat.mul_comm]
  have whole := Nat.div_add_mod dividend divisor
  have split := Nat.div_add_mod (dividend / divisor) (2 ^ (below + 1))
  have remainder := Nat.mod_lt dividend positive
  have small := Nat.mod_lt (dividend / divisor)
    (Nat.two_pow_pos (below + 1))
  unfold nearest
  generalize dividend % divisor = left at *
  generalize dividend / divisor % 2 ^ (below + 1) = rest at *
  generalize dividend / divisor / 2 ^ (below + 1) = kept at *
  generalize dividend / divisor = quotient at *
  rw [Nat.succ_eq_add_one, Nat.add_sub_cancel]
  rw [doubled] at *
  generalize 2 ^ below = half at *
  have parts : dividend =
      2 * half * divisor * kept + divisor * rest + left := by
    rw [← whole, ← split]
    ring
  have upper : divisor * rest + divisor ≤ 2 * half * divisor := by
    calc divisor * rest + divisor = divisor * (rest + 1) := by ring
      _ ≤ divisor * (2 * half) := Nat.mul_le_mul_left _ small
      _ = 2 * half * divisor := by ring
  by_cases up : half < rest ∨
      (rest = half ∧ (decide (left ≠ 0) = true ∨ kept % 2 = 1))
  · have enough : half ≤ rest := by
      rcases up with above | ⟨equal, _⟩
      · exact Nat.le_of_lt above
      · exact Nat.le_of_eq equal.symm
    have lower := Nat.mul_le_mul_left divisor enough
    rw [if_pos up, parts]
    constructor
    · nlinarith
    · nlinarith
  · rw [if_neg up, parts]
    have lower : 2 * (divisor * rest) + 2 * left ≤ 2 * half * divisor := by
      by_cases equal : rest = half
      · have exact_ : left = 0 := by
          by_contra inexact
          exact up (.inr ⟨equal, .inl (by simpa using inexact)⟩)
        rw [exact_, equal]
        apply Nat.le_of_eq
        ring
      · have strict : rest + 1 ≤ half := by
          have := mt Or.inl up
          omega
        have scaled := Nat.mul_le_mul_left divisor strict
        nlinarith
    constructor
    · nlinarith
    · nlinarith

private theorem leastExponent_binary64 : binary64.leastExponent = -1074 := rfl

private theorem fractionBits_binary64 : binary64.fractionBits = 52 := rfl

private theorem exponentBits_binary64 : binary64.exponentBits = 11 := rfl

private theorem infinityBits_binary64 :
    binary64.infinityBits = 2047 * 2 ^ 52 := rfl

/-- A number in 53 bits, shifted up to fill them. -/
def normalised (value : Nat) : Nat :=
  value * 2 ^ (52 - value.log2)

private theorem log2_le {value : Nat} (positive : 0 < value)
    (small : value < 2 ^ 53) : value.log2 ≤ 52 :=
  Nat.le_of_lt_succ ((Nat.log2_lt (Nat.ne_of_gt positive)).mpr small)

theorem normalised_bounds {value : Nat} (positive : 0 < value)
    (small : value < 2 ^ 53) :
    2 ^ 52 ≤ normalised value ∧ normalised value < 2 ^ 53 := by
  have bound := log2_le positive small
  have below := Nat.log2_self_le (Nat.ne_of_gt positive)
  have above : value < 2 ^ (value.log2 + 1) := Nat.lt_log2_self
  unfold normalised
  constructor
  · calc 2 ^ 52 = 2 ^ value.log2 * 2 ^ (52 - value.log2) := by
          rw [← Nat.pow_add, Nat.add_sub_cancel' bound]
      _ ≤ value * 2 ^ (52 - value.log2) := Nat.mul_le_mul_right _ below
  · calc value * 2 ^ (52 - value.log2) <
          2 ^ (value.log2 + 1) * 2 ^ (52 - value.log2) :=
          Nat.mul_lt_mul_of_pos_right above (Nat.two_pow_pos _)
      _ = 2 ^ 53 := by
          rw [← Nat.pow_add]
          congr 1
          omega

theorem ofInt_eq {value : Nat} (positive : 0 < value)
    (small : value < 2 ^ 53) :
    ofInt binary64 value =
      (value.log2 + 1022) * 2 ^ 52 + normalised value := by
  have bound := log2_le positive small
  have size := normalised_bounds positive small
  have target : max ((0 : Int) + value.log2 - (52 : Nat)) (-1074) =
      (value.log2 : Int) - 52 := by
    omega
  have up : ((0 : Int) - ((value.log2 : Int) - 52)).toNat =
      52 - value.log2 := by
    omega
  have field : ((value.log2 : Int) - 52 - -1074).toNat =
      value.log2 + 1022 := by
    omega
  have finite : (value.log2 + 1022) * 2 ^ 52 + normalised value ≤
      2047 * 2 ^ 52 := by
    omega
  rw [ofInt, Int.natAbs_natCast, round, if_neg (Nat.ne_of_gt positive)]
  simp only [fractionBits_binary64, leastExponent_binary64, target,
    infinityBits_binary64, field]
  rw [if_pos (by omega), up]
  change _ + min ((value.log2 + 1022) * 2 ^ 52 + normalised value) _ = _
  rw [Nat.min_eq_left finite]
  simp [Format.signBit]

private theorem isNegative_of_lt {bits : Nat} (small : bits < 2 ^ 63) :
    binary64.isNegative bits = false :=
  Nat.testBit_lt_two_pow small

theorem orderKey_of_lt {bits : Nat} (small : bits < 2 ^ 63) :
    orderKey binary64 bits = bits := by
  have same : binary64.magnitude bits = bits := Nat.mod_eq_of_lt small
  rw [orderKey, isNegative_of_lt small, same]
  rfl

theorem decode_ofInt {value : Nat} (positive : 0 < value)
    (small : value < 2 ^ 53) :
    decode binary64 (ofInt binary64 value) =
      .finite false (normalised value) ((value.log2 : Int) - 52) := by
  have bound := log2_le positive small
  have size := normalised_bounds positive small
  rw [ofInt_eq positive small]
  generalize bitsEq : (value.log2 + 1022) * 2 ^ 52 + normalised value = bits
  have fraction : bits % 2 ^ 52 = normalised value - 2 ^ 52 := by
    omega
  have field : bits / 2 ^ 52 % 2 ^ 11 = value.log2 + 1023 := by
    omega
  have whole : 2 ^ 52 + (normalised value - 2 ^ 52) = normalised value :=
    Nat.add_sub_cancel' size.1
  have place : (-1074 : Int) + (((value.log2 + 1023 : Nat) : Int) - 1) =
      (value.log2 : Int) - 52 := by
    omega
  rw [decode]
  simp only [fractionBits_binary64, exponentBits_binary64, fraction, field,
    leastExponent_binary64]
  rw [isNegative_of_lt (by omega), if_neg (by omega), if_neg (by omega), whole,
    place]

/-- The double quotient of two whole numbers, as a place in the order of
doubles. -/
def quotientKey (dividend divisor : Nat) : Int :=
  orderKey binary64 (div binary64 binary64.infinityBits
    (ofInt binary64 dividend) (ofInt binary64 divisor))

private theorem log2_normalised {value : Nat} (positive : 0 < value)
    (small : value < 2 ^ 53) : (normalised value).log2 = 52 := by
  obtain ⟨lower, upper⟩ := normalised_bounds positive small
  have nonzero : normalised value ≠ 0 := by omega
  have below := (Nat.log2_lt nonzero).mpr upper
  have above := (Nat.le_log2 nonzero).mpr lower
  omega

/-- The quotient of two numbers of 53 bits has 107 or 108 bits. -/
private theorem scaled_bounds {first second : Nat}
    (firstBounds : 2 ^ 52 ≤ first ∧ first < 2 ^ 53)
    (secondBounds : 2 ^ 52 ≤ second ∧ second < 2 ^ 53) :
    2 ^ 106 ≤ first * 2 ^ 107 / second ∧
      first * 2 ^ 107 / second < 2 ^ 108 := by
  constructor
  · rw [Nat.le_div_iff_mul_le (by omega)]
    omega
  · rw [Nat.div_lt_iff_lt_mul (by omega)]
    omega

/-- Where the rounded quotient of two whole numbers lies: `shift` is the
distance of its last place from the units, `kept` its significand. -/
structure QuotientBracket (dividend divisor shift kept : Nat) : Prop where
  low : 2 ^ 52 * divisor ≤ dividend * 2 ^ shift
  high : dividend * 2 ^ shift < 2 ^ 53 * divisor
  below : 2 * (kept * divisor) ≤ 2 * (dividend * 2 ^ shift) + divisor
  above : 2 * (dividend * 2 ^ shift) ≤ 2 * (kept * divisor) + divisor
  small : shift ≤ 106
  key : quotientKey dividend divisor = (1074 - shift) * 2 ^ 52 + kept

/-- Rounding a quotient of 107 or 108 bits. -/
private theorem round_quotient {dividend divisor size : Nat} {exponent : Int}
    (width : size = (dividend / divisor).log2)
    (atLeast : 106 ≤ size) (atMost : size ≤ 107)
    (low : -1100 ≤ exponent) (high : exponent ≤ -55) :
    round binary64 false (dividend / divisor) exponent
        (decide (dividend % divisor ≠ 0)) =
      (exponent + size + 1022).toNat * 2 ^ 52 +
        nearest dividend divisor (size - 52) := by
  have nonzero : dividend / divisor ≠ 0 := by
    intro zero
    rw [zero] at width
    simp at width
    omega
  have upper : dividend / divisor < 2 ^ (size + 1) := by
    rw [width]
    exact Nat.lt_log2_self
  have target : max (exponent + (dividend / divisor).log2 - (52 : Nat))
      (-1074) = exponent + size - 52 := by
    rw [← width]
    omega
  have moved : (exponent + size - 52 - exponent).toNat = size - 52 := by
    omega
  have field : (exponent + size - 52 - -1074).toNat =
      (exponent + size + 1022).toNat := by
    omega
  have keptSmall : nearest dividend divisor (size - 52) ≤ 2 ^ 53 := by
    have split : 2 ^ (size + 1) = 2 ^ 53 * 2 ^ (size - 52) := by
      rw [← Nat.pow_add]
      congr 1
      omega
    have kept : dividend / divisor / 2 ^ (size - 52) < 2 ^ 53 := by
      rw [Nat.div_lt_iff_lt_mul (Nat.two_pow_pos _), ← split]
      exact upper
    exact (nearest_le _ _ _).trans kept
  rw [round, if_neg nonzero]
  simp only [fractionBits_binary64, leastExponent_binary64, target,
    infinityBits_binary64, field]
  rw [if_neg (by omega), moved]
  change _ + min (_ + nearest dividend divisor (size - 52)) _ = _
  rw [Nat.min_eq_left (by omega)]
  simp [Format.signBit]

private theorem kept_le {dividend divisor shift kept : Nat}
    (high : dividend * 2 ^ shift < 2 ^ 53 * divisor)
    (below : 2 * (kept * divisor) ≤ 2 * (dividend * 2 ^ shift) + divisor) :
    kept ≤ 2 ^ 53 := by
  by_contra large
  have bound : (2 ^ 53 + 1) * divisor ≤ kept * divisor :=
    Nat.mul_le_mul_right _ (by omega)
  nlinarith

/-- A quotient of small whole numbers is rounded to the nearest double. -/
theorem quotient_bracket {dividend divisor : Nat}
    (dividendPositive : 0 < dividend) (dividendSmall : dividend < 2 ^ 53)
    (divisorPositive : 0 < divisor) (divisorSmall : divisor < 2 ^ 53) :
    ∃ shift kept, QuotientBracket dividend divisor shift kept := by
  have firstBounds := normalised_bounds dividendPositive dividendSmall
  have secondBounds := normalised_bounds divisorPositive divisorSmall
  have firstLog := log2_le dividendPositive dividendSmall
  have secondLog := log2_le divisorPositive divisorSmall
  obtain ⟨lower, upper⟩ := scaled_bounds firstBounds secondBounds
  generalize sizeEq :
    (normalised dividend * 2 ^ 107 / normalised divisor).log2 = size
  have nonzero : normalised dividend * 2 ^ 107 / normalised divisor ≠ 0 := by
    intro zero
    rw [zero] at lower
    omega
  have atLeast : 106 ≤ size := by
    rw [← sizeEq]
    exact (Nat.le_log2 nonzero).mpr lower
  have atMost : size ≤ 107 := by
    rw [← sizeEq]
    exact Nat.le_of_lt_succ ((Nat.log2_lt nonzero).mpr upper)
  have rounded : div binary64 binary64.infinityBits (ofInt binary64 dividend)
      (ofInt binary64 divisor) =
      (dividend.log2 + size + 915 - divisor.log2) * 2 ^ 52 +
        nearest (normalised dividend * 2 ^ 107) (normalised divisor)
          (size - 52) := by
    rw [div, decode_ofInt dividendPositive dividendSmall,
      decode_ofInt divisorPositive divisorSmall]
    simp only [fractionBits_binary64, log2_normalised divisorPositive
      divisorSmall, Nat.reduceAdd, Bool.false_xor]
    rw [if_neg (by omega), round_quotient sizeEq.symm atLeast atMost
      (by omega) (by omega)]
    congr 2
    omega
  have scaledDivisor : 2 ^ (size - 52) * normalised divisor =
      divisor * 2 ^ (size - divisor.log2) := by
    have exponents : size - divisor.log2 =
        size - 52 + (52 - divisor.log2) := by
      omega
    rw [normalised, exponents, Nat.pow_add]
    ring
  have scaledDividend : normalised dividend * 2 ^ 107 =
      dividend * 2 ^ (159 + divisor.log2 - dividend.log2 - size) *
        2 ^ (size - divisor.log2) := by
    have exponents : 52 - dividend.log2 + 107 =
        159 + divisor.log2 - dividend.log2 - size +
          (size - divisor.log2) := by
      omega
    rw [normalised, Nat.mul_assoc, Nat.mul_assoc, ← Nat.pow_add,
      ← Nat.pow_add, exponents]
  have divisorSize : 0 < normalised divisor := by omega
  have scaledLow : 2 ^ 52 * (2 ^ (size - 52) * normalised divisor) ≤
      normalised dividend * 2 ^ 107 := by
    have whole : 2 ^ 52 * 2 ^ (size - 52) = 2 ^ size := by
      rw [← Nat.pow_add]
      congr 1
      omega
    rw [← Nat.mul_assoc, whole, ← Nat.le_div_iff_mul_le divisorSize, ← sizeEq]
    exact Nat.log2_self_le nonzero
  have scaledHigh : normalised dividend * 2 ^ 107 <
      2 ^ 53 * (2 ^ (size - 52) * normalised divisor) := by
    have whole : 2 ^ 53 * 2 ^ (size - 52) = 2 ^ (size + 1) := by
      rw [← Nat.pow_add]
      congr 1
      omega
    rw [← Nat.mul_assoc, whole, ← Nat.div_lt_iff_lt_mul divisorSize, ← sizeEq]
    exact Nat.lt_log2_self
  have bracket := @nearest_bracket (normalised dividend * 2 ^ 107)
    (normalised divisor) (size - 52) divisorSize (by omega)
  generalize nearest (normalised dividend * 2 ^ 107) (normalised divisor)
    (size - 52) = kept at *
  rw [scaledDivisor, scaledDividend] at *
  generalize shiftEq : 159 + divisor.log2 - dividend.log2 - size = shift at *
  have unit := Nat.two_pow_pos (size - divisor.log2)
  generalize 2 ^ (size - divisor.log2) = unitSize at *
  have high : dividend * 2 ^ shift < 2 ^ 53 * divisor :=
    Nat.lt_of_mul_lt_mul_right (a := unitSize) (by linarith)
  have below : 2 * (kept * divisor) ≤ 2 * (dividend * 2 ^ shift) + divisor :=
    Nat.le_of_mul_le_mul_right (by nlinarith) unit
  refine ⟨shift, kept, ?_, high, below, ?_, by omega, ?_⟩
  · exact Nat.le_of_mul_le_mul_right (by linarith) unit
  · exact Nat.le_of_mul_le_mul_right (by nlinarith) unit
  · have keptSmall := kept_le high below
    rw [quotientKey, rounded, orderKey_of_lt (by omega)]
    omega

theorem quotientKey_zero {divisor : Nat} (positive : 0 < divisor)
    (small : divisor < 2 ^ 53) : quotientKey 0 divisor = 0 := by
  have size := normalised_bounds positive small
  have zero : ofInt binary64 (0 : Nat) = 0 := rfl
  have decoded : decode binary64 0 = .finite false 0 (-1074) := rfl
  rw [quotientKey, zero, div, decoded, decode_ofInt positive small]
  simp only [Nat.zero_mul, Nat.zero_div]
  rw [if_neg (by omega), round, if_pos rfl]
  rfl

theorem quotientKey_pos {dividend divisor : Nat}
    (dividendPositive : 0 < dividend) (dividendSmall : dividend < 2 ^ 53)
    (divisorPositive : 0 < divisor) (divisorSmall : divisor < 2 ^ 53) :
    0 < quotientKey dividend divisor := by
  obtain ⟨shift, kept, bracket⟩ := quotient_bracket dividendPositive
    dividendSmall divisorPositive divisorSmall
  have small := bracket.small
  rw [bracket.key]
  omega

private theorem QuotientBracket.kept_ge {dividend divisor shift kept : Nat}
    (bracket : QuotientBracket dividend divisor shift kept)
    (positive : 0 < divisor) : 2 ^ 52 ≤ kept := by
  by_contra small
  have bound : (kept + 1) * divisor ≤ 2 ^ 52 * divisor :=
    Nat.mul_le_mul_right _ (by omega)
  have low := bracket.low
  have above := bracket.above
  nlinarith

/-- Quotients that are further apart than the rounding reaches keep their
order. -/
theorem quotientKey_lt {first second third fourth : Nat}
    (firstPositive : 0 < first) (firstSmall : first < 2 ^ 53)
    (secondPositive : 0 < second) (secondSmall : second < 2 ^ 53)
    (thirdPositive : 0 < third) (thirdSmall : third < 2 ^ 53)
    (fourthPositive : 0 < fourth) (fourthSmall : fourth < 2 ^ 53)
    (less : first * fourth < third * second)
    (apart : 3 * (first * fourth) < 2 ^ 53) :
    quotientKey first second < quotientKey third fourth := by
  obtain ⟨shift, kept, left⟩ := quotient_bracket firstPositive firstSmall
    secondPositive secondSmall
  obtain ⟨shift', kept', right⟩ := quotient_bracket thirdPositive thirdSmall
    fourthPositive fourthSmall
  have keptSmall := kept_le left.high left.below
  have keptLarge := right.kept_ge fourthPositive
  have leftSmall := left.small
  have rightSmall := right.small
  have unit := Nat.two_pow_pos shift
  have base : 0 < second * fourth := Nat.mul_pos secondPositive fourthPositive
  have low : 2 ^ 52 * (second * fourth) ≤ first * fourth * 2 ^ shift := by
    calc 2 ^ 52 * (second * fourth) = 2 ^ 52 * second * fourth := by ring
      _ ≤ first * 2 ^ shift * fourth := Nat.mul_le_mul_right _ left.low
      _ = first * fourth * 2 ^ shift := by ring
  have below : 2 * (kept * (second * fourth)) ≤
      2 * (first * fourth * 2 ^ shift) + second * fourth := by
    calc 2 * (kept * (second * fourth)) = 2 * (kept * second) * fourth := by
          ring
      _ ≤ (2 * (first * 2 ^ shift) + second) * fourth :=
          Nat.mul_le_mul_right _ left.below
      _ = 2 * (first * fourth * 2 ^ shift) + second * fourth := by ring
  have high : third * second * 2 ^ shift' < 2 ^ 53 * (second * fourth) := by
    calc third * second * 2 ^ shift' = third * 2 ^ shift' * second := by ring
      _ < 2 ^ 53 * fourth * second :=
          Nat.mul_lt_mul_of_pos_right right.high secondPositive
      _ = 2 ^ 53 * (second * fourth) := by ring
  have above : 2 * (third * second * 2 ^ shift') ≤
      2 * (kept' * (second * fourth)) + second * fourth := by
    calc 2 * (third * second * 2 ^ shift') =
          2 * (third * 2 ^ shift') * second := by ring
      _ ≤ (2 * (kept' * fourth) + fourth) * second :=
          Nat.mul_le_mul_right _ right.above
      _ = 2 * (kept' * (second * fourth)) + second * fourth := by ring
  have gap : first * fourth * 2 ^ shift + 2 ^ shift ≤
      third * second * 2 ^ shift := by
    calc first * fourth * 2 ^ shift + 2 ^ shift =
          (first * fourth + 1) * 2 ^ shift := by ring
      _ ≤ third * second * 2 ^ shift := Nat.mul_le_mul_right _ less
  have tooClose : ¬ 2 * 2 ^ shift ≤ 3 * (second * fourth) := by
    intro close
    have scaled := Nat.mul_le_mul_left (first * fourth) close
    have bound : 2 ^ 53 * (second * fourth) ≤
        3 * (first * fourth) * (second * fourth) := by
      nlinarith
    exact absurd (Nat.le_of_mul_le_mul_right bound base) (by omega)
  rw [left.key, right.key]
  rcases Nat.lt_trichotomy shift shift' with before | same | after
  · exfalso
    have doubled : 2 * 2 ^ shift ≤ 2 ^ shift' := by
      calc 2 * 2 ^ shift = 2 ^ (shift + 1) := by ring
        _ ≤ 2 ^ shift' := Nat.pow_le_pow_right (by omega) before
    have scaled := Nat.mul_le_mul_left (third * second) doubled
    nlinarith
  · subst same
    have larger : kept < kept' := by
      by_contra notLarger
      have scaled := Nat.mul_le_mul_right (second * fourth)
        (Nat.le_of_not_lt notLarger)
      apply tooClose
      nlinarith
    omega
  · by_contra notLess
    have next : shift = shift' + 1 := by omega
    have top : kept = 2 ^ 53 := by omega
    have bottom : kept' = 2 ^ 52 := by omega
    subst next
    have doubled : 2 ^ (shift' + 1) = 2 * 2 ^ shift' := by ring
    rw [top, doubled] at below
    rw [bottom] at above
    rw [doubled] at gap
    apply tooClose
    rw [doubled]
    nlinarith

end PpcLab.Ieee754
