import PpcLab.Library.Word

/-!
# Immediate operands

A 32-bit value is built from two 16-bit immediates, either by adding two
sign-extended halves, where the upper one carries an adjustment for the sign
of the lower, or by joining the halves bit by bit.  A branch displacement is a
sign-extended field whose two low bits are left out.  The value itself is an
integer, of which only the residue modulo `2^32` matters.
-/

namespace PpcLab.Immediate

def low (value : Int) : Half := BitVec.ofInt 16 value

def high (value : Int) : Half := BitVec.ofInt 16 (value >>> (16 : Nat))

/-- The upper half, rounded so that adding the signed lower half is exact. -/
def highAdjusted (value : Int) : Half :=
  BitVec.ofInt 16 ((value + 0x8000) >>> (16 : Nat))

/-- The sum of a shifted and a plain half, both signed. -/
def sum (upper lower : Half) : Word :=
  (upper.signExtend 32 <<< 16) + lower.signExtend 32

/-- The two halves side by side. -/
def join (upper lower : Half) : Word :=
  (upper.setWidth 32 <<< 16) ||| lower.setWidth 32

theorem ofInt_congr {width : Nat} {first second : Int}
    (same : first % 2 ^ width = second % 2 ^ width) :
    BitVec.ofInt width first = BitVec.ofInt width second := by
  apply BitVec.eq_of_toNat_eq
  simp only [BitVec.toNat_ofInt, Nat.cast_pow, Nat.cast_ofNat, same]

theorem shift_eq_ofInt (half : Half) :
    half.signExtend 32 <<< 16 = BitVec.ofInt 32 (half.toInt * 65536) := by
  rw [BitVec.ofInt_mul, BitVec.shiftLeft_eq_mul_twoPow]
  rfl

theorem sum_eq_ofInt (upper lower : Half) :
    sum upper lower =
      BitVec.ofInt 32 (upper.toInt * 65536 + lower.toInt) := by
  rw [sum, shift_eq_ofInt, BitVec.ofInt_add]
  rfl

theorem sum_highAdjusted_low (value : Int) :
    sum (highAdjusted value) (low value) = BitVec.ofInt 32 value := by
  rw [sum_eq_ofInt]
  apply ofInt_congr
  rw [highAdjusted, low, BitVec.toInt_ofInt, BitVec.toInt_ofInt,
    Int.shiftRight_eq_div_pow, Int.bmod_def, Int.bmod_def]
  omega

/-- A shift drops whatever the sign extension added. -/
theorem shift_signExtend (half : Half) :
    half.signExtend 32 <<< 16 = half.setWidth 32 <<< 16 := by
  apply BitVec.eq_of_getLsbD_eq
  intro index bound
  by_cases upper : index < 16
  · simp [upper]
  · have within : index - 16 < 16 := by omega
    simp [BitVec.getLsbD_signExtend, within]

theorem toNat_join (upper lower : Half) :
    (join upper lower).toNat = upper.toNat * 65536 + lower.toNat := by
  have upperBound := upper.isLt
  have lowerBound := lower.isLt
  have apart := Nat.shiftLeft_add_eq_or_of_lt lower.isLt upper.toNat
  rw [Nat.shiftLeft_eq] at apart
  have shifted : upper.toNat % 2 ^ 32 * 2 ^ 16 % 2 ^ 32 =
      upper.toNat * 2 ^ 16 := by
    omega
  rw [join, BitVec.toNat_or, BitVec.toNat_shiftLeft, BitVec.toNat_setWidth,
    BitVec.toNat_setWidth, Nat.shiftLeft_eq, shifted,
    Nat.mod_eq_of_lt (by omega), ← apart]

theorem join_high_low (value : Int) :
    join (high value) (low value) = BitVec.ofInt 32 value := by
  apply BitVec.eq_of_toNat_eq
  rw [toNat_join, high, low, BitVec.toNat_ofInt, BitVec.toNat_ofInt,
    BitVec.toNat_ofInt, Int.shiftRight_eq_div_pow]
  omega

theorem low_congr {first second : Int} (same : first % 65536 = second % 65536) :
    low first = low second :=
  ofInt_congr same

/-- Joining counts a negative lower half as `2^16` more than adding does. -/
theorem join_eq_sum_add (upper lower : Half) :
    join upper lower =
      sum upper lower + if lower.msb then 0x10000 else 0 := by
  have joined : join upper lower =
      BitVec.ofInt 32 (upper.toInt * 65536 + lower.toNat) := by
    apply BitVec.eq_of_toNat_eq
    rw [toNat_join, BitVec.toNat_ofInt, BitVec.toInt_eq_toNat_cond]
    have := upper.isLt
    have := lower.isLt
    split
    · omega
    · omega
  rw [joined, sum_eq_ofInt]
  cases negative : lower.msb with
  | false =>
      rw [BitVec.toInt_eq_toNat_of_msb negative]
      simp
  | true =>
      have signed : (lower.toNat : Int) = lower.toInt + 65536 := by
        rw [BitVec.toInt_eq_msb_cond, negative]
        simp
      rw [signed, ← Int.add_assoc, BitVec.ofInt_add]
      rfl

theorem field_sum (upper lower : Half) :
    Word.field (sum upper lower) 0 16 = lower := by
  apply BitVec.eq_of_toNat_eq
  rw [Word.toNat_field, sum_eq_ofInt, BitVec.toNat_ofInt,
    BitVec.toInt_eq_toNat_cond lower]
  have := lower.isLt
  split
  · omega
  · omega

theorem field_join (upper lower : Half) :
    Word.field (join upper lower) 0 16 = lower := by
  apply BitVec.eq_of_toNat_eq
  rw [Word.toNat_field, toNat_join]
  have := lower.isLt
  omega

/-- The lower half of a sum depends on the lower half of each word only. -/
theorem low_add_congr (base : Int) {first second : Word}
    (same : first.field 0 16 = second.field 0 16) :
    low (base + first.toInt) = low (base + second.toInt) := by
  have residues := congrArg BitVec.toNat same
  rw [Word.toNat_field, Word.toNat_field] at residues
  apply low_congr
  rw [BitVec.toInt_eq_toNat_cond, BitVec.toInt_eq_toNat_cond]
  split <;> split <;> omega

theorem ofInt_add_toInt (base word : Word) :
    BitVec.ofInt 32 (base.toNat + word.toInt) = word + base := by
  rw [BitVec.ofInt_add, BitVec.ofInt_natCast, BitVec.ofNat_toNat,
    BitVec.setWidth_eq, BitVec.ofInt_toInt, BitVec.add_comm]

/-- The signed displacement a field of whole words stands for. -/
def displacement {width : Nat} (words : BitVec width) : Word :=
  (words ++ 0#2).signExtend 32

theorem displacement_eq_ofInt {width : Nat} (words : BitVec (width + 1)) :
    displacement words = BitVec.ofInt 32 (4 * words.toInt) := by
  rw [displacement, BitVec.signExtend, BitVec.toInt_append]
  simp

/-- An aligned displacement that fits survives the loss of its low bits. -/
theorem displacement_field {width : Nat} {value : Int}
    (narrow : width + 1 ≤ 30) (aligned : value % 4 = 0)
    (lower : -2 ^ (width + 2) ≤ value) (upper : value < 2 ^ (width + 2)) :
    displacement (Word.field (BitVec.ofInt 32 value) 2 (width + 1)) =
      BitVec.ofInt 32 value := by
  have quarter : ((BitVec.ofInt 32 value).toNat / 2 ^ 2 : Nat) =
      (value / 4) % (2 ^ 30 : Nat) := by
    rw [BitVec.toNat_ofInt]
    omega
  have divides : ((2 ^ (width + 1) : Nat) : Int) ∣ ((2 ^ 30 : Nat) : Int) := by
    exact_mod_cast Nat.pow_dvd_pow 2 narrow
  have doubled : (2 : Int) ^ (width + 2) = 2 * 2 ^ (width + 1) := by
    rw [Int.pow_succ, Int.mul_comm]
  have field : (Word.field (BitVec.ofInt 32 value) 2 (width + 1)).toInt =
      value / 4 := by
    rw [BitVec.toInt_eq_toNat_bmod, Word.toNat_field, Int.natCast_mod,
      Int.emod_bmod, quarter, ← Int.emod_bmod, Int.emod_emod_of_dvd _ divides,
      Int.emod_bmod]
    apply Int.bmod_eq_of_le_mul_two
    · push_cast
      omega
    · push_cast
      omega
  rw [displacement_eq_ofInt, field]
  congr 1
  omega

end PpcLab.Immediate
