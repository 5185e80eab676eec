import Mathlib.Data.BitVec

/-!
# Machine words and their bit fields

Fixed-width words, the bit fields cut out of a 32-bit word, and the update of
one field that leaves every disjoint field alone.
-/

namespace PpcLab

abbrev Byte := BitVec 8
abbrev Half := BitVec 16
abbrev Word := BitVec 32
abbrev DoubleWord := BitVec 64

namespace Word

/-- The `length` bits of a word that start at bit `start`. -/
def field (word : Word) (start length : Nat) : BitVec length :=
  word.extractLsb' start length

/-- Replace the bits of a word that start at bit `start`. -/
def withField {length : Nat} (word : Word) (start : Nat)
    (value : BitVec length) : Word :=
  (word &&& ~~~((BitVec.allOnes length).setWidth 32 <<< start)) |||
    (value.setWidth 32 <<< start)

theorem toNat_field (word : Word) (start length : Nat) :
    (word.field start length).toNat =
      word.toNat / 2 ^ start % 2 ^ length := by
  rw [field, BitVec.extractLsb'_toNat, Nat.shiftRight_eq_div_pow]

theorem getLsbD_field (word : Word) (start length index : Nat) :
    (word.field start length).getLsbD index =
      (decide (index < length) && word.getLsbD (start + index)) := by
  simp [field]

theorem getLsbD_withField {length : Nat} (word : Word) (start : Nat)
    (value : BitVec length) (index : Nat) (bound : index < 32) :
    (word.withField start value).getLsbD index =
      if start ≤ index ∧ index < start + length then
        value.getLsbD (index - start)
      else word.getLsbD index := by
  simp only [withField, BitVec.getLsbD_or, BitVec.getLsbD_and,
    BitVec.getLsbD_not, BitVec.getLsbD_shiftLeft, BitVec.getLsbD_setWidth,
    BitVec.getLsbD_allOnes, bound, decide_true, Bool.true_and]
  by_cases before : index < start
  · have notInside : ¬(start ≤ index ∧ index < start + length) := by omega
    simp [before, notInside]
  · have shifted : index - start < 32 := by omega
    by_cases inside : index < start + length
    · have inField : start ≤ index ∧ index < start + length := by omega
      have small : index - start < length := by omega
      rw [if_pos inField]
      simp [before, shifted, small]
    · have notInside : ¬(start ≤ index ∧ index < start + length) := by omega
      have large : length ≤ index - start := by omega
      simp [before, notInside, shifted, BitVec.getLsbD_of_ge value _ large,
        Nat.not_lt.mpr large]

theorem field_withField_self {length : Nat} (word : Word) {start : Nat}
    (value : BitVec length) (fits : start + length ≤ 32) :
    (word.withField start value).field start length = value := by
  apply BitVec.eq_of_getLsbD_eq
  intro index bound
  rw [getLsbD_field, getLsbD_withField _ _ _ _ (by omega)]
  have inside : start ≤ start + index ∧ start + index < start + length := by
    omega
  rw [if_pos inside]
  simp [bound]

theorem field_withField_apart {length : Nat} (word : Word) {start : Nat}
    (value : BitVec length) {other count : Nat} (fits : other + count ≤ 32)
    (apart : other + count ≤ start ∨ start + length ≤ other) :
    (word.withField start value).field other count =
      word.field other count := by
  apply BitVec.eq_of_getLsbD_eq
  intro index bound
  rw [getLsbD_field, getLsbD_field, getLsbD_withField _ _ _ _ (by omega)]
  have outside :
      ¬(start ≤ other + index ∧ other + index < start + length) := by
    omega
  rw [if_neg outside]

/-- The words agree on every bit outside a field. -/
def SameOutside (start length : Nat) (before after : Word) : Prop :=
  ∀ index < 32, index < start ∨ start + length ≤ index →
    after.getLsbD index = before.getLsbD index

theorem sameOutside_withField {length : Nat} (word : Word) (start : Nat)
    (value : BitVec length) :
    SameOutside start length word (word.withField start value) := by
  intro index bound outside
  rw [getLsbD_withField word start value index bound, if_neg (by omega)]

/-- Replacing the bits a mask selects replaces the field it covers. -/
theorem or_mask_eq_withField {start length : Nat} (word value mask : Word)
    (maskBits : ∀ index < 32, mask.getLsbD index =
      (decide (start ≤ index) && decide (index < start + length))) :
    (word &&& ~~~mask) ||| (value &&& mask) =
      word.withField start (value.field start length) := by
  apply BitVec.eq_of_getLsbD_eq
  intro index bound
  rw [getLsbD_withField _ _ _ _ bound, getLsbD_field]
  simp only [BitVec.getLsbD_or, BitVec.getLsbD_and, BitVec.getLsbD_not,
    maskBits index bound, bound, decide_true, Bool.true_and]
  by_cases inside : start ≤ index ∧ index < start + length
  · have position : start + (index - start) = index := by omega
    have within : index - start < length := by omega
    rw [if_pos inside, position]
    simp [inside.1, inside.2, within]
  · rw [if_neg inside]
    have outside : (decide (start ≤ index) &&
        decide (index < start + length)) = false := by
      simpa using inside
    simp [outside]

end Word

end PpcLab
