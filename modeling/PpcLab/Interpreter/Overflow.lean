import PpcLab.Interpreter.Instruction

/-!
# Overflow and carry

The overflow tests of the interpreter in terms of the integers they are about,
and what they return when an operand has been replaced by the result.
-/

namespace PpcLab.BuiltinInterpreter

theorem signMask_ne_zero (word : Word) :
    ((word &&& 0x80000000) != 0) = word.msb := by
  have mask : (0x80000000 : Word) = BitVec.twoPow 32 31 := by decide
  rw [mask, BitVec.and_twoPow, BitVec.msb_eq_getLsbD_last]
  cases word.getLsbD 31 <;> decide

theorem addOverflow_eq (a b result : Word) :
    addOverflow a b result = (a.msb == b.msb && a.msb != result.msb) := by
  unfold addOverflow
  rw [signMask_ne_zero]
  simp only [BitVec.msb_and, BitVec.msb_not, BitVec.msb_xor]
  cases a.msb <;> cases b.msb <;> cases result.msb <;> rfl

theorem subOverflow_eq (minuend subtrahend result : Word) :
    subOverflow minuend subtrahend result =
      (minuend.msb != subtrahend.msb && minuend.msb != result.msb) := by
  unfold subOverflow
  rw [signMask_ne_zero]
  simp only [BitVec.msb_and, BitVec.msb_xor]

/-- The overflow test of an addition is about the integer sum. -/
theorem addOverflow_add (a b : Word) :
    addOverflow a b (a + b) = outsideInt32 (a.toInt + b.toInt) := by
  have sum : addOverflow a b (a + b) = a.saddOverflow b := by
    rw [addOverflow_eq, BitVec.saddOverflow_eq]
    cases a.msb <;> cases b.msb <;> cases (a + b).msb <;> rfl
  rw [sum]
  simp only [BitVec.saddOverflow, outsideInt32, ← Bool.decide_or,
    decide_eq_decide]
  omega

/-- The overflow test of a subtraction is about the integer difference. -/
theorem subOverflow_sub (minuend subtrahend : Word) :
    subOverflow minuend subtrahend (minuend - subtrahend) =
      outsideInt32 (minuend.toInt - subtrahend.toInt) := by
  have difference : subOverflow minuend subtrahend (minuend - subtrahend) =
      minuend.ssubOverflow subtrahend := by
    rw [subOverflow_eq, BitVec.ssubOverflow_eq]
    cases minuend.msb <;> cases subtrahend.msb <;>
      cases (minuend - subtrahend).msb <;> rfl
  rw [difference]
  simp only [BitVec.ssubOverflow, outsideInt32, ← Bool.decide_or,
    decide_eq_decide]
  omega

theorem addOverflow_left_result (b result : Word) :
    addOverflow result b result = false := by
  simp [addOverflow_eq]

theorem addOverflow_right_result (a result : Word) :
    addOverflow a result result = false := by
  rw [addOverflow_eq]
  cases a.msb <;> cases result.msb <;> rfl

theorem subOverflow_minuend_result (subtrahend result : Word) :
    subOverflow result subtrahend result = false := by
  simp [subOverflow_eq]

theorem subOverflow_subtrahend_result (minuend result : Word) :
    subOverflow minuend result result = (minuend.msb != result.msb) := by
  rw [subOverflow_eq]
  cases minuend.msb <;> cases result.msb <;> rfl

/-- The value lies in the range of a 32-bit signed integer. -/
def InInt32 (value : Int) : Prop :=
  -2147483648 ≤ value ∧ value ≤ 2147483647

theorem outsideInt32_eq_false_iff (value : Int) :
    outsideInt32 value = false ↔ InInt32 value := by
  simp only [outsideInt32, ← Bool.decide_or, decide_eq_false_iff_not, InInt32]
  omega

theorem outsideInt32_eq_iff (first second : Int) :
    outsideInt32 first = outsideInt32 second ↔
      (InInt32 first ↔ InInt32 second) := by
  rw [← outsideInt32_eq_false_iff, ← outsideInt32_eq_false_iff]
  cases outsideInt32 first <;> cases outsideInt32 second <;> simp

theorem toInt_inInt32 (word : Word) : InInt32 word.toInt := by
  have lower := BitVec.le_toInt word
  have upper := BitVec.toInt_lt (x := word)
  unfold InInt32
  omega

/-- The integer of a wrapped sum differs from the sum by whole turns. -/
theorem toInt_ofInt_cases (sum : Int) :
    ∃ turns : Int,
      (BitVec.ofInt 32 sum).toInt = sum + 4294967296 * turns := by
  rw [BitVec.toInt_ofInt]
  refine ⟨-Int.bdiv sum (2 ^ 32), ?_⟩
  have split := Int.bmod_add_bdiv sum (2 ^ 32)
  omega

section Retested

variable {a b carry sum : Int}

/-- Adding `rest` to the wrapped sum of `a` and `rest`. -/
theorem retested_add_iff (rest : Int) (result : Word)
    (aBound : InInt32 a) (restLower : -2147483648 ≤ rest)
    (restUpper : rest ≤ 2147483648)
    (wrapped : result = BitVec.ofInt 32 (a + rest)) :
    (InInt32 (result.toInt + rest) ↔ InInt32 (a + rest)) ↔
      InInt32 (a + rest) ∧ InInt32 (a + 2 * rest) := by
  have bound := toInt_inInt32 result
  obtain ⟨turns, value⟩ := toInt_ofInt_cases (a + rest)
  rw [← wrapped] at value
  unfold InInt32 at *
  omega

/-- Subtracting the wrapped difference again gives the subtrahend back. -/
theorem retested_sub_iff (rest : Int) (result : Word)
    (aBound : InInt32 a)
    (wrapped : result = BitVec.ofInt 32 (rest - a)) :
    InInt32 (rest - result.toInt) ↔ InInt32 (rest - a) := by
  have bound := toInt_inInt32 result
  obtain ⟨turns, value⟩ := toInt_ofInt_cases (rest - a)
  rw [← wrapped] at value
  unfold InInt32 at *
  omega

/-- The test with the difference in the place of the subtrahend. -/
theorem retested_subf_iff (minuend subtrahend : Word) :
    subOverflow minuend (minuend - subtrahend) (minuend - subtrahend) =
        subOverflow minuend subtrahend (minuend - subtrahend) ↔
      (0 ≤ subtrahend.toInt → 0 ≤ minuend.toInt →
        subtrahend.toInt ≤ minuend.toInt) ∧
      (subtrahend.toInt < 0 → minuend.toInt < 0 →
        minuend.toInt < subtrahend.toInt) := by
  have minuendBound := toInt_inInt32 minuend
  have subtrahendBound := toInt_inInt32 subtrahend
  have resultBound := toInt_inInt32 (minuend - subtrahend)
  obtain ⟨turns, wrapped⟩ := toInt_ofInt_cases
    (minuend.toInt - subtrahend.toInt)
  rw [BitVec.toInt_ofInt, ← BitVec.toInt_sub] at wrapped
  rw [subOverflow_subtrahend_result, subOverflow_eq]
  simp only [BitVec.msb_eq_toInt]
  generalize (minuend - subtrahend).toInt = result at *
  unfold InInt32 at *
  by_cases minuendSign : minuend.toInt < 0 <;>
    by_cases subtrahendSign : subtrahend.toInt < 0 <;>
    by_cases resultSign : result < 0 <;>
    simp [minuendSign, subtrahendSign, resultSign] <;> omega

end Retested

theorem setOverflow_xer_eq_iff {left right : CpuState}
    (same : left.xer = right.xer) (first second : Bool) :
    (setOverflow left first).xer = (setOverflow right second).xer ↔
      first = second := by
  have overflowBit (cpu : CpuState) (overflow : Bool) :
      (setOverflow cpu overflow).xer.getLsbD 30 = overflow := by
    cases overflow <;> simp [setOverflow]
  constructor
  · intro equal
    rw [← overflowBit left first, equal, overflowBit]
  · rintro rfl
    simp [setOverflow, same]

theorem setCarry_xer_eq_iff {left right : CpuState}
    (same : left.xer = right.xer) (first second : Bool) :
    (setCarry left first).xer = (setCarry right second).xer ↔
      first = second := by
  have carryBit (cpu : CpuState) (carry : Bool) :
      (setCarry cpu carry).xer.getLsbD 29 = carry := by
    cases carry <;> simp [setCarry]
  constructor
  · intro equal
    rw [← carryBit left first, equal, carryBit]
  · rintro rfl
    simp [setCarry, same]

end PpcLab.BuiltinInterpreter
