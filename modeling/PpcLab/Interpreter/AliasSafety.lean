import PpcLab.Interpreter.Aliasing

/-!
# When an aliased destination is harmless

For each family of integer instructions, the exact condition on the operands
under which its flags do not depend on the choice of the destination.
-/

namespace PpcLab.BuiltinInterpreter

open Instruction

section Conditions

variable (cpu : CpuState) (rt ra rb : Register)

/-- The carry bit as an integer. -/
def carryIn : Int := if carrySet cpu then 1 else 0

/-- `addo` and `addco`: no signed overflow when a source is overwritten. -/
def AddSafe : Prop :=
  rt = ra ∨ rt = rb → InInt32 ((cpu.gpr ra).toInt + (cpu.gpr rb).toInt)

/-- `subfo` and `subfco`: no signed overflow when the minuend is overwritten,
and no change of sign between operands of one sign when the subtrahend is. -/
def SubfSafe : Prop :=
  (rt = rb → InInt32 ((cpu.gpr rb).toInt - (cpu.gpr ra).toInt)) ∧
    (rt = ra → rt ≠ rb →
      (0 ≤ (cpu.gpr ra).toInt → 0 ≤ (cpu.gpr rb).toInt →
        (cpu.gpr ra).toInt ≤ (cpu.gpr rb).toInt) ∧
      ((cpu.gpr ra).toInt < 0 → (cpu.gpr rb).toInt < 0 →
        (cpu.gpr rb).toInt < (cpu.gpr ra).toInt))

/-- `addeo`: neither the sum nor the sum with the other operand and the carry
added a second time overflows.  With both sources overwritten, doubling the
wrapped sum has to overflow exactly when doubling the operand did. -/
def AddeSafe : Prop :=
  let a := (cpu.gpr ra).toInt
  let b := (cpu.gpr rb).toInt
  let carry := carryIn cpu
  (rt = ra → rt ≠ rb →
    InInt32 (a + (b + carry)) ∧ InInt32 (a + 2 * (b + carry))) ∧
  (rt = rb → rt ≠ ra →
    InInt32 (b + (a + carry)) ∧ InInt32 (b + 2 * (a + carry))) ∧
  (rt = ra → rt = rb →
    (InInt32 (2 * (BitVec.ofInt 32 (2 * a + carry)).toInt + carry) ↔
      InInt32 (2 * a + carry)))

/-- `subfeo`: when the minuend alone is overwritten, neither the difference
nor the difference with the subtrahend taken off a second time overflows. -/
def SubfeSafe : Prop :=
  let a := (cpu.gpr ra).toInt
  let b := (cpu.gpr rb).toInt
  let carry := carryIn cpu
  rt = rb → rt ≠ ra →
    InInt32 (b + (carry - 1 - a)) ∧ InInt32 (b + 2 * (carry - 1 - a))

/-- `addmeo`: taking the borrow off twice does not overflow. -/
def AddmeSafe : Prop :=
  rt = ra → InInt32 ((cpu.gpr ra).toInt + 2 * (carryIn cpu - 1))

/-- `addzeo`: adding the carry twice does not overflow. -/
def AddzeSafe : Prop :=
  rt = ra → InInt32 ((cpu.gpr ra).toInt + 2 * carryIn cpu)

end Conditions

/-- The bits a right shift loses. -/
def lostMask (shift : Nat) : Word := ((1 : Word) <<< shift) - 1

/-- `sraw` and `srawi` of a negative source into itself: the bits shifted out
are all zero exactly when the bits that take their place are. -/
def ShiftSafe (dest register : Register) (source : Word) (shift : Nat) :
    Prop :=
  dest = register → source.slt 0 = true → 0 < shift → shift < 32 →
    ((source.sshiftRight shift &&& lostMask shift) = 0 ↔
      (source &&& lostMask shift) = 0)

/-- The condition under which an integer instruction does not depend on the
choice of its destination. -/
def AliasSafe (insn : Word) (cpu : CpuState) : Prop :=
  let rt := rt insn
  let ra := ra insn
  let rb := rb insn
  if opcode insn = 31 then
    match xo insn with
    | 778 | 522 => AddSafe cpu rt ra rb
    | 552 | 520 => SubfSafe cpu rt ra rb
    | 650 => AddeSafe cpu rt ra rb
    | 648 => SubfeSafe cpu rt ra rb
    | 746 => AddmeSafe cpu rt ra
    | 714 => AddzeSafe cpu rt ra
    | 792 => ShiftSafe ra rt (cpu.gpr rt) (cpu.gpr rb &&& 0x3f).toNat
    | 824 => ShiftSafe ra rt (cpu.gpr rt) rb.toNat
    | _ => True
  else True

theorem addOverflow_update_iff (cpu : CpuState) (rt ra rb : Register) :
    let result := cpu.gpr ra + cpu.gpr rb
    let after := Function.update cpu.gpr rt result
    addOverflow (after ra) (after rb) (after rt) =
        addOverflow (cpu.gpr ra) (cpu.gpr rb) result ↔
      AddSafe cpu rt ra rb := by
  intro result after
  have target : after rt = result := Function.update_self rt result cpu.gpr
  have kept {register : Register} (different : rt ≠ register) :
      after register = cpu.gpr register :=
    Function.update_of_ne (Ne.symm different) result cpu.gpr
  have tested : addOverflow (cpu.gpr ra) (cpu.gpr rb) result = false ↔
      InInt32 ((cpu.gpr ra).toInt + (cpu.gpr rb).toInt) := by
    rw [addOverflow_add, outsideInt32_eq_false_iff]
  rw [target]
  unfold AddSafe
  by_cases left : rt = ra
  · have lost : addOverflow (after ra) (after rb) result = false := by
      rw [← left, target]
      exact addOverflow_left_result _ _
    rw [lost, eq_comm, tested]
    simp [left]
  · by_cases right : rt = rb
    · have lost : addOverflow (after ra) (after rb) result = false := by
        rw [← right, target]
        exact addOverflow_right_result _ _
      rw [lost, eq_comm, tested]
      simp [right]
    · simp [kept left, kept right, left, right]

theorem subOverflow_update_iff (cpu : CpuState) (rt ra rb : Register) :
    let result := cpu.gpr rb - cpu.gpr ra
    let after := Function.update cpu.gpr rt result
    subOverflow (after rb) (after ra) (after rt) =
        subOverflow (cpu.gpr rb) (cpu.gpr ra) result ↔
      SubfSafe cpu rt ra rb := by
  intro result after
  have target : after rt = result := Function.update_self rt result cpu.gpr
  have kept {register : Register} (different : rt ≠ register) :
      after register = cpu.gpr register :=
    Function.update_of_ne (Ne.symm different) result cpu.gpr
  have tested : subOverflow (cpu.gpr rb) (cpu.gpr ra) result = false ↔
      InInt32 ((cpu.gpr rb).toInt - (cpu.gpr ra).toInt) := by
    rw [subOverflow_sub, outsideInt32_eq_false_iff]
  rw [target]
  unfold SubfSafe
  by_cases minuend : rt = rb
  · have lost : subOverflow (after rb) (after ra) result = false := by
      rw [← minuend, target]
      exact subOverflow_minuend_result _ _
    rw [lost, eq_comm, tested]
    simp [minuend]
  · rw [kept minuend]
    by_cases subtrahend : rt = ra
    · have written : after ra = result := by rw [← subtrahend, target]
      rw [written, retested_subf_iff]
      simp [subtrahend, show ra ≠ rb from subtrahend ▸ minuend]
    · simp [kept subtrahend, minuend, subtrahend]

section Agreement

variable {rc : Bool} {dest fresh : Register} {cpu : CpuState}

theorem agree_setGpr (value : Word) :
    Agree dest (record rc dest (cpu.setGpr dest value)) fresh
      (record rc fresh (cpu.setGpr fresh value)) := by
  rw [agree_record_iff]
  · simp
  · simp
  · rfl

/-- Forms that record a carry. -/
theorem agree_setCarry_iff (value : Word) (first second : Bool) :
    Agree dest (record rc dest (setCarry (cpu.setGpr dest value) first)) fresh
        (record rc fresh (setCarry (cpu.setGpr fresh value) second)) ↔
      first = second := by
  rw [agree_record_iff]
  · exact setCarry_xer_eq_iff rfl first second
  · simp [setCarry]
  · rfl

/-- Forms that record an overflow. -/
theorem agree_setOverflow_iff (value : Word) (first second : Bool) :
    Agree dest (record rc dest (setOverflow (cpu.setGpr dest value) first))
        fresh
        (record rc fresh (setOverflow (cpu.setGpr fresh value) second)) ↔
      first = second := by
  rw [agree_record_iff]
  · exact setOverflow_xer_eq_iff rfl first second
  · simp [setOverflow]
  · rfl

/-- Forms that record a carry and an overflow. -/
theorem agree_setCarry_setOverflow_iff (value : Word)
    (carry first second : Bool) :
    Agree dest
        (record rc dest
          (setOverflow (setCarry (cpu.setGpr dest value) carry) first))
        fresh
        (record rc fresh
          (setOverflow (setCarry (cpu.setGpr fresh value) carry) second)) ↔
      first = second := by
  rw [agree_record_iff]
  · exact setOverflow_xer_eq_iff rfl first second
  · simp [setOverflow, setCarry]
  · rfl

end Agreement

section Arithmetic

variable {rt ra rb fresh : Register} (rc : Bool) (cpu : CpuState)

theorem add_agree_iff (apartA : fresh ≠ ra) (apartB : fresh ≠ rb) :
    Agree rt (add rt ra rb true rc cpu) fresh
        (add fresh ra rb true rc cpu) ↔ AddSafe cpu rt ra rb := by
  refine Iff.trans ?_ (addOverflow_update_iff cpu rt ra rb)
  simp only [add, if_true, agree_setOverflow_iff]
  simp [Function.update_of_ne (Ne.symm apartA),
    Function.update_of_ne (Ne.symm apartB)]

theorem subf_agree_iff (apartA : fresh ≠ ra) (apartB : fresh ≠ rb) :
    Agree rt (subf rt ra rb true rc cpu) fresh
        (subf fresh ra rb true rc cpu) ↔ SubfSafe cpu rt ra rb := by
  refine Iff.trans ?_ (subOverflow_update_iff cpu rt ra rb)
  simp only [subf, if_true, agree_setOverflow_iff]
  simp [Function.update_of_ne (Ne.symm apartA),
    Function.update_of_ne (Ne.symm apartB)]

theorem wide_add (a b : Word) :
    (a.setWidth 64 + b.setWidth 64 : DoubleWord).setWidth 32 = a + b := by
  rw [BitVec.setWidth_add _ _ (by omega)]
  simp

theorem wide_sub (a b : Word) :
    (b.setWidth 64 + (~~~a).setWidth 64 + 1 : DoubleWord).setWidth 32 =
      b - a := by
  rw [BitVec.setWidth_add _ _ (by omega), BitVec.setWidth_add _ _ (by omega),
    BitVec.sub_eq_add_neg, BitVec.neg_eq_not_add, BitVec.add_assoc]
  simp

theorem addc_agree_iff (apartA : fresh ≠ ra) (apartB : fresh ≠ rb) :
    Agree rt (addc rt ra rb true rc cpu) fresh
        (addc fresh ra rb true rc cpu) ↔ AddSafe cpu rt ra rb := by
  refine Iff.trans ?_ (addOverflow_update_iff cpu rt ra rb)
  simp only [addc, if_true, wide_add, agree_setCarry_setOverflow_iff]
  simp [setCarry, Function.update_of_ne (Ne.symm apartA),
    Function.update_of_ne (Ne.symm apartB)]

theorem subfc_agree_iff (apartA : fresh ≠ ra) (apartB : fresh ≠ rb) :
    Agree rt (subfc rt ra rb true rc cpu) fresh
        (subfc fresh ra rb true rc cpu) ↔ SubfSafe cpu rt ra rb := by
  refine Iff.trans ?_ (subOverflow_update_iff cpu rt ra rb)
  simp only [subfc, if_true, wide_sub, agree_setCarry_setOverflow_iff]
  simp [setCarry, Function.update_of_ne (Ne.symm apartA),
    Function.update_of_ne (Ne.symm apartB)]

/-- Negation overflows at the word that is its own negative, so testing the
result is as good as testing the operand. -/
theorem neg_agree (apart : fresh ≠ ra) :
    Agree rt (neg rt ra true rc cpu) fresh (neg fresh ra true rc cpu) := by
  simp only [neg, if_true, agree_setOverflow_iff]
  rw [CpuState.setGpr_gpr, CpuState.setGpr_gpr,
    Function.update_of_ne (Ne.symm apart)]
  by_cases same : ra = rt
  · rw [same, Function.update_self, Bool.eq_iff_iff, beq_iff_eq, beq_iff_eq]
    bv_omega
  · rw [Function.update_of_ne same]

theorem extended_agree {wide : CpuState → Bool → DoubleWord}
    {math : CpuState → Bool → Int} :
    Agree rt (extended wide math rt false rc cpu) fresh
      (extended wide math fresh false rc cpu) := by
  simp only [extended, Bool.false_eq_true, if_false]
  exact (agree_setCarry_iff _ _ _).mpr rfl

theorem extended_agree_iff {wide : CpuState → Bool → DoubleWord}
    {math : CpuState → Bool → Int} (before after : Int)
    (separate : ∀ result carry,
      math (setCarry (cpu.setGpr fresh result) carry) (carrySet cpu) = before)
    (aliased : ∀ carry,
      math (setCarry (cpu.setGpr rt
        ((wide cpu (carrySet cpu)).setWidth 32)) carry) (carrySet cpu) =
          after) :
    Agree rt (extended wide math rt true rc cpu) fresh
        (extended wide math fresh true rc cpu) ↔
      (InInt32 after ↔ InInt32 before) := by
  simp only [extended, if_true, agree_setCarry_setOverflow_iff, separate,
    aliased, outsideInt32_eq_iff]

theorem setWidth_carryWord (cpu : CpuState) :
    (carryWord (carrySet cpu)).setWidth 32 =
      BitVec.ofInt 32 (carryIn cpu) := by
  unfold carryWord carryIn
  cases carrySet cpu <;> rfl

theorem wide_carry (word : Word) (cpu : CpuState) :
    (word.setWidth 64 + carryWord (carrySet cpu) : DoubleWord).setWidth 32 =
      word + BitVec.ofInt 32 (carryIn cpu) := by
  rw [BitVec.setWidth_add _ _ (by omega), setWidth_carryWord]
  simp

theorem wide_carry_minus_one (word : Word) (cpu : CpuState) :
    (word.setWidth 64 + carryWord (carrySet cpu) + 0xffffffff :
        DoubleWord).setWidth 32 =
      word + BitVec.ofInt 32 (carryIn cpu) + BitVec.ofInt 32 (-1) := by
  rw [BitVec.setWidth_add _ _ (by omega), wide_carry]
  rfl

theorem ofInt_not (word : Word) :
    ~~~word = BitVec.ofInt 32 (-1 - word.toInt) := by
  rw [Int.sub_eq_add_neg, BitVec.ofInt_add, BitVec.ofInt_neg (n := word.toInt),
    BitVec.ofInt_toInt, BitVec.ofInt_neg]
  bv_omega

theorem carryIn_bounds (cpu : CpuState) :
    0 ≤ carryIn cpu ∧ carryIn cpu ≤ 1 := by
  unfold carryIn
  split <;> omega

theorem adde_agree_iff (apartA : fresh ≠ ra) (apartB : fresh ≠ rb) :
    Agree rt (adde rt ra rb true rc cpu) fresh
        (adde fresh ra rb true rc cpu) ↔ AddeSafe cpu rt ra rb := by
  let a := (cpu.gpr ra).toInt
  let b := (cpu.gpr rb).toInt
  let result : Word := BitVec.ofInt 32 (a + b + carryIn cpu)
  let after := Function.update cpu.gpr rt result
  have wide : ((cpu.gpr ra).setWidth 64 + (cpu.gpr rb).setWidth 64 +
      carryWord (carrySet cpu) : DoubleWord).setWidth 32 = result := by
    rw [BitVec.setWidth_add _ _ (by omega), wide_add, setWidth_carryWord]
    simp [result, a, b, BitVec.ofInt_add]
  unfold adde
  rw [extended_agree_iff _ _ (a + b + carryIn cpu)
    ((after ra).toInt + (after rb).toInt + carryIn cpu)]
  · have aBound : InInt32 a := toInt_inInt32 (cpu.gpr ra)
    have bBound : InInt32 b := toInt_inInt32 (cpu.gpr rb)
    have carryBound := carryIn_bounds cpu
    have target : after rt = result := Function.update_self rt result cpu.gpr
    have kept {register : Register} (different : rt ≠ register) :
        after register = cpu.gpr register :=
      Function.update_of_ne (Ne.symm different) result cpu.gpr
    unfold AddeSafe
    by_cases left : rt = ra
    · by_cases right : rt = rb
      · have same : a = b := by simp only [a, b, ← left, ← right]
        have once : a + b + carryIn cpu = 2 * a + carryIn cpu := by omega
        have twice : (after ra).toInt + (after rb).toInt + carryIn cpu =
            2 * result.toInt + carryIn cpu := by
          rw [← left, ← right, target]
          omega
        rw [twice]
        simp only [result, once]
        simp [left, show ra = rb from left ▸ right, a]
      · have sum := retested_add_iff (b + carryIn cpu) result aBound
          (by unfold InInt32 at bBound; omega)
          (by unfold InInt32 at bBound; omega)
          (by simp only [result, Int.add_assoc])
        rw [← left, target, kept right, Int.add_assoc, Int.add_assoc, sum]
        simp [← left, right, a, b]
    · by_cases right : rt = rb
      · have sum := retested_add_iff (a + carryIn cpu) result bBound
          (by unfold InInt32 at aBound; omega)
          (by unfold InInt32 at aBound; omega)
          (by simp only [result]; congr 1; omega)
        have plain : a + b + carryIn cpu = b + (a + carryIn cpu) := by omega
        have tested : (after ra).toInt + (after rb).toInt + carryIn cpu =
            result.toInt + (a + carryIn cpu) := by
          rw [← right, target, kept left]
          simp only [a]
          omega
        rw [tested, plain, sum]
        simp [← right, left, a, b]
      · simp [kept left, kept right, left, right, a, b]
  · intro value carry
    simp [setCarry, carryIn, a, b, Function.update_of_ne (Ne.symm apartA),
      Function.update_of_ne (Ne.symm apartB)]
  · intro carry
    simp [setCarry, carryIn, after, wide]

theorem subfe_agree_iff (apartA : fresh ≠ ra) (apartB : fresh ≠ rb) :
    Agree rt (subfe rt ra rb true rc cpu) fresh
        (subfe fresh ra rb true rc cpu) ↔ SubfeSafe cpu rt ra rb := by
  let a := (cpu.gpr ra).toInt
  let b := (cpu.gpr rb).toInt
  let borrow := carryIn cpu - 1
  let result : Word := BitVec.ofInt 32 (b - a + borrow)
  let after := Function.update cpu.gpr rt result
  have borrowed : (if carrySet cpu = true then 0 else -1 : Int) = borrow := by
    simp only [borrow, carryIn]
    split <;> rfl
  have wide : ((cpu.gpr rb).setWidth 64 + (~~~cpu.gpr ra).setWidth 64 +
      carryWord (carrySet cpu) : DoubleWord).setWidth 32 = result := by
    have sum : b - a + borrow = b + (-1 - a) + carryIn cpu := by
      simp only [borrow]
      omega
    rw [BitVec.setWidth_add _ _ (by omega), wide_add, setWidth_carryWord,
      ofInt_not]
    change _ = BitVec.ofInt 32 (b - a + borrow)
    rw [sum, BitVec.ofInt_add, BitVec.ofInt_add, BitVec.ofInt_toInt]
  unfold subfe
  rw [extended_agree_iff _ _ (b - a + borrow)
    ((after rb).toInt - (after ra).toInt + borrow)]
  · have aBound : InInt32 a := toInt_inInt32 (cpu.gpr ra)
    have bBound : InInt32 b := toInt_inInt32 (cpu.gpr rb)
    have carryBound := carryIn_bounds cpu
    have target : after rt = result := Function.update_self rt result cpu.gpr
    have kept {register : Register} (different : rt ≠ register) :
        after register = cpu.gpr register :=
      Function.update_of_ne (Ne.symm different) result cpu.gpr
    unfold SubfeSafe
    by_cases subtrahend : rt = ra
    · by_cases minuend : rt = rb
      · have same : a = b := by simp only [a, b, ← subtrahend, ← minuend]
        have tested : (after rb).toInt - (after ra).toInt + borrow =
            b - a + borrow := by
          rw [← subtrahend, ← minuend, same]
          omega
        rw [tested]
        simp [subtrahend]
      · have difference := retested_sub_iff (b + borrow) result aBound
          (by simp only [result]; congr 1; omega)
        have plain : b - a + borrow = b + borrow - a := by omega
        have tested : (after rb).toInt - (after ra).toInt + borrow =
            b + borrow - result.toInt := by
          rw [← subtrahend, target, kept minuend]
          simp only [b]
          omega
        rw [tested, plain, difference]
        simp [minuend]
    · by_cases minuend : rt = rb
      · have sum := retested_add_iff (borrow - a) result bBound
          (by simp only [borrow]; unfold InInt32 at aBound; omega)
          (by simp only [borrow]; unfold InInt32 at aBound; omega)
          (by simp only [result]; congr 1; omega)
        have plain : b - a + borrow = b + (borrow - a) := by omega
        have tested : (after rb).toInt - (after ra).toInt + borrow =
            result.toInt + (borrow - a) := by
          rw [← minuend, target, kept subtrahend]
          simp only [a]
          omega
        rw [tested, plain, sum]
        simp [← minuend, subtrahend, a, b, borrow]
      · simp [kept subtrahend, kept minuend, minuend, a, b]
  · intro value carry
    rw [borrowed]
    simp [setCarry, a, b, Function.update_of_ne (Ne.symm apartA),
      Function.update_of_ne (Ne.symm apartB)]
  · intro carry
    rw [borrowed]
    simp [setCarry, after, wide]

/-- Forms that add a constant and the carry to one operand. -/
theorem extended_add_agree_iff {wide : CpuState → Bool → DoubleWord}
    {math : CpuState → Bool → Int} (rest : Int)
    (restLower : -2147483648 ≤ rest) (restUpper : rest ≤ 2147483648)
    (computes : ∀ state,
      math state (carrySet cpu) = (state.gpr ra).toInt + rest)
    (wraps : (wide cpu (carrySet cpu)).setWidth 32 =
      BitVec.ofInt 32 ((cpu.gpr ra).toInt + rest))
    (apart : fresh ≠ ra) :
    Agree rt (extended wide math rt true rc cpu) fresh
        (extended wide math fresh true rc cpu) ↔
      (rt = ra → InInt32 ((cpu.gpr ra).toInt + rest) ∧
        InInt32 ((cpu.gpr ra).toInt + 2 * rest)) := by
  let result : Word := BitVec.ofInt 32 ((cpu.gpr ra).toInt + rest)
  rw [extended_agree_iff _ _ ((cpu.gpr ra).toInt + rest)
    ((Function.update cpu.gpr rt result ra).toInt + rest)]
  · by_cases same : rt = ra
    · have sum := retested_add_iff rest result (toInt_inInt32 (cpu.gpr ra))
        restLower restUpper rfl
      rw [same, Function.update_self, sum]
      simp
    · rw [Function.update_of_ne (Ne.symm same)]
      simp [same]
  · intro value carry
    rw [computes]
    simp [setCarry, Function.update_of_ne (Ne.symm apart)]
  · intro carry
    rw [computes, wraps]
    rfl

/-- Forms that subtract one operand from a constant and the carry. -/
theorem extended_sub_agree {wide : CpuState → Bool → DoubleWord}
    {math : CpuState → Bool → Int} (rest : Int)
    (computes : ∀ state,
      math state (carrySet cpu) = rest - (state.gpr ra).toInt)
    (wraps : (wide cpu (carrySet cpu)).setWidth 32 =
      BitVec.ofInt 32 (rest - (cpu.gpr ra).toInt))
    (apart : fresh ≠ ra) :
    Agree rt (extended wide math rt true rc cpu) fresh
        (extended wide math fresh true rc cpu) := by
  let result : Word := BitVec.ofInt 32 (rest - (cpu.gpr ra).toInt)
  rw [extended_agree_iff _ _ (rest - (cpu.gpr ra).toInt)
    (rest - (Function.update cpu.gpr rt result ra).toInt)]
  · by_cases same : rt = ra
    · rw [same, Function.update_self]
      exact retested_sub_iff rest result (toInt_inInt32 (cpu.gpr ra)) rfl
    · rw [Function.update_of_ne (Ne.symm same)]
  · intro value carry
    rw [computes]
    simp [setCarry, Function.update_of_ne (Ne.symm apart)]
  · intro carry
    rw [computes, wraps]
    rfl

theorem addme_agree_iff (apart : fresh ≠ ra) :
    Agree rt (addme rt ra true rc cpu) fresh (addme fresh ra true rc cpu) ↔
      AddmeSafe cpu rt ra := by
  have carryBound := carryIn_bounds cpu
  have bound := toInt_inInt32 (cpu.gpr ra)
  unfold addme
  rw [extended_add_agree_iff rc cpu (carryIn cpu - 1)
    (by omega) (by omega) ?_ ?_ apart]
  · unfold AddmeSafe InInt32 at *
    refine ⟨fun safe same => (safe same).2, fun safe same => ?_⟩
    have := safe same
    omega
  · intro state
    simp only [carryIn]
    omega
  · have sum : (cpu.gpr ra).toInt + (carryIn cpu - 1) =
        (cpu.gpr ra).toInt + carryIn cpu + -1 := by
      omega
    rw [wide_carry_minus_one, sum, BitVec.ofInt_add, BitVec.ofInt_add,
      BitVec.ofInt_toInt]

theorem addze_agree_iff (apart : fresh ≠ ra) :
    Agree rt (addze rt ra true rc cpu) fresh (addze fresh ra true rc cpu) ↔
      AddzeSafe cpu rt ra := by
  have carryBound := carryIn_bounds cpu
  have bound := toInt_inInt32 (cpu.gpr ra)
  unfold addze
  rw [extended_add_agree_iff rc cpu (carryIn cpu)
    (by omega) (by omega) ?_ ?_ apart]
  · unfold AddzeSafe InInt32 at *
    refine ⟨fun safe same => (safe same).2, fun safe same => ?_⟩
    have := safe same
    omega
  · intro state
    rfl
  · rw [wide_carry, BitVec.ofInt_add, BitVec.ofInt_toInt]

theorem subfme_agree (apart : fresh ≠ ra) :
    Agree rt (subfme rt ra true rc cpu) fresh
      (subfme fresh ra true rc cpu) := by
  unfold subfme
  refine extended_sub_agree rc cpu (carryIn cpu - 2)
    ?_ ?_ apart
  · intro state
    simp only [carryIn]
    omega
  · have sum : carryIn cpu - 2 - (cpu.gpr ra).toInt =
        (-1 - (cpu.gpr ra).toInt) + carryIn cpu + -1 := by
      omega
    rw [wide_carry_minus_one, ofInt_not, sum, BitVec.ofInt_add,
      BitVec.ofInt_add]

theorem subfze_agree (apart : fresh ≠ ra) :
    Agree rt (subfze rt ra true rc cpu) fresh
      (subfze fresh ra true rc cpu) := by
  unfold subfze
  refine extended_sub_agree rc cpu (carryIn cpu - 1)
    ?_ ?_ apart
  · intro state
    simp only [carryIn]
    omega
  · have sum : carryIn cpu - 1 - (cpu.gpr ra).toInt =
        (-1 - (cpu.gpr ra).toInt) + carryIn cpu := by
      omega
    rw [wide_carry, ofInt_not, sum, BitVec.ofInt_add]

end Arithmetic

section Shifts

variable {ra rt rb fresh : Register} (rc : Bool) (cpu : CpuState)

/-- The carry test after the write, for a shift that loses bits. -/
theorem lost_update_iff {shift : Nat} (small : shift < 32) :
    let source := cpu.gpr rt
    let after := Function.update cpu.gpr ra (source.sshiftRight shift)
    (source.slt 0 && (after rt &&& lostMask shift) != 0) =
        (source.slt 0 && (source &&& lostMask shift) != 0) ↔
      ShiftSafe ra rt source shift := by
  intro source after
  unfold ShiftSafe
  by_cases same : ra = rt
  · have written : after rt = source.sshiftRight shift := by
      simp [after, same]
    rw [written]
    cases negative : source.slt 0 with
    | false => simp
    | true =>
        by_cases positive : 0 < shift
        · rw [Bool.eq_iff_iff]
          simp [same, positive, small]
          tauto
        · obtain rfl : shift = 0 := by omega
          simp [lostMask]
  · have kept : after rt = source :=
      Function.update_of_ne (Ne.symm same) _ cpu.gpr
    simp [kept, same]

theorem srawi_agree_iff (sh : Register) (apart : fresh ≠ rt) :
    Agree ra (srawi ra rt sh rc cpu) fresh (srawi fresh rt sh rc cpu) ↔
      ShiftSafe ra rt (cpu.gpr rt) sh.toNat := by
  have mask : (if sh = 0 then 0 else ((1 : Word) <<< sh.toNat) - 1) =
      lostMask sh.toNat := by
    unfold lostMask
    split
    · rename_i zero
      subst zero
      rfl
    · rfl
  refine Iff.trans ?_ (lost_update_iff cpu sh.isLt)
  simp only [srawi, mask, agree_setCarry_iff]
  simp [Function.update_of_ne (Ne.symm apart)]

theorem sraw_agree_iff (apart : fresh ≠ rt) :
    Agree ra (sraw ra rt rb rc cpu) fresh (sraw fresh rt rb rc cpu) ↔
      ShiftSafe ra rt (cpu.gpr rt) (cpu.gpr rb &&& 0x3f).toNat := by
  generalize amount : (cpu.gpr rb &&& 0x3f).toNat = shift
  simp only [sraw, amount]
  by_cases large : 32 ≤ shift
  · have harmless : ShiftSafe ra rt (cpu.gpr rt) shift := by
      intro _ _ _ small
      omega
    simp only [large, if_true, agree_setCarry_iff, harmless, iff_true]
    rw [CpuState.setGpr_gpr, CpuState.setGpr_gpr,
      Function.update_of_ne (Ne.symm apart)]
    cases negative : (cpu.gpr rt).slt 0 with
    | false => simp
    | true =>
        have nonzero : cpu.gpr rt ≠ 0 := by
          intro zero
          rw [zero] at negative
          contradiction
        by_cases same : ra = rt
        · simpa [same] using nonzero
        · rw [Function.update_of_ne (Ne.symm same)]
  · by_cases zero : shift = 0
    · have harmless : ShiftSafe ra rt (cpu.gpr rt) shift := by
        intro _ _ positive
        omega
      simp [zero, agree_setCarry_iff, zero ▸ harmless]
    · refine Iff.trans ?_ (lost_update_iff cpu (by omega))
      simp only [large, zero, if_false, agree_setCarry_iff]
      simp [lostMask, Function.update_of_ne (Ne.symm apart)]

theorem rlwimi_agree (sh mb me : Register) (apart : fresh ≠ rt) :
    Agree ra (rlwimi ra rt sh mb me rc cpu) fresh
      (rlwimi fresh rt sh mb me rc
        (cpu.setGpr fresh (cpu.gpr ra))) := by
  simp only [rlwimi]
  rw [agree_record_iff]
  · simp
  · simp [Function.update_of_ne (Ne.symm apart)]
  · rfl

end Shifts

theorem forall_fresh_iff {first second : Register} {agree : Register → Prop}
    {safe : Prop}
    (each : ∀ fresh, fresh ≠ first → fresh ≠ second →
      (agree fresh ↔ safe)) :
    (∀ fresh, fresh ∉ [first, second] → agree fresh) ↔ safe := by
  obtain ⟨fresh, apartFirst, apartSecond⟩ := exists_fresh first second
  constructor
  · intro agreement
    exact (each fresh apartFirst apartSecond).mp
      (agreement fresh (by simp [apartFirst, apartSecond]))
  · intro holds other notSource
    simp only [List.mem_cons, List.not_mem_nil, or_false, not_or] at notSource
    exact (each other notSource.1 notSource.2).mpr holds

theorem forall_fresh_one_iff {source : Register} {agree : Register → Prop}
    {safe : Prop}
    (each : ∀ fresh, fresh ≠ source → (agree fresh ↔ safe)) :
    (∀ fresh, fresh ∉ [source] → agree fresh) ↔ safe := by
  have doubled := @forall_fresh_iff source source agree safe
    (fun fresh apart _ => each fresh apart)
  simpa using doubled

section Harmless

variable {dest fresh : Register} (ra rb : Register) (rc : Bool)
  (cpu : CpuState)

theorem add_agree : Agree dest (add dest ra rb false rc cpu) fresh
    (add fresh ra rb false rc cpu) := agree_setGpr _

theorem addc_agree : Agree dest (addc dest ra rb false rc cpu) fresh
    (addc fresh ra rb false rc cpu) := (agree_setCarry_iff _ _ _).mpr rfl

theorem subf_agree : Agree dest (subf dest ra rb false rc cpu) fresh
    (subf fresh ra rb false rc cpu) := agree_setGpr _

theorem subfc_agree : Agree dest (subfc dest ra rb false rc cpu) fresh
    (subfc fresh ra rb false rc cpu) := (agree_setCarry_iff _ _ _).mpr rfl

theorem neg_false_agree : Agree dest (neg dest ra false rc cpu) fresh
    (neg fresh ra false rc cpu) := agree_setGpr _

theorem adde_agree : Agree dest (adde dest ra rb false rc cpu) fresh
    (adde fresh ra rb false rc cpu) := extended_agree rc cpu

theorem subfe_agree : Agree dest (subfe dest ra rb false rc cpu) fresh
    (subfe fresh ra rb false rc cpu) := extended_agree rc cpu

theorem addme_agree : Agree dest (addme dest ra false rc cpu) fresh
    (addme fresh ra false rc cpu) := extended_agree rc cpu

theorem addze_agree : Agree dest (addze dest ra false rc cpu) fresh
    (addze fresh ra false rc cpu) := extended_agree rc cpu

theorem subfme_false_agree : Agree dest (subfme dest ra false rc cpu) fresh
    (subfme fresh ra false rc cpu) := extended_agree rc cpu

theorem subfze_false_agree : Agree dest (subfze dest ra false rc cpu) fresh
    (subfze fresh ra false rc cpu) := extended_agree rc cpu

theorem mulhw_agree : Agree dest (mulhw dest ra rb rc cpu) fresh
    (mulhw fresh ra rb rc cpu) := agree_setGpr _

theorem mulhwu_agree : Agree dest (mulhwu dest ra rb rc cpu) fresh
    (mulhwu fresh ra rb rc cpu) := agree_setGpr _

theorem mullw_agree (oe : Bool) : Agree dest (mullw dest ra rb oe rc cpu)
    fresh (mullw fresh ra rb oe rc cpu) := by
  cases oe with
  | false => exact agree_setGpr _
  | true => exact (agree_setOverflow_iff _ _ _).mpr rfl

theorem divwu_agree (oe : Bool) : Agree dest (divwu dest ra rb oe rc cpu)
    fresh (divwu fresh ra rb oe rc cpu) := by
  cases oe with
  | false => exact agree_setGpr _
  | true => exact (agree_setOverflow_iff _ _ _).mpr rfl

theorem divw_agree (oe : Bool) : Agree dest (divw dest ra rb oe rc cpu)
    fresh (divw fresh ra rb oe rc cpu) := by
  cases oe with
  | false => exact agree_setGpr _
  | true => exact (agree_setOverflow_iff _ _ _).mpr rfl

theorem logical_agree (operation : Word → Word → Word) :
    Agree dest (logical operation dest ra rb rc cpu) fresh
      (logical operation fresh ra rb rc cpu) := agree_setGpr _

theorem unary_agree (operation : Word → Word) :
    Agree dest (unary operation dest ra rc cpu) fresh
      (unary operation fresh ra rc cpu) := agree_setGpr _

theorem logicalImmediate_agree (operation : Word → Word → Word)
    (immediate : Word) :
    Agree dest (logicalImmediate operation dest ra immediate rc cpu) fresh
      (logicalImmediate operation fresh ra immediate rc cpu) := agree_setGpr _

theorem rlwinm_agree (sh mb me : Register) :
    Agree dest (rlwinm dest ra sh mb me rc cpu) fresh
      (rlwinm fresh ra sh mb me rc cpu) := agree_setGpr _

theorem rlwnm_agree (mb me : Register) :
    Agree dest (rlwnm dest ra rb mb me rc cpu) fresh
      (rlwnm fresh ra rb mb me rc cpu) := agree_setGpr _

end Harmless

/-- The extended opcodes whose flags are tested after the write. -/
def testsAfterWrite : List Nat :=
  [778, 522, 552, 520, 650, 648, 746, 714, 792, 824]

theorem agree_of_harmless {insn : Word} {form : AluForm}
    {operation : Register → CpuState → CpuState}
    (family : alu insn = some (form, operation)) (machine : Machine)
    (harmless : opcode insn = 31 → xo insn ∉ testsAfterWrite)
    {fresh : Register} (notSource : fresh ∉ form.sources insn) :
    Agree (form.destination insn)
      (operation (form.destination insn) machine.cpu) fresh
      (operation fresh (form.prepare insn fresh machine).cpu) := by
  unfold alu at family
  simp only at family
  split at family
  case h_10 isGroup =>
    have harmless := harmless isGroup
    split at family
    all_goals first
      | contradiction
      | (rename_i isForm
         obtain ⟨rfl, rfl⟩ := Prod.mk.inj (Option.some.inj family)
         rw [isForm] at harmless
         simp only [AluForm.prepare, AluForm.sources] at notSource ⊢
         first
           | exact absurd (by decide) harmless
           | with_reducible first
             | exact add_agree _ _ _ _
             | exact addc_agree _ _ _ _
             | exact subf_agree _ _ _ _
             | exact subfc_agree _ _ _ _
             | exact adde_agree _ _ _ _
             | exact subfe_agree _ _ _ _
             | exact addme_agree _ _ _
             | exact addze_agree _ _ _
             | exact subfme_false_agree _ _ _
             | exact subfme_agree _ _ (List.ne_of_not_mem_cons notSource)
             | exact subfze_false_agree _ _ _
             | exact subfze_agree _ _ (List.ne_of_not_mem_cons notSource)
             | exact neg_false_agree _ _ _
             | exact neg_agree _ _ (List.ne_of_not_mem_cons notSource)
             | exact mulhw_agree _ _ _ _
             | exact mulhwu_agree _ _ _ _
             | exact mullw_agree _ _ _ _ _
             | exact divwu_agree _ _ _ _ _
             | exact divw_agree _ _ _ _ _
           | exact logical_agree _ _ _ _ _
           | exact unary_agree _ _ _ _)
  case h_1 isRlwimi =>
    obtain ⟨rfl, rfl⟩ := Prod.mk.inj (Option.some.inj family)
    exact rlwimi_agree _ _ _ _ _ (by simpa [AluForm.sources] using notSource)
  all_goals first
    | contradiction
    | (obtain ⟨rfl, rfl⟩ := Prod.mk.inj (Option.some.inj family)
       simp only [AluForm.prepare, ori, oris, xori, xoris, andi, andis]
       with_reducible first
         | exact logicalImmediate_agree _ _ _ _ _
         | exact rlwinm_agree _ _ _ _ _ _
         | exact rlwnm_agree _ _ _ _ _ _)

theorem aliasSafe_of_harmless {insn : Word} (cpu : CpuState)
    (harmless : opcode insn = 31 → xo insn ∉ testsAfterWrite) :
    AliasSafe insn cpu := by
  unfold AliasSafe
  simp only
  split
  · rename_i isGroup
    have notListed := harmless isGroup
    split
    all_goals first
      | trivial
      | (rename_i isForm
         rw [isForm] at notListed
         exact absurd (by decide) notListed)
  · trivial

/-- All fresh destinations of an operation agree with the one given. -/
def AgreesEverywhere (insn : Word) (form : AluForm)
    (operation : Register → CpuState → CpuState) (machine : Machine) : Prop :=
  ∀ fresh, fresh ∉ form.sources insn →
    Agree (form.destination insn)
      (operation (form.destination insn) machine.cpu) fresh
      (operation fresh (form.prepare insn fresh machine).cpu)

private theorem agree_iff_of_alu {insn : Word} {other : AluForm}
    {found : Register → CpuState → CpuState} {machine : Machine}
    {safe : Prop} (family : alu insn = some (other, found)) (form : AluForm)
    (operation : Register → CpuState → CpuState)
    (expected : alu insn = some (form, operation))
    (condition : AliasSafe insn machine.cpu = safe)
    (agreement : AgreesEverywhere insn form operation machine ↔ safe) :
    AgreesEverywhere insn other found machine ↔
      AliasSafe insn machine.cpu := by
  rw [expected] at family
  obtain ⟨rfl, rfl⟩ := Prod.mk.inj (Option.some.inj family)
  rw [condition]
  exact agreement

theorem agree_iff_of_tested {insn : Word} {form : AluForm}
    {operation : Register → CpuState → CpuState}
    (family : alu insn = some (form, operation)) (machine : Machine)
    (isGroup : opcode insn = 31) (tested : xo insn ∈ testsAfterWrite) :
    AgreesEverywhere insn form operation machine ↔
      AliasSafe insn machine.cpu := by
  simp only [testsAfterWrite, List.mem_cons, List.not_mem_nil, or_false]
    at tested
  rcases tested with isForm | isForm | isForm | isForm | isForm | isForm |
    isForm | isForm | isForm | isForm
  · refine agree_iff_of_alu family .rtRaRb
      (fun dest => add dest (ra insn) (rb insn) true (rc insn))
      (by unfold alu; rw [isGroup, isForm]; rfl)
      (by unfold AliasSafe; rw [if_pos isGroup, isForm]) ?_
    exact forall_fresh_iff fun _ => add_agree_iff _ _
  · refine agree_iff_of_alu family .rtRaRb
      (fun dest => addc dest (ra insn) (rb insn) true (rc insn))
      (by unfold alu; rw [isGroup, isForm]; rfl)
      (by unfold AliasSafe; rw [if_pos isGroup, isForm]) ?_
    exact forall_fresh_iff fun _ => addc_agree_iff _ _
  · refine agree_iff_of_alu family .rtRaRb
      (fun dest => subf dest (ra insn) (rb insn) true (rc insn))
      (by unfold alu; rw [isGroup, isForm]; rfl)
      (by unfold AliasSafe; rw [if_pos isGroup, isForm]) ?_
    exact forall_fresh_iff fun _ => subf_agree_iff _ _
  · refine agree_iff_of_alu family .rtRaRb
      (fun dest => subfc dest (ra insn) (rb insn) true (rc insn))
      (by unfold alu; rw [isGroup, isForm]; rfl)
      (by unfold AliasSafe; rw [if_pos isGroup, isForm]) ?_
    exact forall_fresh_iff fun _ => subfc_agree_iff _ _
  · refine agree_iff_of_alu family .rtRaRb
      (fun dest => adde dest (ra insn) (rb insn) true (rc insn))
      (by unfold alu; rw [isGroup, isForm]; rfl)
      (by unfold AliasSafe; rw [if_pos isGroup, isForm]) ?_
    exact forall_fresh_iff fun _ => adde_agree_iff _ _
  · refine agree_iff_of_alu family .rtRaRb
      (fun dest => subfe dest (ra insn) (rb insn) true (rc insn))
      (by unfold alu; rw [isGroup, isForm]; rfl)
      (by unfold AliasSafe; rw [if_pos isGroup, isForm]) ?_
    exact forall_fresh_iff fun _ => subfe_agree_iff _ _
  · refine agree_iff_of_alu family .rtRa
      (fun dest => addme dest (ra insn) true (rc insn))
      (by unfold alu; rw [isGroup, isForm]; rfl)
      (by unfold AliasSafe; rw [if_pos isGroup, isForm]) ?_
    exact forall_fresh_one_iff fun _ => addme_agree_iff _ _
  · refine agree_iff_of_alu family .rtRa
      (fun dest => addze dest (ra insn) true (rc insn))
      (by unfold alu; rw [isGroup, isForm]; rfl)
      (by unfold AliasSafe; rw [if_pos isGroup, isForm]) ?_
    exact forall_fresh_one_iff fun _ => addze_agree_iff _ _
  · refine agree_iff_of_alu family .raRtRb
      (fun dest => sraw dest (rt insn) (rb insn) (rc insn))
      (by unfold alu; rw [isGroup, isForm]; rfl)
      (by unfold AliasSafe; rw [if_pos isGroup, isForm]) ?_
    exact forall_fresh_iff fun _ apart _ => sraw_agree_iff _ _ apart
  · refine agree_iff_of_alu family .raRt
      (fun dest => srawi dest (rt insn) (rb insn) (rc insn))
      (by unfold alu; rw [isGroup, isForm]; rfl)
      (by unfold AliasSafe; rw [if_pos isGroup, isForm]) ?_
    exact forall_fresh_one_iff fun _ => srawi_agree_iff _ _ _

/-- Executing an integer instruction does not depend on the choice of its
destination exactly when its condition holds. -/
theorem execute_aliasInvariant_iff {insn : Word} {form : AluForm}
    {operation : Register → CpuState → CpuState}
    (family : alu insn = some (form, operation)) (host : Host)
    (config : ExecutionConfig) (currentPc : Word) (machine : Machine) :
    AliasInvariant host config currentPc insn form machine ↔
      AliasSafe insn machine.cpu := by
  refine (aliasInvariant_iff family host config currentPc machine).trans ?_
  by_cases tested : opcode insn = 31 ∧ xo insn ∈ testsAfterWrite
  · exact agree_iff_of_tested family machine tested.1 tested.2
  · have harmless : opcode insn = 31 → xo insn ∉ testsAfterWrite := by
      intro isGroup listed
      exact tested ⟨isGroup, listed⟩
    exact iff_of_true
      (fun _ notSource => agree_of_harmless family machine harmless notSource)
      (aliasSafe_of_harmless machine.cpu harmless)

/-- `addo r3,r3,r4` -/
def addoIntoSource : Word := 0x7c632614

/-- `r4` is one. -/
def adding (first : Word) : Machine :=
  { memory := .empty
    cpu := (CpuState.zero.setGpr 3 first).setGpr 4 1
    stderr := [] }

theorem execute_aliasInvariant_addo :
    alu addoIntoSource =
        some (.rtRaRb, fun dest => add dest 3 4 true false) ∧
      AliasInvariant Host.quiet {} 0x1000 addoIntoSource .rtRaRb
        (adding 0x7ffffffe) := by
  have family : alu addoIntoSource =
      some (.rtRaRb, fun dest => add dest 3 4 true false) := rfl
  refine ⟨family, (execute_aliasInvariant_iff family _ _ _ _).mpr ?_⟩
  intro _
  unfold InInt32
  decide

/-- `r3 + r4` overflows. -/
theorem addo_loses_overflow :
    ¬ AliasInvariant Host.quiet {} 0x1000 addoIntoSource .rtRaRb
      (adding 0x7fffffff) := by
  have family : alu addoIntoSource =
      some (.rtRaRb, fun dest => add dest 3 4 true false) := rfl
  rw [aliasInvariant_iff family]
  intro agree
  have sameXer := (agree 5 (by decide)).xer
  revert sameXer
  decide

end PpcLab.BuiltinInterpreter
