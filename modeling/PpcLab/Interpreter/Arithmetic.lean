import PpcLab.Interpreter.AliasSafety
import PpcLab.Interpreter.Run

/-!
# Integer arithmetic

The add, subtract, multiply and divide instructions against the arithmetic
they stand for: the exact result as an integer, the carry out of the unsigned
sum of their addends, and the overflow of the signed (for `divwu` the unsigned)
range.  A division whose result is undefined or does not fit writes zero.
-/

namespace PpcLab.BuiltinInterpreter

open Instruction

/-- The instructions with a form that records overflow. -/
inductive Arithmetic where
  | add
  | addc
  | adde
  | addme
  | addze
  | subf
  | subfc
  | subfe
  | subfme
  | subfze
  | neg
  | mullw
  | divw
  | divwu
  deriving DecidableEq, Repr

namespace Arithmetic

/-- The extended opcode of the form that does not record overflow. -/
def baseForm : Arithmetic → Nat
  | .add => 266
  | .addc => 10
  | .adde => 138
  | .addme => 234
  | .addze => 202
  | .subf => 40
  | .subfc => 8
  | .subfe => 136
  | .subfme => 232
  | .subfze => 200
  | .neg => 104
  | .mullw => 235
  | .divw => 491
  | .divwu => 459

/-- The extended opcode. -/
def form (operation : Arithmetic) (oe : Bool) : Nat :=
  operation.baseForm + if oe then 512 else 0

/-- The instruction has a second source. -/
def readsRb : Arithmetic → Bool
  | .add | .addc | .adde | .subf | .subfc | .subfe | .mullw | .divw
  | .divwu => true
  | .addme | .addze | .subfme | .subfze | .neg => false

/-- The result as an integer, if there is one. -/
def exact (operation : Arithmetic) (a b : Word) (carryIn : Bool) :
    Option Int :=
  let carry : Int := if carryIn then 1 else 0
  match operation with
  | .add | .addc => some (a.toInt + b.toInt)
  | .adde => some (a.toInt + b.toInt + carry)
  | .addme => some (a.toInt + carry - 1)
  | .addze => some (a.toInt + carry)
  | .subf | .subfc => some (b.toInt - a.toInt)
  | .subfe => some (b.toInt - a.toInt - 1 + carry)
  | .subfme => some (-a.toInt - 2 + carry)
  | .subfze => some (-a.toInt - 1 + carry)
  | .neg => some (-a.toInt)
  | .mullw => some (a.toInt * b.toInt)
  | .divw => if b = 0 then none else some (a.toInt.tdiv b.toInt)
  | .divwu => if b = 0 then none else some (a.toNat / b.toNat : Nat)

/-- The value has no word in the range of the instruction. -/
def outside (operation : Arithmetic) (value : Int) : Bool :=
  match operation with
  | .divwu => decide (value < 0) || decide (value > 4294967295)
  | _ => outsideInt32 value

/-- The result is undefined or not representable. -/
def overflows (operation : Arithmetic) (a b : Word) (carryIn : Bool) : Bool :=
  match operation.exact a b carryIn with
  | none => true
  | some value => operation.outside value

/-- The unsigned sum of the addends of a carrying form. -/
def carrySum (operation : Arithmetic) (a b : Word) (carryIn : Bool) :
    Option Nat :=
  match operation with
  | .addc => some (a.toNat + b.toNat)
  | .adde => some (a.toNat + b.toNat + carryIn.toNat)
  | .addme => some (a.toNat + carryIn.toNat + 4294967295)
  | .addze => some (a.toNat + carryIn.toNat)
  | .subfc => some (b.toNat + (~~~a).toNat + 1)
  | .subfe => some (b.toNat + (~~~a).toNat + carryIn.toNat)
  | .subfme => some ((~~~a).toNat + carryIn.toNat + 4294967295)
  | .subfze => some ((~~~a).toNat + carryIn.toNat)
  | .add | .subf | .neg | .mullw | .divw | .divwu => none

/-- The carry out of 32 bits. -/
def carryOut (operation : Arithmetic) (a b : Word) (carryIn : Bool) :
    Option Bool :=
  (operation.carrySum a b carryIn).map fun sum => decide (2 ^ 32 ≤ sum)

def isDivision : Arithmetic → Bool
  | .divw | .divwu => true
  | _ => false

/-- What the destination receives. -/
def result (operation : Arithmetic) (a b : Word) (carryIn : Bool) : Word :=
  match operation.exact a b carryIn with
  | none => 0
  | some value =>
      if operation.isDivision && operation.outside value then 0
      else BitVec.ofInt 32 value

/-- The processor after the instruction. -/
structure Executes (operation : Arithmetic) (oe rc : Bool) (rt : Register)
    (a b : Word) (before after : CpuState) : Prop where
  destination : after.gpr = Function.update before.gpr rt
    (operation.result a b (carrySet before))
  carry : carrySet after =
    (operation.carryOut a b (carrySet before)).getD (carrySet before)
  overflow : after.xer.getLsbD 30 =
    if oe then operation.overflows a b (carrySet before)
    else before.xer.getLsbD 30
  sticky : summaryOverflow after =
    (summaryOverflow before ||
      (oe && operation.overflows a b (carrySet before)))
  restOfXer : ∀ index < 29, after.xer.getLsbD index = before.xer.getLsbD index
  condition : after.crField 0 =
    if rc then
      (if (after.gpr rt).toInt < 0 then 8 else 0) |||
        (if 0 < (after.gpr rt).toInt then 4 else 0) |||
        (if (after.gpr rt).toInt = 0 then 2 else 0) |||
        (if summaryOverflow after then 1 else 0)
    else before.crField 0
  otherFields : ∀ field, field ≠ 0 → after.crField field = before.crField field
  frame : { after with gpr := before.gpr, xer := before.xer, cr := before.cr } =
    before

/-- Write the destination, then the flags the instruction has. -/
def finish (rt : Register) (value : Word) (carry overflow : Option Bool)
    (rc : Bool) (cpu : CpuState) : CpuState :=
  let cpu := cpu.setGpr rt value
  let cpu := carry.elim cpu (setCarry cpu)
  let cpu := overflow.elim cpu (setOverflow cpu)
  record rc rt cpu

/-- The instruction of the interpreter. -/
def perform (operation : Arithmetic) (rt ra rb : Register) (oe rc : Bool) :
    CpuState → CpuState :=
  match operation with
  | .add => BuiltinInterpreter.add rt ra rb oe rc
  | .addc => BuiltinInterpreter.addc rt ra rb oe rc
  | .adde => BuiltinInterpreter.adde rt ra rb oe rc
  | .addme => BuiltinInterpreter.addme rt ra oe rc
  | .addze => BuiltinInterpreter.addze rt ra oe rc
  | .subf => BuiltinInterpreter.subf rt ra rb oe rc
  | .subfc => BuiltinInterpreter.subfc rt ra rb oe rc
  | .subfe => BuiltinInterpreter.subfe rt ra rb oe rc
  | .subfme => BuiltinInterpreter.subfme rt ra oe rc
  | .subfze => BuiltinInterpreter.subfze rt ra oe rc
  | .neg => BuiltinInterpreter.neg rt ra oe rc
  | .mullw => BuiltinInterpreter.mullw rt ra rb oe rc
  | .divw => BuiltinInterpreter.divw rt ra rb oe rc
  | .divwu => BuiltinInterpreter.divwu rt ra rb oe rc

theorem execute_perform (operation : Arithmetic) (oe : Bool) {insn : Word}
    (group : opcode insn = 31) (isForm : xo insn = operation.form oe)
    (host : Host) (config : ExecutionConfig) (currentPc : Word)
    (machine : Machine) :
    execute host config currentPc insn machine =
      onCpu (operation.perform (rt insn) (ra insn) (rb insn) oe (rc insn))
        machine := by
  rw [execute_of_group31 host config currentPc machine group]
  unfold execute31
  rw [isForm]
  cases operation <;> cases oe <;> rfl

section Wide

variable {wide : DoubleWord} {sum : Nat} {value : Int}

private theorem wide_carry_out (isSum : wide.toNat = sum) :
    ((wide >>> 32) != 0) = decide (2 ^ 32 ≤ sum) := by
  have shifted : (wide >>> 32 = 0) ↔ ¬ 2 ^ 32 ≤ sum := by
    rw [← BitVec.toNat_inj, BitVec.toNat_ushiftRight, isSum,
      Nat.shiftRight_eq_div_pow]
    change sum / 2 ^ 32 = 0 ↔ _
    omega
  by_cases carried : 2 ^ 32 ≤ sum
  · rw [decide_eq_true carried, bne_iff_ne]
    exact fun zero => shifted.mp zero carried
  · rw [decide_eq_false carried, bne_eq_false_iff_eq]
    exact shifted.mpr carried

private theorem wide_low (isSum : wide.toNat = sum)
    (same : (sum : Int) % 4294967296 = value % 4294967296) :
    wide.setWidth 32 = BitVec.ofInt 32 value := by
  apply BitVec.eq_of_toInt_eq
  rw [BitVec.toInt_ofInt, BitVec.toInt_eq_toNat_bmod, BitVec.toNat_setWidth,
    isSum]
  rw [← Int.emod_bmod (x := value), Int.bmod_def, Int.bmod_def]
  omega

private theorem toInt_mod (word : Word) :
    word.toInt % 4294967296 = word.toNat := by
  have bound := word.isLt
  rw [BitVec.toInt_eq_toNat_cond]
  split <;> omega

private theorem toNat_wide (word : Word) :
    (word.setWidth 64 : DoubleWord).toNat = word.toNat := by
  have bound := word.isLt
  rw [BitVec.toNat_setWidth]
  omega

private theorem toNat_carryWord (carryIn : Bool) :
    (carryWord carryIn).toNat = carryIn.toNat := by
  cases carryIn with
  | true => rfl
  | false => rfl

private theorem toNat_add_wide {first second : DoubleWord} {m n : Nat}
    (isFirst : first.toNat = m) (isSecond : second.toNat = n)
    (small : m + n < 2 ^ 64) : (first + second).toNat = m + n := by
  rw [BitVec.toNat_add, isFirst, isSecond, Nat.mod_eq_of_lt small]

private theorem toNat_not (word : Word) :
    (~~~word).toNat = 4294967295 - word.toNat := by
  rw [BitVec.toNat_not]

end Wide

section Shape

variable (rt ra rb : Register) (oe rc : Bool) (cpu : CpuState)

/-- The instruction with the result, carry and overflow of its arithmetic. -/
def shaped (operation : Arithmetic) : CpuState :=
  finish rt
    (operation.result (cpu.gpr ra) (cpu.gpr rb) (carrySet cpu))
    (operation.carryOut (cpu.gpr ra) (cpu.gpr rb) (carrySet cpu))
    (if oe then
      some (operation.overflows (cpu.gpr ra) (cpu.gpr rb) (carrySet cpu))
    else none) rc cpu

variable {rt ra rb}

private theorem read_other (apart : rt ≠ ra) (value : Word) :
    (cpu.setGpr rt value).gpr ra = cpu.gpr ra :=
  Function.update_of_ne (Ne.symm apart) _ _

private theorem read_back (value : Word) :
    (cpu.setGpr rt value).gpr rt = value :=
  Function.update_self _ _ _

private theorem setCarry_gpr (carry : Bool) :
    (setCarry cpu carry).gpr = cpu.gpr :=
  rfl

private theorem add_shaped (apartA : rt ≠ ra) (apartB : rt ≠ rb) :
    BuiltinInterpreter.add rt ra rb oe rc cpu =
      shaped rt ra rb oe rc cpu .add := by
  have sum : cpu.gpr ra + cpu.gpr rb =
      BitVec.ofInt 32 ((cpu.gpr ra).toInt + (cpu.gpr rb).toInt) := by
    rw [BitVec.ofInt_add, BitVec.ofInt_toInt, BitVec.ofInt_toInt]
  unfold BuiltinInterpreter.add
  dsimp only
  rw [read_other _ apartA, read_other _ apartB, read_back,
    addOverflow_add, sum]
  cases oe with
  | true => rfl
  | false => rfl

private theorem subf_shaped (apartA : rt ≠ ra) (apartB : rt ≠ rb) :
    BuiltinInterpreter.subf rt ra rb oe rc cpu =
      shaped rt ra rb oe rc cpu .subf := by
  have difference : cpu.gpr rb - cpu.gpr ra =
      BitVec.ofInt 32 ((cpu.gpr rb).toInt - (cpu.gpr ra).toInt) := by
    rw [Int.sub_eq_add_neg, BitVec.ofInt_add, BitVec.ofInt_neg,
      BitVec.ofInt_toInt, BitVec.ofInt_toInt, BitVec.sub_eq_add_neg]
  unfold BuiltinInterpreter.subf
  dsimp only
  rw [read_other _ apartA, read_other _ apartB, read_back,
    subOverflow_sub, difference]
  cases oe with
  | true => rfl
  | false => rfl

private theorem addc_shaped (apartA : rt ≠ ra) (apartB : rt ≠ rb) :
    BuiltinInterpreter.addc rt ra rb oe rc cpu =
      shaped rt ra rb oe rc cpu .addc := by
  have sum : cpu.gpr ra + cpu.gpr rb =
      BitVec.ofInt 32 ((cpu.gpr ra).toInt + (cpu.gpr rb).toInt) := by
    rw [BitVec.ofInt_add, BitVec.ofInt_toInt, BitVec.ofInt_toInt]
  have isSum : ((cpu.gpr ra).setWidth 64 + (cpu.gpr rb).setWidth 64 :
      DoubleWord).toNat = (cpu.gpr ra).toNat + (cpu.gpr rb).toNat := by
    apply toNat_add_wide (toNat_wide _) (toNat_wide _)
    omega
  unfold BuiltinInterpreter.addc
  dsimp only
  rw [wide_carry_out isSum, wide_add, setCarry_gpr, read_other _ apartA,
    read_other _ apartB, read_back, addOverflow_add, sum]
  cases oe with
  | true => rfl
  | false => rfl

private theorem subfc_shaped (apartA : rt ≠ ra) (apartB : rt ≠ rb) :
    BuiltinInterpreter.subfc rt ra rb oe rc cpu =
      shaped rt ra rb oe rc cpu .subfc := by
  have difference : cpu.gpr rb - cpu.gpr ra =
      BitVec.ofInt 32 ((cpu.gpr rb).toInt - (cpu.gpr ra).toInt) := by
    rw [Int.sub_eq_add_neg, BitVec.ofInt_add, BitVec.ofInt_neg,
      BitVec.ofInt_toInt, BitVec.ofInt_toInt, BitVec.sub_eq_add_neg]
  have isSum : ((cpu.gpr rb).setWidth 64 + (~~~cpu.gpr ra).setWidth 64 + 1 :
      DoubleWord).toNat =
        (cpu.gpr rb).toNat + (~~~cpu.gpr ra).toNat + 1 := by
    apply toNat_add_wide (toNat_add_wide (toNat_wide _) (toNat_wide _) _)
    · rfl
    · omega
    · omega
  unfold BuiltinInterpreter.subfc
  dsimp only
  rw [wide_carry_out isSum, wide_sub, setCarry_gpr, read_other _ apartA,
    read_other _ apartB, read_back, subOverflow_sub, difference]
  cases oe with
  | true => rfl
  | false => rfl

private theorem neg_shaped (apartA : rt ≠ ra) :
    BuiltinInterpreter.neg rt ra oe rc cpu =
      shaped rt ra rb oe rc cpu .neg := by
  have negated : 0 - cpu.gpr ra = BitVec.ofInt 32 (-(cpu.gpr ra).toInt) := by
    rw [BitVec.ofInt_neg, BitVec.ofInt_toInt]
    exact BitVec.zero_sub _
  have isMinimum : (cpu.gpr ra == 0x80000000) =
      outsideInt32 (-(cpu.gpr ra).toInt) := by
    have bound := toInt_inInt32 (cpu.gpr ra)
    unfold InInt32 at bound
    unfold outsideInt32
    rw [Bool.eq_iff_iff, beq_iff_eq, Bool.or_eq_true, decide_eq_true_eq,
      decide_eq_true_eq, ← BitVec.toInt_inj]
    change (cpu.gpr ra).toInt = -2147483648 ↔ _
    omega
  unfold BuiltinInterpreter.neg
  dsimp only
  rw [read_other _ apartA, isMinimum, negated]
  cases oe with
  | true => rfl
  | false => rfl

/-- The extended forms, from the value of their sum. -/
private theorem extended_eq {wide : CpuState → Bool → DoubleWord}
    {math : CpuState → Bool → Int} {sum : Nat} {value : Int}
    (isSum : (wide cpu (carrySet cpu)).toNat = sum)
    (same : (sum : Int) % 4294967296 = value % 4294967296)
    (kept : ∀ result carry,
      math (setCarry (cpu.setGpr rt result) carry) (carrySet cpu) = value) :
    extended wide math rt oe rc cpu =
      finish rt (BitVec.ofInt 32 value) (some (decide (2 ^ 32 ≤ sum)))
        (if oe then some (outsideInt32 value) else none) rc cpu := by
  unfold extended
  dsimp only
  rw [kept, wide_carry_out isSum, wide_low isSum same]
  cases oe with
  | true => rfl
  | false => rfl

private theorem adde_shaped (apartA : rt ≠ ra) (apartB : rt ≠ rb) :
    BuiltinInterpreter.adde rt ra rb oe rc cpu =
      shaped rt ra rb oe rc cpu .adde := by
  have modA := toInt_mod (cpu.gpr ra)
  have modB := toInt_mod (cpu.gpr rb)
  have carryBound := Bool.toNat_le (carrySet cpu)
  apply extended_eq
  · apply toNat_add_wide (toNat_add_wide (toNat_wide _) (toNat_wide _) _)
      (toNat_carryWord _)
    · omega
    · omega
  · cases carrySet cpu <;> simp only [Bool.toNat_true, Bool.toNat_false] <;>
      push_cast <;> omega
  · intro result carry
    rw [setCarry_gpr, read_other _ apartA, read_other _ apartB]

private theorem subfe_shaped (apartA : rt ≠ ra) (apartB : rt ≠ rb) :
    BuiltinInterpreter.subfe rt ra rb oe rc cpu =
      shaped rt ra rb oe rc cpu .subfe := by
  have modA := toInt_mod (cpu.gpr ra)
  have modB := toInt_mod (cpu.gpr rb)
  have carryBound := Bool.toNat_le (carrySet cpu)
  have complement := toNat_not (cpu.gpr ra)
  apply extended_eq
  · apply toNat_add_wide (toNat_add_wide (toNat_wide _) (toNat_wide _) _)
      (toNat_carryWord _)
    · omega
    · omega
  · cases carrySet cpu <;> simp only [Bool.toNat_true, Bool.toNat_false] <;>
      push_cast <;> omega
  · intro result carry
    rw [setCarry_gpr, read_other _ apartA, read_other _ apartB]
    cases carrySet cpu <;> simp only [if_true, Bool.false_eq_true, if_false] <;>
      omega

private theorem addme_shaped (apartA : rt ≠ ra) :
    BuiltinInterpreter.addme rt ra oe rc cpu =
      shaped rt ra rb oe rc cpu .addme := by
  have modA := toInt_mod (cpu.gpr ra)
  have carryBound := Bool.toNat_le (carrySet cpu)
  apply extended_eq
  · apply toNat_add_wide (toNat_add_wide (toNat_wide _) (toNat_carryWord _) _)
    · rfl
    · omega
    · omega
  · cases carrySet cpu <;> simp only [Bool.toNat_true, Bool.toNat_false] <;>
      push_cast <;> omega
  · intro result carry
    rw [setCarry_gpr, read_other _ apartA]

private theorem subfme_shaped (apartA : rt ≠ ra) :
    BuiltinInterpreter.subfme rt ra oe rc cpu =
      shaped rt ra rb oe rc cpu .subfme := by
  have modA := toInt_mod (cpu.gpr ra)
  have carryBound := Bool.toNat_le (carrySet cpu)
  have complement := toNat_not (cpu.gpr ra)
  apply extended_eq
  · apply toNat_add_wide (toNat_add_wide (toNat_wide _) (toNat_carryWord _) _)
    · rfl
    · omega
    · omega
  · cases carrySet cpu <;> simp only [Bool.toNat_true, Bool.toNat_false] <;>
      push_cast <;> omega
  · intro result carry
    rw [setCarry_gpr, read_other _ apartA]
    omega

private theorem addze_shaped (apartA : rt ≠ ra) :
    BuiltinInterpreter.addze rt ra oe rc cpu =
      shaped rt ra rb oe rc cpu .addze := by
  have modA := toInt_mod (cpu.gpr ra)
  have carryBound := Bool.toNat_le (carrySet cpu)
  apply extended_eq
  · apply toNat_add_wide (toNat_wide _) (toNat_carryWord _)
    omega
  · cases carrySet cpu <;> simp only [Bool.toNat_true, Bool.toNat_false] <;>
      push_cast <;> omega
  · intro result carry
    rw [setCarry_gpr, read_other _ apartA]

private theorem subfze_shaped (apartA : rt ≠ ra) :
    BuiltinInterpreter.subfze rt ra oe rc cpu =
      shaped rt ra rb oe rc cpu .subfze := by
  have modA := toInt_mod (cpu.gpr ra)
  have carryBound := Bool.toNat_le (carrySet cpu)
  have complement := toNat_not (cpu.gpr ra)
  apply extended_eq
  · apply toNat_add_wide (toNat_wide _) (toNat_carryWord _)
    omega
  · cases carrySet cpu <;> simp only [Bool.toNat_true, Bool.toNat_false] <;>
      push_cast <;> omega
  · intro result carry
    rw [setCarry_gpr, read_other _ apartA]
    omega

private theorem mullw_shaped :
    BuiltinInterpreter.mullw rt ra rb oe rc cpu =
      shaped rt ra rb oe rc cpu .mullw := by
  cases oe with
  | true => rfl
  | false => rfl

private theorem overflows_of_exact {operation : Arithmetic} {a b : Word}
    {carryIn : Bool} {value : Int}
    (isExact : operation.exact a b carryIn = some value) :
    operation.overflows a b carryIn = operation.outside value := by
  rw [overflows, isExact]

private theorem overflows_of_none {operation : Arithmetic} {a b : Word}
    {carryIn : Bool} (undefined : operation.exact a b carryIn = none) :
    operation.overflows a b carryIn = true := by
  rw [overflows, undefined]

private theorem result_of_exact {operation : Arithmetic} {a b : Word}
    {carryIn : Bool} {value : Int}
    (isExact : operation.exact a b carryIn = some value) :
    operation.result a b carryIn =
      if operation.isDivision && operation.outside value then 0
      else BitVec.ofInt 32 value := by
  rw [result, isExact]

private theorem result_of_none {operation : Arithmetic} {a b : Word}
    {carryIn : Bool} (undefined : operation.exact a b carryIn = none) :
    operation.result a b carryIn = 0 := by
  rw [result, undefined]

/-- A signed quotient leaves the range only at the least word by minus one. -/
private theorem outside_tdiv {a b : Word} (nonzero : b ≠ 0) :
    outsideInt32 (a.toInt.tdiv b.toInt) =
      (a == 0x80000000 && b == 0xffffffff) := by
  have aBound := toInt_inInt32 a
  have bNonzero : b.toInt ≠ 0 := fun zero =>
    nonzero (BitVec.toInt_inj.mp zero)
  have size := Int.natAbs_tdiv a.toInt b.toInt
  unfold InInt32 at aBound
  unfold outsideInt32
  rw [Bool.eq_iff_iff, Bool.or_eq_true, decide_eq_true_eq, decide_eq_true_eq,
    Bool.and_eq_true, beq_iff_eq, beq_iff_eq, ← BitVec.toInt_inj,
    ← BitVec.toInt_inj (x := b)]
  change _ ↔ a.toInt = -2147483648 ∧ b.toInt = -1
  generalize a.toInt = x at *
  generalize b.toInt = y at *
  by_cases isMinusOne : y = -1
  · rw [isMinusOne, Int.tdiv_neg, Int.tdiv_one]
    omega
  · by_cases isOne : y = 1
    · rw [isOne, Int.tdiv_one]
      omega
    · have half : x.natAbs / y.natAbs ≤ x.natAbs / 2 :=
        Nat.div_le_div_left (by omega) (by omega)
      change _ = x.natAbs / y.natAbs at size
      omega

private theorem divw_shaped :
    BuiltinInterpreter.divw rt ra rb oe rc cpu =
      shaped rt ra rb oe rc cpu .divw := by
  have asFinish : BuiltinInterpreter.divw rt ra rb oe rc cpu =
      finish rt (if cpu.gpr rb == 0 ||
          (cpu.gpr ra == 0x80000000 && cpu.gpr rb == 0xffffffff) then 0
        else BitVec.ofInt 32 ((cpu.gpr ra).toInt.tdiv (cpu.gpr rb).toInt))
        none (if oe then some (cpu.gpr rb == 0 ||
          (cpu.gpr ra == 0x80000000 && cpu.gpr rb == 0xffffffff))
        else none) rc cpu := by
    cases oe with
    | true => rfl
    | false => rfl
  rw [asFinish, shaped]
  by_cases zero : cpu.gpr rb = 0
  · have undefined : exact .divw (cpu.gpr ra) (cpu.gpr rb) (carrySet cpu) =
        none := if_pos zero
    rw [result_of_none undefined, overflows_of_none undefined,
      beq_iff_eq.mpr zero]
    rfl
  · have isExact : exact .divw (cpu.gpr ra) (cpu.gpr rb) (carrySet cpu) =
        some ((cpu.gpr ra).toInt.tdiv (cpu.gpr rb).toInt) := if_neg zero
    rw [result_of_exact isExact, overflows_of_exact isExact,
      beq_eq_false_iff_ne.mpr zero, Bool.false_or, ← outside_tdiv zero]
    rfl

private theorem divwu_shaped :
    BuiltinInterpreter.divwu rt ra rb oe rc cpu =
      shaped rt ra rb oe rc cpu .divwu := by
  have asFinish : BuiltinInterpreter.divwu rt ra rb oe rc cpu =
      finish rt (if cpu.gpr rb == 0 then 0 else cpu.gpr ra / cpu.gpr rb)
        none (if oe then some (cpu.gpr rb == 0) else none) rc cpu := by
    cases oe with
    | true => rfl
    | false => rfl
  rw [asFinish, shaped]
  by_cases zero : cpu.gpr rb = 0
  · have undefined : exact .divwu (cpu.gpr ra) (cpu.gpr rb) (carrySet cpu) =
        none := if_pos zero
    rw [result_of_none undefined, overflows_of_none undefined,
      beq_iff_eq.mpr zero]
    rfl
  · have isExact : exact .divwu (cpu.gpr ra) (cpu.gpr rb) (carrySet cpu) =
        some ((cpu.gpr ra).toNat / (cpu.gpr rb).toNat : Nat) := if_neg zero
    have bound := (cpu.gpr ra).isLt
    have small : (cpu.gpr ra).toNat / (cpu.gpr rb).toNat ≤
        (cpu.gpr ra).toNat := Nat.div_le_self _ _
    have fits : outside .divwu
        ((cpu.gpr ra).toNat / (cpu.gpr rb).toNat : Nat) = false := by
      unfold outside
      rw [Bool.or_eq_false_iff, decide_eq_false_iff_not,
        decide_eq_false_iff_not]
      generalize (cpu.gpr ra).toNat / (cpu.gpr rb).toNat = quotient at *
      omega
    have quotient : cpu.gpr ra / cpu.gpr rb = BitVec.ofInt 32
        ((cpu.gpr ra).toNat / (cpu.gpr rb).toNat : Nat) := by
      rw [BitVec.ofInt_natCast]
      apply BitVec.eq_of_toNat_eq
      rw [BitVec.toNat_udiv, BitVec.toNat_ofNat, Nat.mod_eq_of_lt (by omega)]
    rw [result_of_exact isExact, overflows_of_exact isExact, fits,
      beq_eq_false_iff_ne.mpr zero, quotient]
    rfl

/-- Every instruction has the shape when its destination is none of its
sources. -/
theorem perform_eq_shaped (operation : Arithmetic) (apartA : rt ≠ ra)
    (apartB : operation.readsRb = true → rt ≠ rb) :
    operation.perform rt ra rb oe rc cpu =
      shaped rt ra rb oe rc cpu operation := by
  cases operation with
  | add => exact add_shaped _ _ _ apartA (apartB rfl)
  | addc => exact addc_shaped _ _ _ apartA (apartB rfl)
  | adde => exact adde_shaped _ _ _ apartA (apartB rfl)
  | addme => exact addme_shaped _ _ _ apartA
  | addze => exact addze_shaped _ _ _ apartA
  | subf => exact subf_shaped _ _ _ apartA (apartB rfl)
  | subfc => exact subfc_shaped _ _ _ apartA (apartB rfl)
  | subfe => exact subfe_shaped _ _ _ apartA (apartB rfl)
  | subfme => exact subfme_shaped _ _ _ apartA
  | subfze => exact subfze_shaped _ _ _ apartA
  | neg => exact neg_shaped _ _ _ apartA
  | mullw => exact mullw_shaped _ _ _
  | divw => exact divw_shaped _ _ _
  | divwu => exact divwu_shaped _ _ _

end Shape

end Arithmetic

end PpcLab.BuiltinInterpreter
