import PpcLab.Interpreter.Arithmetic

/-!
# Recorded bits

What an instruction of the integer arithmetic leaves in the destination, in
XER and in the condition fields, for every instruction at once.
-/

namespace PpcLab.BuiltinInterpreter

open Instruction

namespace Arithmetic

section Flags

variable (cpu : CpuState) (rt : Register) (value : Word)
  (carry overflow : Option Bool) (rc : Bool)

private theorem carrySet_eq : carrySet cpu = cpu.xer.getLsbD 29 := by
  have mask : (0x20000000 : Word) = BitVec.twoPow 32 29 := by decide
  unfold carrySet
  rw [mask, BitVec.and_twoPow]
  cases cpu.xer.getLsbD 29 with
  | true => rfl
  | false => rfl

private theorem summaryOverflow_eq :
    summaryOverflow cpu = cpu.xer.getLsbD 31 := by
  unfold summaryOverflow
  rw [signMask_ne_zero, BitVec.msb_eq_getLsbD_last]

private theorem finish_gpr :
    (finish rt value carry overflow rc cpu).gpr =
      Function.update cpu.gpr rt value := by
  unfold finish
  rw [record_gpr]
  cases carry with
  | none => cases overflow <;> rfl
  | some carry => cases overflow <;> rfl

private theorem finish_frame :
    { finish rt value carry overflow rc cpu with
      gpr := cpu.gpr, xer := cpu.xer, cr := cpu.cr } = cpu := by
  unfold finish
  cases carry with
  | none => cases overflow <;> cases rc <;> rfl
  | some carry => cases overflow <;> cases rc <;> rfl

/-- The flags before the condition field is recorded. -/
private theorem finish_xer :
    (finish rt value carry overflow rc cpu).xer =
      (overflow.elim (carry.elim cpu (setCarry cpu))
        (setOverflow (carry.elim cpu (setCarry cpu)))).xer := by
  unfold finish
  rw [record_xer]
  cases carry with
  | none => cases overflow <;> rfl
  | some carry => cases overflow <;> rfl

private theorem setCarry_bit (carry : Bool) (index : Nat) :
    (setCarry cpu carry).xer.getLsbD index =
      if index = 29 then carry else cpu.xer.getLsbD index := by
  have mask : (0x20000000 : Word) = BitVec.twoPow 32 29 := by decide
  unfold setCarry
  rw [mask]
  by_cases isCarry : index = 29
  · rw [if_pos isCarry, isCarry]
    cases carry <;> simp
  · rw [if_neg isCarry]
    by_cases small : index < 32
    · cases carry <;> simp [small, isCarry]
    · rw [BitVec.getLsbD_of_ge _ _ (by omega),
        BitVec.getLsbD_of_ge _ _ (by omega)]

private theorem setOverflow_bit (overflow : Bool) (index : Nat) :
    (setOverflow cpu overflow).xer.getLsbD index =
      if index = 30 then overflow
      else if index = 31 then cpu.xer.getLsbD 31 || overflow
      else cpu.xer.getLsbD index := by
  have both : (0xc0000000 : Word) =
      BitVec.twoPow 32 30 ||| BitVec.twoPow 32 31 := by decide
  have mask : (0x40000000 : Word) = BitVec.twoPow 32 30 := by decide
  unfold setOverflow
  rw [both, mask]
  by_cases isOverflow : index = 30
  · rw [if_pos isOverflow, isOverflow]
    cases overflow <;> simp
  · rw [if_neg isOverflow]
    by_cases isSummary : index = 31
    · rw [if_pos isSummary, isSummary]
      cases overflow <;> simp
    · rw [if_neg isSummary]
      by_cases small : index < 32
      · cases overflow <;> simp [small, isOverflow, isSummary]
      · rw [BitVec.getLsbD_of_ge _ _ (by omega),
          BitVec.getLsbD_of_ge _ _ (by omega)]

/-- What the flag writers do to each bit of XER. -/
private theorem finish_bit (index : Nat) :
    (finish rt value carry overflow rc cpu).xer.getLsbD index =
      if index = 29 then carry.getD (cpu.xer.getLsbD 29)
      else if index = 30 then overflow.getD (cpu.xer.getLsbD 30)
      else if index = 31 then cpu.xer.getLsbD 31 || overflow.getD false
      else cpu.xer.getLsbD index := by
  have afterCarry (index : Nat) :
      (carry.elim cpu (setCarry cpu)).xer.getLsbD index =
        if index = 29 then carry.getD (cpu.xer.getLsbD 29)
        else cpu.xer.getLsbD index := by
    cases carry with
    | none =>
        dsimp only [Option.elim, Option.getD]
        split
        · rename_i isCarry
          rw [isCarry]
        · rfl
    | some carry => exact setCarry_bit cpu carry index
  rw [finish_xer]
  cases overflow with
  | none =>
      dsimp only [Option.elim_none, Option.getD_none]
      rw [afterCarry, Bool.or_false]
      split
      · rfl
      · split
        · rename_i isOverflow
          rw [isOverflow]
        · split
          · rename_i isSummary
            rw [isSummary]
          · rfl
  | some overflow =>
      dsimp only [Option.elim_some, Option.getD_some]
      rw [setOverflow_bit, afterCarry, afterCarry,
        if_neg (show ¬ 31 = 29 by decide)]
      by_cases isCarry : index = 29
      · rw [if_pos isCarry, if_pos isCarry, if_neg (by omega),
          if_neg (by omega)]
      · rw [if_neg isCarry, if_neg isCarry]

end Flags

section Fields

variable (cpu : CpuState) {nibble : Word}

private theorem nibbleMask_bit (index : Nat) :
    (0xf : Word).getLsbD index = decide (index < 4) := by
  have mask : (0xf : Word) = BitVec.ofNat 32 (2 ^ 4 - 1) := by decide
  rw [mask, BitVec.getLsbD_ofNat, Nat.testBit_two_pow_sub_one]
  by_cases small : index < 4
  · rw [decide_eq_true small, decide_eq_true (show index < 32 by omega)]
    rfl
  · rw [decide_eq_false small, Bool.and_false]

private theorem crField_bit (field : BitVec 3) (index : Nat) :
    (cpu.crField field).getLsbD index =
      (cpu.cr.getLsbD (CpuState.crShift field + index) &&
        decide (index < 4)) := by
  unfold CpuState.crField
  rw [BitVec.getLsbD_and, BitVec.getLsbD_ushiftRight, nibbleMask_bit]

private theorem assigned_bit (small : nibble.toNat < 16) (field : BitVec 3)
    (index : Nat) :
    (cpu.assignCrField field nibble).cr.getLsbD index =
      if CpuState.crShift field ≤ index ∧ index < CpuState.crShift field + 4
      then nibble.getLsbD (index - CpuState.crShift field)
      else cpu.cr.getLsbD index := by
  unfold CpuState.assignCrField
  rw [BitVec.getLsbD_or, BitVec.getLsbD_and, BitVec.getLsbD_not,
    BitVec.getLsbD_shiftLeft, BitVec.getLsbD_shiftLeft, nibbleMask_bit]
  have top : CpuState.crShift field + 4 ≤ 32 := by
    unfold CpuState.crShift
    omega
  by_cases low : index < CpuState.crShift field
  · rw [if_neg (by omega), decide_eq_true low]
    by_cases inWord : index < 32
    · simp [inWord]
    · omega
  · rw [decide_eq_false low]
    by_cases within : index - CpuState.crShift field < 4
    · rw [if_pos (by omega), decide_eq_true within,
        decide_eq_true (show index < 32 by omega)]
      simp
    · have clear : nibble.getLsbD (index - CpuState.crShift field) = false := by
        apply Nat.testBit_lt_two_pow
        calc nibble.toNat < 2 ^ 4 := small
          _ ≤ 2 ^ (index - CpuState.crShift field) :=
            Nat.pow_le_pow_right (by decide) (by omega)
      rw [if_neg (by omega), decide_eq_false within, clear]
      by_cases inWord : index < 32
      · simp [inWord]
      · rw [BitVec.getLsbD_of_ge _ _ (by omega)]
        simp

private theorem crField_assigned (small : nibble.toNat < 16)
    (field : BitVec 3) :
    (cpu.assignCrField field nibble).crField field = nibble := by
  apply BitVec.eq_of_getLsbD_eq
  intro index inWord
  rw [crField_bit, assigned_bit cpu small]
  by_cases within : index < 4
  · rw [if_pos (by omega), decide_eq_true within, Bool.and_true,
      Nat.add_sub_cancel_left]
  · have clear : nibble.getLsbD index = false := by
      apply Nat.testBit_lt_two_pow
      calc nibble.toNat < 2 ^ 4 := small
        _ ≤ 2 ^ index := Nat.pow_le_pow_right (by decide) (by omega)
    rw [decide_eq_false within, Bool.and_false, clear]

private theorem crField_kept (small : nibble.toNat < 16)
    {field other : BitVec 3} (apart : other ≠ field) :
    (cpu.assignCrField field nibble).crField other = cpu.crField other := by
  apply BitVec.eq_of_getLsbD_eq
  intro index inWord
  rw [crField_bit, crField_bit, assigned_bit cpu small]
  by_cases within : index < 4
  · have apartNat : other.toNat ≠ field.toNat := fun same =>
      apart (BitVec.eq_of_toNat_eq same)
    rw [if_neg]
    unfold CpuState.crShift
    omega
  · rw [decide_eq_false within, Bool.and_false, Bool.and_false]

end Fields

/-- The four bits recorded for a result. -/
private def recorded (value : Word) (summary : Bool) : Word :=
  (if value.toInt < 0 then 8 else 0) ||| (if 0 < value.toInt then 4 else 0) |||
    (if value.toInt = 0 then 2 else 0) ||| (if summary then 1 else 0)

private theorem recorded_small (value : Word) (summary : Bool) :
    (recorded value summary).toNat < 16 := by
  unfold recorded
  split <;> split <;> split <;> split <;> decide

private theorem updateCr0_eq (cpu : CpuState) (value : Word) :
    updateCr0 cpu value =
      cpu.assignCrField 0 (recorded value (summaryOverflow cpu)) := by
  have isZero : (value == 0) = decide (value.toInt = 0) := by
    rw [Bool.eq_iff_iff, beq_iff_eq, decide_eq_true_eq, ← BitVec.toInt_inj]
    rfl
  unfold updateCr0 CpuState.setCrField recorded
  rw [isZero]
  unfold BitVec.slt
  simp only [decide_eq_true_eq]
  rfl

section Record

variable (rc : Bool) (rt : Register) (cpu : CpuState)

private theorem record_condition :
    (record rc rt cpu).crField 0 =
      if rc then recorded (cpu.gpr rt) (summaryOverflow cpu)
      else cpu.crField 0 := by
  cases rc with
  | false => rfl
  | true =>
      rw [record, if_pos rfl, if_pos rfl, updateCr0_eq,
        crField_assigned cpu (recorded_small _ _)]

private theorem record_otherFields {field : BitVec 3} (apart : field ≠ 0) :
    (record rc rt cpu).crField field = cpu.crField field := by
  cases rc with
  | false => rfl
  | true =>
      rw [record, if_pos rfl, updateCr0_eq,
        crField_kept cpu (recorded_small _ _) apart]

end Record

private theorem finish_beforeRecord (rt : Register) (value : Word)
    (carry overflow : Option Bool) (rc : Bool) (cpu : CpuState) :
    ∃ flagged : CpuState,
      finish rt value carry overflow rc cpu = record rc rt flagged ∧
        flagged.cr = cpu.cr := by
  unfold finish
  refine ⟨_, rfl, ?_⟩
  cases carry with
  | none => cases overflow <;> rfl
  | some carry => cases overflow <;> rfl

theorem executes_shaped (operation : Arithmetic) (oe rc : Bool)
    (rt ra rb : Register) (cpu : CpuState) :
    operation.Executes oe rc rt (cpu.gpr ra) (cpu.gpr rb) cpu
      (shaped rt ra rb oe rc cpu operation) := by
  obtain ⟨flagged, isRecord, sameCr⟩ := finish_beforeRecord rt
    (operation.result (cpu.gpr ra) (cpu.gpr rb) (carrySet cpu))
    (operation.carryOut (cpu.gpr ra) (cpu.gpr rb) (carrySet cpu))
    (if oe then
      some (operation.overflows (cpu.gpr ra) (cpu.gpr rb) (carrySet cpu))
    else none) rc cpu
  have bit := finish_bit cpu rt
    (operation.result (cpu.gpr ra) (cpu.gpr rb) (carrySet cpu))
    (operation.carryOut (cpu.gpr ra) (cpu.gpr rb) (carrySet cpu))
    (if oe then
      some (operation.overflows (cpu.gpr ra) (cpu.gpr rb) (carrySet cpu))
    else none) rc
  refine ⟨finish_gpr _ _ _ _ _ _, ?_, ?_, ?_, ?_, ?_, ?_,
    finish_frame _ _ _ _ _ _⟩
  · unfold shaped
    rw [carrySet_eq, bit, if_pos rfl, ← carrySet_eq]
  · unfold shaped
    rw [bit, if_neg (by decide), if_pos rfl]
    cases oe with
    | true => rfl
    | false => rfl
  · unfold shaped
    rw [summaryOverflow_eq, bit, if_neg (by decide), if_neg (by decide),
      if_pos rfl, ← summaryOverflow_eq]
    cases oe with
    | true => rfl
    | false => rfl
  · intro index low
    unfold shaped
    rw [bit, if_neg (by omega), if_neg (by omega), if_neg (by omega)]
  · unfold shaped
    rw [isRecord, record_condition, record_gpr, CpuState.crField, sameCr]
    unfold summaryOverflow
    rw [record_xer]
    rfl
  · intro field apart
    unfold shaped
    rw [isRecord, record_otherFields _ _ _ apart, CpuState.crField, sameCr]
    rfl

end Arithmetic

/-- Add, subtract, negate, multiply and divide do what their arithmetic says
whenever the destination is none of the sources. -/
theorem arithmetic_executes (operation : Arithmetic) (oe : Bool) {insn : Word}
    (group : opcode insn = 31) (isForm : xo insn = operation.form oe)
    (apartA : rt insn ≠ ra insn)
    (apartB : operation.readsRb = true → rt insn ≠ rb insn)
    (host : Host) (config : ExecutionConfig) (currentPc : Word)
    (machine : Machine) :
    ∃ after, execute host config currentPc insn machine =
        .next { machine with cpu := after } ∧
      operation.Executes oe (rc insn) (rt insn) (machine.cpu.gpr (ra insn))
        (machine.cpu.gpr (rb insn)) machine.cpu after := by
  refine ⟨_, operation.execute_perform oe group isForm host config currentPc
    machine, ?_⟩
  rw [Arithmetic.perform_eq_shaped oe (rc insn) machine.cpu operation apartA
    apartB]
  exact Arithmetic.executes_shaped operation oe (rc insn) _ _ _ machine.cpu

/-- `addo. r3,r4,r5` -/
theorem addo_executes :
    ∃ after, execute Host.quiet {} 0 0x7c642e15
        ⟨.empty, { CpuState.zero with gpr := fun _ => 0x7fffffff }, []⟩ =
        .next ⟨.empty, after, []⟩ ∧
      Arithmetic.add.Executes true true 3 0x7fffffff 0x7fffffff
        { CpuState.zero with gpr := fun _ => 0x7fffffff } after :=
  arithmetic_executes .add true (by decide) (by decide) (by decide)
    (fun _ => by decide) Host.quiet {} 0
    ⟨.empty, { CpuState.zero with gpr := fun _ => 0x7fffffff }, []⟩

/-- The least word divided by minus one has a quotient, which is not what
`divwo r3,r4,r5` writes. -/
theorem least_by_minus_one_writes_zero :
    ∃ quotient after,
      Arithmetic.divw.exact 0x80000000 0xffffffff false = some quotient ∧
        execute Host.quiet {} 0 0x7c642fd6
          ⟨.empty, (CpuState.zero.setGpr 4 0x80000000).setGpr 5 0xffffffff,
            []⟩ = .next ⟨.empty, after, []⟩ ∧
        after.gpr 3 = 0 ∧ BitVec.ofInt 32 quotient = 0x80000000 := by
  refine ⟨2147483648, _, ?_, Arithmetic.execute_perform .divw true (by decide)
    (by decide) Host.quiet {} 0
    ⟨.empty, (CpuState.zero.setGpr 4 0x80000000).setGpr 5 0xffffffff, []⟩,
    ?_, ?_⟩
  · decide
  · decide
  · decide

end PpcLab.BuiltinInterpreter
