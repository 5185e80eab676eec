import PpcLab.Interpreter.Run
import PpcLab.Library.Immediate
import PpcLab.Loader.DirectAccess

/-!
# Running loaded code

What the interpreter does with the few instructions a loader patches: branches
and the two-instruction sequences that build an address.  The displacement and
the immediates are read from the fields of the words in memory, so a loader's
result is judged by the fields it wrote.
-/

namespace PpcLab.Loader

open Instruction BuiltinInterpreter Immediate

theorem simm_eq_field (insn : Word) :
    simm insn = (insn.field 0 16).signExtend 32 := by
  have truncated : insn.setWidth 16 = insn.field 0 16 := by
    apply BitVec.eq_of_getLsbD_eq
    intro index bound
    rw [Word.getLsbD_field, BitVec.getLsbD_setWidth, Nat.zero_add]
  rw [simm, signExtend16, truncated]

/-- Testing one bit through a mask. -/
private theorem and_twoPow_ne_zero (word : Word) {index : Nat}
    (bound : index < 32) :
    ((word &&& BitVec.twoPow 32 index) != 0) = word.getLsbD index := by
  have nonzero : BitVec.twoPow 32 index ≠ 0 := by
    intro zero
    have bit := congrArg (fun bits => bits.getLsbD index) zero
    simp [bound] at bit
  rw [BitVec.and_twoPow]
  cases word.getLsbD index with
  | true => simpa using nonzero
  | false => simp

/-- Sign extension by mask, sign bit and fill is the displacement of the field
the mask selects. -/
private theorem maskedExtension (width : Nat) (insn : Word)
    {mask sign fill : Word} (narrow : width + 3 < 32)
    (maskBits : ∀ index < 32, mask.getLsbD index =
      (decide (2 ≤ index) && decide (index < width + 3)))
    (isSign : sign = BitVec.twoPow 32 (width + 2))
    (fillBits : ∀ index < 32, fill.getLsbD index =
      decide (width + 3 ≤ index)) :
    (if (insn &&& mask &&& sign) != 0 then insn &&& mask ||| fill
      else insn &&& mask) =
      displacement (insn.field 2 (width + 1)) := by
  have signBit : (insn &&& mask).getLsbD (width + 2) =
      insn.getLsbD (width + 2) := by
    rw [BitVec.getLsbD_and, maskBits _ (by omega)]
    simp
  have lowBits : ∀ index < width + 3,
      (insn.field 2 (width + 1) ++ 0#2).getLsbD index =
        (decide (2 ≤ index) && insn.getLsbD index) := by
    intro index inside
    rw [BitVec.getLsbD_append, Word.getLsbD_field]
    by_cases low : index < 2
    · have notHigh : ¬2 ≤ index := by omega
      simp [low, notHigh]
    · have high : 2 ≤ index := by omega
      have within : index - 2 < width + 1 := by omega
      have position : 2 + (index - 2) = index := by omega
      simp [low, high, within, position]
  have msb : (insn.field 2 (width + 1) ++ 0#2).msb =
      insn.getLsbD (width + 2) := by
    rw [BitVec.msb_eq_getLsbD_last, lowBits _ (by omega)]
    simp
  rw [isSign, and_twoPow_ne_zero _ (by omega), signBit]
  apply BitVec.eq_of_getLsbD_eq
  intro index bound
  rw [displacement, BitVec.getLsbD_signExtend, msb, decide_eq_true bound,
    Bool.true_and]
  have masked : (insn &&& mask).getLsbD index = (insn.getLsbD index &&
      (decide (2 ≤ index) && decide (index < width + 3))) := by
    rw [BitVec.getLsbD_and, maskBits index bound]
  have filled : (insn &&& mask ||| fill).getLsbD index =
      ((insn &&& mask).getLsbD index || decide (width + 3 ≤ index)) := by
    rw [BitVec.getLsbD_or, fillBits index bound]
  by_cases inside : index < width + 1 + 2
  · have notFill : ¬width + 3 ≤ index := by omega
    rw [if_pos inside, lowBits index inside]
    cases insn.getLsbD (width + 2) with
    | true =>
        rw [if_pos rfl, filled, masked, Bool.and_comm]
        simp [notFill, inside]
    | false =>
        rw [if_neg Bool.false_ne_true, masked, Bool.and_comm]
        simp [inside]
  · have isFill : width + 3 ≤ index := by omega
    rw [if_neg inside]
    cases insn.getLsbD (width + 2) with
    | true =>
        rw [if_pos rfl, filled]
        simp [isFill]
    | false =>
        rw [if_neg Bool.false_ne_true, masked]
        simp [inside]

theorem signExtend26_eq (insn : Word) :
    signExtend26 insn = displacement (insn.field 2 24) :=
  maskedExtension 23 insn (by omega) (by decide) (by decide) (by decide)

theorem signExtend14Shift2_eq (insn : Word) :
    signExtend14Shift2 insn = displacement (insn.field 2 14) :=
  maskedExtension 13 insn (by omega) (by decide) (by decide) (by decide)

/-- A run that gets to this address executes the word there. -/
structure Fetchable (config : ExecutionConfig) (memory : Memory)
    (address : Word) : Prop where
  notReturned : address ≠ config.returnAddress
  notImported : inImportRange config address = false
  executable : memory.executable address 4 = true
  readable : memory.readable address 4 = true

theorem Fetchable.of_sameShape {config : ExecutionConfig}
    {before after : Memory} {address : Word}
    (fetchable : Fetchable config before address)
    (same : before.SameShape after) : Fetchable config after address where
  notReturned := fetchable.notReturned
  notImported := fetchable.notImported
  executable := by
    rw [same.executable]
    exact fetchable.executable
  readable := by
    rw [same.readable]
    exact fetchable.readable

theorem Fetchable.fetches {config : ExecutionConfig} {machine : Machine}
    {insn : Word} (fetchable : Fetchable config machine.memory machine.cpu.pc)
    (present : directRead32 machine.memory machine.cpu.pc = some insn) :
    Fetches config machine insn where
  notReturned := fetchable.notReturned
  notImported := fetchable.notImported
  executable := fetchable.executable
  word := by
    rw [read32_eq_directRead32 fetchable.readable]
    exact present

/-- The state a turn leaves when its instruction changes registers only. -/
def afterCpu (config : ExecutionConfig) (insn : Word)
    (instruction : CpuState → CpuState) (machine : Machine) : Machine :=
  { writeTrace config insn machine with
    cpu := instruction { machine.cpu with pc := machine.cpu.pc + 4 } }

section Runs

variable (host : Host) {config : ExecutionConfig} {machine : Machine}
  {insn : Word}

theorem run_zero (config : ExecutionConfig) (machine : Machine) :
    (run host (withLimit config 0) machine).2 = machine := rfl

theorem run_succ_of_onCpu {instruction : CpuState → CpuState} (limit : Nat)
    (fetches : Fetches config machine insn)
    (executed : ∀ state, execute host config machine.cpu.pc insn state =
      onCpu instruction state) :
    (run host (withLimit config (limit + 1)) machine).2 =
      (run host (withLimit config limit)
        (afterCpu config insn instruction machine)).2 := by
  have turn : step host config machine =
      .next (afterCpu config insn instruction machine) := by
    rw [step_of_fetches host fetches, executed]
    simp [onCpu, Turn.mapResult, advance, afterCpu]
  rw [run_withLimit, run_withLimit, loop,
    budgetedLoop.succ_of_next limit turn]
  rfl

/-- Where a branch word goes when it is taken. -/
def branchTarget {width : Nat} (insn : Word) (words : BitVec width)
    (place : Word) : Word :=
  if aa insn then displacement words else place + displacement words

theorem run_branch (fetches : Fetches config machine insn)
    (isBranch : opcode insn = 18) :
    (run host (withLimit config 1) machine).2.cpu.pc =
      branchTarget insn (insn.field 2 24) machine.cpu.pc := by
  have executed : ∀ state, execute host config machine.cpu.pc insn state =
      onCpu (branch (signExtend26 insn) (aa insn) (lk insn)
        machine.cpu.pc) state := by
    intro state
    unfold execute
    rw [isBranch]
    rfl
  rw [run_succ_of_onCpu host 0 fetches executed, run_zero, branchTarget,
    ← signExtend26_eq]
  rfl

/-- The condition of a `bc` holds in this state. -/
def Taken (cpu : CpuState) (insn : Word) : Prop :=
  (evaluateBranchCondition cpu (rt insn) (ra insn)).1 = true

private theorem evaluateBranchCondition_linked (cpu : CpuState)
    (bo bi : Register) (pc lr : Word) :
    (evaluateBranchCondition { cpu with pc, lr } bo bi).1 =
      (evaluateBranchCondition cpu bo bi).1 := by
  unfold evaluateBranchCondition
  generalize ((bo &&& 0x04) == 0) = decrement
  cases decrement with
  | true => rfl
  | false => rfl

private theorem bc_of_taken {cpu : CpuState} {bo bi : Register}
    (bd : Word) (aa lk : Bool) (currentPc : Word)
    (taken : (evaluateBranchCondition cpu bo bi).1 = true) :
    (bc bo bi bd aa lk currentPc { cpu with pc := currentPc + 4 }).pc =
      if aa then bd else currentPc + bd := by
  unfold bc
  cases lk with
  | true =>
      have linked := evaluateBranchCondition_linked cpu bo bi
        (currentPc + 4) (currentPc + 4)
      rw [taken] at linked
      simp only [if_true]
      split
      · rfl
      · rename_i refused
        rw [refused] at linked
        contradiction
  | false =>
      have unlinked := evaluateBranchCondition_linked cpu bo bi
        (currentPc + 4) cpu.lr
      rw [taken] at unlinked
      simp only [Bool.false_eq_true, if_false]
      split
      · rfl
      · rename_i refused
        rw [refused] at unlinked
        contradiction

theorem run_bc (fetches : Fetches config machine insn)
    (isBranch : opcode insn = 16) (taken : Taken machine.cpu insn) :
    (run host (withLimit config 1) machine).2.cpu.pc =
      branchTarget insn (insn.field 2 14) machine.cpu.pc := by
  have executed : ∀ state, execute host config machine.cpu.pc insn state =
      onCpu (bc (rt insn) (ra insn) (signExtend14Shift2 insn) (aa insn)
        (lk insn) machine.cpu.pc) state := by
    intro state
    unfold execute
    rw [isBranch]
    rfl
  rw [run_succ_of_onCpu host 0 fetches executed, run_zero, branchTarget,
    ← signExtend14Shift2_eq]
  exact bc_of_taken _ _ _ _ taken

/-- `addis rX,0,upper` and `addi rY,rX,lower`. -/
structure AdjustedPair (first second : Word) : Prop where
  isAddis : opcode first = 15
  noBase : ra first = 0
  isAddi : opcode second = 14
  base : ra second = rt first
  notZero : rt first ≠ 0

/-- `addis rX,0,upper` and `ori rY,rX,lower`. -/
structure JoinedPair (first second : Word) : Prop where
  isAddis : opcode first = 15
  noBase : ra first = 0
  isOri : opcode second = 24
  source : rt second = rt first

section Immediates

variable (insn : Word) (value : Half)

@[simp] theorem opcode_withImmediate :
    opcode (insn.withField 0 value) = opcode insn := by
  simp [opcode, Word.field_withField_apart]

@[simp] theorem rt_withImmediate :
    rt (insn.withField 0 value) = rt insn := by
  simp [rt, Word.field_withField_apart]

@[simp] theorem ra_withImmediate :
    ra (insn.withField 0 value) = ra insn := by
  simp [ra, Word.field_withField_apart]

end Immediates

theorem AdjustedPair.withImmediates {first second : Word}
    (pair : AdjustedPair first second) (upper lower : Half) :
    AdjustedPair (first.withField 0 upper) (second.withField 0 lower) := by
  obtain ⟨isAddis, noBase, isAddi, base, notZero⟩ := pair
  constructor <;> simpa

theorem JoinedPair.withImmediates {first second : Word}
    (pair : JoinedPair first second) (upper lower : Half) :
    JoinedPair (first.withField 0 upper) (second.withField 0 lower) := by
  obtain ⟨isAddis, noBase, isOri, source⟩ := pair
  constructor <;> simpa

/-- The two words stand at an address and the next one, and are fetched. -/
structure CodeAt (config : ExecutionConfig) (memory : Memory)
    (place first second : Word) : Prop where
  firstWord : directRead32 memory place = some first
  secondWord : directRead32 memory (place + 4) = some second
  firstFetchable : Fetchable config memory place
  secondFetchable : Fetchable config memory (place + 4)

section Patches

variable {before after : Memory} {place first second : Word}
  (code : CodeAt config before place first second)
  (wellFormed : before.WellFormed)

include code wellFormed

/-- The two words do not overlap, even when the second wraps to zero. -/
private theorem CodeAt.bounds :
    place.toNat + 4 ≤ 2 ^ 32 ∧ (place + 4).toNat + 4 ≤ 2 ^ 32 ∧
      ((place + 4).toNat = place.toNat + 4 ∨
        (place + 4).toNat = 0 ∧ place.toNat + 4 = 2 ^ 32) := by
  have firstWord := code.firstWord
  have secondWord := code.secondWord
  rw [directRead32_eq] at firstWord secondWord
  obtain ⟨_, firstRange, _⟩ := Option.map_eq_some_iff.mp firstWord
  obtain ⟨_, secondRange, _⟩ := Option.map_eq_some_iff.mp secondWord
  have firstBound := wellFormed.rangeAt_le (by omega) firstRange
  have secondBound := wellFormed.rangeAt_le (by omega) secondRange
  refine ⟨firstBound, secondBound, ?_⟩
  rw [BitVec.toNat_add, show (4 : Word).toNat = 4 from rfl]
  omega

theorem CodeAt.patchFirst {value : Half}
    (written : directWrite16 before (place + 2) value = some after) :
    CodeAt config after place (first.withField 0 value) second := by
  have shape := directWrite_sameShape written
  obtain ⟨firstBound, secondBound, next⟩ := code.bounds wellFormed
  have target : (place + 2).toNat = place.toNat + 2 := by
    rw [BitVec.toNat_add, show (2 : Word).toNat = 2 from rfl]
    omega
  refine ⟨directRead32_directWrite16 wellFormed code.firstWord written, ?_,
    code.firstFetchable.of_sameShape shape,
    code.secondFetchable.of_sameShape shape⟩
  rw [directRead32_directWrite_apart (by simp) written, code.secondWord]
  simp only [Bytes.length_encode]
  omega

theorem CodeAt.patchSecond {value : Half}
    (written : directWrite16 before (place + 6) value = some after) :
    CodeAt config after place first (second.withField 0 value) := by
  have shape := directWrite_sameShape written
  obtain ⟨firstBound, secondBound, next⟩ := code.bounds wellFormed
  have split : place + 6 = place + 4 + 2 := by
    rw [BitVec.add_assoc]
    rfl
  have target : (place + 6).toNat = (place + 4).toNat + 2 := by
    rw [split, BitVec.toNat_add, show (2 : Word).toNat = 2 from rfl]
    omega
  refine ⟨?_, directRead32_directWrite16 wellFormed code.secondWord
      (by rwa [← split]),
    code.firstFetchable.of_sameShape shape,
    code.secondFetchable.of_sameShape shape⟩
  rw [directRead32_directWrite_apart (by simp) written, code.firstWord]
  simp only [Bytes.length_encode]
  omega

theorem CodeAt.patchFirstWord {value : Word}
    (written : directWrite32 before place value = some after) :
    CodeAt config after place value second := by
  have shape := directWrite_sameShape written
  obtain ⟨firstBound, secondBound, next⟩ := code.bounds wellFormed
  refine ⟨directRead32_directWrite32 written, ?_,
    code.firstFetchable.of_sameShape shape,
    code.secondFetchable.of_sameShape shape⟩
  rw [directRead32_directWrite_apart (by simp) written, code.secondWord]
  simp only [Bytes.length_encode]
  omega

theorem CodeAt.patchSecondWord {value : Word}
    (written : directWrite32 before (place + 4) value = some after) :
    CodeAt config after place first value := by
  have shape := directWrite_sameShape written
  obtain ⟨firstBound, secondBound, next⟩ := code.bounds wellFormed
  refine ⟨?_, directRead32_directWrite32 written,
    code.firstFetchable.of_sameShape shape,
    code.secondFetchable.of_sameShape shape⟩
  rw [directRead32_directWrite_apart (by simp) written, code.firstWord]
  simp only [Bytes.length_encode]
  omega

end Patches

section Pairs

variable {first second : Word}
  (code : CodeAt config machine.memory machine.cpu.pc first second)

include code

private theorem run_addis_then {instruction : CpuState → CpuState}
    (isAddis : opcode first = 15) (noBase : ra first = 0)
    (executed : ∀ state,
      execute host config (machine.cpu.pc + 4) second state =
        onCpu instruction state) :
    (run host (withLimit config 2) machine).2.cpu =
      instruction
        { machine.cpu.setGpr (rt first)
            ((first.field 0 16).signExtend 32 <<< 16) with
          pc := machine.cpu.pc + 4 + 4 } := by
  have loaded : ∀ state, execute host config machine.cpu.pc first state =
      onCpu (addis (rt first) (ra first) (simm first)) state := by
    intro state
    unfold execute
    rw [isAddis]
    rfl
  have loads := code.firstFetchable.fetches code.firstWord
  rw [run_succ_of_onCpu host 1 loads loaded]
  generalize between : afterCpu config first
    (addis (rt first) (ra first) (simm first)) machine = middle
  have memoryKept : middle.memory = machine.memory := by
    rw [← between]
    simp [afterCpu]
  have cpuKept : middle.cpu =
      { machine.cpu.setGpr (rt first)
          ((first.field 0 16).signExtend 32 <<< 16) with
        pc := machine.cpu.pc + 4 } := by
    rw [← between, ← simm_eq_field]
    simp [afterCpu, addis, baseOrZero, noBase, CpuState.setGpr]
  have pcKept : middle.cpu.pc = machine.cpu.pc + 4 := by
    rw [cpuKept]
  have fetches : Fetches config middle second := by
    apply Fetchable.fetches
    · rw [memoryKept, pcKept]
      exact code.secondFetchable
    · rw [memoryKept, pcKept]
      exact code.secondWord
  have executedHere : ∀ state,
      execute host config middle.cpu.pc second state =
        onCpu instruction state := by
    rw [pcKept]
    exact executed
  rw [run_succ_of_onCpu host 0 fetches executedHere, run_zero]
  simp [afterCpu, cpuKept]

theorem run_adjustedPair (pair : AdjustedPair first second) :
    (run host (withLimit config 2) machine).2.cpu.gpr (rt second) =
      sum (first.field 0 16) (second.field 0 16) := by
  have executed : ∀ state,
      execute host config (machine.cpu.pc + 4) second state =
        onCpu (addi (rt second) (ra second) (simm second)) state := by
    intro state
    unfold execute
    rw [pair.isAddi]
    rfl
  rw [run_addis_then host code pair.isAddis pair.noBase executed]
  have base : baseOrZero
      { machine.cpu.setGpr (rt first)
          ((first.field 0 16).signExtend 32 <<< 16) with
        pc := machine.cpu.pc + 4 + 4 } (ra second) =
      (first.field 0 16).signExtend 32 <<< 16 := by
    rw [baseOrZero, pair.base, if_neg pair.notZero]
    simp
  rw [addi, base, simm_eq_field, CpuState.setGpr_gpr, Function.update_self]
  rfl

theorem run_joinedPair (pair : JoinedPair first second) :
    (run host (withLimit config 2) machine).2.cpu.gpr (ra second) =
      join (first.field 0 16) (second.field 0 16) := by
  have executed : ∀ state,
      execute host config (machine.cpu.pc + 4) second state =
        onCpu (ori (ra second) (rt second) (uimm second)) state := by
    intro state
    unfold execute
    rw [pair.isOri]
    rfl
  rw [run_addis_then host code pair.isAddis pair.noBase executed]
  simp [ori, logicalImmediate, record, pair.source, join, uimm_eq_field,
    shift_signExtend]

end Pairs

end Runs

end PpcLab.Loader
