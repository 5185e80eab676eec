import PpcLab.Interpreter.Coverage
import PpcLab.Interpreter.Operands

/-!
# Faithful disassembly

Two known words with the same text do the same, unless the text hides an
operand that the executor reads: the record bit of `mr`, `fdiv` and `fsub`, and
the first factor of `fmuls`.
-/

namespace PpcLab.BuiltinInterpreter

open Instruction Text Operand

/-- Two words that differ in an operand their text does not show. -/
inductive Hidden (left right : Word) : Prop where
  | mr (leftGroup : opcode left = 31) (rightGroup : opcode right = 31)
      (leftForm : xo left = 444) (rightForm : xo right = 444)
      (leftMove : rt left = rb left) (rightMove : rt right = rb right)
      (sameRt : rt left = rt right) (sameRa : ra left = ra right)
      (record : rc left ≠ rc right)
  | fdivFsub (leftGroup : opcode left = 63) (rightGroup : opcode right = 63)
      (sameForm : xo left = xo right) (form : xo left = 18 ∨ xo left = 20)
      (sameRt : rt left = rt right) (sameRa : ra left = ra right)
      (sameRb : rb left = rb right) (record : rc left ≠ rc right)
  | fmuls (leftGroup : opcode left = 59) (rightGroup : opcode right = 59)
      (leftForm : xo5 left = 25) (rightForm : xo5 right = 25)
      (sameRt : rt left = rt right) (sameFrc : frc left = frc right)
      (sameRc : rc left = rc right) (factor : ra left ≠ ra right)

section Effects

variable (host : Host) (config : ExecutionConfig) (currentPc : Word)
  {left right : Word} (machine : Machine)

omit host config currentPc machine in
private theorem link_inj {linked plain : String} (apart : linked ≠ plain)
    (same : (if lk left then linked else plain) =
      if lk right then linked else plain) :
    lk left = lk right := by
  cases leftLink : lk left <;> cases rightLink : lk right <;>
    simp_all [apart.symm]

omit host config currentPc machine in
/-- The lines of `bclr` and `bcctr`, with their simplified form. -/
private theorem conditionalLine_inj {simplified linked plain : String}
    (apart : linked ≠ plain)
    (sameLine :
      (if rt left = 20 ∧ ra left = 0 ∧ lk left = false then
          (⟨simplified, []⟩ : Line)
        else ⟨if lk left then linked else plain,
          [number (rt left), number (ra left)]⟩) =
      (if rt right = 20 ∧ ra right = 0 ∧ lk right = false then
          (⟨simplified, []⟩ : Line)
        else ⟨if lk right then linked else plain,
          [number (rt right), number (ra right)]⟩)) :
    rt left = rt right ∧ ra left = ra right ∧ lk left = lk right := by
  by_cases leftSimple : rt left = 20 ∧ ra left = 0 ∧ lk left = false <;>
    by_cases rightSimple : rt right = 20 ∧ ra right = 0 ∧ lk right = false
  · simp only [leftSimple, rightSimple, and_self]
  · rw [if_pos leftSimple, if_neg rightSimple] at sameLine
    simp at sameLine
  · rw [if_neg leftSimple, if_pos rightSimple] at sameLine
    simp at sameLine
  · rw [if_neg leftSimple, if_neg rightSimple] at sameLine
    simp only [Line.mk.injEq, List.cons.injEq, number_inj] at sameLine
    exact ⟨sameLine.2.1, sameLine.2.2.1, link_inj apart sameLine.1⟩

private theorem execute19_of_isync {insn : Word} (isForm : xo insn = 150) :
    execute19 host config currentPc insn machine = .next machine := by
  unfold execute19
  simp only [isForm]

theorem execute19_eq (sameXo : xo left = xo right)
    (sameLine : disassemble19 left = disassemble19 right)
    (listed : xo left ∈ executed19) :
    execute19 host config currentPc left machine =
      execute19 host config currentPc right machine := by
  by_cases isync : xo left = 150
  · rw [execute19_of_isync host config currentPc machine isync,
      execute19_of_isync host config currentPc machine
        (sameXo.symm.trans isync)]
  unfold execute19
  simp only [disassemble19] at sameLine
  rw [← sameXo] at sameLine ⊢
  split at sameLine
  case h_1 isForm | h_2 isForm =>
    have fields := conditionalLine_inj (by decide) sameLine
    try rw [isForm]
    conv_lhs => whnf
    conv_rhs => whnf
    simp only [fields]
  case h_12 isForm => exact absurd isForm isync
  case h_13 =>
    simp only [executed19, List.mem_cons, List.not_mem_nil] at listed
    grind only
  all_goals
    rename_i isForm
    simp only [crBits, Line.mk.injEq, List.cons.injEq, cr_inj, number_inj]
      at sameLine
    try rw [isForm]
    conv_lhs => whnf
    conv_rhs => whnf
    simp only [sameLine]

theorem execute31_eq (sameXo : xo left = xo right)
    (sameLine : disassemble31 left = disassemble31 right)
    (listed : xo left ∈ executed31) (notSubfo : xo left ≠ 552)
    (leftGroup : opcode left = 31) (rightGroup : opcode right = 31)
    (notHidden : ¬ Hidden left right) :
    execute31 host config currentPc left machine =
      execute31 host config currentPc right machine := by
  unfold execute31
  unfold disassemble31 at sameLine
  rw [← sameXo] at sameLine ⊢
  split at sameLine
  case h_60 isForm =>
    have fields : rt left = rt right ∧ ra left = ra right ∧
        rb left = rb right ∧ rc left = rc right := by
      split at sameLine <;> split at sameLine
      · rename_i leftMove rightMove
        simp only [Line.mk.injEq, List.cons.injEq, r_inj] at sameLine
        obtain ⟨_, sameRa, sameRt, _⟩ := sameLine
        have sameRb : rb left = rb right := by
          rw [← leftMove, ← rightMove, sameRt]
        refine ⟨sameRt, sameRa, sameRb, ?_⟩
        by_contra record
        exact notHidden (.mr leftGroup rightGroup isForm
          (sameXo.symm.trans isForm) leftMove rightMove sameRt sameRa record)
      · simp [raRtRbRecord] at sameLine
      · simp [raRtRbRecord] at sameLine
      · simp only [raRtRbRecord, Line.mk.injEq, List.cons.injEq, r_inj,
          String.append_right_inj, recordDot_inj] at sameLine
        exact ⟨sameLine.2.2.1, sameLine.2.1, sameLine.2.2.2.1, sameLine.1⟩
    rw [isForm]
    conv_lhs => whnf
    conv_rhs => whnf
    simp only [fields]
  case h_90 =>
    simp only [executed31, List.mem_cons, List.not_mem_nil] at listed
    grind only
  all_goals
    rename_i isForm
    simp only [bfRaRb, rtRaRb, rtRaRbRecord, raRtRbRecord, rtRaRecord,
      raRtRecord, raRb, frtRaRb, Line.mk.injEq, List.cons.injEq, r_inj,
      f_inj, cr_inj, number_inj, prefixedHex_inj, recordDot_inj,
      String.append_right_inj, decimal_injective.eq_iff, hex_injective.eq_iff,
      BitVec.toNat_inj] at sameLine
    rw [isForm]
    conv_lhs => whnf
    conv_rhs => whnf
    all_goals first
      | (simp only [sameLine]
         done)
      | (obtain ⟨_, first, second, third, _⟩ := sameLine
         rw [first, second, third])

theorem execute59_eq (sameXo : xo5 left = xo5 right)
    (sameLine : disassemble59 left = disassemble59 right)
    (listed : xo5 left ∈ disassembled59) (leftGroup : opcode left = 59)
    (rightGroup : opcode right = 59) (notHidden : ¬ Hidden left right) :
    execute59 host currentPc left machine =
      execute59 host currentPc right machine := by
  unfold execute59
  unfold disassemble59 at sameLine
  rw [← sameXo] at sameLine ⊢
  split at sameLine
  case h_7 =>
    simp only [disassembled59, List.mem_cons, List.not_mem_nil] at listed
    grind only
  case h_6 isForm =>
    simp only [Line.mk.injEq, List.cons.injEq, f_inj,
      String.append_right_inj, recordDot_inj] at sameLine
    obtain ⟨sameRc, sameRt, sameFrc, _⟩ := sameLine
    have sameRa : ra left = ra right := by
      by_contra factor
      exact notHidden (.fmuls leftGroup rightGroup isForm
        (sameXo.symm.trans isForm) sameRt sameFrc sameRc factor)
    rw [isForm]
    conv_lhs => whnf
    conv_rhs => whnf
    simp only [sameRt, sameRa, sameFrc, sameRc]
  all_goals
    rename_i isForm
    simp only [frtFraFrbRecord, frtFrbRecord, Line.mk.injEq, List.cons.injEq,
      f_inj, String.append_right_inj, recordDot_inj] at sameLine
    rw [isForm]
    conv_lhs => whnf
    conv_rhs => whnf
    simp only [sameLine]

theorem execute63x_eq (sameXo : xo left = xo right)
    (sameLine : disassemble63 left = disassemble63 right)
    (listed : xo left ∈ executed63x) (leftGroup : opcode left = 63)
    (rightGroup : opcode right = 63) (notHidden : ¬ Hidden left right) :
    execute63x host currentPc left machine =
      execute63x host currentPc right machine := by
  unfold execute63x
  unfold disassemble63 at sameLine
  rw [← sameXo] at sameLine ⊢
  split at sameLine
  case h_17 =>
    simp only [executed63x, List.mem_cons, List.not_mem_nil] at listed
    grind only
  case h_8 isForm | h_9 isForm | h_10 isForm =>
    rw [isForm] at listed
    exact absurd listed (by decide)
  case h_5 isForm | h_6 isForm =>
    simp only [frtFraFrb, Line.mk.injEq, List.cons.injEq, f_inj] at sameLine
    obtain ⟨_, sameRt, sameRa, sameRb, _⟩ := sameLine
    have sameRc : rc left = rc right := by
      by_contra record
      exact notHidden (.fdivFsub leftGroup rightGroup sameXo
        (by simp [isForm]) sameRt sameRa sameRb record)
    rw [isForm]
    conv_lhs => whnf
    conv_rhs => whnf
    simp only [sameRt, sameRa, sameRb, sameRc]
  all_goals
    rename_i isForm
    simp only [bfFraFrb, frtFraFrbRecord, frtFrbRecord, Line.mk.injEq,
      List.cons.injEq, f_inj, cr_inj, String.append_right_inj, recordDot_inj]
      at sameLine
    rw [isForm]
    conv_lhs => whnf
    conv_rhs => whnf
    simp only [sameLine]

theorem execute63_eq (sameXo : xo left = xo right)
    (sameLine : disassemble63 left = disassemble63 right)
    (listed : xo left ∈ disassembled63) (leftGroup : opcode left = 63)
    (rightGroup : opcode right = 63) (notHidden : ¬ Hidden left right) :
    execute63 host currentPc left machine =
      execute63 host currentPc right machine := by
  have executed := ((disassembled63_iff left).mp listed).1
  have sameLow : xo5 left = xo5 right := by
    rw [xo5_eq_mod, xo5_eq_mod, sameXo]
  by_cases low : xo5 left ∈ executed63
  · have short : ∀ code ∈ disassembled63, code % 32 ∈ executed63 →
        code = 22 ∨ code = 23 ∨ code = 26 := by
      decide
    rw [xo5_eq_mod] at low
    unfold execute63
    unfold disassemble63 at sameLine
    rw [← sameLow, xo5_eq_mod]
    rw [← sameXo] at sameLine
    rcases short _ listed low with isForm | isForm | isForm
    all_goals
      rw [isForm] at sameLine ⊢
      simp only [frtFrbRecord, Line.mk.injEq, List.cons.injEq, f_inj,
        String.append_right_inj, recordDot_inj] at sameLine
      conv_lhs => whnf
      conv_rhs => whnf
      simp only [sameLine]
  · rw [execute63_of_not_mem host currentPc machine low]
    rw [sameLow] at low
    rw [execute63_of_not_mem host currentPc machine low]
    rw [← sameLow] at low
    exact execute63x_eq host currentPc machine sameXo sameLine
      (executed.resolve_left low) leftGroup rightGroup notHidden

omit host config currentPc machine in
/-- The lines of `addi` and `addis`, with their simplified form. -/
private theorem immediateLine_inj {simplified plain : String}
    (sameLine :
      (if ra left = 0 then
          (⟨simplified, [r (rt left), signed (simm left)]⟩ : Line)
        else rtRaSimm plain left) =
      (if ra right = 0 then
          (⟨simplified, [r (rt right), signed (simm right)]⟩ : Line)
        else rtRaSimm plain right)) :
    rt left = rt right ∧ ra left = ra right ∧ simm left = simm right := by
  unfold rtRaSimm at sameLine
  split at sameLine <;> split at sameLine
  · rename_i leftZero rightZero
    simp only [Line.mk.injEq, List.cons.injEq, r_inj, signed_inj] at sameLine
    exact ⟨sameLine.2.1, leftZero.trans rightZero.symm, sameLine.2.2.1⟩
  · simp at sameLine
  · simp at sameLine
  · simp only [Line.mk.injEq, List.cons.injEq, r_inj, signed_inj] at sameLine
    exact ⟨sameLine.2.1, sameLine.2.2.1, sameLine.2.2.2.1⟩

theorem executePrimary_eq (sameOpcode : opcode left = opcode right)
    (sameLine : disassembleLine currentPc left =
      disassembleLine currentPc right)
    (listed : opcode left ∈ executedPrimary) :
    execute host config currentPc left machine =
      execute host config currentPc right machine := by
  unfold execute
  unfold disassembleLine at sameLine
  rw [← sameOpcode] at sameLine ⊢
  split at sameLine
  case h_13 isGroup | h_23 isGroup | h_48 isGroup | h_49 isGroup =>
    rw [isGroup] at listed
    exact absurd listed (by decide)
  case h_50 =>
    simp only [executedPrimary, List.mem_cons, List.not_mem_nil] at listed
    grind only
  case h_8 isForm | h_9 isForm =>
    have fields := immediateLine_inj sameLine
    try rw [isForm]
    conv_lhs => whnf
    conv_rhs => whnf
    simp only [fields]
  case h_10 isForm =>
    simp only [Line.mk.injEq, List.cons.injEq, number_inj, address_inj]
      at sameLine
    obtain ⟨mnemonics, sameBo, sameBi, target, _⟩ := sameLine
    unfold target14 at target
    try rw [isForm]
    conv_lhs => whnf
    conv_rhs => whnf
    simp only [bc, sameBo, sameBi, target, link_inj (by decide) mnemonics]
  case h_12 isForm =>
    simp only [Line.mk.injEq, List.cons.injEq, address_inj] at sameLine
    obtain ⟨mnemonics, target, _⟩ := sameLine
    unfold target26 at target
    try rw [isForm]
    conv_lhs => whnf
    conv_rhs => whnf
    simp only [branch, target, link_inj (by decide) mnemonics]
  case h_17 isForm =>
    have fields : rt left = rt right ∧ ra left = ra right ∧
        uimm left = uimm right := by
      unfold raRtUimm at sameLine
      split at sameLine <;> split at sameLine
      · rename_i leftZero rightZero
        simp only [leftZero, rightZero, and_self]
      · simp at sameLine
      · simp at sameLine
      · simp only [Line.mk.injEq, List.cons.injEq, r_inj, prefixedHex_inj]
          at sameLine
        exact ⟨sameLine.2.2.1, sameLine.2.1, sameLine.2.2.2.1⟩
    try rw [isForm]
    conv_lhs => whnf
    conv_rhs => whnf
    simp only [fields]
  all_goals
    rename_i isForm
    simp only [rtRaSimm, raRtUimm, raRtShMbMe, rtDisplacement,
      frtDisplacement, Line.mk.injEq, List.cons.injEq, r_inj, f_inj, cr_inj,
      number_inj, signed_inj, prefixedHex_inj, displacement_inj,
      String.append_right_inj, recordDot_inj] at sameLine
    try rw [isForm]
    conv_lhs => whnf
    conv_rhs => whnf
    all_goals first
      | (simp only [sameLine]
         done)
      | (obtain ⟨_, first, second, third, _⟩ := sameLine
         rw [first, second, third])

end Effects

/-- Executing either word at `pc` has the same effect in every state. -/
def SameEffect (pc left right : Word) : Prop :=
  ∀ (host : Host) (config : ExecutionConfig) (machine : Machine),
    machine.cpu.pc = pc →
      issue host config left machine = issue host config right machine

/-- Words with the same text, if it is no placeholder, have the same
effect. -/
def FaithfulText (pc left right : Word) : Prop :=
  disassemble pc left = disassemble pc right →
    ¬ Placeholder (disassemble pc left) → SameEffect pc left right

theorem faithful_of_not_hidden {pc left right : Word}
    (notHidden : ¬ Hidden left right) : FaithfulText pc left right := by
  intro sameText notPlaceholder host config machine atPc
  have leftKnown : Disassembled left := by
    by_contra unknown
    exact notPlaceholder ((placeholder_iff pc left).mpr unknown)
  have rightKnown : Disassembled right := by
    by_contra unknown
    apply notPlaceholder
    rw [sameText]
    exact (placeholder_iff pc right).mpr unknown
  have sameLine := disassembleLine_eq leftKnown rightKnown sameText
  have leftListed := disassembleLine_listed pc leftKnown
  rw [sameLine] at leftListed
  obtain ⟨sameOpcode, sameExtended⟩ :=
    leftListed.unique (disassembleLine_listed pc rightKnown)
  unfold issue
  rw [atPc]
  unfold Disassembled at leftKnown
  unfold extendedOpcode at sameExtended
  rw [← sameOpcode] at sameExtended
  split at leftKnown
  · rename_i isGroup
    have otherGroup := sameOpcode.symm.trans isGroup
    rw [disassembleLine_of_group19 pc isGroup,
      disassembleLine_of_group19 pc otherGroup] at sameLine
    rw [execute_of_group19 host config pc _ isGroup,
      execute_of_group19 host config pc _ otherGroup]
    rw [isGroup] at sameExtended
    exact execute19_eq host config pc _ sameExtended sameLine leftKnown
  · rename_i isGroup
    have otherGroup := sameOpcode.symm.trans isGroup
    rw [disassembleLine_of_group31 pc isGroup,
      disassembleLine_of_group31 pc otherGroup] at sameLine
    rw [execute_of_group31 host config pc _ isGroup,
      execute_of_group31 host config pc _ otherGroup]
    rw [isGroup] at sameExtended
    exact execute31_eq host config pc _ sameExtended sameLine leftKnown.1
      leftKnown.2 isGroup otherGroup notHidden
  · rename_i isGroup
    have otherGroup := sameOpcode.symm.trans isGroup
    rw [disassembleLine_of_group59 pc isGroup,
      disassembleLine_of_group59 pc otherGroup] at sameLine
    rw [execute_of_group59 host config pc _ isGroup,
      execute_of_group59 host config pc _ otherGroup]
    rw [isGroup] at sameExtended
    exact execute59_eq host pc _ sameExtended sameLine leftKnown isGroup
      otherGroup notHidden
  · rename_i isGroup
    have otherGroup := sameOpcode.symm.trans isGroup
    rw [disassembleLine_of_group63 pc isGroup,
      disassembleLine_of_group63 pc otherGroup] at sameLine
    rw [execute_of_group63 host config pc _ isGroup,
      execute_of_group63 host config pc _ otherGroup]
    rw [isGroup] at sameExtended
    exact execute63_eq host pc _ sameExtended sameLine leftKnown isGroup
      otherGroup notHidden
  · exact executePrimary_eq host config pc _ sameOpcode sameLine leftKnown

/-- A state in which every recording form changes CR. -/
def recordingState (pc : Word) : Machine :=
  ⟨.empty, { CpuState.zero with pc, fpscr := 0xf0000000 }, []⟩

theorem issue_mr_cr (pc : Word) {insn : Word} (isGroup : opcode insn = 31)
    (isForm : xo insn = 444) :
    (issue Host.quiet {} insn (recordingState pc)).state.cpu.cr =
      if rc insn then 0x20000000 else 0 := by
  have turn : issue Host.quiet {} insn (recordingState pc) =
      onCpu (orForm (ra insn) (rt insn) (rb insn) (rc insn))
        (advance (recordingState pc)) := by
    unfold issue
    rw [execute_of_group31 _ _ _ _ isGroup]
    unfold execute31
    rw [isForm]
    rfl
  rw [turn]
  cases rc insn with
  | false => rfl
  | true =>
      have zero (register : Register) :
          (advance (recordingState pc)).cpu.gpr register = 0 := rfl
      have recorded (cpu : CpuState) (noFlags : cpu.cr = 0)
          (noOverflow : cpu.xer = 0) :
          (updateCr0 cpu 0).cr = 0x20000000 := by
        simp only [updateCr0, summaryOverflow, noOverflow,
          CpuState.setCrField, CpuState.assignCrField, noFlags]
        decide
      simp only [onCpu, Turn.state, orForm, logical, record,
        CpuState.setGpr_gpr, Function.update_self, zero, if_true,
        BitVec.or_self]
      exact recorded _ rfl rfl

theorem issue_fdivFsub_cr (pc : Word) {insn : Word}
    (isGroup : opcode insn = 63) (form : xo insn = 18 ∨ xo insn = 20) :
    (issue Host.quiet {} insn (recordingState pc)).state.cpu.cr =
      if rc insn then 0x0f000000 else 0 := by
  have turn : ∃ result, issue Host.quiet {} insn (recordingState pc) =
      onCpu (assignFpr (rt insn) result (rc insn))
        (advance (recordingState pc)) := by
    unfold issue
    rw [execute_of_group63 _ _ _ _ isGroup]
    have notLow : xo5 insn ∉ executed63 := by
      rw [xo5_eq_mod]
      rcases form with isForm | isForm
      · rw [isForm]
        decide
      · rw [isForm]
        decide
    rw [execute63_of_not_mem _ _ _ notLow]
    unfold execute63x
    rcases form with isForm | isForm
    · rw [isForm]
      exact ⟨_, rfl⟩
    · rw [isForm]
      exact ⟨_, rfl⟩
  obtain ⟨result, turn⟩ := turn
  rw [turn]
  cases rc insn with
  | false => rfl
  | true =>
      change ((0 : Word) &&& ~~~((0xf : Word) <<< CpuState.crShift 1)) |||
        ((((0xf0000000 : Word) >>> 28) &&& 0xf) <<< CpuState.crShift 1) =
          0x0f000000
      decide

/-- A state in which one floating-point register holds two, the others one. -/
def factorState (pc : Word) (register : Register) : Machine :=
  ⟨.empty,
    { CpuState.zero with
      pc
      fpr := fun other =>
        if other = register then 0x4000000000000000 else 0x3ff0000000000000 },
    []⟩

theorem issue_fmuls_fpr (machine : Machine) {insn : Word}
    (isGroup : opcode insn = 59) (isForm : xo5 insn = 25) :
    (issue Host.quiet {} insn machine).state.cpu.fpr (rt insn) =
      FloatingPoint.singleResult Host.quiet
        (FloatingPoint.mul Host.quiet (machine.cpu.fpr (ra insn))
          (machine.cpu.fpr (frc insn))) := by
  have turn : issue Host.quiet {} insn machine =
      onCpu (fmuls Host.quiet (rt insn) (ra insn) (frc insn) (rc insn))
        (advance machine) := by
    unfold issue
    rw [execute_of_group59 _ _ _ _ isGroup]
    unfold execute59
    rw [isForm]
    rfl
  rw [turn]
  cases rc insn with
  | false => exact Function.update_self _ _ _
  | true => exact Function.update_self _ _ _

theorem Hidden.not_sameEffect {left right : Word} (hidden : Hidden left right)
    (pc : Word) : ¬ SameEffect pc left right := by
  intro same
  cases hidden with
  | mr leftGroup rightGroup leftForm rightForm _ _ _ _ record =>
      have turns := same Host.quiet {} (recordingState pc) rfl
      have flags := issue_mr_cr pc leftGroup leftForm
      rw [turns, issue_mr_cr pc rightGroup rightForm] at flags
      revert flags record
      cases rc left <;> cases rc right <;> decide
  | fdivFsub leftGroup rightGroup sameForm form _ _ _ record =>
      have turns := same Host.quiet {} (recordingState pc) rfl
      have flags := issue_fdivFsub_cr pc leftGroup form
      rw [sameForm] at form
      rw [turns, issue_fdivFsub_cr pc rightGroup form] at flags
      revert flags record
      cases rc left <;> cases rc right <;> decide
  | fmuls leftGroup rightGroup leftForm rightForm sameRt sameFrc _ factor =>
      have turns := same Host.quiet {} (factorState pc (ra left)) rfl
      have products := issue_fmuls_fpr (factorState pc (ra left)) leftGroup
        leftForm
      rw [turns, sameRt, issue_fmuls_fpr _ rightGroup rightForm, sameFrc]
        at products
      simp only [factorState, if_true, if_neg (Ne.symm factor)] at products
      revert products
      split <;> decide

theorem Hidden.sameText {left right : Word} (hidden : Hidden left right)
    (pc : Word) :
    disassemble pc left = disassemble pc right ∧ Disassembled left := by
  unfold disassemble Disassembled
  cases hidden with
  | mr leftGroup rightGroup leftForm rightForm leftMove rightMove sameRt
      sameRa =>
      have line {insn : Word} (isForm : xo insn = 444)
          (move : rt insn = rb insn) :
          disassemble31 insn = ⟨"mr", [r (ra insn), r (rt insn)]⟩ := by
        unfold disassemble31
        rw [isForm]
        exact if_pos move
      rw [disassembleLine_of_group31 pc leftGroup,
        disassembleLine_of_group31 pc rightGroup, line leftForm leftMove,
        line rightForm rightMove, sameRt, sameRa, leftGroup, leftForm]
      exact ⟨rfl, (by decide : 444 ∈ executed31 ∧ 444 ≠ 552)⟩
  | fdivFsub leftGroup rightGroup sameForm form sameRt sameRa sameRb =>
      rw [disassembleLine_of_group63 pc leftGroup,
        disassembleLine_of_group63 pc rightGroup, leftGroup]
      unfold disassemble63
      rw [← sameForm]
      rcases form with isForm | isForm
      · rw [isForm]
        simp only [frtFraFrb, sameRt, sameRa, sameRb]
        exact ⟨trivial, by decide⟩
      · rw [isForm]
        simp only [frtFraFrb, sameRt, sameRa, sameRb]
        exact ⟨trivial, by decide⟩
  | fmuls leftGroup rightGroup leftForm rightForm sameRt sameFrc sameRc =>
      have line {insn : Word} (isForm : xo5 insn = 25) :
          disassemble59 insn = ⟨"fmuls" ++ recordDot insn,
            [f (rt insn), f (frc insn)]⟩ := by
        unfold disassemble59
        rw [isForm]
        rfl
      rw [disassembleLine_of_group59 pc leftGroup,
        disassembleLine_of_group59 pc rightGroup, line leftForm,
        line rightForm, recordDot_inj.mpr sameRc, sameRt, sameFrc, leftGroup,
        leftForm]
      exact ⟨rfl, (by decide : 25 ∈ disassembled59)⟩

theorem Hidden.not_faithful {left right : Word} (hidden : Hidden left right)
    (pc : Word) : ¬ FaithfulText pc left right := by
  intro faithful
  obtain ⟨sameText, known⟩ := hidden.sameText pc
  refine hidden.not_sameEffect pc (faithful sameText ?_)
  rw [placeholder_iff, not_not]
  exact known

/-- The text of two words is faithful exactly when it hides nothing they
differ in. -/
theorem faithfulText_iff (pc left right : Word) :
    FaithfulText pc left right ↔ ¬ Hidden left right := by
  constructor
  · intro faithful hidden
    exact hidden.not_faithful pc faithful
  · intro notHidden
    exact faithful_of_not_hidden notHidden

/-- `mr r3,r4` and `mr. r3,r4` have the same text. -/
theorem mr_hides_record :
    ¬ FaithfulText 0x1000 0x7c832378 0x7c832379 := by
  apply Hidden.not_faithful
  apply Hidden.mr <;> decide

end PpcLab.BuiltinInterpreter
