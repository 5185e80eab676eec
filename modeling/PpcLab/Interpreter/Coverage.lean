import PpcLab.Interpreter.Mnemonics
import PpcLab.Interpreter.Run

/-!
# Coverage

The executor and the disassembler have separate tables.  Where both have a
case for a word, or neither has, the disassembler marks exactly the words the
executor refuses.  The words only the executor has a case for are listed.
-/

namespace PpcLab.BuiltinInterpreter

open Instruction

/-- Executing the word at `pc` is reported as unsupported in every state. -/
def AlwaysUnsupported (pc insn : Word) : Prop :=
  ∀ (host : Host) (config : ExecutionConfig) (machine : Machine),
    machine.cpu.pc = pc →
      ∃ final stop, issue host config insn machine = .stop final stop ∧
        stop.reason = .unsupportedInstruction

/-- A word the executor has a case for is never reported as unsupported. -/
theorem execute_reason_of_executed {host : Host} {config : ExecutionConfig}
    {currentPc insn : Word} {machine final : Machine} {stop : Fault}
    (executed : Executed insn) (present : ¬ MissingSpr insn)
    (stopped : execute host config currentPc insn machine =
      .stop final stop) :
    stop.reason ≠ .unsupportedInstruction := by
  by_cases multiple : isMultiple insn
  · simp [execute_reason_of_multiple multiple stopped]
  · have effect := execute_effect_of_executed host config currentPc machine
      multiple executed present
    rw [stopped] at effect
    cases effect with
    | fault reason pc message known =>
        rcases known with rfl | rfl | rfl <;> simp
    | importFault _ reason pc message permitted known =>
        rcases known with rfl | rfl <;> simp

theorem alwaysUnsupported_iff (pc : Word) {insn : Word}
    (present : ¬ MissingSpr insn) :
    AlwaysUnsupported pc insn ↔ ¬ Executed insn := by
  constructor
  · intro always executed
    let machine : Machine := ⟨.empty, { CpuState.zero with pc }, []⟩
    obtain ⟨final, stop, stopped, reason⟩ := always Host.quiet {} machine rfl
    exact execute_reason_of_executed executed present stopped reason
  · intro missing host config machine _
    obtain ⟨message, stopped⟩ := execute_unsupported host config
      machine.cpu.pc (advance machine) missing
    exact ⟨_, _, stopped, rfl⟩

/-- The disassembler marks the word exactly when the executor refuses it.
Special registers the executor does not have are left out. -/
def CoverageAgrees (pc insn : Word) : Prop :=
  ¬ MissingSpr insn →
    (Placeholder (disassemble pc insn) ↔ AlwaysUnsupported pc insn)

/-- Group 63: `fmul`, the fused multiply-adds, and the other forms that the
executor selects by five bits, when the remaining five are not zero. -/
def OnlyExecuted63 (insn : Word) : Prop :=
  xo5 insn ∈ [25, 28, 29, 30, 31] ∨
    xo5 insn ∈ [22, 23, 26] ∧ frc insn ≠ 0

/-- The words only the executor has a case for: `subfo`, the fused
multiply-adds of group 59, and those of group 63. -/
def OnlyExecuted (insn : Word) : Prop :=
  (opcode insn = 31 ∧ xo insn = 552) ∨
    (opcode insn = 59 ∧ xo5 insn ∈ [28, 29, 30, 31]) ∨
    (opcode insn = 63 ∧ OnlyExecuted63 insn)

theorem xo5_eq_mod (insn : Word) : xo5 insn = xo insn % 32 := by
  rw [xo5, xo, Word.toNat_field, Word.toNat_field]
  omega

theorem frc_eq_zero_iff (insn : Word) : frc insn = 0 ↔ xo insn < 32 := by
  have value : (frc insn).toNat = xo insn / 32 := by
    rw [frc, xo, Word.toNat_field, Word.toNat_field]
    omega
  rw [← BitVec.toNat_inj, value]
  exact Nat.div_eq_zero_iff_lt (by omega)

theorem disassembled63_iff (insn : Word) :
    xo insn ∈ disassembled63 ↔
      (xo5 insn ∈ executed63 ∨ xo insn ∈ executed63x) ∧
        ¬ OnlyExecuted63 insn := by
  unfold OnlyExecuted63
  rw [Ne, frc_eq_zero_iff, xo5_eq_mod]
  generalize xo insn = code
  constructor
  · have all : ∀ code ∈ disassembled63,
        (code % 32 ∈ executed63 ∨ code ∈ executed63x) ∧
          ¬ (code % 32 ∈ [25, 28, 29, 30, 31] ∨
            code % 32 ∈ [22, 23, 26] ∧ ¬ code < 32) := by
      decide
    exact all code
  · rintro ⟨executed, notOnly⟩
    obtain ⟨notFused, small⟩ := not_or.mp notOnly
    rcases executed with low | listed
    · have split : ∀ low ∈ executed63,
          low ∈ [25, 28, 29, 30, 31] ∨ low ∈ [22, 23, 26] := by
        decide
      have short := (split _ low).resolve_left notFused
      have below : code < 32 := by
        by_contra large
        exact small ⟨short, large⟩
      rw [Nat.mod_eq_of_lt below] at short
      have included : ∀ code ∈ [22, 23, 26], code ∈ disassembled63 := by
        decide
      exact included code short
    · have included : ∀ code ∈ executed63x, code ∈ disassembled63 := by
        decide
      exact included code listed

theorem disassembled_iff (insn : Word) :
    Disassembled insn ↔ Executed insn ∧ ¬ OnlyExecuted insn := by
  unfold Disassembled
  split
  · rename_i isGroup
    simp [Executed, OnlyExecuted, isGroup]
  · rename_i isGroup
    simp [Executed, OnlyExecuted, isGroup]
  · rename_i isGroup
    have same : ∀ code, code ∈ disassembled59 ↔
        code ∈ executed59 ∧ code ∉ [28, 29, 30, 31] := by
      intro code
      simp only [disassembled59, executed59, List.mem_cons, List.not_mem_nil,
        or_false]
      omega
    simpa [Executed, OnlyExecuted, isGroup] using same (xo5 insn)
  · rename_i isGroup
    simpa [Executed, OnlyExecuted, isGroup] using disassembled63_iff insn
  · rename_i not19 not31 not59 not63
    have notOnly : ¬ OnlyExecuted insn := by
      rintro (⟨isGroup, _⟩ | ⟨isGroup, _⟩ | ⟨isGroup, _⟩)
      · exact not31 isGroup
      · exact not59 isGroup
      · exact not63 isGroup
    have executed : Executed insn ↔ opcode insn ∈ executedPrimary := by
      unfold Executed
      split
      all_goals first
        | contradiction
        | rfl
    rw [executed]
    exact (and_iff_left notOnly).symm

theorem OnlyExecuted.executed {insn : Word} (only : OnlyExecuted insn) :
    Executed insn := by
  unfold Executed
  rcases only with ⟨isGroup, isForm⟩ | ⟨isGroup, fused⟩ | ⟨isGroup, low⟩
  · rw [isGroup, isForm]
    exact (by decide : 552 ∈ executed31)
  · rw [isGroup]
    have included : ∀ code ∈ [28, 29, 30, 31], code ∈ executed59 := by decide
    exact included _ fused
  · rw [isGroup]
    have included : ∀ code ∈ [25, 28, 29, 30, 31] ++ [22, 23, 26],
        code ∈ executed63 := by
      decide
    refine .inl (included _ (List.mem_append.mpr ?_))
    rcases low with fused | ⟨short, _⟩
    · exact .inl fused
    · exact .inr short

theorem OnlyExecuted.present {insn : Word} (only : OnlyExecuted insn) :
    ¬ MissingSpr insn := by
  rintro ⟨isGroup, special, _⟩
  rcases only with ⟨_, isForm⟩ | ⟨other, _⟩ | ⟨other, _⟩
  · rw [isForm] at special
    exact absurd special (by decide)
  · rw [isGroup] at other
    exact absurd other (by decide)
  · rw [isGroup] at other
    exact absurd other (by decide)

theorem OnlyExecuted.not_coverageAgrees {insn : Word}
    (only : OnlyExecuted insn) (pc : Word) : ¬ CoverageAgrees pc insn := by
  intro agrees
  have refused : AlwaysUnsupported pc insn := by
    apply (agrees only.present).mp
    rw [placeholder_iff, disassembled_iff]
    rintro ⟨_, notOnly⟩
    exact notOnly only
  exact (alwaysUnsupported_iff pc only.present).mp refused only.executed

/-- The two decoders agree on every word except those only the executor has a
case for. -/
theorem coverageAgrees_iff (pc insn : Word) :
    CoverageAgrees pc insn ↔ ¬ OnlyExecuted insn := by
  constructor
  · intro agrees only
    exact only.not_coverageAgrees pc agrees
  · intro notOnly present
    rw [placeholder_iff, disassembled_iff, alwaysUnsupported_iff pc present,
      and_iff_left notOnly]

/-- `subfo r5,r3,r4` -/
def subfoWord : Word := 0x7ca32450

theorem subfo_disassembled_as_unknown :
    ¬ CoverageAgrees 0x1000 subfoWord := by
  apply OnlyExecuted.not_coverageAgrees
  exact .inl (by decide)

end PpcLab.BuiltinInterpreter
