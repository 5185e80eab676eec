import PpcLab.Interpreter.StubCall

/-!
# The link register

A branch with LK set leaves the address of the next instruction in LR, whether
or not it is taken.  The direct forms link before they evaluate their
condition.  The indirect forms link only when they follow their target, so
they break the law when they fall through and when import glue takes over.
-/

namespace PpcLab.BuiltinInterpreter

open Instruction

/-- `b`, `bc`, `bclr` or `bcctr`. -/
def IsBranch (insn : Word) : Prop :=
  opcode insn = 18 ∨ opcode insn = 16 ∨
    opcode insn = 19 ∧ (xo insn = 16 ∨ xo insn = 528)

instance (insn : Word) : Decidable (IsBranch insn) :=
  inferInstanceAs (Decidable (_ ∨ _ ∨ _ ∧ (_ ∨ _)))

/-- The call goes through import glue. -/
def Glued (config : ExecutionConfig) (insn : Word) (cpu : CpuState) : Prop :=
  xo insn = 528 ∧ cpu.ctr &&& ~~~3 = 0 ∧
    inImportRange config (cpu.gpr 12) = true

instance (config : ExecutionConfig) (insn : Word) (cpu : CpuState) :
    Decidable (Glued config insn cpu) :=
  inferInstanceAs (Decidable (_ ∧ _ ∧ _))

/-- The branch is direct, or an indirect one that follows its target. -/
def Follows (config : ExecutionConfig) (insn : Word) (cpu : CpuState) : Prop :=
  opcode insn = 19 →
    conditionHolds insn cpu = true ∧ ¬ Glued config insn cpu

/-- Where `bclr` and `bcctr` lead. -/
def indirectTarget (insn : Word) (cpu : CpuState) : Word :=
  (if xo insn = 16 then cpu.lr else cpu.ctr) &&& ~~~3

/-- The law, for the machine before the instruction. -/
structure LinkLaw (host : Host) (config : ExecutionConfig) (insn : Word)
    (machine : Machine) : Prop where
  link : (issue host config insn machine).state.cpu.lr =
    returnPoint insn machine
  target : opcode insn = 19 → Follows config insn machine.cpu →
    (issue host config insn machine).state.cpu.pc =
      indirectTarget insn machine.cpu

section Forms

variable (host : Host) (config : ExecutionConfig) (insn : Word)
  (machine : Machine)

/-- LR after the instruction, for the forms that link. -/
private def linkedLr (lk : Bool) (cpu : CpuState) : Word :=
  if lk then cpu.pc else cpu.lr

private theorem branch_lr (li : Word) (aa lk : Bool) (currentPc : Word)
    (cpu : CpuState) :
    (branch li aa lk currentPc cpu).lr = linkedLr lk cpu := by
  unfold branch linkedLr
  cases lk with
  | true => rfl
  | false => rfl

private theorem follow_lr (lk : Bool) (target : Word) (cpu : CpuState) :
    (follow lk target cpu).lr = linkedLr lk cpu := by
  unfold follow linkedLr
  cases lk with
  | true => rfl
  | false => rfl

private theorem follow_pc (lk : Bool) (target : Word) (cpu : CpuState) :
    (follow lk target cpu).pc = target :=
  rfl

private theorem bc_lr (bo bi : Register) (bd : Word) (aa lk : Bool)
    (currentPc : Word) (cpu : CpuState) :
    (bc bo bi bd aa lk currentPc cpu).lr = linkedLr lk cpu := by
  have kept (cpu : CpuState) :=
    (evaluateBranchCondition_kept cpu bo bi).2.2
  unfold bc linkedLr
  have linked : (if lk = true then { cpu with lr := cpu.pc } else cpu).lr =
      if lk = true then cpu.pc else cpu.lr := by
    cases lk with
    | true => rfl
    | false => rfl
  rw [← linked]
  generalize (if lk = true then { cpu with lr := cpu.pc } else cpu) = start
  have keptHere := kept start
  dsimp only
  generalize evaluateBranchCondition start bo bi = outcome at *
  obtain ⟨_ | _, after⟩ := outcome
  · exact keptHere
  · exact keptHere

/-- `bclr` in terms of its condition. -/
theorem bclr_eq (linked : Bool) (cpu : CpuState) :
    bclr (rt insn) (ra insn) linked cpu =
      if conditionHolds insn cpu then
        follow linked (cpu.lr &&& ~~~3)
          (evaluateBranchCondition cpu (rt insn) (ra insn)).2
      else (evaluateBranchCondition cpu (rt insn) (ra insn)).2 := by
  unfold bclr conditionHolds
  generalize evaluateBranchCondition cpu (rt insn) (ra insn) = outcome
  obtain ⟨_ | _, after⟩ := outcome
  · rfl
  · rfl

/-- Import glue leaves LR alone however it ends. -/
theorem importGlue_lr :
    (importGlue host config machine).state.cpu.lr = machine.cpu.lr := by
  unfold importGlue
  dsimp only
  cases findImportStub config.importStubs (machine.cpu.gpr 12) with
  | none => rfl
  | some binding =>
      have control := executeImportStub_control host binding machine
      have lrKept : (executeImportStub host binding machine).2.cpu.lr =
          machine.cpu.lr := by
        rw [← control]
        rfl
      dsimp only
      split
      · split
        · exact lrKept
        · exact lrKept
      · exact lrKept

private theorem issue_b (isB : opcode insn = 18) :
    (issue host config insn machine).state.cpu =
      branch (signExtend26 insn) (aa insn) (lk insn) machine.cpu.pc
        (advance machine).cpu := by
  unfold issue execute
  rw [isB]
  rfl

private theorem issue_bc (isBc : opcode insn = 16) :
    (issue host config insn machine).state.cpu =
      bc (rt insn) (ra insn) (signExtend14Shift2 insn) (aa insn) (lk insn)
        machine.cpu.pc (advance machine).cpu := by
  unfold issue execute
  rw [isBc]
  rfl

private theorem issue_bclr (group : opcode insn = 19) (isBclr : xo insn = 16) :
    (issue host config insn machine).state.cpu =
      bclr (rt insn) (ra insn) (lk insn) (advance machine).cpu := by
  rw [issue, execute_of_group19 _ _ _ _ group]
  unfold execute19
  rw [isBclr]
  rfl

private theorem issue_bcctr (group : opcode insn = 19)
    (isBcctr : xo insn = 528) :
    issue host config insn machine =
      bcctr host config (rt insn) (ra insn) (lk insn) (advance machine) := by
  rw [issue, execute_of_group19 _ _ _ _ group,
    execute19_bcctr _ _ _ _ isBcctr]

private theorem linkedLr_advance :
    linkedLr (lk insn) (advance machine).cpu = returnPoint insn machine :=
  rfl

private theorem linkedLr_decided :
    linkedLr (lk insn) (decided insn (advance machine)).cpu =
      returnPoint insn machine := by
  have kept := evaluateBranchCondition_kept (advance machine).cpu (rt insn)
    (ra insn)
  rw [← linkedLr_advance, linkedLr, linkedLr, decided, kept.2.1, kept.2.2]

/-- Advancing changes neither the condition nor the glue. -/
private theorem follows_advance :
    Follows config insn (advance machine).cpu ↔
      Follows config insn machine.cpu := by
  have same : conditionHolds insn (advance machine).cpu =
      conditionHolds insn machine.cpu := by
    unfold conditionHolds evaluateBranchCondition
    generalize ((rt insn &&& 0x04) == 0) = decrement
    cases decrement with
    | true => rfl
    | false => rfl
  unfold Follows
  rw [same]
  rfl

end Forms

section Law

variable {host : Host} {config : ExecutionConfig} {insn : Word}
  {machine : Machine}

private theorem bclr_lr (group : opcode insn = 19) (isBclr : xo insn = 16) :
    (issue host config insn machine).state.cpu.lr =
      if conditionHolds insn (advance machine).cpu then
        returnPoint insn machine
      else machine.cpu.lr := by
  have kept := evaluateBranchCondition_kept (advance machine).cpu (rt insn)
    (ra insn)
  rw [issue_bclr _ _ _ _ group isBclr, bclr_eq]
  split
  · rw [follow_lr]
    exact linkedLr_decided insn machine
  · exact kept.2.2

private theorem bcctr_lr (group : opcode insn = 19) (isBcctr : xo insn = 528) :
    (issue host config insn machine).state.cpu.lr =
      if conditionHolds insn (advance machine).cpu = true ∧
          ¬ Glued config insn (advance machine).cpu then
        returnPoint insn machine
      else machine.cpu.lr := by
  have kept := evaluateBranchCondition_kept (advance machine).cpu (rt insn)
    (ra insn)
  have gluedIff : Glued config insn (advance machine).cpu ↔
      ((advance machine).cpu.ctr &&& ~~~3 == 0 &&
        inImportRange config ((advance machine).cpu.gpr 12)) = true := by
    rw [Glued, Bool.and_eq_true, beq_iff_eq]
    exact and_iff_right isBcctr
  rw [issue_bcctr _ _ _ _ group isBcctr, bcctr_eq]
  by_cases holds : conditionHolds insn (advance machine).cpu = true
  · rw [if_pos holds]
    by_cases glued : Glued config insn (advance machine).cpu
    · rw [if_pos (gluedIff.mp glued), importGlue_lr,
        if_neg (fun both => both.2 glued)]
      exact kept.2.2
    · rw [if_neg (fun both => glued (gluedIff.mpr both)),
        if_pos ⟨holds, glued⟩]
      exact (follow_lr _ _ _).trans (linkedLr_decided insn machine)
  · rw [if_neg holds, if_neg (fun both => holds both.1)]
    exact kept.2.2

variable (host config machine) in
/-- LR after a branch. -/
theorem branch_links (isBranch : IsBranch insn) :
    (issue host config insn machine).state.cpu.lr = returnPoint insn machine ∧
        Follows config insn machine.cpu ∨
      (issue host config insn machine).state.cpu.lr = machine.cpu.lr ∧
        ¬ Follows config insn machine.cpu := by
  rw [← follows_advance]
  have direct (notIndirect : opcode insn ≠ 19) :
      Follows config insn (advance machine).cpu :=
    fun indirect => absurd indirect notIndirect
  rcases isBranch with isB | isBc | ⟨group, isBclr | isBcctr⟩
  · refine .inl ⟨?_, direct (by omega)⟩
    rw [issue_b _ _ _ _ isB, branch_lr, linkedLr_advance]
  · refine .inl ⟨?_, direct (by omega)⟩
    rw [issue_bc _ _ _ _ isBc, bc_lr, linkedLr_advance]
  · have notGlued : ¬ Glued config insn (advance machine).cpu := by
      intro glued
      have isBcctr := glued.1
      omega
    rw [bclr_lr group isBclr]
    by_cases holds : conditionHolds insn (advance machine).cpu = true
    · rw [if_pos holds]
      exact .inl ⟨rfl, fun _ => ⟨holds, notGlued⟩⟩
    · rw [if_neg holds]
      exact .inr ⟨rfl, fun follows => holds (follows group).1⟩
  · rw [bcctr_lr group isBcctr]
    by_cases both : conditionHolds insn (advance machine).cpu = true ∧
        ¬ Glued config insn (advance machine).cpu
    · rw [if_pos both]
      exact .inl ⟨rfl, fun _ => both⟩
    · rw [if_neg both]
      exact .inr ⟨rfl, fun follows => both (follows group)⟩

/-- The target of an indirect branch was computed before LR changed. -/
theorem indirect_target (isBranch : IsBranch insn) (group : opcode insn = 19)
    (follows : Follows config insn machine.cpu) :
    (issue host config insn machine).state.cpu.pc =
      indirectTarget insn machine.cpu := by
  rw [← follows_advance] at follows
  obtain ⟨holds, notGlued⟩ := follows group
  rcases isBranch with isB | isBc | ⟨_, isBclr | isBcctr⟩
  · omega
  · omega
  · rw [issue_bclr _ _ _ _ group isBclr, bclr_eq, if_pos holds,
      follow_pc, indirectTarget, if_pos isBclr]
    rfl
  · have notBoth : ¬ ((advance machine).cpu.ctr &&& ~~~3 == 0 &&
        inImportRange config ((advance machine).cpu.gpr 12)) = true := by
      intro both
      rw [Bool.and_eq_true, beq_iff_eq] at both
      exact notGlued ⟨isBcctr, both⟩
    rw [issue_bcctr _ _ _ _ group isBcctr, bcctr_eq, if_pos holds,
      if_neg notBoth, indirectTarget, if_neg (by omega)]
    rfl

end Law

/-- The law holds exactly when the branch follows its target, or LR already
is what it asks for. -/
theorem link_register_law_iff (host : Host) (config : ExecutionConfig)
    (insn : Word) (machine : Machine) (isBranch : IsBranch insn) :
    LinkLaw host config insn machine ↔
      Follows config insn machine.cpu ∨
        machine.cpu.lr = returnPoint insn machine := by
  constructor
  · intro law
    rcases branch_links host config machine isBranch with ⟨_, follows⟩ | ⟨kept, _⟩
    · exact .inl follows
    · exact .inr (kept.symm.trans law.link)
  · intro condition
    refine ⟨?_, fun group follows => indirect_target isBranch group follows⟩
    rcases branch_links host config machine isBranch with ⟨linked, _⟩ | ⟨kept, notFollows⟩
    · exact linked
    · exact kept.trans (condition.resolve_left notFollows)

/-- `bcctrl` on a condition that holds. -/
theorem taken_bcctrl_links :
    LinkLaw .quiet {} 0x4e800421
      { memory := .empty
        cpu := { CpuState.zero with pc := 0x1000, ctr := 0x2000 }
        stderr := [] } :=
  (link_register_law_iff .quiet {} 0x4e800421 _ (by decide)).mpr
    (.inl fun _ => ⟨by decide, by decide⟩)

/-- `bclrl` on a condition that does not hold leaves LR as it was. -/
theorem fallen_through_bclrl_does_not_link :
    IsBranch 0x4d820021 ∧
      ¬ LinkLaw .quiet {} 0x4d820021
        { memory := .empty
          cpu := { CpuState.zero with pc := 0x1000, lr := 0x2000 }
          stderr := [] } := by
  constructor
  · decide
  · intro law
    have link := law.link
    revert link
    decide

end PpcLab.BuiltinInterpreter
