import PpcLab.Interpreter.Run

/-!
# Calls of import stubs

A taken `bcctr` with a null target whose `r12` names a stub performs the stub
and continues at LR.  A real call links first when it is asked to, and the
routine it reaches comes back through `blr`.  The shortcut does the same
exactly when LR already holds the address the call would return to.
-/

namespace PpcLab

/-- The same machine about to continue elsewhere. -/
def Machine.redirect (machine : Machine) (pc lr : Word) : Machine :=
  { machine with cpu := { machine.cpu with pc, lr } }

section Redirect

variable (machine : Machine) (pc lr : Word)

@[simp] theorem Machine.redirect_memory :
    (machine.redirect pc lr).memory = machine.memory := rfl
@[simp] theorem Machine.redirect_gpr :
    (machine.redirect pc lr).cpu.gpr = machine.cpu.gpr := rfl
@[simp] theorem Machine.redirect_pc :
    (machine.redirect pc lr).cpu.pc = pc := rfl
@[simp] theorem Machine.redirect_lr :
    (machine.redirect pc lr).cpu.lr = lr := rfl

@[simp] theorem Machine.redirect_self :
    machine.redirect machine.cpu.pc machine.cpu.lr = machine := rfl

theorem Machine.redirect_eq_iff {pc' lr' : Word} :
    machine.redirect pc lr = machine.redirect pc' lr' ↔
      pc = pc' ∧ lr = lr' := by
  constructor
  · intro same
    have samePc := congrArg (·.cpu.pc) same
    have sameLr := congrArg (·.cpu.lr) same
    exact ⟨samePc, sameLr⟩
  · intro same
    rw [same.1, same.2]

end Redirect

namespace ImportStubs

variable (machine : Machine) (pc lr : Word)

private theorem move_redirect (message : String)
    (destination source count : Word) :
    move message destination source count (machine.redirect pc lr) =
      ((move message destination source count machine).1,
        (move message destination source count machine).2.redirect pc lr) := by
  unfold move
  rw [Machine.redirect_memory]
  cases readRange machine.memory source count with
  | none => rfl
  | some bytes =>
      dsimp only
      generalize writeRange machine.memory destination count bytes = outcome
      obtain ⟨_ | _, memory⟩ := outcome
      · rfl
      · rfl

private theorem fill_redirect (name : String) (destination : Word)
    (value : Byte) (count : Word) :
    fill name destination value count (machine.redirect pc lr) =
      ((fill name destination value count machine).1,
        (fill name destination value count machine).2.redirect pc lr) := by
  unfold fill
  rw [Machine.redirect_memory]
  split
  · rfl
  · generalize writeRange machine.memory destination count
      (List.replicate count.toNat value) = outcome
    obtain ⟨_ | _, memory⟩ := outcome
    · rfl
    · rfl

private theorem returnDestination_redirect (destination : Word)
    (outcome : ImportStubResult × Machine) :
    returnDestination destination (outcome.1, outcome.2.redirect pc lr) =
      ((returnDestination destination outcome).1,
        (returnDestination destination outcome).2.redirect pc lr) := by
  unfold returnDestination
  dsimp only
  cases outcome.1.success with
  | true => rfl
  | false => rfl

end ImportStubs

open ImportStubs in
/-- A stub neither reads nor writes the registers that say where execution
continues. -/
theorem executeImportStub_redirect (host : Host) (binding : ImportStubBinding)
    (machine : Machine) (pc lr : Word) :
    executeImportStub host binding (machine.redirect pc lr) =
      ((executeImportStub host binding machine).1,
        (executeImportStub host binding machine).2.redirect pc lr) := by
  unfold executeImportStub
  cases binding.kind with
  | pow | cos | sqrt | sin | exp | fabs | floor | ceil => rfl
  | blockMoveData => exact move_redirect machine pc lr _ _ _ _
  | memcpy | memmove =>
      dsimp only [Machine.redirect_gpr]
      rw [move_redirect, returnDestination_redirect]
  | memset =>
      dsimp only [Machine.redirect_gpr]
      rw [fill_redirect, returnDestination_redirect]
  | bzero => exact fill_redirect machine pc lr _ _ _ _

/-- What a stub leaves behind continues where it was about to. -/
theorem executeImportStub_control (host : Host) (binding : ImportStubBinding)
    (machine : Machine) :
    (executeImportStub host binding machine).2.redirect machine.cpu.pc
        machine.cpu.lr =
      (executeImportStub host binding machine).2 := by
  have same := executeImportStub_redirect host binding machine machine.cpu.pc
    machine.cpu.lr
  rw [Machine.redirect_self] at same
  exact (congrArg Prod.snd same).symm

namespace BuiltinInterpreter

open Instruction

/-- The machine once the condition of a branch was evaluated. -/
def decided (insn : Word) (machine : Machine) : Machine :=
  { machine with
    cpu := (evaluateBranchCondition machine.cpu (rt insn) (ra insn)).2 }

/-- The condition of a branch holds. -/
def conditionHolds (insn : Word) (cpu : CpuState) : Bool :=
  (evaluateBranchCondition cpu (rt insn) (ra insn)).1

/-- What evaluating a condition leaves alone. -/
theorem evaluateBranchCondition_kept (cpu : CpuState) (bo bi : Register) :
    (evaluateBranchCondition cpu bo bi).2.gpr = cpu.gpr ∧
      (evaluateBranchCondition cpu bo bi).2.pc = cpu.pc ∧
      (evaluateBranchCondition cpu bo bi).2.lr = cpu.lr := by
  unfold evaluateBranchCondition
  generalize ((bo &&& 0x04) == 0) = decrement
  cases decrement with
  | true => exact ⟨rfl, rfl, rfl⟩
  | false => exact ⟨rfl, rfl, rfl⟩

theorem execute19_bcctr (host : Host) (config : ExecutionConfig)
    (currentPc : Word) {insn : Word} (machine : Machine)
    (isBcctr : xo insn = 528) :
    execute19 host config currentPc insn machine =
      bcctr host config (rt insn) (ra insn) (lk insn) machine := by
  unfold execute19
  rw [isBcctr]
  rfl

/-- `bcctr` in terms of its condition. -/
theorem bcctr_eq (host : Host) (config : ExecutionConfig) (insn : Word)
    (linked : Bool) (machine : Machine) :
    bcctr host config (rt insn) (ra insn) linked machine =
      if conditionHolds insn machine.cpu then
        if (machine.cpu.ctr &&& ~~~3) == 0 &&
            inImportRange config (machine.cpu.gpr 12) then
          importGlue host config (decided insn machine)
        else
          .next { machine with
            cpu := follow linked (machine.cpu.ctr &&& ~~~3)
              (decided insn machine).cpu }
      else .next (decided insn machine) := by
  have kept := (evaluateBranchCondition_kept machine.cpu (rt insn)
    (ra insn)).1
  unfold bcctr conditionHolds decided
  generalize evaluateBranchCondition machine.cpu (rt insn) (ra insn) =
    outcome at *
  obtain ⟨_ | _, cpu⟩ := outcome
  · rfl
  · dsimp only at kept ⊢
    rw [kept]
    rfl

/-- A taken `bcctr` or `bcctrl` that a stub handles successfully.  The machine
is the one before the instruction. -/
structure HandledCall (host : Host) (config : ExecutionConfig) (insn : Word)
    (machine : Machine) (binding : ImportStubBinding) : Prop where
  group : opcode insn = 19
  isBcctr : xo insn = 528
  taken : conditionHolds insn (advance machine).cpu = true
  nullTarget : machine.cpu.ctr &&& ~~~3 = 0
  importRange : inImportRange config (machine.cpu.gpr 12) = true
  bound : findImportStub config.importStubs (machine.cpu.gpr 12) = some binding
  handled : (executeImportStub host binding
    (decided insn (advance machine))).1.handled = true
  success : (executeImportStub host binding
    (decided insn (advance machine))).1.success = true

/-- `if (lk) cpu.lr = cpu.pc` -/
def link (lk : Bool) (machine : Machine) : Machine :=
  if lk then machine.redirect machine.cpu.pc machine.cpu.pc else machine

/-- `blr` -/
def blr (machine : Machine) : Machine :=
  { machine with cpu := bclr 20 0 false machine.cpu }

/-- The call as a routine in memory would have it: link, do what the stub
does, and return. -/
def realCall (host : Host) (binding : ImportStubBinding) (insn : Word)
    (machine : Machine) : Machine :=
  blr (executeImportStub host binding
    (link (lk insn) (decided insn (advance machine)))).2

/-- The address a call returns to. -/
def returnPoint (insn : Word) (machine : Machine) : Word :=
  if lk insn then machine.cpu.pc + 4 else machine.cpu.lr

section HandledCall

variable {host : Host} {config : ExecutionConfig} {insn : Word}
  {machine : Machine} {binding : ImportStubBinding}

private theorem decided_pc :
    (decided insn (advance machine)).cpu.pc = machine.cpu.pc + 4 :=
  (evaluateBranchCondition_kept (advance machine).cpu (rt insn)
    (ra insn)).2.1

private theorem decided_lr :
    (decided insn (advance machine)).cpu.lr = machine.cpu.lr :=
  (evaluateBranchCondition_kept (advance machine).cpu (rt insn)
    (ra insn)).2.2

private theorem blr_redirect (machine : Machine) (pc lr : Word) :
    blr (machine.redirect pc lr) = machine.redirect (lr &&& ~~~3) lr := by
  rfl

/-- A stub that succeeds hands over to LR. -/
private theorem importGlue_eq {machine : Machine}
    (bound : findImportStub config.importStubs (machine.cpu.gpr 12) =
      some binding)
    (handled : (executeImportStub host binding machine).1.handled = true)
    (success : (executeImportStub host binding machine).1.success = true) :
    importGlue host config machine =
      .next ((executeImportStub host binding machine).2.redirect
        machine.cpu.lr machine.cpu.lr) := by
  have control := executeImportStub_control host binding machine
  unfold importGlue
  rw [bound]
  dsimp only
  rw [handled, success, if_pos rfl, if_pos rfl, ← control]
  rfl

/-- The shortcut continues at LR as it was. -/
theorem HandledCall.issue_eq
    (call : HandledCall host config insn machine binding) :
    issue host config insn machine =
      .next ((executeImportStub host binding
        (decided insn (advance machine))).2.redirect machine.cpu.lr
          machine.cpu.lr) := by
  have kept := (evaluateBranchCondition_kept (advance machine).cpu (rt insn)
    (ra insn)).1
  have bound : findImportStub config.importStubs
      ((decided insn (advance machine)).cpu.gpr 12) = some binding := by
    rw [decided, kept]
    exact call.bound
  have nullTarget : (advance machine).cpu.ctr &&& ~~~3 = 0 := call.nullTarget
  have importRange : inImportRange config ((advance machine).cpu.gpr 12) =
      true := call.importRange
  rw [issue, execute_of_group19 _ _ _ _ call.group,
    execute19_bcctr _ _ _ _ call.isBcctr, bcctr_eq, if_pos call.taken,
    nullTarget, importRange, if_pos (by rfl),
    importGlue_eq bound call.handled call.success, decided_lr]

/-- What the real call leaves behind. -/
theorem realCall_eq :
    realCall host binding insn machine =
      (executeImportStub host binding
        (decided insn (advance machine))).2.redirect
          (returnPoint insn machine &&& ~~~3) (returnPoint insn machine) := by
  unfold realCall link returnPoint
  cases lk insn with
  | true =>
      rw [if_pos rfl, if_pos rfl, executeImportStub_redirect, blr_redirect,
        decided_pc]
  | false =>
      rw [if_neg Bool.false_ne_true, if_neg Bool.false_ne_true,
        ← executeImportStub_control, blr_redirect, decided_lr]
      rfl

/-- LR already holds the return point of the call, and it is the address of a
word. -/
def Returns (insn : Word) (machine : Machine) : Prop :=
  machine.cpu.lr = returnPoint insn machine ∧
    machine.cpu.lr &&& ~~~3 = machine.cpu.lr

instance (insn : Word) (machine : Machine) :
    Decidable (Returns insn machine) :=
  inferInstanceAs (Decidable (_ ∧ _))

end HandledCall

/-- A handled call is a real call exactly when LR holds where that returns. -/
theorem stub_call_refines_real_call_iff (host : Host)
    (config : ExecutionConfig) (insn : Word) (machine : Machine)
    (binding : ImportStubBinding)
    (call : HandledCall host config insn machine binding) :
    issue host config insn machine =
        .next (realCall host binding insn machine) ↔
      Returns insn machine := by
  rw [call.issue_eq, realCall_eq, Turn.next.injEq, Machine.redirect_eq_iff]
  constructor
  · intro same
    refine ⟨same.2, ?_⟩
    rw [← same.2] at same
    exact same.1.symm
  · intro returns
    rw [← returns.1]
    exact ⟨returns.2.symm, rfl⟩

/-- `bzero`, bound to the first import. -/
def bzeroBinding : ImportStubBinding :=
  ⟨0x30000000, .bzero, "bzero"⟩

/-- About to call the first import through glue, with four bytes to clear. -/
def atGlue (lr : Word) : Machine :=
  { memory := ⟨[⟨0x3000, [1, 2, 3, 4, 5], ⟨3⟩, "data"⟩]⟩
    cpu :=
      { ((CpuState.zero.setGpr 3 0x3000).setGpr 4 4).setGpr 12 0x30000000 with
        pc := 0x1000
        lr }
    stderr := [] }

theorem stub_tail_call_is_real_call :
    issue .quiet { importStubs := [bzeroBinding] } 0x4e800420 (atGlue 0x2000) =
      .next (realCall .quiet bzeroBinding 0x4e800420 (atGlue 0x2000)) :=
  (stub_call_refines_real_call_iff .quiet { importStubs := [bzeroBinding] }
    0x4e800420 (atGlue 0x2000) bzeroBinding
    ⟨by decide, by decide, by decide, by decide, by decide, by decide,
      by decide, by decide⟩).mpr (by decide)

/-- `bcctrl` to a stub goes back to where LR already was. -/
theorem linking_stub_call_is_not_linked :
    HandledCall .quiet { importStubs := [bzeroBinding] } 0x4e800421
        (atGlue 0x2000) bzeroBinding ∧
      issue .quiet { importStubs := [bzeroBinding] } 0x4e800421
          (atGlue 0x2000) ≠
        .next (realCall .quiet bzeroBinding 0x4e800421 (atGlue 0x2000)) := by
  constructor
  · exact ⟨by decide, by decide, by decide, by decide, by decide, by decide,
      by decide, by decide⟩
  · intro same
    have sameLr := congrArg (·.state.cpu.lr) same
    revert sameLr
    decide

end BuiltinInterpreter

end PpcLab
