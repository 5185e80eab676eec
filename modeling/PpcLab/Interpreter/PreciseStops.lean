import PpcLab.Interpreter.Run

/-!
# Precise stops

A run that stops at an instruction should leave the state in which that
instruction began.  It does, unless the instruction is a multiple-word transfer
that was cut short after it had changed something.
-/

namespace PpcLab.BuiltinInterpreter

open Instruction

/-- Equal memory and registers; only the program counter may differ. -/
def SameButPc (left right : Machine) : Prop :=
  left.memory = right.memory ∧
    { left.cpu with pc := right.cpu.pc } = right.cpu

theorem SameButPc.refl (machine : Machine) : SameButPc machine machine :=
  ⟨rfl, rfl⟩

/-- A run stopped by an instruction leaves what the instructions completed
before it computed. -/
def PreciseStop (host : Host) (config : ExecutionConfig)
    (machine : Machine) : Prop :=
  let stopped := run host config machine
  StopsInstruction stopped.1.reason →
    SameButPc stopped.2
      (run host (withLimit config stopped.1.instructions) machine).2

/-- `lmw` meets a word it cannot read after one that changed its register. -/
def TornLmw (memory : Memory) (cpu : CpuState) (rt : Register) (ea : Word) :
    Prop :=
  ∃ reached < 32 - rt.toNat,
    (∀ index < reached,
      (memory.read32 (wordAddress ea index)).isSome = true) ∧
    memory.read32 (wordAddress ea reached) = none ∧
    ∃ index < reached,
      memory.read32 (wordAddress ea index) ≠
        some (cpu.gpr (wordRegister rt index))

/-- `stmw` meets a word it cannot write after one that changed memory. -/
def TornStmw (memory : Memory) (cpu : CpuState) (rt : Register) (ea : Word) :
    Prop :=
  ∃ reached < 32 - rt.toNat,
    (∀ index < reached,
      memory.writable (wordAddress ea index) 4 = true) ∧
    memory.writable (wordAddress ea reached) 4 = false ∧
    ∃ index < reached,
      memory.rangeAt (wordAddress ea index) 4 ≠
        some (Bytes.encode 4 (cpu.gpr (wordRegister rt index)))

/-- The next instruction is a multiple-word transfer that will be cut short
after it has changed something. -/
def TornTransfer (config : ExecutionConfig) (machine : Machine) : Prop :=
  ∃ insn, Fetches config machine insn ∧
    let ea := effectiveAddressD machine.cpu (ra insn) (simm insn)
    ((opcode insn = 46 ∧ TornLmw machine.memory machine.cpu (rt insn) ea) ∨
      (opcode insn = 47 ∧ TornStmw machine.memory machine.cpu (rt insn) ea))

theorem tornLmw_iff (rt : Register) (ea : Word) (machine : Machine) :
    TornLmw machine.memory machine.cpu rt ea ↔
      transfer.Torn (loadWord rt ea) (32 - rt.toNat) 0 machine := by
  unfold TornLmw transfer.Torn transfer.FailsAt
  simp only [Nat.zero_add, ne_eq, loadWord_eq_self_iff, and_assoc]
  simp only [loadWord, Option.isSome_map, Option.map_eq_none_iff]

theorem tornStmw_iff (rt : Register) (ea : Word) (machine : Machine) :
    TornStmw machine.memory machine.cpu rt ea ↔
      transfer.Torn (storeWord rt ea) (32 - rt.toNat) 0 machine := by
  have failed (index : Nat) : storeWord rt ea index machine = none ↔
      machine.memory.writable (wordAddress ea index) 4 = false := by
    rw [← storeWord_isSome rt, Option.isSome_eq_false_iff,
      Option.isNone_iff_eq_none]
  unfold TornStmw transfer.Torn transfer.FailsAt
  simp only [Nat.zero_add, ne_eq, storeWord_eq_self_iff, storeWord_isSome,
    failed, and_assoc]
  constructor
  · rintro ⟨reached, bound, before, after, index, smaller, changed⟩
    refine ⟨reached, bound, before, after, index, smaller, ?_⟩
    exact fun unchanged => changed unchanged.2
  · rintro ⟨reached, bound, before, after, index, smaller, changed⟩
    refine ⟨reached, bound, before, after, index, smaller, ?_⟩
    exact fun same => changed ⟨before index smaller, same⟩

/-- The machine in which the word fetched from `machine` executes. -/
def started (config : ExecutionConfig) (insn : Word) (machine : Machine) :
    Machine :=
  advance (writeTrace config insn machine)

@[simp] theorem started_memory (config : ExecutionConfig) (insn : Word)
    (machine : Machine) :
    (started config insn machine).memory = machine.memory := by
  simp [started, advance]

@[simp] theorem started_gpr (config : ExecutionConfig) (insn : Word)
    (machine : Machine) :
    (started config insn machine).cpu.gpr = machine.cpu.gpr := by
  simp [started, advance]

theorem started_sameButPc (config : ExecutionConfig) (insn : Word)
    (machine : Machine) :
    SameButPc (started config insn machine) machine := by
  simp [SameButPc, started, advance]

/-- What a transfer leaves alone. -/
def SameControl (before after : Machine) : Prop :=
  after.cpu.pc = before.cpu.pc ∧ after.stderr = before.stderr

theorem SameControl.trans {first second third : Machine}
    (left : SameControl first second) (right : SameControl second third) :
    SameControl first third :=
  ⟨right.1.trans left.1, right.2.trans left.2⟩

private theorem loadWords_sameControl (rt : Register) (ea : Word)
    (count start : Nat) (machine : Machine) :
    SameControl machine (transfer (loadWord rt ea) count start machine).2 := by
  refine transfer.relates SameControl (fun _ => ⟨rfl, rfl⟩)
    SameControl.trans ?_ count start machine
  intro number state following loaded
  obtain ⟨_, _, rfl⟩ := loadWord_eq_some loaded
  exact ⟨rfl, rfl⟩

private theorem storeWords_sameControl (rt : Register) (ea : Word)
    (count start : Nat) (machine : Machine) :
    SameControl machine
      (transfer (storeWord rt ea) count start machine).2 := by
  refine transfer.relates SameControl (fun _ => ⟨rfl, rfl⟩)
    SameControl.trans ?_ count start machine
  intro number state following stored
  obtain ⟨_, _, rfl⟩ := storeWord_eq_some stored
  exact ⟨rfl, rfl⟩

/-- A machine that kept its control state differs from the one that started
the instruction exactly when it differs from the one before. -/
theorem sameButPc_iff_eq_started {config : ExecutionConfig} {insn : Word}
    {machine final : Machine}
    (kept : SameControl (started config insn machine) final) :
    SameButPc final machine ↔ final = started config insn machine := by
  constructor
  · rintro ⟨sameMemory, sameCpu⟩
    obtain ⟨memory, cpu, stderr⟩ := final
    obtain ⟨samePc, sameStderr⟩ := kept
    simp only at sameMemory sameCpu samePc sameStderr
    have cpuEq : cpu = (started config insn machine).cpu := by
      calc
        cpu = { { cpu with pc := machine.cpu.pc } with
            pc := (started config insn machine).cpu.pc } := by
          rw [← samePc]
        _ = { machine.cpu with pc := (started config insn machine).cpu.pc } := by
          rw [sameCpu]
        _ = (started config insn machine).cpu := by
          simp [started, advance]
    rw [cpuEq, sameStderr, sameMemory]
    simp [started, advance]
  · rintro rfl
    exact started_sameButPc config insn machine

theorem tornTransfer_of_lmw {config : ExecutionConfig} {machine : Machine}
    {insn : Word} (fetches : Fetches config machine insn)
    (isLmw : opcode insn = 46) :
    TornTransfer config machine ↔
      TornLmw machine.memory machine.cpu (rt insn)
        (effectiveAddressD machine.cpu (ra insn) (simm insn)) := by
  constructor
  · rintro ⟨other, otherFetches, cut⟩
    obtain rfl : other = insn :=
      Option.some.inj (otherFetches.word.symm.trans fetches.word)
    rcases cut with ⟨_, cut⟩ | ⟨isStmw, _⟩
    · exact cut
    · omega
  · intro cut
    exact ⟨insn, fetches, .inl ⟨isLmw, cut⟩⟩

theorem tornTransfer_of_stmw {config : ExecutionConfig} {machine : Machine}
    {insn : Word} (fetches : Fetches config machine insn)
    (isStmw : opcode insn = 47) :
    TornTransfer config machine ↔
      TornStmw machine.memory machine.cpu (rt insn)
        (effectiveAddressD machine.cpu (ra insn) (simm insn)) := by
  constructor
  · rintro ⟨other, otherFetches, cut⟩
    obtain rfl : other = insn :=
      Option.some.inj (otherFetches.word.symm.trans fetches.word)
    rcases cut with ⟨isLmw, _⟩ | ⟨_, cut⟩
    · omega
    · exact cut
  · intro cut
    exact ⟨insn, fetches, .inr ⟨isStmw, cut⟩⟩

/-- The transfer a multiple-word instruction performs, and when it is torn. -/
theorem execute_multiple (host : Host) {config : ExecutionConfig}
    {machine : Machine} {insn : Word} (currentPc : Word)
    (fetches : Fetches config machine insn) (multiple : isMultiple insn) :
    ∃ (item : Nat → Machine → Option Machine) (message : String),
      execute host config currentPc insn (started config insn machine) =
          transferTurn message currentPc
            (transfer item (32 - (rt insn).toNat) 0
              (started config insn machine)) ∧
        NonInterfering item 32 ∧
        SameControl (started config insn machine)
          (transfer item (32 - (rt insn).toNat) 0
            (started config insn machine)).2 ∧
        (TornTransfer config machine ↔
          transfer.Torn item (32 - (rt insn).toNat) 0
            (started config insn machine)) := by
  have sameAddress : effectiveAddressD (started config insn machine).cpu
      (ra insn) (simm insn) =
        effectiveAddressD machine.cpu (ra insn) (simm insn) := by
    simp [effectiveAddressD, baseOrZero]
  rcases multiple with isLmw | isStmw
  · refine ⟨_, _, execute_of_lmw host config currentPc _ isLmw,
      loadWord_nonInterfering _ _, loadWords_sameControl _ _ _ _ _, ?_⟩
    rw [tornTransfer_of_lmw fetches isLmw, ← tornLmw_iff, sameAddress]
    simp [TornLmw]
  · refine ⟨_, _, execute_of_stmw host config currentPc _ isStmw,
      storeWord_nonInterfering _ _, storeWords_sameControl _ _ _ _ _, ?_⟩
    rw [tornTransfer_of_stmw fetches isStmw, ← tornStmw_iff, sameAddress]
    simp [TornStmw]

/-- A stop that counts no instruction is precise unless it cut a transfer
short. -/
theorem execute_stop_precise {host : Host} {config : ExecutionConfig}
    {currentPc insn : Word} {machine final : Machine} {stop : Fault}
    (fetches : Fetches config machine insn)
    (stopped : execute host config currentPc insn
      (started config insn machine) = .stop final stop)
    (uncounted : stop.completed = 0) :
    SameButPc final machine ↔ ¬ TornTransfer config machine := by
  by_cases multiple : isMultiple insn
  · obtain ⟨item, message, executed, apart, kept, torn⟩ :=
      execute_multiple host currentPc fetches multiple
    rw [executed] at stopped
    obtain ⟨finish, _⟩ := transferTurn_stop stopped
    rw [torn, transfer.torn_iff apart _ _ _ (by omega)]
    rw [finish] at kept ⊢
    rw [sameButPc_iff_eq_started kept]
    simp
  · have effect := execute_effect host config currentPc insn
      (started config insn machine) multiple
    rw [stopped] at effect
    have untouched : ¬ TornTransfer config machine := by
      rintro ⟨other, otherFetches, cut⟩
      obtain rfl : other = insn :=
        Option.some.inj (otherFetches.word.symm.trans fetches.word)
      exact multiple (cut.imp And.left And.left)
    cases effect with
    | fault =>
        simp [untouched, started_sameButPc]
    | importFault => simp at uncounted

/-- A torn transfer stops the run with a memory fault and is not counted. -/
theorem step_of_torn (host : Host) {config : ExecutionConfig}
    {machine : Machine} (torn : TornTransfer config machine) :
    ∃ final result, step host config machine = .stop final result ∧
      result.reason = .memoryFault ∧ result.instructions = 0 ∧
      ¬ SameButPc final machine := by
  have cut := torn
  obtain ⟨insn, fetches, kind⟩ := torn
  have multiple : isMultiple insn := kind.imp And.left And.left
  obtain ⟨item, message, executed, apart, _, tornItem⟩ :=
    execute_multiple host machine.cpu.pc fetches multiple
  have failed := ((transfer.torn_iff apart _ _ _ (by omega)).mp
    (tornItem.mp cut)).1
  generalize finish : transfer item (32 - (rt insn).toNat) 0
    (started config insn machine) = outcome at executed failed
  obtain ⟨succeeded, final⟩ := outcome
  obtain rfl : succeeded = false := failed
  have turn := step_of_fetches host fetches
  rw [← started, executed] at turn
  refine ⟨final, _, turn, rfl, rfl, ?_⟩
  rw [execute_stop_precise fetches executed rfl]
  exact not_not_intro cut

/-- The states in which a run begins an instruction within its budget. -/
def Visits (host : Host) (config : ExecutionConfig) (machine : Machine)
    (state : Machine) : Prop :=
  ∃ count < config.instructionLimit,
    loop host config count machine = ⟨state, count, none⟩

/-- A loop that reaches a state and stops there. -/
theorem loop_of_stop {host : Host} {config : ExecutionConfig}
    {machine state final : Machine} {result : ExecutionResult}
    {count limit : Nat} (bounded : count < limit)
    (reached : loop host config count machine = ⟨state, count, none⟩)
    (stopped : step host config state = .stop final result) :
    loop host config limit machine = ⟨final, count, some result⟩ := by
  obtain ⟨rest, rfl⟩ := Nat.exists_eq_add_of_lt bounded
  unfold loop at reached ⊢
  rw [Nat.add_assoc, budgetedLoop.add_of_none count (rest + 1) machine
    (by rw [reached]), reached, budgetedLoop.succ_of_stop rest stopped]
  simp [LoopExit.addTurns]

/-- A run that reaches a state and stops there, under any larger limit. -/
theorem run_of_stop {host : Host} {config : ExecutionConfig}
    {machine state final : Machine} {result : ExecutionResult}
    {count limit : Nat} (bounded : count < limit)
    (reached : loop host config count machine = ⟨state, count, none⟩)
    (stopped : step host config state = .stop final result) :
    run host (withLimit config limit) machine =
      ({ result with instructions := count + result.instructions },
        final) := by
  rw [run_withLimit, loop_of_stop bounded reached stopped]
  simp [exitResult]

theorem run_of_reached {host : Host} {config : ExecutionConfig}
    {machine state : Machine} {count : Nat}
    (reached : loop host config count machine = ⟨state, count, none⟩) :
    (run host (withLimit config count) machine).2 = state := by
  rw [run_withLimit, reached]

/-- The turn that stopped a run, and the state in which it began. -/
theorem last_visit {host : Host} {config : ExecutionConfig}
    {machine : Machine}
    (stopped : (run host config machine).1.reason ≠ .instructionLimit) :
    ∃ state final result count, count < config.instructionLimit ∧
      loop host config count machine = ⟨state, count, none⟩ ∧
      step host config state = .stop final result := by
  have notSpent : (loop host config config.instructionLimit machine).result ≠
      none := by
    intro spent
    exact stopped ((reason_eq_instructionLimit_iff host config
      config.instructionLimit machine).mpr spent)
  obtain ⟨result, returned⟩ := Option.ne_none_iff_exists'.mp notSpent
  obtain ⟨state, reached, bounded, lastTurn⟩ :=
    budgetedLoop.last_turn config.instructionLimit machine returned
  exact ⟨state, _, result, _, bounded, reached, lastTurn⟩

private theorem stopsInstruction_ne {reason : StopReason}
    (stops : StopsInstruction reason) : reason ≠ .instructionLimit := by
  rcases stops with rfl | rfl | rfl | rfl <;> simp

/-- The stop of a turn that did not cut a transfer short is precise. -/
theorem precise_of_not_torn {host : Host} {config : ExecutionConfig}
    {machine state final : Machine} {result : ExecutionResult} {count : Nat}
    (reached : loop host config count machine = ⟨state, count, none⟩)
    (stopped : step host config state = .stop final result)
    (whole : ¬ TornTransfer config state) :
    SameButPc final
      (run host (withLimit config (count + result.instructions))
        machine).2 := by
  rcases step_cases host config state with
    ⟨reason, message, exited, _⟩ | ⟨insn, fetches⟩
  · rw [exited] at stopped
    obtain ⟨rfl, rfl⟩ := Turn.stop.inj stopped
    rw [Nat.add_zero, run_of_reached reached]
    exact .refl state
  · have turn := step_of_fetches host fetches
    cases executed : execute host config state.cpu.pc insn
        (started config insn state) with
    | next after =>
        rw [← started, executed, stopped] at turn
        contradiction
    | stop after stop =>
        rw [← started, executed, stopped] at turn
        obtain ⟨rfl, rfl⟩ := Turn.stop.inj turn
        by_cases uncounted : stop.completed = 0
        · have precise := (execute_stop_precise fetches executed
            uncounted).mpr whole
          simp only [faultResult, uncounted, Nat.add_zero]
          rwa [run_of_reached reached]
        · rw [run_of_stop (by simp [faultResult]; omega) reached stopped]
          exact .refl final

/-- Stops are precise in exactly the runs that visit no torn transfer. -/
theorem run_precise_iff (host : Host) (config : ExecutionConfig)
    (machine : Machine) :
    PreciseStop host config machine ↔
      ∀ state, Visits host config machine state →
        ¬ TornTransfer config state := by
  constructor
  · rintro precise state ⟨count, bounded, reached⟩ torn
    obtain ⟨final, result, stopped, reason, uncounted, changed⟩ :=
      step_of_torn host torn
    have whole : run host config machine = _ :=
      run_of_stop bounded reached stopped
    have same := precise (by rw [whole]; exact .inr (.inl reason))
    simp only [whole, uncounted, Nat.add_zero] at same
    rw [run_of_reached reached] at same
    exact changed same
  · intro noneTorn stops
    obtain ⟨state, final, result, count, bounded, reached, stopped⟩ :=
      last_visit (stopsInstruction_ne stops)
    have whole : run host config machine = _ :=
      run_of_stop bounded reached stopped
    rw [whole]
    exact precise_of_not_torn reached stopped
      (noneTorn state ⟨count, bounded, reached⟩)

/-- `lmw r30,0(r3)` over a region that ends after one word. -/
def cutShort : Machine :=
  { memory :=
      ⟨[{ base := 0x1000, bytes := [0xbb, 0xc3, 0x00, 0x00]
          perms := .read ||| .execute, name := "code" },
        { base := 0x2000, bytes := [0x00, 0x00, 0x00, 0x07]
          perms := .read ||| .write, name := "data" }]⟩
    cpu := { CpuState.zero with pc := 0x1000 }.setGpr 3 0x2000
    stderr := [] }

theorem cutShort_stop_not_precise :
    ¬ PreciseStop Host.quiet {} cutShort := by
  intro precise
  have stops : StopsInstruction (run Host.quiet {} cutShort).1.reason :=
    .inr (.inl (by decide))
  have same := congrArg (fun cpu => cpu.gpr 30) (precise stops).2
  revert same
  decide

end PpcLab.BuiltinInterpreter
