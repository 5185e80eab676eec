import PpcLab.Interpreter.Disassemble
import PpcLab.Interpreter.MultipleWord

/-!
# The interpreter loop

`run` repeats one turn: look for an exit, fetch, trace, advance and execute.
The result of a stopped turn counts from the turn it stopped in; `run` adds the
instructions completed before it.

What holds of every run, whatever the program: a budget may be split anywhere,
and memory changes only inside writable regions.
-/

namespace PpcLab.BuiltinInterpreter

open Text

/-- The symbol that best explains an address, with the distance to it. -/
def symbolize (pc : Word) (symbols : Option (List ImageSymbol)) : String :=
  let better (best : Option ImageSymbol) (symbol : ImageSymbol) :
      Option ImageSymbol :=
    if !symbol.defined || symbol.name.isEmpty || pc.ult symbol.value then best
    else
      match best with
      | none => some symbol
      | some previous =>
          if previous.value.ult symbol.value then some symbol else best
  match (symbols.getD []).foldl better none with
  | none => ""
  | some best =>
      let delta := pc - best.value
      if best.size != 0 && !delta.ult best.size then ""
      else if delta != 0 then best.name ++ "+0x" ++ hex delta.toNat
      else best.name

def traceThis (config : ExecutionConfig) (currentPc : Word) : Bool :=
  config.trace && config.traceRange.all (·.contains currentPc)

def traceLine (config : ExecutionConfig) (currentPc insn : Word) : String :=
  let symbol := symbolize currentPc config.traceSymbols
  hex32 currentPc.toNat ++ "  " ++ hex32 insn.toNat ++ "  " ++
    disassemble currentPc insn ++
      (if symbol.isEmpty then "" else "  [" ++ symbol ++ "]")

/-- `cpu.pc += 4` -/
def advance (machine : Machine) : Machine :=
  { machine with cpu := { machine.cpu with pc := machine.cpu.pc + 4 } }

def writeTrace (config : ExecutionConfig) (insn : Word) (machine : Machine) :
    Machine :=
  if traceThis config machine.cpu.pc then
    { machine with
      stderr := machine.stderr ++
        [traceLine config machine.cpu.pc insn] }
  else machine

/-- Execute a word fetched at the program counter. -/
def issue (host : Host) (config : ExecutionConfig) (insn : Word)
    (machine : Machine) : Turn Machine Fault :=
  execute host config machine.cpu.pc insn (advance machine)

/-- The result a fault becomes when it is returned. -/
def faultResult (insn : Word) (fault : Fault) : ExecutionResult :=
  ⟨fault.reason, fault.completed, fault.pc, insn, fault.message⟩

/-- A result returned before an instruction was fetched. -/
def stopAtPc (reason : StopReason) (message : String) (machine : Machine) :
    Turn Machine ExecutionResult :=
  .stop machine ⟨reason, 0, machine.cpu.pc, 0, message⟩

/-- One turn of the interpreter loop. -/
def step (host : Host) (config : ExecutionConfig) (machine : Machine) :
    Turn Machine ExecutionResult :=
  if machine.cpu.pc = config.returnAddress then
    stopAtPc .returned "returned through harness trampoline" machine
  else if inImportRange config machine.cpu.pc then
    stopAtPc .importTrap
      ("entered import trap range at " ++ hex32 machine.cpu.pc.toNat) machine
  else if !machine.memory.executable machine.cpu.pc 4 then
    stopAtPc .memoryFault
      "instruction fetch from non-executable/unmapped memory" machine
  else
    match machine.memory.read32 machine.cpu.pc with
    | none => stopAtPc .memoryFault "instruction fetch failed" machine
    | some insn =>
        (issue host config insn (writeTrace config insn machine)).mapResult
          (faultResult insn)

/-- What `run` returns when its loop ended like this. -/
def exitResult (config : ExecutionConfig)
    (finish : LoopExit Machine ExecutionResult) : ExecutionResult :=
  match finish.result with
  | some result =>
      { result with instructions := finish.turns + result.instructions }
  | none =>
      ⟨.instructionLimit, config.instructionLimit, finish.state.cpu.pc, 0,
        "instruction limit reached"⟩

def run (host : Host) (config : ExecutionConfig) (machine : Machine) :
    ExecutionResult × Machine :=
  let finish := budgetedLoop (step host config) config.instructionLimit machine
  (exitResult config finish, finish.state)

open Instruction

private theorem loadWords_writeProtected (rt : Register) (ea : Word)
    (count start : Nat) (machine : Machine) :
    machine.memory.WriteProtected
      (transfer (loadWord rt ea) count start machine).2.memory := by
  refine transfer.relates
    (fun before after : Machine => before.memory.WriteProtected after.memory)
    (fun state => .refl state.memory) Memory.WriteProtected.trans ?_
    count start machine
  intro number state following loaded
  obtain ⟨_, _, rfl⟩ := loadWord_eq_some loaded
  exact .refl state.memory

private theorem storeWords_writeProtected (rt : Register) (ea : Word)
    (count start : Nat) (machine : Machine) :
    machine.memory.WriteProtected
      (transfer (storeWord rt ea) count start machine).2.memory := by
  refine transfer.relates
    (fun before after : Machine => before.memory.WriteProtected after.memory)
    (fun state => .refl state.memory) Memory.WriteProtected.trans ?_
    count start machine
  intro number state following stored
  obtain ⟨memory, written, rfl⟩ := storeWord_eq_some stored
  have permitted := (Memory.Checked.write32 (wordAddress ea number)
    (state.cpu.gpr (wordRegister rt number))).permitted state.memory
  rw [written] at permitted
  exact permitted

/-- An instruction stores only where a permission allows it. -/
theorem execute_writeProtected (host : Host) (config : ExecutionConfig)
    (currentPc insn : Word) (machine : Machine) :
    machine.memory.WriteProtected
      (execute host config currentPc insn machine).state.memory := by
  by_cases multiple : isMultiple insn
  · rcases multiple with isLmw | isStmw
    · rw [execute_of_lmw host config currentPc machine isLmw,
        transferTurn_state]
      exact loadWords_writeProtected _ _ _ _ machine
    · rw [execute_of_stmw host config currentPc machine isStmw,
        transferTurn_state]
      exact storeWords_writeProtected _ _ _ _ machine
  · have effect := execute_effect host config currentPc insn machine multiple
    generalize execute host config currentPc insn machine = turn at effect
    cases effect with
    | next after permitted => exact permitted
    | fault => exact .refl machine.memory
    | importFault after reason pc message permitted => exact permitted

/-- An `lmw` or `stmw` that stops has met a fault of the memory. -/
theorem execute_reason_of_multiple {host : Host} {config : ExecutionConfig}
    {currentPc insn : Word} {machine final : Machine} {stop : Fault}
    (multiple : isMultiple insn)
    (stopped : execute host config currentPc insn machine =
      .stop final stop) :
    stop.reason = .memoryFault := by
  rcases multiple with isLmw | isStmw
  · rw [execute_of_lmw host config currentPc machine isLmw] at stopped
    rw [(transferTurn_stop stopped).2]
  · rw [execute_of_stmw host config currentPc machine isStmw] at stopped
    rw [(transferTurn_stop stopped).2]

/-- No instruction reports that the budget is spent. -/
theorem execute_reason {host : Host} {config : ExecutionConfig}
    {currentPc insn : Word} {machine final : Machine} {stop : Fault}
    (stopped : execute host config currentPc insn machine =
      .stop final stop) :
    stop.reason ≠ .instructionLimit := by
  by_cases multiple : isMultiple insn
  · simp [execute_reason_of_multiple multiple stopped]
  · have effect := execute_effect host config currentPc insn machine multiple
    rw [stopped] at effect
    cases effect with
    | fault reason pc message known =>
        rcases known with rfl | rfl | rfl | rfl <;> simp
    | importFault _ reason pc message permitted known =>
        rcases known with rfl | rfl <;> simp

/-- The turn gets past every exit and executes this word. -/
structure Fetches (config : ExecutionConfig) (machine : Machine)
    (insn : Word) : Prop where
  notReturned : machine.cpu.pc ≠ config.returnAddress
  notImported : inImportRange config machine.cpu.pc = false
  executable : machine.memory.executable machine.cpu.pc 4 = true
  word : machine.memory.read32 machine.cpu.pc = some insn

@[simp] theorem writeTrace_memory (config : ExecutionConfig) (insn : Word)
    (machine : Machine) :
    (writeTrace config insn machine).memory = machine.memory := by
  unfold writeTrace
  split <;> rfl

@[simp] theorem writeTrace_cpu (config : ExecutionConfig) (insn : Word)
    (machine : Machine) :
    (writeTrace config insn machine).cpu = machine.cpu := by
  unfold writeTrace
  split <;> rfl

theorem step_of_fetches (host : Host) {config : ExecutionConfig}
    {machine : Machine} {insn : Word} (fetches : Fetches config machine insn) :
    step host config machine =
      (execute host config machine.cpu.pc insn
        (advance (writeTrace config insn machine))).mapResult
        (faultResult insn) := by
  unfold step issue
  simp [fetches.notReturned, fetches.notImported, fetches.executable,
    fetches.word]

/-- What a turn of the loop is: an exit before the fetch, or the execution of
the word at the program counter. -/
theorem step_cases (host : Host) (config : ExecutionConfig)
    (machine : Machine) :
    (∃ reason message,
        step host config machine = stopAtPc reason message machine ∧
          (reason = .returned ∨ reason = .importTrap ∨
            reason = .memoryFault)) ∨
      ∃ insn, Fetches config machine insn := by
  unfold step
  split
  · exact .inl ⟨_, _, rfl, .inl rfl⟩
  rename_i notReturned
  split
  · exact .inl ⟨_, _, rfl, .inr (.inl rfl)⟩
  rename_i notImported
  split
  · exact .inl ⟨_, _, rfl, .inr (.inr rfl)⟩
  rename_i executable
  cases word : machine.memory.read32 machine.cpu.pc with
  | none => exact .inl ⟨_, _, rfl, .inr (.inr rfl)⟩
  | some insn =>
      exact .inr ⟨insn, notReturned, by simpa using notImported,
        by simpa using executable, word⟩

theorem step_writeProtected (host : Host) (config : ExecutionConfig)
    (machine : Machine) :
    machine.memory.WriteProtected
      (step host config machine).state.memory := by
  rcases step_cases host config machine with
    ⟨reason, message, exited, _⟩ | ⟨insn, fetches⟩
  · rw [exited]
    exact .refl machine.memory
  · rw [step_of_fetches host fetches, Turn.state_mapResult]
    have permitted := execute_writeProtected host config machine.cpu.pc insn
      (advance (writeTrace config insn machine))
    simpa [advance] using permitted

theorem step_reason {host : Host} {config : ExecutionConfig}
    {machine final : Machine} {result : ExecutionResult}
    (stopped : step host config machine = .stop final result) :
    result.reason ≠ .instructionLimit := by
  rcases step_cases host config machine with
    ⟨reason, message, exited, known⟩ | ⟨insn, fetches⟩
  · rw [exited] at stopped
    obtain ⟨_, rfl⟩ := Turn.stop.inj stopped
    rcases known with rfl | rfl | rfl <;> simp
  · rw [step_of_fetches host fetches] at stopped
    cases turn : execute host config machine.cpu.pc insn
        (advance (writeTrace config insn machine)) with
    | next after => simp [turn, Turn.mapResult] at stopped
    | stop after fault =>
        rw [turn] at stopped
        obtain ⟨_, rfl⟩ := Turn.stop.inj stopped
        exact execute_reason turn

/-- The same configuration with another instruction limit. -/
def withLimit (config : ExecutionConfig) (limit : Nat) : ExecutionConfig :=
  { config with instructionLimit := limit }

/-- The loop of a run under a limit. -/
def loop (host : Host) (config : ExecutionConfig) (limit : Nat)
    (machine : Machine) : LoopExit Machine ExecutionResult :=
  budgetedLoop (step host config) limit machine

theorem run_withLimit (host : Host) (config : ExecutionConfig) (limit : Nat)
    (machine : Machine) :
    run host (withLimit config limit) machine =
      (exitResult (withLimit config limit) (loop host config limit machine),
        (loop host config limit machine).state) := rfl

/-- A run reports the limit exactly when its loop did not return. -/
theorem reason_eq_instructionLimit_iff (host : Host)
    (config : ExecutionConfig) (limit : Nat) (machine : Machine) :
    (run host (withLimit config limit) machine).1.reason =
        .instructionLimit ↔
      (loop host config limit machine).result = none := by
  rw [run_withLimit]
  unfold exitResult
  cases returned : (loop host config limit machine).result with
  | none => simp
  | some result =>
      obtain ⟨before, _, _, lastTurn⟩ :=
        budgetedLoop.last_turn limit machine returned
      simpa using step_reason lastTurn

/-- Two runs under parts of a budget are one run under the whole of it, and a
run that stopped for another reason does not depend on its budget. -/
theorem run_split_budget (host : Host) (config : ExecutionConfig)
    (machine : Machine) (first second : Nat) :
    let one := run host (withLimit config first) machine
    let two := run host (withLimit config second) one.2
    (one.1.reason = .instructionLimit →
      run host (withLimit config (first + second)) machine =
        ({ two.1 with
            instructions := one.1.instructions + two.1.instructions },
          two.2)) ∧
      (one.1.reason ≠ .instructionLimit →
        ∀ larger, first ≤ larger →
          run host (withLimit config larger) machine = one) := by
  intro one two
  constructor
  · intro limited
    have spent := (reason_eq_instructionLimit_iff host config first
      machine).mp limited
    have whole := budgetedLoop.add_of_none first second machine spent
    have counted : one.1.instructions = first := by
      simp only [one, run_withLimit, exitResult, spent, withLimit]
    rw [counted]
    simp only [two, one, run_withLimit]
    simp only [loop] at whole ⊢
    rw [whole]
    generalize budgetedLoop (step host config) second
      (budgetedLoop (step host config) first machine).state = rest
    obtain ⟨final, turns, result⟩ := rest
    cases result with
    | none => simp [LoopExit.addTurns, exitResult, withLimit]
    | some result =>
        simp [LoopExit.addTurns, exitResult, Nat.add_assoc]
  · intro otherReason larger atLeast
    have returned : (loop host config first machine).result ≠ none := by
      intro spent
      exact otherReason ((reason_eq_instructionLimit_iff host config first
        machine).mpr spent)
    obtain ⟨result, returned⟩ := Option.ne_none_iff_exists'.mp returned
    obtain ⟨extra, rfl⟩ := Nat.exists_eq_add_of_le atLeast
    have same := budgetedLoop.add_of_some first extra machine returned
    simp only [one, run_withLimit]
    simp only [loop] at returned ⊢
    rw [same]
    simp [exitResult, returned]

theorem run_writeProtected (host : Host) (config : ExecutionConfig)
    (machine : Machine) :
    machine.memory.WriteProtected (run host config machine).2.memory :=
  budgetedLoop.relates
    (fun before after => before.memory.WriteProtected after.memory)
    (fun state => .refl state.memory) Memory.WriteProtected.trans
    (step_writeProtected host config) config.instructionLimit machine

/-- A run keeps the regions, the bytes of every region that is not writable,
and hence changes bytes in writable regions only. -/
theorem run_changes_only_writable (host : Host) (config : ExecutionConfig)
    (machine : Machine) :
    machine.memory.WriteProtected (run host config machine).2.memory ∧
      ∀ (index offset : Nat) (before after : MemoryRegion),
        machine.memory.regions[index]? = some before →
        (run host config machine).2.memory.regions[index]? = some after →
        after.bytes[offset]? ≠ before.bytes[offset]? →
        hasPerm before.perms .write = true := by
  have kept := run_writeProtected host config machine
  refine ⟨kept, ?_⟩
  intro index offset before after present presentAfter changed
  obtain ⟨bound, rfl⟩ := List.getElem?_eq_some_iff.mp present
  obtain ⟨boundAfter, rfl⟩ := List.getElem?_eq_some_iff.mp presentAfter
  have region := List.Forall₂.get kept bound boundAfter
  by_contra notWritable
  have same := region.bytes (by simpa using notWritable)
  exact changed (congrArg (fun bytes : List Byte => bytes[offset]?) same)

/-- Every word that a run executes is the word that was loaded there, whatever
the run has stored before and whatever its import stubs did. -/
theorem executed_words_are_loaded (host : Host) (config : ExecutionConfig)
    {machine : Machine} (apart : machine.memory.WriteXorExecute) (turns : Nat)
    {insn : Word}
    (fetches : Fetches config (loop host config turns machine).state insn) :
    Fetches config
      { machine with cpu := (loop host config turns machine).state.cpu }
      insn := by
  have kept : machine.memory.WriteProtected
      (loop host config turns machine).state.memory :=
    run_writeProtected host (withLimit config turns) machine
  generalize (loop host config turns machine).state = reached at *
  obtain ⟨region, found, executable⟩ :=
    (Option.any_eq_true _ _).mp fetches.executable
  obtain ⟨old, foundOld, base, perms, bytes⟩ :=
    kept.find_executable apart found executable
  refine ⟨fetches.notReturned, fetches.notImported, ?_, ?_⟩
  · simp [Memory.executable, foundOld, perms, executable]
  · have word := fetches.word
    simpa [Memory.read32, Memory.readBytes, found, foundOld, perms, bytes,
      MemoryRegion.offset, base] using word

/-- A store behind the code, and a branch to itself. -/
theorem executed_words_are_loaded_store :
    let machine : Machine :=
      { memory :=
          ⟨[⟨0x1000, [0x90, 0x61, 0, 0, 0x48, 0, 0, 0], ⟨5⟩, "text"⟩,
            ⟨0x1008, [0, 0, 0, 0], ⟨3⟩, "data"⟩]⟩
        cpu :=
          { (CpuState.zero.setGpr 1 0x1008).setGpr 3 7 with pc := 0x1000 }
        stderr := [] }
    (loop .quiet {} 1 machine).state.memory.read32 0x1008 = some 7 ∧
      Fetches {} { machine with cpu := (loop .quiet {} 1 machine).state.cpu }
        0x48000000 := by
  refine ⟨by decide, ?_⟩
  exact executed_words_are_loaded .quiet {}
    (by rw [Memory.WriteXorExecute]; decide) 1
    ⟨by decide, by decide, by decide, by decide⟩

end PpcLab.BuiltinInterpreter
