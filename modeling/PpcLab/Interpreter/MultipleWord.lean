import PpcLab.Interpreter.Effect
import PpcLab.Library.Transfer

/-!
# Multiple-word transfers

`lmw` and `stmw` move the registers from `rt` up to the last one, word by word.
They are transfers whose items do not interfere: the registers are distinct and
the words lie side by side, also where the address wraps around.
-/

namespace PpcLab.BuiltinInterpreter

open Instruction

/-- The word with this number in a multiple-word transfer. -/
def wordAddress (ea : Word) (number : Nat) : Word :=
  ea + BitVec.ofNat 32 (4 * number)

/-- The register with this number in a multiple-word transfer. -/
def wordRegister (rt : Register) (number : Nat) : Register :=
  rt + BitVec.ofNat 5 number

/-- One turn of the loop of `lmw`. -/
def loadWord (rt : Register) (ea : Word) (number : Nat) (machine : Machine) :
    Option Machine :=
  (machine.memory.read32 (wordAddress ea number)).map fun value =>
    { machine with
      cpu := machine.cpu.setGpr (wordRegister rt number) value }

/-- One turn of the loop of `stmw`. -/
def storeWord (rt : Register) (ea : Word) (number : Nat)
    (machine : Machine) : Option Machine :=
  match machine.memory.write32 (wordAddress ea number)
      (machine.cpu.gpr (wordRegister rt number)) with
  | (false, _) => none
  | (true, memory) => some { machine with memory }

/-- How a multiple-word instruction ends. -/
def transferTurn (message : String) (currentPc : Word) :
    Bool × Machine → Turn Machine Fault
  | (true, machine) => .next machine
  | (false, machine) => fault .memoryFault currentPc message machine

@[simp] theorem wordAddress_zero (ea : Word) : wordAddress ea 0 = ea := by
  simp [wordAddress]

@[simp] theorem wordRegister_zero (rt : Register) : wordRegister rt 0 = rt := by
  simp [wordRegister]

theorem wordAddress_succ (ea : Word) (number : Nat) :
    wordAddress ea number + 4 = wordAddress ea (number + 1) := by
  rw [wordAddress, wordAddress, Nat.mul_succ, BitVec.ofNat_add,
    BitVec.add_assoc]
  rfl

theorem wordRegister_succ (rt : Register) (number : Nat) :
    wordRegister rt number + 1 = wordRegister rt (number + 1) := by
  rw [wordRegister, wordRegister, BitVec.ofNat_add, BitVec.add_assoc]
  rfl

theorem wordRegister_ne (rt : Register) {first second : Nat}
    (firstBound : first < 32) (secondBound : second < 32)
    (different : first ≠ second) :
    wordRegister rt first ≠ wordRegister rt second := by
  intro same
  have values := congrArg BitVec.toNat same
  simp only [wordRegister, BitVec.toNat_add, BitVec.toNat_ofNat] at values
  omega

theorem wordAddress_apart (ea : Word) {first second : Nat}
    (firstBound : first < 32) (secondBound : second < 32)
    (different : first ≠ second) :
    (wordAddress ea first).toNat + 4 ≤ (wordAddress ea second).toNat ∨
      (wordAddress ea second).toNat + 4 ≤ (wordAddress ea first).toNat := by
  have := ea.isLt
  simp only [wordAddress, BitVec.toNat_add, BitVec.toNat_ofNat]
  omega

theorem lmwFrom_eq_transfer (currentPc : Word) (rt : Register) (ea : Word)
    (count start : Nat) (machine : Machine) :
    lmwFrom currentPc count (wordRegister rt start) (wordAddress ea start)
        machine =
      transferTurn "lmw failed" currentPc
        (transfer (loadWord rt ea) count start machine) := by
  induction count generalizing start machine with
  | zero => rfl
  | succ count induction =>
      rw [lmwFrom]
      cases loaded : machine.memory.read32 (wordAddress ea start) with
      | none =>
          rw [transfer.succ_of_none count (by simp [loadWord, loaded])]
          rfl
      | some value =>
          have performed : loadWord rt ea start machine = some
              { machine with
                cpu := machine.cpu.setGpr (wordRegister rt start) value } := by
            simp [loadWord, loaded]
          rw [transfer.succ_of_some count performed, ← induction,
            ← wordRegister_succ, ← wordAddress_succ]

theorem stmwFrom_eq_transfer (currentPc : Word) (rt : Register) (ea : Word)
    (count start : Nat) (machine : Machine) :
    stmwFrom currentPc count (wordRegister rt start) (wordAddress ea start)
        machine =
      transferTurn "stmw failed" currentPc
        (transfer (storeWord rt ea) count start machine) := by
  induction count generalizing start machine with
  | zero => rfl
  | succ count induction =>
      rw [stmwFrom]
      have unchanged := (Memory.Checked.write32 (wordAddress ea start)
        (machine.cpu.gpr (wordRegister rt start))).unchanged machine.memory
      cases written : machine.memory.write32 (wordAddress ea start)
          (machine.cpu.gpr (wordRegister rt start)) with
      | mk succeeded memory =>
          rw [written] at unchanged
          cases succeeded with
          | false =>
              obtain rfl : memory = machine.memory := unchanged rfl
              rw [transfer.succ_of_none count (by simp [storeWord, written])]
              rfl
          | true =>
              have performed : storeWord rt ea start machine =
                  some { machine with memory } := by
                simp [storeWord, written]
              rw [transfer.succ_of_some count performed, ← induction,
                ← wordRegister_succ, ← wordAddress_succ]

theorem lmw_eq_transfer (rt ra : Register) (simm currentPc : Word)
    (machine : Machine) :
    lmw rt ra simm currentPc machine =
      transferTurn "lmw failed" currentPc
        (transfer (loadWord rt (effectiveAddressD machine.cpu ra simm))
          (32 - rt.toNat) 0 machine) := by
  have loop := lmwFrom_eq_transfer currentPc rt
    (effectiveAddressD machine.cpu ra simm) (32 - rt.toNat) 0 machine
  rw [wordRegister_zero, wordAddress_zero] at loop
  exact loop

theorem stmw_eq_transfer (rt ra : Register) (simm currentPc : Word)
    (machine : Machine) :
    stmw rt ra simm currentPc machine =
      transferTurn "stmw failed" currentPc
        (transfer (storeWord rt (effectiveAddressD machine.cpu ra simm))
          (32 - rt.toNat) 0 machine) := by
  have loop := stmwFrom_eq_transfer currentPc rt
    (effectiveAddressD machine.cpu ra simm) (32 - rt.toNat) 0 machine
  rw [wordRegister_zero, wordAddress_zero] at loop
  exact loop

theorem loadWord_eq_some {rt : Register} {ea : Word} {number : Nat}
    {machine following : Machine}
    (loaded : loadWord rt ea number machine = some following) :
    ∃ value,
      machine.memory.read32 (wordAddress ea number) = some value ∧
        following = { machine with
          cpu := machine.cpu.setGpr (wordRegister rt number) value } := by
  obtain ⟨value, read, rfl⟩ := Option.map_eq_some_iff.mp loaded
  exact ⟨value, read, rfl⟩

private theorem setGpr_eq_self_iff (cpu : CpuState) (register : Register)
    (value : Word) :
    cpu.setGpr register value = cpu ↔ cpu.gpr register = value := by
  constructor
  · intro same
    have values := congrArg (fun state => state.gpr register) same
    simpa using values.symm
  · rintro rfl
    simp [CpuState.setGpr]

/-- Loading a word changes nothing when the register already held it. -/
theorem loadWord_eq_self_iff (rt : Register) (ea : Word) (number : Nat)
    (machine : Machine) :
    loadWord rt ea number machine = some machine ↔
      machine.memory.read32 (wordAddress ea number) =
        some (machine.cpu.gpr (wordRegister rt number)) := by
  unfold loadWord
  cases machine.memory.read32 (wordAddress ea number) with
  | none => simp
  | some value =>
      obtain ⟨memory, cpu, stderr⟩ := machine
      simp [setGpr_eq_self_iff, eq_comm (a := value)]

theorem loadWord_nonInterfering (rt : Register) (ea : Word) :
    NonInterfering (loadWord rt ea) 32 where
  available := by
    intro first second state following loaded
    obtain ⟨value, _, rfl⟩ := loadWord_eq_some loaded
    simp [loadWord]
  settled := by
    intro number state following loaded
    obtain ⟨value, read, rfl⟩ := loadWord_eq_some loaded
    rw [loadWord_eq_self_iff]
    simpa using read
  apart := by
    intro first second state following firstBound secondBound different loaded
    obtain ⟨value, _, rfl⟩ := loadWord_eq_some loaded
    rw [loadWord_eq_self_iff, loadWord_eq_self_iff]
    have distinct := wordRegister_ne rt firstBound secondBound different
    simp [Function.update_of_ne distinct]

theorem storeWord_eq_some {rt : Register} {ea : Word} {number : Nat}
    {machine following : Machine}
    (stored : storeWord rt ea number machine = some following) :
    ∃ memory,
      machine.memory.write32 (wordAddress ea number)
          (machine.cpu.gpr (wordRegister rt number)) = (true, memory) ∧
        following = { machine with memory } := by
  unfold storeWord at stored
  split at stored
  · contradiction
  · rename_i memory written
    exact ⟨memory, written, (Option.some.inj stored).symm⟩

theorem storeWord_isSome (rt : Register) (ea : Word) (number : Nat)
    (machine : Machine) :
    (storeWord rt ea number machine).isSome =
      machine.memory.writable (wordAddress ea number) 4 := by
  have succeeded := machine.memory.writeBytes_fst (wordAddress ea number)
    (Bytes.encode 4 (machine.cpu.gpr (wordRegister rt number)))
  rw [Bytes.length_encode] at succeeded
  rw [← succeeded]
  unfold storeWord Memory.write32
  split <;> rename_i written <;> simp [written]

/-- Storing a word changes nothing when memory already held it. -/
theorem storeWord_eq_self_iff (rt : Register) (ea : Word) (number : Nat)
    (machine : Machine) :
    storeWord rt ea number machine = some machine ↔
      machine.memory.writable (wordAddress ea number) 4 = true ∧
        machine.memory.rangeAt (wordAddress ea number) 4 =
          some (Bytes.encode 4
            (machine.cpu.gpr (wordRegister rt number))) := by
  have short : (Bytes.encode 4
      (machine.cpu.gpr (wordRegister rt number))).length < 2 ^ 63 := by simp
  have rewritten := Memory.writeBytes_eq_self_iff machine.memory
    (wordAddress ea number) short
  rw [Bytes.length_encode] at rewritten
  rw [← rewritten]
  constructor
  · intro stored
    obtain ⟨memory, written, same⟩ := storeWord_eq_some stored
    obtain rfl : memory = machine.memory :=
      (congrArg Machine.memory same).symm
    exact written
  · intro written
    simp [storeWord, Memory.write32, written]

private theorem write32_sameShape {memory following : Memory}
    {address value : Word}
    (written : memory.write32 address value = (true, following)) :
    memory.SameShape following := by
  have permitted := (Memory.Checked.write32 address value).permitted memory
  rw [written] at permitted
  exact permitted.sameShape

theorem storeWord_nonInterfering (rt : Register) (ea : Word) :
    NonInterfering (storeWord rt ea) 32 where
  available := by
    intro first second state following stored
    obtain ⟨memory, written, rfl⟩ := storeWord_eq_some stored
    rw [storeWord_isSome, storeWord_isSome]
    exact (write32_sameShape written).writable _ _
  settled := by
    intro number state following stored
    have available := storeWord_isSome rt ea number state
    rw [stored] at available
    obtain ⟨memory, written, rfl⟩ := storeWord_eq_some stored
    rw [storeWord_eq_self_iff]
    refine ⟨?_, ?_⟩
    · rw [(write32_sameShape written).writable]
      exact available.symm
    · have succeeded : (state.memory.writeBytes (wordAddress ea number)
          (Bytes.encode 4
            (state.cpu.gpr (wordRegister rt number)))).1 = true := by
        rw [← Memory.write32, written]
      have range := Memory.rangeAt_writeBytes_self (by simp) succeeded
      rw [← Memory.write32, written, Bytes.length_encode] at range
      exact range
  apart := by
    intro first second state following firstBound secondBound different stored
    obtain ⟨memory, written, rfl⟩ := storeWord_eq_some stored
    rw [storeWord_eq_self_iff, storeWord_eq_self_iff]
    have apart := wordAddress_apart ea firstBound secondBound different
    have short : (Bytes.encode 4
        (state.cpu.gpr (wordRegister rt second))).length < 2 ^ 63 := by simp
    have outside : (wordAddress ea first).toNat + 4 ≤
          (wordAddress ea second).toNat ∨
        (wordAddress ea second).toNat + (Bytes.encode 4
          (state.cpu.gpr (wordRegister rt second))).length ≤
            (wordAddress ea first).toNat := by
      simpa using apart
    have range := Memory.rangeAt_writeBytes_apart state.memory short
      (by omega) outside
    rw [← Memory.write32, written] at range
    rw [(write32_sameShape written).writable, range]

theorem execute_of_lmw (host : Host) (config : ExecutionConfig)
    (currentPc : Word) {insn : Word} (machine : Machine)
    (isLmw : opcode insn = 46) :
    execute host config currentPc insn machine =
      transferTurn "lmw failed" currentPc
        (transfer (loadWord (rt insn)
            (effectiveAddressD machine.cpu (ra insn) (simm insn)))
          (32 - (rt insn).toNat) 0 machine) := by
  rw [← lmw_eq_transfer]
  simp only [execute, isLmw]

theorem execute_of_stmw (host : Host) (config : ExecutionConfig)
    (currentPc : Word) {insn : Word} (machine : Machine)
    (isStmw : opcode insn = 47) :
    execute host config currentPc insn machine =
      transferTurn "stmw failed" currentPc
        (transfer (storeWord (rt insn)
            (effectiveAddressD machine.cpu (ra insn) (simm insn)))
          (32 - (rt insn).toNat) 0 machine) := by
  rw [← stmw_eq_transfer]
  simp only [execute, isStmw]

theorem transferTurn_state (message : String) (currentPc : Word)
    (finish : Bool × Machine) :
    (transferTurn message currentPc finish).state = finish.2 := by
  obtain ⟨succeeded, machine⟩ := finish
  cases succeeded <;> rfl

theorem transferTurn_stop {message : String} {currentPc : Word}
    {finish : Bool × Machine} {final : Machine} {stop : Fault}
    (stopped : transferTurn message currentPc finish = .stop final stop) :
    finish = (false, final) ∧
      stop = ⟨0, currentPc, .memoryFault, message⟩ := by
  obtain ⟨succeeded, machine⟩ := finish
  cases succeeded with
  | true => simp [transferTurn] at stopped
  | false =>
      simp only [transferTurn, fault, Turn.stop.injEq] at stopped
      exact ⟨by rw [stopped.1], stopped.2.symm⟩

/-- What `stmw` has saved, `lmw` restores, whatever became of the registers in
between. -/
theorem lmw_restores_stmw (host : Host) (config : ExecutionConfig)
    (savePc restorePc : Word) {save restore : Word} {machine saved : Machine}
    {cpu : CpuState} (isStmw : opcode save = 47) (isLmw : opcode restore = 46)
    (sameRt : rt restore = rt save)
    (sameAddress : effectiveAddressD cpu (ra restore) (simm restore) =
      effectiveAddressD machine.cpu (ra save) (simm save))
    (readable : ∀ region ∈ saved.memory.regions,
      hasPerm region.perms .write = true → hasPerm region.perms .read = true)
    (stored : execute host config savePc save machine = .next saved) :
    ∃ restored, execute host config restorePc restore { saved with cpu } =
        .next restored ∧
      restored.memory = saved.memory ∧
      ∀ register, rt save ≤ register →
        restored.cpu.gpr register = machine.cpu.gpr register := by
  rw [execute_of_stmw host config savePc machine isStmw] at stored
  rw [execute_of_lmw host config restorePc _ isLmw, sameRt]
  dsimp only
  rw [sameAddress]
  generalize effectiveAddressD machine.cpu (ra save) (simm save) = ea at *
  generalize rt save = first at *
  have completed : transfer (storeWord first ea) (32 - first.toNat) 0 machine =
      (true, saved) := by
    generalize transfer _ _ _ _ = finish at stored
    obtain ⟨done, after⟩ := finish
    cases done <;> cases stored
    rfl
  have sameCpu : (transfer (storeWord first ea) (32 - first.toNat) 0
      machine).2.cpu = machine.cpu := by
    refine transfer.relates (fun before after : Machine =>
      after.cpu = before.cpu) (fun _ => rfl) (fun one two => two.trans one) ?_ _ _ _
    intro number before after stored
    obtain ⟨memory, _, rfl⟩ := storeWord_eq_some stored
    rfl
  have settled := transfer.settled_of_completed
    (storeWord_nonInterfering first ea) _ 0 machine (by omega)
    (congrArg Prod.fst completed)
  rw [completed] at settled sameCpu
  have held (number : Nat) (bound : number < 32 - first.toNat) :
      saved.memory.read32 (wordAddress ea number) =
        some (machine.cpu.gpr (wordRegister first number)) := by
    obtain ⟨writable, range⟩ := (storeWord_eq_self_iff first ea number
      saved).mp (settled number (Nat.zero_le _) (by omega))
    obtain ⟨region, found, permitted⟩ := (Option.any_eq_true _ _).mp writable
    have isReadable := readable region (Memory.mem_of_find found) permitted
    rw [Memory.rangeAt, found] at range
    rw [Memory.read32, Memory.readBytes, found, ← sameCpu]
    simp [isReadable, Option.some.inj range, Bytes.decode_encode 4]
  have loads := loadWord_nonInterfering first ea
  have done : (transfer (loadWord first ea) (32 - first.toNat) 0
      { saved with cpu }).1 = true := by
    rw [← Bool.not_eq_false, transfer.failed_iff loads]
    rintro ⟨reached, bound, _, failed⟩
    simp [loadWord, held reached bound] at failed
  have restored := transfer.settled_of_completed loads _ 0 _ (by omega) done
  have sameMemory : (transfer (loadWord first ea) (32 - first.toNat) 0
      { saved with cpu }).2.memory = saved.memory := by
    refine transfer.relates (fun before after : Machine =>
      after.memory = before.memory) (fun _ => rfl) (fun one two => two.trans one) ?_ _ _ _
    intro number before after loaded
    obtain ⟨value, _, rfl⟩ := loadWord_eq_some loaded
    rfl
  generalize transfer (loadWord first ea) _ _ _ = finish at done restored sameMemory ⊢
  obtain ⟨_, final⟩ := finish
  cases done
  refine ⟨final, rfl, sameMemory, ?_⟩
  intro register above
  have bound : first.toNat ≤ register.toNat := above
  have here : wordRegister first (register.toNat - first.toNat) = register := by
    apply BitVec.eq_of_toNat_eq
    simp only [wordRegister, BitVec.toNat_add, BitVec.toNat_ofNat]
    omega
  have loaded := (loadWord_eq_self_iff first ea _ final).mp
    (restored (register.toNat - first.toNat) (Nat.zero_le _) (by omega))
  rw [sameMemory, held _ (by omega), here] at loaded
  exact (Option.some.inj loaded).symm

/-- `stmw r29,0(r30)` and `lmw r29,0(r30)`, which load the base as well. -/
theorem lmw_restores_stmw_r29 :
    let before : Machine :=
      { memory := ⟨[⟨0x2000, List.replicate 12 0, ⟨3⟩, "stack"⟩]⟩
        cpu := ((CpuState.zero.setGpr 29 5).setGpr 30 0x2000).setGpr 31 7
        stderr := [] }
    let saved := { before with
      memory := ⟨[⟨0x2000, [0, 0, 0, 5, 0, 0, 0x20, 0, 0, 0, 0, 7], ⟨3⟩,
        "stack"⟩]⟩ }
    ∃ restored, execute .quiet {} 0 0xbbbe0000
        { saved with cpu := CpuState.zero.setGpr 30 0x2000 } =
          .next restored ∧ restored.memory = saved.memory ∧
      ∀ register, rt 0xbfbe0000 ≤ register →
        restored.cpu.gpr register = before.cpu.gpr register :=
  lmw_restores_stmw .quiet {} 0 0 (by decide) (by decide) (by decide)
    (by decide) (by decide) rfl

end PpcLab.BuiltinInterpreter
