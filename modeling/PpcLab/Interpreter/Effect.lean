import PpcLab.Interpreter.Execute
import PpcLab.MemoryInvariant

/-!
# What one instruction can do

Every instruction either continues, or stops the run and leaves the machine as
it found it, or stops it inside an import stub.  Memory changes only where a
permission allows it.  The multiple-word forms are the exception: they may stop
after part of their transfer.  A word is reported as unsupported exactly when
the executor has no case for it, or names a special register it does not have.
-/

namespace PpcLab

/-- A write that respects permissions and changes nothing when it fails. -/
structure Memory.Checked (write : Memory → Bool × Memory) : Prop where
  permitted : ∀ memory : Memory, memory.WriteProtected (write memory).2
  unchanged : ∀ memory : Memory, (write memory).1 = false → (write memory).2 = memory

namespace Memory.Checked

theorem writeBytes (address : Word) (bytes : List Byte) :
    Checked fun memory => memory.writeBytes address bytes :=
  ⟨fun memory => memory.writeBytes_writeProtected address bytes,
    fun _ => writeBytes_of_false⟩

theorem write8 (address : Word) (value : Byte) :
    Checked fun memory => memory.write8 address value := by
  simpa only [write8_eq_writeBytes] using writeBytes address [value]

theorem write16 (address : Word) (value : Half) :
    Checked fun memory => memory.write16 address value :=
  writeBytes address (Bytes.encode 2 value)

theorem write32 (address : Word) (value : Word) :
    Checked fun memory => memory.write32 address value :=
  writeBytes address (Bytes.encode 4 value)

theorem write64 (address : Word) (value : DoubleWord) :
    Checked fun memory => memory.write64 address value :=
  writeBytes address (Bytes.encode 8 value)

theorem ite {write : Memory → Bool × Memory} (condition : Bool)
    (checked : Checked write) :
    Checked fun memory => if condition then write memory
      else (true, memory) := by
  cases condition with
  | true => exact checked
  | false => exact ⟨fun memory => .refl memory, by simp⟩

end Memory.Checked

namespace BuiltinInterpreter

/-- The reasons an instruction can give for stopping a run. -/
def StopsInstruction (reason : StopReason) : Prop :=
  reason = .unsupportedInstruction ∨ reason = .memoryFault ∨
    reason = .trap ∨ reason = .systemCall

/-- The reasons of an instruction the executor has a case for. -/
def StopsKnown (reason : StopReason) : Prop :=
  reason = .memoryFault ∨ reason = .trap ∨ reason = .systemCall

theorem StopsKnown.stopsInstruction {reason : StopReason}
    (known : StopsKnown reason) : StopsInstruction reason :=
  .inr known

/-- The outcomes of an instruction that is not a multiple-word transfer, by
the reasons it may give. -/
inductive Effect (reasons : StopReason → Prop) (before : Machine) :
    Turn Machine Fault → Prop where
  | next (after : Machine)
      (permitted : before.memory.WriteProtected after.memory) :
      Effect reasons before (.next after)
  | fault (reason : StopReason) (pc : Word) (message : String)
      (known : reasons reason) :
      Effect reasons before (.stop before ⟨0, pc, reason, message⟩)
  | importFault (after : Machine) (reason : StopReason) (pc : Word)
      (message : String)
      (permitted : before.memory.WriteProtected after.memory)
      (known : reason = .importTrap ∨ reason = .memoryFault) :
      Effect reasons before (.stop after ⟨1, pc, reason, message⟩)

/-- XER, LR and CTR. -/
def specialRegisters : List Nat :=
  [1, 8, 9]

namespace Effect

variable {machine : Machine} {reasons : StopReason → Prop}

theorem mono {wider : StopReason → Prop} {turn : Turn Machine Fault}
    (effect : Effect reasons machine turn)
    (included : ∀ {reason}, reasons reason → wider reason) :
    Effect wider machine turn := by
  cases effect with
  | next after permitted => exact .next after permitted
  | fault reason pc message known =>
      exact .fault reason pc message (included known)
  | importFault after reason pc message permitted known =>
      exact .importFault after reason pc message permitted known

theorem unchanged : Effect reasons machine (.next machine) :=
  .next machine (.refl machine.memory)

theorem onCpu (instruction : CpuState → CpuState) :
    Effect reasons machine (onCpu instruction machine) :=
  .next _ (.refl machine.memory)

theorem unsupported (currentPc : Word) (message : String) :
    Effect StopsInstruction machine (unsupported currentPc message machine) :=
  .fault _ _ _ (.inl rfl)

theorem load {α : Type} (read : Option α)
    (assign : α → CpuState → CpuState) (message : String) (currentPc : Word) :
    Effect StopsKnown machine (load read assign message currentPc machine) := by
  cases read with
  | none => exact .fault _ _ _ (.inl rfl)
  | some value => exact .onCpu (assign value)

theorem store {write : Memory → Bool × Memory}
    (checked : Memory.Checked write) (finish : CpuState → CpuState)
    (message : String) (currentPc : Word) :
    Effect StopsKnown machine (store write finish message currentPc machine) := by
  have permitted := checked.permitted machine.memory
  have unchanged := checked.unchanged machine.memory
  unfold BuiltinInterpreter.store
  cases written : write machine.memory with
  | mk succeeded memory =>
      rw [written] at permitted unchanged
      cases succeeded with
      | true => exact .next _ permitted
      | false =>
          obtain rfl : memory = machine.memory := unchanged rfl
          exact .fault _ _ _ (.inl rfl)

theorem loadGpr {width : Nat}
    (read : Memory → Word → Option (BitVec width))
    (extend : BitVec width → Word) (message : String) (ea : Word)
    (rt ra : Register) (update : Bool) (currentPc : Word) :
    Effect StopsKnown machine
      (loadGpr message ea rt ra update currentPc read extend machine) :=
  .load _ _ message currentPc

theorem loadFpr {width : Nat}
    (read : Memory → Word → Option (BitVec width))
    (extend : BitVec width → DoubleWord) (message : String) (ea : Word)
    (rt ra : Register) (update : Bool) (currentPc : Word) :
    Effect StopsKnown machine
      (loadFpr message ea rt ra update currentPc read extend machine) :=
  .load _ _ message currentPc

theorem storeValue {width : Nat}
    {write : Memory → Word → BitVec width → Bool × Memory}
    (checked : ∀ address value,
      Memory.Checked fun memory => write memory address value)
    (message : String) (ea : Word) (ra : Register) (update : Bool)
    (currentPc : Word) (value : BitVec width) :
    Effect StopsKnown machine
      (storeValue message ea ra update currentPc write value machine) :=
  .store (checked ea value) _ message currentPc

theorem lwarx (rt ra rb : Register) (currentPc : Word) :
    Effect StopsKnown machine (lwarx rt ra rb currentPc machine) := by
  simp only [BuiltinInterpreter.lwarx]
  split
  · exact .fault _ _ _ (.inl rfl)
  · exact .load _ _ _ _

theorem stwcx (rt ra rb : Register) (currentPc : Word) :
    Effect StopsKnown machine (stwcx rt ra rb currentPc machine) := by
  simp only [BuiltinInterpreter.stwcx]
  split
  · exact .fault _ _ _ (.inl rfl)
  · exact .store (.ite _ (.write32 _ _)) _ _ _

theorem trapForm (mnemonic : String) (config : ExecutionConfig)
    (trapTo : Register) (a b currentPc : Word) :
    Effect StopsKnown machine
      (trapForm mnemonic config trapTo a b currentPc machine) := by
  unfold BuiltinInterpreter.trapForm
  split
  · exact .fault _ _ _ (.inr (.inl rfl))
  · exact .unchanged

theorem sc (config : ExecutionConfig) (currentPc : Word) :
    Effect StopsKnown machine (sc config currentPc machine) := by
  simp only [BuiltinInterpreter.sc]
  split
  · exact .onCpu _
  · split
    · exact .onCpu _
    · exact .fault _ _ _ (.inr (.inr rfl))

theorem mfspr (rt : Register) {spr : Nat} (currentPc : Word)
    (present : spr ∈ specialRegisters) :
    Effect StopsKnown machine (mfspr rt spr currentPc machine) := by
  simp only [specialRegisters, List.mem_cons, List.not_mem_nil, or_false]
    at present
  rcases present with rfl | rfl | rfl
  · exact .onCpu fun cpu => cpu.setGpr rt cpu.xer
  · exact .onCpu fun cpu => cpu.setGpr rt cpu.lr
  · exact .onCpu fun cpu => cpu.setGpr rt cpu.ctr

theorem mtspr (rt : Register) {spr : Nat} (currentPc : Word)
    (present : spr ∈ specialRegisters) :
    Effect StopsKnown machine (mtspr rt spr currentPc machine) := by
  simp only [specialRegisters, List.mem_cons, List.not_mem_nil, or_false]
    at present
  rcases present with rfl | rfl | rfl
  · exact .onCpu fun cpu => { cpu with xer := cpu.gpr rt }
  · exact .onCpu fun cpu => { cpu with lr := cpu.gpr rt }
  · exact .onCpu fun cpu => { cpu with ctr := cpu.gpr rt }

end Effect

open ImportStubs

theorem writeRange_writeProtected (memory : Memory)
    (destination count : Word) (bytes : List Byte) :
    memory.WriteProtected (writeRange memory destination count bytes).2 := by
  unfold writeRange
  split
  · exact .refl memory
  · exact memory.writeBytes_writeProtected destination bytes

theorem move_writeProtected (message : String)
    (destination source count : Word) (machine : Machine) :
    machine.memory.WriteProtected
      (move message destination source count machine).2.memory := by
  unfold move
  split
  · exact .refl machine.memory
  · rename_i bytes found
    have permitted :=
      writeRange_writeProtected machine.memory destination count bytes
    split <;> rename_i memory written <;> rw [written] at permitted <;>
      exact permitted

theorem fill_writeProtected (name : String) (destination : Word)
    (value : Byte) (count : Word) (machine : Machine) :
    machine.memory.WriteProtected
      (fill name destination value count machine).2.memory := by
  unfold fill
  split
  · exact .refl machine.memory
  · have permitted :=
      writeRange_writeProtected machine.memory destination count
        (List.replicate count.toNat value)
    split <;> rename_i memory written <;> rw [written] at permitted <;>
      exact permitted

theorem returnDestination_memory (destination : Word)
    (outcome : ImportStubResult × Machine) :
    (returnDestination destination outcome).2.memory = outcome.2.memory := by
  unfold returnDestination
  split <;> rfl

theorem executeImportStub_writeProtected (host : Host)
    (binding : ImportStubBinding) (machine : Machine) :
    machine.memory.WriteProtected
      (executeImportStub host binding machine).2.memory := by
  cases kind : binding.kind with
  | pow | cos | sqrt | sin | exp | fabs | floor | ceil =>
      simp only [executeImportStub, kind, returnDouble]
      exact .refl machine.memory
  | blockMoveData =>
      simp only [executeImportStub, kind]
      exact move_writeProtected _ _ _ _ machine
  | memcpy | memmove =>
      simp only [executeImportStub, kind, returnDestination_memory]
      exact move_writeProtected _ _ _ _ machine
  | memset =>
      simp only [executeImportStub, kind, returnDestination_memory]
      exact fill_writeProtected _ _ _ _ machine
  | bzero =>
      simp only [executeImportStub, kind]
      exact fill_writeProtected _ _ _ _ machine

theorem importGlue_effect (host : Host) (config : ExecutionConfig)
    (before machine : Machine) (same : machine.memory = before.memory) :
    Effect StopsKnown before (importGlue host config machine) := by
  have unchanged : before.memory.WriteProtected machine.memory := by
    rw [same]
    exact .refl before.memory
  unfold importGlue
  cases findImportStub config.importStubs (machine.cpu.gpr 12) with
  | none => exact .importFault _ _ _ _ unchanged (.inl rfl)
  | some binding =>
      have permitted := unchanged.trans
        (executeImportStub_writeProtected host binding machine)
      simp only
      split
      · split
        · exact .next _ permitted
        · exact .importFault _ _ _ _ permitted (.inr rfl)
      · exact .importFault _ _ _ _ permitted (.inl rfl)

theorem bcctr_effect (host : Host) (config : ExecutionConfig)
    (bo bi : Register) (lk : Bool) (machine : Machine) :
    Effect StopsKnown machine (bcctr host config bo bi lk machine) := by
  simp only [bcctr]
  split
  · split
    · exact importGlue_effect host config machine _ rfl
    · exact .next _ (.refl machine.memory)
  · exact .next _ (.refl machine.memory)

open Instruction Text

def executed19 : List Nat :=
  [16, 528, 0, 33, 129, 193, 225, 257, 289, 417, 449, 150]

def executed31 : List Nat :=
  [0, 4, 11, 20, 8, 520, 40, 552, 10, 522, 266, 778, 19, 23, 55, 60, 75, 54,
    86, 246, 278, 24, 26, 28, 32, 87, 119, 124, 150, 183, 104, 616, 136, 648,
    138, 650, 144, 151, 232, 744, 234, 746, 200, 712, 202, 714, 215, 247, 235,
    747, 279, 284, 331, 343, 375, 316, 339, 407, 412, 439, 444, 476, 459, 971,
    491, 1003, 534, 535, 567, 599, 631, 662, 663, 695, 727, 759, 512, 467,
    536, 598, 790, 792, 824, 854, 918, 922, 954, 982, 983, 1014]

def executed59 : List Nat :=
  [18, 20, 21, 22, 24, 25, 28, 29, 30, 31]

/-- The forms of group 63 selected by the low five bits. -/
def executed63 : List Nat :=
  [22, 23, 25, 26, 28, 29, 30, 31]

/-- The forms of group 63 selected by all ten bits. -/
def executed63x : List Nat :=
  [0, 32, 12, 14, 15, 18, 20, 21, 40, 72, 136, 264, 583]

/-- The primary opcodes that are not groups. -/
def executedPrimary : List Nat :=
  [3, 7, 8, 10, 11, 12, 13, 14, 15, 16, 17, 18, 20, 21, 23, 24, 25, 26, 27,
    28, 29, 32, 33, 34, 35, 36, 37, 38, 39, 40, 41, 42, 43, 44, 45, 46, 47,
    48, 49, 50, 51, 52, 53, 54, 55]

/-- The executor has a case for the word. -/
def Executed (insn : Word) : Prop :=
  match opcode insn with
  | 19 => xo insn ∈ executed19
  | 31 => xo insn ∈ executed31
  | 59 => xo5 insn ∈ executed59
  | 63 => xo5 insn ∈ executed63 ∨ xo insn ∈ executed63x
  | primary => primary ∈ executedPrimary

/-- `mfspr` or `mtspr` of a special register the executor does not have. -/
def MissingSpr (insn : Word) : Prop :=
  opcode insn = 31 ∧ (xo insn = 339 ∨ xo insn = 467) ∧
    sprNumber insn ∉ specialRegisters

theorem execute19_effect (host : Host) (config : ExecutionConfig)
    (currentPc : Word) {insn : Word} (machine : Machine)
    (listed : xo insn ∈ executed19) :
    Effect StopsKnown machine
      (execute19 host config currentPc insn machine) := by
  simp only [execute19]
  split
  all_goals first
    | exact .onCpu _
    | exact bcctr_effect _ _ _ _ _ _
    | exact .unchanged
    | (simp only [executed19, List.mem_cons, List.not_mem_nil] at listed
       grind only)

theorem execute19_unsupported (host : Host) (config : ExecutionConfig)
    (currentPc : Word) {insn : Word} (machine : Machine)
    (unlisted : xo insn ∉ executed19) :
    execute19 host config currentPc insn machine =
      unsupported currentPc
        ("unsupported opcode 19 XO=" ++ decimal (xo insn)) machine := by
  simp only [execute19]
  split
  all_goals first
    | rfl
    | (rename_i isForm
       rw [isForm] at unlisted
       exact absurd (by decide) unlisted)

theorem execute31_effect (host : Host) (config : ExecutionConfig)
    (currentPc : Word) {insn : Word} (machine : Machine)
    (listed : xo insn ∈ executed31)
    (present : (xo insn = 339 ∨ xo insn = 467) →
      sprNumber insn ∈ specialRegisters) :
    Effect StopsKnown machine
      (execute31 host config currentPc insn machine) := by
  simp only [execute31, lwzx, lwzux, lbzx, lbzux, lhzx, lhzux, lhax, lwbrx,
    lhbrx, lfsx, lfdx, stwx, stwux, stbx, stbux, sthx, sthux, stwbrx, sthbrx,
    stfsx, stfdx, stfiwx, dcbz, tw]
  split
  all_goals with_reducible first
    | exact .onCpu _
    | exact .loadGpr _ _ _ _ _ _ _ _
    | exact .loadFpr _ _ _ _ _ _ _ _
    | exact .storeValue .write32 _ _ _ _ _ _
    | exact .storeValue .write16 _ _ _ _ _ _
    | exact .storeValue .write8 _ _ _ _ _ _
    | exact .storeValue .write64 _ _ _ _ _ _
    | exact .store (.writeBytes _ _) _ _ _
    | exact .unchanged
    | exact .lwarx _ _ _ _
    | exact .stwcx _ _ _ _
    | exact .trapForm _ _ _ _ _ _
    | exact .mfspr _ _ (present (.inl ‹_›))
    | exact .mtspr _ _ (present (.inr ‹_›))
    | (simp only [executed31, List.mem_cons, List.not_mem_nil] at listed
       grind only)

theorem execute31_unsupported (host : Host) (config : ExecutionConfig)
    (currentPc : Word) {insn : Word} (machine : Machine)
    (unlisted : xo insn ∉ executed31) :
    execute31 host config currentPc insn machine =
      unsupported currentPc
        ("unsupported opcode 31 XO=" ++ decimal (xo insn)) machine := by
  unfold execute31
  simp only
  split
  all_goals first
    | rfl
    | (rename_i isForm
       rw [isForm] at unlisted
       exact absurd (by decide) unlisted)

theorem execute59_effect (host : Host) (currentPc : Word) {insn : Word}
    (machine : Machine) (listed : xo5 insn ∈ executed59) :
    Effect StopsKnown machine (execute59 host currentPc insn machine) := by
  simp only [execute59]
  split
  all_goals first
    | exact .onCpu _
    | (simp only [executed59, List.mem_cons, List.not_mem_nil] at listed
       grind only)

theorem execute59_unsupported (host : Host) (currentPc : Word) {insn : Word}
    (machine : Machine) (unlisted : xo5 insn ∉ executed59) :
    execute59 host currentPc insn machine =
      unsupported currentPc
        ("unsupported opcode 59 XO=" ++ decimal (xo5 insn)) machine := by
  simp only [execute59]
  split
  all_goals first
    | rfl
    | (rename_i isForm
       rw [isForm] at unlisted
       exact absurd (by decide) unlisted)

theorem execute63x_effect (host : Host) (currentPc : Word) {insn : Word}
    (machine : Machine) (listed : xo insn ∈ executed63x) :
    Effect StopsKnown machine (execute63x host currentPc insn machine) := by
  simp only [execute63x]
  split
  all_goals first
    | exact .onCpu _
    | (simp only [executed63x, List.mem_cons, List.not_mem_nil] at listed
       grind only)

theorem execute63x_unsupported (host : Host) (currentPc : Word) {insn : Word}
    (machine : Machine) (unlisted : xo insn ∉ executed63x) :
    execute63x host currentPc insn machine =
      unsupported currentPc
        ("unsupported opcode 63 XO=" ++ decimal (xo insn)) machine := by
  simp only [execute63x]
  split
  all_goals first
    | rfl
    | (rename_i isForm
       rw [isForm] at unlisted
       exact absurd (by decide) unlisted)

/-- The forms selected by five bits come before those selected by ten. -/
theorem execute63_of_not_mem (host : Host) (currentPc : Word) {insn : Word}
    (machine : Machine) (unlisted : xo5 insn ∉ executed63) :
    execute63 host currentPc insn machine =
      execute63x host currentPc insn machine := by
  simp only [execute63]
  split
  all_goals first
    | rfl
    | (rename_i isForm
       rw [isForm] at unlisted
       exact absurd (by decide) unlisted)

theorem execute63_effect (host : Host) (currentPc : Word) {insn : Word}
    (machine : Machine)
    (listed : xo5 insn ∈ executed63 ∨ xo insn ∈ executed63x) :
    Effect StopsKnown machine (execute63 host currentPc insn machine) := by
  by_cases low : xo5 insn ∈ executed63
  · simp only [execute63]
    split
    all_goals first
      | exact .onCpu _
      | (simp only [executed63, List.mem_cons, List.not_mem_nil] at low
         grind only)
  · rw [execute63_of_not_mem host currentPc machine low]
    exact execute63x_effect host currentPc machine (listed.resolve_left low)

/-- A multiple-word transfer, the only kind of instruction that may stop after
it changed something. -/
def isMultiple (insn : Word) : Prop :=
  opcode insn = 46 ∨ opcode insn = 47

theorem execute_effect_of_executed (host : Host) (config : ExecutionConfig)
    (currentPc : Word) {insn : Word} (machine : Machine)
    (single : ¬ isMultiple insn) (executed : Executed insn)
    (present : ¬ MissingSpr insn) :
    Effect StopsKnown machine
      (execute host config currentPc insn machine) := by
  obtain ⟨notLmw, notStmw⟩ := not_or.mp single
  simp only [execute, lwz, lbz, lhz, lha, lfs, lfd, stw, stb, sth, stfs, stfd,
    twi]
  unfold Executed at executed
  split
  case h_13 isGroup =>
    rw [isGroup] at executed
    exact execute19_effect host config currentPc machine executed
  case h_23 isGroup =>
    rw [isGroup] at executed
    refine execute31_effect host config currentPc machine executed ?_
    intro special
    by_contra missing
    exact present ⟨isGroup, special, missing⟩
  case h_48 isGroup =>
    rw [isGroup] at executed
    exact execute59_effect host currentPc machine executed
  case h_49 isGroup =>
    rw [isGroup] at executed
    exact execute63_effect host currentPc machine executed
  all_goals with_reducible first
    | exact .onCpu _
    | exact .loadGpr _ _ _ _ _ _ _ _
    | exact .loadFpr _ _ _ _ _ _ _ _
    | exact .storeValue .write32 _ _ _ _ _ _
    | exact .storeValue .write16 _ _ _ _ _ _
    | exact .storeValue .write8 _ _ _ _ _ _
    | exact .storeValue .write64 _ _ _ _ _ _
    | exact .trapForm _ _ _ _ _ _
    | exact .sc _ _
    | contradiction
    | (split at executed
       all_goals first
         | contradiction
         | (simp only [executedPrimary, List.mem_cons, List.not_mem_nil]
              at executed
            grind only))

theorem execute_unsupported (host : Host) (config : ExecutionConfig)
    (currentPc : Word) {insn : Word} (machine : Machine)
    (missing : ¬ Executed insn) :
    ∃ message, execute host config currentPc insn machine =
      unsupported currentPc message machine := by
  unfold Executed at missing
  split at missing
  · rename_i isGroup
    rw [execute_of_group19 host config currentPc machine isGroup]
    exact ⟨_, execute19_unsupported host config currentPc machine missing⟩
  · rename_i isGroup
    rw [execute_of_group31 host config currentPc machine isGroup]
    exact ⟨_, execute31_unsupported host config currentPc machine missing⟩
  · rename_i isGroup
    rw [execute_of_group59 host config currentPc machine isGroup]
    exact ⟨_, execute59_unsupported host currentPc machine missing⟩
  · rename_i isGroup
    obtain ⟨notLow, notListed⟩ := not_or.mp missing
    rw [execute_of_group63 host config currentPc machine isGroup,
      execute63_of_not_mem host currentPc machine notLow]
    exact ⟨_, execute63x_unsupported host currentPc machine notListed⟩
  · unfold execute
    simp only
    split
    all_goals first
      | contradiction
      | (rename_i isForm
         rw [isForm] at missing
         exact absurd (by decide) missing)
      | exact ⟨_, rfl⟩

theorem execute_missingSpr (host : Host) (config : ExecutionConfig)
    (currentPc : Word) {insn : Word} (machine : Machine)
    (missing : MissingSpr insn) :
    ∃ message, execute host config currentPc insn machine =
      unsupported currentPc message machine := by
  obtain ⟨isGroup, form, absent⟩ := missing
  simp only [specialRegisters, List.mem_cons, List.not_mem_nil, or_false,
    not_or] at absent
  obtain ⟨notXer, notLr, notCtr⟩ := absent
  rw [execute_of_group31 host config currentPc machine isGroup]
  rcases form with isForm | isForm
  · have asMfspr : execute31 host config currentPc insn machine =
        mfspr (rt insn) (sprNumber insn) currentPc machine := by
      unfold execute31
      rw [isForm]
      rfl
    rw [asMfspr, mfspr]
    · exact ⟨_, rfl⟩
    · exact notXer
    · exact notLr
    · exact notCtr
  · have asMtspr : execute31 host config currentPc insn machine =
        mtspr (rt insn) (sprNumber insn) currentPc machine := by
      unfold execute31
      rw [isForm]
      rfl
    rw [asMtspr, mtspr]
    · exact ⟨_, rfl⟩
    · exact notXer
    · exact notLr
    · exact notCtr

theorem execute_effect (host : Host) (config : ExecutionConfig)
    (currentPc insn : Word) (machine : Machine)
    (single : ¬ isMultiple insn) :
    Effect StopsInstruction machine
      (execute host config currentPc insn machine) := by
  by_cases executed : Executed insn
  · by_cases missing : MissingSpr insn
    · obtain ⟨message, stopped⟩ :=
        execute_missingSpr host config currentPc machine missing
      rw [stopped]
      exact .unsupported currentPc message
    · have effect := execute_effect_of_executed host config currentPc machine
        single executed missing
      exact effect.mono StopsKnown.stopsInstruction
  · obtain ⟨message, stopped⟩ :=
      execute_unsupported host config currentPc machine executed
    rw [stopped]
    exact .unsupported currentPc message

end BuiltinInterpreter

end PpcLab
