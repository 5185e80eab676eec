import PpcLab.Interpreter.FloatingPoint
import PpcLab.Library.BudgetedLoop

/-!
# Loads and stores

An instruction that touches memory either goes on or stops the run with a
fault.  A load or a store changes the machine only after its access succeeded;
the multiple-word forms transfer one register at a time.
-/

namespace PpcLab

/-- Why an instruction stopped the run.  `completed` is what it adds to the
number of instructions completed before it. -/
structure Fault where
  completed : Nat
  pc : Word
  reason : StopReason
  message : String
  deriving DecidableEq, Repr

namespace BuiltinInterpreter

/-- `return fault(count, currentPc, insn, reason, message)` -/
def fault (reason : StopReason) (currentPc : Word) (message : String)
    (machine : Machine) : Turn Machine Fault :=
  .stop machine ⟨0, currentPc, reason, message⟩

/-- An instruction that only changes the processor. -/
def onCpu (instruction : CpuState → CpuState) (machine : Machine) :
    Turn Machine Fault :=
  .next { machine with cpu := instruction machine.cpu }

/-- Update forms leave the effective address in the base register. -/
def updateBase (update : Bool) (ra : Register) (ea : Word) (cpu : CpuState) :
    CpuState :=
  if update then cpu.setGpr ra ea else cpu

/-- Assign what an access read, or fault when it failed. -/
def load {α : Type} (read : Option α) (assign : α → CpuState → CpuState)
    (message : String) (currentPc : Word) (machine : Machine) :
    Turn Machine Fault :=
  match read with
  | none => fault .memoryFault currentPc message machine
  | some value => onCpu (assign value) machine

/-- Keep what an access wrote, or fault when it failed. -/
def store (write : Memory → Bool × Memory) (finish : CpuState → CpuState)
    (message : String) (currentPc : Word) (machine : Machine) :
    Turn Machine Fault :=
  match write machine.memory with
  | (false, memory) =>
      fault .memoryFault currentPc message { machine with memory }
  | (true, memory) => onCpu finish { machine with memory }

section Accesses

variable (message : String) (ea : Word) (rt ra : Register) (update : Bool)
  (currentPc : Word)

/-- Load a value and extend it into a general register. -/
def loadGpr {width : Nat} (read : Memory → Word → Option (BitVec width))
    (extend : BitVec width → Word) (machine : Machine) :
    Turn Machine Fault :=
  load (read machine.memory ea)
    (fun value cpu => updateBase update ra ea (cpu.setGpr rt (extend value)))
    message currentPc machine

/-- Load a value and widen it into a floating-point register. -/
def loadFpr {width : Nat} (read : Memory → Word → Option (BitVec width))
    (extend : BitVec width → DoubleWord) (machine : Machine) :
    Turn Machine Fault :=
  load (read machine.memory ea)
    (fun value cpu => updateBase update ra ea (cpu.setFpr rt (extend value)))
    message currentPc machine

/-- Store a value taken from the processor. -/
def storeValue {width : Nat}
    (write : Memory → Word → BitVec width → Bool × Memory)
    (value : BitVec width) (machine : Machine) : Turn Machine Fault :=
  store (fun memory => write memory ea value) (updateBase update ra ea)
    message currentPc machine

end Accesses

section Displacement

variable (rt ra : Register) (simm : Word) (update : Bool) (currentPc : Word)
  (machine : Machine)

def lwz : Turn Machine Fault :=
  loadGpr "lwz failed" (effectiveAddressD machine.cpu ra simm) rt ra update
    currentPc Memory.read32 id machine
def lbz : Turn Machine Fault :=
  loadGpr "lbz failed" (effectiveAddressD machine.cpu ra simm) rt ra update
    currentPc Memory.read8 (·.setWidth 32) machine
def lhz : Turn Machine Fault :=
  loadGpr "lhz failed" (effectiveAddressD machine.cpu ra simm) rt ra update
    currentPc Memory.read16 (·.setWidth 32) machine
def lha : Turn Machine Fault :=
  loadGpr "lha failed" (effectiveAddressD machine.cpu ra simm) rt ra update
    currentPc Memory.read16 (·.signExtend 32) machine
def lfs (host : Host) : Turn Machine Fault :=
  loadFpr "lfs failed" (effectiveAddressD machine.cpu ra simm) rt ra update
    currentPc Memory.read32 (FloatingPoint.toDouble host) machine
def lfd : Turn Machine Fault :=
  loadFpr "lfd failed" (effectiveAddressD machine.cpu ra simm) rt ra update
    currentPc Memory.read64 id machine
def stw : Turn Machine Fault :=
  storeValue "stw failed" (effectiveAddressD machine.cpu ra simm) ra update
    currentPc Memory.write32 (machine.cpu.gpr rt) machine
def stb : Turn Machine Fault :=
  storeValue "stb failed" (effectiveAddressD machine.cpu ra simm) ra update
    currentPc Memory.write8 ((machine.cpu.gpr rt).setWidth 8) machine
def sth : Turn Machine Fault :=
  storeValue "sth failed" (effectiveAddressD machine.cpu ra simm) ra update
    currentPc Memory.write16 ((machine.cpu.gpr rt).setWidth 16) machine
def stfs (host : Host) : Turn Machine Fault :=
  storeValue "stfs failed" (effectiveAddressD machine.cpu ra simm) ra update
    currentPc Memory.write32 (FloatingPoint.toSingle host (machine.cpu.fpr rt))
    machine
def stfd : Turn Machine Fault :=
  storeValue "stfd failed" (effectiveAddressD machine.cpu ra simm) ra update
    currentPc Memory.write64 (machine.cpu.fpr rt) machine

end Displacement

/-- The loop of `lmw`: `count` registers from `register` on. -/
def lmwFrom (currentPc : Word) :
    Nat → Register → Word → Machine → Turn Machine Fault
  | 0, _, _, machine => .next machine
  | count + 1, register, ea, machine =>
      match machine.memory.read32 ea with
      | none => fault .memoryFault currentPc "lmw failed" machine
      | some value =>
          lmwFrom currentPc count (register + 1) (ea + 4)
            { machine with cpu := machine.cpu.setGpr register value }

def lmw (rt ra : Register) (simm : Word) (currentPc : Word)
    (machine : Machine) : Turn Machine Fault :=
  lmwFrom currentPc (32 - rt.toNat) rt
    (effectiveAddressD machine.cpu ra simm) machine

/-- The loop of `stmw`. -/
def stmwFrom (currentPc : Word) :
    Nat → Register → Word → Machine → Turn Machine Fault
  | 0, _, _, machine => .next machine
  | count + 1, register, ea, machine =>
      match machine.memory.write32 ea (machine.cpu.gpr register) with
      | (false, memory) =>
          fault .memoryFault currentPc "stmw failed" { machine with memory }
      | (true, memory) =>
          stmwFrom currentPc count (register + 1) (ea + 4)
            { machine with memory }

def stmw (rt ra : Register) (simm : Word) (currentPc : Word)
    (machine : Machine) : Turn Machine Fault :=
  stmwFrom currentPc (32 - rt.toNat) rt
    (effectiveAddressD machine.cpu ra simm) machine

section Indexed

variable (rt ra rb : Register) (currentPc : Word) (machine : Machine)

def lwzx : Turn Machine Fault :=
  loadGpr "lwzx failed" (effectiveAddressX machine.cpu ra rb) rt ra false
    currentPc Memory.read32 id machine
def lwzux : Turn Machine Fault :=
  loadGpr "lwzux failed" (effectiveAddressX machine.cpu ra rb) rt ra true
    currentPc Memory.read32 id machine
def lbzx : Turn Machine Fault :=
  loadGpr "lbzx failed" (effectiveAddressX machine.cpu ra rb) rt ra false
    currentPc Memory.read8 (·.setWidth 32) machine
def lbzux : Turn Machine Fault :=
  loadGpr "lbzux failed" (effectiveAddressX machine.cpu ra rb) rt ra true
    currentPc Memory.read8 (·.setWidth 32) machine
def lhzx : Turn Machine Fault :=
  loadGpr "lhzx failed" (effectiveAddressX machine.cpu ra rb) rt ra false
    currentPc Memory.read16 (·.setWidth 32) machine
def lhzux : Turn Machine Fault :=
  loadGpr "lhzux failed" (effectiveAddressX machine.cpu ra rb) rt ra true
    currentPc Memory.read16 (·.setWidth 32) machine
/-- `lhax`, and `lhaux` when `update` is set. -/
def lhax (update : Bool) : Turn Machine Fault :=
  loadGpr "lhax failed" (effectiveAddressX machine.cpu ra rb) rt ra update
    currentPc Memory.read16 (·.signExtend 32) machine
def lwbrx : Turn Machine Fault :=
  loadGpr "lwbrx failed" (effectiveAddressX machine.cpu ra rb) rt ra false
    currentPc Memory.read32 byteSwap32 machine
def lhbrx : Turn Machine Fault :=
  loadGpr "lhbrx failed" (effectiveAddressX machine.cpu ra rb) rt ra false
    currentPc Memory.read16 (fun value => (byteSwap16 value).setWidth 32)
    machine
def lfsx (host : Host) (update : Bool) : Turn Machine Fault :=
  loadFpr "lfsx failed" (effectiveAddressX machine.cpu ra rb) rt ra update
    currentPc Memory.read32 (FloatingPoint.toDouble host) machine
def lfdx (update : Bool) : Turn Machine Fault :=
  loadFpr "lfdx failed" (effectiveAddressX machine.cpu ra rb) rt ra update
    currentPc Memory.read64 id machine
def stwx : Turn Machine Fault :=
  storeValue "stwx failed" (effectiveAddressX machine.cpu ra rb) ra false
    currentPc Memory.write32 (machine.cpu.gpr rt) machine
def stwux : Turn Machine Fault :=
  storeValue "stwux failed" (effectiveAddressX machine.cpu ra rb) ra true
    currentPc Memory.write32 (machine.cpu.gpr rt) machine
def stbx : Turn Machine Fault :=
  storeValue "stbx failed" (effectiveAddressX machine.cpu ra rb) ra false
    currentPc Memory.write8 ((machine.cpu.gpr rt).setWidth 8) machine
def stbux : Turn Machine Fault :=
  storeValue "stbux failed" (effectiveAddressX machine.cpu ra rb) ra true
    currentPc Memory.write8 ((machine.cpu.gpr rt).setWidth 8) machine
def sthx : Turn Machine Fault :=
  storeValue "sthx failed" (effectiveAddressX machine.cpu ra rb) ra false
    currentPc Memory.write16 ((machine.cpu.gpr rt).setWidth 16) machine
def sthux : Turn Machine Fault :=
  storeValue "sthux failed" (effectiveAddressX machine.cpu ra rb) ra true
    currentPc Memory.write16 ((machine.cpu.gpr rt).setWidth 16) machine
def stwbrx : Turn Machine Fault :=
  storeValue "stwbrx failed" (effectiveAddressX machine.cpu ra rb) ra false
    currentPc Memory.write32 (byteSwap32 (machine.cpu.gpr rt)) machine
def sthbrx : Turn Machine Fault :=
  storeValue "sthbrx failed" (effectiveAddressX machine.cpu ra rb) ra false
    currentPc Memory.write16 (byteSwap16 ((machine.cpu.gpr rt).setWidth 16))
    machine
def stfsx (host : Host) (update : Bool) : Turn Machine Fault :=
  storeValue "stfsx failed" (effectiveAddressX machine.cpu ra rb) ra update
    currentPc Memory.write32 (FloatingPoint.toSingle host (machine.cpu.fpr rt))
    machine
def stfdx (update : Bool) : Turn Machine Fault :=
  storeValue "stfdx failed" (effectiveAddressX machine.cpu ra rb) ra update
    currentPc Memory.write64 (machine.cpu.fpr rt) machine
def stfiwx : Turn Machine Fault :=
  storeValue "stfiwx failed" (effectiveAddressX machine.cpu ra rb) ra false
    currentPc Memory.write32 ((machine.cpu.fpr rt).setWidth 32) machine

/-- Zero the 32-byte line that holds the address. -/
def dcbz : Turn Machine Fault :=
  store
    (fun memory => memory.writeBytes
      (effectiveAddressX machine.cpu ra rb &&& ~~~31) (List.replicate 32 0))
    id "dcbz failed" currentPc machine

def lwarx : Turn Machine Fault :=
  let ea := effectiveAddressX machine.cpu ra rb
  if (ea &&& 3) != 0 then
    fault .memoryFault currentPc "lwarx alignment fault" machine
  else
    load (machine.memory.read32 ea)
      (fun value cpu =>
        { cpu.setGpr rt value with
          reservationAddress := ea, reservationValid := true })
      "lwarx failed" currentPc machine

/-- The store of `stwcx.`, made only under a matching reservation. -/
def stwcx : Turn Machine Fault :=
  let ea := effectiveAddressX machine.cpu ra rb
  if (ea &&& 3) != 0 then
    fault .memoryFault currentPc "stwcx. alignment fault" machine
  else
    let success := machine.cpu.reservationValid &&
      machine.cpu.reservationAddress == ea
    store
      (fun memory =>
        if success then memory.write32 ea (machine.cpu.gpr rt)
        else (true, memory))
      (fun cpu =>
        { cpu with reservationValid := false }.setCrField 0 false false
          success (summaryOverflow cpu))
      "stwcx. failed" currentPc machine

end Indexed

end BuiltinInterpreter

end PpcLab
