import PpcLab.Interpreter.LoadStore
import PpcLab.Library.Text

/-!
# Runtime import stubs

Synthetic implementations of imported routines.  A block routine checks its
whole source and destination before it stores anything.

Control transfers, the special registers they use, and the instructions that
hand control to the harness.  A taken `bcctr` with a null target is a call
through import glue when `r12` names an import.
-/

namespace PpcLab

structure ImportStubResult where
  handled : Bool
  success : Bool
  fidelityExact : Bool
  message : String
  deriving DecidableEq, Repr

def findImportStub (bindings : List ImportStubBinding) (address : Word) :
    Option ImportStubBinding :=
  bindings.find? fun binding => binding.address == address

namespace ImportStubs

def ok (exact : Bool) : ImportStubResult :=
  ⟨true, true, exact, ""⟩

def bad (message : String) : ImportStubResult :=
  ⟨true, false, false, message⟩

def readRange (memory : Memory) (address count : Word) :
    Option (List Byte) :=
  if count > 0x01000000 then none
  else if count = 0 then some []
  else memory.readBytes address count.toNat

/-- `count && !memory.writeBytes(destination, bytes)`, negated. -/
def writeRange (memory : Memory) (destination count : Word)
    (bytes : List Byte) : Bool × Memory :=
  if count = 0 then (true, memory)
  else memory.writeBytes destination bytes

/-- Copy `count` bytes through a buffer. -/
def move (message : String) (destination source count : Word)
    (machine : Machine) : ImportStubResult × Machine :=
  match readRange machine.memory source count with
  | none => (bad message, machine)
  | some bytes =>
      match writeRange machine.memory destination count bytes with
      | (false, memory) => (bad message, { machine with memory })
      | (true, memory) => (ok true, { machine with memory })

/-- Store `count` copies of a byte. -/
def fill (name : String) (destination : Word) (value : Byte) (count : Word)
    (machine : Machine) : ImportStubResult × Machine :=
  if count > 0x01000000 then
    (bad (name ++ " count is unreasonable"), machine)
  else
    match writeRange machine.memory destination count
        (List.replicate count.toNat value) with
    | (false, memory) =>
        (bad (name ++ " destination is outside mapped memory"),
          { machine with memory })
    | (true, memory) => (ok true, { machine with memory })

/-- `cpu.fpr[1] = result` -/
def returnDouble (result : DoubleWord) (machine : Machine) :
    ImportStubResult × Machine :=
  (ok false, { machine with cpu := machine.cpu.setFpr 1 result })

/-- Return the destination pointer in `r3` when the routine succeeded. -/
def returnDestination (destination : Word)
    (outcome : ImportStubResult × Machine) : ImportStubResult × Machine :=
  if outcome.1.success then
    (outcome.1, { outcome.2 with cpu := outcome.2.cpu.setGpr 3 destination })
  else outcome

end ImportStubs

open ImportStubs BuiltinInterpreter in
def executeImportStub (host : Host) (binding : ImportStubBinding)
    (machine : Machine) : ImportStubResult × Machine :=
  let cpu := machine.cpu
  match binding.kind with
  | .pow => returnDouble (host.pow (cpu.fpr 1) (cpu.fpr 2)) machine
  | .cos => returnDouble (host.cos (cpu.fpr 1)) machine
  | .sqrt => returnDouble (FloatingPoint.sqrt host (cpu.fpr 1)) machine
  | .sin => returnDouble (host.sin (cpu.fpr 1)) machine
  | .exp => returnDouble (host.exp (cpu.fpr 1)) machine
  | .fabs => returnDouble (FloatingPoint.fabs (cpu.fpr 1)) machine
  | .floor =>
      returnDouble (FloatingPoint.roundIntegral host .floor (cpu.fpr 1))
        machine
  | .ceil =>
      returnDouble (FloatingPoint.roundIntegral host .ceil (cpu.fpr 1))
        machine
  | .blockMoveData =>
      move "BlockMoveData source/destination is outside mapped memory"
        (cpu.gpr 4) (cpu.gpr 3) (cpu.gpr 5) machine
  | .memcpy | .memmove =>
      returnDestination (cpu.gpr 3)
        (move "memcpy/memmove source/destination is outside mapped memory"
          (cpu.gpr 3) (cpu.gpr 4) (cpu.gpr 5) machine)
  | .memset =>
      returnDestination (cpu.gpr 3)
        (fill "memset" (cpu.gpr 3) ((cpu.gpr 4).setWidth 8) (cpu.gpr 5)
          machine)
  | .bzero => fill "bzero" (cpu.gpr 3) 0 (cpu.gpr 4) machine

end PpcLab

namespace PpcLab.BuiltinInterpreter

open Text

/-- Decrement CTR when the condition asks for it, and decide the branch. -/
def evaluateBranchCondition (cpu : CpuState) (bo bi : Register) :
    Bool × CpuState :=
  let decrement := (bo &&& 0x04) == 0
  let cpu := if decrement then { cpu with ctr := cpu.ctr - 1 } else cpu
  let ctrOk := !decrement || ((cpu.ctr != 0) ^^ ((bo &&& 0x02) != 0))
  let condOk := (bo &&& 0x10) != 0 || cpu.crBit bi == ((bo &&& 0x08) != 0)
  (ctrOk && condOk, cpu)

def bc (bo bi : Register) (bd : Word) (aa lk : Bool) (currentPc : Word)
    (cpu : CpuState) : CpuState :=
  let cpu := if lk then { cpu with lr := cpu.pc } else cpu
  match evaluateBranchCondition cpu bo bi with
  | (true, cpu) => { cpu with pc := if aa then bd else currentPc + bd }
  | (false, cpu) => cpu

/-- `b` and its variants. -/
def branch (li : Word) (aa lk : Bool) (currentPc : Word) (cpu : CpuState) :
    CpuState :=
  let cpu := if lk then { cpu with lr := cpu.pc } else cpu
  { cpu with pc := if aa then li else currentPc + li }

/-- Link if asked, then jump. -/
def follow (lk : Bool) (target : Word) (cpu : CpuState) : CpuState :=
  let cpu := if lk then { cpu with lr := cpu.pc } else cpu
  { cpu with pc := target }

def bclr (bo bi : Register) (lk : Bool) (cpu : CpuState) : CpuState :=
  let target := cpu.lr &&& ~~~3
  match evaluateBranchCondition cpu bo bi with
  | (true, cpu) => follow lk target cpu
  | (false, cpu) => cpu

/-- The address lies in the range reserved for unresolved imports. -/
def inImportRange (config : ExecutionConfig) (address : Word) : Bool :=
  decide (config.importBase ≤ address) &&
    decide (address.toNat <
      config.importBase.toNat + config.importSize.toNat)

/-- The call an import glue sequence makes through `r12`. -/
def importGlue (host : Host) (config : ExecutionConfig) (machine : Machine) :
    Turn Machine Fault :=
  let trapped (machine : Machine) : Turn Machine Fault :=
    .stop machine ⟨1, machine.cpu.gpr 12, .importTrap,
      "CFM indirect import via r12=" ++ hex32 (machine.cpu.gpr 12).toNat⟩
  match findImportStub config.importStubs (machine.cpu.gpr 12) with
  | none => trapped machine
  | some binding =>
      match executeImportStub host binding machine with
      | (stub, machine) =>
          if stub.handled then
            if stub.success then
              onCpu (fun cpu => { cpu with pc := cpu.lr }) machine
            else
              .stop machine
                ⟨1, machine.cpu.gpr 12, .memoryFault, stub.message⟩
          else trapped machine

def bcctr (host : Host) (config : ExecutionConfig) (bo bi : Register)
    (lk : Bool) (machine : Machine) : Turn Machine Fault :=
  let target := machine.cpu.ctr &&& ~~~3
  match evaluateBranchCondition machine.cpu bo bi with
  | (true, cpu) =>
      if target == 0 && inImportRange config (cpu.gpr 12) then
        importGlue host config { machine with cpu }
      else .next { machine with cpu := follow lk target cpu }
  | (false, cpu) => .next { machine with cpu }

/-- `twi` and `tw`: trap when the condition holds and traps are honoured. -/
def trapForm (mnemonic : String) (config : ExecutionConfig)
    (trapTo : Register) (a b : Word) (currentPc : Word) (machine : Machine) :
    Turn Machine Fault :=
  if trapCondition trapTo a b && !config.ignoreTraps then
    fault .trap currentPc
      (mnemonic ++ " trap TO=" ++ decimal trapTo.toNat) machine
  else .next machine

def twi (config : ExecutionConfig) (trapTo ra : Register) (simm : Word)
    (currentPc : Word) (machine : Machine) : Turn Machine Fault :=
  trapForm "twi" config trapTo (machine.cpu.gpr ra) simm currentPc machine

def tw (config : ExecutionConfig) (trapTo ra rb : Register)
    (currentPc : Word) (machine : Machine) : Turn Machine Fault :=
  trapForm "tw" config trapTo (machine.cpu.gpr ra) (machine.cpu.gpr rb)
    currentPc machine

def findSystemCallStub (config : ExecutionConfig) (number : Word) :
    Option SystemCallStubBinding :=
  config.systemCallStubs.find? fun binding => binding.number == number

def sc (config : ExecutionConfig) (currentPc : Word) (machine : Machine) :
    Turn Machine Fault :=
  let number := machine.cpu.gpr 0
  match findSystemCallStub config number with
  | some binding => onCpu (·.setGpr 3 binding.returnValue) machine
  | none =>
      match config.defaultSystemCallReturn with
      | some value => onCpu (·.setGpr 3 value) machine
      | none =>
          fault .systemCall currentPc
            ("system call r0=" ++ decimal number.toNat) machine

def mfspr (rt : Register) (spr : Nat) (currentPc : Word)
    (machine : Machine) : Turn Machine Fault :=
  match spr with
  | 1 => onCpu (fun cpu => cpu.setGpr rt cpu.xer) machine
  | 8 => onCpu (fun cpu => cpu.setGpr rt cpu.lr) machine
  | 9 => onCpu (fun cpu => cpu.setGpr rt cpu.ctr) machine
  | _ =>
      fault .unsupportedInstruction currentPc
        ("unsupported mfspr SPR=" ++ decimal spr) machine

def mtspr (rt : Register) (spr : Nat) (currentPc : Word)
    (machine : Machine) : Turn Machine Fault :=
  match spr with
  | 1 => onCpu (fun cpu => { cpu with xer := cpu.gpr rt }) machine
  | 8 => onCpu (fun cpu => { cpu with lr := cpu.gpr rt }) machine
  | 9 => onCpu (fun cpu => { cpu with ctr := cpu.gpr rt }) machine
  | _ =>
      fault .unsupportedInstruction currentPc
        ("unsupported mtspr SPR=" ++ decimal spr) machine

end PpcLab.BuiltinInterpreter
