import Mathlib.Logic.Function.Basic
import PpcLab.Library.Ieee754
import PpcLab.Memory

/-!
# Processor state

Registers are indexed by the five-bit fields of an instruction, so every index
is in range.  A floating-point register holds the bit pattern of a double.

The configuration and the result of a run, shared by every backend, and the
host services the interpreter borrows: the bit patterns of NaN results and the
elementary functions of the host's mathematics library, neither of which the
language fixes.
-/

namespace PpcLab

/-- A register number as an instruction encodes it. -/
abbrev Register := BitVec 5

@[ext]
structure CpuState where
  gpr : Register → Word
  fpr : Register → DoubleWord
  pc : Word
  lr : Word
  ctr : Word
  cr : Word
  xer : Word
  fpscr : Word
  reservationAddress : Word
  reservationValid : Bool

namespace CpuState

/-- The value-initialised state `CpuState{}`. -/
def zero : CpuState :=
  { gpr := fun _ => 0
    fpr := fun _ => 0
    pc := 0
    lr := 0
    ctr := 0
    cr := 0
    xer := 0
    fpscr := 0
    reservationAddress := 0
    reservationValid := false }

/-- `gpr[register] = value` -/
def setGpr (cpu : CpuState) (register : Register) (value : Word) : CpuState :=
  { cpu with gpr := Function.update cpu.gpr register value }

/-- `fpr[register] = value` -/
def setFpr (cpu : CpuState) (register : Register) (value : DoubleWord) :
    CpuState :=
  { cpu with fpr := Function.update cpu.fpr register value }

def crBit (cpu : CpuState) (bi : Register) : Bool :=
  ((cpu.cr >>> (31 - bi.toNat)) &&& 1) != 0

/-- The bit position of a condition field. -/
def crShift (field : BitVec 3) : Nat :=
  28 - field.toNat * 4

/-- Replace the four bits of a condition field. -/
def assignCrField (cpu : CpuState) (field : BitVec 3) (nibble : Word) :
    CpuState :=
  { cpu with
    cr := (cpu.cr &&& ~~~((0xf : Word) <<< crShift field)) |||
      (nibble <<< crShift field) }

def setCrField (cpu : CpuState) (field : BitVec 3)
    (less greater equal summaryOverflow : Bool) : CpuState :=
  cpu.assignCrField field
    ((if less then 8 else 0) ||| (if greater then 4 else 0) |||
      (if equal then 2 else 0) ||| (if summaryOverflow then 1 else 0))

/-- The four bits of a condition field. -/
def crField (cpu : CpuState) (field : BitVec 3) : Word :=
  (cpu.cr >>> crShift field) &&& 0xf

section Projections

variable (cpu : CpuState) (register : Register) (value : Word)
  (double : DoubleWord) (field : BitVec 3) (nibble : Word)

@[simp] theorem setGpr_gpr :
    (cpu.setGpr register value).gpr =
      Function.update cpu.gpr register value := rfl
@[simp] theorem setGpr_fpr : (cpu.setGpr register value).fpr = cpu.fpr := rfl
@[simp] theorem setGpr_pc : (cpu.setGpr register value).pc = cpu.pc := rfl
@[simp] theorem setGpr_lr : (cpu.setGpr register value).lr = cpu.lr := rfl
@[simp] theorem setGpr_ctr : (cpu.setGpr register value).ctr = cpu.ctr := rfl
@[simp] theorem setGpr_cr : (cpu.setGpr register value).cr = cpu.cr := rfl
@[simp] theorem setGpr_xer : (cpu.setGpr register value).xer = cpu.xer := rfl

end Projections

end CpuState

inductive StopReason where
  | returned
  | instructionLimit
  | unsupportedInstruction
  | memoryFault
  | importTrap
  | trap
  | systemCall
  | invalidConfiguration
  | backendError
  deriving DecidableEq, Repr

structure TraceRange where
  first : Word
  last : Word
  deriving DecidableEq, Repr

namespace TraceRange

def contains (range : TraceRange) (pc : Word) : Bool :=
  decide (range.first ≤ pc) && decide (pc ≤ range.last)

end TraceRange

structure ImageSymbol where
  name : String
  value : Word
  size : Word
  sectionIndex : Word
  binding : Byte
  type : Byte
  defined : Bool
  imported : Bool
  deriving DecidableEq, Repr

structure SymbolBinding where
  name : String
  address : Word
  deriving DecidableEq, Repr

def findSymbolBinding (bindings : List SymbolBinding) (name : String) :
    Option Word :=
  (bindings.find? fun binding => binding.name == name).map (·.address)

inductive ImportStubKind where
  | pow
  | cos
  | sqrt
  | sin
  | exp
  | fabs
  | floor
  | ceil
  | blockMoveData
  | memcpy
  | memmove
  | memset
  | bzero
  deriving DecidableEq, Repr

structure ImportStubBinding where
  address : Word
  kind : ImportStubKind
  name : String
  deriving DecidableEq, Repr

structure SystemCallStubBinding where
  number : Word
  returnValue : Word
  deriving DecidableEq, Repr

/-- `traceSymbols` is absent for a null pointer. -/
structure ExecutionConfig where
  instructionLimit : Nat := 1000000
  returnAddress : Word := 0x7fff0000
  importBase : Word := 0x30000000
  importSize : Word := 0x00010000
  trace : Bool := false
  ignoreTraps : Bool := false
  importStubs : List ImportStubBinding := []
  systemCallStubs : List SystemCallStubBinding := []
  defaultSystemCallReturn : Option Word := none
  traceRange : Option TraceRange := none
  traceSymbols : Option (List ImageSymbol) := none

structure ExecutionResult where
  reason : StopReason
  instructions : Nat
  pc : Word
  instruction : Word
  message : String
  deriving DecidableEq, Repr

/-- What the interpreter takes from its host.  `nan` is the pattern an
operation on these operands returns when its result is not a number, and the
next two are the patterns of a converted NaN. -/
structure Host where
  nan : List DoubleWord → DoubleWord
  nanToSingle : DoubleWord → Word
  nanToDouble : Word → DoubleWord
  nan_isNaN : ∀ operands,
    Ieee754.binary64.isNaN (nan operands).toNat = true
  nanToSingle_isNaN : ∀ operand,
    Ieee754.binary32.isNaN (nanToSingle operand).toNat = true
  nanToDouble_isNaN : ∀ operand,
    Ieee754.binary64.isNaN (nanToDouble operand).toNat = true
  pow : DoubleWord → DoubleWord → DoubleWord
  cos : DoubleWord → DoubleWord
  sin : DoubleWord → DoubleWord
  exp : DoubleWord → DoubleWord

/-- A host that returns one quiet NaN.  Its elementary functions are only
right at zero. -/
def Host.quiet : Host :=
  { nan := fun _ => 0x7ff8000000000000
    nanToSingle := fun _ => 0x7fc00000
    nanToDouble := fun _ => 0x7ff8000000000000
    nan_isNaN := fun _ => by decide
    nanToSingle_isNaN := fun _ => by decide
    nanToDouble_isNaN := fun _ => by decide
    pow := fun _ _ => 0x3ff0000000000000
    cos := fun _ => 0x3ff0000000000000
    sin := fun _ => 0
    exp := fun _ => 0x3ff0000000000000 }

/-- Everything a run changes: guest memory, the processor, and the lines
written to the error stream. -/
structure Machine where
  memory : Memory
  cpu : CpuState
  stderr : List String

end PpcLab
