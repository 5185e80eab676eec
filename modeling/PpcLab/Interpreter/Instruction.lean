import PpcLab.Execution

/-!
# Integer instructions

The helpers of the interpreter and the instructions that read and write
registers only.  Each instruction performs its assignments in the order of the
source, so a register read after the destination was written sees the new
value.

The bit fields the interpreter and the disassembler cut out of an instruction
word, and words with one register field replaced.
-/

namespace PpcLab.BuiltinInterpreter

def signExtend16 (value : Word) : Word :=
  (value.setWidth 16).signExtend 32

def signExtend14Shift2 (value : Word) : Word :=
  let v := value &&& 0xfffc
  if (v &&& 0x8000) != 0 then v ||| 0xffff0000 else v

def signExtend26 (value : Word) : Word :=
  let v := value &&& 0x03fffffc
  if (v &&& 0x02000000) != 0 then v ||| 0xfc000000 else v

def rotl32 (x : Word) (n : Nat) : Word :=
  let n := n &&& 31
  if n = 0 then x else (x <<< n) ||| (x >>> (32 - n))

def byteSwap16 (v : Half) : Half :=
  (v >>> 8) ||| (v <<< 8)

def byteSwap32 (v : Word) : Word :=
  ((v &&& 0x000000ff) <<< 24) ||| ((v &&& 0x0000ff00) <<< 8) |||
    ((v &&& 0x00ff0000) >>> 8) ||| ((v &&& 0xff000000) >>> 24)

def ppcMask (mb me : Register) : Word :=
  (List.range 32).foldl
    (fun mask p =>
      let selected :=
        if mb.toNat ≤ me.toNat then
          decide (mb.toNat ≤ p) && decide (p ≤ me.toNat)
        else decide (mb.toNat ≤ p) || decide (p ≤ me.toNat)
      if selected then mask ||| ((1 : Word) <<< (31 - p)) else mask) 0

/-- Register zero reads as the constant zero in address forms. -/
def baseOrZero (cpu : CpuState) (ra : Register) : Word :=
  if ra = 0 then 0 else cpu.gpr ra

def effectiveAddressD (cpu : CpuState) (ra : Register) (d : Word) : Word :=
  baseOrZero cpu ra + d

def effectiveAddressX (cpu : CpuState) (ra rb : Register) : Word :=
  baseOrZero cpu ra + cpu.gpr rb

def sprNumber (instruction : Word) : Nat :=
  (((instruction >>> 16) &&& 0x1f) ||| ((instruction >>> 6) &&& 0x3e0)).toNat

/-- The sticky summary-overflow bit of XER. -/
def summaryOverflow (cpu : CpuState) : Bool :=
  (cpu.xer &&& 0x80000000) != 0

def updateCr0 (cpu : CpuState) (value : Word) : CpuState :=
  cpu.setCrField 0 (value.slt 0) ((0 : Word).slt value) (value == 0)
    (summaryOverflow cpu)

def updateCr1FromFpscr (cpu : CpuState) : CpuState :=
  cpu.assignCrField 1 ((cpu.fpscr >>> 28) &&& 0xf)

def setCarry (cpu : CpuState) (carry : Bool) : CpuState :=
  { cpu with
    xer := if carry then cpu.xer ||| 0x20000000
      else cpu.xer &&& ~~~0x20000000 }

def carrySet (cpu : CpuState) : Bool :=
  (cpu.xer &&& 0x20000000) != 0

def setCompareSigned (cpu : CpuState) (bf : BitVec 3) (a b : Word) :
    CpuState :=
  cpu.setCrField bf (a.slt b) (b.slt a) (a == b) (summaryOverflow cpu)

def setCompareUnsigned (cpu : CpuState) (bf : BitVec 3) (a b : Word) :
    CpuState :=
  cpu.setCrField bf (a.ult b) (b.ult a) (a == b) (summaryOverflow cpu)

def setCrBit (cpu : CpuState) (bi : Register) (value : Bool) : CpuState :=
  let mask := (1 : Word) <<< (31 - bi.toNat)
  { cpu with cr := if value then cpu.cr ||| mask else cpu.cr &&& ~~~mask }

def setOverflow (cpu : CpuState) (overflow : Bool) : CpuState :=
  { cpu with
    xer := if overflow then cpu.xer ||| 0xc0000000
      else cpu.xer &&& ~~~0x40000000 }

def addOverflow (a b result : Word) : Bool :=
  ((~~~(a ^^^ b) &&& (a ^^^ result)) &&& 0x80000000) != 0

def subOverflow (minuend subtrahend result : Word) : Bool :=
  (((minuend ^^^ subtrahend) &&& (minuend ^^^ result)) &&& 0x80000000) != 0

/-- The 64-bit sum lies outside the range of a 32-bit signed integer. -/
def outsideInt32 (math : Int) : Bool :=
  decide (math < -2147483648) || decide (math > 2147483647)

def trapCondition (trapTo : Register) (a b : Word) : Bool :=
  (((trapTo &&& 0x10) != 0) && a.slt b) ||
    (((trapTo &&& 0x08) != 0) && b.slt a) ||
    (((trapTo &&& 0x04) != 0) && a == b) ||
    (((trapTo &&& 0x02) != 0) && a.ult b) ||
    (((trapTo &&& 0x01) != 0) && b.ult a)

/-- `if (rc) updateCr0(cpu, cpu.gpr[register])` -/
def record (rc : Bool) (register : Register) (cpu : CpuState) : CpuState :=
  if rc then updateCr0 cpu (cpu.gpr register) else cpu

def mulli (rt ra : Register) (simm : Word) (cpu : CpuState) : CpuState :=
  cpu.setGpr rt (BitVec.ofInt 32 ((cpu.gpr ra).toInt * simm.toInt))

def subfic (rt ra : Register) (simm : Word) (cpu : CpuState) : CpuState :=
  let wide : DoubleWord :=
    simm.setWidth 64 + (~~~cpu.gpr ra).setWidth 64 + 1
  let cpu := cpu.setGpr rt (wide.setWidth 32)
  setCarry cpu ((wide >>> 32) != 0)

def cmplwi (bf : BitVec 3) (ra : Register) (uimm : Word) (cpu : CpuState) :
    CpuState :=
  setCompareUnsigned cpu bf (cpu.gpr ra) uimm

def cmpwi (bf : BitVec 3) (ra : Register) (simm : Word) (cpu : CpuState) :
    CpuState :=
  setCompareSigned cpu bf (cpu.gpr ra) simm

/-- `addic`, and `addic.` when `rc` is set. -/
def addic (rt ra : Register) (simm : Word) (rc : Bool) (cpu : CpuState) :
    CpuState :=
  let wide : DoubleWord := (cpu.gpr ra).setWidth 64 + simm.setWidth 64
  let cpu := cpu.setGpr rt (wide.setWidth 32)
  let cpu := setCarry cpu ((wide >>> 32) != 0)
  record rc rt cpu

def addi (rt ra : Register) (simm : Word) (cpu : CpuState) : CpuState :=
  cpu.setGpr rt (baseOrZero cpu ra + simm)

def addis (rt ra : Register) (simm : Word) (cpu : CpuState) : CpuState :=
  cpu.setGpr rt (baseOrZero cpu ra + (simm <<< 16))

/-- Immediate logical forms: `ra = operation(rt, immediate)`. -/
def logicalImmediate (operation : Word → Word → Word) (ra rt : Register)
    (immediate : Word) (rc : Bool) (cpu : CpuState) : CpuState :=
  record rc ra (cpu.setGpr ra (operation (cpu.gpr rt) immediate))

def ori (ra rt : Register) (uimm : Word) : CpuState → CpuState :=
  logicalImmediate (· ||| ·) ra rt uimm false
def oris (ra rt : Register) (uimm : Word) : CpuState → CpuState :=
  logicalImmediate (· ||| ·) ra rt (uimm <<< 16) false
def xori (ra rt : Register) (uimm : Word) : CpuState → CpuState :=
  logicalImmediate (· ^^^ ·) ra rt uimm false
def xoris (ra rt : Register) (uimm : Word) : CpuState → CpuState :=
  logicalImmediate (· ^^^ ·) ra rt (uimm <<< 16) false
def andi (ra rt : Register) (uimm : Word) : CpuState → CpuState :=
  logicalImmediate (· &&& ·) ra rt uimm true
def andis (ra rt : Register) (uimm : Word) : CpuState → CpuState :=
  logicalImmediate (· &&& ·) ra rt (uimm <<< 16) true

def rlwimi (ra rt sh mb me : Register) (rc : Bool) (cpu : CpuState) :
    CpuState :=
  let mask := ppcMask mb me
  record rc ra (cpu.setGpr ra
    ((cpu.gpr ra &&& ~~~mask) ||| (rotl32 (cpu.gpr rt) sh.toNat &&& mask)))

def rlwinm (ra rt sh mb me : Register) (rc : Bool) (cpu : CpuState) :
    CpuState :=
  record rc ra (cpu.setGpr ra
    (rotl32 (cpu.gpr rt) sh.toNat &&& ppcMask mb me))

def rlwnm (ra rt rb mb me : Register) (rc : Bool) (cpu : CpuState) :
    CpuState :=
  record rc ra (cpu.setGpr ra
    (rotl32 (cpu.gpr rt) (cpu.gpr rb &&& 31).toNat &&& ppcMask mb me))

def cmpw (bf : BitVec 3) (ra rb : Register) (cpu : CpuState) : CpuState :=
  setCompareSigned cpu bf (cpu.gpr ra) (cpu.gpr rb)

def cmplw (bf : BitVec 3) (ra rb : Register) (cpu : CpuState) : CpuState :=
  setCompareUnsigned cpu bf (cpu.gpr ra) (cpu.gpr rb)

def mcrf (bf bfa : BitVec 3) (cpu : CpuState) : CpuState :=
  cpu.assignCrField bf (cpu.crField bfa)

/-- The condition-register logical forms: `bt = operation(ba, bb)`. -/
def crLogical (operation : Bool → Bool → Bool) (bt ba bb : Register)
    (cpu : CpuState) : CpuState :=
  setCrBit cpu bt (operation (cpu.crBit ba) (cpu.crBit bb))

def crnor : Register → Register → Register → CpuState → CpuState :=
  crLogical fun a b => !(a || b)
def crandc : Register → Register → Register → CpuState → CpuState :=
  crLogical fun a b => a && !b
def crxor : Register → Register → Register → CpuState → CpuState :=
  crLogical fun a b => a != b
def crnand : Register → Register → Register → CpuState → CpuState :=
  crLogical fun a b => !(a && b)
def crand : Register → Register → Register → CpuState → CpuState :=
  crLogical fun a b => a && b
def creqv : Register → Register → Register → CpuState → CpuState :=
  crLogical fun a b => a == b
def crorc : Register → Register → Register → CpuState → CpuState :=
  crLogical fun a b => a || !b
def cror : Register → Register → Register → CpuState → CpuState :=
  crLogical fun a b => a || b

def mfcr (rt : Register) (cpu : CpuState) : CpuState :=
  cpu.setGpr rt cpu.cr

def mtcrf (fxm : Byte) (rt : Register) (cpu : CpuState) : CpuState :=
  (List.range 8).foldl
    (fun cpu field =>
      if (fxm &&& ((1 : Byte) <<< (7 - field))) != 0 then
        let shift := 28 - field * 4
        { cpu with
          cr := (cpu.cr &&& ~~~((0xf : Word) <<< shift)) |||
            (cpu.gpr rt &&& ((0xf : Word) <<< shift)) }
      else cpu) cpu

def mcrxr (bf : BitVec 3) (cpu : CpuState) : CpuState :=
  let so := (cpu.xer &&& 0x80000000) != 0
  let ov := (cpu.xer &&& 0x40000000) != 0
  let ca := (cpu.xer &&& 0x20000000) != 0
  let nibble : Word :=
    (if so then 8 else 0) ||| (if ov then 4 else 0) ||| (if ca then 2 else 0)
  { cpu.assignCrField bf nibble with xer := cpu.xer &&& ~~~0xe0000000 }

def subfc (rt ra rb : Register) (oe rc : Bool) (cpu : CpuState) : CpuState :=
  let wide : DoubleWord :=
    (cpu.gpr rb).setWidth 64 + (~~~cpu.gpr ra).setWidth 64 + 1
  let cpu := cpu.setGpr rt (wide.setWidth 32)
  let cpu := setCarry cpu ((wide >>> 32) != 0)
  let cpu := if oe then
      setOverflow cpu (subOverflow (cpu.gpr rb) (cpu.gpr ra) (cpu.gpr rt))
    else cpu
  record rc rt cpu

def subf (rt ra rb : Register) (oe rc : Bool) (cpu : CpuState) : CpuState :=
  let cpu := cpu.setGpr rt (cpu.gpr rb - cpu.gpr ra)
  let cpu := if oe then
      setOverflow cpu (subOverflow (cpu.gpr rb) (cpu.gpr ra) (cpu.gpr rt))
    else cpu
  record rc rt cpu

def addc (rt ra rb : Register) (oe rc : Bool) (cpu : CpuState) : CpuState :=
  let wide : DoubleWord :=
    (cpu.gpr ra).setWidth 64 + (cpu.gpr rb).setWidth 64
  let cpu := cpu.setGpr rt (wide.setWidth 32)
  let cpu := setCarry cpu ((wide >>> 32) != 0)
  let cpu := if oe then
      setOverflow cpu (addOverflow (cpu.gpr ra) (cpu.gpr rb) (cpu.gpr rt))
    else cpu
  record rc rt cpu

def add (rt ra rb : Register) (oe rc : Bool) (cpu : CpuState) : CpuState :=
  let cpu := cpu.setGpr rt (cpu.gpr ra + cpu.gpr rb)
  let cpu := if oe then
      setOverflow cpu (addOverflow (cpu.gpr ra) (cpu.gpr rb) (cpu.gpr rt))
    else cpu
  record rc rt cpu

def neg (rt ra : Register) (oe rc : Bool) (cpu : CpuState) : CpuState :=
  let cpu := cpu.setGpr rt (0 - cpu.gpr ra)
  let cpu := if oe then
      setOverflow cpu (cpu.gpr ra == 0x80000000)
    else cpu
  record rc rt cpu

/-- The extended forms share one shape: a 64-bit sum with the carry in, then
the overflow test on the registers as they are after the write. -/
def extended (wide : CpuState → Bool → DoubleWord)
    (math : CpuState → Bool → Int) (rt : Register) (oe rc : Bool)
    (cpu : CpuState) : CpuState :=
  let carryIn := carrySet cpu
  let sum := wide cpu carryIn
  let cpu := cpu.setGpr rt (sum.setWidth 32)
  let cpu := setCarry cpu ((sum >>> 32) != 0)
  let cpu := if oe then
      setOverflow cpu (outsideInt32 (math cpu carryIn))
    else cpu
  record rc rt cpu

/-- `static_cast<std::uint64_t>(carryIn)` -/
def carryWord (carryIn : Bool) : DoubleWord :=
  if carryIn then 1 else 0

def subfe (rt ra rb : Register) : Bool → Bool → CpuState → CpuState :=
  extended
    (fun cpu carryIn => (cpu.gpr rb).setWidth 64 +
      (~~~cpu.gpr ra).setWidth 64 + carryWord carryIn)
    (fun cpu carryIn => (cpu.gpr rb).toInt - (cpu.gpr ra).toInt +
      if carryIn then 0 else -1) rt

def adde (rt ra rb : Register) : Bool → Bool → CpuState → CpuState :=
  extended
    (fun cpu carryIn => (cpu.gpr ra).setWidth 64 +
      (cpu.gpr rb).setWidth 64 + carryWord carryIn)
    (fun cpu carryIn => (cpu.gpr ra).toInt + (cpu.gpr rb).toInt +
      if carryIn then 1 else 0) rt

def subfme (rt ra : Register) : Bool → Bool → CpuState → CpuState :=
  extended
    (fun cpu carryIn => (~~~cpu.gpr ra).setWidth 64 +
      carryWord carryIn + 0xffffffff)
    (fun cpu carryIn => -(cpu.gpr ra).toInt +
      (if carryIn then 1 else 0) - 2) rt

def addme (rt ra : Register) : Bool → Bool → CpuState → CpuState :=
  extended
    (fun cpu carryIn => (cpu.gpr ra).setWidth 64 +
      carryWord carryIn + 0xffffffff)
    (fun cpu carryIn => (cpu.gpr ra).toInt +
      (if carryIn then 1 else 0) - 1) rt

def subfze (rt ra : Register) : Bool → Bool → CpuState → CpuState :=
  extended
    (fun cpu carryIn => (~~~cpu.gpr ra).setWidth 64 + carryWord carryIn)
    (fun cpu carryIn => -(cpu.gpr ra).toInt +
      (if carryIn then 1 else 0) - 1) rt

def addze (rt ra : Register) : Bool → Bool → CpuState → CpuState :=
  extended
    (fun cpu carryIn => (cpu.gpr ra).setWidth 64 + carryWord carryIn)
    (fun cpu carryIn => (cpu.gpr ra).toInt + if carryIn then 1 else 0) rt

def mulhwu (rt ra rb : Register) (rc : Bool) (cpu : CpuState) : CpuState :=
  let product : DoubleWord :=
    (cpu.gpr ra).setWidth 64 * (cpu.gpr rb).setWidth 64
  record rc rt (cpu.setGpr rt ((product >>> 32).setWidth 32))

def mulhw (rt ra rb : Register) (rc : Bool) (cpu : CpuState) : CpuState :=
  let product := (cpu.gpr ra).toInt * (cpu.gpr rb).toInt
  record rc rt (cpu.setGpr rt
    ((BitVec.ofInt 64 product >>> 32).setWidth 32))

def mullw (rt ra rb : Register) (oe rc : Bool) (cpu : CpuState) : CpuState :=
  let product := (cpu.gpr ra).toInt * (cpu.gpr rb).toInt
  let cpu := cpu.setGpr rt (BitVec.ofInt 32 product)
  let cpu := if oe then setOverflow cpu (outsideInt32 product) else cpu
  record rc rt cpu

def divwu (rt ra rb : Register) (oe rc : Bool) (cpu : CpuState) : CpuState :=
  let invalid := cpu.gpr rb == 0
  let cpu := cpu.setGpr rt (if invalid then 0 else cpu.gpr ra / cpu.gpr rb)
  let cpu := if oe then setOverflow cpu invalid else cpu
  record rc rt cpu

def divw (rt ra rb : Register) (oe rc : Bool) (cpu : CpuState) : CpuState :=
  let divisor := cpu.gpr rb
  let dividend := cpu.gpr ra
  let invalid := divisor == 0 ||
    (dividend == 0x80000000 && divisor == 0xffffffff)
  let cpu := cpu.setGpr rt (if invalid then 0
    else BitVec.ofInt 32 (dividend.toInt.tdiv divisor.toInt))
  let cpu := if oe then setOverflow cpu invalid else cpu
  record rc rt cpu

/-- Register logical forms: `ra = operation(rt, rb)`. -/
def logical (operation : Word → Word → Word) (ra rt rb : Register)
    (rc : Bool) (cpu : CpuState) : CpuState :=
  record rc ra (cpu.setGpr ra (operation (cpu.gpr rt) (cpu.gpr rb)))

def andForm : Register → Register → Register → Bool → CpuState → CpuState :=
  logical (· &&& ·)
def andc : Register → Register → Register → Bool → CpuState → CpuState :=
  logical fun a b => a &&& ~~~b
def nor : Register → Register → Register → Bool → CpuState → CpuState :=
  logical fun a b => ~~~(a ||| b)
def eqv : Register → Register → Register → Bool → CpuState → CpuState :=
  logical fun a b => ~~~(a ^^^ b)
def xorForm : Register → Register → Register → Bool → CpuState → CpuState :=
  logical (· ^^^ ·)
def orc : Register → Register → Register → Bool → CpuState → CpuState :=
  logical fun a b => a ||| ~~~b
def orForm : Register → Register → Register → Bool → CpuState → CpuState :=
  logical (· ||| ·)
def nand : Register → Register → Register → Bool → CpuState → CpuState :=
  logical fun a b => ~~~(a &&& b)

def slw : Register → Register → Register → Bool → CpuState → CpuState :=
  logical fun a b =>
    if (b &&& 0x20) != 0 then 0 else a <<< (b &&& 31).toNat

def srw : Register → Register → Register → Bool → CpuState → CpuState :=
  logical fun a b =>
    let shift := (b &&& 0x3f).toNat
    if 32 ≤ shift then 0 else a >>> shift

def sraw (ra rt rb : Register) (rc : Bool) (cpu : CpuState) : CpuState :=
  let shift := (cpu.gpr rb &&& 0x3f).toNat
  let source := cpu.gpr rt
  let cpu :=
    if 32 ≤ shift then
      let cpu := cpu.setGpr ra (if source.slt 0 then 0xffffffff else 0)
      setCarry cpu (source.slt 0 && cpu.gpr rt != 0)
    else if shift = 0 then
      setCarry (cpu.setGpr ra (cpu.gpr rt)) false
    else
      let cpu := cpu.setGpr ra (source.sshiftRight shift)
      let lostMask := ((1 : Word) <<< shift) - 1
      setCarry cpu (source.slt 0 && (cpu.gpr rt &&& lostMask) != 0)
  record rc ra cpu

def srawi (ra rt sh : Register) (rc : Bool) (cpu : CpuState) : CpuState :=
  let source := cpu.gpr rt
  let cpu := cpu.setGpr ra (source.sshiftRight sh.toNat)
  let lostMask := if sh = 0 then 0 else ((1 : Word) <<< sh.toNat) - 1
  let cpu := setCarry cpu (source.slt 0 && (cpu.gpr rt &&& lostMask) != 0)
  record rc ra cpu

/-- One-operand forms: `ra = operation(rt)`. -/
def unary (operation : Word → Word) (ra rt : Register) (rc : Bool)
    (cpu : CpuState) : CpuState :=
  record rc ra (cpu.setGpr ra (operation (cpu.gpr rt)))

def cntlzw : Register → Register → Bool → CpuState → CpuState :=
  unary fun a => if a == 0 then 32 else a.clz
def extsh : Register → Register → Bool → CpuState → CpuState :=
  unary fun a => (a.setWidth 16).signExtend 32
def extsb : Register → Register → Bool → CpuState → CpuState :=
  unary fun a => (a.setWidth 8).signExtend 32

end PpcLab.BuiltinInterpreter

namespace PpcLab.Instruction

variable (insn : Word)

def opcode : Nat := (insn.field 26 6).toNat
def rt : Register := insn.field 21 5
def ra : Register := insn.field 16 5
def rb : Register := insn.field 11 5
def frc : Register := insn.field 6 5
def mb : Register := insn.field 6 5
def me : Register := insn.field 1 5
def bf : BitVec 3 := insn.field 23 3
def bfa : BitVec 3 := insn.field 18 3
def fxm : Byte := insn.field 12 8
def xo : Nat := (insn.field 1 10).toNat
def xo5 : Nat := (insn.field 1 5).toNat
def rc : Bool := insn.getLsbD 0
def lk : Bool := insn.getLsbD 0
def aa : Bool := insn.getLsbD 1
def simm : Word := BuiltinInterpreter.signExtend16 insn
def uimm : Word := insn &&& 0xffff

/-- The same instruction with another `rt`. -/
def withRt (register : Register) : Word := insn.withField 21 register

/-- The same instruction with another `ra`. -/
def withRa (register : Register) : Word := insn.withField 16 register

section Replaced

variable (register : Register)

@[simp] theorem opcode_withRt : opcode (withRt insn register) = opcode insn := by
  simp [opcode, withRt, Word.field_withField_apart]
@[simp] theorem rt_withRt : rt (withRt insn register) = register := by
  simp [rt, withRt, Word.field_withField_self]
@[simp] theorem ra_withRt : ra (withRt insn register) = ra insn := by
  simp [ra, withRt, Word.field_withField_apart]
@[simp] theorem rb_withRt : rb (withRt insn register) = rb insn := by
  simp [rb, withRt, Word.field_withField_apart]
@[simp] theorem xo_withRt : xo (withRt insn register) = xo insn := by
  simp [xo, withRt, Word.field_withField_apart]
@[simp] theorem rc_withRt : rc (withRt insn register) = rc insn := by
  rw [rc, withRt, Word.getLsbD_withField _ _ _ _ (by omega), if_neg (by omega)]
  rfl

@[simp] theorem opcode_withRa : opcode (withRa insn register) = opcode insn := by
  simp [opcode, withRa, Word.field_withField_apart]
@[simp] theorem ra_withRa : ra (withRa insn register) = register := by
  simp [ra, withRa, Word.field_withField_self]
@[simp] theorem rt_withRa : rt (withRa insn register) = rt insn := by
  simp [rt, withRa, Word.field_withField_apart]
@[simp] theorem rb_withRa : rb (withRa insn register) = rb insn := by
  simp [rb, withRa, Word.field_withField_apart]
@[simp] theorem mb_withRa : mb (withRa insn register) = mb insn := by
  simp [mb, withRa, Word.field_withField_apart]
@[simp] theorem me_withRa : me (withRa insn register) = me insn := by
  simp [me, withRa, Word.field_withField_apart]
@[simp] theorem xo_withRa : xo (withRa insn register) = xo insn := by
  simp [xo, withRa, Word.field_withField_apart]
@[simp] theorem rc_withRa : rc (withRa insn register) = rc insn := by
  rw [rc, withRa, Word.getLsbD_withField _ _ _ _ (by omega), if_neg (by omega)]
  rfl

theorem uimm_eq_field : uimm insn = (insn.field 0 16).setWidth 32 := by
  apply BitVec.eq_of_getLsbD_eq
  intro index bound
  have mask : (0xffff : Word).getLsbD index = decide (index < 16) := by
    revert index
    decide
  rw [uimm, BitVec.getLsbD_and, mask, BitVec.getLsbD_setWidth,
    Word.getLsbD_field, Nat.zero_add, Bool.and_comm]
  simp [bound]

@[simp] theorem uimm_withRa : uimm (withRa insn register) = uimm insn := by
  rw [uimm_eq_field, uimm_eq_field, withRa,
    Word.field_withField_apart _ _ (by omega) (by omega)]

end Replaced

end PpcLab.Instruction
