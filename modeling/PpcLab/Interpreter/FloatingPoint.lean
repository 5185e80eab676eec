import PpcLab.Interpreter.Instruction

/-!
# Floating-point instructions

Register-to-register floating point.  Single-precision forms compute in double
precision and round the result to a float.
-/

namespace PpcLab.BuiltinInterpreter

open Ieee754

namespace FloatingPoint

variable (host : Host)

def add (a b : DoubleWord) : DoubleWord :=
  .ofNat 64 (Ieee754.add binary64 (host.nan [a, b]).toNat a.toNat b.toNat)

def sub (a b : DoubleWord) : DoubleWord :=
  .ofNat 64 (Ieee754.sub binary64 (host.nan [a, b]).toNat a.toNat b.toNat)

def mul (a b : DoubleWord) : DoubleWord :=
  .ofNat 64 (Ieee754.mul binary64 (host.nan [a, b]).toNat a.toNat b.toNat)

def div (a b : DoubleWord) : DoubleWord :=
  .ofNat 64 (Ieee754.div binary64 (host.nan [a, b]).toNat a.toNat b.toNat)

def sqrt (a : DoubleWord) : DoubleWord :=
  .ofNat 64 (Ieee754.sqrt binary64 (host.nan [a]).toNat a.toNat)

def fma (a b c : DoubleWord) : DoubleWord :=
  .ofNat 64 (Ieee754.fma binary64 (host.nan [a, b, c]).toNat
    a.toNat b.toNat c.toNat)

def roundIntegral (rounding : Rounding) (a : DoubleWord) : DoubleWord :=
  .ofNat 64 (Ieee754.roundIntegral binary64 rounding
    (host.nan [a]).toNat a.toNat)

/-- `static_cast<float>(value)`, as the bits of the float. -/
def toSingle (a : DoubleWord) : Word :=
  .ofNat 32 (convert binary64 binary32 (host.nanToSingle a).toNat a.toNat)

/-- `static_cast<double>(std::bit_cast<float>(bits))` -/
def toDouble (a : Word) : DoubleWord :=
  .ofNat 64 (convert binary32 binary64 (host.nanToDouble a).toNat a.toNat)

def singleResult (value : DoubleWord) : DoubleWord :=
  toDouble host (toSingle host value)

def neg (a : DoubleWord) : DoubleWord :=
  .ofNat 64 (Ieee754.neg binary64 a.toNat)

def fabs (a : DoubleWord) : DoubleWord :=
  .ofNat 64 (Ieee754.abs binary64 a.toNat)

def isNaN (a : DoubleWord) : Bool :=
  binary64.isNaN a.toNat

def lt (a b : DoubleWord) : Bool :=
  Ieee754.lt binary64 a.toNat b.toNat

def eq (a b : DoubleWord) : Bool :=
  Ieee754.eq binary64 a.toNat b.toNat

def one : DoubleWord := 0x3ff0000000000000

/-- `static_cast<double>(value)` -/
def ofInt (value : Int) : DoubleWord :=
  .ofNat 64 (Ieee754.ofInt binary64 value)

end FloatingPoint

open FloatingPoint

/-- `fpr[frt] = result`, then CR1 from FPSCR when `rc` is set. -/
def assignFpr (frt : Register) (result : DoubleWord) (rc : Bool)
    (cpu : CpuState) : CpuState :=
  let cpu := cpu.setFpr frt result
  if rc then updateCr1FromFpscr cpu else cpu

section SinglePrecision

variable (host : Host) (frt fra frb frc : Register) (rc : Bool)
  (cpu : CpuState)

def fdivs : CpuState :=
  assignFpr frt (singleResult host (div host (cpu.fpr fra) (cpu.fpr frb)))
    rc cpu
def fsubs : CpuState :=
  assignFpr frt (singleResult host (sub host (cpu.fpr fra) (cpu.fpr frb)))
    rc cpu
def fadds : CpuState :=
  assignFpr frt
    (singleResult host (FloatingPoint.add host (cpu.fpr fra) (cpu.fpr frb)))
    rc cpu
def fsqrts : CpuState :=
  assignFpr frt (singleResult host (sqrt host (cpu.fpr frb))) rc cpu
def fres : CpuState :=
  assignFpr frt (singleResult host (div host one (cpu.fpr frb))) rc cpu
def fmuls : CpuState :=
  assignFpr frt (singleResult host (mul host (cpu.fpr fra) (cpu.fpr frc)))
    rc cpu
def fmsubs : CpuState :=
  assignFpr frt
    (singleResult host (fma host (cpu.fpr fra) (cpu.fpr frc)
      (FloatingPoint.neg (cpu.fpr frb)))) rc cpu
def fmadds : CpuState :=
  assignFpr frt
    (singleResult host (fma host (cpu.fpr fra) (cpu.fpr frc) (cpu.fpr frb)))
    rc cpu
def fnmsubs : CpuState :=
  assignFpr frt
    (singleResult host (FloatingPoint.neg
      (fma host (cpu.fpr fra) (cpu.fpr frc)
        (FloatingPoint.neg (cpu.fpr frb))))) rc cpu
def fnmadds : CpuState :=
  assignFpr frt
    (singleResult host (FloatingPoint.neg
      (fma host (cpu.fpr fra) (cpu.fpr frc) (cpu.fpr frb)))) rc cpu

end SinglePrecision

section DoublePrecision

variable (host : Host) (frt fra frb frc : Register) (rc : Bool)
  (cpu : CpuState)

def fsqrt : CpuState :=
  assignFpr frt (sqrt host (cpu.fpr frb)) rc cpu
def fsel : CpuState :=
  assignFpr frt
    (if !isNaN (cpu.fpr fra) && !lt (cpu.fpr fra) 0 then cpu.fpr frc
      else cpu.fpr frb) rc cpu
def fmul : CpuState :=
  assignFpr frt (mul host (cpu.fpr fra) (cpu.fpr frc)) rc cpu
def frsqrte : CpuState :=
  assignFpr frt (div host one (sqrt host (cpu.fpr frb))) rc cpu
def fmsub : CpuState :=
  assignFpr frt
    (fma host (cpu.fpr fra) (cpu.fpr frc) (FloatingPoint.neg (cpu.fpr frb)))
    rc cpu
def fmadd : CpuState :=
  assignFpr frt (fma host (cpu.fpr fra) (cpu.fpr frc) (cpu.fpr frb)) rc cpu
def fnmsub : CpuState :=
  assignFpr frt
    (FloatingPoint.neg (fma host (cpu.fpr fra) (cpu.fpr frc)
      (FloatingPoint.neg (cpu.fpr frb)))) rc cpu
def fnmadd : CpuState :=
  assignFpr frt
    (FloatingPoint.neg
      (fma host (cpu.fpr fra) (cpu.fpr frc) (cpu.fpr frb))) rc cpu
def fdiv : CpuState :=
  assignFpr frt (div host (cpu.fpr fra) (cpu.fpr frb)) rc cpu
def fsub : CpuState :=
  assignFpr frt (sub host (cpu.fpr fra) (cpu.fpr frb)) rc cpu
def fadd : CpuState :=
  assignFpr frt (FloatingPoint.add host (cpu.fpr fra) (cpu.fpr frb)) rc cpu
def frsp : CpuState :=
  assignFpr frt (singleResult host (cpu.fpr frb)) rc cpu
def fneg : CpuState :=
  assignFpr frt (FloatingPoint.neg (cpu.fpr frb)) rc cpu
def fmr : CpuState :=
  assignFpr frt (cpu.fpr frb) rc cpu
def fnabs : CpuState :=
  assignFpr frt (FloatingPoint.neg (fabs (cpu.fpr frb))) rc cpu
def fabsForm : CpuState :=
  assignFpr frt (fabs (cpu.fpr frb)) rc cpu
def mffs : CpuState :=
  assignFpr frt (0xffffffff00000000 ||| cpu.fpscr.setWidth 64) rc cpu

end DoublePrecision

/-- `fcmpu` and `fcmpo` -/
def fcmp (bf : BitVec 3) (fra frb : Register) (cpu : CpuState) : CpuState :=
  let a := cpu.fpr fra
  let b := cpu.fpr frb
  if isNaN a || isNaN b then cpu.setCrField bf false false false true
  else cpu.setCrField bf (lt a b) (lt b a) (eq a b) false

/-- The rounding mode FPSCR selects. -/
def fpscrRounding (fpscr : Word) : Rounding :=
  match (fpscr &&& 3).toNat with
  | 1 => .trunc
  | 2 => .ceil
  | 3 => .floor
  | _ => .nearbyint

/-- `fctiw` and `fctiwz`, given the rounding mode. -/
def fctiwWith (host : Host) (rounding : Rounding) (frt frb : Register)
    (rc : Bool) (cpu : CpuState) : CpuState :=
  let rounded := roundIntegral host rounding (cpu.fpr frb)
  let integer : Int :=
    if isNaN rounded then -2147483648
    else if lt (ofInt 2147483647) rounded then 2147483647
    else if lt rounded (ofInt (-2147483648)) then -2147483648
    else toInt binary64 rounded.toNat
  assignFpr frt
    (0xffffffff00000000 ||| (BitVec.ofInt 32 integer).setWidth 64) rc cpu

def fctiw (host : Host) (frt frb : Register) (rc : Bool) (cpu : CpuState) :
    CpuState :=
  fctiwWith host (fpscrRounding cpu.fpscr) frt frb rc cpu

def fctiwz (host : Host) (frt frb : Register) (rc : Bool) (cpu : CpuState) :
    CpuState :=
  fctiwWith host .trunc frt frb rc cpu

end PpcLab.BuiltinInterpreter
