import PpcLab.Interpreter.Instruction
import PpcLab.Library.Text

/-!
# Disassembler

`disassemble` has its own opcode tables, separate from those of the executor.
Words it does not know become a placeholder line.
-/

namespace PpcLab.BuiltinInterpreter

open Instruction Text

def target26 (pc insn : Word) : Word :=
  if aa insn then signExtend26 insn else pc + signExtend26 insn

def target14 (pc insn : Word) : Word :=
  if aa insn then signExtend14Shift2 insn else pc + signExtend14Shift2 insn

namespace Operand

def number {width : Nat} (value : BitVec width) : String :=
  decimal value.toNat
def r (register : Register) : String := "r" ++ decimal register.toNat
def f (register : Register) : String := "f" ++ decimal register.toNat
def cr (field : BitVec 3) : String := "cr" ++ decimal field.toNat
def signed (value : Word) : String := signedDecimal value.toInt
def prefixedHex {width : Nat} (value : BitVec width) : String :=
  "0x" ++ hex value.toNat
def address (value : Word) : String := hex32 value.toNat
def displacement (simm : Word) (ra : Register) : String :=
  signedDecimal simm.toInt ++ "(r" ++ decimal ra.toNat ++ ")"

end Operand

open Operand

/-- The record suffix. -/
def recordDot (insn : Word) : String :=
  if rc insn then "." else ""

def unknownWord (insn : Word) (note : String) : Line :=
  ⟨".long", [address insn ++ "  # " ++ note]⟩

section Layouts

variable (mnemonic : String) (insn : Word)

def rtRaSimm : Line :=
  ⟨mnemonic, [r (rt insn), r (ra insn), signed (simm insn)]⟩
def raRtUimm : Line :=
  ⟨mnemonic, [r (ra insn), r (rt insn), prefixedHex (uimm insn)]⟩
def raRtShMbMe : Line :=
  ⟨mnemonic ++ recordDot insn, [r (ra insn), r (rt insn),
    number (rb insn), number (mb insn), number (me insn)]⟩
def rtDisplacement : Line :=
  ⟨mnemonic, [r (rt insn), displacement (simm insn) (ra insn)]⟩
def frtDisplacement : Line :=
  ⟨mnemonic, [f (rt insn), displacement (simm insn) (ra insn)]⟩
def crBits : Line :=
  ⟨mnemonic, [number (rt insn), number (ra insn), number (rb insn)]⟩
def bfRaRb : Line :=
  ⟨mnemonic, [cr (bf insn), r (ra insn), r (rb insn)]⟩
def rtRaRb : Line :=
  ⟨mnemonic, [r (rt insn), r (ra insn), r (rb insn)]⟩
def rtRaRbRecord : Line :=
  ⟨mnemonic ++ recordDot insn, [r (rt insn), r (ra insn), r (rb insn)]⟩
def raRtRbRecord : Line :=
  ⟨mnemonic ++ recordDot insn, [r (ra insn), r (rt insn), r (rb insn)]⟩
def rtRaRecord : Line :=
  ⟨mnemonic ++ recordDot insn, [r (rt insn), r (ra insn)]⟩
def raRtRecord : Line :=
  ⟨mnemonic ++ recordDot insn, [r (ra insn), r (rt insn)]⟩
def raRb : Line :=
  ⟨mnemonic, [r (ra insn), r (rb insn)]⟩
def frtRaRb : Line :=
  ⟨mnemonic, [f (rt insn), r (ra insn), r (rb insn)]⟩
def bfFraFrb : Line :=
  ⟨mnemonic, [cr (bf insn), f (ra insn), f (rb insn)]⟩
def frtFraFrb : Line :=
  ⟨mnemonic, [f (rt insn), f (ra insn), f (rb insn)]⟩
def frtFraFrbRecord : Line :=
  ⟨mnemonic ++ recordDot insn, [f (rt insn), f (ra insn), f (rb insn)]⟩
def frtFrbRecord : Line :=
  ⟨mnemonic ++ recordDot insn, [f (rt insn), f (rb insn)]⟩

end Layouts

def disassemble19 (insn : Word) : Line :=
  let bo := rt insn
  let bi := ra insn
  match xo insn with
  | 16 =>
      if bo = 20 ∧ bi = 0 ∧ lk insn = false then ⟨"blr", []⟩
      else ⟨if lk insn then "bclrl" else "bclr", [number bo, number bi]⟩
  | 528 =>
      if bo = 20 ∧ bi = 0 ∧ lk insn = false then ⟨"bctr", []⟩
      else ⟨if lk insn then "bcctrl" else "bcctr", [number bo, number bi]⟩
  | 0 => ⟨"mcrf", [cr (bf insn), cr (bfa insn)]⟩
  | 33 => crBits "crnor" insn
  | 129 => crBits "crandc" insn
  | 193 => crBits "crxor" insn
  | 225 => crBits "crnand" insn
  | 257 => crBits "crand" insn
  | 289 => crBits "creqv" insn
  | 417 => crBits "crorc" insn
  | 449 => crBits "cror" insn
  | 150 => ⟨"isync", []⟩
  | other => unknownWord insn ("opcode19 xo=" ++ decimal other)

def disassemble31 (insn : Word) : Line :=
  match xo insn with
  | 0 => bfRaRb "cmpw" insn
  | 4 => ⟨"tw", [number (rt insn), r (ra insn), r (rb insn)]⟩
  | 8 => rtRaRbRecord "subfc" insn
  | 520 => rtRaRbRecord "subfco" insn
  | 11 => rtRaRbRecord "mulhwu" insn
  | 20 => rtRaRb "lwarx" insn
  | 10 => rtRaRbRecord "addc" insn
  | 522 => rtRaRbRecord "addco" insn
  | 19 => ⟨"mfcr", [r (rt insn)]⟩
  | 23 => rtRaRb "lwzx" insn
  | 55 => rtRaRb "lwzux" insn
  | 54 => raRb "dcbst" insn
  | 60 => raRtRbRecord "andc" insn
  | 75 => rtRaRbRecord "mulhw" insn
  | 86 => raRb "dcbf" insn
  | 24 => raRtRbRecord "slw" insn
  | 26 => raRtRecord "cntlzw" insn
  | 28 => raRtRbRecord "and" insn
  | 32 => bfRaRb "cmplw" insn
  | 40 => rtRaRbRecord "subf" insn
  | 87 => rtRaRb "lbzx" insn
  | 119 => rtRaRb "lbzux" insn
  | 124 => raRtRbRecord "nor" insn
  | 150 => rtRaRb "stwcx." insn
  | 104 => rtRaRecord "neg" insn
  | 616 => rtRaRecord "nego" insn
  | 136 => rtRaRbRecord "subfe" insn
  | 648 => rtRaRbRecord "subfeo" insn
  | 138 => rtRaRbRecord "adde" insn
  | 650 => rtRaRbRecord "addeo" insn
  | 144 => ⟨"mtcrf", [prefixedHex (fxm insn), "r" ++ hex (rt insn).toNat]⟩
  | 151 => rtRaRb "stwx" insn
  | 183 => rtRaRb "stwux" insn
  | 200 => rtRaRecord "subfze" insn
  | 712 => rtRaRecord "subfzeo" insn
  | 232 => rtRaRecord "subfme" insn
  | 744 => rtRaRecord "subfmeo" insn
  | 202 => rtRaRecord "addze" insn
  | 714 => rtRaRecord "addzeo" insn
  | 234 => rtRaRecord "addme" insn
  | 746 => rtRaRecord "addmeo" insn
  | 215 => rtRaRb "stbx" insn
  | 247 => rtRaRb "stbux" insn
  | 246 => raRb "dcbtst" insn
  | 235 => rtRaRbRecord "mullw" insn
  | 747 => rtRaRbRecord "mullwo" insn
  | 278 => raRb "dcbt" insn
  | 266 => rtRaRbRecord "add" insn
  | 778 => rtRaRbRecord "addo" insn
  | 284 => raRtRbRecord "eqv" insn
  | 279 => rtRaRb "lhzx" insn
  | 331 => rtRaRb "lhzux" insn
  | 343 => rtRaRb "lhax" insn
  | 375 => rtRaRb "lhaux" insn
  | 316 => raRtRbRecord "xor" insn
  | 339 => ⟨"mfspr", [r (rt insn), decimal (sprNumber insn)]⟩
  | 407 => rtRaRb "sthx" insn
  | 412 => raRtRbRecord "orc" insn
  | 439 => rtRaRb "sthux" insn
  | 444 =>
      if rt insn = rb insn then ⟨"mr", [r (ra insn), r (rt insn)]⟩
      else raRtRbRecord "or" insn
  | 459 => rtRaRbRecord "divwu" insn
  | 971 => rtRaRbRecord "divwuo" insn
  | 476 => raRtRbRecord "nand" insn
  | 467 => ⟨"mtspr", [decimal (sprNumber insn), r (rt insn)]⟩
  | 491 => rtRaRbRecord "divw" insn
  | 1003 => rtRaRbRecord "divwo" insn
  | 512 => ⟨"mcrxr", [cr (bf insn)]⟩
  | 534 => rtRaRb "lwbrx" insn
  | 535 => frtRaRb "lfsx" insn
  | 536 => raRtRbRecord "srw" insn
  | 662 => rtRaRb "stwbrx" insn
  | 567 => frtRaRb "lfsux" insn
  | 598 => ⟨"sync", []⟩
  | 790 => rtRaRb "lhbrx" insn
  | 792 => raRtRbRecord "sraw" insn
  | 854 => ⟨"eieio", []⟩
  | 918 => rtRaRb "sthbrx" insn
  | 599 => frtRaRb "lfdx" insn
  | 631 => frtRaRb "lfdux" insn
  | 663 => frtRaRb "stfsx" insn
  | 695 => frtRaRb "stfsux" insn
  | 727 => frtRaRb "stfdx" insn
  | 759 => frtRaRb "stfdux" insn
  | 824 =>
      ⟨"srawi" ++ recordDot insn,
        [r (ra insn), r (rt insn), number (rb insn)]⟩
  | 922 => raRtRecord "extsh" insn
  | 954 => raRtRecord "extsb" insn
  | 982 => raRb "icbi" insn
  | 983 => frtRaRb "stfiwx" insn
  | 1014 => raRb "dcbz" insn
  | other => unknownWord insn ("opcode31 xo=" ++ decimal other)

def disassemble59 (insn : Word) : Line :=
  match xo5 insn with
  | 18 => frtFraFrbRecord "fdivs" insn
  | 20 => frtFraFrbRecord "fsubs" insn
  | 21 => frtFraFrbRecord "fadds" insn
  | 22 => frtFrbRecord "fsqrts" insn
  | 24 => frtFrbRecord "fres" insn
  | 25 => ⟨"fmuls" ++ recordDot insn, [f (rt insn), f (frc insn)]⟩
  | other =>
      ⟨"fp59", ["xo=" ++ decimal other ++ " " ++ f (rt insn),
        f (ra insn), f (rb insn)]⟩

def disassemble63 (insn : Word) : Line :=
  match xo insn with
  | 0 => bfFraFrb "fcmpu" insn
  | 12 => frtFrbRecord "frsp" insn
  | 14 => frtFrbRecord "fctiw" insn
  | 15 => frtFrbRecord "fctiwz" insn
  | 18 => frtFraFrb "fdiv" insn
  | 20 => frtFraFrb "fsub" insn
  | 21 => frtFraFrbRecord "fadd" insn
  | 22 => frtFrbRecord "fsqrt" insn
  | 23 =>
      ⟨"fsel" ++ recordDot insn,
        [f (rt insn), f (ra insn), f (frc insn), f (rb insn)]⟩
  | 26 => frtFrbRecord "frsqrte" insn
  | 32 => bfFraFrb "fcmpo" insn
  | 40 => frtFrbRecord "fneg" insn
  | 72 => frtFrbRecord "fmr" insn
  | 136 => frtFrbRecord "fnabs" insn
  | 264 => frtFrbRecord "fabs" insn
  | 583 => ⟨"mffs" ++ recordDot insn, [f (rt insn)]⟩
  | other =>
      ⟨"fp63", ["xo=" ++ decimal other ++ " " ++ f (rt insn),
        f (ra insn), f (rb insn)]⟩

def disassembleLine (pc insn : Word) : Line :=
  match opcode insn with
  | 3 => ⟨"twi", [number (rt insn), r (ra insn), signed (simm insn)]⟩
  | 7 => rtRaSimm "mulli" insn
  | 8 => rtRaSimm "subfic" insn
  | 10 => ⟨"cmplwi", [cr (bf insn), r (ra insn), number (uimm insn)]⟩
  | 11 => ⟨"cmpwi", [cr (bf insn), r (ra insn), signed (simm insn)]⟩
  | 12 => rtRaSimm "addic" insn
  | 13 => rtRaSimm "addic." insn
  | 14 =>
      if ra insn = 0 then ⟨"li", [r (rt insn), signed (simm insn)]⟩
      else rtRaSimm "addi" insn
  | 15 =>
      if ra insn = 0 then ⟨"lis", [r (rt insn), signed (simm insn)]⟩
      else rtRaSimm "addis" insn
  | 16 =>
      ⟨if lk insn then "bcl" else "bc",
        [number (rt insn), number (ra insn), address (target14 pc insn)]⟩
  | 17 => ⟨"sc", []⟩
  | 18 => ⟨if lk insn then "bl" else "b", [address (target26 pc insn)]⟩
  | 19 => disassemble19 insn
  | 20 => raRtShMbMe "rlwimi" insn
  | 21 => raRtShMbMe "rlwinm" insn
  | 23 =>
      ⟨"rlwnm" ++ recordDot insn, [r (ra insn), r (rt insn), r (rb insn),
        number (mb insn), number (me insn)]⟩
  | 24 =>
      if rt insn = 0 ∧ ra insn = 0 ∧ uimm insn = 0 then ⟨"nop", []⟩
      else raRtUimm "ori" insn
  | 25 => raRtUimm "oris" insn
  | 26 => raRtUimm "xori" insn
  | 27 => raRtUimm "xoris" insn
  | 28 => raRtUimm "andi." insn
  | 29 => raRtUimm "andis." insn
  | 31 => disassemble31 insn
  | 32 => rtDisplacement "lwz" insn
  | 33 => rtDisplacement "lwzu" insn
  | 34 => rtDisplacement "lbz" insn
  | 35 => rtDisplacement "lbzu" insn
  | 36 => rtDisplacement "stw" insn
  | 37 => rtDisplacement "stwu" insn
  | 38 => rtDisplacement "stb" insn
  | 39 => rtDisplacement "stbu" insn
  | 40 => rtDisplacement "lhz" insn
  | 41 => rtDisplacement "lhzu" insn
  | 42 => rtDisplacement "lha" insn
  | 43 => rtDisplacement "lhau" insn
  | 44 => rtDisplacement "sth" insn
  | 45 => rtDisplacement "sthu" insn
  | 46 => rtDisplacement "lmw" insn
  | 47 => rtDisplacement "stmw" insn
  | 48 => frtDisplacement "lfs" insn
  | 49 => frtDisplacement "lfsu" insn
  | 50 => frtDisplacement "lfd" insn
  | 51 => frtDisplacement "lfdu" insn
  | 52 => frtDisplacement "stfs" insn
  | 53 => frtDisplacement "stfsu" insn
  | 54 => frtDisplacement "stfd" insn
  | 55 => frtDisplacement "stfdu" insn
  | 59 => disassemble59 insn
  | 63 => disassemble63 insn
  | other => unknownWord insn ("opcode=" ++ decimal other)

def disassemble (pc insn : Word) : String :=
  (disassembleLine pc insn).text

end PpcLab.BuiltinInterpreter
