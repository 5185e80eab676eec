import PpcLab.Interpreter.Branch

/-!
# Executing one instruction

The dispatch of the interpreter on the primary opcode and on the extended
opcodes of groups 19, 31, 59 and 63.  The program counter has already been
advanced when an instruction executes; `currentPc` is its own address.
-/

namespace PpcLab.BuiltinInterpreter

open Instruction Text

def unsupported (currentPc : Word) (message : String) (machine : Machine) :
    Turn Machine Fault :=
  fault .unsupportedInstruction currentPc message machine

def execute19 (host : Host) (config : ExecutionConfig) (currentPc insn : Word)
    (machine : Machine) : Turn Machine Fault :=
  let rt := rt insn
  let ra := ra insn
  let rb := rb insn
  match xo insn with
  | 16 => onCpu (bclr rt ra (lk insn)) machine
  | 528 => bcctr host config rt ra (lk insn) machine
  | 0 => onCpu (mcrf (bf insn) (bfa insn)) machine
  | 33 => onCpu (crnor rt ra rb) machine
  | 129 => onCpu (crandc rt ra rb) machine
  | 193 => onCpu (crxor rt ra rb) machine
  | 225 => onCpu (crnand rt ra rb) machine
  | 257 => onCpu (crand rt ra rb) machine
  | 289 => onCpu (creqv rt ra rb) machine
  | 417 => onCpu (crorc rt ra rb) machine
  | 449 => onCpu (cror rt ra rb) machine
  | 150 => .next machine
  | xo =>
      unsupported currentPc ("unsupported opcode 19 XO=" ++ decimal xo)
        machine

def execute31 (host : Host) (config : ExecutionConfig) (currentPc insn : Word)
    (machine : Machine) : Turn Machine Fault :=
  let rt := rt insn
  let ra := ra insn
  let rb := rb insn
  let rc := rc insn
  match xo insn with
  | 0 => onCpu (cmpw (bf insn) ra rb) machine
  | 4 => tw config rt ra rb currentPc machine
  | 11 => onCpu (mulhwu rt ra rb rc) machine
  | 20 => lwarx rt ra rb currentPc machine
  | 8 => onCpu (subfc rt ra rb false rc) machine
  | 520 => onCpu (subfc rt ra rb true rc) machine
  | 40 => onCpu (subf rt ra rb false rc) machine
  | 552 => onCpu (subf rt ra rb true rc) machine
  | 10 => onCpu (addc rt ra rb false rc) machine
  | 522 => onCpu (addc rt ra rb true rc) machine
  | 266 => onCpu (add rt ra rb false rc) machine
  | 778 => onCpu (add rt ra rb true rc) machine
  | 19 => onCpu (mfcr rt) machine
  | 23 => lwzx rt ra rb currentPc machine
  | 55 => lwzux rt ra rb currentPc machine
  | 60 => onCpu (andc ra rt rb rc) machine
  | 75 => onCpu (mulhw rt ra rb rc) machine
  | 54 => .next machine
  | 86 => .next machine
  | 246 => .next machine
  | 278 => .next machine
  | 24 => onCpu (slw ra rt rb rc) machine
  | 26 => onCpu (cntlzw ra rt rc) machine
  | 28 => onCpu (andForm ra rt rb rc) machine
  | 32 => onCpu (cmplw (bf insn) ra rb) machine
  | 87 => lbzx rt ra rb currentPc machine
  | 119 => lbzux rt ra rb currentPc machine
  | 124 => onCpu (nor ra rt rb rc) machine
  | 150 => stwcx rt ra rb currentPc machine
  | 183 => stwux rt ra rb currentPc machine
  | 104 => onCpu (neg rt ra false rc) machine
  | 616 => onCpu (neg rt ra true rc) machine
  | 136 => onCpu (subfe rt ra rb false rc) machine
  | 648 => onCpu (subfe rt ra rb true rc) machine
  | 138 => onCpu (adde rt ra rb false rc) machine
  | 650 => onCpu (adde rt ra rb true rc) machine
  | 144 => onCpu (mtcrf (fxm insn) rt) machine
  | 151 => stwx rt ra rb currentPc machine
  | 232 => onCpu (subfme rt ra false rc) machine
  | 744 => onCpu (subfme rt ra true rc) machine
  | 234 => onCpu (addme rt ra false rc) machine
  | 746 => onCpu (addme rt ra true rc) machine
  | 200 => onCpu (subfze rt ra false rc) machine
  | 712 => onCpu (subfze rt ra true rc) machine
  | 202 => onCpu (addze rt ra false rc) machine
  | 714 => onCpu (addze rt ra true rc) machine
  | 215 => stbx rt ra rb currentPc machine
  | 247 => stbux rt ra rb currentPc machine
  | 235 => onCpu (mullw rt ra rb false rc) machine
  | 747 => onCpu (mullw rt ra rb true rc) machine
  | 279 => lhzx rt ra rb currentPc machine
  | 284 => onCpu (eqv ra rt rb rc) machine
  | 331 => lhzux rt ra rb currentPc machine
  | 343 => lhax rt ra rb currentPc machine false
  | 375 => lhax rt ra rb currentPc machine true
  | 316 => onCpu (xorForm ra rt rb rc) machine
  | 339 => mfspr rt (sprNumber insn) currentPc machine
  | 407 => sthx rt ra rb currentPc machine
  | 412 => onCpu (orc ra rt rb rc) machine
  | 439 => sthux rt ra rb currentPc machine
  | 444 => onCpu (orForm ra rt rb rc) machine
  | 476 => onCpu (nand ra rt rb rc) machine
  | 459 => onCpu (divwu rt ra rb false rc) machine
  | 971 => onCpu (divwu rt ra rb true rc) machine
  | 491 => onCpu (divw rt ra rb false rc) machine
  | 1003 => onCpu (divw rt ra rb true rc) machine
  | 534 => lwbrx rt ra rb currentPc machine
  | 535 => lfsx rt ra rb currentPc machine host false
  | 567 => lfsx rt ra rb currentPc machine host true
  | 599 => lfdx rt ra rb currentPc machine false
  | 631 => lfdx rt ra rb currentPc machine true
  | 662 => stwbrx rt ra rb currentPc machine
  | 663 => stfsx rt ra rb currentPc machine host false
  | 695 => stfsx rt ra rb currentPc machine host true
  | 727 => stfdx rt ra rb currentPc machine false
  | 759 => stfdx rt ra rb currentPc machine true
  | 512 => onCpu (mcrxr (bf insn)) machine
  | 467 => mtspr rt (sprNumber insn) currentPc machine
  | 536 => onCpu (srw ra rt rb rc) machine
  | 598 => .next machine
  | 790 => lhbrx rt ra rb currentPc machine
  | 792 => onCpu (sraw ra rt rb rc) machine
  | 824 => onCpu (srawi ra rt rb rc) machine
  | 854 => .next machine
  | 918 => sthbrx rt ra rb currentPc machine
  | 922 => onCpu (extsh ra rt rc) machine
  | 954 => onCpu (extsb ra rt rc) machine
  | 982 => .next machine
  | 983 => stfiwx rt ra rb currentPc machine
  | 1014 => dcbz ra rb currentPc machine
  | xo =>
      unsupported currentPc ("unsupported opcode 31 XO=" ++ decimal xo)
        machine

def execute59 (host : Host) (currentPc insn : Word) (machine : Machine) :
    Turn Machine Fault :=
  let frt := rt insn
  let fra := ra insn
  let frb := rb insn
  let frc := frc insn
  let rc := rc insn
  match xo5 insn with
  | 18 => onCpu (fdivs host frt fra frb rc) machine
  | 20 => onCpu (fsubs host frt fra frb rc) machine
  | 21 => onCpu (fadds host frt fra frb rc) machine
  | 22 => onCpu (fsqrts host frt frb rc) machine
  | 24 => onCpu (fres host frt frb rc) machine
  | 25 => onCpu (fmuls host frt fra frc rc) machine
  | 28 => onCpu (fmsubs host frt fra frb frc rc) machine
  | 29 => onCpu (fmadds host frt fra frb frc rc) machine
  | 30 => onCpu (fnmsubs host frt fra frb frc rc) machine
  | 31 => onCpu (fnmadds host frt fra frb frc rc) machine
  | xo =>
      unsupported currentPc ("unsupported opcode 59 XO=" ++ decimal xo)
        machine

/-- The forms of group 63 that are selected by all ten bits. -/
def execute63x (host : Host) (currentPc insn : Word) (machine : Machine) :
    Turn Machine Fault :=
  let frt := rt insn
  let fra := ra insn
  let frb := rb insn
  let rc := rc insn
  match xo insn with
  | 0 => onCpu (fcmp (bf insn) fra frb) machine
  | 32 => onCpu (fcmp (bf insn) fra frb) machine
  | 12 => onCpu (frsp host frt frb rc) machine
  | 14 => onCpu (fctiw host frt frb rc) machine
  | 15 => onCpu (fctiwz host frt frb rc) machine
  | 18 => onCpu (fdiv host frt fra frb rc) machine
  | 20 => onCpu (fsub host frt fra frb rc) machine
  | 21 => onCpu (fadd host frt fra frb rc) machine
  | 40 => onCpu (fneg frt frb rc) machine
  | 72 => onCpu (fmr frt frb rc) machine
  | 136 => onCpu (fnabs frt frb rc) machine
  | 264 => onCpu (fabsForm frt frb rc) machine
  | 583 => onCpu (mffs frt rc) machine
  | xo =>
      unsupported currentPc ("unsupported opcode 63 XO=" ++ decimal xo)
        machine

/-- Group 63: the low five bits of the extended opcode are tried first. -/
def execute63 (host : Host) (currentPc insn : Word) (machine : Machine) :
    Turn Machine Fault :=
  let frt := rt insn
  let fra := ra insn
  let frb := rb insn
  let frc := frc insn
  let rc := rc insn
  match xo5 insn with
  | 22 => onCpu (fsqrt host frt frb rc) machine
  | 23 => onCpu (fsel frt fra frb frc rc) machine
  | 25 => onCpu (fmul host frt fra frc rc) machine
  | 26 => onCpu (frsqrte host frt frb rc) machine
  | 28 => onCpu (fmsub host frt fra frb frc rc) machine
  | 29 => onCpu (fmadd host frt fra frb frc rc) machine
  | 30 => onCpu (fnmsub host frt fra frb frc rc) machine
  | 31 => onCpu (fnmadd host frt fra frb frc rc) machine
  | _ => execute63x host currentPc insn machine

def execute (host : Host) (config : ExecutionConfig) (currentPc insn : Word)
    (machine : Machine) : Turn Machine Fault :=
  let rt := rt insn
  let ra := ra insn
  let rb := rb insn
  let simm := simm insn
  let uimm := uimm insn
  let rc := rc insn
  match opcode insn with
  | 3 => twi config rt ra simm currentPc machine
  | 7 => onCpu (mulli rt ra simm) machine
  | 8 => onCpu (subfic rt ra simm) machine
  | 10 => onCpu (cmplwi (bf insn) ra uimm) machine
  | 11 => onCpu (cmpwi (bf insn) ra simm) machine
  | 12 => onCpu (addic rt ra simm false) machine
  | 13 => onCpu (addic rt ra simm true) machine
  | 14 => onCpu (addi rt ra simm) machine
  | 15 => onCpu (addis rt ra simm) machine
  | 16 =>
      onCpu (bc rt ra (signExtend14Shift2 insn) (aa insn) (lk insn) currentPc)
        machine
  | 17 => sc config currentPc machine
  | 18 =>
      onCpu (branch (signExtend26 insn) (aa insn) (lk insn) currentPc) machine
  | 19 => execute19 host config currentPc insn machine
  | 20 => onCpu (rlwimi ra rt rb (mb insn) (me insn) rc) machine
  | 21 => onCpu (rlwinm ra rt rb (mb insn) (me insn) rc) machine
  | 23 => onCpu (rlwnm ra rt rb (mb insn) (me insn) rc) machine
  | 24 => onCpu (ori ra rt uimm) machine
  | 25 => onCpu (oris ra rt uimm) machine
  | 26 => onCpu (xori ra rt uimm) machine
  | 27 => onCpu (xoris ra rt uimm) machine
  | 28 => onCpu (andi ra rt uimm) machine
  | 29 => onCpu (andis ra rt uimm) machine
  | 31 => execute31 host config currentPc insn machine
  | 32 => lwz rt ra simm false currentPc machine
  | 33 => lwz rt ra simm true currentPc machine
  | 34 => lbz rt ra simm false currentPc machine
  | 35 => lbz rt ra simm true currentPc machine
  | 36 => stw rt ra simm false currentPc machine
  | 37 => stw rt ra simm true currentPc machine
  | 38 => stb rt ra simm false currentPc machine
  | 39 => stb rt ra simm true currentPc machine
  | 40 => lhz rt ra simm false currentPc machine
  | 41 => lhz rt ra simm true currentPc machine
  | 42 => lha rt ra simm false currentPc machine
  | 43 => lha rt ra simm true currentPc machine
  | 44 => sth rt ra simm false currentPc machine
  | 45 => sth rt ra simm true currentPc machine
  | 46 => lmw rt ra simm currentPc machine
  | 47 => stmw rt ra simm currentPc machine
  | 48 => lfs rt ra simm false currentPc machine host
  | 49 => lfs rt ra simm true currentPc machine host
  | 50 => lfd rt ra simm false currentPc machine
  | 51 => lfd rt ra simm true currentPc machine
  | 52 => stfs rt ra simm false currentPc machine host
  | 53 => stfs rt ra simm true currentPc machine host
  | 54 => stfd rt ra simm false currentPc machine
  | 55 => stfd rt ra simm true currentPc machine
  | 59 => execute59 host currentPc insn machine
  | 63 => execute63 host currentPc insn machine
  | opcode =>
      unsupported currentPc
        ("unsupported primary opcode=" ++ decimal opcode) machine

section Groups

variable (host : Host) (config : ExecutionConfig) (currentPc : Word)
  {insn : Word} (machine : Machine)

theorem execute_of_group19 (isGroup : opcode insn = 19) :
    execute host config currentPc insn machine =
      execute19 host config currentPc insn machine := by
  unfold execute
  rw [isGroup]
  rfl

theorem execute_of_group31 (isGroup : opcode insn = 31) :
    execute host config currentPc insn machine =
      execute31 host config currentPc insn machine := by
  unfold execute
  rw [isGroup]
  rfl

theorem execute_of_group59 (isGroup : opcode insn = 59) :
    execute host config currentPc insn machine =
      execute59 host currentPc insn machine := by
  unfold execute
  rw [isGroup]
  rfl

theorem execute_of_group63 (isGroup : opcode insn = 63) :
    execute host config currentPc insn machine =
      execute63 host currentPc insn machine := by
  unfold execute
  rw [isGroup]
  rfl

end Groups

end PpcLab.BuiltinInterpreter
