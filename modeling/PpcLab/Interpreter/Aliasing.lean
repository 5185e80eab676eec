import PpcLab.Interpreter.Execute
import PpcLab.Interpreter.Overflow

/-!
# Aliased destinations

An integer instruction should compute the same result and the same flags
whether or not its destination is also one of its sources.  Some overflow and
carry tests read a source after the destination has been written, and then the
flags depend on the choice of registers.
-/

namespace PpcLab.BuiltinInterpreter

open Instruction

/-- Which fields name the destination and the sources. -/
inductive AluForm where
  | rtRaRb
  | rtRa
  | raRtRb
  | raRt
  /-- The destination is also an input. -/
  | raRtInsert
  deriving DecidableEq, Repr

namespace AluForm

/-- The destination is named by the `rt` field, not by `ra`. -/
def targetsRt : AluForm → Bool
  | .rtRaRb | .rtRa => true
  | .raRtRb | .raRt | .raRtInsert => false

def destination (form : AluForm) (insn : Word) : Register :=
  if form.targetsRt then rt insn else ra insn

def sources (form : AluForm) (insn : Word) : List Register :=
  match form with
  | .rtRaRb => [ra insn, rb insn]
  | .rtRa => [ra insn]
  | .raRtRb => [rt insn, rb insn]
  | .raRt | .raRtInsert => [rt insn]

/-- The same instruction with another destination. -/
def retarget (form : AluForm) (insn : Word) (fresh : Register) : Word :=
  if form.targetsRt then withRt insn fresh else withRa insn fresh

/-- The machine in which the retargeted instruction executes: where the
destination is an input, the fresh one holds its old value. -/
def prepare (form : AluForm) (insn : Word) (fresh : Register)
    (machine : Machine) : Machine :=
  match form with
  | .raRtInsert =>
      { machine with
        cpu := machine.cpu.setGpr fresh (machine.cpu.gpr (ra insn)) }
  | .rtRaRb | .rtRa | .raRtRb | .raRt => machine

end AluForm

/-- The integer instructions, as operations of their destination. -/
def alu (insn : Word) :
    Option (AluForm × (Register → CpuState → CpuState)) :=
  let rt := rt insn
  let ra := ra insn
  let rb := rb insn
  let uimm := uimm insn
  let rc := rc insn
  match opcode insn with
  | 20 =>
      some (.raRtInsert, fun dest => rlwimi dest rt rb (mb insn) (me insn) rc)
  | 21 => some (.raRt, fun dest => rlwinm dest rt rb (mb insn) (me insn) rc)
  | 23 => some (.raRtRb, fun dest => rlwnm dest rt rb (mb insn) (me insn) rc)
  | 24 => some (.raRt, fun dest => ori dest rt uimm)
  | 25 => some (.raRt, fun dest => oris dest rt uimm)
  | 26 => some (.raRt, fun dest => xori dest rt uimm)
  | 27 => some (.raRt, fun dest => xoris dest rt uimm)
  | 28 => some (.raRt, fun dest => andi dest rt uimm)
  | 29 => some (.raRt, fun dest => andis dest rt uimm)
  | 31 =>
      match xo insn with
      | 8 => some (.rtRaRb, fun dest => subfc dest ra rb false rc)
      | 520 => some (.rtRaRb, fun dest => subfc dest ra rb true rc)
      | 40 => some (.rtRaRb, fun dest => subf dest ra rb false rc)
      | 552 => some (.rtRaRb, fun dest => subf dest ra rb true rc)
      | 10 => some (.rtRaRb, fun dest => addc dest ra rb false rc)
      | 522 => some (.rtRaRb, fun dest => addc dest ra rb true rc)
      | 266 => some (.rtRaRb, fun dest => add dest ra rb false rc)
      | 778 => some (.rtRaRb, fun dest => add dest ra rb true rc)
      | 136 => some (.rtRaRb, fun dest => subfe dest ra rb false rc)
      | 648 => some (.rtRaRb, fun dest => subfe dest ra rb true rc)
      | 138 => some (.rtRaRb, fun dest => adde dest ra rb false rc)
      | 650 => some (.rtRaRb, fun dest => adde dest ra rb true rc)
      | 232 => some (.rtRa, fun dest => subfme dest ra false rc)
      | 744 => some (.rtRa, fun dest => subfme dest ra true rc)
      | 234 => some (.rtRa, fun dest => addme dest ra false rc)
      | 746 => some (.rtRa, fun dest => addme dest ra true rc)
      | 200 => some (.rtRa, fun dest => subfze dest ra false rc)
      | 712 => some (.rtRa, fun dest => subfze dest ra true rc)
      | 202 => some (.rtRa, fun dest => addze dest ra false rc)
      | 714 => some (.rtRa, fun dest => addze dest ra true rc)
      | 104 => some (.rtRa, fun dest => neg dest ra false rc)
      | 616 => some (.rtRa, fun dest => neg dest ra true rc)
      | 11 => some (.rtRaRb, fun dest => mulhwu dest ra rb rc)
      | 75 => some (.rtRaRb, fun dest => mulhw dest ra rb rc)
      | 235 => some (.rtRaRb, fun dest => mullw dest ra rb false rc)
      | 747 => some (.rtRaRb, fun dest => mullw dest ra rb true rc)
      | 459 => some (.rtRaRb, fun dest => divwu dest ra rb false rc)
      | 971 => some (.rtRaRb, fun dest => divwu dest ra rb true rc)
      | 491 => some (.rtRaRb, fun dest => divw dest ra rb false rc)
      | 1003 => some (.rtRaRb, fun dest => divw dest ra rb true rc)
      | 28 => some (.raRtRb, fun dest => andForm dest rt rb rc)
      | 60 => some (.raRtRb, fun dest => andc dest rt rb rc)
      | 124 => some (.raRtRb, fun dest => nor dest rt rb rc)
      | 284 => some (.raRtRb, fun dest => eqv dest rt rb rc)
      | 316 => some (.raRtRb, fun dest => xorForm dest rt rb rc)
      | 412 => some (.raRtRb, fun dest => orc dest rt rb rc)
      | 444 => some (.raRtRb, fun dest => orForm dest rt rb rc)
      | 476 => some (.raRtRb, fun dest => nand dest rt rb rc)
      | 24 => some (.raRtRb, fun dest => slw dest rt rb rc)
      | 536 => some (.raRtRb, fun dest => srw dest rt rb rc)
      | 792 => some (.raRtRb, fun dest => sraw dest rt rb rc)
      | 824 => some (.raRt, fun dest => srawi dest rt rb rc)
      | 26 => some (.raRt, fun dest => cntlzw dest rt rc)
      | 922 => some (.raRt, fun dest => extsh dest rt rc)
      | 954 => some (.raRt, fun dest => extsb dest rt rc)
      | _ => none
  | _ => none

theorem execute_alu {insn : Word} {form : AluForm}
    {operation : Register → CpuState → CpuState}
    (family : alu insn = some (form, operation)) (host : Host)
    (config : ExecutionConfig) (currentPc : Word) (machine : Machine) :
    execute host config currentPc insn machine =
      onCpu (operation (form.destination insn)) machine := by
  unfold alu at family
  simp only at family
  split at family
  case h_10 isGroup =>
    rw [execute_of_group31 host config currentPc machine isGroup]
    unfold execute31
    split at family
    all_goals first
      | contradiction
      | (rename_i isForm
         obtain ⟨rfl, rfl⟩ := Prod.mk.inj (Option.some.inj family)
         rw [isForm]
         rfl)
  all_goals first
    | contradiction
    | (rename_i isOpcode
       obtain ⟨rfl, rfl⟩ := Prod.mk.inj (Option.some.inj family)
       unfold execute
       rw [isOpcode]
       rfl)

theorem alu_withRt {insn : Word} {form : AluForm}
    {operation : Register → CpuState → CpuState}
    (family : alu insn = some (form, operation))
    (targets : form.targetsRt = true) (fresh : Register) :
    alu (withRt insn fresh) = some (form, operation) := by
  unfold alu at family ⊢
  rw [opcode_withRt, ra_withRt, rb_withRt, xo_withRt, rc_withRt]
  simp only at family
  split at family
  case h_10 isGroup =>
    split at family
    all_goals first
      | contradiction
      | (obtain ⟨rfl, rfl⟩ := Prod.mk.inj (Option.some.inj family)
         first
           | exact absurd targets (by decide)
           | rfl)
  all_goals first
    | contradiction
    | (obtain ⟨rfl, rfl⟩ := Prod.mk.inj (Option.some.inj family)
       exact absurd targets (by decide))

theorem alu_withRa {insn : Word} {form : AluForm}
    {operation : Register → CpuState → CpuState}
    (family : alu insn = some (form, operation))
    (targets : form.targetsRt = false) (fresh : Register) :
    alu (withRa insn fresh) = some (form, operation) := by
  unfold alu at family ⊢
  rw [opcode_withRa, rt_withRa, rb_withRa, xo_withRa, rc_withRa, mb_withRa,
    me_withRa, uimm_withRa]
  simp only at family
  split at family
  case h_10 isGroup =>
    split at family
    all_goals first
      | contradiction
      | (obtain ⟨rfl, rfl⟩ := Prod.mk.inj (Option.some.inj family)
         first
           | exact absurd targets (by decide)
           | rfl)
  all_goals first
    | contradiction
    | (obtain ⟨rfl, rfl⟩ := Prod.mk.inj (Option.some.inj family)
       rfl)

theorem alu_retarget {insn : Word} {form : AluForm}
    {operation : Register → CpuState → CpuState}
    (family : alu insn = some (form, operation)) (fresh : Register) :
    alu (form.retarget insn fresh) = some (form, operation) := by
  unfold AluForm.retarget
  split
  · rename_i targets
    exact alu_withRt family targets fresh
  · rename_i targets
    exact alu_withRa family (Bool.not_eq_true _ ▸ targets) fresh

theorem destination_retarget (form : AluForm) (insn : Word)
    (fresh : Register) :
    form.destination (form.retarget insn fresh) = fresh := by
  unfold AluForm.destination AluForm.retarget
  split <;> simp

/-- The destination value, XER and condition field 0 of two results agree. -/
structure Agree (dest : Register) (left : CpuState) (fresh : Register)
    (right : CpuState) : Prop where
  value : left.gpr dest = right.gpr fresh
  xer : left.xer = right.xer
  cr0 : left.crField 0 = right.crField 0

/-- Executing the instruction gives what the same operation gives with any
destination that is not one of its sources. -/
def AliasInvariant (host : Host) (config : ExecutionConfig)
    (currentPc insn : Word) (form : AluForm) (machine : Machine) : Prop :=
  ∀ fresh, fresh ∉ form.sources insn →
    ∃ aliased separate,
      execute host config currentPc insn machine = .next aliased ∧
        execute host config currentPc (form.retarget insn fresh)
          (form.prepare insn fresh machine) = .next separate ∧
        Agree (form.destination insn) aliased.cpu fresh separate.cpu

theorem aliasInvariant_iff {insn : Word} {form : AluForm}
    {operation : Register → CpuState → CpuState}
    (family : alu insn = some (form, operation)) (host : Host)
    (config : ExecutionConfig) (currentPc : Word) (machine : Machine) :
    AliasInvariant host config currentPc insn form machine ↔
      ∀ fresh, fresh ∉ form.sources insn →
        Agree (form.destination insn)
          (operation (form.destination insn) machine.cpu) fresh
          (operation fresh (form.prepare insn fresh machine).cpu) := by
  have direct := execute_alu family host config currentPc machine
  have retargeted (fresh : Register) :=
    execute_alu (alu_retarget family fresh) host config currentPc
      (form.prepare insn fresh machine)
  simp only [destination_retarget] at retargeted
  unfold AliasInvariant
  constructor
  · intro invariant fresh notSource
    obtain ⟨aliased, separate, first, second, agree⟩ :=
      invariant fresh notSource
    rw [direct] at first
    rw [retargeted] at second
    cases first
    cases second
    exact agree
  · intro agree fresh notSource
    exact ⟨_, _, direct, retargeted fresh, agree fresh notSource⟩

theorem record_gpr (rc : Bool) (dest : Register) (cpu : CpuState) :
    (record rc dest cpu).gpr = cpu.gpr := by
  cases rc <;> rfl

theorem record_xer (rc : Bool) (dest : Register) (cpu : CpuState) :
    (record rc dest cpu).xer = cpu.xer := by
  cases rc <;> rfl

/-- Two recorded results with the same value agree when their flags do. -/
theorem agree_record_iff {rc : Bool} {dest fresh : Register}
    {left right : CpuState} (value : left.gpr dest = right.gpr fresh)
    (cr : left.cr = right.cr) :
    Agree dest (record rc dest left) fresh (record rc fresh right) ↔
      left.xer = right.xer := by
  constructor
  · intro agree
    have xer := agree.xer
    rwa [record_xer, record_xer] at xer
  · intro xer
    refine ⟨?_, ?_, ?_⟩
    · rw [record_gpr, record_gpr, value]
    · rw [record_xer, record_xer, xer]
    · cases rc with
      | false => simp [record, CpuState.crField, cr]
      | true =>
          simp [record, updateCr0, summaryOverflow, CpuState.setCrField,
            CpuState.assignCrField, CpuState.crField, cr, value, xer]

/-- Some register is not among two. -/
theorem exists_fresh (first second : Register) :
    ∃ fresh : Register, fresh ≠ first ∧ fresh ≠ second := by
  by_cases zeroFree : (0 : Register) ≠ first ∧ (0 : Register) ≠ second
  · exact ⟨0, zeroFree⟩
  by_cases oneFree : (1 : Register) ≠ first ∧ (1 : Register) ≠ second
  · exact ⟨1, oneFree⟩
  refine ⟨2, ?_, ?_⟩ <;> bv_omega

end PpcLab.BuiltinInterpreter
