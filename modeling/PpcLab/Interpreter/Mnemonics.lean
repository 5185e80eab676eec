import PpcLab.Interpreter.Disassemble
import PpcLab.Interpreter.Effect

/-!
# The index of mnemonics

Every mnemonic the disassembler prints, in alphabetical order, with the
opcodes of the form it stands for.  A mnemonic stands for one form, so a line
determines the opcodes of its word.
-/

namespace PpcLab.BuiltinInterpreter

open Instruction Text

/-- A mnemonic and its form; `records` when a dot after it shows the record
bit. -/
structure IndexEntry where
  mnemonic : String
  opcode : Nat
  extended : Nat
  records : Bool

def IndexEntry.spellings (entry : IndexEntry) : List String :=
  if entry.records then [entry.mnemonic, entry.mnemonic ++ "."]
  else [entry.mnemonic]

def IndexEntry.lists (entry : IndexEntry) (opcode extended : Nat)
    (mnemonic : String) : Bool :=
  entry.opcode.beq opcode && entry.extended.beq extended &&
    entry.spellings.contains mnemonic

def mnemonicIndex : List IndexEntry :=
  [⟨"add", 31, 266, true⟩, ⟨"addc", 31, 10, true⟩, ⟨"addco", 31, 522, true⟩,
    ⟨"adde", 31, 138, true⟩, ⟨"addeo", 31, 650, true⟩,
    ⟨"addi", 14, 0, false⟩, ⟨"addic", 12, 0, false⟩,
    ⟨"addic.", 13, 0, false⟩, ⟨"addis", 15, 0, false⟩,
    ⟨"addme", 31, 234, true⟩, ⟨"addmeo", 31, 746, true⟩,
    ⟨"addo", 31, 778, true⟩, ⟨"addze", 31, 202, true⟩,
    ⟨"addzeo", 31, 714, true⟩, ⟨"and", 31, 28, true⟩, ⟨"andc", 31, 60, true⟩,
    ⟨"andi.", 28, 0, false⟩, ⟨"andis.", 29, 0, false⟩, ⟨"b", 18, 0, false⟩,
    ⟨"bc", 16, 0, false⟩, ⟨"bcctr", 19, 528, false⟩,
    ⟨"bcctrl", 19, 528, false⟩, ⟨"bcl", 16, 0, false⟩,
    ⟨"bclr", 19, 16, false⟩, ⟨"bclrl", 19, 16, false⟩,
    ⟨"bctr", 19, 528, false⟩, ⟨"bl", 18, 0, false⟩, ⟨"blr", 19, 16, false⟩,
    ⟨"cmplw", 31, 32, false⟩, ⟨"cmplwi", 10, 0, false⟩,
    ⟨"cmpw", 31, 0, false⟩, ⟨"cmpwi", 11, 0, false⟩,
    ⟨"cntlzw", 31, 26, true⟩, ⟨"crand", 19, 257, false⟩,
    ⟨"crandc", 19, 129, false⟩, ⟨"creqv", 19, 289, false⟩,
    ⟨"crnand", 19, 225, false⟩, ⟨"crnor", 19, 33, false⟩,
    ⟨"cror", 19, 449, false⟩, ⟨"crorc", 19, 417, false⟩,
    ⟨"crxor", 19, 193, false⟩, ⟨"dcbf", 31, 86, false⟩,
    ⟨"dcbst", 31, 54, false⟩, ⟨"dcbt", 31, 278, false⟩,
    ⟨"dcbtst", 31, 246, false⟩, ⟨"dcbz", 31, 1014, false⟩,
    ⟨"divw", 31, 491, true⟩, ⟨"divwo", 31, 1003, true⟩,
    ⟨"divwu", 31, 459, true⟩, ⟨"divwuo", 31, 971, true⟩,
    ⟨"eieio", 31, 854, false⟩, ⟨"eqv", 31, 284, true⟩,
    ⟨"extsb", 31, 954, true⟩, ⟨"extsh", 31, 922, true⟩,
    ⟨"fabs", 63, 264, true⟩, ⟨"fadd", 63, 21, true⟩, ⟨"fadds", 59, 21, true⟩,
    ⟨"fcmpo", 63, 32, false⟩, ⟨"fcmpu", 63, 0, false⟩,
    ⟨"fctiw", 63, 14, true⟩, ⟨"fctiwz", 63, 15, true⟩,
    ⟨"fdiv", 63, 18, false⟩, ⟨"fdivs", 59, 18, true⟩, ⟨"fmr", 63, 72, true⟩,
    ⟨"fmuls", 59, 25, true⟩, ⟨"fnabs", 63, 136, true⟩,
    ⟨"fneg", 63, 40, true⟩, ⟨"fres", 59, 24, true⟩, ⟨"frsp", 63, 12, true⟩,
    ⟨"frsqrte", 63, 26, true⟩, ⟨"fsel", 63, 23, true⟩,
    ⟨"fsqrt", 63, 22, true⟩, ⟨"fsqrts", 59, 22, true⟩,
    ⟨"fsub", 63, 20, false⟩, ⟨"fsubs", 59, 20, true⟩,
    ⟨"icbi", 31, 982, false⟩, ⟨"isync", 19, 150, false⟩,
    ⟨"lbz", 34, 0, false⟩, ⟨"lbzu", 35, 0, false⟩, ⟨"lbzux", 31, 119, false⟩,
    ⟨"lbzx", 31, 87, false⟩, ⟨"lfd", 50, 0, false⟩, ⟨"lfdu", 51, 0, false⟩,
    ⟨"lfdux", 31, 631, false⟩, ⟨"lfdx", 31, 599, false⟩,
    ⟨"lfs", 48, 0, false⟩, ⟨"lfsu", 49, 0, false⟩, ⟨"lfsux", 31, 567, false⟩,
    ⟨"lfsx", 31, 535, false⟩, ⟨"lha", 42, 0, false⟩, ⟨"lhau", 43, 0, false⟩,
    ⟨"lhaux", 31, 375, false⟩, ⟨"lhax", 31, 343, false⟩,
    ⟨"lhbrx", 31, 790, false⟩, ⟨"lhz", 40, 0, false⟩, ⟨"lhzu", 41, 0, false⟩,
    ⟨"lhzux", 31, 331, false⟩, ⟨"lhzx", 31, 279, false⟩,
    ⟨"li", 14, 0, false⟩, ⟨"lis", 15, 0, false⟩, ⟨"lmw", 46, 0, false⟩,
    ⟨"lwarx", 31, 20, false⟩, ⟨"lwbrx", 31, 534, false⟩,
    ⟨"lwz", 32, 0, false⟩, ⟨"lwzu", 33, 0, false⟩, ⟨"lwzux", 31, 55, false⟩,
    ⟨"lwzx", 31, 23, false⟩, ⟨"mcrf", 19, 0, false⟩,
    ⟨"mcrxr", 31, 512, false⟩, ⟨"mfcr", 31, 19, false⟩,
    ⟨"mffs", 63, 583, true⟩, ⟨"mfspr", 31, 339, false⟩,
    ⟨"mr", 31, 444, false⟩, ⟨"mtcrf", 31, 144, false⟩,
    ⟨"mtspr", 31, 467, false⟩, ⟨"mulhw", 31, 75, true⟩,
    ⟨"mulhwu", 31, 11, true⟩, ⟨"mulli", 7, 0, false⟩,
    ⟨"mullw", 31, 235, true⟩, ⟨"mullwo", 31, 747, true⟩,
    ⟨"nand", 31, 476, true⟩, ⟨"neg", 31, 104, true⟩, ⟨"nego", 31, 616, true⟩,
    ⟨"nop", 24, 0, false⟩, ⟨"nor", 31, 124, true⟩, ⟨"or", 31, 444, true⟩,
    ⟨"orc", 31, 412, true⟩, ⟨"ori", 24, 0, false⟩, ⟨"oris", 25, 0, false⟩,
    ⟨"rlwimi", 20, 0, true⟩, ⟨"rlwinm", 21, 0, true⟩, ⟨"rlwnm", 23, 0, true⟩,
    ⟨"sc", 17, 0, false⟩, ⟨"slw", 31, 24, true⟩, ⟨"sraw", 31, 792, true⟩,
    ⟨"srawi", 31, 824, true⟩, ⟨"srw", 31, 536, true⟩, ⟨"stb", 38, 0, false⟩,
    ⟨"stbu", 39, 0, false⟩, ⟨"stbux", 31, 247, false⟩,
    ⟨"stbx", 31, 215, false⟩, ⟨"stfd", 54, 0, false⟩,
    ⟨"stfdu", 55, 0, false⟩, ⟨"stfdux", 31, 759, false⟩,
    ⟨"stfdx", 31, 727, false⟩, ⟨"stfiwx", 31, 983, false⟩,
    ⟨"stfs", 52, 0, false⟩, ⟨"stfsu", 53, 0, false⟩,
    ⟨"stfsux", 31, 695, false⟩, ⟨"stfsx", 31, 663, false⟩,
    ⟨"sth", 44, 0, false⟩, ⟨"sthbrx", 31, 918, false⟩,
    ⟨"sthu", 45, 0, false⟩, ⟨"sthux", 31, 439, false⟩,
    ⟨"sthx", 31, 407, false⟩, ⟨"stmw", 47, 0, false⟩, ⟨"stw", 36, 0, false⟩,
    ⟨"stwbrx", 31, 662, false⟩, ⟨"stwcx.", 31, 150, false⟩,
    ⟨"stwu", 37, 0, false⟩, ⟨"stwux", 31, 183, false⟩,
    ⟨"stwx", 31, 151, false⟩, ⟨"subf", 31, 40, true⟩, ⟨"subfc", 31, 8, true⟩,
    ⟨"subfco", 31, 520, true⟩, ⟨"subfe", 31, 136, true⟩,
    ⟨"subfeo", 31, 648, true⟩, ⟨"subfic", 8, 0, false⟩,
    ⟨"subfme", 31, 232, true⟩, ⟨"subfmeo", 31, 744, true⟩,
    ⟨"subfze", 31, 200, true⟩, ⟨"subfzeo", 31, 712, true⟩,
    ⟨"sync", 31, 598, false⟩, ⟨"tw", 31, 4, false⟩, ⟨"twi", 3, 0, false⟩,
    ⟨"xor", 31, 316, true⟩, ⟨"xori", 26, 0, false⟩, ⟨"xoris", 27, 0, false⟩]

/-- The index has the mnemonic under the opcodes. -/
def Listed (opcode extended : Nat) (mnemonic : String) : Prop :=
  mnemonicIndex.any (·.lists opcode extended mnemonic) = true

instance (opcode extended : Nat) (mnemonic : String) :
    Decidable (Listed opcode extended mnemonic) :=
  inferInstanceAs (Decidable (_ = true))

/-- The spellings in order, each with its place in the index. -/
def spellings : List (IndexEntry × String) :=
  mnemonicIndex.flatMap fun entry =>
    entry.spellings.map fun spelling => (entry, spelling)

/-- The bytes of a text, which order it. -/
def bytesOf (text : String) : List UInt8 :=
  text.toByteArray.data.toList

theorem spellings_ordered : spellings.IsChain
    fun left right => bytesOf left.2 < bytesOf right.2 := by
  decide +kernel

theorem spellings_injective {left right : IndexEntry × String}
    (leftMember : left ∈ spellings) (rightMember : right ∈ spellings)
    (same : left.2 = right.2) : left = right := by
  have distinct : (spellings.map Prod.snd).Nodup := by
    apply List.pairwise_map.mpr
    apply (List.isChain_iff_pairwise.mp spellings_ordered).imp
    intro first second before equal
    rw [equal] at before
    exact List.lt_irrefl _ before
  exact List.inj_on_of_nodup_map distinct leftMember rightMember same

theorem mem_spellings_of_listed {opcode extended : Nat} {mnemonic : String}
    (listed : Listed opcode extended mnemonic) :
    ∃ entry, (entry, mnemonic) ∈ spellings ∧ entry.opcode = opcode ∧
      entry.extended = extended := by
  obtain ⟨entry, member, lists⟩ := List.any_eq_true.mp listed
  simp only [IndexEntry.lists, Bool.and_eq_true, Nat.beq_eq,
    List.contains_iff_mem] at lists
  obtain ⟨⟨isOpcode, isExtended⟩, spelled⟩ := lists
  refine ⟨entry, ?_, isOpcode, isExtended⟩
  exact List.mem_flatMap.mpr
    ⟨entry, member, List.mem_map.mpr ⟨mnemonic, spelled, rfl⟩⟩

/-- A mnemonic stands for one form. -/
theorem Listed.unique {opcode extended otherOpcode otherExtended : Nat}
    {mnemonic : String} (listed : Listed opcode extended mnemonic)
    (other : Listed otherOpcode otherExtended mnemonic) :
    opcode = otherOpcode ∧ extended = otherExtended := by
  obtain ⟨entry, member, rfl, rfl⟩ := mem_spellings_of_listed listed
  obtain ⟨second, otherMember, rfl, rfl⟩ := mem_spellings_of_listed other
  have same := spellings_injective member otherMember rfl
  obtain rfl := (Prod.mk.inj same).1
  exact ⟨rfl, rfl⟩

theorem Listed.record {opcode extended : Nat} {mnemonic : String}
    (plain : Listed opcode extended mnemonic)
    (dotted : Listed opcode extended (mnemonic ++ ".")) (insn : Word) :
    Listed opcode extended (mnemonic ++ recordDot insn) := by
  unfold recordDot
  split
  · exact dotted
  · rw [String.append_empty]
    exact plain

/-- The extended opcode of a word in a group. -/
def extendedOpcode (insn : Word) : Nat :=
  match opcode insn with
  | 19 => xo insn
  | 31 => xo insn
  | 59 => xo5 insn
  | 63 => xo insn
  | _ => 0

def disassembled59 : List Nat :=
  [18, 20, 21, 22, 24, 25]

def disassembled63 : List Nat :=
  [0, 12, 14, 15, 18, 20, 21, 22, 23, 26, 32, 40, 72, 136, 264, 583]

/-- The disassembler has a case for the word.  Groups 19 and 31 and the
primary opcodes are those of the executor, except `subfo`. -/
def Disassembled (insn : Word) : Prop :=
  match opcode insn with
  | 19 => xo insn ∈ executed19
  | 31 => xo insn ∈ executed31 ∧ xo insn ≠ 552
  | 59 => xo5 insn ∈ disassembled59
  | 63 => xo insn ∈ disassembled63
  | primary => primary ∈ executedPrimary

/-- The mnemonics of words the disassembler does not know. -/
def placeholders : List String :=
  [".long", "fp59", "fp63"]

theorem disassemble19_listed {insn : Word} (listed : xo insn ∈ executed19) :
    Listed 19 (xo insn) (disassemble19 insn).mnemonic := by
  simp only [disassemble19, crBits]
  split
  case h_13 =>
    simp only [executed19, List.mem_cons, List.not_mem_nil] at listed
    grind only
  all_goals
    rename_i isForm
    rw [isForm]
    repeat' split
    all_goals
      dsimp only
      decide

theorem disassemble31_listed {insn : Word} (listed : xo insn ∈ executed31)
    (notSubfo : xo insn ≠ 552) :
    Listed 31 (xo insn) (disassemble31 insn).mnemonic := by
  unfold disassemble31
  split
  case h_60 isForm =>
    rw [isForm]
    split
    · exact (by decide : Listed 31 444 "mr")
    · exact .record (by decide : Listed 31 444 "or")
        (by decide) insn
  case h_90 =>
    simp only [executed31, List.mem_cons, List.not_mem_nil] at listed
    grind only
  all_goals
    rename_i isForm
    rw [isForm]
    simp only [bfRaRb, rtRaRb, rtRaRbRecord, raRtRbRecord, rtRaRecord,
      raRtRecord, raRb, frtRaRb]
    with_reducible first
      | exact .record (by decide) (by decide) insn
      | decide

theorem disassemble59_listed {insn : Word}
    (listed : xo5 insn ∈ disassembled59) :
    Listed 59 (xo5 insn) (disassemble59 insn).mnemonic := by
  simp only [disassemble59, frtFraFrbRecord, frtFrbRecord]
  split
  case h_7 =>
    simp only [disassembled59, List.mem_cons, List.not_mem_nil] at listed
    grind only
  all_goals
    rename_i isForm
    rw [isForm]
    exact .record (by decide) (by decide) insn

theorem disassemble63_listed {insn : Word}
    (listed : xo insn ∈ disassembled63) :
    Listed 63 (xo insn) (disassemble63 insn).mnemonic := by
  unfold disassemble63
  split
  case h_17 =>
    simp only [disassembled63, List.mem_cons, List.not_mem_nil] at listed
    grind only
  all_goals
    rename_i isForm
    rw [isForm]
    simp only [bfFraFrb, frtFraFrb, frtFraFrbRecord, frtFrbRecord]
    with_reducible first
      | exact .record (by decide) (by decide) insn
      | decide

theorem disassemblePrimary_listed (pc : Word) {insn : Word}
    (listed : opcode insn ∈ executedPrimary) :
    Listed (opcode insn) 0 (disassembleLine pc insn).mnemonic := by
  unfold disassembleLine
  split
  case h_50 =>
    simp only [executedPrimary, List.mem_cons, List.not_mem_nil] at listed
    grind only
  case h_13 isGroup | h_23 isGroup | h_48 isGroup | h_49 isGroup =>
    rw [isGroup] at listed
    exact absurd listed (by decide)
  all_goals
    rename_i isForm
    rw [isForm]
    repeat' split
    all_goals
      simp only [rtRaSimm, raRtUimm, raRtShMbMe, rtDisplacement,
        frtDisplacement]
      with_reducible first
        | exact .record (by decide) (by decide) insn
        | decide

section Groups

variable (pc : Word) {insn : Word}

theorem disassembleLine_of_group19 (isGroup : opcode insn = 19) :
    disassembleLine pc insn = disassemble19 insn := by
  unfold disassembleLine
  rw [isGroup]
  rfl

theorem disassembleLine_of_group31 (isGroup : opcode insn = 31) :
    disassembleLine pc insn = disassemble31 insn := by
  unfold disassembleLine
  rw [isGroup]
  rfl

theorem disassembleLine_of_group59 (isGroup : opcode insn = 59) :
    disassembleLine pc insn = disassemble59 insn := by
  unfold disassembleLine
  rw [isGroup]
  rfl

theorem disassembleLine_of_group63 (isGroup : opcode insn = 63) :
    disassembleLine pc insn = disassemble63 insn := by
  unfold disassembleLine
  rw [isGroup]
  rfl

end Groups

/-- A known word prints a mnemonic of its own form. -/
theorem disassembleLine_listed (pc : Word) {insn : Word}
    (known : Disassembled insn) :
    Listed (opcode insn) (extendedOpcode insn)
      (disassembleLine pc insn).mnemonic := by
  unfold Disassembled at known
  unfold extendedOpcode
  split at known
  · rename_i isGroup
    rw [disassembleLine_of_group19 pc isGroup, isGroup]
    exact disassemble19_listed known
  · rename_i isGroup
    rw [disassembleLine_of_group31 pc isGroup, isGroup]
    exact disassemble31_listed known.1 known.2
  · rename_i isGroup
    rw [disassembleLine_of_group59 pc isGroup, isGroup]
    exact disassemble59_listed known
  · rename_i isGroup
    rw [disassembleLine_of_group63 pc isGroup, isGroup]
    exact disassemble63_listed known
  · exact disassemblePrimary_listed pc known

theorem disassemble19_unknown {insn : Word}
    (unlisted : xo insn ∉ executed19) :
    disassemble19 insn =
      unknownWord insn ("opcode19 xo=" ++ decimal (xo insn)) := by
  simp only [disassemble19]
  split
  all_goals first
    | (rename_i isForm
       rw [isForm] at unlisted
       exact absurd (by decide) unlisted)
    | rfl

theorem disassemble31_unknown {insn : Word}
    (unlisted : ¬ (xo insn ∈ executed31 ∧ xo insn ≠ 552)) :
    disassemble31 insn =
      unknownWord insn ("opcode31 xo=" ++ decimal (xo insn)) := by
  unfold disassemble31
  split
  all_goals first
    | (rename_i isForm
       rw [isForm] at unlisted
       exact absurd (by decide) unlisted)
    | rfl

theorem disassemble59_unknown {insn : Word}
    (unlisted : xo5 insn ∉ disassembled59) :
    (disassemble59 insn).mnemonic = "fp59" := by
  unfold disassemble59
  split
  all_goals first
    | (rename_i isForm
       rw [isForm] at unlisted
       exact absurd (by decide) unlisted)
    | rfl

theorem disassemble63_unknown {insn : Word}
    (unlisted : xo insn ∉ disassembled63) :
    (disassemble63 insn).mnemonic = "fp63" := by
  unfold disassemble63
  split
  all_goals first
    | (rename_i isForm
       rw [isForm] at unlisted
       exact absurd (by decide) unlisted)
    | rfl

theorem disassembleLine_unknown (pc : Word) {insn : Word}
    (unknown : ¬ Disassembled insn) :
    (disassembleLine pc insn).mnemonic ∈ placeholders := by
  unfold Disassembled at unknown
  split at unknown
  · rename_i isGroup
    rw [disassembleLine_of_group19 pc isGroup, disassemble19_unknown unknown]
    exact List.mem_cons_self
  · rename_i isGroup
    rw [disassembleLine_of_group31 pc isGroup, disassemble31_unknown unknown]
    exact List.mem_cons_self
  · rename_i isGroup
    rw [disassembleLine_of_group59 pc isGroup, disassemble59_unknown unknown]
    decide
  · rename_i isGroup
    rw [disassembleLine_of_group63 pc isGroup, disassemble63_unknown unknown]
    decide
  · unfold disassembleLine
    split
    all_goals first
      | contradiction
      | (rename_i isForm
         rw [isForm] at unknown
         exact absurd (by decide) unknown)
      | exact List.mem_cons_self

/-- The text of a word the disassembler does not know. -/
def Placeholder (text : String) : Prop :=
  ∃ start ∈ placeholders, start.toList <+: text.toList

/-- One word, and not the start of a placeholder. -/
def ordinary (characters : List Char) : Bool :=
  !characters.contains ' ' &&
    placeholders.all fun start => !start.toList.isPrefixOf characters

theorem spellings_ordinary :
    spellings.all (fun spelling => ordinary spelling.2.toList) = true := by
  decide +kernel

private theorem Listed.ordinary {opcode extended : Nat} {mnemonic : String}
    (listed : Listed opcode extended mnemonic) :
    mnemonic.toList.contains ' ' = false ∧
      ∀ start ∈ placeholders, start.toList.isPrefixOf mnemonic.toList = false := by
  obtain ⟨entry, member, _⟩ := mem_spellings_of_listed listed
  have ordinary := List.all_eq_true.mp spellings_ordinary _ member
  simpa only [BuiltinInterpreter.ordinary, Bool.and_eq_true,
    List.all_eq_true, Bool.not_eq_true'] using ordinary

theorem Listed.noBlank {opcode extended : Nat} {mnemonic : String}
    (listed : Listed opcode extended mnemonic) : ' ' ∉ mnemonic.toList := by
  intro blank
  have found := List.contains_iff_mem.mpr blank
  rw [listed.ordinary.1] at found
  contradiction

theorem Listed.not_startsWith {opcode extended : Nat}
    {mnemonic start : String} (listed : Listed opcode extended mnemonic)
    (placeholder : start ∈ placeholders) :
    ¬ start.toList <+: mnemonic.toList := by
  intro starts
  have found := List.isPrefixOf_iff_prefix.mpr starts
  rw [listed.ordinary.2 start placeholder] at found
  contradiction

theorem placeholder_text_iff (line : Line) :
    Placeholder line.text ↔
      ∃ start ∈ placeholders, start.toList <+: line.mnemonic.toList := by
  have noBlank : ∀ start ∈ placeholders, ' ' ∉ start.toList := by decide
  apply exists_congr
  intro start
  apply and_congr_right
  intro listed
  exact line.startsWith_text_iff (noBlank start listed)

/-- The text is a placeholder exactly when the word is not known. -/
theorem placeholder_iff (pc insn : Word) :
    Placeholder (disassemble pc insn) ↔ ¬ Disassembled insn := by
  rw [disassemble, placeholder_text_iff]
  constructor
  · rintro ⟨start, listed, starts⟩ known
    exact (disassembleLine_listed pc known).not_startsWith listed starts
  · intro unknown
    exact ⟨_, disassembleLine_unknown pc unknown, List.prefix_rfl⟩

end PpcLab.BuiltinInterpreter
