import PpcLab.Interpreter.Mnemonics

/-!
# Operands

An operand determines the value it shows and contains no comma, so the text of
a known word determines its line.
-/

namespace PpcLab.BuiltinInterpreter

open Instruction Text

namespace Operand

@[simp] theorem number_inj {width : Nat} {left right : BitVec width} :
    number left = number right ↔ left = right := by
  rw [number, number, decimal_injective.eq_iff, BitVec.toNat_inj]

@[simp] theorem r_inj {left right : Register} : r left = r right ↔ left = right := by
  rw [r, r, String.append_right_inj]
  exact number_inj

@[simp] theorem f_inj {left right : Register} : f left = f right ↔ left = right := by
  rw [f, f, String.append_right_inj]
  exact number_inj

@[simp] theorem cr_inj {left right : BitVec 3} :
    cr left = cr right ↔ left = right := by
  rw [cr, cr, String.append_right_inj]
  exact number_inj

@[simp] theorem signed_inj {left right : Word} :
    signed left = signed right ↔ left = right := by
  rw [signed, signed, signedDecimal_injective.eq_iff, BitVec.toInt_inj]

@[simp] theorem prefixedHex_inj {width : Nat} {left right : BitVec width} :
    prefixedHex left = prefixedHex right ↔ left = right := by
  rw [prefixedHex, prefixedHex, String.append_right_inj, hex_injective.eq_iff,
    BitVec.toNat_inj]

@[simp] theorem address_inj {left right : Word} :
    address left = address right ↔ left = right := by
  rw [address, address, hex32_injective.eq_iff, BitVec.toNat_inj]

@[simp] theorem displacement_inj {left right : Word} {leftBase rightBase : Register} :
    displacement left leftBase = displacement right rightBase ↔
      left = right ∧ leftBase = rightBase := by
  constructor
  · intro same
    have opening : "(r".toList = ['(', 'r'] := by decide
    have texts := congrArg String.toList same
    simp only [displacement, String.toList_append, List.append_assoc,
      opening, List.cons_append, List.nil_append] at texts
    obtain ⟨offsets, bases⟩ := append_cons_injective
      (not_mem_signedDecimal bracket_separates left.toInt)
      (not_mem_signedDecimal bracket_separates right.toInt) texts
    have digits := List.append_cancel_right (List.tail_eq_of_cons_eq bases)
    exact ⟨signed_inj.mp (String.toList_inj.mp offsets),
      number_inj.mp (String.toList_inj.mp digits)⟩
  · rintro ⟨rfl, rfl⟩
    rfl

@[simp] theorem recordDot_inj {left right : Word} :
    recordDot left = recordDot right ↔ rc left = rc right := by
  rw [recordDot, recordDot]
  cases rc left <;> cases rc right <;> decide

section NoComma

variable {width : Nat}

@[simp] theorem comma_not_mem_append {left right : String}
    (notLeft : ',' ∉ left.toList) (notRight : ',' ∉ right.toList) :
    ',' ∉ (left ++ right).toList := by
  rw [String.toList_append, List.mem_append]
  exact not_or.mpr ⟨notLeft, notRight⟩

@[simp] theorem comma_not_mem_decimal (value : Nat) :
    ',' ∉ (decimal value).toList :=
  not_mem_decimal comma_separates value

@[simp] theorem comma_not_mem_number (value : BitVec width) :
    ',' ∉ (number value).toList :=
  comma_not_mem_decimal value.toNat

@[simp] theorem comma_not_mem_r (register : Register) : ',' ∉ (r register).toList :=
  comma_not_mem_append (by decide) (comma_not_mem_decimal _)

@[simp] theorem comma_not_mem_f (register : Register) : ',' ∉ (f register).toList :=
  comma_not_mem_append (by decide) (comma_not_mem_decimal _)

@[simp] theorem comma_not_mem_cr (field : BitVec 3) : ',' ∉ (cr field).toList :=
  comma_not_mem_append (by decide) (comma_not_mem_decimal _)

@[simp] theorem comma_not_mem_signed (value : Word) : ',' ∉ (signed value).toList :=
  not_mem_signedDecimal comma_separates value.toInt

@[simp] theorem comma_not_mem_prefixedHex (value : BitVec width) :
    ',' ∉ (prefixedHex value).toList :=
  comma_not_mem_append (by decide) (not_mem_hex comma_separates _)

@[simp] theorem comma_not_mem_address (value : Word) : ',' ∉ (address value).toList :=
  not_mem_hex32 comma_separates value.toNat (by decide)

@[simp] theorem comma_not_mem_displacement (simm : Word) (ra : Register) :
    ',' ∉ (displacement simm ra).toList := by
  apply comma_not_mem_append
  · apply comma_not_mem_append
    · apply comma_not_mem_append
      · exact comma_not_mem_signed simm
      · decide
    · exact comma_not_mem_decimal _
  · decide

end NoComma

end Operand

open Operand

/-- No operand of the line has a comma. -/
def NoCommas (line : Line) : Prop :=
  ∀ operand ∈ line.operands, ',' ∉ operand.toList

@[simp] theorem noCommas_nil (mnemonic : String) :
    NoCommas ⟨mnemonic, []⟩ := by
  intro operand member
  exact absurd member List.not_mem_nil

@[simp] theorem noCommas_cons (mnemonic operand : String)
    (operands : List String) :
    NoCommas ⟨mnemonic, operand :: operands⟩ ↔
      ',' ∉ operand.toList ∧ NoCommas ⟨mnemonic, operands⟩ :=
  List.forall_mem_cons

theorem unknownWord_noCommas (insn : Word) {note : String}
    (noComma : ',' ∉ note.toList) : NoCommas (unknownWord insn note) := by
  rw [unknownWord, noCommas_cons]
  refine ⟨?_, noCommas_nil _⟩
  apply comma_not_mem_append
  · apply comma_not_mem_append
    · exact comma_not_mem_address insn
    · decide
  · exact noComma

theorem disassemble19_noCommas (insn : Word) :
    NoCommas (disassemble19 insn) := by
  simp only [disassemble19]
  split
  case h_13 =>
    apply unknownWord_noCommas
    exact comma_not_mem_append (by decide) (comma_not_mem_decimal _)
  all_goals
    repeat' split
    all_goals simp [crBits]

theorem disassemble31_noCommas (insn : Word) :
    NoCommas (disassemble31 insn) := by
  unfold disassemble31
  split
  case h_90 =>
    apply unknownWord_noCommas
    exact comma_not_mem_append (by decide) (comma_not_mem_decimal _)
  case h_31 =>
    refine (noCommas_cons _ _ _).mpr ⟨comma_not_mem_prefixedHex _, ?_⟩
    refine (noCommas_cons _ _ _).mpr ⟨?_, noCommas_nil _⟩
    exact comma_not_mem_append (by decide) (not_mem_hex comma_separates _)
  all_goals
    repeat' split
    all_goals simp [bfRaRb, rtRaRb, rtRaRbRecord, raRtRbRecord, rtRaRecord,
      raRtRecord, raRb, frtRaRb]

theorem disassemble59_noCommas (insn : Word) :
    NoCommas (disassemble59 insn) := by
  unfold disassemble59
  split
  case h_7 =>
    refine (noCommas_cons _ _ _).mpr ⟨?_, by simp⟩
    apply comma_not_mem_append
    · apply comma_not_mem_append
      · exact comma_not_mem_append (by decide) (comma_not_mem_decimal _)
      · decide
    · exact comma_not_mem_f _
  all_goals simp [frtFraFrbRecord, frtFrbRecord]

theorem disassemble63_noCommas (insn : Word) :
    NoCommas (disassemble63 insn) := by
  unfold disassemble63
  split
  case h_17 =>
    refine (noCommas_cons _ _ _).mpr ⟨?_, by simp⟩
    apply comma_not_mem_append
    · apply comma_not_mem_append
      · exact comma_not_mem_append (by decide) (comma_not_mem_decimal _)
      · decide
    · exact comma_not_mem_f _
  all_goals simp [bfFraFrb, frtFraFrb, frtFraFrbRecord, frtFrbRecord]

theorem disassembleLine_noCommas (pc insn : Word) :
    NoCommas (disassembleLine pc insn) := by
  unfold disassembleLine
  split
  case h_13 => exact disassemble19_noCommas insn
  case h_23 => exact disassemble31_noCommas insn
  case h_48 => exact disassemble59_noCommas insn
  case h_49 => exact disassemble63_noCommas insn
  case h_50 =>
    apply unknownWord_noCommas
    exact comma_not_mem_append (by decide) (comma_not_mem_decimal _)
  all_goals
    repeat' split
    all_goals simp [rtRaSimm, raRtUimm, raRtShMbMe, rtDisplacement,
      frtDisplacement]

/-- Known words with the same text have the same line. -/
theorem disassembleLine_eq {pc left right : Word}
    (leftKnown : Disassembled left) (rightKnown : Disassembled right)
    (same : disassemble pc left = disassemble pc right) :
    disassembleLine pc left = disassembleLine pc right := by
  have plain {insn : Word} (known : Disassembled insn) :
      (disassembleLine pc insn).Plain := by
    exact ⟨(disassembleLine_listed pc known).noBlank,
      disassembleLine_noCommas pc insn⟩
  exact Line.text_injective (plain leftKnown) (plain rightKnown) same

end PpcLab.BuiltinInterpreter
