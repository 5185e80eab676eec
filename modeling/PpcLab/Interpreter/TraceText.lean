import PpcLab.Interpreter.Operands

/-!
# The characters of a disassembled line

A disassembled line has no brackets and no characters that end a line, and it
neither begins nor ends with a blank.  What is printed around it can therefore
be told apart from it.
-/

namespace PpcLab.BuiltinInterpreter

open Instruction Text

/-- A character between the blank and the tilde that is no square bracket. -/
def isLineCharacter (character : Char) : Bool :=
  decide (0x20 ≤ character.toNat ∧ character.toNat < 0x7f) &&
    decide (character ≠ '[' ∧ character ≠ ']')

def Inline (text : String) : Prop :=
  ∀ character ∈ text.toList, isLineCharacter character

/-- Characters of a line, the last of which is no blank. -/
structure Tidy (text : String) : Prop where
  inline : Inline text
  last : ∃ character, text.toList.getLast? = some character ∧ character ≠ ' '

private theorem inline_of_all {text : String}
    (all : text.toList.all isLineCharacter = true) : Inline text :=
  List.all_eq_true.mp all

theorem inline_append {left right : String} (first : Inline left)
    (second : Inline right) : Inline (left ++ right) := by
  intro character member
  rw [String.toList_append] at member
  rcases List.mem_append.mp member with before | after
  · exact first character before
  · exact second character after

theorem tidy_append {left right : String} (first : Inline left)
    (second : Tidy right) : Tidy (left ++ right) := by
  obtain ⟨character, last, visible⟩ := second.last
  refine ⟨inline_append first second.inline, character, ?_, visible⟩
  rw [String.toList_append, List.getLast?_append, last]
  rfl

private theorem isLineCharacter_digitChar (digit : Nat) :
    isLineCharacter (Nat.digitChar digit) ∧ Nat.digitChar digit ≠ ' ' := by
  rcases Nat.lt_or_ge digit 16 with small | large
  · have all : ∀ value : Fin 16, isLineCharacter (Nat.digitChar value.val) ∧
        Nat.digitChar value.val ≠ ' ' := by
      decide
    exact all ⟨digit, small⟩
  · rw [Nat.digitChar_eq_star.mpr large]
    decide

private theorem toDigits_tidy (base : Nat) (large : 1 < base) (value : Nat) :
    (∀ character ∈ Nat.toDigits base value, isLineCharacter character) ∧
      ∃ character, (Nat.toDigits base value).getLast? = some character ∧
        character ≠ ' ' := by
  induction value using Nat.strongRecOn with
  | ind value induction =>
      rw [Nat.toDigits_eq_if large]
      split
      · refine ⟨?_, Nat.digitChar value, rfl, (isLineCharacter_digitChar _).2⟩
        intro character member
        rw [List.mem_singleton.mp member]
        exact (isLineCharacter_digitChar value).1
      · rename_i moreDigits
        have smaller : value / base < value :=
          Nat.div_lt_self (by omega) large
        refine ⟨?_, Nat.digitChar (value % base), by simp,
          (isLineCharacter_digitChar _).2⟩
        intro character member
        rcases List.mem_append.mp member with before | last
        · exact (induction _ smaller).1 character before
        · rw [List.mem_singleton.mp last]
          exact (isLineCharacter_digitChar _).1

theorem decimal_tidy (value : Nat) : Tidy (decimal value) := by
  obtain ⟨inline, last⟩ := toDigits_tidy 10 (by omega) value
  refine ⟨?_, ?_⟩
  · rw [Inline, decimal, Nat.toString_eq_ofList_toDigits, String.toList_ofList]
    exact inline
  · rw [decimal, Nat.toString_eq_ofList_toDigits, String.toList_ofList]
    exact last

theorem hex_tidy (value : Nat) : Tidy (hex value) := by
  obtain ⟨inline, last⟩ := toDigits_tidy 16 (by omega) value
  refine ⟨?_, ?_⟩
  · rw [Inline, hex, String.toList_ofList]
    exact inline
  · rw [hex, String.toList_ofList]
    exact last

theorem hex32_tidy (value : Nat) : Tidy (hex32 value) := by
  obtain ⟨inline, character, last, visible⟩ :=
    toDigits_tidy 16 (by omega) value
  refine ⟨?_, character, ?_, visible⟩
  · intro other member
    rw [hex32, String.toList_ofList, List.mem_cons, List.mem_cons,
      List.mem_append] at member
    rcases member with rfl | rfl | zeros | digits
    · decide
    · decide
    · rw [List.eq_of_mem_replicate zeros]
      decide
    · exact inline other digits
  · rw [hex32, String.toList_ofList]
    have whole (start : List Char) :
        (start ++ Nat.toDigits 16 value).getLast? = some character := by
      rw [List.getLast?_append, last]
      rfl
    exact whole ('0' :: 'x' :: List.replicate _ '0')

theorem signedDecimal_tidy (value : Int) : Tidy (signedDecimal value) := by
  have magnitude (number : Nat) : Tidy (Nat.repr number) := by
    rw [← Nat.toString_eq_repr]
    exact decimal_tidy number
  rw [signedDecimal, Int.toString_eq_repr, Int.repr_eq_if]
  split
  · exact magnitude _
  · exact tidy_append (inline_of_all (by decide)) (magnitude _)

section Operands

variable {width : Nat}

@[simp] theorem number_tidy (value : BitVec width) :
    Tidy (Operand.number value) :=
  decimal_tidy value.toNat

@[simp] theorem r_tidy (register : Register) : Tidy (Operand.r register) :=
  tidy_append (inline_of_all (by decide)) (decimal_tidy _)

@[simp] theorem f_tidy (register : Register) : Tidy (Operand.f register) :=
  tidy_append (inline_of_all (by decide)) (decimal_tidy _)

@[simp] theorem cr_tidy (field : BitVec 3) : Tidy (Operand.cr field) :=
  tidy_append (inline_of_all (by decide)) (decimal_tidy _)

@[simp] theorem signed_tidy (value : Word) : Tidy (Operand.signed value) :=
  signedDecimal_tidy value.toInt

@[simp] theorem prefixedHex_tidy (value : BitVec width) :
    Tidy (Operand.prefixedHex value) :=
  tidy_append (inline_of_all (by decide)) (hex_tidy _)

@[simp] theorem address_tidy (value : Word) : Tidy (Operand.address value) :=
  hex32_tidy value.toNat

private theorem bracket_tidy : Tidy ")" :=
  ⟨inline_of_all (by decide), ')', by decide, by decide⟩

@[simp] theorem displacement_tidy (simm : Word) (ra : Register) :
    Tidy (Operand.displacement simm ra) := by
  apply tidy_append
  · apply inline_append
    · exact inline_append (signedDecimal_tidy _).inline
        (inline_of_all (by decide))
    · exact (decimal_tidy _).inline
  · exact bracket_tidy

/-- A number behind a label. -/
private theorem label_tidy {label : String}
    (inline : label.toList.all isLineCharacter = true) (value : Nat) :
    Tidy (label ++ decimal value) :=
  tidy_append (inline_of_all inline) (decimal_tidy value)

end Operands

/-- Every operand of the line is tidy. -/
def TidyOperands (line : Line) : Prop :=
  ∀ operand ∈ line.operands, Tidy operand

@[simp] theorem tidyOperands_nil (mnemonic : String) :
    TidyOperands ⟨mnemonic, []⟩ := by
  intro operand member
  cases member

@[simp] theorem tidyOperands_cons (mnemonic operand : String)
    (operands : List String) :
    TidyOperands ⟨mnemonic, operand :: operands⟩ ↔
      Tidy operand ∧ TidyOperands ⟨mnemonic, operands⟩ :=
  List.forall_mem_cons

theorem unknownWord_tidy (insn : Word) {note : String} (tidy : Tidy note) :
    TidyOperands (unknownWord insn note) := by
  rw [unknownWord, tidyOperands_cons]
  refine ⟨?_, tidyOperands_nil _⟩
  apply tidy_append
  · exact inline_append (address_tidy insn).inline (inline_of_all (by decide))
  · exact tidy

theorem disassemble19_tidy (insn : Word) :
    TidyOperands (disassemble19 insn) := by
  simp only [disassemble19]
  split
  case h_13 => exact unknownWord_tidy insn (label_tidy (by decide) _)
  all_goals
    repeat' split
    all_goals simp [crBits]

theorem disassemble31_tidy (insn : Word) :
    TidyOperands (disassemble31 insn) := by
  unfold disassemble31
  split
  case h_90 => exact unknownWord_tidy insn (label_tidy (by decide) _)
  case h_31 =>
    refine (tidyOperands_cons _ _ _).mpr ⟨prefixedHex_tidy _, ?_⟩
    refine (tidyOperands_cons _ _ _).mpr ⟨?_, tidyOperands_nil _⟩
    exact tidy_append (inline_of_all (by decide)) (hex_tidy _)
  all_goals
    repeat' split
    all_goals simp [bfRaRb, rtRaRb, rtRaRbRecord, raRtRbRecord, rtRaRecord,
      raRtRecord, raRb, frtRaRb, decimal_tidy]

private theorem form_tidy (value : Nat) (register : Register) :
    Tidy ("xo=" ++ decimal value ++ " " ++ Operand.f register) := by
  apply tidy_append
  · apply inline_append
    · exact (label_tidy (by decide) value).inline
    · exact inline_of_all (by decide)
  · exact f_tidy register

theorem disassemble59_tidy (insn : Word) :
    TidyOperands (disassemble59 insn) := by
  unfold disassemble59
  split
  case h_7 => exact (tidyOperands_cons _ _ _).mpr ⟨form_tidy _ _, by simp⟩
  all_goals simp [frtFraFrbRecord, frtFrbRecord]

theorem disassemble63_tidy (insn : Word) :
    TidyOperands (disassemble63 insn) := by
  unfold disassemble63
  split
  case h_17 => exact (tidyOperands_cons _ _ _).mpr ⟨form_tidy _ _, by simp⟩
  all_goals simp [bfFraFrb, frtFraFrb, frtFraFrbRecord, frtFrbRecord]

theorem disassembleLine_tidy (pc insn : Word) :
    TidyOperands (disassembleLine pc insn) := by
  unfold disassembleLine
  split
  case h_13 => exact disassemble19_tidy insn
  case h_23 => exact disassemble31_tidy insn
  case h_48 => exact disassemble59_tidy insn
  case h_49 => exact disassemble63_tidy insn
  case h_50 => exact unknownWord_tidy insn (label_tidy (by decide) _)
  all_goals
    repeat' split
    all_goals simp [rtRaSimm, raRtUimm, raRtShMbMe, rtDisplacement,
      frtDisplacement]

theorem mnemonic_spelled (pc insn : Word) :
    (disassembleLine pc insn).mnemonic ∈
      spellings.map (·.2) ++ placeholders := by
  apply List.mem_append.mpr
  by_cases known : Disassembled insn
  · obtain ⟨entry, spelled, _⟩ :=
      mem_spellings_of_listed (disassembleLine_listed pc known)
    exact .inl (List.mem_map.mpr ⟨_, spelled, rfl⟩)
  · exact .inr (disassembleLine_unknown pc known)

/-- A mnemonic has at least one character, and no blanks. -/
theorem mnemonic_tidy (pc insn : Word) :
    Tidy (disassembleLine pc insn).mnemonic ∧
      ∃ character, (disassembleLine pc insn).mnemonic.toList.head? =
        some character ∧ character ≠ ' ' := by
  have listed : ∀ spelling ∈ spellings.map (·.2) ++ placeholders,
      spelling.toList.all isLineCharacter = true ∧
        spelling.toList.getLast?.any (· ≠ ' ') = true ∧
        spelling.toList.head?.any (· ≠ ' ') = true := by
    decide +kernel
  obtain ⟨all, last, first⟩ := listed _ (mnemonic_spelled pc insn)
  have visible {found : Option Char} (any : found.any (· ≠ ' ') = true) :
      ∃ character, found = some character ∧ character ≠ ' ' := by
    cases found with
    | none => cases any
    | some character => exact ⟨character, rfl, by simpa using any⟩
  exact ⟨⟨inline_of_all all, visible last⟩, visible first⟩

private theorem tidy_intercalate (operand : String) (operands : List String)
    (tidy : ∀ other ∈ operand :: operands, Tidy other) :
    Tidy (",".intercalate (operand :: operands)) := by
  induction operands generalizing operand with
  | nil =>
      have single : ",".intercalate [operand] = operand := by
        apply String.toList_inj.mp
        simp
      rw [single]
      exact tidy operand List.mem_cons_self
  | cons next operands induction =>
      have further := induction next fun other member =>
        tidy other (List.mem_cons_of_mem _ member)
      have joined : ",".intercalate (operand :: next :: operands) =
          operand ++ "," ++ ",".intercalate (next :: operands) := by
        apply String.toList_inj.mp
        simp [String.toList_intercalate, String.toList_append]
      rw [joined]
      apply tidy_append
      · exact inline_append (tidy operand List.mem_cons_self).inline
          (inline_of_all (by decide))
      · exact further

/-- A disassembled line begins and ends with a visible character and has no
brackets and no breaks in it. -/
theorem disassemble_tidy (pc insn : Word) :
    Tidy (disassemble pc insn) ∧ ∃ character,
      (disassemble pc insn).toList.head? = some character ∧
        character ≠ ' ' := by
  obtain ⟨tidy, first, head, visible⟩ := mnemonic_tidy pc insn
  have operands := disassembleLine_tidy pc insn
  have starts (rest : String) :
      ((disassembleLine pc insn).mnemonic ++ rest).toList.head? =
        some first := by
    rw [String.toList_append, List.head?_append, head]
    rfl
  unfold disassemble Line.text
  split
  · exact ⟨tidy, first, head, visible⟩
  · rename_i listed some
    cases listedCases : (disassembleLine pc insn).operands with
    | nil => exact absurd listedCases some
    | cons operand rest =>
        refine ⟨?_, first, ?_, visible⟩
        · apply tidy_append
          · exact inline_append tidy.inline (inline_of_all (by decide))
          · exact tidy_intercalate operand rest
              fun other member => operands other (listedCases ▸ member)
        · rw [String.append_assoc]
          exact starts _

end PpcLab.BuiltinInterpreter
