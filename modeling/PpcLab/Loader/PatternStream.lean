import PpcLab.Library.Base128
import PpcLab.Loader.PefPattern
import Mathlib.Tactic.Ring

/-!
# The meaning of pattern data

A pattern-data stream is the encoding of a list of instructions, and an
instruction stands for the bytes it expands to.  The sizes in an instruction
are numerals of at most five groups, which can be larger than the machine word
the decoder reads them into.
-/

namespace PpcLab.Pef

open Base128

/-- A numeral of at most five bytes. -/
structure Argument where
  numeral : Numeral
  short : numeral.leading.length < 5

def Argument.bytes (argument : Argument) : List Byte :=
  argument.numeral.bytes

def Argument.value (argument : Argument) : Nat :=
  argument.numeral.value

/-- A count is held in the control byte when it is neither zero nor large. -/
inductive Count where
  | inline (size : BitVec 5) (positive : size ≠ 0)
  | following (argument : Argument)

def Count.value : Count → Nat
  | .inline size _ => size.toNat
  | .following argument => argument.value

def Count.arguments : Count → List Argument
  | .inline _ _ => []
  | .following argument => [argument]

/-- The control byte, and the count when it does not fit there. -/
def Count.bytes (opcode : BitVec 3) : Count → List Byte
  | .inline size _ => [opcode ++ size]
  | .following argument => (opcode ++ (0 : BitVec 5)) :: argument.bytes

inductive Instruction where
  | zero (count : Count)
  | copy (count : Count) (block : List Byte)
  | repeated (count : Count) (again : Argument) (block : List Byte)
  | interleaved (count : Count) (custom repeats : Argument)
      (common : List Byte) (blocks : List (List Byte))
  | zeroInterleaved (count : Count) (custom repeats : Argument)
      (blocks : List (List Byte))

namespace Instruction

def opcode : Instruction → BitVec 3
  | .zero .. => 0
  | .copy .. => 1
  | .repeated .. => 2
  | .interleaved .. => 3
  | .zeroInterleaved .. => 4

def count : Instruction → Count
  | .zero count | .copy count _ | .repeated count _ _
  | .interleaved count _ _ _ _ | .zeroInterleaved count _ _ _ => count

/-- What follows the count. -/
def operands : Instruction → List Byte
  | .zero _ => []
  | .copy _ block => block
  | .repeated _ again block => again.bytes ++ block
  | .interleaved _ custom repeats common blocks =>
      custom.bytes ++ (repeats.bytes ++ (common ++ blocks.flatten))
  | .zeroInterleaved _ custom repeats blocks =>
      custom.bytes ++ (repeats.bytes ++ blocks.flatten)

def encode (instruction : Instruction) : List Byte :=
  instruction.count.bytes instruction.opcode ++ instruction.operands

/-- The numerals of an instruction. -/
def arguments : Instruction → List Argument
  | .zero count => count.arguments
  | .copy count _ => count.arguments
  | .repeated count again _ => count.arguments ++ [again]
  | .interleaved count custom repeats _ _ =>
      count.arguments ++ [custom, repeats]
  | .zeroInterleaved count custom repeats _ =>
      count.arguments ++ [custom, repeats]

variable (size : Nat → Nat)

/-- The blocks have the sizes that the numerals are read as. -/
def Sized : Instruction → Prop
  | .zero _ => True
  | .copy count block => block.length = size count.value
  | .repeated count _ block => block.length = size count.value
  | .interleaved count custom repeats common blocks =>
      common.length = size count.value ∧ blocks.length = size repeats.value ∧
        ∀ block ∈ blocks, block.length = size custom.value
  | .zeroInterleaved _ custom repeats blocks =>
      blocks.length = size repeats.value ∧
        ∀ block ∈ blocks, block.length = size custom.value

/-- A common block before, between and after the custom ones. -/
def woven (common : List Byte) (blocks : List (List Byte)) : List Byte :=
  blocks.flatMap (common ++ ·) ++ common

def expand : Instruction → List Byte
  | .zero count => List.replicate (size count.value) 0
  | .copy _ block => block
  | .repeated _ again block =>
      (List.replicate (size again.value + 1) block).flatten
  | .interleaved _ _ _ common blocks => woven common blocks
  | .zeroInterleaved count _ _ blocks =>
      woven (List.replicate (size count.value) 0) blocks

/-- Every numeral fits a machine word. -/
def Fits (instruction : Instruction) : Prop :=
  ∀ argument ∈ instruction.arguments, argument.value < 2 ^ 32

/-- An instruction as the format describes it. -/
def WellFormed (instruction : Instruction) : Prop :=
  instruction.Sized id ∧ instruction.Fits

end Instruction

def encoded (program : List Instruction) : List Byte :=
  program.flatMap Instruction.encode

def expanded (size : Nat → Nat) (program : List Instruction) : List Byte :=
  program.flatMap (Instruction.expand size)

/-- The section: what the program expands to, filled up with zeros. -/
def filled (outputSize : Nat) (content : List Byte) : List Byte :=
  content ++ List.replicate (outputSize - content.length) 0

/-- What a 32-bit register keeps of a number. -/
def lowWord (value : Nat) : Nat :=
  value % 2 ^ 32

section Arguments

theorem readPidataArg_eq_ok {bytes value : Nat} {src rest : List Byte}
    {result : Word} :
    readPidataArg bytes (BitVec.ofNat 32 value) src = .ok (result, rest) ↔
      ∃ numeral : Numeral, numeral.leading.length < bytes ∧
        src = numeral.bytes ++ rest ∧
        result = BitVec.ofNat 32
          (shifted (numeral.leading.foldl shifted value) numeral.last) := by
  induction bytes generalizing value src with
  | zero =>
      constructor
      · intro succeeded
        cases succeeded
      · intro ⟨_, short, _⟩
        exact absurd short (Nat.not_lt_zero _)
  | succ bytes induction =>
      cases src with
      | nil =>
          constructor
          · intro succeeded
            cases succeeded
          · intro ⟨numeral, _, same, _⟩
            have lengths := congrArg List.length same
            simp only [List.length_nil, List.length_append,
              Numeral.length_bytes] at lengths
            omega
      | cons byte src =>
          by_cases more : (byte &&& 0x80) = 0
          · have same := eq_final byte more
            generalize byte.setWidth 7 = group at same
            subst same
            have read : readPidataArg (bytes + 1) (BitVec.ofNat 32 value)
                (final group :: src) =
                .ok (BitVec.ofNat 32 (shifted value group), src) := by
              simp only [readPidataArg, final_payload, shifted_word, final_bit,
                beq_self_eq_true, if_true]
            rw [read]
            constructor
            · intro succeeded
              injection succeeded with succeeded
              injection succeeded with first second
              subst first second
              exact ⟨⟨[], group⟩, Nat.succ_pos _, rfl, rfl⟩
            · intro ⟨numeral, short, same, value⟩
              obtain ⟨rfl, rfl⟩ := bytes_append_injective
                (show Numeral.bytes ⟨[], group⟩ ++ src = numeral.bytes ++ rest from same)
              rw [value]
              rfl
          · have same := eq_continued byte more
            generalize byte.setWidth 7 = group at same
            subst same
            have read : readPidataArg (bytes + 1) (BitVec.ofNat 32 value)
                (continued group :: src) =
                readPidataArg bytes (BitVec.ofNat 32 (shifted value group))
                  src := by
              simp only [readPidataArg, continued_payload, shifted_word,
                beq_iff_eq, continued_bit, if_false]
            rw [read, induction]
            constructor
            · intro ⟨numeral, short, same, value⟩
              refine ⟨⟨group :: numeral.leading, numeral.last⟩,
                Nat.succ_lt_succ short, ?_, value⟩
              rw [same]
              rfl
            · intro ⟨⟨leading, last⟩, short, same, value⟩
              cases leading with
              | nil =>
                  injection same with head _
                  exact absurd head (continued_ne_final group last)
              | cons group' leading =>
                  injection same with head tail
                  obtain rfl := continued_injective head
                  exact ⟨⟨leading, last⟩, Nat.lt_of_succ_lt_succ short, tail,
                    value⟩

theorem pidataArg_eq_ok {src rest : List Byte} {result : Word} :
    pidataArg src = .ok (result, rest) ↔
      ∃ argument : Argument, src = argument.bytes ++ rest ∧
        result = BitVec.ofNat 32 argument.value := by
  have read := @readPidataArg_eq_ok 5 0 src rest result
  constructor
  · intro succeeded
    obtain ⟨numeral, short, same, value⟩ := read.mp succeeded
    exact ⟨⟨numeral, short⟩, same, value⟩
  · intro ⟨argument, same, value⟩
    exact read.mpr ⟨argument.numeral, argument.short, same, value⟩

theorem toNat_ofNat (value : Nat) :
    (BitVec.ofNat 32 value).toNat = lowWord value := by
  rw [BitVec.toNat_ofNat, lowWord]

theorem opcode_append :
    ∀ (opcode : BitVec 3) (size : BitVec 5),
      ((opcode ++ size : Byte) >>> 5).toNat = opcode.toNat := by
  decide

theorem inline_append :
    ∀ (opcode : BitVec 3) (size : BitVec 5),
      ((opcode ++ size : Byte) &&& 0x1f).setWidth 32 = size.setWidth 32 := by
  decide

theorem eq_append :
    ∀ control : Byte, control =
      ((control >>> 5).setWidth 3 ++ control.setWidth 5 : Byte) := by
  decide

theorem append_injective {opcode opcode' : BitVec 3} {size size' : BitVec 5}
    (same : (opcode ++ size : Byte) = opcode' ++ size') :
    opcode = opcode' ∧ size = size' := by
  constructor
  · apply BitVec.eq_of_toNat_eq
    rw [← opcode_append opcode size, same, opcode_append]
  · have parts := congrArg (fun control : Byte => control.setWidth 5) same
    have low : ∀ (opcode : BitVec 3) (size : BitVec 5),
        (opcode ++ size : Byte).setWidth 5 = size := by
      decide
    simpa only [low] using parts

private theorem pidataCount_inline {size : BitVec 5} (positive : size ≠ 0)
    (src : List Byte) :
    pidataCount (size.setWidth 32) src =
      .ok (BitVec.ofNat 32 size.toNat, src) := by
  have word : size.setWidth 32 = BitVec.ofNat 32 size.toNat := by
    apply BitVec.eq_of_toNat_eq
    simp
  have nonzero : size.setWidth 32 ≠ 0 := by
    intro zero
    apply positive
    apply BitVec.eq_of_toNat_eq
    have lengths := congrArg BitVec.toNat zero
    have small := size.isLt
    simp only [BitVec.toNat_setWidth, BitVec.ofNat_eq_ofNat,
      BitVec.toNat_ofNat] at lengths ⊢
    omega
  rw [pidataCount, if_pos (bne_iff_ne.mpr nonzero), word]

theorem pidataCount_eq_ok {opcode : BitVec 3} {size : BitVec 5}
    {src rest : List Byte} {result : Word} :
    pidataCount (((opcode ++ size : Byte) &&& 0x1f).setWidth 32) src =
        .ok (result, rest) ↔
      ∃ count : Count, (opcode ++ size) :: src = count.bytes opcode ++ rest ∧
        result = BitVec.ofNat 32 count.value := by
  rw [inline_append]
  by_cases zero : size = 0
  · subst zero
    have read : pidataCount ((0 : BitVec 5).setWidth 32) src = pidataArg src := by
      rfl
    rw [read, pidataArg_eq_ok]
    constructor
    · intro ⟨argument, same, value⟩
      refine ⟨.following argument, ?_, value⟩
      rw [same]
      rfl
    · intro ⟨count, same, value⟩
      cases count with
      | inline size positive =>
          injection same with head _
          exact absurd (append_injective head).2.symm positive
      | following argument =>
          injection same with _ tail
          exact ⟨argument, tail, value⟩
  · rw [pidataCount_inline zero]
    constructor
    · intro succeeded
      injection succeeded with succeeded
      injection succeeded with first second
      subst first second
      exact ⟨.inline size zero, rfl, rfl⟩
    · intro ⟨count, same, value⟩
      cases count with
      | inline size positive =>
          injection same with head tail
          rw [value, (append_injective head).2, show src = rest from tail]
          rfl
      | following argument =>
          injection same with head _
          exact absurd (append_injective head).2 zero

end Arguments

section Blocks

theorem appendRaw_eq_ok {src out rest result : List Byte} {count limit : Nat} :
    appendRaw src out count limit = .ok (rest, result) ↔
      ∃ block, block.length = count ∧ out.length + count ≤ limit ∧
        src = block ++ rest ∧ result = out ++ block := by
  rw [appendRaw]
  split
  · rename_i outside
    constructor
    · intro succeeded
      cases succeeded
    · intro ⟨block, length, fits, same, _⟩
      have lengths := congrArg List.length same
      rw [List.length_append] at lengths
      omega
  · rename_i inside
    have within : count ≤ src.length ∧ out.length + count ≤ limit := by
      omega
    constructor
    · intro succeeded
      injection succeeded with succeeded
      injection succeeded with first second
      subst first second
      refine ⟨src.take count, ?_, within.2, (List.take_append_drop _ _).symm,
        rfl⟩
      exact List.length_take_of_le within.1
    · intro ⟨block, length, _, same, value⟩
      subst length same value
      rw [List.drop_left, List.take_left]

theorem interleave_ok {common : List Byte} {customSize limit repeats : Nat}
    {src out rest result : List Byte}
    (succeeded : interleave common customSize limit repeats src out =
      .ok (rest, result)) :
    ∃ blocks : List (List Byte), blocks.length = repeats ∧
      (∀ block ∈ blocks, block.length = customSize) ∧
      src = blocks.flatten ++ rest ∧
      result = out ++ blocks.flatMap (common ++ ·) := by
  induction repeats generalizing src out with
  | zero =>
      injection succeeded with succeeded
      injection succeeded with first second
      subst first second
      exact ⟨[], rfl, by simp, rfl, by simp⟩
  | succ repeats induction =>
      obtain ⟨⟨src', out'⟩, first, succeeded⟩ :=
        Outcome.bind_eq_ok.mp succeeded
      obtain ⟨block, length, _, same, moved⟩ := appendRaw_eq_ok.mp first
      obtain ⟨blocks, count, sizes, others, value⟩ := induction succeeded
      refine ⟨block :: blocks, by rw [List.length_cons, count], ?_, ?_, ?_⟩
      · intro other member
        rcases List.mem_cons.mp member with rfl | member
        · exact length
        · exact sizes other member
      · rw [same, others, List.flatten_cons, List.append_assoc]
      · rw [value, moved, List.flatMap_cons]
        simp only [List.append_assoc]

theorem interleave_blocks {common : List Byte} {customSize limit : Nat}
    {blocks : List (List Byte)} {out : List Byte} (rest : List Byte)
    (sizes : ∀ block ∈ blocks, block.length = customSize)
    (fits : out.length + (blocks.flatMap (common ++ ·)).length ≤ limit) :
    interleave common customSize limit blocks.length
        (blocks.flatten ++ rest) out =
      .ok (rest, out ++ blocks.flatMap (common ++ ·)) := by
  induction blocks generalizing out with
  | nil =>
      rw [List.flatMap_nil, List.append_nil]
      rfl
  | cons block blocks induction =>
      have length := sizes block (by simp)
      rw [List.flatMap_cons, List.length_append, List.length_append] at fits
      have first : appendRaw ((block :: blocks).flatten ++ rest)
          (out ++ common) customSize limit =
          .ok (blocks.flatten ++ rest, out ++ common ++ block) := by
        apply appendRaw_eq_ok.mpr
        refine ⟨block, length, ?_, ?_, rfl⟩
        · rw [List.length_append]
          omega
        · rw [List.flatten_cons, List.append_assoc]
      have within : (out ++ common ++ block).length +
          (blocks.flatMap (common ++ ·)).length ≤ limit := by
        rw [List.length_append, List.length_append]
        omega
      have others := induction
        (fun other member => sizes other (by simp [member])) within
      rw [List.length_cons, interleave, first]
      dsimp only [Bind.bind, Except.bind]
      rw [others, List.flatMap_cons]
      simp only [List.append_assoc]

theorem length_woven {common : List Byte} {customSize : Nat}
    {blocks : List (List Byte)}
    (sizes : ∀ block ∈ blocks, block.length = customSize) :
    (Instruction.woven common blocks).length =
      common.length * (blocks.length + 1) + customSize * blocks.length := by
  have parts : (blocks.flatMap (common ++ ·)).length =
      blocks.length * (common.length + customSize) := by
    induction blocks with
    | nil => simp
    | cons block blocks induction =>
        have others := induction fun other member =>
          sizes other (by simp [member])
        rw [List.flatMap_cons, List.length_append, List.length_append, others,
          sizes block (by simp), List.length_cons, Nat.succ_mul]
        omega
  rw [Instruction.woven, List.length_append, parts]
  ring

theorem room_eq {outputSize : Nat} {out : List Byte}
    (size : outputSize < 2 ^ 64) (fits : out.length ≤ outputSize) :
    room outputSize out = outputSize - out.length := by
  rw [room]
  omega

end Blocks

end PpcLab.Pef
