import PpcLab.Loader.PatternStream

/-!
# Expanding pattern data

Whatever the decoder accepts is the encoding of a program whose numerals are
read modulo `2^32`, and its output is the expansion of that program.  A numeral
that does not fit a machine word is therefore not refused: the decoder agrees
with the format on exactly the streams in which no such numeral is met in a
program that otherwise expands within the section.
-/

namespace PpcLab.Pef

open Base128

section Instructions

theorem unpackInterleaved_ok {stored : Bool} {commonSize : Word}
    {outputSize : Nat} {src out rest result : List Byte}
    (succeeded : unpackInterleaved stored commonSize outputSize src out =
      .ok (rest, result)) :
    ∃ (custom repeats : Argument) (common : List Byte)
      (blocks : List (List Byte)), common.length = commonSize.toNat ∧
      (stored = false → common = List.replicate commonSize.toNat 0) ∧
      blocks.length = lowWord repeats.value ∧
      (∀ block ∈ blocks, block.length = lowWord custom.value) ∧
      src = custom.bytes ++ repeats.bytes ++ (if stored then common else []) ++
        blocks.flatten ++ rest ∧
      result = out ++ Instruction.woven common blocks := by
  obtain ⟨⟨customSize, src₁⟩, first, succeeded⟩ :=
    Outcome.bind_eq_ok.mp succeeded
  obtain ⟨⟨repeatCount, src₂⟩, second, succeeded⟩ :=
    Outcome.bind_eq_ok.mp succeeded
  obtain ⟨custom, rfl, rfl⟩ := pidataArg_eq_ok.mp first
  obtain ⟨repeats, rfl, rfl⟩ := pidataArg_eq_ok.mp second
  dsimp only at succeeded
  split at succeeded
  · cases succeeded
  · rename_i present
    split at succeeded
    · cases succeeded
    · obtain ⟨⟨src₃, out'⟩, woven, succeeded⟩ :=
        Outcome.bind_eq_ok.mp succeeded
      injection succeeded with succeeded
      injection succeeded with same value
      subst same value
      obtain ⟨blocks, count, sizes, same, moved⟩ := interleave_ok woven
      rw [toNat_ofNat] at count sizes
      cases stored with
      | false =>
          refine ⟨custom, repeats, List.replicate commonSize.toNat 0, blocks,
            List.length_replicate .., fun _ => rfl, count, sizes, ?_, ?_⟩
          · rw [if_neg Bool.false_ne_true] at same
            rw [same]
            simp
          · rw [moved, Instruction.woven]
            simp
      | true =>
          have enough : commonSize.toNat ≤ src₂.length := by
            by_contra short
            exact present ⟨rfl, by omega⟩
          refine ⟨custom, repeats, src₂.take commonSize.toNat, blocks,
            List.length_take_of_le enough, ?_, count, sizes, ?_, ?_⟩
          · intro impossible
            cases impossible
          · rw [if_pos rfl] at same ⊢
            rw [List.append_assoc _ blocks.flatten, ← same]
            simp
          · rw [moved, Instruction.woven]
            simp

theorem unpackOne_ok {outputSize : Nat} {control : Byte}
    {src out rest result : List Byte}
    (ran : unpackOne outputSize control src out = .ok (rest, result)) :
    ∃ instruction : Instruction, instruction.Sized lowWord ∧
      control :: src = instruction.encode ++ rest ∧
      result = out ++ instruction.expand lowWord := by
  obtain ⟨opcode, size, rfl⟩ :
      ∃ (opcode : BitVec 3) (size : BitVec 5), control = opcode ++ size :=
    ⟨_, _, eq_append control⟩
  obtain ⟨⟨word, src'⟩, counted, succeeded⟩ :=
    Outcome.bind_eq_ok.mp ran
  clear ran
  obtain ⟨count, whole, rfl⟩ := pidataCount_eq_ok.mp counted
  rw [whole]
  rw [opcode_append] at succeeded
  have known {value : BitVec 3} (same : opcode.toNat = value.toNat) :
      opcode = value := BitVec.eq_of_toNat_eq same
  dsimp only at succeeded
  rw [toNat_ofNat] at succeeded
  split at succeeded
  · rename_i code
    obtain rfl := known (show opcode.toNat = (0 : BitVec 3).toNat from code)
    split at succeeded
    · cases succeeded
    · injection succeeded with succeeded
      injection succeeded with same value
      subst same value
      refine ⟨.zero count, trivial, ?_, rfl⟩
      rw [Instruction.encode, Instruction.operands, List.append_nil]
      rfl
  · rename_i code
    obtain rfl := known (show opcode.toNat = (1 : BitVec 3).toNat from code)
    obtain ⟨block, length, _, rfl, value⟩ := appendRaw_eq_ok.mp succeeded
    refine ⟨.copy count block, length, ?_, value⟩
    exact (List.append_assoc ..).symm
  · rename_i code
    obtain rfl := known (show opcode.toNat = (2 : BitVec 3).toNat from code)
    obtain ⟨⟨again, src''⟩, repeated, succeeded⟩ :=
      Outcome.bind_eq_ok.mp succeeded
    obtain ⟨argument, rfl, rfl⟩ := pidataArg_eq_ok.mp repeated
    dsimp only at succeeded
    split at succeeded
    · cases succeeded
    · rename_i enough
      rw [toNat_ofNat] at succeeded
      split at succeeded
      · cases succeeded
      · injection succeeded with succeeded
        injection succeeded with same value
        subst same value
        refine ⟨.repeated count argument (src''.take (lowWord count.value)),
          List.length_take_of_le (by omega), ?_, rfl⟩
        simp [Instruction.encode, Instruction.operands, Instruction.count,
          Instruction.opcode]
  · rename_i code
    obtain rfl := known (show opcode.toNat = (3 : BitVec 3).toNat from code)
    obtain ⟨custom, repeats, common, blocks, length, _, repeated, sizes, same,
      value⟩ := unpackInterleaved_ok succeeded
    rw [toNat_ofNat] at length
    refine ⟨.interleaved count custom repeats common blocks,
      ⟨length, repeated, sizes⟩, ?_, value⟩
    rw [same, if_pos rfl]
    simp [Instruction.encode, Instruction.operands, Instruction.count,
      Instruction.opcode]
  · rename_i code
    obtain rfl := known (show opcode.toNat = (4 : BitVec 3).toNat from code)
    obtain ⟨custom, repeats, common, blocks, _, zeros, repeated, sizes, same,
      value⟩ := unpackInterleaved_ok succeeded
    obtain rfl := zeros rfl
    rw [toNat_ofNat] at value
    refine ⟨.zeroInterleaved count custom repeats blocks, ⟨repeated, sizes⟩, ?_,
      value⟩
    rw [same, if_neg Bool.false_ne_true]
    simp [Instruction.encode, Instruction.operands, Instruction.count,
      Instruction.opcode]
  · cases succeeded

theorem unpackInterleaved_blocks (stored : Bool) {commonSize : Word}
    {outputSize : Nat} {custom repeats : Argument} {common out : List Byte}
    {blocks : List (List Byte)} (rest : List Byte)
    (small : outputSize < 2 ^ 64) (length : common.length = commonSize.toNat)
    (zeros : stored = false → common = List.replicate commonSize.toNat 0)
    (repeated : blocks.length = lowWord repeats.value)
    (sizes : ∀ block ∈ blocks, block.length = lowWord custom.value)
    (fits : out.length + (Instruction.woven common blocks).length ≤
      outputSize) :
    unpackInterleaved stored commonSize outputSize
        (custom.bytes ++ (repeats.bytes ++ ((if stored then common else []) ++
          (blocks.flatten ++ rest)))) out =
      .ok (rest, out ++ Instruction.woven common blocks) := by
  have total : (Instruction.woven common blocks).length = _ :=
    length_woven sizes
  have inside : (blocks.flatMap (common ++ ·)).length ≤
      (Instruction.woven common blocks).length := by
    rw [Instruction.woven, List.length_append]
    omega
  have woven := interleave_blocks rest sizes
    (show out.length + (blocks.flatMap (common ++ ·)).length ≤ outputSize by
      omega)
  rw [unpackInterleaved, pidataArg_eq_ok.mpr ⟨custom, rfl, rfl⟩]
  dsimp only [Bind.bind, Except.bind]
  rw [pidataArg_eq_ok.mpr ⟨repeats, rfl, rfl⟩]
  dsimp only
  have present : ¬((stored : Prop) ∧ commonSize.toNat >
      ((if stored then common else []) ++ (blocks.flatten ++ rest)).length) := by
    intro both
    obtain ⟨kept, short⟩ := both
    rw [if_pos kept, List.length_append] at short
    omega
  have source : (if stored then
      ((if stored then common else []) ++ (blocks.flatten ++ rest)).drop
        commonSize.toNat
      else (if stored then common else []) ++ (blocks.flatten ++ rest)) =
      blocks.flatten ++ rest := by
    cases stored with
    | false => rfl
    | true =>
        rw [if_pos rfl, if_pos rfl, ← length]
        exact List.drop_left
  have kept : (if stored then
      ((if stored then common else []) ++ (blocks.flatten ++ rest)).take
        commonSize.toNat
      else List.replicate commonSize.toNat 0) = common := by
    cases stored with
    | false => exact (zeros rfl).symm
    | true =>
        rw [if_pos rfl, if_pos rfl, ← length]
        exact List.take_left
  have required : ¬(commonSize.toNat * (lowWord repeats.value + 1) +
      lowWord custom.value * lowWord repeats.value) % 2 ^ 64 >
        room outputSize out := by
    rw [← length, ← repeated, ← total, room_eq small (by omega),
      Nat.mod_eq_of_lt (by omega)]
    omega
  rw [if_neg present, kept, source, toNat_ofNat, toNat_ofNat, if_neg required,
    ← repeated, woven]
  dsimp only [Pure.pure, Except.pure]
  rw [Instruction.woven, List.append_assoc]

theorem unpackOne_encode {outputSize : Nat} {control : Byte}
    {src out rest : List Byte} {instruction : Instruction}
    (small : outputSize < 2 ^ 64) (sized : instruction.Sized lowWord)
    (same : control :: src = instruction.encode ++ rest)
    (fits : out.length + (instruction.expand lowWord).length ≤ outputSize) :
    unpackOne outputSize control src out =
      .ok (rest, out ++ instruction.expand lowWord) := by
  obtain ⟨opcode, size, rfl⟩ :
      ∃ (opcode : BitVec 3) (size : BitVec 5), control = opcode ++ size :=
    ⟨_, _, eq_append control⟩
  have code {value : BitVec 3} {count : Count} {tail : List Byte}
      (same : (opcode ++ size) :: src = count.bytes value ++ tail) :
      opcode = value := by
    cases count with
    | inline size' positive =>
        injection same with head _
        exact (append_injective head).1
    | following argument =>
        injection same with head _
        exact (append_injective head).1
  rw [unpackOne]
  rw [Instruction.encode, List.append_assoc] at same
  cases instruction with
  | zero count =>
      obtain rfl : opcode = 0 := code same
      rw [pidataCount_eq_ok.mpr ⟨count, same, rfl⟩]
      dsimp only [Bind.bind, Except.bind]
      rw [opcode_append, toNat_ofNat]
      dsimp only [Instruction.expand] at fits ⊢
      rw [List.length_replicate] at fits
      exact if_neg (Nat.not_lt.mpr fits)
  | copy count block =>
      obtain rfl : opcode = 1 := code same
      rw [pidataCount_eq_ok.mpr ⟨count, same, rfl⟩]
      dsimp only [Bind.bind, Except.bind]
      rw [opcode_append, toNat_ofNat]
      have length : block.length = lowWord count.value := sized
      exact appendRaw_eq_ok.mpr ⟨block, length, length ▸ fits, rfl, rfl⟩
  | repeated count again block =>
      simp only [Instruction.operands, List.append_assoc] at same
      obtain rfl : opcode = 2 := code same
      rw [pidataCount_eq_ok.mpr ⟨count, same, rfl⟩]
      dsimp only [Bind.bind, Except.bind]
      rw [opcode_append, toNat_ofNat, show (2 : BitVec 3).toNat = 2 from rfl]
      have length : block.length = lowWord count.value := sized
      have total : ((List.replicate (lowWord again.value + 1) block).flatten).length
          = (lowWord again.value + 1) * lowWord count.value := by
        simp [length]
      rw [Instruction.expand, total] at fits
      have enough : ¬lowWord count.value > (block ++ rest).length := by
        rw [List.length_append]
        omega
      have bounded : ¬(lowWord again.value + 1) * lowWord count.value >
          room outputSize out := by
        rw [room_eq small (by omega)]
        omega
      rw [pidataArg_eq_ok.mpr ⟨again, rfl, rfl⟩]
      dsimp only
      rw [if_neg enough, toNat_ofNat, if_neg bounded, ← length, List.drop_left,
        List.take_left]
      rfl
  | interleaved count custom repeats common blocks =>
      simp only [Instruction.operands, List.append_assoc] at same
      obtain rfl : opcode = 3 := code same
      rw [pidataCount_eq_ok.mpr ⟨count, same, rfl⟩]
      dsimp only [Bind.bind, Except.bind]
      rw [opcode_append]
      obtain ⟨length, repeated, sizes⟩ := sized
      have stored : true = false → common =
          List.replicate (BitVec.ofNat 32 count.value).toNat 0 := by
        intro impossible
        cases impossible
      exact unpackInterleaved_blocks true rest small
        (length.trans (toNat_ofNat _).symm) stored repeated sizes fits
  | zeroInterleaved count custom repeats blocks =>
      simp only [Instruction.operands, List.append_assoc] at same
      obtain rfl : opcode = 4 := code same
      rw [pidataCount_eq_ok.mpr ⟨count, same, rfl⟩]
      dsimp only [Bind.bind, Except.bind]
      rw [opcode_append]
      obtain ⟨repeated, sizes⟩ := sized
      rw [Instruction.expand, ← toNat_ofNat] at fits ⊢
      exact unpackInterleaved_blocks false rest small
        (List.length_replicate ..) (fun _ => rfl) repeated sizes fits

theorem Instruction.encode_ne_nil (instruction : Instruction) :
    instruction.encode ≠ [] := by
  have counted : instruction.count.bytes instruction.opcode ≠ [] := by
    cases instruction.count with
    | inline size positive =>
        intro empty
        cases empty
    | following argument =>
        intro empty
        cases empty
  intro empty
  exact counted (List.append_eq_nil_iff.mp empty).1

end Instructions

section Programs

theorem unpackFrom_ok {outputSize fuel : Nat} {src out result : List Byte}
    (enough : src.length ≤ fuel)
    (succeeded : unpackFrom outputSize fuel src out = .ok result) :
    ∃ program : List Instruction,
      (∀ instruction ∈ program, instruction.Sized lowWord) ∧
      src = encoded program ∧ result = out ++ expanded lowWord program := by
  induction fuel generalizing src out with
  | zero =>
      obtain rfl := List.length_eq_zero_iff.mp (Nat.le_zero.mp enough)
      injection succeeded with succeeded
      exact ⟨[], by simp, rfl, by simp [expanded, succeeded]⟩
  | succ fuel induction =>
      cases src with
      | nil =>
          injection succeeded with succeeded
          exact ⟨[], by simp, rfl, by simp [expanded, succeeded]⟩
      | cons control src =>
          obtain ⟨⟨rest, out'⟩, first, succeeded⟩ :=
            Outcome.bind_eq_ok.mp succeeded
          obtain ⟨instruction, sized, same, rfl⟩ := unpackOne_ok first
          have consumed := congrArg List.length same
          rw [List.length_append] at consumed
          have positive := List.length_pos_of_ne_nil instruction.encode_ne_nil
          obtain ⟨program, others, rfl, rfl⟩ := induction (by
            rw [List.length_cons] at consumed enough
            omega) succeeded
          refine ⟨instruction :: program, ?_, same, ?_⟩
          · intro other member
            rcases List.mem_cons.mp member with rfl | member
            · exact sized
            · exact others other member
          · rw [List.append_assoc]
            rfl

theorem unpackFrom_encoded {outputSize fuel : Nat} {out : List Byte}
    {program : List Instruction} (small : outputSize < 2 ^ 64)
    (sized : ∀ instruction ∈ program, instruction.Sized lowWord)
    (enough : (encoded program).length ≤ fuel)
    (fits : out.length + (expanded lowWord program).length ≤ outputSize) :
    unpackFrom outputSize fuel (encoded program) out =
      .ok (out ++ expanded lowWord program) := by
  induction program generalizing fuel out with
  | nil =>
      rw [show expanded lowWord [] = [] from rfl, List.append_nil]
      cases fuel with
      | zero => rfl
      | succ fuel => rfl
  | cons instruction program induction =>
      have whole : encoded (instruction :: program) =
          instruction.encode ++ encoded program := by
        rfl
      have result : expanded lowWord (instruction :: program) =
          instruction.expand lowWord ++ expanded lowWord program := by
        rfl
      rw [result, List.length_append] at fits
      rw [whole, List.length_append] at enough
      rw [whole, result]
      have positive := List.length_pos_of_ne_nil instruction.encode_ne_nil
      obtain ⟨control, src, same⟩ :
          ∃ control src, instruction.encode ++ encoded program =
            control :: src := by
        cases bytes : instruction.encode with
        | nil => exact absurd bytes instruction.encode_ne_nil
        | cons control src => exact ⟨control, _, rfl⟩
      obtain ⟨fuel, rfl⟩ : ∃ less, fuel = less + 1 :=
        ⟨fuel - 1, by omega⟩
      have first : unpackOne outputSize control src out = _ :=
        unpackOne_encode small (sized instruction (by simp)) same.symm (by omega)
      rw [same, unpackFrom, first]
      dsimp only [Bind.bind, Except.bind]
      rw [induction (fun other member => sized other (by simp [member]))
        (by omega) (by rw [List.length_append]; omega), List.append_assoc]

/-- The decoder accepts the programs that expand within the section, with their
numerals read as machine words. -/
theorem unpackPattern_eq_ok {src out : List Byte} {outputSize : Nat}
    (small : outputSize < 2 ^ 64) :
    unpackPattern src outputSize = .ok out ↔
      ∃ program : List Instruction, src = encoded program ∧
        (∀ instruction ∈ program, instruction.Sized lowWord) ∧
        (expanded lowWord program).length ≤ outputSize ∧
        out = filled outputSize (expanded lowWord program) := by
  constructor
  · intro succeeded
    obtain ⟨content, ran, succeeded⟩ := Outcome.bind_eq_ok.mp succeeded
    obtain ⟨program, sized, same, rfl⟩ := unpackFrom_ok (Nat.le_refl _) ran
    rw [List.nil_append] at succeeded
    split at succeeded
    · cases succeeded
    · rename_i within
      injection succeeded with succeeded
      exact ⟨program, same, sized, by omega, succeeded.symm⟩
  · intro ⟨program, same, sized, fits, value⟩
    subst same value
    have room : ([] : List Byte).length + (expanded lowWord program).length ≤
        outputSize := by
      rw [List.length_nil]
      omega
    have ran := unpackFrom_encoded small sized (Nat.le_refl _) room
    rw [unpackPattern, ran]
    dsimp only [Bind.bind, Except.bind]
    rw [List.nil_append, if_neg (by omega)]
    rfl

end Programs

section Reading

private theorem Argument.append_injective {left right : Argument}
    {rest rest' : List Byte}
    (same : left.bytes ++ rest = right.bytes ++ rest') :
    left = right ∧ rest = rest' := by
  obtain ⟨numeral, short⟩ := left
  obtain ⟨numeral', short'⟩ := right
  obtain ⟨rfl, after⟩ := bytes_append_injective
    (show numeral.bytes ++ rest = numeral'.bytes ++ rest' from same)
  exact ⟨rfl, after⟩

private theorem Count.append_injective {opcode opcode' : BitVec 3}
    {left right : Count} {rest rest' : List Byte}
    (same : left.bytes opcode ++ rest = right.bytes opcode' ++ rest') :
    opcode = opcode' ∧ left = right ∧ rest = rest' := by
  cases left with
  | inline size positive =>
      cases right with
      | inline size' positive' =>
          injection same with head tail
          obtain ⟨rfl, rfl⟩ := PpcLab.Pef.append_injective head
          exact ⟨rfl, rfl, tail⟩
      | following argument =>
          injection same with head _
          exact absurd (PpcLab.Pef.append_injective head).2 positive
  | following argument =>
      cases right with
      | inline size positive =>
          injection same with head _
          exact absurd (PpcLab.Pef.append_injective head).2.symm positive
      | following argument' =>
          injection same with head tail
          obtain ⟨rfl, rfl⟩ := Argument.append_injective tail
          exact ⟨(PpcLab.Pef.append_injective head).1, rfl, rfl⟩

private theorem flatten_append_injective {left right : List (List Byte)}
    {size : Nat} {rest rest' : List Byte} (count : left.length = right.length)
    (sizes : ∀ block ∈ left, block.length = size)
    (sizes' : ∀ block ∈ right, block.length = size)
    (same : left.flatten ++ rest = right.flatten ++ rest') :
    left = right ∧ rest = rest' := by
  induction left generalizing right with
  | nil =>
      obtain rfl := List.length_eq_zero_iff.mp count.symm
      exact ⟨rfl, same⟩
  | cons block left induction =>
      cases right with
      | nil => cases count
      | cons block' right =>
          rw [List.flatten_cons, List.flatten_cons, List.append_assoc,
            List.append_assoc] at same
          obtain ⟨rfl, others⟩ := List.append_inj same
            ((sizes block (by simp)).trans (sizes' block' (by simp)).symm)
          obtain ⟨rfl, after⟩ := induction (Nat.succ.inj count)
            (fun other member => sizes other (by simp [member]))
            (fun other member => sizes' other (by simp [member])) others
          exact ⟨rfl, after⟩

/-- An instruction ends where its sizes say it does. -/
theorem Instruction.append_injective {size : Nat → Nat}
    {left right : Instruction} {rest rest' : List Byte}
    (sized : left.Sized size) (sized' : right.Sized size)
    (whole : left.encode ++ rest = right.encode ++ rest') :
    left = right ∧ rest = rest' := by
  rw [encode, encode, List.append_assoc, List.append_assoc] at whole
  obtain ⟨code, counts, same⟩ := Count.append_injective whole
  clear whole
  cases left with
  | zero count =>
      cases right with
      | zero count' => exact ⟨congrArg _ counts, same⟩
      | _ => exact absurd code (by simp [opcode])
  | copy count block =>
      cases right with
      | copy count' block' =>
          obtain rfl : count = count' := counts
          obtain ⟨rfl, after⟩ :=
            List.append_inj same (Eq.trans sized (Eq.symm sized'))
          exact ⟨rfl, after⟩
      | _ => exact absurd code (by simp [opcode])
  | repeated count again block =>
      cases right with
      | repeated count' again' block' =>
          obtain rfl : count = count' := counts
          rw [operands, operands, List.append_assoc, List.append_assoc] at same
          obtain ⟨rfl, stored⟩ := Argument.append_injective same
          obtain ⟨rfl, after⟩ :=
            List.append_inj stored (Eq.trans sized (Eq.symm sized'))
          exact ⟨rfl, after⟩
      | _ => exact absurd code (by simp [opcode])
  | interleaved count custom repeats common blocks =>
      cases right with
      | interleaved count' custom' repeats' common' blocks' =>
          obtain rfl : count = count' := counts
          simp only [operands, List.append_assoc] at same
          obtain ⟨rfl, second⟩ := Argument.append_injective same
          obtain ⟨rfl, stored⟩ := Argument.append_injective second
          obtain ⟨length, repeated, sizes⟩ := sized
          obtain ⟨length', repeated', sizes'⟩ := sized'
          obtain ⟨rfl, customs⟩ :=
            List.append_inj stored (length.trans length'.symm)
          obtain ⟨rfl, after⟩ := flatten_append_injective
            (repeated.trans repeated'.symm) sizes sizes' customs
          exact ⟨rfl, after⟩
      | _ => exact absurd code (by simp [opcode])
  | zeroInterleaved count custom repeats blocks =>
      cases right with
      | zeroInterleaved count' custom' repeats' blocks' =>
          obtain rfl : count = count' := counts
          simp only [operands, List.append_assoc] at same
          obtain ⟨rfl, second⟩ := Argument.append_injective same
          obtain ⟨rfl, stored⟩ := Argument.append_injective second
          obtain ⟨rfl, after⟩ := flatten_append_injective
            (sized.1.trans sized'.1.symm) sized.2 sized'.2 stored
          exact ⟨rfl, after⟩
      | _ => exact absurd code (by simp [opcode])

/-- A stream is the encoding of one program. -/
theorem encoded_injective {size : Nat → Nat} {left right : List Instruction}
    (sized : ∀ instruction ∈ left, instruction.Sized size)
    (sized' : ∀ instruction ∈ right, instruction.Sized size)
    (same : encoded left = encoded right) : left = right := by
  induction left generalizing right with
  | nil =>
      cases right with
      | nil => rfl
      | cons instruction right =>
          exact absurd (List.append_eq_nil_iff.mp same.symm).1
            instruction.encode_ne_nil
  | cons instruction left induction =>
      cases right with
      | nil =>
          exact absurd (List.append_eq_nil_iff.mp same).1
            instruction.encode_ne_nil
      | cons instruction' right =>
          obtain ⟨rfl, others⟩ := Instruction.append_injective
            (sized instruction (by simp)) (sized' instruction' (by simp)) same
          rw [induction (fun other member => sized other (by simp [member]))
            (fun other member => sized' other (by simp [member])) others]

end Reading

section Meaning

/-- What the format says that a stream stands for in a section. -/
def Denotes (src : List Byte) (outputSize : Nat) (out : List Byte) : Prop :=
  ∃ program : List Instruction, src = encoded program ∧
    (∀ instruction ∈ program, instruction.WellFormed) ∧
    (expanded id program).length ≤ outputSize ∧
    out = filled outputSize (expanded id program)

/-- The decoder accepts what has a meaning, and nothing else, and answers with
that meaning. -/
def Faithful (src : List Byte) (outputSize : Nat) : Prop :=
  ∀ out, unpackPattern src outputSize = .ok out ↔ Denotes src outputSize out

/-- No numeral is cut off in a program that expands within the section. -/
def KeepsNumerals (src : List Byte) (outputSize : Nat) : Prop :=
  ∀ program : List Instruction, src = encoded program →
    (∀ instruction ∈ program, instruction.Sized lowWord) →
    (expanded lowWord program).length ≤ outputSize →
    ∀ instruction ∈ program, instruction.Fits

theorem lowWord_eq {argument : Argument} (fits : argument.value < 2 ^ 32) :
    lowWord argument.value = argument.value :=
  Nat.mod_eq_of_lt fits

theorem lowWord_count {count : Count}
    (fits : ∀ argument ∈ count.arguments, argument.value < 2 ^ 32) :
    lowWord count.value = count.value := by
  cases count with
  | inline size positive =>
      have small := size.isLt
      exact Nat.mod_eq_of_lt (show size.toNat < 2 ^ 32 by omega)
  | following argument =>
      exact lowWord_eq (fits argument (by simp [Count.arguments]))

/-- A machine word holds the numerals that fit it. -/
theorem Instruction.Fits.exact {instruction : Instruction}
    (fits : instruction.Fits) :
    (instruction.Sized lowWord ↔ instruction.Sized id) ∧
      instruction.expand lowWord = instruction.expand id := by
  have counted : lowWord instruction.count.value = instruction.count.value := by
    apply lowWord_count
    intro argument member
    apply fits argument
    cases instruction <;>
      simp only [arguments, List.mem_append] <;>
      first | exact member | exact Or.inl member
  cases instruction with
  | zero count =>
      exact ⟨Iff.rfl, congrArg (List.replicate · 0) counted⟩
  | copy count block =>
      have same : lowWord count.value = count.value := counted
      exact ⟨by rw [Sized, Sized, same]; rfl, rfl⟩
  | repeated count again block =>
      have same : lowWord count.value = count.value := counted
      have repeated := lowWord_eq (fits again (by simp [arguments]))
      refine ⟨by rw [Sized, Sized, same]; rfl, ?_⟩
      rw [expand, expand, repeated]
      rfl
  | interleaved count custom repeats common blocks =>
      have same : lowWord count.value = count.value := counted
      have first := lowWord_eq (fits custom (by simp [arguments]))
      have second := lowWord_eq (fits repeats (by simp [arguments]))
      exact ⟨by rw [Sized, Sized, same, first, second]; rfl, rfl⟩
  | zeroInterleaved count custom repeats blocks =>
      have same : lowWord count.value = count.value := counted
      have first := lowWord_eq (fits custom (by simp [arguments]))
      have second := lowWord_eq (fits repeats (by simp [arguments]))
      refine ⟨by rw [Sized, Sized, first, second]; rfl, ?_⟩
      rw [expand, expand, same]
      rfl

theorem expanded_of_fits {program : List Instruction}
    (fits : ∀ instruction ∈ program, instruction.Fits) :
    expanded lowWord program = expanded id program := by
  induction program with
  | nil => rfl
  | cons instruction program induction =>
      have first := (fits instruction (by simp)).exact.2
      have others := induction fun other member => fits other (by simp [member])
      rw [expanded, List.flatMap_cons, first, ← expanded, others]
      rfl

theorem sized_of_wellFormed {program : List Instruction}
    (formed : ∀ instruction ∈ program, instruction.WellFormed) :
    ∀ instruction ∈ program, instruction.Sized lowWord := by
  intro instruction member
  have known := formed instruction member
  exact known.2.exact.1.mpr known.1

/-- A program of the format is expanded exactly when there is room for it. -/
theorem unpackPattern_encoded {program : List Instruction}
    (formed : ∀ instruction ∈ program, instruction.WellFormed)
    {outputSize : Nat} (small : outputSize < 2 ^ 64) (out : List Byte) :
    unpackPattern (encoded program) outputSize = .ok out ↔
      (expanded id program).length ≤ outputSize ∧
        out = filled outputSize (expanded id program) := by
  have same := expanded_of_fits fun instruction member =>
    (formed instruction member).2
  have sized := sized_of_wellFormed formed
  rw [unpackPattern_eq_ok small]
  constructor
  · intro ⟨other, whole, others, fits, value⟩
    obtain rfl := encoded_injective sized others whole
    rw [same] at fits value
    exact ⟨fits, value⟩
  · intro ⟨fits, value⟩
    rw [← same] at fits value
    exact ⟨program, rfl, sized, fits, value⟩

theorem unpackPattern_faithful_iff (src : List Byte) (outputSize : BitVec 64) :
    Faithful src outputSize.toNat ↔ KeepsNumerals src outputSize.toNat := by
  constructor
  · intro faithful program same sized within
    have accepted := (unpackPattern_eq_ok outputSize.isLt).mpr
      ⟨program, same, sized, within, rfl⟩
    obtain ⟨other, sameOther, formed, _, _⟩ := (faithful _).mp accepted
    obtain rfl := encoded_injective sized (sized_of_wellFormed formed)
      (same.symm.trans sameOther)
    intro instruction member
    exact (formed instruction member).2
  · intro keeps out
    constructor
    · intro accepted
      obtain ⟨program, same, sized, within, value⟩ :=
        (unpackPattern_eq_ok outputSize.isLt).mp accepted
      have fits := keeps program same sized within
      rw [expanded_of_fits fits] at within value
      refine ⟨program, same, ?_, within, value⟩
      intro instruction member
      have known := fits instruction member
      exact ⟨known.exact.1.mp (sized instruction member), known⟩
    · intro ⟨program, same, formed, within, value⟩
      subst same
      exact (unpackPattern_encoded formed outputSize.isLt out).mpr
        ⟨within, value⟩

/-- A count of `2^32 + 5` zeros. -/
def cutCount : Argument :=
  ⟨⟨[0x10, 0, 0, 0], 5⟩, Nat.lt_succ_self 4⟩

/-- The decoder takes it for five. -/
theorem unpackPattern_cuts_count :
    ¬Faithful [0x00, 0x90, 0x80, 0x80, 0x80, 0x05] 8 := by
  intro faithful
  have accepted : unpackPattern [0x00, 0x90, 0x80, 0x80, 0x80, 0x05] 8 =
      .ok (List.replicate 8 0) := by
    decide
  obtain ⟨program, same, formed, _, _⟩ := (faithful _).mp accepted
  have single : [(0x00 : Byte), 0x90, 0x80, 0x80, 0x80, 0x05] =
      encoded [.zero (.following cutCount)] := by
    decide
  have sized : ∀ instruction ∈ [Instruction.zero (.following cutCount)],
      instruction.Sized lowWord := by
    simp [Instruction.Sized]
  obtain rfl := encoded_injective sized (sized_of_wellFormed formed)
    (single.symm.trans same)
  have fits := (formed _ (List.mem_singleton.mpr rfl)).2 cutCount
    (by simp [Instruction.arguments, Count.arguments])
  have large : ¬cutCount.value < 2 ^ 32 := by
    decide
  exact large fits

end Meaning

end PpcLab.Pef
