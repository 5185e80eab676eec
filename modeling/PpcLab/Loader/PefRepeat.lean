import PpcLab.Loader.PefRelocation

/-!
# Repeats of relocation instructions

A repeat runs the blocks before it again.  In a stream whose repeats each have
a block of whole instructions without repeats, writing the copies out in the
place of one repeat changes nothing but the positions in error texts.
-/

namespace PpcLab.Pef

/-- Blocks that end where an instruction ends. -/
inductive Whole : List Half → Prop where
  | nil : Whole []
  | short {first : Half} {rest : List Half} :
      isTwoBlock first = false → Whole rest → Whole (first :: rest)
  | long {first second : Half} {rest : List Half} :
      isTwoBlock first = true → Whole rest → Whole (first :: second :: rest)

theorem instructions_short {first : Half} (isShort : isTwoBlock first = false)
    (start : Nat) (rest : List Half) :
    instructions start (first :: rest) =
      (start, decode first none) :: instructions (start + 1) rest := by
  cases rest with
  | nil => rfl
  | cons second rest =>
      rw [instructions, if_neg (by rw [isShort]; exact Bool.false_ne_true)]

theorem instructions_long {first : Half} (isLong : isTwoBlock first = true)
    (start : Nat) (second : Half) (rest : List Half) :
    instructions start (first :: second :: rest) =
      (start, decode first (some second)) :: instructions (start + 2) rest := by
  rw [instructions, if_pos isLong]

namespace Whole

theorem append {blocks later : List Half} (whole : Whole blocks)
    (wholeLater : Whole later) : Whole (blocks ++ later) := by
  induction whole with
  | nil => exact wholeLater
  | short isShort _ induction => exact .short isShort induction
  | long isLong _ induction => exact .long isLong induction

theorem copies {blocks : List Half} (whole : Whole blocks) (count : Nat) :
    Whole (List.replicate count blocks).flatten := by
  induction count with
  | zero => exact .nil
  | succ count induction =>
      rw [List.replicate_succ, List.flatten_cons]
      exact whole.append induction

private theorem of_short {first : Half} {rest : List Half}
    (isShort : isTwoBlock first = false) (whole : Whole (first :: rest)) :
    Whole rest := by
  cases whole with
  | short _ wholeRest => exact wholeRest
  | long isLong _ =>
      rw [isShort] at isLong
      cases isLong

private theorem of_long {first second : Half} {rest : List Half}
    (isLong : isTwoBlock first = true)
    (whole : Whole (first :: second :: rest)) : Whole rest := by
  cases whole with
  | short isShort _ =>
      rw [isLong] at isShort
      cases isShort
  | long _ wholeRest => exact wholeRest

/-- What is left of whole instructions after whole instructions. -/
theorem of_append {blocks later : List Half} (whole : Whole blocks)
    (both : Whole (blocks ++ later)) : Whole later := by
  induction whole with
  | nil => exact both
  | short isShort _ induction => exact induction (of_short isShort both)
  | long isLong _ induction => exact induction (of_long isLong both)

theorem instructions_append {blocks : List Half} (whole : Whole blocks)
    (start : Nat) (later : List Half) :
    instructions start (blocks ++ later) =
      instructions start blocks ++
        instructions (start + blocks.length) later := by
  induction whole generalizing start with
  | nil => rfl
  | short isShort _ induction =>
      rw [List.cons_append, instructions_short isShort,
        instructions_short isShort, induction, List.length_cons,
        List.cons_append, Nat.add_assoc, Nat.add_comm 1]
  | long isLong _ induction =>
      rw [List.cons_append, List.cons_append, instructions_long isLong,
        instructions_long isLong, induction, List.length_cons,
        List.length_cons, List.cons_append, Nat.add_assoc, Nat.add_comm 2]

end Whole

/-- An instruction begins where whole instructions end. -/
theorem exists_whole_before {start : Nat} {blocks : List Half}
    {position : Nat} {operation : Operation}
    (member : (position, operation) ∈ instructions start blocks) :
    ∃ before first rest, blocks = before ++ first :: rest ∧ Whole before ∧
      position = start + before.length ∧
      operation = decode first (if isTwoBlock first then rest.head? else none) := by
  induction start, blocks using instructions.induct with
  | case1 start => cases member
  | case2 start first =>
      rw [instructions, List.mem_singleton] at member
      cases member
      refine ⟨[], first, [], rfl, .nil, rfl, ?_⟩
      split
      · rfl
      · rfl
  | case3 start first second rest isLong induction =>
      rw [instructions_long isLong, List.mem_cons] at member
      rcases member with here | later
      · cases here
        refine ⟨[], first, second :: rest, rfl, .nil, rfl, ?_⟩
        rw [if_pos isLong]
        rfl
      · obtain ⟨before, first', rest', isAppend, whole, isPosition,
          isOperation⟩ := induction later
        refine ⟨first :: second :: before, first', rest', ?_,
          .long isLong whole, ?_, isOperation⟩
        · rw [isAppend]
          rfl
        · rw [isPosition, List.length_cons, List.length_cons]
          omega
  | case4 start first second rest isShort induction =>
      have short : isTwoBlock first = false :=
        (Bool.not_eq_true _).mp isShort
      rw [instructions_short short, List.mem_cons] at member
      rcases member with here | later
      · cases here
        refine ⟨[], first, second :: rest, rfl, .nil, rfl, ?_⟩
        rw [short]
        rfl
      · obtain ⟨before, first', rest', isAppend, whole, isPosition,
          isOperation⟩ := induction later
        refine ⟨first :: before, first', rest', ?_, .short short whole, ?_,
          isOperation⟩
        · rw [isAppend]
          rfl
        · rw [isPosition, List.length_cons]
          omega

theorem position_bounds {start : Nat} {blocks : List Half} {position : Nat}
    {operation : Operation}
    (member : (position, operation) ∈ instructions start blocks) :
    start ≤ position ∧ position < start + blocks.length := by
  obtain ⟨before, first, rest, isAppend, _, isPosition, _⟩ :=
    exists_whole_before member
  rw [isAppend, isPosition, List.length_append, List.length_cons]
  omega

/-- The same instructions begin elsewhere when the blocks do. -/
theorem instructions_moved {related : Nat × Operation → Nat × Operation → Prop}
    {start start' : Nat} {blocks : List Half}
    (moved : ∀ offset operation,
      (start + offset, operation) ∈ instructions start blocks →
      related (start + offset, operation) (start' + offset, operation)) :
    List.Forall₂ related (instructions start blocks)
      (instructions start' blocks) := by
  induction start, blocks using instructions.induct generalizing start' with
  | case1 start => exact .nil
  | case2 start first =>
      exact .cons (moved 0 _ (List.mem_singleton.mpr rfl)) .nil
  | case3 start first second rest isLong induction =>
      rw [instructions_long isLong] at moved ⊢
      rw [instructions_long isLong]
      refine .cons (moved 0 _ List.mem_cons_self) (induction ?_)
      intro offset operation member
      rw [Nat.add_assoc] at member ⊢
      rw [Nat.add_assoc]
      exact moved (2 + offset) operation (List.mem_cons_of_mem _ member)
  | case4 start first second rest isShort induction =>
      have short : isTwoBlock first = false :=
        (Bool.not_eq_true _).mp isShort
      rw [instructions_short short] at moved ⊢
      rw [instructions_short short]
      refine .cons (moved 0 _ List.mem_cons_self) (induction ?_)
      intro offset operation member
      rw [Nat.add_assoc] at member ⊢
      rw [Nat.add_assoc]
      exact moved (1 + offset) operation (List.mem_cons_of_mem _ member)

/-- How many blocks run again, how often, and how many blocks the instruction
takes itself. -/
structure Repeat where
  blockCount : Nat
  repeatCount : Nat
  length : Nat
  deriving DecidableEq, Repr

def repeatOf : Operation → Option Repeat
  | .smallRepeat blockCount repeatCount => some ⟨blockCount, repeatCount, 1⟩
  | .lgRepeat blockCount repeatCount => some ⟨blockCount, repeatCount, 2⟩
  | _ => none

/-- The block of a repeat lies in the stream, begins with an instruction and
holds no repeat. -/
structure Repeatable (chunks : List Half) (position : Nat) (loop : Repeat) :
    Prop where
  inStream : loop.blockCount ≤ position
  boundary : ∃ operation,
    (position - loop.blockCount, operation) ∈ instructions 0 chunks
  flat : ∀ inside operation, (inside, operation) ∈ instructions 0 chunks →
    position - loop.blockCount ≤ inside → inside < position →
    repeatOf operation = none

/-- Every repeat of the stream has such a block. -/
def WellFormed (chunks : List Half) : Prop :=
  ∀ position operation loop, (position, operation) ∈ instructions 0 chunks →
    repeatOf operation = some loop → Repeatable chunks position loop

/-- The stream with the copies of the block in the place of the repeat. -/
def unroll (chunks : List Half) (position : Nat) (loop : Repeat) :
    List Half :=
  let block := (chunks.take position).drop (position - loop.blockCount)
  chunks.take position ++ (List.replicate loop.repeatCount block).flatten ++
    chunks.drop (position + loop.length)

private theorem not_small_of_long {first : Half}
    (isLong : isTwoBlock first = true) : ¬ ((first >>> 12) == 9) = true := by
  intro small
  rw [beq_iff_eq] at small
  unfold isTwoBlock at isLong
  rw [Bool.or_eq_true, Bool.or_eq_true, Bool.or_eq_true, beq_iff_eq,
    beq_iff_eq, beq_iff_eq, beq_iff_eq] at isLong
  bv_omega

private theorem decodeLarge_repeat {first second : Half} {loop : Repeat}
    (isRepeat : repeatOf (decodeLarge first second) = some loop) :
    loop.length = 2 := by
  unfold decodeLarge at isRepeat
  dsimp only at isRepeat
  split at isRepeat
  · cases isRepeat
  · cases isRepeat
  · cases isRepeat
    rfl
  · cases isRepeat

/-- A repeat takes the blocks its first block says. -/
private theorem repeat_length {first : Half} {rest : List Half}
    {loop : Repeat}
    (isRepeat : repeatOf (decode first
      (if isTwoBlock first then rest.head? else none)) = some loop) :
    isTwoBlock first = false ∧ loop.length = 1 ∨
      isTwoBlock first = true ∧ loop.length = 2 ∧
        ∃ second tail, rest = second :: tail := by
  cases size : isTwoBlock first with
  | false =>
      left
      refine ⟨rfl, ?_⟩
      rw [size] at isRepeat
      unfold decode at isRepeat
      rw [size] at isRepeat
      split at isRepeat
      · cases isRepeat
      · split at isRepeat
        · cases isRepeat
        · split at isRepeat
          · cases isRepeat
          · split at isRepeat
            · cases isRepeat
            · split at isRepeat
              · cases isRepeat
                rfl
              · rw [if_neg Bool.false_ne_true] at isRepeat
                split at isRepeat
                · cases isRepeat
                · cases isRepeat
  | true =>
      right
      refine ⟨rfl, ?_⟩
      rw [size, if_pos rfl] at isRepeat
      unfold decode at isRepeat
      rw [size, if_neg (not_small_of_long size), if_pos rfl] at isRepeat
      split at isRepeat
      · cases isRepeat
      · split at isRepeat
        · cases isRepeat
        · split at isRepeat
          · cases isRepeat
          · split at isRepeat
            · cases isRepeat
            · cases rest with
              | nil => cases isRepeat
              | cons second tail =>
                  exact ⟨decodeLarge_repeat isRepeat, second, tail, rfl⟩

/-- A repeat in a stream, with what stands before and after it. -/
private theorem exists_repeat {chunks : List Half} {position : Nat}
    {operation : Operation} {loop : Repeat}
    (member : (position, operation) ∈ instructions 0 chunks)
    (isRepeat : repeatOf operation = some loop) :
    ∃ before blocks after, chunks = before ++ (blocks ++ after) ∧
      Whole before ∧ Whole blocks ∧ before.length = position ∧
      blocks.length = loop.length ∧
      instructions position blocks = [(position, operation)] := by
  obtain ⟨before, first, rest, isAppend, whole, isPosition, isOperation⟩ :=
    exists_whole_before member
  rw [isOperation] at isRepeat
  rcases repeat_length isRepeat with ⟨isShort, length⟩ |
    ⟨isLong, length, second, tail, isRest⟩
  · refine ⟨before, [first], rest, isAppend, whole, .short isShort .nil,
      by omega, length.symm, ?_⟩
    rw [isOperation, isShort]
    rfl
  · refine ⟨before, [first, second], tail, ?_, whole, .long isLong .nil,
      by omega, length.symm, ?_⟩
    · rw [isAppend, isRest]
      rfl
    · rw [instructions_long isLong, isOperation, if_pos isLong, isRest]
      rfl

section Moved

variable (info : ImageInfo) (imports : List ImportInfo)

/-- An instruction that is no repeat does the same wherever it stands. -/
private theorem perform_alike {operation : Operation}
    (noRepeat : repeatOf operation = none)
    (runBlocks runBlocks' : Option (Nat → Nat → RelocM Unit))
    (first first' position position' : Nat) :
    SameFate (perform info imports runBlocks first (position, operation))
      (perform info imports runBlocks' first' (position', operation)) := by
  cases operation with
  | smallRepeat blockCount repeatCount => cases noRepeat
  | lgRepeat blockCount repeatCount => cases noRepeat
  | reserved => exact .throw _ _
  | bySectDWithSkip skip count => exact .refl
  | value sub count => exact .refl
  | byIndex sub index => exact .refl
  | increment amount => exact .refl
  | setPosition offset => exact .refl
  | lgByImport index => exact .refl
  | lgSetOrBySection sub index => exact .refl
  | truncated => exact .refl
  | thirdParty => exact .refl

/-- In a block that runs again every repeat is refused. -/
private theorem perform_none_alike (operation : Operation)
    (first first' position position' : Nat) :
    SameFate (perform info imports none first (position, operation))
      (perform info imports none first' (position', operation)) := by
  cases isRepeat : repeatOf operation with
  | none => exact perform_alike info imports isRepeat _ _ _ _ _ _
  | some loop =>
      cases operation with
      | smallRepeat blockCount repeatCount => exact .refl
      | lgRepeat blockCount repeatCount => exact .refl
      | _ => cases isRepeat

private theorem executeBlocks_alike {chunks chunks' : List Half}
    {first finish first' finish' : Nat}
    (same : (chunks.take finish).drop first =
      (chunks'.take finish').drop first') :
    SameFate (executeBlocks info imports chunks first finish)
      (executeBlocks info imports chunks' first' finish') := by
  unfold executeBlocks blockInstructions
  rw [same]
  apply SameFate.inOrder
  apply instructions_moved
  intro offset operation member
  exact perform_none_alike info imports operation _ _ _ _

private theorem perform_repeat {operation : Operation} {loop : Repeat}
    (isRepeat : repeatOf operation = some loop)
    (runBlocks : Nat → Nat → RelocM Unit) {position : Nat}
    (inStream : loop.blockCount ≤ position) :
    perform info imports (some runBlocks) 0 (position, operation) =
      times (runBlocks (position - loop.blockCount) position)
        loop.repeatCount := by
  cases operation with
  | smallRepeat blockCount repeatCount =>
      cases isRepeat
      have reaches : blockCount ≤ position := inStream
      exact if_neg (by omega)
  | lgRepeat blockCount repeatCount =>
      cases isRepeat
      have reaches : blockCount ≤ position := inStream
      exact if_neg (by omega)
  | _ => cases isRepeat

/-- An instruction of one stream and of another, when the block it may repeat
is the same. -/
private theorem perform_top_alike {chunks chunks' : List Half}
    {position position' : Nat} {operation : Operation}
    (blocks : ∀ loop, repeatOf operation = some loop →
      loop.blockCount ≤ position ∧ loop.blockCount ≤ position' ∧
        (chunks.take position).drop (position - loop.blockCount) =
          (chunks'.take position').drop (position' - loop.blockCount)) :
    SameFate
      (perform info imports (some (executeBlocks info imports chunks)) 0
        (position, operation))
      (perform info imports (some (executeBlocks info imports chunks')) 0
        (position', operation)) := by
  cases isRepeat : repeatOf operation with
  | none => exact perform_alike info imports isRepeat _ _ _ _ _ _
  | some loop =>
      obtain ⟨inStream, inStream', same⟩ := blocks loop isRepeat
      rw [perform_repeat info imports isRepeat _ inStream,
        perform_repeat info imports isRepeat _ inStream']
      exact (executeBlocks_alike info imports same).times _

/-- A block that runs again is its copies one after another. -/
private theorem times_copies {block : List Half} (whole : Whole block)
    {start : Nat}
    (flat : ∀ position operation,
      (position, operation) ∈ instructions start block →
        repeatOf operation = none)
    (runBlocks : Option (Nat → Nat → RelocM Unit)) (first count start' : Nat) :
    SameFate
      (times (inOrder (perform info imports none first)
        (instructions start block)) count)
      (inOrder (perform info imports runBlocks 0)
        (instructions start' (List.replicate count block).flatten)) := by
  induction count generalizing start' with
  | zero => exact .refl
  | succ count induction =>
      rw [List.replicate_succ, List.flatten_cons, whole.instructions_append,
        inOrder_append]
      refine .bind (.inOrder (instructions_moved ?_)) fun _ => induction _
      intro offset operation member
      exact perform_alike info imports (flat _ operation member) _ _ _ _ _ _

end Moved

/-- A repeat in a well-formed stream: what stands before its block, the block,
the repeat itself and what follows. -/
private theorem exists_block {chunks : List Half}
    (wellFormed : WellFormed chunks) {position : Nat} {operation : Operation}
    {loop : Repeat}
    (member : (position, operation) ∈ instructions 0 chunks)
    (isRepeat : repeatOf operation = some loop) :
    ∃ lead block blocks after,
      chunks = (lead ++ block) ++ (blocks ++ after) ∧
        Whole lead ∧ Whole block ∧ Whole blocks ∧
        (lead ++ block).length = position ∧ blocks.length = loop.length ∧
        lead.length = position - loop.blockCount ∧
        instructions position blocks = [(position, operation)] := by
  obtain ⟨before, blocks, after, isAppend, whole, wholeBlocks, isPosition,
    length, isBlocks⟩ := exists_repeat member isRepeat
  have repeatable := wellFormed position operation loop member isRepeat
  obtain ⟨inside, isInstruction⟩ := repeatable.boundary
  obtain ⟨lead, first, rest, isLead, wholeLead, leadLength, _⟩ :=
    exists_whole_before isInstruction
  rw [Nat.zero_add] at leadLength
  have isPrefixOf : lead = before.take lead.length := by
    have taken := congrArg (List.take lead.length) (isAppend.symm.trans isLead)
    rw [List.take_left, List.take_append_of_le_length (by omega)] at taken
    exact taken.symm
  have isBlock : before = lead ++ before.drop lead.length := by
    have split := List.take_append_drop lead.length before
    rw [← isPrefixOf] at split
    exact split.symm
  refine ⟨lead, before.drop lead.length, blocks, after, ?_, wholeLead, ?_,
    wholeBlocks, ?_, length, leadLength.symm, isBlocks⟩
  · rw [← isBlock]
    exact isAppend
  · apply wholeLead.of_append
    rw [← isBlock]
    exact whole
  · rw [← isBlock]
    exact isPosition

/-- A later repeat does not reach back to the repeat. -/
private theorem later_reaches {chunks before after : List Half}
    (wellFormed : WellFormed chunks) {position length : Nat}
    {operation : Operation} {loop : Repeat}
    (parts : instructions 0 chunks = instructions 0 before ++
      ([(position, operation)] ++ instructions (position + length) after))
    (isPosition : before.length = position)
    (isRepeat : repeatOf operation = some loop) (longer : 0 < length) :
    ∀ offset later laterLoop,
      (position + length + offset, later) ∈
          instructions (position + length) after →
        repeatOf later = some laterLoop → laterLoop.blockCount ≤ offset := by
  intro offset later laterLoop inAfter isLaterRepeat
  have member : (position, operation) ∈ instructions 0 chunks := by
    rw [parts]
    exact List.mem_append_right _ List.mem_cons_self
  have inChunks : (position + length + offset, later) ∈
      instructions 0 chunks := by
    rw [parts]
    exact List.mem_append_right _ (List.mem_append_right _ inAfter)
  have repeatable := wellFormed _ _ _ inChunks isLaterRepeat
  obtain ⟨inside, isInstruction⟩ := repeatable.boundary
  by_contra reachesBack
  have notBefore : position <
      position + length + offset - laterLoop.blockCount := by
    by_contra covered
    have refused := repeatable.flat position operation member (by omega)
      (by omega)
    rw [isRepeat] at refused
    cases refused
  rw [parts] at isInstruction
  rcases List.mem_append.mp isInstruction with inFront | inRest
  · have bounds := position_bounds inFront
    omega
  · rcases List.mem_append.mp inRest with isHere | inLater
    · have isSame := (Prod.mk.inj (List.mem_singleton.mp isHere)).1
      omega
    · have bounds := position_bounds inLater
      omega

section Unrolling

variable (info : ImageInfo) (imports : List ImportInfo)

/-- What stands before the repeat does the same in both streams. -/
private theorem before_alike {before later later' : List Half}
    (reaches : ∀ position operation loop,
      (position, operation) ∈ instructions 0 before →
        repeatOf operation = some loop → loop.blockCount ≤ position) :
    SameFate
      (inOrder (perform info imports
        (some (executeBlocks info imports (before ++ later))) 0)
        (instructions 0 before))
      (inOrder (perform info imports
        (some (executeBlocks info imports (before ++ later'))) 0)
        (instructions 0 before)) := by
  apply SameFate.inOrder
  apply instructions_moved
  intro offset operation member
  apply perform_top_alike
  intro loop isRepeat
  have bounds := position_bounds member
  refine ⟨reaches _ operation loop member isRepeat,
    reaches _ operation loop member isRepeat, ?_⟩
  rw [List.take_append_of_le_length (by omega),
    List.take_append_of_le_length (by omega)]

/-- What follows the repeat does the same in both streams, when its own
repeats do not reach back over it. -/
private theorem after_alike (front front' : List Half) {after : List Half}
    (reaches : ∀ offset operation loop,
      (front.length + offset, operation) ∈
          instructions front.length after →
        repeatOf operation = some loop → loop.blockCount ≤ offset) :
    SameFate
      (inOrder (perform info imports
        (some (executeBlocks info imports (front ++ after))) 0)
        (instructions front.length after))
      (inOrder (perform info imports
        (some (executeBlocks info imports (front' ++ after))) 0)
        (instructions front'.length after)) := by
  apply SameFate.inOrder
  apply instructions_moved
  intro offset operation member
  apply perform_top_alike
  intro loop isRepeat
  have inAfter := reaches offset operation loop member isRepeat
  refine ⟨by omega, by omega, ?_⟩
  rw [List.take_length_add_append, List.take_length_add_append,
    Nat.add_sub_assoc inAfter, Nat.add_sub_assoc inAfter,
    List.drop_length_add_append, List.drop_length_add_append]

end Unrolling

/-- In a well-formed stream any repeat can be replaced by the copies of its
block: from every state the run succeeds or fails as before and leaves the same
memory and registers. -/
theorem run_unroll (info : ImageInfo) (imports : List ImportInfo)
    {chunks : List Half} (wellFormed : WellFormed chunks) {position : Nat}
    {operation : Operation} {loop : Repeat}
    (member : (position, operation) ∈ instructions 0 chunks)
    (isRepeat : repeatOf operation = some loop) (machine : Relocating) :
    fate (run info imports chunks machine) =
      fate (run info imports (unroll chunks position loop) machine) := by
  obtain ⟨lead, block, blocks, after, isAppend, wholeLead, wholeBlock,
    wholeBlocks, isPosition, length, leadLength, isBlocks⟩ :=
    exists_block wellFormed member isRepeat
  have repeatable := wellFormed position operation loop member isRepeat
  have inStream := repeatable.inStream
  have blockOf : (chunks.take position).drop (position - loop.blockCount) =
      block := by
    rw [isAppend, List.take_left' isPosition, ← leadLength, List.drop_left]
  have unrolled : unroll chunks position loop =
      (lead ++ block) ++ (List.replicate loop.repeatCount block).flatten ++
        after := by
    have dropped : chunks.drop (position + loop.length) = after := by
      rw [isAppend, ← isPosition, ← length, List.drop_length_add_append,
        List.drop_left]
    unfold unroll
    rw [blockOf, dropped, isAppend, List.take_left' isPosition]
  have wholeFront := wholeLead.append wholeBlock
  have parts : instructions 0 chunks = instructions 0 (lead ++ block) ++
      ([(position, operation)] ++
        instructions (position + blocks.length) after) := by
    rw [isAppend, wholeFront.instructions_append, Nat.zero_add, isPosition,
      wholeBlocks.instructions_append, isBlocks]
  have blockParts : instructions 0 (lead ++ block) =
      instructions 0 lead ++ instructions lead.length block := by
    rw [wholeLead.instructions_append, Nat.zero_add]
  have flat : ∀ inside operation,
      (inside, operation) ∈ instructions lead.length block →
        repeatOf operation = none := by
    intro inside operation insideBlock
    have bounds := position_bounds insideBlock
    rw [List.length_append] at isPosition
    apply repeatable.flat inside operation
    · rw [parts, blockParts]
      exact List.mem_append_left _ (List.mem_append_right _ insideBlock)
    · omega
    · omega
  have longer : 0 < blocks.length := by
    cases blocks with
    | nil => cases isBlocks
    | cons first rest => exact Nat.succ_pos _
  have reaches := later_reaches wellFormed parts isPosition isRepeat longer
  have alike : SameFate (run info imports chunks)
      (run info imports ((lead ++ block) ++
        (List.replicate loop.repeatCount block).flatten ++ after)) := by
    have wholeCopies := wholeBlock.copies loop.repeatCount
    unfold run
    rw [parts, (wholeFront.append wholeCopies).instructions_append,
      wholeFront.instructions_append,
      List.append_assoc (instructions 0 (lead ++ block)), inOrder_append,
      inOrder_append, inOrder_append, inOrder_append, Nat.zero_add,
      Nat.zero_add, isPosition]
    refine .bind ?_ fun _ => .bind ?_ fun _ => ?_
    · rw [isAppend, List.append_assoc (lead ++ block)]
      apply before_alike
      intro inside other otherLoop inFront isOtherRepeat
      apply (wellFormed inside other otherLoop _ isOtherRepeat).inStream
      rw [parts]
      exact List.mem_append_left _ inFront
    · rw [inOrder_singleton, perform_repeat info imports isRepeat _ inStream]
      unfold executeBlocks blockInstructions
      rw [blockOf, ← leadLength]
      exact times_copies info imports wholeBlock flat _ _ _ _
    · have tail := after_alike info imports ((lead ++ block) ++ blocks)
        ((lead ++ block) ++ (List.replicate loop.repeatCount block).flatten)
        (by rw [List.length_append, isPosition]; exact reaches)
      rw [List.append_assoc, ← isAppend, List.length_append, isPosition] at tail
      exact tail
  rw [unrolled]
  exact alike machine

/-- An increment that is repeated twice. -/
theorem increment_unrolls :
    fate (run ⟨[]⟩ [] [0x8003, 0x9001] ⟨.empty, ⟨0, 0, 0, 0, 0⟩, []⟩) =
      fate (run ⟨[]⟩ [] (unroll [0x8003, 0x9001] 1 ⟨1, 2, 1⟩)
        ⟨.empty, ⟨0, 0, 0, 0, 0⟩, []⟩) := by
  have parts : instructions 0 [0x8003, 0x9001] =
      [(0, .increment 4), (1, .smallRepeat 1 2)] := by decide
  have wellFormed : WellFormed [0x8003, 0x9001] := by
    intro position operation loop member isRepeat
    rw [parts, List.mem_cons, List.mem_singleton] at member
    rcases member with isFirst | isSecond
    · cases isFirst
      cases isRepeat
    · cases isSecond
      cases isRepeat
      refine ⟨by decide, ⟨.increment 4, by decide⟩, ?_⟩
      intro inside operation member notBefore before
      rw [parts, List.mem_cons, List.mem_singleton] at member
      rcases member with isFirst | isSecond
      · cases isFirst
        rfl
      · cases isSecond
        omega
  exact run_unroll ⟨[]⟩ [] wellFormed
    (show (1, Operation.smallRepeat 1 2) ∈ _ by decide) rfl _

end PpcLab.Pef
