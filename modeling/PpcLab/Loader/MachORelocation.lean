import PpcLab.Loader.MachO

/-!
# Mach-O relocations against the code they patch

A paired entry rebuilds an address from the half in the instruction and the
half in its companion entry.  For the adjusted upper half the loader joins the
two as they stand, so the carry of a negative lower half is counted twice.  A
local entry adds the new address of a section to the stored address without
taking the section's old address off, which the symbol table does.
-/

namespace PpcLab.MachO

open Loader Instruction BuiltinInterpreter Immediate

/-- A paired entry for the word at a place, not relative to it. -/
structure PairedEntry (info : ImageInfo) (runtime : List RuntimeSymbol)
    (owner : SectionInfo) (place : Word) (type : Nat) (target : Word)
    (other : Half) (entry pair : RelocationWords) : Prop where
  place : owner.mappedAddress + entry.word0 = place
  type : entry.type = type
  absolute : entry.pcrel = false
  target : resolveRelocTarget runtime info entry.symbolNum entry.external =
    .ok target
  other : pair.word0.field 0 16 = other

section Paired

variable {info : ImageInfo} {runtime : List RuntimeSymbol} {error : String}
  {owner : SectionInfo} {place target : Word} {type : Nat} {other : Half}
  {entry pair : RelocationWords} {before after : Memory} {flag : Bool}

private theorem writtenBack_eq_withField (insn : Word) (half : Half) :
    (insn &&& 0xffff0000) ||| half.setWidth 32 = insn.withField 0 half := by
  rw [Word.withField, BitVec.shiftLeft_zero, BitVec.shiftLeft_zero]
  rfl

private theorem applyPaired_eq_ok {insn : Word} {value : Int → Int}
    (applied : applyPaired error before place insn type value (some pair) =
      .ok (after, flag)) :
    directWrite32 before place
        (insn.withField 0 (patchedHalf type
          (value (pairedAddend type (insn.field 0 16)
            (pair.word0.field 0 16)).toInt))) = some after := by
  unfold applyPaired at applied
  dsimp only at applied
  split at applied
  · cases applied
  rw [writtenBack_eq_withField] at applied
  cases stored : directWrite32 before place
      (insn.withField 0 (patchedHalf type
        (value (pairedAddend type (insn.field 0 16)
          (pair.word0.field 0 16)).toInt))) with
  | none =>
      rw [stored] at applied
      cases applied
  | some memory =>
      rw [stored] at applied
      cases applied
      rfl

/-- What a paired entry writes when it succeeds. -/
theorem PairedEntry.writes
    (paired : PairedEntry info runtime owner place type target other entry
      pair)
    (isPaired : type ∈ [ppcRelocHi16, ppcRelocLo16, ppcRelocHa16])
    (applied : applyRelocation info runtime error owner before entry
      (some pair) = .ok (after, flag))
    {insn : Word} (present : directRead32 before place = some insn) :
    directWrite32 before place
        (insn.withField 0 (patchedHalf type
          (target.toNat +
            (pairedAddend type (insn.field 0 16) other).toInt))) =
      some after := by
  simp only [List.mem_cons, List.not_mem_nil, or_false] at isPaired
  unfold applyRelocation at applied
  split at applied
  · cases applied
  split at applied
  · cases applied
  split at applied
  · cases applied
  rw [paired.target, paired.place, paired.absolute, paired.type] at applied
  simp only [bind, Except.bind, present] at applied
  rw [← paired.other]
  rcases isPaired with rfl | rfl | rfl
  · simpa using applyPaired_eq_ok applied
  · simpa using applyPaired_eq_ok applied
  · simpa using applyPaired_eq_ok applied

end Paired

/-- Entries for the two halves of a linked address, each with the other half
in its companion. -/
structure LinkedPair (info : ImageInfo) (runtime : List RuntimeSymbol)
    (owner : SectionInfo) (place : Word) (upperType : Nat)
    (target address : Word) (upper upperPair lower lowerPair : RelocationWords) :
    Prop where
  upper : PairedEntry info runtime owner place upperType target
    (address.field 0 16) upper upperPair
  lower : PairedEntry info runtime owner (place + 4) ppcRelocLo16 target
    (address.field 16 16) lower lowerPair

/-- Both entries were applied, in either order. -/
def BothApplied (info : ImageInfo) (runtime : List RuntimeSymbol)
    (error : String) (owner : SectionInfo)
    (upper upperPair lower lowerPair : RelocationWords)
    (before after : Memory) : Prop :=
  (∃ middle,
      applyRelocation info runtime error owner before upper
        (some upperPair) = .ok (middle, true) ∧
      applyRelocation info runtime error owner middle lower
        (some lowerPair) = .ok (after, true)) ∨
    ∃ middle,
      applyRelocation info runtime error owner before lower
        (some lowerPair) = .ok (middle, true) ∧
      applyRelocation info runtime error owner middle upper
        (some upperPair) = .ok (after, true)

/-- Executing the two words at a place leaves a value in a register. -/
def Computes (host : Host) (config : ExecutionConfig) (memory : Memory)
    (place : Word) (destination : Register) (value : Word) : Prop :=
  ∀ machine : Machine, machine.memory = memory → machine.cpu.pc = place →
    (run host (withLimit config 2) machine).2.cpu.gpr destination = value

section Sequences

variable {host : Host} {config : ExecutionConfig} {info : ImageInfo}
  {runtime : List RuntimeSymbol} {error : String} {owner : SectionInfo}
  {place target address first second : Word} {upperType : Nat}
  {upper upperPair lower lowerPair : RelocationWords}
  {before after : Memory}

private theorem computes_iff {destination : Register} {value result : Word}
    (executed : ∀ machine : Machine, machine.memory = before →
      machine.cpu.pc = place →
      (run host (withLimit config 2) machine).2.cpu.gpr destination = result) :
    Computes host config before place destination value ↔ result = value := by
  constructor
  · intro computes
    let machine : Machine := ⟨before, { CpuState.zero with pc := place }, []⟩
    rw [← executed machine rfl rfl]
    exact computes machine rfl rfl
  · rintro rfl
    exact executed

theorem computes_adjustedPair (host : Host) (value : Word)
    (code : CodeAt config before place first second)
    (pair : AdjustedPair first second) :
    Computes host config before place (rt second) value ↔
      sum (first.field 0 16) (second.field 0 16) = value := by
  apply computes_iff
  rintro machine rfl rfl
  exact run_adjustedPair host code pair

theorem computes_joinedPair (host : Host) (value : Word)
    (code : CodeAt config before place first second)
    (pair : JoinedPair first second) :
    Computes host config before place (ra second) value ↔
      join (first.field 0 16) (second.field 0 16) = value := by
  apply computes_iff
  rintro machine rfl rfl
  exact run_joinedPair host code pair

/-- The words in memory once both entries were applied. -/
theorem LinkedPair.patched
    (linked : LinkedPair info runtime owner place upperType target address
      upper upperPair lower lowerPair)
    (isUpper : upperType ∈ [ppcRelocHi16, ppcRelocHa16])
    (wellFormed : before.WellFormed)
    (code : CodeAt config before place first second)
    (applied : BothApplied info runtime error owner upper upperPair lower
      lowerPair before after) :
    CodeAt config after place
      (first.withField 0 (patchedHalf upperType (target.toNat +
        (join (first.field 0 16) (address.field 0 16)).toInt)))
      (second.withField 0 (low (target.toNat +
        (join (address.field 16 16) (second.field 0 16)).toInt))) := by
  have joined : pairedAddend upperType (first.field 0 16)
      (address.field 0 16) =
        join (first.field 0 16) (address.field 0 16) := by
    simp only [List.mem_cons, List.not_mem_nil, or_false] at isUpper
    rw [pairedAddend, if_pos isUpper]
    rfl
  have isPaired : upperType ∈ [ppcRelocHi16, ppcRelocLo16, ppcRelocHa16] := by
    simp only [List.mem_cons, List.not_mem_nil, or_false] at isUpper ⊢
    exact isUpper.imp_right .inr
  rcases applied with ⟨middle, one, two⟩ | ⟨middle, one, two⟩
  · have stored := linked.upper.writes isPaired one code.firstWord
    rw [joined] at stored
    have between := code.patchFirstWord wellFormed stored
    have last := linked.lower.writes (by decide) two between.secondWord
    exact between.patchSecondWord
      ((directWrite_sameShape stored).wellFormed wellFormed) last
  · have stored := linked.lower.writes (by decide) one code.secondWord
    have between := code.patchSecondWord wellFormed stored
    have last := linked.upper.writes isPaired two between.firstWord
    rw [joined] at last
    exact between.patchFirstWord
      ((directWrite_sameShape stored).wellFormed wellFormed) last

/-- Against a target the adjusted pair computes what its halves join to. -/
private theorem relocated_sum (target : Word) (upper lower other : Half) :
    sum (patchedHalf ppcRelocHa16 (target.toNat + (join upper lower).toInt))
        (low (target.toNat + (join other lower).toInt)) =
      join upper lower + target := by
  have sameLow : low (target.toNat + (join other lower).toInt) =
      low (target.toNat + (join upper lower).toInt) := by
    apply low_add_congr
    rw [field_join, field_join]
  rw [sameLow]
  exact (sum_highAdjusted_low _).trans (ofInt_add_toInt _ _)

private theorem relocated_join (target : Word) (upper lower other : Half) :
    join (patchedHalf ppcRelocHi16 (target.toNat + (join upper lower).toInt))
        (low (target.toNat + (join other lower).toInt)) =
      join upper lower + target := by
  have sameLow : low (target.toNat + (join other lower).toInt) =
      low (target.toNat + (join upper lower).toInt) := by
    apply low_add_congr
    rw [field_join, field_join]
  rw [sameLow]
  exact (join_high_low _).trans (ofInt_add_toInt _ _)

theorem adjusted_computes_iff
    (linked : LinkedPair info runtime owner place ppcRelocHa16 target address
      upper upperPair lower lowerPair)
    (wellFormed : before.WellFormed)
    (code : CodeAt config before place first second)
    (pair : AdjustedPair first second)
    (computes : Computes host config before place (rt second) address)
    (applied : BothApplied info runtime error owner upper upperPair lower
      lowerPair before after) :
    Computes host config after place (rt second) (address + target) ↔
      address.getLsbD 15 = false := by
  have patched := linked.patched (by decide) wellFormed code applied
  have linkedSum := (computes_adjustedPair host address code pair).mp computes
  have lowerHalf : address.field 0 16 = second.field 0 16 := by
    rw [← linkedSum, field_sum]
  have signBit : (second.field 0 16).msb = address.getLsbD 15 := by
    rw [← lowerHalf, BitVec.msb_eq_getLsbD_last, Word.getLsbD_field]
    simp
  have moved := computes_adjustedPair host (address + target) patched
    (pair.withImmediates _ _)
  rw [rt_withImmediate, Word.field_withField_self _ _ (by omega),
    Word.field_withField_self _ _ (by omega), lowerHalf, relocated_sum,
    join_eq_sum_add, linkedSum, signBit] at moved
  rw [moved]
  cases address.getLsbD 15 with
  | false => simp
  | true =>
      simp only [if_true, Bool.true_eq_false, iff_false]
      intro same
      have carried := BitVec.add_right_eq_self.mp
        ((BitVec.add_left_inj target).mp same)
      exact absurd carried (by decide)

theorem joined_computes
    (linked : LinkedPair info runtime owner place ppcRelocHi16 target address
      upper upperPair lower lowerPair)
    (wellFormed : before.WellFormed)
    (code : CodeAt config before place first second)
    (pair : JoinedPair first second)
    (computes : Computes host config before place (ra second) address)
    (applied : BothApplied info runtime error owner upper upperPair lower
      lowerPair before after) :
    Computes host config after place (ra second) (address + target) := by
  have patched := linked.patched (by decide) wellFormed code applied
  have linkedJoin := (computes_joinedPair host address code pair).mp computes
  have lowerHalf : address.field 0 16 = second.field 0 16 := by
    rw [← linkedJoin, field_join]
  have moved := computes_joinedPair host (address + target) patched
    (pair.withImmediates _ _)
  rw [ra_withImmediate, Word.field_withField_self _ _ (by omega),
    Word.field_withField_self _ _ (by omega), lowerHalf, relocated_join,
    linkedJoin] at moved
  exact moved.mpr rfl

end Sequences

/-- A linked pair that computed `address` was relocated against `target`. -/
structure Relocated (host : Host) (config : ExecutionConfig)
    (upperType : Nat) (pair : Word → Word → Prop)
    (destination : Word → Register) (address target : Word)
    (place first second : Word) (before after : Memory) : Prop where
  wellFormed : before.WellFormed
  code : CodeAt config before place first second
  pair : pair first second
  computes : Computes host config before place (destination second) address
  applied : ∃ info runtime error owner upper upperPair lower lowerPair,
    LinkedPair info runtime owner place upperType target address upper
        upperPair lower lowerPair ∧
      BothApplied info runtime error owner upper upperPair lower lowerPair
        before after

/-- Relocating either kind of pair adds the target to the address it
computes. -/
def AddressesPreserved (host : Host) (config : ExecutionConfig)
    (address target : Word) : Prop :=
  (∀ place first second before after,
    Relocated host config ppcRelocHa16 AdjustedPair rt address target place
        first second before after →
      Computes host config after place (rt second) (address + target)) ∧
    ∀ place first second before after,
      Relocated host config ppcRelocHi16 JoinedPair ra address target place
          first second before after →
        Computes host config after place (ra second) (address + target)

/-- A relocated `addis`/`addi` pair adds the target exactly when bit 15 of the
linked address is clear; a relocated `addis`/`ori` pair always does. -/
theorem relocated_pair_computes_iff (host : Host) (config : ExecutionConfig)
    (address target : Word) :
    (∀ place first second before after,
      Relocated host config ppcRelocHa16 AdjustedPair rt address target place
          first second before after →
        (Computes host config after place (rt second) (address + target) ↔
          address.getLsbD 15 = false)) ∧
      ∀ place first second before after,
        Relocated host config ppcRelocHi16 JoinedPair ra address target place
            first second before after →
          Computes host config after place (ra second)
            (address + target) := by
  constructor
  · intro place first second before after relocated
    obtain ⟨wellFormed, code, pair, computes, _, _, _, _, _, _, _, _, linked,
      applied⟩ := relocated
    exact adjusted_computes_iff linked wellFormed code pair computes applied
  · intro place first second before after relocated
    obtain ⟨wellFormed, code, pair, computes, _, _, _, _, _, _, _, _, linked,
      applied⟩ := relocated
    exact joined_computes linked wellFormed code pair computes applied

private def sampleText (upper lower : Word) : Memory :=
  ⟨[{ base := 0x1000
      bytes := Bytes.encode 4 upper ++ Bytes.encode 4 lower
      perms := .read ||| .execute
      name := "macho:__TEXT,__text" }]⟩

private def sampleSection : SectionInfo :=
  { sectionName := "__text"
    segmentName := "__TEXT"
    address := 0
    size := 8
    fileOffset := 0
    alignmentPower := 2
    relocationOffset := 0
    relocationCount := 4
    flags := 0
    mappedAddress := 0x1000 }

private def sampleInfo : ImageInfo :=
  ⟨mhObject, 0x1000, [], [sampleSection], []⟩

private theorem sample_relocated :
    Relocated .quiet {} ppcRelocHa16 AdjustedPair rt 0x8000 0x1000 0x1000
      0x3c600001 0x38838000 (sampleText 0x3c600001 0x38838000)
      (sampleText 0x3c600002 0x38839000) := by
  have wellFormed : (sampleText 0x3c600001 0x38838000).WellFormed :=
    ⟨by simp [sampleText], by decide, by decide⟩
  have fetchable : ∀ address : Word, address = 0x1000 ∨ address = 0x1004 →
      Fetchable {} (sampleText 0x3c600001 0x38838000) address := by
    rintro address (rfl | rfl)
    · exact ⟨by decide, by decide, by decide, by decide⟩
    · exact ⟨by decide, by decide, by decide, by decide⟩
  have code : CodeAt {} (sampleText 0x3c600001 0x38838000) 0x1000
      0x3c600001 0x38838000 :=
    ⟨by decide, by decide, fetchable _ (.inl rfl),
      fetchable _ (.inr rfl)⟩
  have pair : AdjustedPair 0x3c600001 0x38838000 := by
    constructor <;> decide
  refine ⟨wellFormed, code, pair,
    (computes_adjustedPair .quiet 0x8000 code pair).mpr (by decide), ?_⟩
  refine ⟨sampleInfo, [], "", sampleSection, ⟨0, 0x146⟩, ⟨0x8000, 0x141⟩,
    ⟨4, 0x145⟩, ⟨0, 0x141⟩, ⟨⟨?_, ?_, ?_, ?_, ?_⟩, ⟨?_, ?_, ?_, ?_, ?_⟩⟩,
    .inl ⟨sampleText 0x3c600002 0x38838000, ?_, ?_⟩⟩
  all_goals rfl

/-- The pair that computes `0x8000` ends up at `0x19000` instead of `0x9000`
when it is moved by `0x1000`. -/
theorem pair_at_0x8000_gains_0x10000 :
    ¬AddressesPreserved .quiet {} 0x8000 0x1000 := by
  intro preserved
  have computes := preserved.1 _ _ _ _ _ sample_relocated
  obtain ⟨wellFormed, code, pair, linkedComputes, _, _, _, _, _, _, _, _,
    linked, applied⟩ := sample_relocated
  have clear := (adjusted_computes_iff linked wellFormed code pair
    linkedComputes applied).mp computes
  exact absurd clear (by decide)

/-- A 32-bit entry that is not relative to its place. -/
structure VanillaEntry (entry : RelocationWords) (external : Bool)
    (symbolNum : Nat) : Prop where
  type : entry.type = ppcRelocVanilla
  length : entry.length = 2
  absolute : entry.pcrel = false
  external : entry.external = external
  symbolNum : entry.symbolNum = symbolNum

theorem VanillaEntry.writes {info : ImageInfo} {runtime : List RuntimeSymbol}
    {error : String} {owner : SectionInfo} {entry : RelocationWords}
    {next : Option RelocationWords} {external : Bool} {symbolNum : Nat}
    {target stored : Word} {before after : Memory} {flag : Bool}
    (vanilla : VanillaEntry entry external symbolNum)
    (resolved : resolveRelocTarget runtime info symbolNum external =
      .ok target)
    (present : directRead32 before (owner.mappedAddress + entry.word0) =
      some stored)
    (applied : applyRelocation info runtime error owner before entry next =
      .ok (after, flag)) :
    directRead32 after (owner.mappedAddress + entry.word0) =
      some (stored + target) := by
  unfold applyRelocation at applied
  split at applied
  · cases applied
  split at applied
  · cases applied
  split at applied
  · cases applied
  rw [vanilla.symbolNum, vanilla.external, resolved, vanilla.absolute,
    vanilla.type] at applied
  simp only [bind, Except.bind, present, vanilla.length, if_true,
    Bool.false_eq_true, if_false, Int.sub_zero, ofInt_add_toInt] at applied
  cases result : directWrite32 before (owner.mappedAddress + entry.word0)
      (stored + target) with
  | none =>
      rw [result] at applied
      have failed : Except.error error = Except.ok (after, flag) := applied
      cases failed
  | some memory =>
      rw [result] at applied
      have succeeded : Except.ok (memory, false) =
          (Except.ok (after, flag) : Except String (Memory × Bool)) := applied
      cases succeeded
      exact directRead32_directWrite32 result

/-- A symbol of a section of an object file, with its value before loading. -/
structure SectionSymbol (raw : RawSymbol) (ordinal : Nat) (value : Word) :
    Prop where
  notStab : raw.nType &&& nStab = 0
  kind : raw.nType &&& nTypeMask = nSectKind
  ordinal : raw.nSect.toNat = ordinal
  value : raw.symbol.value = value

theorem SectionSymbol.resolves {info : ImageInfo} {target : SectionInfo}
    {raw : RawSymbol} {index : Nat} {value : Word}
    (symbol : SectionSymbol raw (index + 1) value)
    (isObject : info.fileType = mhObject)
    (section' : info.sections[index]? = some target)
    (bindings : List SymbolBinding) :
    resolveSymbol info bindings raw =
      some (target.mappedAddress + (value - target.address)) := by
  have notZero : raw.nSect ≠ 0 := by
    intro zero
    have ordinal := symbol.ordinal
    rw [zero] at ordinal
    contradiction
  have different : nSectKind ≠ nUndf ∧ nSectKind ≠ nAbs := by decide
  unfold resolveSymbol
  simp only [symbol.notStab, symbol.kind, symbol.ordinal, symbol.value,
    bne_self_eq_false, Bool.false_eq_true, if_false, different.1,
    different.2, true_and, Nat.add_sub_cancel, section', isObject, if_true]
  rw [if_pos notZero]

/-- One address of a section reached both ways: a local entry over the stored
address, and an external entry over zero against a symbol of that value. -/
structure TwoWays (info : ImageInfo) (runtime : List RuntimeSymbol)
    (target : SectionInfo) (address localWord externalWord : Word) :
    Prop where
  isObject : info.fileType = mhObject
  inside : target.address.toNat ≤ address.toNat ∧
    address.toNat < target.address.toNat + target.size.toNat
  loaded : ∃ parsed imageBase bindings before mapped,
    mapImage parsed before parsed.info imageBase = .ok (mapped, info) ∧
      runtime = (buildSymbols parsed info bindings).1 ∧
      ∃ index symbolIndex raw,
        info.sections[index]? = some target ∧
        parsed.rawSymbols[symbolIndex]? = some raw ∧
        SectionSymbol raw (index + 1) address ∧
        (∃ error owner entry next memory after flag,
          VanillaEntry entry false (index + 1) ∧
          directRead32 memory (owner.mappedAddress + entry.word0) =
            some address ∧
          applyRelocation info runtime error owner memory entry next =
            .ok (after, flag) ∧
          directRead32 after (owner.mappedAddress + entry.word0) =
            some localWord) ∧
        ∃ error owner entry next memory after flag,
          VanillaEntry entry true symbolIndex ∧
          directRead32 memory (owner.mappedAddress + entry.word0) = some 0 ∧
          applyRelocation info runtime error owner memory entry next =
            .ok (after, flag) ∧
          directRead32 after (owner.mappedAddress + entry.word0) =
            some externalWord

/-- The words the two ways leave. -/
theorem TwoWays.words {info : ImageInfo} {runtime : List RuntimeSymbol}
    {target : SectionInfo} {address localWord externalWord : Word}
    (ways : TwoWays info runtime target address localWord externalWord) :
    localWord = address + target.mappedAddress ∧
      externalWord =
        target.mappedAddress + (address - target.address) := by
  obtain ⟨isObject, _, parsed, imageBase, bindings, _, _, _, rfl, index,
    symbolIndex, raw, isTarget, isRaw, symbol, localWay, externalWay⟩ := ways
  constructor
  · obtain ⟨error, owner, entry, next, memory, after, flag, vanilla, present,
      applied, final⟩ := localWay
    have resolved : resolveRelocTarget
        (buildSymbols parsed info bindings).1 info (index + 1) false =
          .ok target.mappedAddress := by
      simp [resolveRelocTarget, isTarget]
    rw [vanilla.writes resolved present applied, Option.some.injEq] at final
    exact final.symm
  · obtain ⟨error, owner, entry, next, memory, after, flag, vanilla, present,
      applied, final⟩ := externalWay
    have resolved : resolveRelocTarget
        (buildSymbols parsed info bindings).1 info symbolIndex true =
          .ok (target.mappedAddress + (address - target.address)) := by
      simp [resolveRelocTarget, buildSymbols, isRaw, runtimeSymbol,
        symbol.resolves isObject isTarget bindings]
    rw [vanilla.writes resolved present applied, Option.some.injEq] at final
    rw [← final]
    exact BitVec.zero_add _

/-- The two ways agree on the moved address exactly when the section was
linked at zero. -/
theorem local_agrees_with_external_iff {info : ImageInfo}
    {runtime : List RuntimeSymbol} {target : SectionInfo}
    {address localWord externalWord : Word}
    (ways : TwoWays info runtime target address localWord externalWord) :
    (localWord = externalWord ∧
        externalWord =
          target.mappedAddress + (address - target.address)) ↔
      target.address = 0 := by
  obtain ⟨isLocal, isExternal⟩ := ways.words
  rw [isLocal, isExternal, BitVec.add_comm address]
  constructor
  · rintro ⟨same, _⟩
    have cancelled := (BitVec.add_right_inj _).mp same
    rw [BitVec.sub_eq_add_neg, eq_comm, BitVec.add_right_eq_self,
      BitVec.neg_eq_zero_iff] at cancelled
    exact cancelled
  · intro atZero
    rw [atZero]
    simp

private def linkedSection (name : String) (address size fileOffset : Word)
    (mappedAddress : Word) : SectionInfo :=
  { sectionName := name
    segmentName := "__DATA"
    address := address
    size := size
    fileOffset := fileOffset
    alignmentPower := 4
    relocationOffset := 0
    relocationCount := 0
    flags := 0
    mappedAddress := mappedAddress }

private def objectInfo (loadBias first second : Word) : ImageInfo :=
  { fileType := mhObject
    loadBias := loadBias
    segments := []
    sections :=
      [linkedSection "__data" 0 8 0 first,
        linkedSection "__const" 0x10 8 8 second]
    symbols := [] }

/-- Two words to relocate, then the section they point into. -/
private def objectFile : ParsedMachO :=
  { bytes := [0, 0, 0, 0x14, 0, 0, 0, 0, 1, 2, 3, 4, 5, 6, 7, 8]
    info := objectInfo 0 0 0
    rawSymbols :=
      [{ symbol := ⟨"_table", 0x14, 0, 2, 1, 0, true, false⟩
         nType := 0x0f
         nSect := 2
         nDesc := 0 }] }

private def objectMemory (first second : Word) : Memory :=
  ⟨[{ base := 0x10000000
      bytes := Bytes.encode 4 first ++ Bytes.encode 4 second
      perms := .read ||| .write
      name := "macho:__DATA,__data" },
    { base := 0x10000010
      bytes := [1, 2, 3, 4, 5, 6, 7, 8]
      perms := .read ||| .write
      name := "macho:__DATA,__const" }]⟩

private def objectMapped : ImageInfo :=
  objectInfo 0x10000000 0x10000000 0x10000010

private def objectRuntime : List RuntimeSymbol :=
  (buildSymbols objectFile objectMapped []).1

private theorem object_twoWays :
    TwoWays objectMapped objectRuntime
      (linkedSection "__const" 0x10 8 8 0x10000010) 0x14 0x10000024
      0x10000014 := by
  refine ⟨rfl, by decide, objectFile, 0x10000000, [], .empty,
    objectMemory 0x14 0, by decide, rfl, 1, 0, _, rfl, rfl,
    ⟨by decide, by decide, by decide, rfl⟩, ?_, ?_⟩
  · exact ⟨"", linkedSection "__data" 0 8 0 0x10000000, ⟨0, 0x240⟩, none,
      objectMemory 0x14 0, objectMemory 0x10000024 0, false,
      ⟨by decide, by decide, by decide, by decide, by decide⟩,
      by decide, by decide, by decide⟩
  · exact ⟨"", linkedSection "__data" 0 8 0 0x10000000, ⟨4, 0x50⟩, none,
      objectMemory 0x14 0, objectMemory 0x14 0x10000014, false,
      ⟨by decide, by decide, by decide, by decide, by decide⟩,
      by decide, by decide, by decide⟩

theorem local_agrees_with_external_iff_object :
    ((0x10000024 : Word) = 0x10000014 ∧
        (0x10000014 : Word) = 0x10000010 + (0x14 - 0x10)) ↔
      (0x10 : Word) = 0 :=
  local_agrees_with_external_iff object_twoWays

/-- The local entry leaves `0x10000024` where the external one leaves
`0x10000014`. -/
theorem local_entry_keeps_link_address :
    ¬∀ info runtime target address localWord externalWord,
      TwoWays info runtime target address localWord externalWord →
        localWord = externalWord ∧
          externalWord =
            target.mappedAddress + (address - target.address) := by
  intro agrees
  have same := (agrees _ _ _ _ _ _ object_twoWays).1
  exact absurd same (by decide)

end PpcLab.MachO
