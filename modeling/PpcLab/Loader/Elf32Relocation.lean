import PpcLab.Loader.Elf32
import PpcLab.Loader.PatchedCode

/-!
# ELF relocations

One relocation entry of an ELF image, as `applyOneRelocation` applies it.  The
value is computed in 64-bit signed arithmetic, where no intermediate result
overflows, and then cut down to the field it is written to.  An entry patches
exactly what the interpreter decodes: executing the patched code uses the
symbol's address plus the addend.
-/

namespace PpcLab.Elf32

open Loader

@[match_pattern] def rPpcNone : Nat := 0
@[match_pattern] def rPpcAddr32 : Nat := 1
@[match_pattern] def rPpcAddr24 : Nat := 2
@[match_pattern] def rPpcAddr16 : Nat := 3
@[match_pattern] def rPpcAddr16Lo : Nat := 4
@[match_pattern] def rPpcAddr16Hi : Nat := 5
@[match_pattern] def rPpcAddr16Ha : Nat := 6
@[match_pattern] def rPpcAddr14 : Nat := 7
@[match_pattern] def rPpcAddr14Brtaken : Nat := 8
@[match_pattern] def rPpcAddr14Brntaken : Nat := 9
@[match_pattern] def rPpcRel24 : Nat := 10
@[match_pattern] def rPpcRel14 : Nat := 11
@[match_pattern] def rPpcRel14Brtaken : Nat := 12
@[match_pattern] def rPpcRel14Brntaken : Nat := 13
@[match_pattern] def rPpcPltrel24 : Nat := 18
@[match_pattern] def rPpcCopy : Nat := 19
@[match_pattern] def rPpcGlobDat : Nat := 20
@[match_pattern] def rPpcJmpSlot : Nat := 21
@[match_pattern] def rPpcRelative : Nat := 22
@[match_pattern] def rPpcLocal24pc : Nat := 23
@[match_pattern] def rPpcUaddr32 : Nat := 24
@[match_pattern] def rPpcUaddr16 : Nat := 25
@[match_pattern] def rPpcRel32 : Nat := 26
@[match_pattern] def rPpcPlt32 : Nat := 27
@[match_pattern] def rPpcPltrel32 : Nat := 28
@[match_pattern] def rPpcSectoff : Nat := 33
@[match_pattern] def rPpcSectoffLo : Nat := 34
@[match_pattern] def rPpcSectoffHi : Nat := 35
@[match_pattern] def rPpcSectoffHa : Nat := 36

/-- The explicit addend of a RELA entry; a REL entry has none. -/
abbrev Addend := Option Word

section Apply

variable (memory : Memory) (place : Word) (addend : Addend) (error : String)

/-- The addend of an entry that patches a whole word. -/
def needWordAddend : Except String Int :=
  match addend with
  | some explicit => .ok explicit.toInt
  | none =>
      match directRead32 memory place with
      | none => .error "ELF relocation target is not mapped"
      | some word => .ok word.toInt

def needHalfAddend : Except String Int :=
  match addend with
  | some explicit => .ok explicit.toInt
  | none =>
      match directRead16 memory place with
      | none => .error "ELF relocation target is not mapped"
      | some half => .ok half.toInt

/-- The addend of a branch is its own displacement. -/
def needBranchAddend (mask : Word) (bits : Nat) : Except String Int :=
  match addend with
  | some explicit => .ok explicit.toInt
  | none =>
      match directRead32 memory place with
      | none => .error "ELF branch relocation target is not mapped"
      | some word => .ok (signExtend (word &&& mask) bits)

def writeBranch (bits : Nat) (mask : Word) (outOfRange : String)
    (value : Int) : Except String Memory :=
  if value % 4 ≠ 0 ∨ fitsSigned value bits = false then .error outOfRange
  else
    match directRead32 memory place with
    | none => .error "ELF branch relocation target is not mapped"
    | some word =>
        written error (directWrite32 memory place
          ((word &&& ~~~mask) ||| (BitVec.ofInt 32 value &&& mask)))

def writeBranch24 : Int → Except String Memory :=
  writeBranch memory place error 26 0x03fffffc
    "ELF PPC 24-bit branch relocation is out of range/alignment"

def writeBranch14 : Int → Except String Memory :=
  writeBranch memory place error 16 0x0000fffc
    "ELF PPC 14-bit branch relocation is out of range/alignment"

/-- `directWrite32` of a value cut down to 32 bits. -/
def writeWord (value : Int) : Except String Memory :=
  written error (directWrite32 memory place (BitVec.ofInt 32 value))

/-- `directWrite16` of a value cut down to 16 bits. -/
def writeHalf (value : Int) : Except String Memory :=
  written error (directWrite16 memory place (BitVec.ofInt 16 value))

end Apply

def applyOneRelocation (memory : Memory) (place type symbolAddress : Word)
    (symbol : Option ImageSymbol) (addend : Addend) (bias : Word)
    (info : ImageInfo) (error : String) : Except String Memory :=
  let s : Int := symbolAddress.toNat
  let p : Int := place.toNat
  let b : Int := bias.toNat
  let sectionOffset (patch : Int → Except String Memory) :
      Except String Memory :=
    match symbol.bind fun symbol => info.sections[symbol.sectionIndex.toNat]? with
    | none =>
        .error "ELF section-offset relocation has no concrete symbol section"
    | some symbolSection => patch symbolSection.mappedAddress.toNat
  match type.toNat with
  | rPpcNone => .ok memory
  | rPpcAddr32 | rPpcUaddr32 | rPpcGlobDat | rPpcJmpSlot | rPpcPlt32 => do
      let a ← needWordAddend memory place addend
      writeWord memory place error (s + a)
  | rPpcAddr16 | rPpcUaddr16 | rPpcAddr16Lo => do
      let a ← needHalfAddend memory place addend
      writeHalf memory place error (s + a)
  | rPpcAddr16Hi => do
      let a ← needHalfAddend memory place addend
      writeHalf memory place error ((s + a) >>> (16 : Nat))
  | rPpcAddr16Ha => do
      let a ← needHalfAddend memory place addend
      writeHalf memory place error ((s + a + 0x8000) >>> (16 : Nat))
  | rPpcAddr24 => do
      let a ← needBranchAddend memory place addend 0x03fffffc 26
      writeBranch24 memory place error (s + a)
  | rPpcRel24 | rPpcPltrel24 | rPpcLocal24pc => do
      let a ← needBranchAddend memory place addend 0x03fffffc 26
      writeBranch24 memory place error (s + a - p)
  | rPpcAddr14 | rPpcAddr14Brtaken | rPpcAddr14Brntaken => do
      let a ← needBranchAddend memory place addend 0x0000fffc 16
      writeBranch14 memory place error (s + a)
  | rPpcRel14 | rPpcRel14Brtaken | rPpcRel14Brntaken => do
      let a ← needBranchAddend memory place addend 0x0000fffc 16
      writeBranch14 memory place error (s + a - p)
  | rPpcRelative => do
      let a ← needWordAddend memory place addend
      writeWord memory place error (b + a)
  | rPpcRel32 | rPpcPltrel32 => do
      let a ← needWordAddend memory place addend
      writeWord memory place error (s + a - p)
  | rPpcSectoff => sectionOffset fun sectionBase => do
      let a ← needWordAddend memory place addend
      writeWord memory place error (s + a - sectionBase)
  | rPpcSectoffLo => sectionOffset fun sectionBase => do
      let a ← needHalfAddend memory place addend
      writeHalf memory place error (s + a - sectionBase)
  | rPpcSectoffHi => sectionOffset fun sectionBase => do
      let a ← needHalfAddend memory place addend
      writeHalf memory place error ((s + a - sectionBase) >>> (16 : Nat))
  | rPpcSectoffHa => sectionOffset fun sectionBase => do
      let a ← needHalfAddend memory place addend
      writeHalf memory place error ((s + a - sectionBase + 0x8000) >>> (16 : Nat))
  | rPpcCopy =>
      .error "R_PPC_COPY requires dynamic-linker object-copy semantics and is not supported"
  | code =>
      .error ("unsupported ELF PowerPC relocation type " ++ Text.decimal code)

open Instruction BuiltinInterpreter Immediate

/-- Entries that patch the displacement of `b` or `bl`, with the form of the
instruction they belong to. -/
def Patches24 (type insn : Word) : Prop :=
  opcode insn = 18 ∧
    (type.toNat ∈ [rPpcRel24, rPpcPltrel24, rPpcLocal24pc] ∧
        aa insn = false ∨
      type.toNat = rPpcAddr24 ∧ aa insn = true)

/-- Entries that patch the displacement of `bc`. -/
def Patches14 (type insn : Word) : Prop :=
  opcode insn = 16 ∧
    (type.toNat ∈ [rPpcRel14, rPpcRel14Brtaken, rPpcRel14Brntaken] ∧
        aa insn = false ∨
      type.toNat ∈ [rPpcAddr14, rPpcAddr14Brtaken, rPpcAddr14Brntaken] ∧
        aa insn = true)

theorem writeBranch_eq_ok {before after : Memory} {place mask : Word}
    {error outOfRange : String} {width : Nat} {value : Int}
    (maskBits : ∀ index < 32, mask.getLsbD index =
      (decide (2 ≤ index) && decide (index < 2 + (width + 1))))
    (narrow : width + 1 ≤ 30)
    (succeeded : writeBranch before place error (width + 3) mask outOfRange
      value = .ok after) :
    displacement (Word.field (BitVec.ofInt 32 value) 2 (width + 1)) =
        BitVec.ofInt 32 value ∧
      ∃ word, directRead32 before place = some word ∧
        directRead32 after place =
          some (word.withField 2
            (Word.field (BitVec.ofInt 32 value) 2 (width + 1))) ∧
        before.SameShape after := by
  unfold writeBranch at succeeded
  split at succeeded
  · cases succeeded
  rename_i accepted
  simp only [not_or, not_not, Bool.not_eq_false] at accepted
  obtain ⟨lower, upper⟩ := fitsSigned_iff.mp accepted.2
  split at succeeded
  · cases succeeded
  rename_i word present
  have stored := written_eq_ok succeeded
  rw [Word.or_mask_eq_withField word _ mask maskBits] at stored
  exact ⟨displacement_field narrow accepted.1 lower upper, word, present,
    directRead32_directWrite32 stored, directWrite_sameShape stored⟩

section Values

variable {before after : Memory} {place type symbolAddress addend : Word}
  {symbol : Option ImageSymbol} {bias : Word} {info : ImageInfo}
  {error : String}

/-- The value of an entry with an explicit addend. -/
def value (symbolAddress addend : Word) : Int :=
  symbolAddress.toNat + addend.toInt

theorem ofInt_value (symbolAddress addend : Word) :
    BitVec.ofInt 32 (value symbolAddress addend) = symbolAddress + addend := by
  rw [value, BitVec.ofInt_add, BitVec.ofInt_natCast, BitVec.ofNat_toNat,
    BitVec.setWidth_eq, BitVec.ofInt_toInt]

theorem ofInt_value_sub (symbolAddress addend place : Word) :
    place + BitVec.ofInt 32 (value symbolAddress addend - place.toNat) =
      symbolAddress + addend := by
  rw [Int.sub_eq_add_neg, BitVec.ofInt_add, ofInt_value, BitVec.ofInt_neg,
    BitVec.ofInt_natCast, BitVec.ofNat_toNat, BitVec.setWidth_eq]
  rw [← BitVec.sub_eq_add_neg, BitVec.add_comm, BitVec.sub_add_cancel]

private theorem apply_rel24
    (isType : type.toNat ∈ [rPpcRel24, rPpcPltrel24, rPpcLocal24pc]) :
    applyOneRelocation before place type symbolAddress symbol (some addend)
        bias info error =
      writeBranch24 before place error
        (value symbolAddress addend - place.toNat) := by
  simp only [List.mem_cons, List.not_mem_nil, or_false] at isType
  unfold applyOneRelocation
  rcases isType with isType | isType | isType
  · rw [isType]
    rfl
  · rw [isType]
    rfl
  · rw [isType]
    rfl

private theorem apply_addr24 (isType : type.toNat = rPpcAddr24) :
    applyOneRelocation before place type symbolAddress symbol (some addend)
        bias info error =
      writeBranch24 before place error (value symbolAddress addend) := by
  unfold applyOneRelocation
  rw [isType]
  rfl

private theorem apply_rel14 (isType : type.toNat ∈
      [rPpcRel14, rPpcRel14Brtaken, rPpcRel14Brntaken]) :
    applyOneRelocation before place type symbolAddress symbol (some addend)
        bias info error =
      writeBranch14 before place error
        (value symbolAddress addend - place.toNat) := by
  simp only [List.mem_cons, List.not_mem_nil, or_false] at isType
  unfold applyOneRelocation
  rcases isType with isType | isType | isType
  · rw [isType]
    rfl
  · rw [isType]
    rfl
  · rw [isType]
    rfl

private theorem apply_addr14 (isType : type.toNat ∈
      [rPpcAddr14, rPpcAddr14Brtaken, rPpcAddr14Brntaken]) :
    applyOneRelocation before place type symbolAddress symbol (some addend)
        bias info error =
      writeBranch14 before place error (value symbolAddress addend) := by
  simp only [List.mem_cons, List.not_mem_nil, or_false] at isType
  unfold applyOneRelocation
  rcases isType with isType | isType | isType
  · rw [isType]
    rfl
  · rw [isType]
    rfl
  · rw [isType]
    rfl

private theorem apply_half {half : Int → Half}
    (isType : type.toNat = rPpcAddr16Lo ∧ half = low ∨
      type.toNat = rPpcAddr16Hi ∧ half = high ∨
      type.toNat = rPpcAddr16Ha ∧ half = highAdjusted)
    (succeeded : applyOneRelocation before place type symbolAddress symbol
      (some addend) bias info error = .ok after) :
    directWrite16 before place (half (value symbolAddress addend)) =
      some after := by
  unfold applyOneRelocation at succeeded
  rcases isType with ⟨isType, rfl⟩ | ⟨isType, rfl⟩ | ⟨isType, rfl⟩
  · rw [isType] at succeeded
    exact written_eq_ok succeeded
  · rw [isType] at succeeded
    exact written_eq_ok succeeded
  · rw [isType] at succeeded
    exact written_eq_ok succeeded

end Values

/-- The arguments of `applyOneRelocation` for a RELA entry. -/
structure Entry where
  place : Word
  type : Word
  symbolAddress : Word
  addend : Word
  symbol : Option ImageSymbol
  bias : Word
  info : ImageInfo
  error : String

namespace Entry

def apply (entry : Entry) (memory : Memory) : Except String Memory :=
  applyOneRelocation memory entry.place entry.type entry.symbolAddress
    entry.symbol (some entry.addend) entry.bias entry.info entry.error

/-- Symbol plus addend, modulo `2^32`. -/
def target (entry : Entry) : Word :=
  entry.symbolAddress + entry.addend

/-- Two entries for one value, applied in either order. -/
def BothApplied (first second : Entry) (before after : Memory) : Prop :=
  (∃ middle, first.apply before = .ok middle ∧
      second.apply middle = .ok after) ∨
    ∃ middle, second.apply before = .ok middle ∧
      first.apply middle = .ok after

/-- The entries patch the halves of two consecutive words with one value. -/
structure Halves (place : Word) (upperType : Nat) (upper lower : Entry) :
    Prop where
  upperPlace : upper.place = place + 2
  lowerPlace : lower.place = place + 6
  upperType : upper.type.toNat = upperType
  lowerType : lower.type.toNat = rPpcAddr16Lo
  symbolAddress : lower.symbolAddress = upper.symbolAddress
  addend : lower.addend = upper.addend

end Entry

section Execution

variable (host : Host) (config : ExecutionConfig)

/-- A patched branch goes to the target whenever `taken` holds, and only its
displacement changed. -/
def BranchesReach (length : Nat) (patches : Word → Word → Prop)
    (taken : CpuState → Word → Prop) : Prop :=
  ∀ (entry : Entry) (before after : Memory) (insn : Word),
    entry.apply before = .ok after →
    directRead32 before entry.place = some insn →
    patches entry.type insn →
    Fetchable config before entry.place →
    ∃ patched, directRead32 after entry.place = some patched ∧
      Word.SameOutside 2 length insn patched ∧
      ∀ machine : Machine, machine.memory = after →
        machine.cpu.pc = entry.place → taken machine.cpu insn →
        (run host (withLimit config 1) machine).2.cpu.pc = entry.target

/-- A patched pair of instructions leaves the target in its last register, and
only the two immediates changed. -/
def PairsLoad (upperType : Nat) (pair : Word → Word → Prop)
    (destination : Word → Register) : Prop :=
  ∀ (upper lower : Entry) (before after : Memory)
    (place first second : Word),
    before.WellFormed →
    CodeAt config before place first second →
    pair first second →
    Entry.Halves place upperType upper lower →
    Entry.BothApplied upper lower before after →
    ∃ patchedFirst patchedSecond,
      CodeAt config after place patchedFirst patchedSecond ∧
      Word.SameOutside 0 16 first patchedFirst ∧
      Word.SameOutside 0 16 second patchedSecond ∧
      ∀ machine : Machine, machine.memory = after →
        machine.cpu.pc = place →
        (run host (withLimit config 2) machine).2.cpu.gpr
          (destination second) = upper.target

/-- Only the displacement of a patched branch changed, so it is still the same
branch. -/
private theorem branch_withField (insn : Word) {width : Nat}
    (words : BitVec width) (narrow : width ≤ 24) :
    opcode (insn.withField 2 words) = opcode insn ∧
      aa (insn.withField 2 words) = aa insn := by
  constructor
  · rw [opcode, Word.field_withField_apart _ _ (by omega) (by omega)]
    rfl
  · rw [aa, Word.getLsbD_withField _ _ _ _ (by omega), if_neg (by omega)]
    rfl

/-- What a successful write of a branch left in memory. -/
private theorem patched_of_writeBranch {before after : Memory}
    {place mask insn target : Word} {error outOfRange : String} {width : Nat}
    {value : Int}
    (maskBits : ∀ index < 32, mask.getLsbD index =
      (decide (2 ≤ index) && decide (index < 2 + (width + 1))))
    (narrow : width + 1 ≤ 30)
    (succeeded : writeBranch before place error (width + 3) mask outOfRange
      value = .ok after)
    (present : directRead32 before place = some insn)
    (reaches : aa insn = false ∧ place + BitVec.ofInt 32 value = target ∨
      aa insn = true ∧ BitVec.ofInt 32 value = target) :
    ∃ words : BitVec (width + 1),
      directRead32 after place = some (insn.withField 2 words) ∧
        before.SameShape after ∧ branchTarget insn words place = target := by
  obtain ⟨exact, word, found, stored, shape⟩ :=
    writeBranch_eq_ok maskBits narrow succeeded
  rw [present, Option.some.injEq] at found
  subst found
  refine ⟨_, stored, shape, ?_⟩
  rw [branchTarget, exact]
  rcases reaches with ⟨relative, sum⟩ | ⟨absolute, sum⟩
  · rw [relative, if_neg Bool.false_ne_true, sum]
  · rw [absolute, if_pos rfl, sum]

section Patched

variable {entry : Entry} {before after : Memory} {insn : Word}
  (applied : entry.apply before = .ok after)
  (present : directRead32 before entry.place = some insn)

include applied present

private theorem patched24 (patches : Patches24 entry.type insn) :
    ∃ words : BitVec 24,
      directRead32 after entry.place = some (insn.withField 2 words) ∧
        before.SameShape after ∧
        branchTarget insn words entry.place = entry.target := by
  rcases patches.2 with ⟨isType, relative⟩ | ⟨isType, absolute⟩
  · rw [Entry.apply, apply_rel24 isType] at applied
    exact patched_of_writeBranch (by decide) (by omega) applied present
      (.inl ⟨relative, ofInt_value_sub _ _ _⟩)
  · rw [Entry.apply, apply_addr24 isType] at applied
    exact patched_of_writeBranch (by decide) (by omega) applied present
      (.inr ⟨absolute, ofInt_value _ _⟩)

private theorem patched14 (patches : Patches14 entry.type insn) :
    ∃ words : BitVec 14,
      directRead32 after entry.place = some (insn.withField 2 words) ∧
        before.SameShape after ∧
        branchTarget insn words entry.place = entry.target := by
  rcases patches.2 with ⟨isType, relative⟩ | ⟨isType, absolute⟩
  · rw [Entry.apply, apply_rel14 isType] at applied
    exact patched_of_writeBranch (by decide) (by omega) applied present
      (.inl ⟨relative, ofInt_value_sub _ _ _⟩)
  · rw [Entry.apply, apply_addr14 isType] at applied
    exact patched_of_writeBranch (by decide) (by omega) applied present
      (.inr ⟨absolute, ofInt_value _ _⟩)

end Patched

private theorem fetches_of_patched {machine : Machine}
    {before after : Memory} {place patched : Word}
    (stored : directRead32 after place = some patched)
    (shape : before.SameShape after)
    (fetchable : Fetchable config before place)
    (isMemory : machine.memory = after) (atPlace : machine.cpu.pc = place) :
    Fetches config machine patched := by
  apply Fetchable.fetches
  · rw [isMemory, atPlace]
    exact fetchable.of_sameShape shape
  · rw [isMemory, atPlace]
    exact stored

theorem branches24_reach :
    BranchesReach host config 24 Patches24 (fun _ _ => True) := by
  intro entry before after insn applied present patches fetchable
  obtain ⟨words, stored, shape, reaches⟩ := patched24 applied present patches
  obtain ⟨sameOpcode, sameAa⟩ := branch_withField insn words (by omega)
  refine ⟨_, stored, Word.sameOutside_withField insn 2 words, ?_⟩
  intro machine isMemory atPlace _
  have fetches := fetches_of_patched config stored shape fetchable isMemory
    atPlace
  rw [run_branch host fetches (sameOpcode.trans patches.1), branchTarget,
    sameAa, Word.field_withField_self _ _ (by omega), atPlace, ← reaches]
  rfl

theorem branches14_reach :
    BranchesReach host config 14 Patches14 Taken := by
  intro entry before after insn applied present patches fetchable
  obtain ⟨words, stored, shape, reaches⟩ := patched14 applied present patches
  obtain ⟨sameOpcode, sameAa⟩ := branch_withField insn words (by omega)
  refine ⟨_, stored, Word.sameOutside_withField insn 2 words, ?_⟩
  intro machine isMemory atPlace taken
  have fetches := fetches_of_patched config stored shape fetchable isMemory
    atPlace
  have stillTaken : Taken machine.cpu (insn.withField 2 words) := by
    rw [Taken, rt, ra, Word.field_withField_apart _ _ (by omega) (by omega),
      Word.field_withField_apart _ _ (by omega) (by omega)]
    exact taken
  rw [run_bc host fetches (sameOpcode.trans patches.1) stillTaken,
    branchTarget, sameAa, Word.field_withField_self _ _ (by omega), atPlace,
    ← reaches]
  rfl

/-- Both halves are in place, whichever entry came first. -/
private theorem halves_patched {upper lower : Entry} {before after : Memory}
    {place first second : Word} {upperType : Nat} {half : Int → Half}
    (isUpper : upperType = rPpcAddr16Hi ∧ half = high ∨
      upperType = rPpcAddr16Ha ∧ half = highAdjusted)
    (wellFormed : before.WellFormed)
    (code : CodeAt config before place first second)
    (halves : Entry.Halves place upperType upper lower)
    (applied : Entry.BothApplied upper lower before after) :
    CodeAt config after place
      (first.withField 0 (half (value upper.symbolAddress upper.addend)))
      (second.withField 0
        (low (value upper.symbolAddress upper.addend))) := by
  have upperWrites : ∀ {old new}, upper.apply old = .ok new →
      directWrite16 old (place + 2)
        (half (value upper.symbolAddress upper.addend)) = some new := by
    intro old new succeeded
    rw [← halves.upperPlace]
    refine apply_half ?_ succeeded
    rw [halves.upperType]
    exact .inr isUpper
  have lowerWrites : ∀ {old new}, lower.apply old = .ok new →
      directWrite16 old (place + 6)
        (low (value upper.symbolAddress upper.addend)) = some new := by
    intro old new succeeded
    rw [← halves.lowerPlace, ← halves.symbolAddress, ← halves.addend]
    exact apply_half (.inl ⟨halves.lowerType, rfl⟩) succeeded
  rcases applied with ⟨middle, one, two⟩ | ⟨middle, one, two⟩
  · have shape := directWrite_sameShape (upperWrites one)
    exact (code.patchFirst wellFormed (upperWrites one)).patchSecond
      (shape.wellFormed wellFormed) (lowerWrites two)
  · have shape := directWrite_sameShape (lowerWrites one)
    exact (code.patchSecond wellFormed (lowerWrites one)).patchFirst
      (shape.wellFormed wellFormed) (upperWrites two)

theorem adjustedPairs_load :
    PairsLoad host config rPpcAddr16Ha AdjustedPair rt := by
  intro upper lower before after place first second wellFormed code pair
    halves applied
  have patched := halves_patched config (.inr ⟨rfl, rfl⟩) wellFormed code
    halves applied
  refine ⟨_, _, patched, Word.sameOutside_withField _ _ _,
    Word.sameOutside_withField _ _ _, ?_⟩
  intro machine isMemory atPlace
  rw [← isMemory, ← atPlace] at patched
  have loads := run_adjustedPair host patched (pair.withImmediates _ _)
  rw [Word.field_withField_self _ _ (by omega),
    Word.field_withField_self _ _ (by omega), sum_highAdjusted_low,
    ofInt_value, rt_withImmediate] at loads
  exact loads

theorem joinedPairs_load :
    PairsLoad host config rPpcAddr16Hi JoinedPair ra := by
  intro upper lower before after place first second wellFormed code pair
    halves applied
  have patched := halves_patched config (.inl ⟨rfl, rfl⟩) wellFormed code
    halves applied
  refine ⟨_, _, patched, Word.sameOutside_withField _ _ _,
    Word.sameOutside_withField _ _ _, ?_⟩
  intro machine isMemory atPlace
  rw [← isMemory, ← atPlace] at patched
  have loads := run_joinedPair host patched (pair.withImmediates _ _)
  rw [Word.field_withField_self _ _ (by omega),
    Word.field_withField_self _ _ (by omega), join_high_low,
    ofInt_value, ra_withImmediate] at loads
  exact loads

/-- Every kind of patched code computes symbol plus addend, modulo `2^32`, and
keeps the bits around what was patched. -/
theorem patched_code_computes_target :
    BranchesReach host config 24 Patches24 (fun _ _ => True) ∧
      BranchesReach host config 14 Patches14 Taken ∧
      PairsLoad host config rPpcAddr16Ha AdjustedPair rt ∧
      PairsLoad host config rPpcAddr16Hi JoinedPair ra :=
  ⟨branches24_reach host config, branches14_reach host config,
    adjustedPairs_load host config, joinedPairs_load host config⟩

end Execution

/-- `lis r3,0`, `addi r3,r3,0` and `b .`, which are yet to be patched. -/
def unpatched : Memory :=
  ⟨[⟨0x1000, [0x3c, 0x60, 0, 0, 0x38, 0x63, 0, 0, 0x48, 0, 0, 0], ⟨5⟩,
    ".text"⟩]⟩

/-- An entry for the address `0x12348008`. -/
def entryAt (place : Word) (type : Nat) : Entry :=
  ⟨place, BitVec.ofNat 32 type, 0x12348000, 8, none, 0, ⟨0, []⟩, ""⟩

def branchEntry : Entry :=
  ⟨0x1008, BitVec.ofNat 32 rPpcRel24, 0x800, 4, none, 0, ⟨0, []⟩, ""⟩

/-- A branch back, and a pair whose lower half is negative. -/
theorem patched_code_computes_target_unpatched :
    (∃ after, branchEntry.apply unpatched = .ok after ∧
      ∀ machine : Machine, machine.memory = after →
        machine.cpu.pc = 0x1008 →
        (run .quiet (withLimit {} 1) machine).2.cpu.pc = 0x804) ∧
    ∃ after, Entry.BothApplied (entryAt 0x1002 rPpcAddr16Ha)
        (entryAt 0x1006 rPpcAddr16Lo) unpatched after ∧
      ∀ machine : Machine, machine.memory = after →
        machine.cpu.pc = 0x1000 →
        (run .quiet (withLimit {} 2) machine).2.cpu.gpr 3 = 0x12348008 := by
  obtain ⟨branches, -, pairs, -⟩ := patched_code_computes_target .quiet {}
  constructor
  · obtain ⟨_, _, _, reaches⟩ := branches branchEntry unpatched _ 0x48000000
      rfl rfl ⟨by decide, .inl ⟨by decide, by decide⟩⟩
      ⟨by decide, by decide, by decide, by decide⟩
    exact ⟨_, rfl, fun machine isMemory atPlace =>
      reaches machine isMemory atPlace trivial⟩
  · obtain ⟨_, _, _, _, _, loads⟩ := pairs (entryAt 0x1002 rPpcAddr16Ha)
      (entryAt 0x1006 rPpcAddr16Lo) unpatched _ 0x1000 0x3c600000 0x38630000
      ⟨List.pairwise_singleton _ _, by decide, by decide⟩
      ⟨rfl, rfl, ⟨by decide, by decide, by decide, by decide⟩,
        ⟨by decide, by decide, by decide, by decide⟩⟩
      ⟨by decide, by decide, by decide, by decide, by decide⟩
      ⟨rfl, rfl, rfl, rfl, rfl, rfl⟩ (.inl ⟨_, rfl, rfl⟩)
    exact ⟨_, .inl ⟨_, rfl, rfl⟩, loads⟩

end PpcLab.Elf32
