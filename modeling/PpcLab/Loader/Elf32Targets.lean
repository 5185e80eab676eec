import PpcLab.Loader.Elf32Load

/-!
# The sections that relocations patch

An entry patches the bytes at the address of its section plus its offset.  The
offset is not compared with the size of the section, and a section that is not
allocated has address zero, so an entry stays in its section exactly where its
offset says so.
-/

namespace PpcLab.Elf32

open Loader Traced

/-- How many bytes an entry of a supported type patches. -/
def patchedBytes (type : Word) : Nat :=
  match type.toNat with
  | rPpcNone => 0
  | rPpcAddr16 | rPpcUaddr16 | rPpcAddr16Lo | rPpcAddr16Hi | rPpcAddr16Ha
  | rPpcSectoffLo | rPpcSectoffHi | rPpcSectoffHa => 2
  | _ => 4

/-- An address of the range at which a section was mapped. -/
def InSection (target : SectionInfo) (address : Nat) : Prop :=
  isAllocated target = true ∧ target.mappedAddress.toNat ≤ address ∧
    address < target.mappedAddress.toNat + target.size.toNat

/-- The offset of an entry says that what it patches lies in its section. -/
def StaysInside (target : SectionInfo) (entry : RelocationEntry) : Prop :=
  patchedBytes entry.type = 0 ∨ isAllocated target = true ∧
    entry.rOffset.toNat + patchedBytes entry.type ≤ target.size.toNat

/-- An address of the bytes that an entry patches. -/
def Patches (shared : RelocationTarget) (entry : RelocationEntry)
    (address : Nat) : Prop :=
  (shared.place entry.rOffset).toNat ≤ address ∧
    address < (shared.place entry.rOffset).toNat + patchedBytes entry.type

/-- The memory after an entry: as it was, or with the patched bytes written. -/
def Patched (memory after : Memory) (place : Word) (count : Nat) : Prop :=
  memory = after ∨ ∃ block : List Byte,
    block.length = count ∧ directWrite memory place block = some after

section Writes

variable {memory after : Memory} {place : Word} {error : String}

private theorem patched_of_writeWord {value : Int}
    (succeeded : writeWord memory place error value = .ok after) :
    Patched memory after place 4 :=
  .inr ⟨_, Bytes.length_encode _ _, written_eq_ok succeeded⟩

private theorem patched_of_writeHalf {value : Int}
    (succeeded : writeHalf memory place error value = .ok after) :
    Patched memory after place 2 :=
  .inr ⟨_, Bytes.length_encode _ _, written_eq_ok succeeded⟩

private theorem patched_within_branch {bits : Nat} {mask : Word}
    {outOfRange : String} {value : Int}
    (succeeded : writeBranch memory place error bits mask outOfRange value =
      .ok after) :
    Patched memory after place 4 := by
  unfold writeBranch at succeeded
  split at succeeded
  · cases succeeded
  split at succeeded
  · cases succeeded
  · exact .inr ⟨_, Bytes.length_encode _ _, written_eq_ok succeeded⟩

/-- A write that follows a computation. -/
private theorem patched_of_bind {count : Nat} {first : Except String Int}
    {write : Int → Except String Memory}
    (patches : ∀ value, write value = .ok after →
      Patched memory after place count)
    (succeeded : (first >>= write) = .ok after) :
    Patched memory after place count := by
  obtain ⟨value, _, wrote⟩ := Outcome.bind_eq_ok.mp succeeded
  exact patches value wrote

/-- Every entry that is applied patches as many bytes as its type says. -/
theorem applyOneRelocation_patched {type symbolAddress bias : Word}
    {symbol : Option ImageSymbol} {addend : Addend} {info : ImageInfo}
    (succeeded : applyOneRelocation memory place type symbolAddress symbol
      addend bias info error = .ok after) :
    Patched memory after place (patchedBytes type) := by
  unfold applyOneRelocation at succeeded
  unfold patchedBytes
  generalize type.toNat = code at succeeded ⊢
  dsimp only at succeeded
  split at succeeded
  case h_1 => exact .inl (Except.ok.inj succeeded)
  -- a whole word
  case h_2 | h_3 | h_4 | h_5 | h_6 | h_22 | h_23 | h_24 =>
    exact patched_of_bind (fun _ => patched_of_writeWord) succeeded
  -- half a word
  case h_7 | h_8 | h_9 | h_10 | h_11 =>
    exact patched_of_bind (fun _ => patched_of_writeHalf) succeeded
  -- the displacement of a branch
  case h_12 | h_13 | h_14 | h_15 | h_16 | h_17 | h_18 | h_19 | h_20 | h_21 =>
    exact patched_of_bind (fun _ => patched_within_branch) succeeded
  -- the offset of a symbol in its section
  case h_25 =>
    split at succeeded
    · cases succeeded
    · exact patched_of_bind (fun _ => patched_of_writeWord) succeeded
  case h_26 | h_27 | h_28 =>
    split at succeeded
    · cases succeeded
    · exact patched_of_bind (fun _ => patched_of_writeHalf) succeeded
  case h_29 => cases succeeded
  case h_30 => cases succeeded

end Writes

/-- A section that was mapped ends inside the address space. -/
def Fits (entry : SectionInfo) : Prop :=
  isAllocated entry = true →
    entry.mappedAddress.toNat + entry.size.toNat ≤ 2 ^ 32

private theorem MappedAs.fits {before after : SectionInfo}
    (mapped : MappedAs before after) : Fits after := by
  intro present
  cases mapped with
  | absent isAbsent =>
      rw [isAbsent] at present
      cases present
  | present inSpace => exact inSpace

private theorem fits_of_mapped {before after : List SectionInfo}
    (mapped : List.Forall₂ MappedAs before after) :
    ∀ entry ∈ after, Fits entry := by
  induction mapped with
  | nil =>
      intro entry absent
      cases absent
  | cons first rest induction =>
      intro entry member
      rcases List.mem_cons.mp member with isFirst | later
      · rw [isFirst]
        exact first.fits
      · exact induction entry later

private theorem mapImage_fits {parsed : ParsedElf}
    (isRel : parsed.type = etRel) {memory : Memory} {imageBase : Word}
    {placed : Placed}
    (isPlaced : (mapImage parsed memory imageBase).result = .ok placed) :
    ∀ entry ∈ placed.info.sections, Fits entry := by
  unfold mapImage at isPlaced
  rw [isRel, beq_self_eq_true, if_pos rfl, result_bind] at isPlaced
  obtain ⟨found, mapped, returned⟩ := Outcome.bind_eq_ok.mp isPlaced
  cases returned
  exact fits_of_mapped ((mapRelFromAt_inside _ _ _).value found mapped)

section Entries

variable {shared : RelocationTarget} {entry : RelocationEntry}

/-- What an entry of a relocatable object patches lies in its section exactly
where its offset says so. -/
theorem patches_inSection_iff (isRel : shared.type = etRel)
    (fits : Fits shared.target) :
    (∀ address, Patches shared entry address →
        InSection shared.target address) ↔
      StaysInside shared.target entry := by
  have isPlace : shared.place entry.rOffset =
      shared.target.mappedAddress + entry.rOffset := if_pos isRel
  have offset := entry.rOffset.isLt
  have address := shared.target.mappedAddress.isLt
  unfold Patches InSection StaysInside
  rw [isPlace, BitVec.toNat_add]
  unfold Fits at fits
  by_cases nothing : patchedBytes entry.type = 0
  · apply iff_of_true
    · intro address patched
      omega
    · exact .inl nothing
  constructor
  · intro inside
    have first := inside _ ⟨Nat.le_refl _, by omega⟩
    have last := inside
      ((shared.target.mappedAddress.toNat + entry.rOffset.toNat) % 2 ^ 32 +
        (patchedBytes entry.type - 1)) ⟨by omega, by omega⟩
    refine .inr ⟨first.1, ?_⟩
    have space := fits first.1
    omega
  · intro stays
    obtain ⟨allocated, within⟩ := stays.resolve_left nothing
    have space := fits allocated
    intro address patched
    refine ⟨allocated, by omega, by omega⟩

/-- The bytes around what is patched stay as they are. -/
private theorem rangeAt_of_patched {memory after : Memory} {place : Word}
    {count : Nat} (small : count < 2 ^ 63)
    (patched : Patched memory after place count) {address : Word}
    (outside : ¬ (place.toNat ≤ address.toNat ∧
      address.toNat < place.toNat + count)) :
    after.rangeAt address 1 = memory.rangeAt address 1 := by
  rcases patched with same | ⟨block, length, wrote⟩
  · rw [same]
  · apply rangeAt_directWrite_apart (by omega) (by omega) wrote
    omega

private theorem patchedBytes_le (type : Word) : patchedBytes type ≤ 4 := by
  unfold patchedBytes
  split
  all_goals omega

private theorem rangeAt_of_applyEntry {memory after : Memory} {i : Nat}
    (applied : shared.applyEntry memory i entry = .ok after) {address : Word}
    (outside : ¬ Patches shared entry address.toNat) :
    after.rangeAt address 1 = memory.rangeAt address 1 := by
  unfold RelocationTarget.applyEntry at applied
  obtain ⟨symbol, _, applied⟩ := Outcome.bind_eq_ok.mp applied
  split at applied
  · rename_i done
    cases applied
    have small := patchedBytes_le entry.type
    exact rangeAt_of_patched (by omega) (applyOneRelocation_patched done)
      outside
  · cases applied

end Entries

/-- The words of an entry. -/
def relocationAt (bytes : List Byte) (rela : Bool) (off : Nat) :
    RelocationEntry :=
  { rOffset := be32 bytes off
    rInfo := be32 bytes (off + 4)
    addend := if rela then some (be32 bytes (off + 8)) else none }

/-- The entries of a relocation section. -/
def entriesOf (parsed : ParsedElf) (entry : SectionHeader) :
    List RelocationEntry :=
  (List.range (entry.size / relocationEntrySize entry).toNat).map fun i =>
    relocationAt parsed.bytes (entry.type == shtRela)
      (relocationOffset entry i)

/-- A load of a relocatable object comes to one of its relocation sections, and
applies it. -/
structure Relocates (bytes : List Byte) (memory : Memory) (imageBase : Word)
    (bindings : List SymbolBinding) (error : String) (parsed : ParsedElf)
    (entry : SectionHeader) (shared : RelocationTarget)
    (before after : Memory) : Prop where
  isParsed : (parse bytes).result = .ok parsed
  isRel : parsed.type = etRel
  isApplied : ∃ placed earlier later,
    (mapImage parsed memory imageBase).result = .ok placed ∧
    parsed.sections.filter isRelocation = earlier ++ entry :: later ∧
    relocationTarget parsed placed.info
      (buildRuntimeSymbols parsed placed.info bindings) error entry =
      .ok shared ∧
    (fold (applySection parsed placed.info
      (buildRuntimeSymbols parsed placed.info bindings) error) placed.memory
      earlier).result = .ok before ∧
    (applySection parsed placed.info
      (buildRuntimeSymbols parsed placed.info bindings) error before
      entry).result = .ok after

private theorem relocationTarget_spec {parsed : ParsedElf} {info : ImageInfo}
    {runtime : List RuntimeSymbolTable} {error : String}
    {entry : SectionHeader} {shared : RelocationTarget}
    (found : relocationTarget parsed info runtime error entry = .ok shared) :
    shared.type = parsed.type ∧ shared.target ∈ info.sections := by
  unfold relocationTarget at found
  split at found
  · cases found
  · split at found
    · cases found
    · rename_i target isTarget
      cases found
      exact ⟨rfl, List.mem_of_getElem? isTarget⟩

private theorem readRelocation_result (bytes : List Byte) (rela : Bool)
    (off : Nat) :
    (readRelocation bytes rela off).result =
      .ok (relocationAt bytes rela off) := by
  cases rela with
  | false => rfl
  | true => rfl

/-- The byte at an address is what it was. -/
def SameByte (address : Word) (before after : Memory) : Prop :=
  after.rangeAt address 1 = before.rangeAt address 1

/-- Applying a section changes no byte that none of its entries patches. -/
private theorem rangeAt_of_applySection {parsed : ParsedElf}
    {info : ImageInfo} {runtime : List RuntimeSymbolTable} {error : String}
    {entry : SectionHeader} {shared : RelocationTarget}
    {before after : Memory}
    (found : relocationTarget parsed info runtime error entry = .ok shared)
    (applied : (applySection parsed info runtime error before entry).result =
      .ok after) {address : Word}
    (outside : ∀ relocation ∈ entriesOf parsed entry,
      ¬ Patches shared relocation address.toNat) :
    SameByte address before after := by
  unfold applySection at applied
  rw [found, bind_of_ok (show (ofExcept (.ok shared) :
    Intake RelocationTarget).result = .ok shared from rfl)] at applied
  have run : Every (fun _ => True)
      (fold (applyEntryAt parsed entry shared) before
        (List.range (entry.size / relocationEntrySize entry).toNat))
      (SameByte address before) := by
    apply Every.fold (show SameByte address before before from rfl)
    intro i member memory same
    refine ⟨fun _ _ => trivial, ?_⟩
    intro next succeeded
    unfold applyEntryAt at succeeded
    rw [bind_of_ok (readRelocation_result _ _ _)] at succeeded
    have inTable : relocationAt parsed.bytes (entry.type == shtRela)
        (relocationOffset entry i) ∈ entriesOf parsed entry :=
      List.mem_map_of_mem member
    exact (rangeAt_of_applyEntry succeeded (outside _ inTable)).trans same
  exact run.value after applied

/-- Every entry of a relocation section patches its target section exactly
where every offset says so, and then nothing else changes. -/
theorem relocations_stay_iff {bytes : List Byte} {memory : Memory}
    {imageBase : Word} {bindings : List SymbolBinding} {error : String}
    {parsed : ParsedElf} {entry : SectionHeader} {shared : RelocationTarget}
    {before after : Memory}
    (run : Relocates bytes memory imageBase bindings error parsed entry shared
      before after) :
    ((∀ relocation ∈ entriesOf parsed entry, ∀ address,
        Patches shared relocation address →
          InSection shared.target address) ↔
      ∀ relocation ∈ entriesOf parsed entry,
        StaysInside shared.target relocation) ∧
    ((∀ relocation ∈ entriesOf parsed entry,
        StaysInside shared.target relocation) →
      ∀ address : Word, ¬ InSection shared.target address.toNat →
        SameByte address before after) := by
  obtain ⟨placed, earlier, later, isPlaced, isSplit, found, reached,
    applied⟩ := run.isApplied
  have target := relocationTarget_spec found
  have isRel := target.1.trans run.isRel
  have fits := mapImage_fits run.isRel isPlaced _ target.2
  constructor
  · exact forall₂_congr fun relocation member =>
      patches_inSection_iff isRel fits
  · intro stays address outside
    apply rangeAt_of_applySection found applied
    intro relocation member patched
    exact outside ((patches_inSection_iff isRel fits).mpr
      (stays relocation member) _ patched)

/-- A section header, without a name or an address. -/
def headerBytes (type flags fileOffset size link info entrySize :
    Word) : List Byte :=
  [0, type, flags, 0, fileOffset, size, link, info, 0, entrySize].flatMap
    (Bytes.encode 4)

/-- An object file with four bytes of code, a symbol table of the null symbol,
and one `R_PPC_ADDR32` entry for a section. -/
def objectFile (target rOffset : Word) : List Byte :=
  [0x7f, 0x45, 0x4c, 0x46, 1, 2, 1] ++ List.replicate 9 0 ++
    [0, 1, 0, 20, 0, 0, 0, 1] ++ List.replicate 8 0 ++
    [0, 0, 0, 52, 0, 0, 0, 0, 0, 52, 0, 0, 0, 0, 0, 40, 0, 5, 0, 0] ++
    headerBytes 0 0 0 0 0 0 0 ++
    headerBytes 1 shfAlloc 252 4 0 0 0 ++
    headerBytes shtSymtab 0 256 16 3 0 16 ++
    headerBytes shtStrtab 0 272 0 0 0 0 ++
    headerBytes shtRela 0 272 12 2 target 12 ++
    [0, 0, 0, 0] ++ List.replicate 16 0 ++
    Bytes.encode 4 rOffset ++ [0, 0, 0, 1] ++ [0xde, 0xad, 0xbe, 0xef]

def sectionHeader (index type flags fileOffset size link info
    entrySize : Word) : SectionHeader :=
  { index, name := "", type, flags, fileOffset, size, alignment := 0
    mappedAddress := 0, nameOffset := 0, address := 0, link, info, entrySize }

def relaSection (target : Word) : SectionHeader :=
  sectionHeader 4 shtRela 0 272 12 2 target 12

def nullSymbol : RawSymbol :=
  { publicSymbol :=
      { name := "", value := 0, size := 0, sectionIndex := 0, binding := 0
        type := 0, defined := false, imported := false }
    nameOffset := 0, shndx := 0 }

def objectParsed (target rOffset : Word) : ParsedElf :=
  { bytes := objectFile target rOffset
    type := etRel, machine := emPpc, originalEntry := 0, flags := 0
    loadSegments := []
    sections := [
      sectionHeader 0 0 0 0 0 0 0 0,
      sectionHeader 1 1 shfAlloc 252 4 0 0 0,
      sectionHeader 2 shtSymtab 0 256 16 3 0 16,
      sectionHeader 3 shtStrtab 0 272 0 0 0 0,
      relaSection target]
    symbolTables := [{ sectionIndex := 2, symbols := [nullSymbol] }]
    symbols := [], relocationCount := 1 }

def textSection : SectionInfo :=
  (sectionHeader 1 1 shfAlloc 252 4 0 0 0).toSectionInfo

def objectMemory (word : Word) : Memory :=
  ⟨[{ base := 0x10000000
      bytes := Bytes.encode 4 word
      perms := sectionPerms shfAlloc
      name := regionName textSection }]⟩

def objectInfo (target : Word) : ImageInfo :=
  { loadBias := 0x10000000
    sections := [
      (sectionHeader 0 0 0 0 0 0 0 0).toSectionInfo,
      { textSection with mappedAddress := 0x10000000 },
      (sectionHeader 2 shtSymtab 0 256 16 3 0 16).toSectionInfo,
      (sectionHeader 3 shtStrtab 0 272 0 0 0 0).toSectionInfo,
      (relaSection target).toSectionInfo] }

/-- What the entry of the object file works on. -/
def objectTarget (target : Word) (entry : SectionInfo) : RelocationTarget :=
  { type := etRel
    info := objectInfo target
    table := [runtimeSymbol etRel (objectInfo target) [] nullSymbol]
    target := entry
    owner := 4
    error := "" }

/-- The load of an object file, from what each of its stages comes to. -/
private theorem relocates_object {target rOffset : Word}
    {shared : RelocationTarget} {after : Memory}
    (isParsed : (parse (objectFile target rOffset)).result =
      .ok (objectParsed target rOffset))
    (isPlaced : (mapImage (objectParsed target rOffset) .empty
      0x10000000).result =
      .ok { memory := objectMemory 0, info := objectInfo target
            entry := 0, segments := [] })
    (found : relocationTarget (objectParsed target rOffset)
      (objectInfo target)
      (buildRuntimeSymbols (objectParsed target rOffset) (objectInfo target)
        []) "" (relaSection target) = .ok shared)
    (applied : (applySection (objectParsed target rOffset)
      (objectInfo target)
      (buildRuntimeSymbols (objectParsed target rOffset) (objectInfo target)
        []) "" (objectMemory 0) (relaSection target)).result = .ok after) :
    Relocates (objectFile target rOffset) .empty 0x10000000 [] ""
      (objectParsed target rOffset) (relaSection target) shared
      (objectMemory 0) after :=
  ⟨isParsed, rfl, _, [], [], isPlaced, rfl, found, rfl, applied⟩

set_option maxRecDepth 4000 in
private theorem relocates_inside :
    Relocates (objectFile 1 0) .empty 0x10000000 [] "" (objectParsed 1 0)
      (relaSection 1)
      (objectTarget 1 { textSection with mappedAddress := 0x10000000 })
      (objectMemory 0) (objectMemory 0xdeadbeef) := by
  apply relocates_object
  · decide
  · decide
  · decide
  · decide

theorem relocations_stay_object :
    ¬ SameByte 0x10000000 (objectMemory 0) (objectMemory 0xdeadbeef) ∧
      SameByte 0x10000004 (objectMemory 0) (objectMemory 0xdeadbeef) := by
  refine ⟨by unfold SameByte; decide, ?_⟩
  apply (relocations_stay_iff relocates_inside).2
  · intro relocation member
    rw [List.mem_singleton.mp member]
    exact .inr (by decide)
  · intro inside
    exact absurd inside.2.2 (by decide)

set_option maxRecDepth 4000 in
/-- An entry of section zero, which is not allocated, patches the code. -/
theorem stray_entry_patches_another_section :
    ¬ ∀ bytes memory imageBase bindings error parsed entry shared before after
      loaded,
      Relocates bytes memory imageBase bindings error parsed entry shared
        before after →
      (loadFile bytes memory imageBase bindings error).result = .ok loaded →
      ∀ address : Word, ¬ InSection shared.target address.toNat →
        SameByte address before after := by
  intro always
  have relocates : Relocates (objectFile 0 0x10000000) .empty 0x10000000 []
      "" (objectParsed 0 0x10000000) (relaSection 0)
      (objectTarget 0 (sectionHeader 0 0 0 0 0 0 0 0).toSectionInfo)
      (objectMemory 0) (objectMemory 0xdeadbeef) := by
    apply relocates_object
    · decide
    · decide
    · decide
    · decide
  have loaded : (loadFile (objectFile 0 0x10000000) .empty 0x10000000 []
      "").result = .ok {
        memory := objectMemory 0xdeadbeef, info := objectInfo 0
        entry := 0, segments := [], symbols := [] } := by
    decide
  have same := always _ _ _ _ _ _ _ _ _ _ _ relocates loaded 0x10000000
    (fun inside => absurd inside.1 (by decide))
  revert same
  unfold SameByte
  decide

end PpcLab.Elf32
