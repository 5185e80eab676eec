import PpcLab.Execution
import PpcLab.Loader.Elf32
import PpcLab.Loader.Intake

/-!
# ELF files

Parsing a 32-bit big-endian ELF file: program headers, section headers with
their names, symbol tables and the sizes of the relocation tables.  Every table
is checked against the file before its entries are read.
-/

namespace PpcLab.Elf32

open Loader Text Traced

def kElf32HeaderSize : Nat := 52
def kProgramHeaderSize : Nat := 32
def kSectionHeaderSize : Nat := 40
def kSymbolSize : Word := 16
def kRelSize : Word := 8
def kRelaSize : Word := 12
def etRel : Half := 1
def etExec : Half := 2
def etDyn : Half := 3
def emPpc : Half := 20
def ptLoad : Word := 1
def shtSymtab : Word := 2
def shtStrtab : Word := 3
def shtRela : Word := 4
def shtRel : Word := 9
def shtDynsym : Word := 11
def shnUndef : Half := 0

structure SectionHeader extends SectionInfo where
  nameOffset : Word
  address : Word
  link : Word
  info : Word
  entrySize : Word
  deriving DecidableEq, Repr

structure SegmentInfo where
  index : Word
  fileOffset : Word
  virtualAddress : Word
  physicalAddress : Word
  fileSize : Word
  memorySize : Word
  flags : Word
  alignment : Word
  mappedAddress : Word
  deriving DecidableEq, Repr

structure RawSymbol where
  publicSymbol : ImageSymbol
  nameOffset : Word
  shndx : Half
  deriving DecidableEq, Repr

/-- The symbols of a section, by its index. -/
structure SymbolTable where
  sectionIndex : Word
  symbols : List RawSymbol
  deriving DecidableEq, Repr

structure FileHeader where
  type : Half
  machine : Half
  originalEntry : Word
  phoff : Word
  shoff : Word
  flags : Word
  ehsize : Half
  phentsize : Half
  phnum : Half
  shentsize : Half
  shnum : Half
  shstrndx : Half
  deriving DecidableEq, Repr

structure ParsedElf where
  bytes : List Byte
  type : Half
  machine : Half
  originalEntry : Word
  flags : Word
  loadSegments : List SegmentInfo
  sections : List SectionHeader
  symbolTables : List SymbolTable
  symbols : List ImageSymbol
  relocationCount : Word
  deriving DecidableEq, Repr

section Tables

variable (bytes : List Byte)

def readIdent : Intake Unit := do
  reject (bytes.length < kElf32HeaderSize)
    "file is smaller than an ELF32 header"
  let magic ← be32At bytes 0
  reject (magic != 0x7f454c46) "not an ELF file"
  let fileClass ← byteAt bytes 4
  reject (fileClass != 1) "unsupported ELF class: expected ELFCLASS32"
  let order ← byteAt bytes 5
  reject (order != 2)
    "unsupported ELF byte order: expected big-endian ELFDATA2MSB"
  let identVersion ← byteAt bytes 6
  let version ← be32At bytes 20
  reject (identVersion != 1 || version != 1) "unsupported ELF version"

def readHeader : Intake FileHeader := do
  let type ← be16At bytes 16
  let machine ← be16At bytes 18
  let originalEntry ← be32At bytes 24
  let phoff ← be32At bytes 28
  let shoff ← be32At bytes 32
  let flags ← be32At bytes 36
  let ehsize ← be16At bytes 40
  let phentsize ← be16At bytes 42
  let phnum ← be16At bytes 44
  let shentsize ← be16At bytes 46
  let shnum ← be16At bytes 48
  let shstrndx ← be16At bytes 50
  reject (machine != emPpc)
    "unsupported ELF machine: expected EM_PPC (20)"
  reject (type != etExec && type != etDyn && type != etRel)
    ("unsupported ELF type " ++ decimal type.toNat ++
      ": expected ET_EXEC, ET_DYN or ET_REL")
  reject (ehsize.toNat < kElf32HeaderSize) "invalid ELF header size"
  return {
    type, machine, originalEntry, phoff, shoff, flags, ehsize, phentsize
    phnum, shentsize, shnum, shstrndx }

/-- Program headers that load nothing are left out. -/
def readSegment (phoff phentsize i : Nat) : Intake (Option SegmentInfo) := do
  let off := phoff + i * phentsize
  let type ← be32At bytes off
  if type != ptLoad then return none
  else do
    let fileOffset ← be32At bytes (off + 4)
    let virtualAddress ← be32At bytes (off + 8)
    let physicalAddress ← be32At bytes (off + 12)
    let fileSize ← be32At bytes (off + 16)
    let memorySize ← be32At bytes (off + 20)
    let flags ← be32At bytes (off + 24)
    let alignment ← be32At bytes (off + 28)
    if memorySize == 0 then return none
    else do
      reject (memorySize < fileSize)
        "ELF PT_LOAD has p_filesz larger than p_memsz"
      reject (!rangeWithin fileOffset.toNat fileSize.toNat bytes.length)
        "ELF PT_LOAD file range lies outside the file"
      return some {
        index := BitVec.ofNat 32 i
        fileOffset, virtualAddress, physicalAddress, fileSize, memorySize
        flags, alignment, mappedAddress := 0 }

def readSegments (header : FileHeader) : Intake (List SegmentInfo) :=
  if header.phnum == 0 then pure []
  else do
    reject (header.phentsize.toNat < kProgramHeaderSize)
      "ELF program-header entries are too small"
    reject (!rangeWithin header.phoff.toNat
        (header.phentsize.toNat * header.phnum.toNat) bytes.length)
      "ELF program-header table lies outside the file"
    let segments ← collect
      (readSegment bytes header.phoff.toNat header.phentsize.toNat)
      (List.range header.phnum.toNat)
    return segments.filterMap id

def readSection (shoff shentsize i : Nat) : Intake SectionHeader := do
  let off := shoff + i * shentsize
  let nameOffset ← be32At bytes off
  let type ← be32At bytes (off + 4)
  let flags ← be32At bytes (off + 8)
  let address ← be32At bytes (off + 12)
  let fileOffset ← be32At bytes (off + 16)
  let size ← be32At bytes (off + 20)
  let link ← be32At bytes (off + 24)
  let info ← be32At bytes (off + 28)
  let alignment ← be32At bytes (off + 32)
  let entrySize ← be32At bytes (off + 36)
  reject (type != shtNobits && size != 0 &&
      !rangeWithin fileOffset.toNat size.toNat bytes.length)
    "ELF section file range lies outside the file"
  return {
    index := BitVec.ofNat 32 i
    name := "", type, flags, fileOffset, size, alignment, mappedAddress := 0
    nameOffset, address, link, info, entrySize }

def readSections (header : FileHeader) : Intake (List SectionHeader) := do
  reject (header.shentsize.toNat < kSectionHeaderSize)
    "ELF section-header entries are too small"
  reject (!rangeWithin header.shoff.toNat
      (header.shentsize.toNat * header.shnum.toNat) bytes.length)
    "ELF section-header table lies outside the file"
  collect (readSection bytes header.shoff.toNat header.shentsize.toNat)
    (List.range header.shnum.toNat)

def nameSection (strings entry : SectionHeader) : Intake SectionHeader := do
  let name ← cstringAt bytes strings.fileOffset.toNat strings.size.toNat
    entry.nameOffset.toNat
  return { entry with name }

/-- The section names, when there is a string table for them. -/
def nameSections (shstrndx : Half) (sections : List SectionHeader) :
    Intake (List SectionHeader) :=
  match sections[shstrndx.toNat]? with
  | none => pure sections
  | some strings =>
      if strings.type == shtStrtab &&
          rangeWithin strings.fileOffset.toNat strings.size.toNat
            bytes.length then
        collect (nameSection bytes strings) sections
      else pure sections

def isSymbolTable (entry : SectionHeader) : Bool :=
  entry.type == shtSymtab || entry.type == shtDynsym

def isRelocation (entry : SectionHeader) : Bool :=
  entry.type == shtRel || entry.type == shtRela

/-- `entsize` -/
def entrySizeOr (defaultSize : Word) (entry : SectionHeader) : Word :=
  if entry.entrySize != 0 then entry.entrySize else defaultSize

def relocationSize (entry : SectionHeader) : Word :=
  if entry.type == shtRela then kRelaSize else kRelSize

def relocationEntrySize (entry : SectionHeader) : Word :=
  entrySizeOr (relocationSize entry) entry

def readSymbol (strings : SectionHeader) (fileOffset entsize i : Nat) :
    Intake RawSymbol := do
  let off := fileOffset + i * entsize
  let nameOffset ← be32At bytes off
  let name ← cstringAt bytes strings.fileOffset.toNat strings.size.toNat
    nameOffset.toNat
  let value ← be32At bytes (off + 4)
  let size ← be32At bytes (off + 8)
  let stInfo ← byteAt bytes (off + 12)
  let shndx ← be16At bytes (off + 14)
  return {
    publicSymbol :=
      { name, value, size
        sectionIndex := shndx.setWidth 32
        binding := stInfo >>> 4
        type := stInfo &&& 0x0f
        defined := shndx != shnUndef
        imported := shndx == shnUndef && !name.isEmpty }
    nameOffset, shndx }

def readSymbolTable (sections : List SectionHeader) (entry : SectionHeader) :
    Intake SymbolTable :=
  let entsize := entrySizeOr kSymbolSize entry
  match sections[entry.link.toNat]? with
  | none => fail "invalid ELF symbol table"
  | some strings => do
      reject (entsize < kSymbolSize || entry.size % entsize != 0)
        "invalid ELF symbol table"
      reject (strings.type != shtStrtab)
        "ELF symbol table links to a non-string section"
      let symbols ← collect
        (readSymbol bytes strings entry.fileOffset.toNat entsize.toNat)
        (List.range (entry.size / entsize).toNat)
      return { sectionIndex := entry.index, symbols }

end Tables

/-- The symbols that inspection shows. -/
def namedSymbols (tables : List SymbolTable) : List ImageSymbol :=
  (tables.flatMap fun table => table.symbols.map (·.publicSymbol)).filter
    fun symbol => !symbol.name.isEmpty

/-- Every relocation table is a whole number of entries. -/
def countRelocations : List SectionHeader → Except String Word
  | [] => .ok 0
  | entry :: rest =>
      let entsize := relocationEntrySize entry
      if entsize < relocationSize entry ∨ entry.size % entsize ≠ 0 then
        .error "invalid ELF relocation section"
      else do
        let count ← countRelocations rest
        return entry.size / entsize + count

/-- The section headers of a file, the symbol tables and the number of
relocations. -/
def readSectionTables (bytes : List Byte) (header : FileHeader) :
    Intake (List SectionHeader × List SymbolTable × Word) :=
  if header.shnum == 0 then pure ([], [], 0)
  else do
    let sections ← readSections bytes header
    let sections ← nameSections bytes header.shstrndx sections
    let tables ← collect (readSymbolTable bytes sections)
      (sections.filter isSymbolTable)
    let count ← ofExcept (countRelocations (sections.filter isRelocation))
    return (sections, tables, count)

def parse (bytes : List Byte) : Intake ParsedElf := do
  readIdent bytes
  let header ← readHeader bytes
  let loadSegments ← readSegments bytes header
  let (sections, symbolTables, relocationCount) ←
    readSectionTables bytes header
  reject ((header.type == etExec || header.type == etDyn) &&
      loadSegments.isEmpty)
    "ELF executable/shared image contains no non-empty PT_LOAD segments"
  reject (header.type == etRel &&
      !sections.any fun entry => isAllocated entry.toSectionInfo)
    "ELF ET_REL contains no allocatable sections"
  return {
    bytes
    type := header.type
    machine := header.machine
    originalEntry := header.originalEntry
    flags := header.flags
    loadSegments, sections, symbolTables
    symbols := namedSymbols symbolTables
    relocationCount }

/-- What parsing promises of a section: contents in the file. -/
def InFile (bytes : List Byte) (entry : SectionHeader) : Prop :=
  entry.type ≠ shtNobits → entry.size ≠ 0 →
    Access.Inside bytes.length ⟨entry.fileOffset.toNat, entry.size.toNat⟩

/-- A relocation table of whole entries. -/
def WholeEntries (entry : SectionHeader) : Prop :=
  relocationSize entry ≤ relocationEntrySize entry

structure Parsed (bytes : List Byte) (parsed : ParsedElf) : Prop where
  sameBytes : parsed.bytes = bytes
  segments : ∀ segment ∈ parsed.loadSegments,
    Access.Inside bytes.length
      ⟨segment.fileOffset.toNat, segment.fileSize.toNat⟩
  inFile : ∀ entry ∈ parsed.sections, InFile bytes entry
  relocations : ∀ entry ∈ parsed.sections, isRelocation entry = true →
    WholeEntries entry

section Inside

variable {bytes : List Byte}

private theorem table_fits {offset size : Nat}
    (accepted : (!rangeWithin offset size bytes.length) = false) :
    offset + size ≤ bytes.length := by
  rw [Bool.not_eq_false'] at accepted
  have inside : Access.Inside bytes.length ⟨offset, size⟩ :=
    rangeWithin_iff.mp accepted
  unfold Access.Inside at inside
  dsimp only at inside
  omega

private theorem readIdent_inside :
    ReadsInside bytes (readIdent bytes)
      fun _ => kElf32HeaderSize ≤ bytes.length := by
  unfold readIdent
  apply Every.reject
  intro large
  rw [decide_eq_false_iff_not, Nat.not_lt] at large
  have size := large
  unfold kElf32HeaderSize at size
  simp only [ReadsInside.be32At_iff, ReadsInside.byteAt_iff,
    ReadsInside.reject_iff]
  refine ⟨by omega, fun isElf => ⟨by omega, fun is32 => ⟨by omega,
    fun isBig => ⟨by omega, by omega, ?_⟩⟩⟩⟩
  apply Every.ite
  · intro refused
    exact .fail _
  · intro accepted
    exact .pure large

private theorem readHeader_inside (large : kElf32HeaderSize ≤ bytes.length) :
    ReadsInside bytes (readHeader bytes) fun _ => True := by
  unfold kElf32HeaderSize at large
  unfold readHeader
  simp only [ReadsInside.be32At_iff, ReadsInside.be16At_iff,
    ReadsInside.reject_iff, ReadsInside.pure_iff, implies_true, and_true]
  omega

private theorem readSegment_inside {phoff phentsize i : Nat}
    (fits : phoff + i * phentsize + kProgramHeaderSize ≤ bytes.length) :
    ReadsInside bytes (readSegment bytes phoff phentsize i) fun found =>
      ∀ segment ∈ found, Access.Inside bytes.length
        ⟨segment.fileOffset.toNat, segment.fileSize.toNat⟩ := by
  unfold kProgramHeaderSize at fits
  unfold readSegment
  rw [ReadsInside.be32At_iff]
  refine ⟨by omega, ?_⟩
  apply Every.ite
  · intro other
    apply Every.pure
    intro segment absent
    cases absent
  · intro isLoad
    simp only [ReadsInside.be32At_iff]
    refine ⟨by omega, by omega, by omega, by omega, by omega, by omega,
      by omega, ?_⟩
    apply Every.ite
    · intro empty
      apply Every.pure
      intro segment absent
      cases absent
    · intro nonempty
      simp only [ReadsInside.reject_iff, ReadsInside.pure_iff]
      intro small inFile segment same
      cases same
      rw [Bool.not_eq_false'] at inFile
      exact rangeWithin_iff.mp inFile

private theorem readSegments_inside (header : FileHeader) :
    ReadsInside bytes (readSegments bytes header) fun segments =>
      ∀ segment ∈ segments, Access.Inside bytes.length
        ⟨segment.fileOffset.toNat, segment.fileSize.toNat⟩ := by
  apply Every.ite
  · intro none
    apply Every.pure
    intro segment absent
    cases absent
  · intro some
    apply Every.reject
    intro large
    rw [decide_eq_false_iff_not, Nat.not_lt] at large
    apply Every.reject
    intro fits
    refine Every.bind (Every.collect fun i member => readSegment_inside ?_) ?_
    · have bound := entry_fits (List.mem_range.mp member) (table_fits fits)
      omega
    · intro found inFile
      apply Every.pure
      intro segment member
      obtain ⟨value, inFound, isSegment⟩ := List.mem_filterMap.mp member
      exact inFile value inFound segment isSegment

private theorem readSection_inside {shoff shentsize i : Nat}
    (fits : shoff + i * shentsize + kSectionHeaderSize ≤ bytes.length) :
    ReadsInside bytes (readSection bytes shoff shentsize i)
      (InFile bytes) := by
  unfold kSectionHeaderSize at fits
  unfold readSection
  simp only [ReadsInside.be32At_iff, ReadsInside.reject_iff,
    ReadsInside.pure_iff]
  refine ⟨by omega, by omega, by omega, by omega, by omega, by omega,
    by omega, by omega, by omega, by omega, ?_⟩
  intro inFile hasContents nonempty
  rw [Bool.and_eq_false_iff, Bool.and_eq_false_iff, bne_eq_false_iff_eq,
    bne_eq_false_iff_eq, Bool.not_eq_false'] at inFile
  rcases inFile with (noContents | empty) | inFile
  · exact absurd noContents hasContents
  · exact absurd empty nonempty
  · exact rangeWithin_iff.mp inFile

private theorem readSections_inside (header : FileHeader) :
    ReadsInside bytes (readSections bytes header) fun sections =>
      ∀ entry ∈ sections, InFile bytes entry := by
  apply Every.reject
  intro large
  rw [decide_eq_false_iff_not, Nat.not_lt] at large
  apply Every.reject
  intro fits
  apply Every.collect
  intro i member
  apply readSection_inside
  have bound := entry_fits (List.mem_range.mp member) (table_fits fits)
  omega

/-- A name changes nothing else of a section. -/
private theorem nameSections_inside (shstrndx : Half)
    {sections : List SectionHeader}
    (inFile : ∀ entry ∈ sections, InFile bytes entry) :
    ReadsInside bytes (nameSections bytes shstrndx sections) fun sections =>
      ∀ entry ∈ sections, InFile bytes entry := by
  unfold nameSections
  cases sections[shstrndx.toNat]? with
  | none => exact .pure inFile
  | some strings =>
      apply Every.ite
      · intro isTable
        apply Every.collect
        intro entry member
        apply Every.bind (ReadsInside.cstringAt _ _ _)
        intro name holds
        exact .pure (inFile entry member)
      · intro noTable
        exact .pure inFile

private theorem readSymbol_inside (strings : SectionHeader)
    {fileOffset entsize i : Nat}
    (fits : fileOffset + i * entsize + 16 ≤ bytes.length) :
    ReadsInside bytes (readSymbol bytes strings fileOffset entsize i)
      fun _ => True := by
  unfold readSymbol
  rw [ReadsInside.be32At_iff]
  refine ⟨by omega, ?_⟩
  apply Every.bind (ReadsInside.cstringAt _ _ _)
  intro name holds
  simp only [ReadsInside.be32At_iff, ReadsInside.byteAt_iff,
    ReadsInside.be16At_iff, ReadsInside.pure_iff, and_true]
  omega

/-- The entries of a table are within its section. -/
theorem entry_inside {entry : SectionHeader} {entsize : Word} {i : Nat}
    (inFile : InFile bytes entry) (hasContents : entry.type ≠ shtNobits)
    (inTable : i < (entry.size / entsize).toNat) :
    entry.fileOffset.toNat + i * entsize.toNat + entsize.toNat ≤
      bytes.length := by
  rw [BitVec.toNat_udiv] at inTable
  have whole := Nat.mul_div_le entry.size.toNat entsize.toNat
  have nonempty : entry.size ≠ 0 := by
    intro empty
    rw [empty, show (0 : Word).toNat = 0 from rfl, Nat.zero_div] at inTable
    cases inTable
  have inside := inFile hasContents nonempty
  unfold Access.Inside at inside
  dsimp only at inside
  apply entry_fits inTable
  omega

private theorem hasContents_of_isSymbolTable {entry : SectionHeader}
    (isTable : isSymbolTable entry = true) : entry.type ≠ shtNobits := by
  unfold isSymbolTable at isTable
  rw [Bool.or_eq_true, beq_iff_eq, beq_iff_eq] at isTable
  rcases isTable with isTable | isTable
  · rw [isTable]
    decide
  · rw [isTable]
    decide

theorem hasContents_of_isRelocation {entry : SectionHeader}
    (isTable : isRelocation entry = true) : entry.type ≠ shtNobits := by
  unfold isRelocation at isTable
  rw [Bool.or_eq_true, beq_iff_eq, beq_iff_eq] at isTable
  rcases isTable with isTable | isTable
  · rw [isTable]
    decide
  · rw [isTable]
    decide

private theorem readSymbolTable_inside (sections : List SectionHeader)
    {entry : SectionHeader} (inFile : InFile bytes entry)
    (isTable : isSymbolTable entry = true) :
    ReadsInside bytes (readSymbolTable bytes sections entry)
      fun _ => True := by
  unfold readSymbolTable
  cases sections[entry.link.toNat]? with
  | none => exact .fail _
  | some strings =>
      apply Every.reject
      intro whole
      rw [Bool.or_eq_false_iff, decide_eq_false_iff_not, BitVec.not_lt,
        BitVec.le_def] at whole
      have large : 16 ≤ (entrySizeOr kSymbolSize entry).toNat := whole.1
      apply Every.reject
      intro isStrings
      refine Every.bind (Every.collect fun i member =>
        readSymbol_inside strings ?_) ?_
      · have bound := entry_inside inFile
          (hasContents_of_isSymbolTable isTable) (List.mem_range.mp member)
        omega
      · intro symbols holds
        exact .pure trivial

private theorem wholeEntries_of_counted {sections : List SectionHeader}
    {count : Word} (counted : countRelocations sections = .ok count) :
    ∀ entry ∈ sections, WholeEntries entry := by
  induction sections generalizing count with
  | nil =>
      intro entry member
      cases member
  | cons first rest induction =>
      unfold countRelocations at counted
      dsimp only at counted
      split at counted
      · cases counted
      rename_i whole
      rw [not_or, BitVec.not_lt] at whole
      obtain ⟨later, isLater, returned⟩ := Outcome.bind_eq_ok.mp counted
      intro entry member
      rcases List.mem_cons.mp member with here | further
      · rw [here]
        exact whole.1
      · exact induction isLater entry further

private theorem readSectionTables_inside (header : FileHeader) :
    ReadsInside bytes (readSectionTables bytes header) fun tables =>
      (∀ entry ∈ tables.1, InFile bytes entry) ∧
        ∀ entry ∈ tables.1, isRelocation entry = true →
          WholeEntries entry := by
  apply Every.ite
  · intro none
    apply Every.pure
    constructor
    · intro entry absent
      cases absent
    · intro entry absent
      cases absent
  · intro some
    apply Every.bind (readSections_inside header)
    intro unnamed inFile
    apply Every.bind (nameSections_inside _ inFile)
    intro sections inFile
    have readTable : ∀ entry ∈ sections.filter isSymbolTable,
        ReadsInside bytes (readSymbolTable bytes sections entry)
          fun _ => True := by
      intro entry member
      obtain ⟨inSections, isTable⟩ := List.mem_filter.mp member
      exact readSymbolTable_inside sections (inFile entry inSections) isTable
    apply Every.bind (Every.collect readTable)
    intro tables holds
    have whole : ∀ count,
        countRelocations (sections.filter isRelocation) = .ok count →
          ∀ entry ∈ sections, isRelocation entry = true →
            WholeEntries entry := by
      intro count counted entry member isTable
      exact wholeEntries_of_counted counted entry
        (List.mem_filter.mpr ⟨member, isTable⟩)
    apply Every.bind (Every.ofExcept whole)
    intro count whole
    exact .pure ⟨inFile, whole⟩

theorem parse_inside : ReadsInside bytes (parse bytes) (Parsed bytes) := by
  apply Every.bind readIdent_inside
  intro ident large
  apply Every.bind (readHeader_inside large)
  intro header holds
  apply Every.bind (readSegments_inside header)
  intro loadSegments segments
  apply Every.bind (readSectionTables_inside header)
  intro tables sound
  obtain ⟨sections, symbolTables, relocationCount⟩ := tables
  apply Every.reject
  intro loads
  apply Every.reject
  intro allocates
  apply Every.pure
  exact ⟨rfl, segments, sound.1, sound.2⟩

end Inside

end PpcLab.Elf32
