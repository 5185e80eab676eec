import PpcLab.Execution
import PpcLab.Loader.PefRelocation

/-!
# PEF containers

The headers of a PEF container and its loader section: imported symbols,
relocation headers and exported symbols, with the offsets and counts the file
declares checked before the tables they describe are read.
-/

namespace PpcLab.Pef

open Loader Text Traced

def kTagJoy : Word := 0x4a6f7921
def kTagPeff : Word := 0x70656666
def kArchPpc : Word := 0x70777063
def kContainerHeaderSize : Nat := 40
def kSectionHeaderSize : Nat := 28
def kLoaderHeaderSize : Nat := 56
def kImportedLibrarySize : Nat := 24
def kImportedSymbolSize : Nat := 4
def kRelocHeaderSize : Nat := 12
def kWeakImportMask : Byte := 0x80
def kLoader : Byte := 4

structure SectionHeader extends SectionInfo where
  defaultAddress : Word
  shareKind : Byte
  deriving DecidableEq, Repr

structure LoaderHeader where
  mainSection : Word := 0xffffffff
  mainOffset : Word := 0
  initSection : Word := 0xffffffff
  initOffset : Word := 0
  termSection : Word := 0xffffffff
  termOffset : Word := 0
  libraryCount : Word := 0
  importCount : Word := 0
  relocSectionCount : Word := 0
  relocInstrOffset : Word := 0
  stringsOffset : Word := 0
  exportHashOffset : Word := 0
  exportHashPower : Word := 0
  exportCount : Word := 0
  deriving DecidableEq, Repr

structure ImportEntry extends ImportInfo where
  symbolClass : Byte
  weak : Bool
  deriving DecidableEq, Repr

/-- An exported symbol, with the section number the file gives. -/
structure ExportEntry where
  name : String
  symbolValue : Word
  sectionIndex : Half
  symbolClass : Byte
  deriving DecidableEq, Repr

/-- What is known of a container once it was parsed. -/
structure Container where
  bytes : List Byte
  architecture : Word
  formatVersion : Word
  sectionCount : Half
  instantiatedSectionCount : Half
  sections : List SectionHeader
  loaderSectionIndex : Option Word
  loader : LoaderHeader := {}
  imports : List ImportEntry := []
  relocHeaders : List RelocHeader := []
  exports : List ExportEntry := []
  symbols : List ImageSymbol := []
  deriving DecidableEq, Repr

def readSectionHeader (bytes : List Byte) (index : Nat) :
    Intake SectionHeader := do
  let off := kContainerHeaderSize + index * kSectionHeaderSize
  let defaultAddress ← be32At bytes (off + 4)
  let totalLength ← be32At bytes (off + 8)
  let unpackedLength ← be32At bytes (off + 12)
  let containerLength ← be32At bytes (off + 16)
  let containerOffset ← be32At bytes (off + 20)
  let kind ← byteAt bytes (off + 24)
  let shareKind ← byteAt bytes (off + 25)
  let alignmentPower ← byteAt bytes (off + 26)
  reject (containerLength != 0 &&
      !rangeWithin containerOffset.toNat containerLength.toNat bytes.length)
    "PEF section contents lie outside the file"
  reject (totalLength < unpackedLength)
    "PEF section unpackedLength exceeds totalLength"
  return {
    index := BitVec.ofNat 32 index
    totalLength, unpackedLength, containerLength, containerOffset, kind
    alignmentPower, mappedAddress := 0, defaultAddress, shareKind }

/-- The sections read so far, and which of them is the loader section. -/
abbrev SectionTable := List SectionHeader × Option Word

def addSection (bytes : List Byte) (table : SectionTable) (index : Nat) :
    Intake SectionTable := do
  let next ← readSectionHeader bytes index
  reject (next.kind == kLoader && table.2.isSome)
    "PEF contains more than one loader section"
  return (table.1 ++ [next],
    if next.kind == kLoader then some next.index else table.2)

def parseHeader (bytes : List Byte) : Intake Container := do
  reject (bytes.length < kContainerHeaderSize)
    "file is smaller than a PEF container header"
  let joy ← be32At bytes 0
  reject (joy != kTagJoy)
    "not a PEF container ('Joy!'/'peff' signature missing)"
  let peff ← be32At bytes 4
  reject (peff != kTagPeff)
    "not a PEF container ('Joy!'/'peff' signature missing)"
  let architecture ← be32At bytes 8
  let formatVersion ← be32At bytes 12
  let sectionCount ← be16At bytes 32
  let instantiatedSectionCount ← be16At bytes 34
  reject (architecture != kArchPpc) "PEF architecture is not 'pwpc' PowerPC"
  reject (formatVersion != 1)
    ("unsupported PEF format version " ++ decimal formatVersion.toNat)
  reject (bytes.length <
      kContainerHeaderSize + sectionCount.toNat * kSectionHeaderSize)
    "PEF section-header table lies outside the file"
  let (sections, loaderSectionIndex) ←
    fold (addSection bytes) ([], none) (List.range sectionCount.toNat)
  return {
    bytes, architecture, formatVersion, sectionCount
    instantiatedSectionCount, sections, loaderSectionIndex }

def readLoaderHeader (bytes : List Byte) (base : Nat) :
    Intake LoaderHeader := do
  let mainSection ← be32At bytes base
  let mainOffset ← be32At bytes (base + 4)
  let initSection ← be32At bytes (base + 8)
  let initOffset ← be32At bytes (base + 12)
  let termSection ← be32At bytes (base + 16)
  let termOffset ← be32At bytes (base + 20)
  let libraryCount ← be32At bytes (base + 24)
  let importCount ← be32At bytes (base + 28)
  let relocSectionCount ← be32At bytes (base + 32)
  let relocInstrOffset ← be32At bytes (base + 36)
  let stringsOffset ← be32At bytes (base + 40)
  let exportHashOffset ← be32At bytes (base + 44)
  let exportHashPower ← be32At bytes (base + 48)
  let exportCount ← be32At bytes (base + 52)
  return {
    mainSection, mainOffset, initSection, initOffset, termSection, termOffset
    libraryCount, importCount, relocSectionCount, relocInstrOffset
    stringsOffset, exportHashOffset, exportHashPower, exportCount }

namespace LoaderHeader

variable (l : LoaderHeader)

/-- `fixedTables` -/
def fixedTables : Nat :=
  kLoaderHeaderSize + l.libraryCount.toNat * kImportedLibrarySize +
    l.importCount.toNat * kImportedSymbolSize +
    l.relocSectionCount.toNat * kRelocHeaderSize

def symbolBase (base : Nat) : Nat :=
  base + kLoaderHeaderSize + l.libraryCount.toNat * kImportedLibrarySize

def relocHeaderBase (base : Nat) : Nat :=
  l.symbolBase base + l.importCount.toNat * kImportedSymbolSize

def keyOffset : Nat :=
  l.exportHashOffset.toNat + 2 ^ l.exportHashPower.toNat * 4

def exportOffset : Nat :=
  l.keyOffset + l.exportCount.toNat * 4

def exportEnd : Nat :=
  l.exportOffset + l.exportCount.toNat * 10

end LoaderHeader

def readImport (bytes : List Byte) (symbolBase stringBase stringSize : Nat)
    (i : Nat) : Intake ImportEntry := do
  let raw ← be32At bytes (symbolBase + i * 4)
  let symbolClass : Byte := (raw >>> 24).setWidth 8
  let name ← cstringAt bytes stringBase stringSize (raw &&& 0x00ffffff).toNat
  return {
    name, address := 0, resolved := false, symbolClass
    weak := (symbolClass &&& kWeakImportMask) != 0 }

/-- The public symbol of an import. -/
def importSymbol (imp : ImportEntry) : ImageSymbol :=
  { name := imp.name, value := 0, size := 0, sectionIndex := 0, binding := 0
    type := imp.symbolClass &&& 0x0f, defined := false, imported := true }

def readRelocHeader (bytes : List Byte) (relocHeaderBase sectionCount : Nat)
    (relocInstrOffset size i : Nat) : Intake RelocHeader := do
  let off := relocHeaderBase + i * kRelocHeaderSize
  let sectionIndex ← be16At bytes off
  let chunkCount ← be32At bytes (off + 4)
  let firstOffset ← be32At bytes (off + 8)
  reject (sectionCount ≤ sectionIndex.toNat)
    "PEF relocation header references an invalid section"
  reject (size < relocInstrOffset + firstOffset.toNat + chunkCount.toNat * 2)
    "PEF relocation instruction stream lies outside loader section"
  return { sectionIndex, chunkCount, firstOffset }

def exportName (bytes : List Byte) (stringBase stringSize : Nat)
    (nameOffset nameLength : Nat) : Intake String :=
  if nameOffset < stringSize ∧ nameLength ≤ stringSize - nameOffset then do
    let text ← subspan bytes (stringBase + nameOffset) nameLength
    return latin1 text
  else pure ""

def readExport (bytes : List Byte) (keys entries stringBase stringSize : Nat)
    (i : Nat) : Intake ExportEntry := do
  let hashWord ← be32At bytes (keys + i * 4)
  let classAndName ← be32At bytes (entries + i * 10)
  let symbolValue ← be32At bytes (entries + i * 10 + 4)
  let sectionIndex ← be16At bytes (entries + i * 10 + 8)
  let name ← exportName bytes stringBase stringSize
    (classAndName &&& 0x00ffffff).toNat (hashWord >>> 16).toNat
  return {
    name, symbolValue, sectionIndex
    symbolClass := (classAndName >>> 24).setWidth 8 }

/-- The public symbol of an export.  Pseudo-sections have negative numbers. -/
def exportSymbol (entry : ExportEntry) : ImageSymbol :=
  { name := entry.name
    value := entry.symbolValue
    size := 0
    sectionIndex :=
      if 0 ≤ entry.sectionIndex.toInt then entry.sectionIndex.setWidth 32
      else 0xffffffff
    binding := 0
    type := entry.symbolClass
    defined := entry.sectionIndex.toInt != -3
    imported := entry.sectionIndex.toInt == -3 }

/-- The loader section, when there is one, at an offset and with a size. -/
def parseTables (parsed : Container) (base size : Nat) :
    Intake Container := do
  let bytes := parsed.bytes
  reject (size < kLoaderHeaderSize)
    "PEF loader section is smaller than its header"
  let l ← readLoaderHeader bytes base
  reject (size < l.fixedTables || size < l.stringsOffset.toNat ||
      size < l.relocInstrOffset.toNat || size < l.exportHashOffset.toNat)
    "PEF loader table offsets are outside the loader section"
  reject (30 < l.exportHashPower.toNat)
    "PEF export hash table power is unreasonable"
  let stringBase := base + l.stringsOffset.toNat
  let stringSize := size - l.stringsOffset.toNat
  let imports ←
    collect (readImport bytes (l.symbolBase base) stringBase stringSize)
      (List.range l.importCount.toNat)
  let relocHeaders ←
    collect (readRelocHeader bytes (l.relocHeaderBase base)
        parsed.sections.length l.relocInstrOffset.toNat size)
      (List.range l.relocSectionCount.toNat)
  reject (l.exportCount != 0 && decide (size < l.exportEnd))
    "PEF export tables lie outside loader section"
  let exports ←
    collect (readExport bytes (base + l.keyOffset) (base + l.exportOffset)
        stringBase stringSize)
      (List.range l.exportCount.toNat)
  return { parsed with
    loader := l
    imports
    relocHeaders
    exports
    symbols := imports.map importSymbol ++ exports.map exportSymbol }

/-- The offset and the length of the loader section. -/
def loaderRange (parsed : Container) : Option (Nat × Nat) :=
  parsed.loaderSectionIndex.bind fun index =>
    parsed.sections[index.toNat]?.map fun entry =>
      (entry.containerOffset.toNat, entry.containerLength.toNat)

def parseLoader (parsed : Container) : Intake Container :=
  match loaderRange parsed with
  | none => pure parsed
  | some (base, size) => parseTables parsed base size

def parse (bytes : List Byte) : Intake Container := do
  let parsed ← parseHeader bytes
  parseLoader parsed

section Inside

variable {bytes : List Byte}

/-- What the container header promises of a section: contents in the file. -/
def InFile (bytes : List Byte) (entry : SectionInfo) : Prop :=
  entry.containerLength ≠ 0 →
    Access.Inside bytes.length
      ⟨entry.containerOffset.toNat, entry.containerLength.toNat⟩

/-- A section as its header describes it. -/
structure Unmapped (bytes : List Byte) (entry : SectionHeader) : Prop where
  inFile : InFile bytes entry.toSectionInfo
  unmapped : entry.mappedAddress = 0

theorem readSectionHeader_inside {index : Nat}
    (fits : kContainerHeaderSize + (index + 1) * kSectionHeaderSize ≤
      bytes.length) :
    ReadsInside bytes (readSectionHeader bytes index) (Unmapped bytes) := by
  unfold kContainerHeaderSize kSectionHeaderSize at fits
  unfold readSectionHeader kContainerHeaderSize kSectionHeaderSize
  simp only [ReadsInside.be32At_iff, ReadsInside.byteAt_iff,
    ReadsInside.reject_iff, ReadsInside.pure_iff]
  refine ⟨by omega, by omega, by omega, by omega, by omega, by omega,
    by omega, by omega, ?_⟩
  intro inFile small
  refine ⟨?_, rfl⟩
  intro nonempty
  rw [Bool.and_eq_false_iff, bne_eq_false_iff_eq, Bool.not_eq_false',
    rangeWithin_iff] at inFile
  exact inFile.resolve_left nonempty

/-- What holds of a container whose header was parsed. -/
structure HeaderParsed (bytes : List Byte) (parsed : Container) : Prop where
  sameBytes : parsed.bytes = bytes
  unmapped : ∀ entry ∈ parsed.sections, Unmapped bytes entry
  few : parsed.sections.length < 2 ^ 16
  noRelocations : parsed.relocHeaders = []
  noSymbols : parsed.imports = [] ∧ parsed.exports = [] ∧ parsed.symbols = []

/-- The relocation streams of the container lie in its loader section; its
symbols are the imports, none of them resolved, and the exports. -/
structure Parsed (bytes : List Byte) (parsed : Container) : Prop where
  sameBytes : parsed.bytes = bytes
  unmapped : ∀ entry ∈ parsed.sections, Unmapped bytes entry
  few : parsed.sections.length < 2 ^ 16
  symbols : parsed.symbols =
    parsed.imports.map importSymbol ++ parsed.exports.map exportSymbol
  unresolved : ∀ imp ∈ parsed.imports, imp.resolved = false
  streams : ∀ header ∈ parsed.relocHeaders, ∃ base size,
    loaderRange parsed = some (base, size) ∧ base + size ≤ bytes.length ∧
      parsed.loader.relocInstrOffset.toNat + header.firstOffset.toNat +
        header.chunkCount.toNat * 2 ≤ size

private theorem addSection_inside {index : Nat}
    (fits : kContainerHeaderSize + (index + 1) * kSectionHeaderSize ≤
      bytes.length) {table : SectionTable}
    (unmapped : ∀ entry ∈ table.1, Unmapped bytes entry) :
    ReadsInside bytes (addSection bytes table index) fun table =>
      ∀ entry ∈ table.1, Unmapped bytes entry := by
  apply Every.bind (readSectionHeader_inside fits)
  intro next nextUnmapped
  apply Every.reject
  intro single
  apply Every.pure
  intro entry member
  rcases List.mem_append.mp member with early | last
  · exact unmapped entry early
  · rw [List.mem_singleton.mp last]
    exact nextUnmapped

/-- Every header adds a section. -/
private theorem length_sectionTable {indices : List Nat}
    {table result : SectionTable}
    (succeeded : (fold (addSection bytes) table indices).result =
      .ok result) :
    result.1.length = table.1.length + indices.length := by
  induction indices generalizing table with
  | nil =>
      cases succeeded
      rfl
  | cons index indices induction =>
      unfold fold at succeeded
      rw [result_bind] at succeeded
      obtain ⟨next, added, succeeded⟩ := Outcome.bind_eq_ok.mp succeeded
      unfold addSection at added
      rw [result_bind] at added
      obtain ⟨header, _, added⟩ := Outcome.bind_eq_ok.mp added
      rw [result_bind] at added
      obtain ⟨_, _, added⟩ := Outcome.bind_eq_ok.mp added
      cases added
      rw [induction succeeded, List.length_append, List.length_cons,
        List.length_cons, List.length_nil]
      omega

private theorem sectionTable_inside {count : Nat}
    (fits : kContainerHeaderSize + count * kSectionHeaderSize ≤
      bytes.length) :
    ReadsInside bytes (fold (addSection bytes) ([], none) (List.range count))
      fun table => ∀ entry ∈ table.1, Unmapped bytes entry := by
  apply Every.fold
  · intro entry member
    cases member
  · intro index member table unmapped
    apply addSection_inside _ unmapped
    have bound := List.mem_range.mp member
    calc kContainerHeaderSize + (index + 1) * kSectionHeaderSize
        ≤ kContainerHeaderSize + count * kSectionHeaderSize :=
          Nat.add_le_add_left (Nat.mul_le_mul_right _ bound) _
      _ ≤ bytes.length := fits

theorem parseHeader_inside :
    ReadsInside bytes (parseHeader bytes) (HeaderParsed bytes) := by
  unfold parseHeader
  apply Every.reject
  intro large
  rw [decide_eq_false_iff_not, kContainerHeaderSize] at large
  simp only [ReadsInside.be32At_iff, ReadsInside.be16At_iff,
    ReadsInside.reject_iff]
  refine ⟨by omega, fun _ => ⟨by omega, fun _ => ⟨by omega, by omega,
    by omega, by omega, ?_⟩⟩⟩
  intro isPpc isVersion fits
  rw [decide_eq_false_iff_not, Nat.not_lt] at fits
  have table := sectionTable_inside fits
  have sized : ReadsInside bytes
      (fold (addSection bytes) ([], none)
        (List.range (be16 bytes 32).toNat))
      fun table => (∀ entry ∈ table.1, Unmapped bytes entry) ∧
        table.1.length < 2 ^ 16 := by
    refine ⟨table.steps, fun result succeeded =>
      ⟨table.value result succeeded, ?_⟩⟩
    rw [length_sectionTable succeeded, List.length_nil, Nat.zero_add,
      List.length_range]
    exact (be16 bytes 32).isLt
  apply Every.bind sized
  intro table sound
  obtain ⟨sections, loaderSectionIndex⟩ := table
  apply Every.pure
  exact ⟨rfl, sound.1, sound.2, rfl, rfl, rfl, rfl⟩

private theorem readLoaderHeader_inside {base : Nat}
    (fits : base + kLoaderHeaderSize ≤ bytes.length) :
    ReadsInside bytes (readLoaderHeader bytes base) fun _ => True := by
  unfold kLoaderHeaderSize at fits
  unfold readLoaderHeader
  simp only [ReadsInside.be32At_iff, ReadsInside.pure_iff, and_true]
  omega

private theorem readImport_inside {symbolBase i : Nat}
    (fits : symbolBase + (i + 1) * 4 ≤ bytes.length)
    (stringBase stringSize : Nat) :
    ReadsInside bytes (readImport bytes symbolBase stringBase stringSize i)
      fun imp => imp.resolved = false := by
  unfold readImport
  rw [ReadsInside.be32At_iff]
  refine ⟨by omega, ?_⟩
  apply Every.bind (ReadsInside.cstringAt _ _ _)
  intro name holds
  exact .pure rfl

private theorem readRelocHeader_inside {relocHeaderBase i : Nat}
    (fits : relocHeaderBase + (i + 1) * kRelocHeaderSize ≤ bytes.length)
    (sectionCount relocInstrOffset size : Nat) :
    ReadsInside bytes
      (readRelocHeader bytes relocHeaderBase sectionCount relocInstrOffset
        size i)
      fun header => relocInstrOffset + header.firstOffset.toNat +
        header.chunkCount.toNat * 2 ≤ size := by
  unfold kRelocHeaderSize at fits
  unfold readRelocHeader kRelocHeaderSize
  simp only [ReadsInside.be16At_iff, ReadsInside.be32At_iff,
    ReadsInside.reject_iff, ReadsInside.pure_iff]
  refine ⟨by omega, by omega, by omega, ?_⟩
  intro valid fitsStream
  rw [decide_eq_false_iff_not] at fitsStream
  omega

private theorem exportName_inside {stringBase stringSize : Nat}
    (stringsFit : stringBase + stringSize ≤ bytes.length)
    (nameOffset nameLength : Nat) :
    ReadsInside bytes
      (exportName bytes stringBase stringSize nameOffset nameLength)
      fun _ => True := by
  apply Every.ite
  · intro within
    apply Every.bind (ReadsInside.subspan (inside_range (by omega)))
    intro text holds
    exact .pure trivial
  · intro outside
    exact .pure trivial

private theorem readExport_inside {keys entries stringBase stringSize i : Nat}
    (keyFits : keys + (i + 1) * 4 ≤ bytes.length)
    (entryFits : entries + (i + 1) * 10 ≤ bytes.length)
    (stringsFit : stringBase + stringSize ≤ bytes.length) :
    ReadsInside bytes
      (readExport bytes keys entries stringBase stringSize i)
      fun _ => True := by
  unfold readExport
  simp only [ReadsInside.be32At_iff, ReadsInside.be16At_iff]
  refine ⟨by omega, by omega, by omega, by omega, ?_⟩
  apply Every.bind (exportName_inside stringsFit _ _)
  intro name holds
  exact .pure trivial

/-- The tables of the loader section lie in it, whatever it declares. -/
theorem parseTables_inside {parsed : Container}
    (header : HeaderParsed bytes parsed) {base size : Nat}
    (isLoader : loaderRange parsed = some (base, size))
    (inFile : size ≠ 0 → base + size ≤ bytes.length) :
    ReadsInside bytes (parseTables parsed base size) (Parsed bytes) := by
  unfold parseTables
  rw [header.sameBytes]
  apply Every.reject
  intro large
  rw [decide_eq_false_iff_not, Nat.not_lt] at large
  have fits : base + size ≤ bytes.length := by
    apply inFile
    unfold kLoaderHeaderSize at large
    omega
  apply Every.bind (readLoaderHeader_inside (by omega))
  intro l holds
  apply Every.reject
  intro tablesFit
  rw [Bool.or_eq_false_iff, Bool.or_eq_false_iff, Bool.or_eq_false_iff,
    decide_eq_false_iff_not, decide_eq_false_iff_not, decide_eq_false_iff_not,
    decide_eq_false_iff_not] at tablesFit
  obtain ⟨⟨⟨fixedFit, stringsFit⟩, relocFit⟩, exportsFit⟩ := tablesFit
  unfold LoaderHeader.fixedTables kLoaderHeaderSize kImportedLibrarySize
    kImportedSymbolSize kRelocHeaderSize at fixedFit
  apply Every.reject
  intro reasonable
  refine Every.bind (Every.collect fun i member =>
    readImport_inside ?_ _ _) ?_
  · have bound := List.mem_range.mp member
    unfold LoaderHeader.symbolBase kLoaderHeaderSize kImportedLibrarySize
    omega
  intro imports unresolved
  refine Every.bind (Every.collect fun i member =>
    readRelocHeader_inside ?_ _ _ _) ?_
  · have bound := List.mem_range.mp member
    unfold LoaderHeader.relocHeaderBase LoaderHeader.symbolBase
      kLoaderHeaderSize kImportedLibrarySize kImportedSymbolSize
      kRelocHeaderSize
    omega
  intro relocHeaders streams
  apply Every.reject
  intro exportFits
  rw [Bool.and_eq_false_iff, bne_eq_false_iff_eq, decide_eq_false_iff_not]
    at exportFits
  unfold LoaderHeader.exportEnd LoaderHeader.exportOffset at exportFits
  refine Every.bind (Every.collect fun i member =>
    readExport_inside ?_ ?_ ?_) ?_
  · have bound := List.mem_range.mp member
    rcases exportFits with none | exportFits
    · rw [none] at bound
      cases bound
    · omega
  · have bound := List.mem_range.mp member
    unfold LoaderHeader.exportOffset
    rcases exportFits with none | exportFits
    · rw [none] at bound
      cases bound
    · omega
  · omega
  intro exports holds
  apply Every.pure
  refine ⟨rfl, header.unmapped, header.few, rfl, unresolved, ?_⟩
  intro relocHeader member
  exact ⟨base, size, isLoader, fits, streams relocHeader member⟩

theorem parse_inside : ReadsInside bytes (parse bytes) (Parsed bytes) := by
  apply Every.bind parseHeader_inside
  intro parsed header
  unfold parseLoader
  split
  · apply Every.pure
    obtain ⟨noImports, noExports, noSymbols⟩ := header.noSymbols
    refine ⟨header.sameBytes, header.unmapped, header.few, ?_, ?_, ?_⟩
    · rw [noImports, noExports, noSymbols]
      rfl
    · intro imp member
      rw [noImports] at member
      cases member
    intro relocHeader member
    rw [header.noRelocations] at member
    cases member
  · rename_i base size isLoader
    apply parseTables_inside header isLoader
    intro nonempty
    obtain ⟨index, isIndex, found⟩ := Option.bind_eq_some_iff.mp isLoader
    obtain ⟨entry, isEntry, isRange⟩ := Option.map_eq_some_iff.mp found
    cases isRange
    have unmapped := header.unmapped entry (List.mem_of_getElem? isEntry)
    have inFile := unmapped.inFile (fun empty => nonempty (by rw [empty]; rfl))
    unfold Access.Inside at inFile
    dsimp only at inFile
    omega

end Inside

end PpcLab.Pef
