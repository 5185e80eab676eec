import PpcLab.Loader.Elf32File
import PpcLab.Loader.Elf32Relocation

/-!
# Loading an ELF file

The segments or the sections of an ELF file are mapped and filled from it, its
symbols get their run-time values, and its relocation tables are applied entry
by entry.  Whatever the file declares, it is read within its bytes.
-/

namespace PpcLab.Elf32

open Loader Text Traced

def pfX : Word := 1
def pfW : Word := 2
def pfR : Word := 4
def shnAbs : Half := 0xfff1
def shnCommon : Half := 0xfff2
def stbWeak : Byte := 2

def segmentPerms (flags : Word) : MemoryPerm :=
  let perms := MemoryPerm.none
  let perms := if (flags &&& (pfR ||| pfX)) != 0 then perms ||| .read else perms
  let perms := if (flags &&& pfW) != 0 then perms ||| .write else perms
  if (flags &&& pfX) != 0 then perms ||| .execute else perms

/-- Map one segment and fill it from the file. -/
def mapLoadSegment (bytes : List Byte) (bias : Word) (memory : Memory)
    (segment : SegmentInfo) : Intake (Memory × SegmentInfo) :=
  if bias.toNat + segment.virtualAddress.toNat + segment.memorySize.toNat >
      2 ^ 32 then
    fail "ELF PT_LOAD rebased range exceeds 32-bit address space"
  else
    let mappedAddress := bias + segment.virtualAddress
    let index := decimal segment.index.toNat
    match memory.map mappedAddress segment.memorySize.toNat
        (segmentPerms segment.flags) ("elf:PT_LOAD[" ++ index ++ "]") with
    | (false, _) =>
        fail ("failed to map ELF PT_LOAD[" ++ index ++ "] at 0x" ++
          hex mappedAddress.toNat ++ " size 0x" ++
          hex segment.memorySize.toNat ++ " (overlap or invalid range)")
    | (true, memory) =>
        if segment.fileSize == 0 then
          pure (memory, { segment with mappedAddress })
        else if (memory.find mappedAddress segment.memorySize.toNat).isNone then
          fail "internal error locating newly mapped ELF segment"
        else do
          let block ← subspan bytes segment.fileOffset.toNat
            segment.fileSize.toNat
          return (copyTo memory mappedAddress segment.memorySize.toNat block,
            { segment with mappedAddress })

def mapLoadSegments (bytes : List Byte) (bias : Word) :
    Memory → List SegmentInfo → Intake (Memory × List SegmentInfo)
  | memory, [] => pure (memory, [])
  | memory, segment :: rest => do
      let (memory, segment) ← mapLoadSegment bytes bias memory segment
      let (memory, rest) ← mapLoadSegments bytes bias memory rest
      return (memory, segment :: rest)

/-- The contents of a section that was just mapped, from the file. -/
def fillSectionAt (bytes : List Byte) (entry : SectionInfo) (address : Word)
    (memory : Memory) : Intake Memory :=
  if entry.type = shtNobits then pure memory
  else do
    reject ((memory.find address entry.size.toNat).isNone ||
        !rangeWithin entry.fileOffset.toNat entry.size.toNat bytes.length)
      "invalid ELF ET_REL section data"
    let block ← subspan bytes entry.fileOffset.toNat entry.size.toNat
    return copyTo memory address entry.size.toNat block

/-- The loop of `mapRelSections`, from a cursor. -/
def mapRelFromAt (bytes : List Byte) :
    Word → Memory → List SectionInfo → Intake (Memory × List SectionInfo)
  | _, memory, [] => pure (memory, [])
  | cursor, memory, entry :: rest =>
      if isAllocated entry = false then do
        let (memory, rest) ← mapRelFromAt bytes cursor memory rest
        return (memory, entry :: rest)
      else
        let alignment := sectionAlignment entry
        if (alignment &&& (alignment - 1)) != 0 then
          fail "ELF ET_REL section alignment is not a power of two"
        else
          let start := alignUp cursor alignment
          if start.toNat + entry.size.toNat > 2 ^ 32 then
            fail "ELF ET_REL allocation exceeds 32-bit address space"
          else
            match memory.map start entry.size.toNat (sectionPerms entry.flags)
                (regionName entry) with
            | (false, _) =>
                fail ("failed to map ELF ET_REL section " ++
                  decimal entry.index.toNat)
            | (true, memory) => do
                let memory ← fillSectionAt bytes entry start memory
                let (memory, rest) ←
                  mapRelFromAt bytes (start + entry.size) memory rest
                return (memory, { entry with mappedAddress := start } :: rest)

/-- An image in memory, before its relocations. -/
structure Placed where
  memory : Memory
  info : ImageInfo
  entry : Word
  segments : List SegmentInfo
  deriving DecidableEq, Repr

/-- The run-time address of an ordinary section of a linked image. -/
def publishSection (bias : Word) (entry : SectionHeader) : SectionInfo :=
  if (entry.flags &&& shfAlloc) != 0 then
    { entry.toSectionInfo with mappedAddress := bias + entry.address }
  else entry.toSectionInfo

def mapImage (parsed : ParsedElf) (memory : Memory) (imageBase : Word) :
    Intake Placed :=
  if parsed.type == etRel then do
    let (memory, sections) ← mapRelFromAt parsed.bytes imageBase memory
      (parsed.sections.map (·.toSectionInfo))
    return {
      memory
      info := { loadBias := imageBase, sections }
      entry := 0
      segments := parsed.loadSegments }
  else do
    let bias := if parsed.type == etDyn then imageBase else 0
    let (memory, segments) ←
      mapLoadSegments parsed.bytes bias memory parsed.loadSegments
    return {
      memory
      info := {
        loadBias := bias
        sections := parsed.sections.map (publishSection bias) }
      entry := bias + parsed.originalEntry
      segments }

structure RuntimeSymbol where
  address : Word
  resolved : Bool
  symbol : ImageSymbol
  deriving DecidableEq, Repr

structure RuntimeSymbolTable where
  sectionIndex : Word
  symbols : List RuntimeSymbol
  deriving DecidableEq, Repr

/-- The run-time address of a symbol, if it has one.  COMMON symbols are not
allocated. -/
def resolveSymbol (type : Half) (info : ImageInfo)
    (bindings : List SymbolBinding) (raw : RawSymbol) : Option Word :=
  let symbol := raw.publicSymbol
  if raw.shndx = shnUndef then
    if symbol.name.isEmpty then some 0
    else
      match findSymbolBinding bindings symbol.name with
      | some address => some address
      | none => if symbol.binding = stbWeak then some 0 else none
  else if raw.shndx = shnAbs then some symbol.value
  else if raw.shndx = shnCommon then none
  else
    match info.sections[raw.shndx.toNat]? with
    | none => none
    | some entry =>
        if type = etRel then some (entry.mappedAddress + symbol.value)
        else some (info.loadBias + symbol.value)

def runtimeSymbol (type : Half) (info : ImageInfo)
    (bindings : List SymbolBinding) (raw : RawSymbol) : RuntimeSymbol :=
  let found := resolveSymbol type info bindings raw
  { address := found.getD 0
    resolved := found.isSome
    symbol :=
      { raw.publicSymbol with
        value := found.getD raw.publicSymbol.value
        defined := raw.shndx != shnUndef || found.isSome
        imported := raw.shndx == shnUndef } }

def buildRuntimeSymbols (parsed : ParsedElf) (info : ImageInfo)
    (bindings : List SymbolBinding) : List RuntimeSymbolTable :=
  parsed.symbolTables.map fun table =>
    { sectionIndex := table.sectionIndex
      symbols := table.symbols.map (runtimeSymbol parsed.type info bindings) }

/-- The symbols of a loaded image, in the order of their tables. -/
def publishedSymbols (runtime : List RuntimeSymbolTable) :
    List ImageSymbol :=
  (runtime.flatMap fun table => table.symbols.map (·.symbol)).filter
    fun symbol => !symbol.name.isEmpty

structure RelocationEntry where
  rOffset : Word
  rInfo : Word
  addend : Addend
  deriving DecidableEq, Repr

namespace RelocationEntry

variable (entry : RelocationEntry)

def symbolIndex : Word := entry.rInfo >>> 8
def type : Word := entry.rInfo &&& 0xff

/-- The entry does not look at its symbol. -/
def ignoresSymbol : Bool :=
  entry.type.toNat == rPpcRelative || entry.type.toNat == rPpcNone

end RelocationEntry

def readRelocation (bytes : List Byte) (rela : Bool) (off : Nat) :
    Intake RelocationEntry := do
  let rOffset ← be32At bytes off
  let rInfo ← be32At bytes (off + 4)
  if rela then do
    let addend ← be32At bytes (off + 8)
    return { rOffset, rInfo, addend := some addend }
  else return { rOffset, rInfo, addend := none }

def relocationSymbol (table : List RuntimeSymbol) (index : Word) :
    Except String RuntimeSymbol :=
  match table[index.toNat]? with
  | none =>
      .error "ELF relocation references symbol index outside its symbol table"
  | some found =>
      if found.resolved then .ok found
      else
        .error ("unresolved ELF relocation symbol: " ++
          (if found.symbol.name.isEmpty then "<anonymous>"
            else found.symbol.name) ++
          " (supply --bind NAME=ADDRESS)")

/-- The tables and the target that the entries of a section share. -/
structure RelocationTarget where
  /-- The file type. -/
  type : Half
  info : ImageInfo
  table : List RuntimeSymbol
  target : SectionInfo
  /-- The relocation section. -/
  owner : Word
  error : String
  deriving DecidableEq, Repr

namespace RelocationTarget

variable (shared : RelocationTarget)

def place (rOffset : Word) : Word :=
  if shared.type = etRel then shared.target.mappedAddress + rOffset
  else shared.info.loadBias + rOffset

def context (text : String) (i : Nat) (place : Word) : String :=
  text ++ " (relocation section " ++ decimal shared.owner.toNat ++
    ", entry " ++ decimal i ++ ", place 0x" ++ hex place.toNat ++ ")"

def symbolOf (entry : RelocationEntry) :
    Except String (Option RuntimeSymbol) :=
  if entry.ignoresSymbol then .ok none
  else (relocationSymbol shared.table entry.symbolIndex).map some

def applyEntry (memory : Memory) (i : Nat) (entry : RelocationEntry) :
    Except String Memory := do
  let place := shared.place entry.rOffset
  let symbol ← shared.symbolOf entry
  match applyOneRelocation memory place entry.type
      ((symbol.map (·.address)).getD 0) (symbol.map (·.symbol)) entry.addend
      shared.info.loadBias shared.info shared.error with
  | .ok memory => .ok memory
  | .error text => .error (shared.context text i place)

end RelocationTarget

/-- The symbol table of a section. -/
def findTable (runtime : List RuntimeSymbolTable) (link : Word) :
    Option (List RuntimeSymbol) :=
  (runtime.find? fun table => table.sectionIndex == link).map (·.symbols)

section Apply

variable (parsed : ParsedElf) (info : ImageInfo)
  (runtime : List RuntimeSymbolTable) (error : String)

/-- What the entries of a relocation section work on. -/
def relocationTarget (entry : SectionHeader) :
    Except String RelocationTarget :=
  match findTable runtime entry.link with
  | none =>
      .error "ELF relocation section does not link to a parsed symbol table"
  | some table =>
      match info.sections[entry.info.toNat]? with
      | none => .error "ELF relocation section has invalid target section index"
      | some target =>
          .ok { type := parsed.type, info, table, target
                owner := entry.index, error }

/-- The position of an entry in the file. -/
def relocationOffset (entry : SectionHeader) (i : Nat) : Nat :=
  entry.fileOffset.toNat + i * (relocationEntrySize entry).toNat

def applyEntryAt (entry : SectionHeader) (shared : RelocationTarget)
    (memory : Memory) (i : Nat) : Intake Memory := do
  let relocation ← readRelocation parsed.bytes (entry.type == shtRela)
    (relocationOffset entry i)
  ofExcept (shared.applyEntry memory i relocation)

/-- Apply the entries of one relocation section. -/
def applySection (memory : Memory) (entry : SectionHeader) :
    Intake Memory := do
  let shared ← ofExcept (relocationTarget parsed info runtime error entry)
  fold (applyEntryAt parsed entry shared) memory
    (List.range (entry.size / relocationEntrySize entry).toNat)

def applyRelocations (memory : Memory) : Intake Memory :=
  fold (applySection parsed info runtime error) memory
    (parsed.sections.filter isRelocation)

end Apply

structure LoadedElf where
  memory : Memory
  info : ImageInfo
  entry : Word
  segments : List SegmentInfo
  symbols : List ImageSymbol
  deriving DecidableEq, Repr

def loadFile (bytes : List Byte) (memory : Memory) (imageBase : Word)
    (bindings : List SymbolBinding) (error : String) : Intake LoadedElf := do
  let parsed ← parse bytes
  let placed ← mapImage parsed memory imageBase
  let runtime := buildRuntimeSymbols parsed placed.info bindings
  let memory ←
    applyRelocations parsed placed.info runtime error placed.memory
  return {
    memory
    info := placed.info
    entry := placed.entry
    segments := placed.segments
    symbols := publishedSymbols runtime }

section Inside

variable {bytes : List Byte} {parsed : ParsedElf}

private theorem mapLoadSegment_inside {segment : SegmentInfo}
    (inFile : Access.Inside bytes.length
      ⟨segment.fileOffset.toNat, segment.fileSize.toNat⟩)
    (bias : Word) (memory : Memory) :
    ReadsInside bytes (mapLoadSegment bytes bias memory segment)
      fun _ => True := by
  apply Every.ite
  · intro exceeds
    exact .fail _
  · intro fits
    dsimp only
    obtain ⟨accepted, mapped⟩ := memory.map (bias + segment.virtualAddress)
      segment.memorySize.toNat (segmentPerms segment.flags)
      ("elf:PT_LOAD[" ++ decimal segment.index.toNat ++ "]")
    cases accepted with
    | false => exact .fail _
    | true =>
        apply Every.ite
        · intro empty
          exact .pure trivial
        · intro nonempty
          apply Every.ite
          · intro unmapped
            exact .fail _
          · intro present
            apply Every.bind (ReadsInside.subspan inFile)
            intro block holds
            exact .pure trivial

private theorem mapLoadSegments_inside {segments : List SegmentInfo}
    (inFile : ∀ segment ∈ segments, Access.Inside bytes.length
      ⟨segment.fileOffset.toNat, segment.fileSize.toNat⟩)
    (bias : Word) (memory : Memory) :
    ReadsInside bytes (mapLoadSegments bytes bias memory segments)
      fun _ => True := by
  induction segments generalizing memory with
  | nil => exact .pure trivial
  | cons segment rest induction =>
      apply Every.bind (mapLoadSegment_inside
        (inFile segment List.mem_cons_self) bias memory)
      intro mapped holds
      apply Every.bind (induction (fun other member =>
        inFile other (List.mem_cons_of_mem _ member)) mapped.1)
      intro later holds
      exact .pure trivial

/-- Filling checks the range of a section again. -/
private theorem fillSectionAt_inside (entry : SectionInfo) (address : Word)
    (memory : Memory) :
    ReadsInside bytes (fillSectionAt bytes entry address memory)
      fun _ => True := by
  apply Every.ite
  · intro noContents
    exact .pure trivial
  · intro hasContents
    apply Every.reject
    intro valid
    rw [Bool.or_eq_false_iff, Bool.not_eq_false'] at valid
    apply Every.bind (ReadsInside.subspan (rangeWithin_iff.mp valid.2))
    intro block holds
    exact .pure trivial

/-- A section keeps what it is; one that is allocated gets an address from
which it ends inside the address space. -/
inductive MappedAs : SectionInfo → SectionInfo → Prop where
  | absent {entry : SectionInfo} (isAbsent : isAllocated entry = false) :
      MappedAs entry entry
  | present {entry : SectionInfo} {start : Word}
      (inSpace : start.toNat + entry.size.toNat ≤ 2 ^ 32) :
      MappedAs entry { entry with mappedAddress := start }

theorem mapRelFromAt_inside (cursor : Word) (memory : Memory)
    (sections : List SectionInfo) :
    ReadsInside bytes (mapRelFromAt bytes cursor memory sections)
      fun found => List.Forall₂ MappedAs sections found.2 := by
  induction sections generalizing cursor memory with
  | nil => exact .pure .nil
  | cons entry rest induction =>
      apply Every.ite
      · intro isAbsent
        apply Every.bind (induction cursor memory)
        intro later mapped
        exact .pure (.cons (.absent isAbsent) mapped)
      · intro isPresent
        apply Every.ite
        · intro noPower
          exact .fail _
        · intro isPower
          apply Every.ite
          · intro exceeds
            exact .fail _
          · intro fits
            dsimp only
            obtain ⟨accepted, after⟩ := memory.map
              (alignUp cursor (sectionAlignment entry)) entry.size.toNat
              (sectionPerms entry.flags) (regionName entry)
            cases accepted with
            | false => exact .fail _
            | true =>
                apply Every.bind (fillSectionAt_inside entry _ after)
                intro filled holds
                apply Every.bind (induction _ filled)
                intro later mapped
                exact .pure (.cons (.present (Nat.le_of_not_lt fits)) mapped)

private theorem mapImage_inside (isParsed : Parsed bytes parsed)
    (memory : Memory) (imageBase : Word) :
    ReadsInside bytes (mapImage parsed memory imageBase) fun _ => True := by
  unfold mapImage
  rw [isParsed.sameBytes]
  apply Every.ite
  · intro isRel
    apply Every.bind (mapRelFromAt_inside imageBase memory _)
    intro mapped holds
    exact .pure trivial
  · intro isLinked
    apply Every.bind (mapLoadSegments_inside isParsed.segments _ memory)
    intro mapped holds
    exact .pure trivial

private theorem readRelocation_inside {rela : Bool} {off : Nat}
    (fits : off + (if rela then 12 else 8) ≤ bytes.length) :
    ReadsInside bytes (readRelocation bytes rela off) fun _ => True := by
  unfold readRelocation
  cases rela with
  | false =>
      rw [if_neg Bool.false_ne_true] at fits
      rw [ReadsInside.be32At_iff, ReadsInside.be32At_iff]
      exact ⟨by omega, by omega, .pure trivial⟩
  | true =>
      rw [if_pos rfl] at fits
      rw [ReadsInside.be32At_iff, ReadsInside.be32At_iff]
      refine ⟨by omega, by omega, ?_⟩
      rw [if_pos rfl, ReadsInside.be32At_iff]
      exact ⟨by omega, .pure trivial⟩

/-- An entry is as long as what is read of it. -/
private theorem entryAt_fits {entry : SectionHeader} {i : Nat}
    (inFile : InFile bytes entry) (isTable : isRelocation entry = true)
    (whole : WholeEntries entry)
    (inTable : i < (entry.size / relocationEntrySize entry).toNat) :
    relocationOffset entry i + (if entry.type == shtRela then 12 else 8) ≤
      bytes.length := by
  have fits := entry_inside inFile (hasContents_of_isRelocation isTable) inTable
  unfold WholeEntries at whole
  rw [BitVec.le_def] at whole
  unfold relocationSize at whole
  unfold relocationOffset
  cases isRela : entry.type == shtRela with
  | false =>
      rw [isRela, if_neg Bool.false_ne_true] at whole
      rw [if_neg Bool.false_ne_true]
      have size : kRelSize.toNat = 8 := rfl
      omega
  | true =>
      rw [isRela, if_pos rfl] at whole
      rw [if_pos rfl]
      have size : kRelaSize.toNat = 12 := rfl
      omega

private theorem applySection_inside (isParsed : Parsed bytes parsed)
    {entry : SectionHeader} (member : entry ∈ parsed.sections)
    (isTable : isRelocation entry = true) (info : ImageInfo)
    (runtime : List RuntimeSymbolTable) (error : String) (memory : Memory) :
    ReadsInside bytes (applySection parsed info runtime error memory entry)
      fun _ => True := by
  apply Every.bind (Every.ofExcept fun shared found => trivial)
  intro shared holds
  apply Every.fold trivial
  intro i inTable memory holds
  unfold applyEntryAt
  rw [isParsed.sameBytes]
  apply Every.bind (readRelocation_inside (entryAt_fits
    (isParsed.inFile entry member) isTable
    (isParsed.relocations entry member isTable) (List.mem_range.mp inTable)))
  intro relocation holds
  exact .ofExcept fun after applied => trivial

private theorem applyRelocations_inside (isParsed : Parsed bytes parsed)
    (info : ImageInfo) (runtime : List RuntimeSymbolTable) (error : String)
    (memory : Memory) :
    ReadsInside bytes (applyRelocations parsed info runtime error memory)
      fun _ => True := by
  apply Every.fold trivial
  intro entry member memory holds
  obtain ⟨inSections, isTable⟩ := List.mem_filter.mp member
  exact applySection_inside isParsed inSections isTable info runtime error
    memory

/-- Loading reads within the file, whatever its headers declare. -/
theorem loadFile_inside (bytes : List Byte) (memory : Memory)
    (imageBase : Word) (bindings : List SymbolBinding) (error : String) :
    ∀ access ∈ (loadFile bytes memory imageBase bindings error).steps,
      access.Inside bytes.length := by
  have inside : ReadsInside bytes
      (loadFile bytes memory imageBase bindings error) fun _ => True := by
    apply Every.bind parse_inside
    intro parsed isParsed
    apply Every.bind (mapImage_inside isParsed memory imageBase)
    intro placed holds
    apply Every.bind (applyRelocations_inside isParsed _ _ _ _)
    intro after holds
    exact .pure trivial
  exact inside.steps

/-- An ELF header that declares no tables. -/
def headerOnly : List Byte :=
  [0x7f, 0x45, 0x4c, 0x46, 1, 2, 1] ++ List.replicate 9 0 ++
    [0, 2, 0, 20, 0, 0, 0, 1] ++ List.replicate 16 0 ++
    [0, 52, 0, 32, 0, 0, 0, 40, 0, 0, 0, 0]

/-- Its last byte is read, and is the last of the file. -/
theorem loadFile_inside_headerOnly :
    ∃ access ∈ (loadFile headerOnly .empty 0x10000000 [] "").steps,
      access.Inside headerOnly.length := by
  have read : ⟨51, 1⟩ ∈
      (loadFile headerOnly .empty 0x10000000 [] "").steps := by
    decide
  exact ⟨_, read, loadFile_inside _ _ _ _ _ _ read⟩

end Inside

end PpcLab.Elf32
