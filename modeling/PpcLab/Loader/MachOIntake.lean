import PpcLab.Loader.MachOFile

/-!
# Reading a Mach-O slice

Sections or segments are filled from the slice and relocation tables are read
from it, two entries at a time where a pair is needed.  What is read lies
within the slice, and the outcome is that of loading the parsed image.
-/

namespace PpcLab.MachO

open Loader Text Traced

/-- The contents of a section of an object file. -/
def fillObjectAt (bytes : List Byte) (next : SectionInfo) (cursor : Word)
    (memory : Memory) : Intake Memory :=
  if (next.flags &&& 0xff) != sZerofill then do
    let block ← subspan bytes next.fileOffset.toNat next.size.toNat
    return copyTo memory cursor next.size.toNat block
  else pure memory

def mapObjectAt (bytes : List Byte) :
    Word → Memory → List SectionInfo → Intake (Memory × List SectionInfo)
  | _, memory, [] => pure (memory, [])
  | cursor, memory, next :: rest =>
      if next.size = 0 then do
        let (memory, rest) ← mapObjectAt bytes cursor memory rest
        return (memory, next :: rest)
      else if next.alignmentPower.toNat ≥ 31 then
        fail "Mach-O section alignment is too large"
      else
        let cursor := alignUp cursor (1 <<< next.alignmentPower.toNat)
        let mapped := { next with mappedAddress := cursor }
        match memory.map cursor next.size.toNat (objectPerms next)
            ("macho:" ++ next.segmentName ++ "," ++ next.sectionName) with
        | (false, _) => fail "failed to map Mach-O object section"
        | (true, memory) => do
            let memory ← fillObjectAt bytes next cursor memory
            let (memory, rest) ←
              mapObjectAt bytes (cursor + next.size) memory rest
            return (memory, mapped :: rest)

/-- The contents of a segment. -/
def fillSegmentAt (bytes : List Byte) (next : SegmentInfo) (address : Word)
    (memory : Memory) : Intake Memory :=
  if next.fileSize != 0 then do
    let block ← subspan bytes next.fileOffset.toNat next.fileSize.toNat
    return copyTo memory address next.vmSize.toNat block
  else pure memory

def mapSegmentsAt (bytes : List Byte) (bias : Word) :
    Memory → List SegmentInfo → Intake (Memory × List SegmentInfo)
  | memory, [] => pure (memory, [])
  | memory, next :: rest =>
      if next.vmSize = 0 then do
        let (memory, rest) ← mapSegmentsAt bytes bias memory rest
        return (memory, next :: rest)
      else if bias.toNat + next.vmAddress.toNat + next.vmSize.toNat >
          2 ^ 32 then
        fail "Mach-O segment exceeds 32-bit address space after rebasing"
      else
        let mapped := { next with mappedAddress := bias + next.vmAddress }
        match memory.map mapped.mappedAddress next.vmSize.toNat
            (permsFromVm next.initProt) ("macho:" ++ next.name) with
        | (false, _) => fail ("failed to map Mach-O segment " ++ next.name)
        | (true, memory) => do
            let memory ← fillSegmentAt bytes next mapped.mappedAddress memory
            let (memory, rest) ← mapSegmentsAt bytes bias memory rest
            return (memory, mapped :: rest)

def mapImageAt (parsed : ParsedMachO) (memory : Memory) (info : ImageInfo)
    (imageBase : Word) : Intake (Memory × ImageInfo) :=
  if info.fileType = mhObject then do
    let (memory, mapped) ←
      mapObjectAt parsed.bytes imageBase memory info.sections
    return (memory, { info with sections := mapped, loadBias := imageBase })
  else do
    let bias ← ofExcept (loadBiasOf info imageBase)
    let (memory, segments) ←
      mapSegmentsAt parsed.bytes bias memory info.segments
    return (memory,
      { info with
        loadBias := bias
        segments := segments
        sections := info.sections.map fun next =>
          { next with mappedAddress := bias + next.address } })

def readRelocation (bytes : List Byte) (owner : SectionInfo) (ri : Nat) :
    Intake RelocationWords := do
  let off := owner.relocationOffset.toNat + ri * 8
  let word0 ← be32At bytes off
  let word1 ← be32At bytes (off + 4)
  return { word0, word1 }

section Apply

variable (info : ImageInfo) (runtime : List RuntimeSymbol) (error : String)
  (bytes : List Byte) (owner : SectionInfo)

/-- The entry comes as far as looking for its pair. -/
def readsPair (memory : Memory) (entry : RelocationWords) : Bool :=
  !entry.scattered &&
    (entry.type == ppcRelocHi16 || entry.type == ppcRelocLo16 ||
      entry.type == ppcRelocHa16 || entry.type == ppcRelocLo14) &&
    (resolveRelocTarget runtime info entry.symbolNum entry.external).isOk &&
    (directRead32 memory (owner.mappedAddress + entry.word0)).isSome

/-- The entry after this one, where it is needed and there is one. -/
def readPair (memory : Memory) (entry : RelocationWords) (ri : Nat) :
    Intake (Option RelocationWords) :=
  if readsPair info runtime owner memory entry &&
      decide (ri + 1 < owner.relocationCount.toNat) then do
    let next ← readRelocation bytes owner (ri + 1)
    return some next
  else pure none

/-- The entries of one section, from an index, for so many rounds. -/
def applyEntriesAt : Nat → Nat → Memory → Intake Memory
  | 0, _, memory => pure memory
  | rounds + 1, ri, memory =>
      if owner.relocationCount.toNat ≤ ri then pure memory
      else do
        let entry ← readRelocation bytes owner ri
        let next ← readPair info runtime bytes owner memory entry ri
        let (memory, paired) ← ofExcept
          (applyRelocation info runtime error owner memory entry next)
        applyEntriesAt rounds (if paired then ri + 2 else ri + 1) memory

def applySectionAt (memory : Memory) : Intake Memory :=
  applyEntriesAt info runtime error bytes owner owner.relocationCount.toNat 0
    memory

end Apply

def applyRelocationsAt (info : ImageInfo) (runtime : List RuntimeSymbol)
    (error : String) (parsed : ParsedMachO) (memory : Memory) :
    Intake Memory :=
  fold (fun memory owner =>
    applySectionAt info runtime error parsed.bytes owner memory) memory
    info.sections

/-- `load`, as it reads the slice. -/
def loadAt (parsed : ParsedMachO) (memory : Memory) (imageBase : Word)
    (bindings : List SymbolBinding) (error : String) :
    Intake (Memory × ImageInfo) := do
  let (memory, info) ← mapImageAt parsed memory parsed.info imageBase
  let (runtime, info) := buildSymbols parsed info bindings
  let memory ← applyRelocationsAt info runtime error parsed memory
  return (memory, info)

/-- `loadFile`, once the slice is chosen. -/
def loadSlice (bytes : List Byte) (memory : Memory) (imageBase : Word)
    (bindings : List SymbolBinding) (error : String) :
    Intake (Memory × ImageInfo) := do
  let parsed ← parse bytes
  loadAt parsed.toParsedMachO memory imageBase bindings error

section Inside

variable {bytes : List Byte}

private theorem fillObjectAt_mirrors {next : SectionInfo}
    (inFile : SectionInFile bytes next) (nonempty : next.size ≠ 0)
    (cursor : Word) (memory : Memory) :
    Mirrors (Access.Inside bytes.length)
      (fillObjectAt bytes next cursor memory) id
      (.ok (if (next.flags &&& 0xff) != sZerofill then
        copyTo memory cursor next.size.toNat
          (Bytes.slice bytes next.fileOffset.toNat next.size.toNat)
        else memory)) fun _ => True := by
  unfold fillObjectAt
  split
  · rename_i hasContents
    have inside := inFile.contents (bne_iff_ne.mp hasContents) nonempty
    apply Mirrors.step rfl (ReadsInside.subspan inside).steps
    exact .pure trivial
  · exact .pure trivial

private theorem mapObjectAt_mirrors {sections : List SectionInfo}
    (inFile : ∀ next ∈ sections, SectionInFile bytes next) (cursor : Word)
    (memory : Memory) :
    Mirrors (Access.Inside bytes.length)
      (mapObjectAt bytes cursor memory sections) id
      (mapObject bytes cursor memory sections) fun found =>
        ∀ next ∈ found.2, SectionInFile bytes next := by
  induction sections generalizing cursor memory with
  | nil =>
      apply Mirrors.pure
      intro next absent
      cases absent
  | cons first rest induction =>
      have here := inFile first List.mem_cons_self
      have later := fun cursor memory => induction
        (fun next member => inFile next (List.mem_cons_of_mem _ member))
        cursor memory
      unfold mapObjectAt mapObject
      apply Mirrors.ite
      · intro empty
        apply Mirrors.bind (later cursor memory)
        intro found inFile
        apply Mirrors.pure
        intro next member
        rcases List.mem_cons.mp member with isFirst | further
        · rw [isFirst]
          exact here
        · exact inFile next further
      · intro nonempty
        apply Mirrors.ite
        · intro large
          exact .fail _
        · intro small
          dsimp only
          obtain ⟨accepted, mapped⟩ := memory.map
            (alignUp cursor (1 <<< first.alignmentPower.toNat))
            first.size.toNat (objectPerms first)
            ("macho:" ++ first.segmentName ++ "," ++ first.sectionName)
          cases accepted with
          | false => exact .fail _
          | true =>
              have filled := fillObjectAt_mirrors here nonempty
                (alignUp cursor (1 <<< first.alignmentPower.toNat)) mapped
              apply Mirrors.step filled.result_eq filled.every.steps
              apply Mirrors.bind (later _ _)
              intro found inFile
              apply Mirrors.pure
              intro next member
              rcases List.mem_cons.mp member with isFirst | further
              · rw [isFirst]
                exact ⟨here.contents, here.relocations⟩
              · exact inFile next further

private theorem fillSegmentAt_mirrors {next : SegmentInfo}
    (inFile : Access.Inside bytes.length
      ⟨next.fileOffset.toNat, next.fileSize.toNat⟩) (address : Word)
    (memory : Memory) :
    Mirrors (Access.Inside bytes.length)
      (fillSegmentAt bytes next address memory) id
      (.ok (if next.fileSize != 0 then
        copyTo memory address next.vmSize.toNat
          (Bytes.slice bytes next.fileOffset.toNat next.fileSize.toNat)
        else memory)) fun _ => True := by
  unfold fillSegmentAt
  split
  · apply Mirrors.step rfl (ReadsInside.subspan inFile).steps
    exact .pure trivial
  · exact .pure trivial

private theorem mapSegmentsAt_mirrors {segments : List SegmentInfo}
    (inFile : ∀ next ∈ segments, Access.Inside bytes.length
      ⟨next.fileOffset.toNat, next.fileSize.toNat⟩) (bias : Word)
    (memory : Memory) :
    Mirrors (Access.Inside bytes.length)
      (mapSegmentsAt bytes bias memory segments) id
      (mapSegments bytes bias memory segments) fun _ => True := by
  induction segments generalizing memory with
  | nil => exact .pure trivial
  | cons first rest induction =>
      have later := fun memory => induction
        (fun next member => inFile next (List.mem_cons_of_mem _ member))
        memory
      unfold mapSegmentsAt mapSegments
      apply Mirrors.ite
      · intro empty
        apply Mirrors.bind (later memory)
        intro found holds
        exact .pure trivial
      · intro nonempty
        apply Mirrors.ite
        · intro exceeds
          exact .fail _
        · intro fits
          dsimp only
          obtain ⟨accepted, mapped⟩ := memory.map (bias + first.vmAddress)
            first.vmSize.toNat (permsFromVm first.initProt)
            ("macho:" ++ first.name)
          cases accepted with
          | false => exact .fail _
          | true =>
              have filled := fillSegmentAt_mirrors
                (inFile first List.mem_cons_self) (bias + first.vmAddress)
                mapped
              apply Mirrors.step filled.result_eq filled.every.steps
              apply Mirrors.bind (later _)
              intro found holds
              exact .pure trivial

private theorem mapImageAt_mirrors {parsed : ParsedMachO}
    (sameBytes : parsed.bytes = bytes) {info : ImageInfo}
    (inFile : InFile bytes info.segments info.sections) (memory : Memory)
    (imageBase : Word) :
    Mirrors (Access.Inside bytes.length)
      (mapImageAt parsed memory info imageBase) id
      (mapImage parsed memory info imageBase) fun found =>
        ∀ next ∈ found.2.sections, SectionInFile bytes next := by
  unfold mapImageAt mapImage
  rw [sameBytes]
  apply Mirrors.ite
  · intro isObject
    apply Mirrors.bind (mapObjectAt_mirrors inFile.sections imageBase memory)
    intro found stillInFile
    exact .pure stillInFile
  · intro isLinked
    apply Mirrors.bind (.ofExcept _)
    intro bias holds
    apply Mirrors.bind (mapSegmentsAt_mirrors inFile.segments _ memory)
    intro found holds
    apply Mirrors.pure
    intro next member
    obtain ⟨entry, inSections, isNext⟩ := List.mem_map.mp member
    rw [← isNext]
    have here := inFile.sections entry inSections
    exact ⟨here.contents, here.relocations⟩

end Inside

section Relocating

variable {bytes : List Byte} {owner : SectionInfo}
  (inFile : SectionInFile bytes owner)

/-- The words of an entry. -/
private def wordsAt (bytes : List Byte) (owner : SectionInfo) (ri : Nat) :
    RelocationWords :=
  ⟨be32 bytes (owner.relocationOffset.toNat + ri * 8),
    be32 bytes (owner.relocationOffset.toNat + ri * 8 + 4)⟩

private theorem relocationEntries_drop {ri : Nat}
    (inTable : ri < owner.relocationCount.toNat) :
    (relocationEntries bytes owner).drop ri =
      wordsAt bytes owner ri ::
        (relocationEntries bytes owner).drop (ri + 1) := by
  have bound : ri < (relocationEntries bytes owner).length := by
    rw [relocationEntries, List.length_map, List.length_range]
    exact inTable
  rw [List.drop_eq_getElem_cons bound]
  congr 1
  simp only [relocationEntries, List.getElem_map, List.getElem_range]
  rfl

private theorem relocationEntries_drop_eq_nil {ri : Nat}
    (atEnd : owner.relocationCount.toNat ≤ ri) :
    (relocationEntries bytes owner).drop ri = [] := by
  apply List.drop_eq_nil_of_le
  rw [relocationEntries, List.length_map, List.length_range]
  exact atEnd

/-- An entry that does not come as far as its pair is applied without one. -/
private theorem applyRelocation_eq_of_not_readsPair {info : ImageInfo}
    {runtime : List RuntimeSymbol} {memory : Memory}
    {entry : RelocationWords}
    (alone : readsPair info runtime owner memory entry = false)
    (error : String) (next : Option RelocationWords) :
    applyRelocation info runtime error owner memory entry next =
      applyRelocation info runtime error owner memory entry none := by
  unfold applyRelocation
  by_cases scattered : entry.scattered = true
  · rw [if_pos scattered, if_pos scattered]
  rw [if_neg scattered, if_neg scattered]
  by_cases negative : entry.word0.toInt < 0
  · rw [if_pos negative, if_pos negative]
  rw [if_neg negative, if_neg negative]
  by_cases isPair : entry.type = ppcRelocPair
  · rw [if_pos isPair, if_pos isPair]
  rw [if_neg isPair, if_neg isPair]
  unfold readsPair at alone
  rw [Bool.eq_false_of_not_eq_true scattered] at alone
  cases resolved : resolveRelocTarget runtime info entry.symbolNum
      entry.external with
  | error text => rfl
  | ok target =>
      rw [resolved] at alone
      dsimp only [bind, Except.bind]
      cases present : directRead32 memory
          (owner.mappedAddress + entry.word0) with
      | none => rfl
      | some instruction =>
          rw [present] at alone
          clear isPair
          dsimp only
          generalize entry.type = type at alone ⊢
          -- only the paired kinds look at the next entry
          rcases type with _ | _ | _ | _ | _ | _ | _ | _ | type
          · rfl
          · rfl
          · rfl
          · rfl
          · cases alone
          · cases alone
          · cases alone
          · cases alone
          · rfl

include inFile

private theorem readRelocation_step {ri : Nat}
    (inTable : ri < owner.relocationCount.toNat)
    {next : RelocationWords → Intake α} {view : α → β}
    {plain : Except String β} {post : α → Prop}
    (tail : Mirrors (Access.Inside bytes.length)
      (next (wordsAt bytes owner ri)) view plain post) :
    Mirrors (Access.Inside bytes.length)
      (readRelocation bytes owner ri >>= next) view plain post := by
  have inside := inFile.relocations (by
    intro zero
    rw [zero] at inTable
    cases inTable)
  unfold Access.Inside at inside
  dsimp only at inside
  have reads : ReadsInside bytes (readRelocation bytes owner ri)
      fun _ => True := by
    unfold readRelocation
    simp only [ReadsInside.be32At_iff, ReadsInside.pure_iff, and_true]
    omega
  exact Mirrors.step rfl reads.steps tail

/-- The pair of an entry is read within the table, or not at all. -/
private theorem readPair_step (info : ImageInfo) (runtime : List RuntimeSymbol)
    (memory : Memory) (entry : RelocationWords) (ri : Nat)
    {next : Option RelocationWords → Intake α} {view : α → β}
    {plain : Except String β} {post : α → Prop}
    (tail : Mirrors (Access.Inside bytes.length)
      (next (if readsPair info runtime owner memory entry &&
          decide (ri + 1 < owner.relocationCount.toNat) then
        some (wordsAt bytes owner (ri + 1)) else none)) view plain post) :
    Mirrors (Access.Inside bytes.length)
      (readPair info runtime bytes owner memory entry ri >>= next) view plain
      post := by
  unfold readPair
  by_cases reads : (readsPair info runtime owner memory entry &&
      decide (ri + 1 < owner.relocationCount.toNat)) = true
  · rw [if_pos reads] at tail ⊢
    rw [Bool.and_eq_true, decide_eq_true_eq] at reads
    have pair : Mirrors (Access.Inside bytes.length)
        (do
          let next ← readRelocation bytes owner (ri + 1)
          return some next) id
        (.ok (some (wordsAt bytes owner (ri + 1))) : Except String _)
        fun _ => True :=
      readRelocation_step inFile reads.2 (.pure trivial)
    exact Mirrors.step pair.result_eq pair.every.steps tail
  · rw [if_neg reads] at tail ⊢
    exact Mirrors.step rfl (fun access member => by cases member) tail

/-- Every round consumes an entry or two. -/
private theorem applyEntriesAt_mirrors (info : ImageInfo)
    (runtime : List RuntimeSymbol) (error : String) {rounds ri : Nat}
    (enough : owner.relocationCount.toNat ≤ ri + rounds) (memory : Memory) :
    Mirrors (Access.Inside bytes.length)
      (applyEntriesAt info runtime error bytes owner rounds ri memory) id
      (applyEntries info runtime error owner memory
        ((relocationEntries bytes owner).drop ri)) fun _ => True := by
  induction rounds generalizing ri memory with
  | zero =>
      rw [relocationEntries_drop_eq_nil (by omega)]
      exact .pure trivial
  | succ rounds induction =>
      unfold applyEntriesAt
      by_cases atEnd : owner.relocationCount.toNat ≤ ri
      · rw [if_pos atEnd, relocationEntries_drop_eq_nil atEnd]
        exact .pure trivial
      rw [if_neg atEnd, relocationEntries_drop (by omega)]
      apply readRelocation_step inFile (by omega)
      apply readPair_step inFile
      by_cases last : owner.relocationCount.toNat ≤ ri + 1
      · rw [decide_eq_false (by omega), Bool.and_false,
          if_neg Bool.false_ne_true, relocationEntries_drop_eq_nil last]
        apply Mirrors.bind (.ofExcept _)
        intro found holds
        have none : (relocationEntries bytes owner).drop
            (if found.2 then ri + 2 else ri + 1) = [] := by
          apply relocationEntries_drop_eq_nil
          split
          · omega
          · omega
        have enough : owner.relocationCount.toNat ≤
            (if found.2 then ri + 2 else ri + 1) + rounds := by
          split
          · omega
          · omega
        have done := induction enough found.1
        rw [none] at done
        exact done
      · rw [decide_eq_true (by omega), Bool.and_true,
          relocationEntries_drop (show ri + 1 < _ by omega)]
        have same : applyRelocation info runtime error owner memory
              (wordsAt bytes owner ri)
              (if readsPair info runtime owner memory
                  (wordsAt bytes owner ri) then
                some (wordsAt bytes owner (ri + 1)) else none) =
            applyRelocation info runtime error owner memory
              (wordsAt bytes owner ri)
              (some (wordsAt bytes owner (ri + 1))) := by
          split
          · rfl
          · rename_i alone
            exact (applyRelocation_eq_of_not_readsPair
              (Bool.eq_false_of_not_eq_true alone) error _).symm
        rw [same]
        apply Mirrors.bind (.ofExcept _)
        intro found holds
        obtain ⟨after, paired⟩ := found
        cases paired with
        | true =>
            exact induction
              (show owner.relocationCount.toNat ≤ ri + 2 + rounds by omega)
              after
        | false =>
            have later := induction
              (show owner.relocationCount.toNat ≤ ri + 1 + rounds by omega)
              after
            rw [relocationEntries_drop (by omega)] at later
            exact later

end Relocating

section Whole

variable {bytes : List Byte}

private theorem applyRelocationsAt_mirrors {parsed : ParsedMachO}
    (sameBytes : parsed.bytes = bytes) {info : ImageInfo}
    (inFile : ∀ owner ∈ info.sections, SectionInFile bytes owner)
    (runtime : List RuntimeSymbol) (error : String) (memory : Memory) :
    Mirrors (Access.Inside bytes.length)
      (applyRelocationsAt info runtime error parsed memory) id
      (applyRelocations info runtime error parsed memory) fun _ => True := by
  unfold applyRelocationsAt applyRelocations
  rw [sameBytes]
  have each : ∀ owner ∈ info.sections, ∀ memory,
      Mirrors (Access.Inside bytes.length)
        (applySectionAt info runtime error bytes owner memory) id
        (applyEntries info runtime error owner memory
          (relocationEntries bytes owner)) fun _ => True := by
    intro owner member memory
    exact applyEntriesAt_mirrors (inFile owner member) info runtime error
      (show owner.relocationCount.toNat ≤ 0 + _ by omega) memory
  generalize info.sections = sections at each
  induction sections generalizing memory with
  | nil => exact .pure trivial
  | cons owner rest induction =>
      rw [List.foldlM_cons]
      apply Mirrors.bind (each owner List.mem_cons_self memory)
      intro after holds
      exact induction after fun other member =>
        each other (List.mem_cons_of_mem _ member)

/-- Loading a slice is loading its parsed image, and reads within the slice. -/
theorem loadAt_mirrors {parsed : ParsedMachO}
    (sameBytes : parsed.bytes = bytes)
    (inFile : InFile bytes parsed.info.segments parsed.info.sections)
    (memory : Memory) (imageBase : Word) (bindings : List SymbolBinding)
    (error : String) :
    Mirrors (Access.Inside bytes.length)
      (loadAt parsed memory imageBase bindings error) id
      (load parsed memory imageBase bindings error) fun _ => True := by
  apply Mirrors.bind (mapImageAt_mirrors sameBytes inFile memory imageBase)
  intro found stillInFile
  obtain ⟨mapped, info⟩ := found
  have sections : ∀ next ∈ (buildSymbols parsed info bindings).2.sections,
      SectionInFile bytes next := stillInFile
  have relocated : Mirrors (Access.Inside bytes.length)
      (applyRelocationsAt (buildSymbols parsed info bindings).2
        (buildSymbols parsed info bindings).1 error parsed mapped) id
      (applyRelocations (buildSymbols parsed info bindings).2
        (buildSymbols parsed info bindings).1 error parsed mapped)
      fun _ => True :=
    applyRelocationsAt_mirrors sameBytes sections _ _ _
  exact Mirrors.bind relocated fun after holds => .pure trivial

theorem loadSlice_inside (bytes : List Byte) (memory : Memory)
    (imageBase : Word) (bindings : List SymbolBinding) (error : String) :
    ReadsInside bytes (loadSlice bytes memory imageBase bindings error)
      fun _ => True := by
  apply Every.bind parse_inside
  intro parsed isParsed
  exact (loadAt_mirrors isParsed.sameBytes isParsed.inFile memory imageBase
    bindings error).every

end Whole

/-- Choosing a slice reads within the file, and everything after within the
slice, which lies in the file.  The scan of a thread command ends within the
rounds it is given, and the loop over the commands within one round for every
eight bytes. -/
theorem loading_reads_inside (file : List Byte) :
    (∀ access ∈ (chooseSlice file).steps, access.Inside file.length) ∧
      (∀ slice, (chooseSlice file).result = .ok slice →
        SliceInFile file slice ∧
          ∀ memory imageBase bindings error,
            ∀ access ∈ (loadSlice slice.bytes memory imageBase bindings
              error).steps, access.Inside slice.bytes.length) ∧
      (∀ (bytes : List Byte) (commandOffset : Nat) (cmdsize : Word),
        8 ≤ cmdsize → ∃ found,
          (scanThread bytes (commandOffset + cmdsize.toNat) cmdsize.toNat
            (commandOffset + 8)).result = .ok (some found)) ∧
      ∀ (bytes : List Byte) (rounds ncmds commandOffset : Nat)
        (state : Commands),
        bytes.length < commandOffset + 8 * (rounds + 1) →
          rounds + 1 ≤ ncmds →
            readCommands bytes ncmds commandOffset state =
              readCommands bytes (rounds + 1) commandOffset state := by
  refine ⟨chooseSlice_inside.steps, ?_, ?_, ?_⟩
  · intro slice chosen
    refine ⟨chooseSlice_inside.value slice chosen, ?_⟩
    intro memory imageBase bindings error
    exact (loadSlice_inside slice.bytes memory imageBase bindings error).steps
  · intro bytes commandOffset cmdsize large
    rw [BitVec.le_def] at large
    have size : (8 : Word).toNat = 8 := rfl
    obtain ⟨rounds, isRounds⟩ : ∃ rounds, cmdsize.toNat = rounds + 1 :=
      ⟨cmdsize.toNat - 1, by omega⟩
    rw [isRounds]
    exact scanThread_ends (by omega)
  · intro bytes rounds ncmds commandOffset state enough atLeast
    obtain ⟨further, isMore⟩ := Nat.exists_eq_add_of_le atLeast
    rw [isMore]
    exact readCommands_ends enough further state

/-- A fat file whose second slice is for PowerPC: an object file without
commands. -/
def fatFile : List Byte :=
  [0xca, 0xfe, 0xba, 0xbe, 0, 0, 0, 2] ++
  [0, 0, 0, 7, 0, 0, 0, 0, 0, 0, 0, 0, 0, 0, 0, 0, 0, 0, 0, 0] ++
  [0, 0, 0, 18, 0, 0, 0, 0, 0, 0, 0, 48, 0, 0, 0, 28, 0, 0, 0, 0] ++
  [0xfe, 0xed, 0xfa, 0xce, 0, 0, 0, 18, 0, 0, 0, 0, 0, 0, 0, 1] ++
  List.replicate 12 0

theorem loading_reads_inside_fatFile :
    SliceInFile fatFile
        { sliceOffset := 48, sliceSize := 28, fatContainer := true
          bytes := fatFile.drop 48 } ∧
      ∃ found, (scanThread (fatFile.drop 48) 36 8 36).result =
        .ok (some found) := by
  have inside := loading_reads_inside fatFile
  exact ⟨(inside.2.1 _ (by decide)).1,
    inside.2.2.1 (fatFile.drop 48) 28 8 (by decide)⟩

/-- The header of a fat file is not part of the slice, wherever its indices are
counted from. -/
theorem fat_header_is_outside_slice :
    (¬ ∀ file slice, (chooseSlice file).result = .ok slice →
      ∀ access ∈ (chooseSlice file).steps,
        access.Inside slice.bytes.length) ∧
    ¬ ∀ file slice, (chooseSlice file).result = .ok slice →
      ∀ access ∈ (chooseSlice file).steps,
        slice.sliceOffset.toNat ≤ access.offset := by
  have chosen : (chooseSlice fatFile).result =
      .ok { sliceOffset := 48, sliceSize := 28, fatContainer := true
            bytes := fatFile.drop 48 } := by
    decide
  constructor
  · intro always
    have inside := always fatFile _ chosen ⟨28, 1⟩
    revert inside
    decide
  · intro always
    have behind := always fatFile _ chosen ⟨0, 1⟩
    revert behind
    decide

end PpcLab.MachO
