import PpcLab.Loader.Intake
import PpcLab.Loader.MachO

/-!
# Mach-O files

A thin file is one slice; of a fat file the first PowerPC slice is taken.  The
load commands of a slice have sizes of their own, and hold sections, the place
of the symbol table and thread states in tables whose counts the file gives.
-/

namespace PpcLab.MachO

open Loader Text Traced

def mhMagic : Word := 0xfeedface
def fatMagic : Word := 0xcafebabe
def cpuTypePowerpc : Word := 18
def mhExecute : Word := 2
def mhBundle : Word := 8
def lcSegment : Word := 0x1
def lcSymtab : Word := 0x2
def lcThread : Word := 0x4
def lcUnixthread : Word := 0x5
def lcMain : Word := 0x80000028
def ppcThreadState : Word := 1
def nExt : Byte := 0x01

structure Slice where
  sliceOffset : Word
  sliceSize : Word
  fatContainer : Bool
  bytes : List Byte
  deriving DecidableEq, Repr

section Choose

variable (file : List Byte)

/-- An entry of the architecture table, when it is the wanted one. -/
def readArchitecture (i : Nat) : Intake (Option Slice) := do
  let off := 8 + i * 20
  let cpuType ← be32At file off
  if cpuType != cpuTypePowerpc then return none
  else do
    let sliceOffset ← be32At file (off + 8)
    let sliceSize ← be32At file (off + 12)
    reject (!rangeWithin sliceOffset.toNat sliceSize.toNat file.length)
      "PowerPC Mach-O fat slice lies outside the file"
    let bytes ← subspan file sliceOffset.toNat sliceSize.toNat
    return some { sliceOffset, sliceSize, fatContainer := true, bytes }

/-- The first PowerPC slice among the entries that remain. -/
def findArchitecture : Nat → Nat → Intake Slice
  | 0, _ => fail "Mach-O fat file contains no 32-bit PowerPC slice"
  | remaining + 1, i => do
      let found ← readArchitecture file i
      match found with
      | some slice => pure slice
      | none => findArchitecture remaining (i + 1)

def chooseSlice : Intake Slice := do
  reject (file.length < 4) "file is too small for Mach-O magic"
  let magic ← be32At file 0
  if magic == mhMagic then
    return {
      sliceOffset := 0
      sliceSize := BitVec.ofNat 32 file.length
      fatContainer := false
      bytes := file }
  else do
    reject (magic != fatMagic)
      "not a big-endian 32-bit PowerPC Mach-O/fat file"
    reject (file.length < 8) "truncated Mach-O fat header"
    let nfat ← be32At file 4
    reject (file.length < 8 + nfat.toNat * 20)
      "Mach-O fat architecture table lies outside the file"
    findArchitecture file nfat.toNat 0

end Choose

structure MachHeader where
  fileType : Word
  ncmds : Word
  sizeofcmds : Word
  flags : Word
  deriving DecidableEq, Repr

structure SymtabCommand where
  symoff : Word
  nsyms : Word
  stroff : Word
  strsize : Word
  deriving DecidableEq, Repr

/-- What the load commands said so far. -/
structure Commands where
  segments : List SegmentInfo := []
  sections : List SectionInfo := []
  symtab : Option SymtabCommand := none
  threadPc : Option Word := none
  entryFileOffset : Option DoubleWord := none
  deriving DecidableEq, Repr

structure ParsedSlice extends ParsedMachO where
  flags : Word
  symtab : Option SymtabCommand
  threadPc : Option Word
  entryFileOffset : Option DoubleWord

section Commands

variable (bytes : List Byte)

def readHeader : Intake MachHeader := do
  reject (bytes.length < 28)
    "selected Mach-O slice is not MH_MAGIC (32-bit big-endian)"
  let magic ← be32At bytes 0
  reject (magic != mhMagic)
    "selected Mach-O slice is not MH_MAGIC (32-bit big-endian)"
  let cpuType ← be32At bytes 4
  reject (cpuType != cpuTypePowerpc)
    "Mach-O CPU type is not CPU_TYPE_POWERPC"
  let fileType ← be32At bytes 12
  let ncmds ← be32At bytes 16
  let sizeofcmds ← be32At bytes 20
  let flags ← be32At bytes 24
  reject (fileType != mhObject && fileType != mhExecute &&
      fileType != mhDylib && fileType != mhBundle)
    ("unsupported Mach-O file type " ++ decimal fileType.toNat)
  reject (!rangeWithin 28 sizeofcmds.toNat bytes.length)
    "Mach-O load-command area lies outside the file"
  return { fileType, ncmds, sizeofcmds, flags }

def readSection (table si : Nat) : Intake SectionInfo := do
  let off := table + si * 68
  let sectionName ← fixedString bytes off 16
  let segmentName ← fixedString bytes (off + 16) 16
  let address ← be32At bytes (off + 32)
  let size ← be32At bytes (off + 36)
  let fileOffset ← be32At bytes (off + 40)
  let alignmentPower ← be32At bytes (off + 44)
  let relocationOffset ← be32At bytes (off + 48)
  let relocationCount ← be32At bytes (off + 52)
  let flags ← be32At bytes (off + 56)
  reject ((flags &&& 0xff) != sZerofill && size != 0 &&
      !rangeWithin fileOffset.toNat size.toNat bytes.length)
    "Mach-O section contents lie outside the file"
  reject (relocationCount != 0 &&
      !rangeWithin relocationOffset.toNat (relocationCount.toNat * 8)
        bytes.length)
    "Mach-O relocation table lies outside the file"
  return {
    sectionName, segmentName, address, size, fileOffset, alignmentPower
    relocationOffset, relocationCount, flags, mappedAddress := 0 }

/-- `LC_SEGMENT`, with the sections behind it. -/
def readSegment (commandOffset : Nat) (cmdsize : Word) :
    Intake (SegmentInfo × List SectionInfo) := do
  reject (cmdsize < 56) "truncated LC_SEGMENT"
  let name ← fixedString bytes (commandOffset + 8) 16
  let vmAddress ← be32At bytes (commandOffset + 24)
  let vmSize ← be32At bytes (commandOffset + 28)
  let fileOffset ← be32At bytes (commandOffset + 32)
  let fileSize ← be32At bytes (commandOffset + 36)
  let _maxProt ← be32At bytes (commandOffset + 40)
  let initProt ← be32At bytes (commandOffset + 44)
  let nsects ← be32At bytes (commandOffset + 48)
  reject (decide (vmSize < fileSize) ||
      !rangeWithin fileOffset.toNat fileSize.toNat bytes.length)
    "invalid Mach-O segment file/memory range"
  reject (cmdsize.toNat < 56 + nsects.toNat * 68)
    "LC_SEGMENT section table exceeds command size"
  let sections ← collect (readSection bytes (commandOffset + 56))
    (List.range nsects.toNat)
  return ({
    name, vmAddress, vmSize, fileOffset, fileSize, initProt
    mappedAddress := 0 }, sections)

def readSymtab (commandOffset : Nat) (cmdsize : Word) :
    Intake SymtabCommand := do
  reject (cmdsize < 24) "truncated LC_SYMTAB"
  let symoff ← be32At bytes (commandOffset + 8)
  let nsyms ← be32At bytes (commandOffset + 12)
  let stroff ← be32At bytes (commandOffset + 16)
  let strsize ← be32At bytes (commandOffset + 20)
  return { symoff, nsyms, stroff, strsize }

/-- One round of the loop over the states of a thread command: what the loop
comes to, or where the next state begins. -/
def scanRound (finish off : Nat) : Intake (Option Word ⊕ Nat) :=
  if finish < off + 8 then pure (.inl none)
  else do
    let flavor ← be32At bytes off
    let count ← be32At bytes (off + 4)
    let state := off + 8
    if finish < state + count.toNat * 4 then return .inl none
    else if flavor == ppcThreadState && decide (1 ≤ count) then do
      let pc ← be32At bytes state
      return .inl (some pc)
    else return .inr (state + count.toNat * 4)

/-- So many rounds of the loop; it has not ended when it comes to nothing. -/
def scanThread (finish : Nat) : Nat → Nat → Intake (Option (Option Word))
  | 0, _ => pure none
  | rounds + 1, off => do
      let round ← scanRound bytes finish off
      match round with
      | .inl found => pure (some found)
      | .inr next => scanThread finish rounds next

/-- The program counter of a thread command.  Every round moves on by at least
eight bytes. -/
def threadPcAt (commandOffset : Nat) (cmdsize : Word) :
    Intake (Option Word) := do
  let found ← scanThread bytes (commandOffset + cmdsize.toNat) cmdsize.toNat
    (commandOffset + 8)
  return found.getD none

def readCommand (commandOffset : Nat) (cmd cmdsize : Word)
    (state : Commands) : Intake Commands :=
  if cmd = lcSegment then do
    let (segment, sections) ← readSegment bytes commandOffset cmdsize
    return { state with
      segments := state.segments ++ [segment]
      sections := state.sections ++ sections }
  else if cmd = lcSymtab then do
    let symtab ← readSymtab bytes commandOffset cmdsize
    return { state with symtab := some symtab }
  else if cmd = lcThread ∨ cmd = lcUnixthread then do
    let found ← threadPcAt bytes commandOffset cmdsize
    return { state with threadPc := found.or state.threadPc }
  else if cmd = lcMain ∧ 24 ≤ cmdsize then do
    let entryFileOffset ← be64At bytes (commandOffset + 8)
    return { state with entryFileOffset := some entryFileOffset }
  else pure state

/-- The commands that remain, from an offset. -/
def readCommands : Nat → Nat → Commands → Intake Commands
  | 0, _, state => pure state
  | ncmds + 1, commandOffset, state => do
      reject (!rangeWithin commandOffset 8 bytes.length)
        "truncated Mach-O load command"
      let cmd ← be32At bytes commandOffset
      let cmdsize ← be32At bytes (commandOffset + 4)
      reject (decide (cmdsize < 8) ||
          !rangeWithin commandOffset cmdsize.toNat bytes.length)
        "invalid Mach-O load command size"
      let state ← readCommand bytes commandOffset cmd cmdsize state
      readCommands ncmds (commandOffset + cmdsize.toNat) state

def readSymbol (symtab : SymtabCommand) (i : Nat) : Intake RawSymbol := do
  let off := symtab.symoff.toNat + i * 12
  let strx ← be32At bytes off
  let nType ← byteAt bytes (off + 4)
  let nSect ← byteAt bytes (off + 5)
  let nDesc ← be16At bytes (off + 6)
  let name ← cstringAt bytes symtab.stroff.toNat symtab.strsize.toNat
    strx.toNat
  let value ← be32At bytes (off + 8)
  return {
    symbol :=
      { name, value, size := 0
        sectionIndex := nSect.setWidth 32
        binding := if (nType &&& nExt) != 0 then 1 else 0
        type := 0
        defined := (nType &&& nTypeMask) != nUndf
        imported := (nType &&& nTypeMask) == nUndf && !name.isEmpty }
    nType, nSect, nDesc }

def readSymbols : Option SymtabCommand → Intake (List RawSymbol)
  | none => pure []
  | some symtab => do
      reject (!rangeWithin symtab.symoff.toNat (symtab.nsyms.toNat * 12)
            bytes.length ||
          !rangeWithin symtab.stroff.toNat symtab.strsize.toNat bytes.length)
        "Mach-O symbol/string table lies outside the file"
      collect (readSymbol bytes symtab) (List.range symtab.nsyms.toNat)

end Commands

/-- The symbols that inspection shows. -/
def namedSymbols (rawSymbols : List RawSymbol) : List ImageSymbol :=
  (rawSymbols.filter fun raw =>
    !raw.symbol.name.isEmpty && (raw.nType &&& nStab) == 0).map (·.symbol)

/-- `parse`, once the slice is chosen. -/
def parse (bytes : List Byte) : Intake ParsedSlice := do
  let header ← readHeader bytes
  let commands ← readCommands bytes header.ncmds.toNat 28 {}
  let rawSymbols ← readSymbols bytes commands.symtab
  return {
    bytes
    info := {
      fileType := header.fileType
      loadBias := 0
      segments := commands.segments
      sections := commands.sections
      symbols := namedSymbols rawSymbols }
    rawSymbols
    flags := header.flags
    symtab := commands.symtab
    threadPc := commands.threadPc
    entryFileOffset := commands.entryFileOffset }

/-- A round gives an outcome, or moves on by at least eight bytes. -/
private theorem scanRound_result (bytes : List Byte) (finish off : Nat) :
    (∃ found, (scanRound bytes finish off).result = .ok (.inl found)) ∨
      ∃ next, (scanRound bytes finish off).result = .ok (.inr next) ∧
        off + 8 ≤ next ∧ next ≤ finish := by
  unfold scanRound
  by_cases ended : finish < off + 8
  · rw [if_pos ended]
    exact .inl ⟨none, rfl⟩
  rw [if_neg ended, bind_of_ok (show (be32At bytes off).result = .ok _ from rfl),
    bind_of_ok (show (be32At bytes (off + 4)).result = .ok _ from rfl)]
  dsimp only
  by_cases exceeds : finish < off + 8 + (be32 bytes (off + 4)).toNat * 4
  · rw [if_pos exceeds]
    exact .inl ⟨none, rfl⟩
  rw [if_neg exceeds]
  split
  · exact .inl ⟨_, rfl⟩
  · exact .inr ⟨_, rfl, by omega, by omega⟩

/-- With a round for every eight bytes the scan comes to its end, whatever the
states declare. -/
theorem scanThread_ends {bytes : List Byte} {finish rounds off : Nat}
    (enough : finish < off + 8 * (rounds + 1)) :
    ∃ found, (scanThread bytes finish (rounds + 1) off).result =
      .ok (some found) := by
  induction rounds generalizing off with
  | zero =>
      rcases scanRound_result bytes finish off with
        ⟨found, ended⟩ | ⟨next, _, further, inside⟩
      · refine ⟨found, ?_⟩
        unfold scanThread
        rw [bind_of_ok ended]
        rfl
      · omega
  | succ rounds induction =>
      unfold scanThread
      rcases scanRound_result bytes finish off with
        ⟨found, ended⟩ | ⟨next, goesOn, further, _⟩
      · refine ⟨found, ?_⟩
        rw [bind_of_ok ended]
        rfl
      · obtain ⟨found, later⟩ := induction
          (show finish < next + 8 * (rounds + 1) by omega)
        refine ⟨found, ?_⟩
        rw [bind_of_ok goesOn]
        exact later

/-- Commands of eight bytes or more fill the slice: the loop makes no more
rounds than that, however many commands are declared. -/
theorem readCommands_ends {bytes : List Byte} {rounds commandOffset : Nat}
    (enough : bytes.length < commandOffset + 8 * (rounds + 1))
    (further : Nat) (state : Commands) :
    readCommands bytes (rounds + 1 + further) commandOffset state =
      readCommands bytes (rounds + 1) commandOffset state := by
  induction rounds generalizing commandOffset state with
  | zero =>
      rw [Nat.add_comm (0 + 1) further, ← Nat.add_assoc]
      unfold readCommands
      have truncated : (!rangeWithin commandOffset 8 bytes.length) = true := by
        rw [Bool.not_eq_true', ← Bool.not_eq_true, rangeWithin_iff]
        unfold Access.Inside
        dsimp only
        omega
      rw [truncated]
      rfl
  | succ rounds induction =>
      have order : rounds + 1 + 1 + further = rounds + 1 + further + 1 := by
        omega
      rw [order]
      unfold readCommands
      apply bind_congr_ok
      intro _ _
      apply bind_congr_ok
      intro cmd _
      apply bind_congr_ok
      intro cmdsize _
      apply bind_congr_ok
      intro _ valid
      have large := (Bool.or_eq_false_iff.mp (accepted_of_reject valid)).1
      rw [decide_eq_false_iff_not, BitVec.not_lt, BitVec.le_def] at large
      have size : (8 : Word).toNat = 8 := rfl
      apply bind_congr_ok
      intro state _
      exact induction (by omega) state

/-- What parsing promises of a section. -/
structure SectionInFile (bytes : List Byte) (entry : SectionInfo) :
    Prop where
  contents : (entry.flags &&& 0xff) ≠ sZerofill → entry.size ≠ 0 →
    Access.Inside bytes.length ⟨entry.fileOffset.toNat, entry.size.toNat⟩
  relocations : entry.relocationCount ≠ 0 →
    Access.Inside bytes.length
      ⟨entry.relocationOffset.toNat, entry.relocationCount.toNat * 8⟩

/-- What parsing promises of the segments and their sections. -/
structure InFile (bytes : List Byte) (segments : List SegmentInfo)
    (sections : List SectionInfo) : Prop where
  segments : ∀ segment ∈ segments, Access.Inside bytes.length
    ⟨segment.fileOffset.toNat, segment.fileSize.toNat⟩
  sections : ∀ entry ∈ sections, SectionInFile bytes entry

structure Parsed (bytes : List Byte) (parsed : ParsedSlice) : Prop where
  sameBytes : parsed.bytes = bytes
  inFile : InFile bytes parsed.info.segments parsed.info.sections

section Choosing

variable {file : List Byte}

/-- The slice lies in the file, and shows its bytes. -/
structure SliceInFile (file : List Byte) (slice : Slice) : Prop where
  inside : ∃ offset, Access.Inside file.length
    ⟨offset, slice.bytes.length⟩ ∧
      slice.bytes = Bytes.slice file offset slice.bytes.length

private theorem sliceInFile_of_inside {offset size : Nat} {slice : Slice}
    (inside : Access.Inside file.length ⟨offset, size⟩)
    (isSlice : slice.bytes = Bytes.slice file offset size) :
    SliceInFile file slice := by
  have length : slice.bytes.length = size := by
    unfold Access.Inside at inside
    dsimp only at inside
    rw [isSlice, Bytes.slice, List.length_take, List.length_drop]
    omega
  refine ⟨offset, ?_, ?_⟩
  · rw [length]
    exact inside
  · rw [length]
    exact isSlice

private theorem readArchitecture_inside {i : Nat}
    (fits : 8 + i * 20 + 20 ≤ file.length) :
    ReadsInside file (readArchitecture file i) fun found =>
      ∀ slice ∈ found, SliceInFile file slice := by
  unfold readArchitecture
  rw [ReadsInside.be32At_iff]
  refine ⟨by omega, ?_⟩
  apply Every.ite
  · intro other
    apply Every.pure
    intro slice absent
    cases absent
  · intro isPowerpc
    simp only [ReadsInside.be32At_iff, ReadsInside.reject_iff]
    refine ⟨by omega, by omega, ?_⟩
    intro within
    rw [Bool.not_eq_false'] at within
    have inside := rangeWithin_iff.mp within
    apply (ReadsInside.bind_iff rfl).mpr
    refine ⟨(ReadsInside.subspan inside).steps, ?_⟩
    apply Every.pure
    intro slice same
    cases same
    exact sliceInFile_of_inside inside rfl

private theorem findArchitecture_inside {remaining i : Nat}
    (fits : 8 + (i + remaining) * 20 ≤ file.length) :
    ReadsInside file (findArchitecture file remaining i)
      (SliceInFile file) := by
  induction remaining generalizing i with
  | zero => exact .fail _
  | succ remaining induction =>
      apply Every.bind (readArchitecture_inside (by omega))
      intro found inFile
      cases found with
      | none => exact induction (by omega)
      | some slice => exact .pure (inFile slice rfl)

theorem chooseSlice_inside :
    ReadsInside file (chooseSlice file) (SliceInFile file) := by
  apply Every.reject
  intro large
  rw [decide_eq_false_iff_not] at large
  simp only [ReadsInside.be32At_iff]
  refine ⟨by omega, ?_⟩
  apply Every.ite
  · intro thin
    apply Every.pure
    have inside : Access.Inside file.length ⟨0, file.length⟩ :=
      inside_range (by omega)
    exact sliceInFile_of_inside inside List.take_length.symm
  · intro other
    simp only [ReadsInside.reject_iff, ReadsInside.be32At_iff]
    intro isFat hasCount
    rw [decide_eq_false_iff_not] at hasCount
    refine ⟨by omega, ?_⟩
    intro fits
    rw [decide_eq_false_iff_not] at fits
    exact findArchitecture_inside (by omega)

end Choosing

section Inside

variable {bytes : List Byte}

private theorem readHeader_inside :
    ReadsInside bytes (readHeader bytes) fun _ => True := by
  apply Every.reject
  intro large
  rw [decide_eq_false_iff_not] at large
  simp only [ReadsInside.be32At_iff, ReadsInside.reject_iff,
    ReadsInside.pure_iff, implies_true, and_true]
  omega

private theorem readSection_inside {table si : Nat}
    (fits : table + si * 68 + 68 ≤ bytes.length) :
    ReadsInside bytes (readSection bytes table si)
      (SectionInFile bytes) := by
  unfold readSection
  apply Every.bind (ReadsInside.fixedString (by omega))
  intro sectionName holds
  apply Every.bind (ReadsInside.fixedString (by omega))
  intro segmentName holds
  simp only [ReadsInside.be32At_iff, ReadsInside.reject_iff,
    ReadsInside.pure_iff]
  refine ⟨by omega, by omega, by omega, by omega, by omega, by omega,
    by omega, ?_⟩
  intro contents relocations
  rw [Bool.and_eq_false_iff, Bool.and_eq_false_iff, bne_eq_false_iff_eq,
    bne_eq_false_iff_eq, Bool.not_eq_false', rangeWithin_iff] at contents
  rw [Bool.and_eq_false_iff, bne_eq_false_iff_eq, Bool.not_eq_false',
    rangeWithin_iff] at relocations
  constructor
  · intro hasContents nonempty
    rcases contents with (zerofill | empty) | inside
    · exact absurd zerofill hasContents
    · exact absurd empty nonempty
    · exact inside
  · exact relocations.resolve_left

private theorem readSegment_inside {commandOffset : Nat} {cmdsize : Word}
    (fits : commandOffset + cmdsize.toNat ≤ bytes.length) :
    ReadsInside bytes (readSegment bytes commandOffset cmdsize) fun found =>
      InFile bytes [found.1] found.2 := by
  apply Every.reject
  intro large
  rw [decide_eq_false_iff_not, BitVec.not_lt, BitVec.le_def] at large
  have size : (56 : Word).toNat = 56 := rfl
  apply Every.bind (ReadsInside.fixedString (by omega))
  intro name holds
  simp only [ReadsInside.be32At_iff, ReadsInside.reject_iff]
  refine ⟨by omega, by omega, by omega, by omega, by omega, by omega,
    by omega, ?_⟩
  intro inside table
  rw [Bool.or_eq_false_iff, Bool.not_eq_false', rangeWithin_iff] at inside
  rw [decide_eq_false_iff_not] at table
  refine Every.bind (Every.collect fun si member =>
    readSection_inside ?_) ?_
  · have bound := List.mem_range.mp member
    omega
  intro sections inFile
  apply Every.pure
  refine ⟨?_, inFile⟩
  intro segment member
  rw [List.mem_singleton.mp member]
  exact inside.2

private theorem readSymtab_inside {commandOffset : Nat} {cmdsize : Word}
    (fits : commandOffset + cmdsize.toNat ≤ bytes.length) :
    ReadsInside bytes (readSymtab bytes commandOffset cmdsize)
      fun _ => True := by
  apply Every.reject
  intro large
  rw [decide_eq_false_iff_not, BitVec.not_lt, BitVec.le_def] at large
  have size : (24 : Word).toNat = 24 := rfl
  simp only [ReadsInside.be32At_iff, ReadsInside.pure_iff, and_true]
  omega

private theorem scanRound_inside {finish : Nat}
    (fits : finish ≤ bytes.length) (off : Nat) :
    ReadsInside bytes (scanRound bytes finish off) fun _ => True := by
  apply Every.ite
  · intro ended
    exact .pure trivial
  · intro inside
    simp only [ReadsInside.be32At_iff]
    refine ⟨by omega, by omega, ?_⟩
    apply Every.ite
    · intro exceeds
      exact .pure trivial
    · intro stateFits
      apply Every.ite
      · intro isState
        rw [Bool.and_eq_true, decide_eq_true_eq, BitVec.le_def] at isState
        have one : (1 : Word).toNat = 1 := rfl
        simp only [ReadsInside.be32At_iff]
        exact ⟨by omega, .pure trivial⟩
      · intro other
        exact .pure trivial

private theorem threadPcAt_inside {commandOffset : Nat} {cmdsize : Word}
    (fits : commandOffset + cmdsize.toNat ≤ bytes.length) :
    ReadsInside bytes (threadPcAt bytes commandOffset cmdsize)
      fun _ => True := by
  have scan : ∀ rounds off, ReadsInside bytes
      (scanThread bytes (commandOffset + cmdsize.toNat) rounds off)
      fun _ => True := by
    intro rounds
    induction rounds with
    | zero => exact fun off => .pure trivial
    | succ rounds induction =>
        intro off
        apply Every.bind (scanRound_inside fits off)
        intro round holds
        cases round with
        | inl found => exact .pure trivial
        | inr next => exact induction next
  apply Every.bind (scan _ _)
  intro found holds
  exact .pure trivial

private theorem readCommand_inside {commandOffset : Nat} {cmdsize : Word}
    (fits : commandOffset + cmdsize.toNat ≤ bytes.length) (cmd : Word)
    {state : Commands} (inFile : InFile bytes state.segments state.sections) :
    ReadsInside bytes (readCommand bytes commandOffset cmd cmdsize state)
      fun state => InFile bytes state.segments state.sections := by
  apply Every.ite
  · intro isSegment
    apply Every.bind (readSegment_inside fits)
    intro found here
    obtain ⟨segment, sections⟩ := found
    apply Every.pure
    constructor
    · intro other member
      rcases List.mem_append.mp member with early | last
      · exact inFile.segments other early
      · exact here.segments other last
    · intro other member
      rcases List.mem_append.mp member with early | last
      · exact inFile.sections other early
      · exact here.sections other last
  · intro notSegment
    apply Every.ite
    · intro isSymtab
      apply Every.bind (readSymtab_inside fits)
      intro symtab holds
      exact .pure inFile
    · intro notSymtab
      apply Every.ite
      · intro isThread
        apply Every.bind (threadPcAt_inside fits)
        intro found holds
        exact .pure inFile
      · intro notThread
        apply Every.ite
        · intro isMain
          have large := isMain.2
          rw [BitVec.le_def] at large
          have size : (24 : Word).toNat = 24 := rfl
          apply Every.bind (ReadsInside.be64At (by omega))
          intro entryFileOffset holds
          exact .pure inFile
        · intro other
          exact .pure inFile

private theorem readCommands_inside (ncmds commandOffset : Nat)
    {state : Commands} (inFile : InFile bytes state.segments state.sections) :
    ReadsInside bytes (readCommands bytes ncmds commandOffset state)
      fun state => InFile bytes state.segments state.sections := by
  induction ncmds generalizing commandOffset state with
  | zero => exact .pure inFile
  | succ ncmds induction =>
      apply Every.reject
      intro header
      rw [Bool.not_eq_false', rangeWithin_iff] at header
      unfold Access.Inside at header
      dsimp only at header
      simp only [ReadsInside.be32At_iff]
      refine ⟨by omega, by omega, ?_⟩
      apply Every.reject
      intro valid
      rw [Bool.or_eq_false_iff, Bool.not_eq_false', rangeWithin_iff] at valid
      have inside := valid.2
      unfold Access.Inside at inside
      dsimp only at inside
      apply Every.bind (readCommand_inside (by omega) _ inFile)
      intro state inFile
      exact induction _ inFile

private theorem readSymbols_inside (found : Option SymtabCommand) :
    ReadsInside bytes (readSymbols bytes found) fun _ => True := by
  cases found with
  | none => exact .pure trivial
  | some symtab =>
      apply Every.reject
      intro inside
      rw [Bool.or_eq_false_iff, Bool.not_eq_false', rangeWithin_iff]
        at inside
      have table := inside.1
      unfold Access.Inside at table
      dsimp only at table
      have readOne : ∀ i ∈ List.range symtab.nsyms.toNat,
          ReadsInside bytes (readSymbol bytes symtab i) fun _ => True := by
        intro i member
        have bound := List.mem_range.mp member
        unfold readSymbol
        simp only [ReadsInside.be32At_iff, ReadsInside.byteAt_iff,
          ReadsInside.be16At_iff]
        refine ⟨by omega, by omega, by omega, by omega, ?_⟩
        apply Every.bind (ReadsInside.cstringAt _ _ _)
        intro name holds
        simp only [ReadsInside.be32At_iff]
        exact ⟨by omega, .pure trivial⟩
      exact (Every.collect readOne).mono fun symbols holds => trivial

theorem parse_inside : ReadsInside bytes (parse bytes) (Parsed bytes) := by
  apply Every.bind readHeader_inside
  intro header holds
  have initial : InFile bytes ({} : Commands).segments
      ({} : Commands).sections := by
    constructor
    · intro segment absent
      cases absent
    · intro entry absent
      cases absent
  apply Every.bind (readCommands_inside _ _ initial)
  intro commands inFile
  apply Every.bind (readSymbols_inside _)
  intro rawSymbols holds
  exact .pure ⟨rfl, inFile⟩

end Inside

end PpcLab.MachO
