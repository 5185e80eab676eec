import PpcLab.Library.Simulation
import PpcLab.Loader.Pef

/-!
# PEF relocations

The relocation instructions of a PEF section are a byte code with a cursor,
two section registers and an import counter.  Instructions are one or two
blocks of 16 bits; a repeat runs the blocks before it again.  A failed
instruction leaves the words relocated so far as they are.
-/

namespace PpcLab.Pef

open Loader Text

structure ImportInfo where
  name : String
  address : Word
  resolved : Bool
  deriving DecidableEq, Repr

structure RelocState where
  targetBase : Word
  address : Word
  sectionC : Word
  sectionD : Word
  importIndex : Word
  deriving DecidableEq, Repr

/-- What the interpreter changes, and the addresses it relocated so far. -/
structure Relocating where
  memory : Memory
  state : RelocState
  visits : List Word
  deriving DecidableEq, Repr

abbrev RelocM := EStateM String Relocating

/-- The instruction groups, with their fields. -/
inductive Operation where
  | bySectDWithSkip (skip : Word) (count : Nat)
  | value (sub count : Nat)
  | byIndex (sub index : Nat)
  | increment (amount : Word)
  | smallRepeat (blockCount repeatCount : Nat)
  | setPosition (offset : Word)
  | lgByImport (index : Nat)
  | lgRepeat (blockCount repeatCount : Nat)
  | lgSetOrBySection (sub index : Nat)
  | truncated
  | thirdParty
  | reserved
  deriving DecidableEq, Repr

/-- The instruction takes a second block. -/
def isTwoBlock (first : Half) : Bool :=
  (first >>> 10) == 0x28 || (first >>> 10) == 0x29 ||
    (first >>> 10) == 0x2c || (first >>> 10) == 0x2d

/-- Two blocks read as one large instruction. -/
def decodeLarge (first second : Half) : Operation :=
  let wide : Word :=
    ((first &&& 0x03ff).setWidth 32 <<< 16) ||| second.setWidth 32
  let sub := ((first >>> 6) &&& 0x0f).toNat
  let narrow : Word :=
    ((first &&& 0x3f).setWidth 32 <<< 16) ||| second.setWidth 32
  match (first >>> 10).toNat with
  | 0x28 => .setPosition wide
  | 0x29 => .lgByImport wide.toNat
  | 0x2c => .lgRepeat (sub + 1) narrow.toNat
  | _ => .lgSetOrBySection sub narrow.toNat

def decode (first : Half) (second : Option Half) : Operation :=
  if (first &&& 0xc000) == 0 then
    .bySectDWithSkip (((first >>> 6) &&& 0xff).setWidth 32)
      (first &&& 0x3f).toNat
  else if (first >>> 13) == 2 then
    .value ((first >>> 9) &&& 0x0f).toNat ((first &&& 0x01ff).toNat + 1)
  else if (first >>> 13) == 3 then
    .byIndex ((first >>> 9) &&& 0x0f).toNat (first &&& 0x01ff).toNat
  else if (first >>> 12) == 8 then
    .increment ((first &&& 0x0fff).setWidth 32 + 1)
  else if (first >>> 12) == 9 then
    .smallRepeat (((first >>> 8) &&& 0x0f).toNat + 1)
      ((first &&& 0xff).toNat + 1)
  else if isTwoBlock first then
    match second with
    | none => .truncated
    | some second => decodeLarge first second
  else if (first >>> 13) == 7 then .thirdParty
  else .reserved

/-- The instructions of a run of blocks, each with the position of its first
block. -/
def instructions : Nat → List Half → List (Nat × Operation)
  | _, [] => []
  | start, [first] => [(start, decode first none)]
  | start, first :: second :: rest =>
      if isTwoBlock first then
        (start, decode first (some second)) :: instructions (start + 2) rest
      else
        (start, decode first none) :: instructions (start + 1) (second :: rest)

def addWord (address add : Word) : RelocM Unit := do
  let machine ← get
  match (directRead32 machine.memory address).bind fun word =>
      directWrite32 machine.memory address (word + add) with
  | none => throw "PEF relocation target is outside an instantiated section"
  | some memory =>
      set { machine with memory, visits := machine.visits ++ [address] }

def sectionAddress (info : ImageInfo) (index : Nat) : RelocM Word :=
  let outside :=
    "PEF relocation references a non-instantiated/invalid section " ++
      decimal index
  match info.sections[index]? with
  | none => throw outside
  | some entry =>
      if entry.mappedAddress = 0 then throw outside
      else pure entry.mappedAddress

def importAddress (imports : List ImportInfo) (index : Nat) : RelocM Word :=
  match imports[index]? with
  | none =>
      throw "PEF relocation import index is outside imported-symbol table"
  | some entry =>
      if entry.resolved then pure entry.address
      else
        throw ("unresolved PEF import: " ++
          (if entry.name.isEmpty then "<anonymous>" else entry.name) ++
          " (supply --bind NAME=ADDRESS)")

def modifyState (change : RelocState → RelocState) : RelocM Unit :=
  modifyThe Relocating fun machine =>
    { machine with state := change machine.state }

/-- `s.address += amount` -/
def advance (amount : Word) : RelocM Unit :=
  modifyState fun s => { s with address := s.address + amount }

/-- Add a value at the cursor, and move the cursor. -/
def addHere (add stride : Word) : RelocM Unit := do
  let machine ← get
  addWord machine.state.address add
  advance stride

def addRun (value : Word) (count : Nat) : RelocM Unit :=
  times (addHere value 4) count

/-- `addRun` of the section register the instruction names. -/
def addRegisterRun (register : RelocState → Word) (count : Nat) :
    RelocM Unit := do
  let machine ← get
  addRun (register machine.state) count

/-- Add the section registers to two neighbouring words. -/
def addPair (stride : Word) : RelocM Unit := do
  let machine ← get
  addWord machine.state.address machine.state.sectionC
  addWord (machine.state.address + 4) machine.state.sectionD
  advance stride

/-- Add the address of the next import. -/
def addNextImport (imports : List ImportInfo) : RelocM Unit := do
  let machine ← get
  modifyState fun s => { s with importIndex := s.importIndex + 1 }
  let address ← importAddress imports machine.state.importIndex.toNat
  addHere address 4

/-- Add the address of an import, and continue behind it. -/
def addImport (imports : List ImportInfo) (index : Nat) : RelocM Unit := do
  let address ← importAddress imports index
  addHere address 4
  modifyState fun s => { s with importIndex := BitVec.ofNat 32 index + 1 }

def value (imports : List ImportInfo) (sub count : Nat) : RelocM Unit :=
  match sub with
  | 0 => addRegisterRun (·.sectionC) count
  | 1 => addRegisterRun (·.sectionD) count
  | 2 => times (addPair 12) count
  | 3 => times (addPair 8) count
  | 4 =>
      times (do
        let machine ← get
        addHere machine.state.sectionD 8) count
  | 5 => times (addNextImport imports) count
  | _ =>
      throw ("unsupported/reserved PEF relocate-value subopcode " ++
        decimal sub)

def byIndex (info : ImageInfo) (imports : List ImportInfo)
    (sub index : Nat) : RelocM Unit :=
  match sub with
  | 0 => addImport imports index
  | 1 => do
      let address ← sectionAddress info index
      modifyState fun s => { s with sectionC := address }
  | 2 => do
      let address ← sectionAddress info index
      modifyState fun s => { s with sectionD := address }
  | 3 => do
      let address ← sectionAddress info index
      addHere address 4
  | _ =>
      throw ("unsupported/reserved PEF relocate-by-index subopcode " ++
        decimal sub)

def lgSetOrBySection (info : ImageInfo) (sub index : Nat) : RelocM Unit := do
  let address ← sectionAddress info index
  match sub with
  | 0 => addHere address 4
  | 1 => modifyState fun s => { s with sectionC := address }
  | 2 => modifyState fun s => { s with sectionD := address }
  | _ => throw ("unsupported PEF large section subopcode " ++ decimal sub)

/-- Run the blocks before a repeat again.  Inside such a run there is no way to
run blocks, and a repeat is refused. -/
def repeatBlocks (runBlocks : Option (Nat → Nat → RelocM Unit))
    (first start blockCount repeatCount : Nat) (tooEarly : String) :
    RelocM Unit :=
  match runBlocks with
  | none => throw "nested PEF relocation repeat is invalid"
  | some runBlocks =>
      if start < first + blockCount then throw tooEarly
      else times (runBlocks (start - blockCount) start) repeatCount

/-- One instruction of the blocks that begin at `first`. -/
def perform (info : ImageInfo) (imports : List ImportInfo)
    (runBlocks : Option (Nat → Nat → RelocM Unit)) (first : Nat)
    (instruction : Nat × Operation) : RelocM Unit :=
  match instruction.2 with
  | .bySectDWithSkip skip count => do
      advance (skip * 4)
      addRegisterRun (·.sectionD) count
  | .value sub count => value imports sub count
  | .byIndex sub index => byIndex info imports sub index
  | .increment amount => advance amount
  | .smallRepeat blockCount repeatCount =>
      repeatBlocks runBlocks first instruction.1 blockCount repeatCount
        "PEF small repeat reaches before relocation stream"
  | .setPosition offset =>
      modifyState fun s => { s with address := s.targetBase + offset }
  | .lgByImport index => addImport imports index
  | .lgRepeat blockCount repeatCount =>
      repeatBlocks runBlocks first instruction.1 blockCount repeatCount
        "PEF large repeat reaches before relocation stream"
  | .lgSetOrBySection sub index => lgSetOrBySection info sub index
  | .truncated => throw "truncated two-block PEF relocation instruction"
  | .thirdParty =>
      throw "third-party PEF relocation opcodes are not supported"
  | .reserved =>
      throw ("unsupported/reserved PEF relocation opcode at chunk " ++
        decimal instruction.1)

/-- The instructions of the blocks from `first` to `finish`. -/
def blockInstructions (chunks : List Half) (first finish : Nat) :
    List (Nat × Operation) :=
  instructions first ((chunks.take finish).drop first)

/-- `execute` where repeats are refused. -/
def executeBlocks (info : ImageInfo) (imports : List ImportInfo)
    (chunks : List Half) (first finish : Nat) : RelocM Unit :=
  inOrder (perform info imports none first)
    (blockInstructions chunks first finish)

def run (info : ImageInfo) (imports : List ImportInfo) (chunks : List Half) :
    RelocM Unit :=
  inOrder (perform info imports (some (executeBlocks info imports chunks)) 0)
    (instructions 0 chunks)

structure RelocHeader where
  sectionIndex : Half
  chunkCount : Word
  firstOffset : Word
  deriving DecidableEq, Repr

/-- What relocation reads of a parsed container.  Parsing checked every section
index in it. -/
structure ParsedPef where
  bytes : List Byte
  loaderSectionIndex : Option Word
  relocInstrOffset : Word
  imports : List ImportInfo
  relocHeaders : List RelocHeader
  deriving DecidableEq, Repr

def mappedAddressOf (info : ImageInfo) (index : Nat) : Word :=
  (info.sections[index]?.map (·.mappedAddress)).getD 0

/-- The blocks of a relocation header. -/
def chunksOf (parsed : ParsedPef) (loaderBase : Nat) (header : RelocHeader) :
    List Half :=
  (List.range header.chunkCount.toNat).map fun i =>
    be16 parsed.bytes (loaderBase + parsed.relocInstrOffset.toNat +
      header.firstOffset.toNat + i * 2)

def applyHeader (parsed : ParsedPef) (info : ImageInfo) (loaderBase : Nat)
    (header : RelocHeader) : RelocM Unit :=
  let target := mappedAddressOf info header.sectionIndex.toNat
  if target = 0 then
    throw "PEF relocation targets a non-instantiated section"
  else do
    modifyState fun _ =>
      { targetBase := target
        address := target
        sectionC := mappedAddressOf info 0
        sectionD := mappedAddressOf info 1
        importIndex := 0 }
    run info parsed.imports (chunksOf parsed loaderBase header)

def applyRelocations (parsed : ParsedPef) (info : ImageInfo) : RelocM Unit :=
  match parsed.loaderSectionIndex with
  | none => pure ()
  | some index =>
      let loaderBase :=
        (info.sections[index.toNat]?.map (·.containerOffset)).getD 0
      inOrder (applyHeader parsed info loaderBase.toNat) parsed.relocHeaders

end PpcLab.Pef
