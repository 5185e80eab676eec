import PpcLab.Loader.PatchedCode

/-!
# Mach-O images

Mapping a parsed Mach-O image, building the run-time symbol table and applying
the relocation tables of its sections.  A relocation entry is two words of the
file; the paired kinds consume the entry after them as well.
-/

namespace PpcLab.MachO

open Loader

structure SegmentInfo where
  name : String
  vmAddress : Word
  vmSize : Word
  fileOffset : Word
  fileSize : Word
  initProt : Word
  mappedAddress : Word
  deriving DecidableEq, Repr

structure SectionInfo where
  sectionName : String
  segmentName : String
  address : Word
  size : Word
  fileOffset : Word
  alignmentPower : Word
  relocationOffset : Word
  relocationCount : Word
  flags : Word
  mappedAddress : Word
  deriving DecidableEq, Repr

structure ImageInfo where
  fileType : Word
  loadBias : Word
  segments : List SegmentInfo
  sections : List SectionInfo
  symbols : List ImageSymbol
  deriving DecidableEq, Repr

structure RawSymbol where
  symbol : ImageSymbol
  nType : Byte
  nSect : Byte
  nDesc : Half
  deriving DecidableEq, Repr

structure ParsedMachO where
  bytes : List Byte
  info : ImageInfo
  rawSymbols : List RawSymbol

def mhObject : Word := 1
def mhDylib : Word := 6
def vmProtRead : Word := 1
def vmProtWrite : Word := 2
def vmProtExecute : Word := 4
def sZerofill : Word := 1
def nStab : Byte := 0xe0
def nTypeMask : Byte := 0x0e
def nUndf : Byte := 0x00
def nAbs : Byte := 0x02
def nSectKind : Byte := 0x0e
def nWeakRef : Half := 0x0040

def permsFromVm (prot : Word) : MemoryPerm :=
  let perms := MemoryPerm.none
  let perms := if (prot &&& (vmProtRead ||| vmProtExecute)) != 0 then
    perms ||| .read else perms
  let perms := if (prot &&& vmProtWrite) != 0 then perms ||| .write else perms
  if (prot &&& vmProtExecute) != 0 then perms ||| .execute else perms

def objectPerms (mapped : SectionInfo) : MemoryPerm :=
  let perms := MemoryPerm.read ||| .write
  if mapped.segmentName == "__TEXT" || mapped.sectionName == "__text" then
    perms ||| .execute else perms

/-- The sections of an object file, laid out one after the other. -/
def mapObject (bytes : List Byte) :
    Word → Memory → List SectionInfo →
      Except String (Memory × List SectionInfo)
  | _, memory, [] => .ok (memory, [])
  | cursor, memory, next :: rest =>
      if next.size = 0 then do
        let (memory, rest) ← mapObject bytes cursor memory rest
        return (memory, next :: rest)
      else if next.alignmentPower.toNat ≥ 31 then
        .error "Mach-O section alignment is too large"
      else
        let cursor := alignUp cursor (1 <<< next.alignmentPower.toNat)
        let mapped := { next with mappedAddress := cursor }
        match memory.map cursor next.size.toNat (objectPerms next)
            ("macho:" ++ next.segmentName ++ "," ++ next.sectionName) with
        | (false, _) => .error "failed to map Mach-O object section"
        | (true, memory) =>
            let memory :=
              if (next.flags &&& 0xff) != sZerofill then
                copyTo memory cursor next.size.toNat
                  (Bytes.slice bytes next.fileOffset.toNat next.size.toNat)
              else memory
            do
              let (memory, rest) ←
                mapObject bytes (cursor + next.size) memory rest
              return (memory, mapped :: rest)

/-- Segments at their own addresses, moved by the load bias. -/
def mapSegments (bytes : List Byte) (bias : Word) :
    Memory → List SegmentInfo → Except String (Memory × List SegmentInfo)
  | memory, [] => .ok (memory, [])
  | memory, next :: rest =>
      if next.vmSize = 0 then do
        let (memory, rest) ← mapSegments bytes bias memory rest
        return (memory, next :: rest)
      else if bias.toNat + next.vmAddress.toNat + next.vmSize.toNat >
          2 ^ 32 then
        .error "Mach-O segment exceeds 32-bit address space after rebasing"
      else
        let mapped := { next with mappedAddress := bias + next.vmAddress }
        match memory.map mapped.mappedAddress next.vmSize.toNat
            (permsFromVm next.initProt) ("macho:" ++ next.name) with
        | (false, _) => .error ("failed to map Mach-O segment " ++ next.name)
        | (true, memory) =>
            let memory :=
              if next.fileSize != 0 then
                copyTo memory mapped.mappedAddress next.vmSize.toNat
                  (Bytes.slice bytes next.fileOffset.toNat
                    next.fileSize.toNat)
              else memory
            do
              let (memory, rest) ← mapSegments bytes bias memory rest
              return (memory, mapped :: rest)

/-- The lowest address of a segment that is not empty. -/
def minVm (segments : List SegmentInfo) : Word :=
  segments.foldl (fun least next =>
    if next.vmSize != 0 then
      if next.vmAddress < least then next.vmAddress else least
    else least) 0xffffffff

def loadBiasOf (info : ImageInfo) (imageBase : Word) : Except String Word :=
  if info.fileType = mhDylib then
    if minVm info.segments = 0xffffffff ∨ imageBase < minVm info.segments then
      .error "cannot derive Mach-O dylib load bias"
    else .ok (imageBase - minVm info.segments)
  else .ok 0

def mapImage (parsed : ParsedMachO) (memory : Memory) (info : ImageInfo)
    (imageBase : Word) : Except String (Memory × ImageInfo) :=
  if info.fileType = mhObject then do
    let (memory, mapped) ←
      mapObject parsed.bytes imageBase memory info.sections
    return (memory, { info with sections := mapped, loadBias := imageBase })
  else do
    let bias ← loadBiasOf info imageBase
    let (memory, segments) ←
      mapSegments parsed.bytes bias memory info.segments
    return (memory,
      { info with
        loadBias := bias
        segments := segments
        sections := info.sections.map fun next =>
          { next with mappedAddress := bias + next.address } })

/-- The run-time address of a symbol, if it has one. -/
def resolveSymbol (info : ImageInfo) (bindings : List SymbolBinding)
    (raw : RawSymbol) : Option Word :=
  let kind := raw.nType &&& nTypeMask
  if (raw.nType &&& nStab) != 0 then some 0
  else if kind = nUndf then
    if raw.symbol.name.isEmpty then some 0
    else
      match findSymbolBinding bindings raw.symbol.name with
      | some address => some address
      | none => if (raw.nDesc &&& nWeakRef) != 0 then some 0 else none
  else if kind = nAbs then some raw.symbol.value
  else if kind = nSectKind ∧ raw.nSect ≠ 0 then
    match info.sections[raw.nSect.toNat - 1]? with
    | some target =>
        if info.fileType = mhObject then
          some (target.mappedAddress + (raw.symbol.value - target.address))
        else some (info.loadBias + raw.symbol.value)
    | none => none
  else none

structure RuntimeSymbol where
  address : Word
  resolved : Bool
  symbol : ImageSymbol
  deriving DecidableEq, Repr

def runtimeSymbol (info : ImageInfo) (bindings : List SymbolBinding)
    (raw : RawSymbol) : RuntimeSymbol :=
  let found := resolveSymbol info bindings raw
  let kind := raw.nType &&& nTypeMask
  { address := found.getD 0
    resolved := found.isSome
    symbol :=
      { raw.symbol with
        value := found.getD raw.symbol.value
        defined := kind != nUndf || found.isSome
        imported := kind == nUndf } }

/-- The symbol of a relocation by its index, and the symbols of the image. -/
def buildSymbols (parsed : ParsedMachO) (info : ImageInfo)
    (bindings : List SymbolBinding) : List RuntimeSymbol × ImageInfo :=
  let runtime := parsed.rawSymbols.map (runtimeSymbol info bindings)
  let visible := (parsed.rawSymbols.zip runtime).filter fun (raw, entry) =>
    !entry.symbol.name.isEmpty && (raw.nType &&& nStab) == 0
  (runtime, { info with symbols := visible.map fun (_, entry) => entry.symbol })

def resolveRelocTarget (runtime : List RuntimeSymbol) (info : ImageInfo)
    (symbolNum : Nat) (external : Bool) : Except String Word :=
  if external then
    match runtime[symbolNum]? with
    | none => .error "Mach-O relocation symbol index is outside LC_SYMTAB"
    | some entry =>
        if entry.resolved then .ok entry.address
        else
          .error ("unresolved Mach-O symbol: " ++
            (if entry.symbol.name.isEmpty then "<anonymous>"
              else entry.symbol.name) ++
            " (supply --bind NAME=ADDRESS)")
  else if symbolNum = 0 then .ok 0
  else
    match info.sections[symbolNum - 1]? with
    | none => .error "Mach-O local relocation section ordinal is invalid"
    | some target => .ok target.mappedAddress

/-- The two words of a relocation entry. -/
structure RelocationWords where
  word0 : Word
  word1 : Word
  deriving DecidableEq, Repr

namespace RelocationWords

variable (entry : RelocationWords)

def symbolNum : Nat := (entry.word1 >>> 8).toNat
def pcrel : Bool := entry.word1.getLsbD 7
def length : Nat := (entry.word1.field 5 2).toNat
def external : Bool := entry.word1.getLsbD 4
def type : Nat := (entry.word1.field 0 4).toNat

/-- Bit 31 of the first word marks a scattered entry. -/
def scattered : Bool := entry.word0.getLsbD 31

end RelocationWords

@[match_pattern] def ppcRelocVanilla : Nat := 0
@[match_pattern] def ppcRelocPair : Nat := 1
@[match_pattern] def ppcRelocBr14 : Nat := 2
@[match_pattern] def ppcRelocBr24 : Nat := 3
@[match_pattern] def ppcRelocHi16 : Nat := 4
@[match_pattern] def ppcRelocLo16 : Nat := 5
@[match_pattern] def ppcRelocHa16 : Nat := 6
@[match_pattern] def ppcRelocLo14 : Nat := 7

/-- The address the two halves of a paired entry stand for. -/
def pairedAddend (type : Nat) (currentHalf otherHalf : Half) : Word :=
  if type = ppcRelocHi16 ∨ type = ppcRelocHa16 then
    (currentHalf.setWidth 32 <<< 16) ||| otherHalf.setWidth 32
  else (otherHalf.setWidth 32 <<< 16) ||| currentHalf.setWidth 32

/-- The half a paired entry writes. -/
def patchedHalf (type : Nat) (value : Int) : Half :=
  match type with
  | ppcRelocHi16 => BitVec.ofInt 16 (value >>> (16 : Nat))
  | ppcRelocHa16 => BitVec.ofInt 16 ((value + 0x8000) >>> (16 : Nat))
  | ppcRelocLo14 => BitVec.ofInt 16 value &&& 0xfffc
  | _ => BitVec.ofInt 16 value

section Apply

variable (info : ImageInfo) (runtime : List RuntimeSymbol) (error : String)

def writeBranch (memory : Memory) (place instruction mask : Word)
    (bits : Nat) (outOfRange : String) (value : Int) :
    Except String Memory :=
  if value % 4 ≠ 0 ∨ fitsSigned value bits = false then .error outOfRange
  else
    written error (directWrite32 memory place
      ((instruction &&& ~~~mask) ||| (BitVec.ofInt 32 value &&& mask)))

/-- An entry that takes the other half of its addend from the next one. -/
def applyPaired (memory : Memory) (place instruction : Word) (type : Nat)
    (value : Int → Int) (next : Option RelocationWords) :
    Except String (Memory × Bool) :=
  match next with
  | none =>
      .error "paired PowerPC Mach-O relocation is missing PPC_RELOC_PAIR"
  | some pair =>
      if pair.scattered ∨ pair.type ≠ ppcRelocPair then
        .error "paired PowerPC Mach-O relocation is followed by a non-pair entry"
      else do
        let addend := pairedAddend type (instruction.field 0 16)
          (pair.word0.field 0 16)
        let patched := patchedHalf type (value addend.toInt)
        let memory ← written error (directWrite32 memory place
          ((instruction &&& 0xffff0000) ||| patched.setWidth 32))
        return (memory, true)

/-- Apply one entry.  The flag says whether it consumed the `next` one. -/
def applyRelocation (owner : SectionInfo) (memory : Memory)
    (entry : RelocationWords) (next : Option RelocationWords) :
    Except String (Memory × Bool) :=
  if entry.scattered then
    .error "scattered PowerPC Mach-O relocations are not supported in v0.3"
  else if entry.word0.toInt < 0 then
    .error "negative Mach-O relocation address is invalid for this loader"
  else if entry.type = ppcRelocPair then
    .error "orphan PPC_RELOC_PAIR in Mach-O relocation table"
  else do
    let place := owner.mappedAddress + entry.word0
    let target ←
      resolveRelocTarget runtime info entry.symbolNum entry.external
    match directRead32 memory place with
    | none => .error "Mach-O relocation target is not mapped"
    | some instruction =>
        let origin : Int := if entry.pcrel then place.toNat else 0
        match entry.type with
        | ppcRelocVanilla =>
            if entry.length = 2 then do
              let memory ← written error (directWrite32 memory place
                (BitVec.ofInt 32
                  (target.toNat + instruction.toInt - origin)))
              return (memory, false)
            else
              .error "Mach-O PPC_RELOC_VANILLA currently requires 32-bit length"
        | ppcRelocBr24 => do
            let memory ← writeBranch error memory place instruction 0x03fffffc
              26 "Mach-O PPC_RELOC_BR24 is out of range"
              (target.toNat + signExtend (instruction &&& 0x03fffffc) 26 -
                origin)
            return (memory, false)
        | ppcRelocBr14 => do
            let memory ← writeBranch error memory place instruction 0x0000fffc
              16 "Mach-O PPC_RELOC_BR14 is out of range"
              (target.toNat + signExtend (instruction &&& 0x0000fffc) 16 -
                origin)
            return (memory, false)
        | ppcRelocHi16 | ppcRelocLo16 | ppcRelocHa16 | ppcRelocLo14 =>
            applyPaired error memory place instruction entry.type
              (fun addend => target.toNat + addend - origin) next
        | code =>
            .error ("unsupported PowerPC Mach-O relocation type " ++
              Text.decimal code)

/-- The entries of one section, in file order. -/
def applyEntries (owner : SectionInfo) :
    Memory → List RelocationWords → Except String Memory
  | memory, [] => .ok memory
  | memory, [entry] => do
      let (memory, _) ← applyRelocation info runtime error owner memory entry
        none
      return memory
  | memory, entry :: next :: rest => do
      let (memory, paired) ← applyRelocation info runtime error owner memory
        entry (some next)
      if paired then applyEntries owner memory rest
      else applyEntries owner memory (next :: rest)

/-- The relocation table of a section, read from the file. -/
def relocationEntries (bytes : List Byte) (owner : SectionInfo) :
    List RelocationWords :=
  (List.range owner.relocationCount.toNat).map fun index =>
    let off := owner.relocationOffset.toNat + index * 8
    ⟨be32 bytes off, be32 bytes (off + 4)⟩

def applyRelocations (parsed : ParsedMachO) (memory : Memory) :
    Except String Memory :=
  info.sections.foldlM (fun memory owner =>
    applyEntries info runtime error owner memory
      (relocationEntries parsed.bytes owner)) memory

end Apply

/-- `loadFile` once the file has been read and parsed. -/
def load (parsed : ParsedMachO) (memory : Memory) (imageBase : Word)
    (bindings : List SymbolBinding) (error : String) :
    Except String (Memory × ImageInfo) := do
  let (memory, info) ← mapImage parsed memory parsed.info imageBase
  let (runtime, info) := buildSymbols parsed info bindings
  let memory ← applyRelocations info runtime error parsed memory
  return (memory, info)

end PpcLab.MachO
