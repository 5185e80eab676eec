import PpcLab.Loader.PefPattern

/-!
# PEF images

The sections of a PEF container and their placement: instantiated sections are
laid out one after the other from the image base, and filled from the
container or from pattern data.
-/

namespace PpcLab.Pef

open Loader Text

structure SectionInfo where
  index : Word
  totalLength : Word
  unpackedLength : Word
  containerLength : Word
  containerOffset : Word
  kind : Byte
  alignmentPower : Byte
  mappedAddress : Word
  deriving DecidableEq, Repr

structure ImageInfo where
  sections : List SectionInfo
  deriving DecidableEq, Repr

def kCode : Byte := 0
def kUnpackedData : Byte := 1
def kPatternData : Byte := 2
def kConstant : Byte := 3
def kExecutableData : Byte := 6

def isInstantiated (kind : Byte) : Bool :=
  kind == kCode || kind == kUnpackedData || kind == kPatternData ||
    kind == kConstant || kind == kExecutableData

def sectionPerms (kind : Byte) : MemoryPerm :=
  match kind.toNat with
  | 0 => .read ||| .execute
  | 1 | 2 => .read ||| .write
  | 3 => .read
  | 6 => .read ||| .write ||| .execute
  | _ => .read

def pefSectionKindName (kind : Byte) : String :=
  match kind.toNat with
  | 0 => "code"
  | 1 => "unpacked-data"
  | 2 => "pattern-data"
  | 3 => "constant"
  | 4 => "loader"
  | 5 => "debug"
  | 6 => "executable-data"
  | 7 => "exception"
  | 8 => "traceback"
  | _ => "unknown"

/-- The section takes part in the layout. -/
def isPlaced (entry : SectionInfo) : Bool :=
  !(!isInstantiated entry.kind || entry.totalLength == 0)

def regionName (entry : SectionInfo) : String :=
  "pef:section[" ++ decimal entry.index.toNat ++ "]:" ++
    pefSectionKindName entry.kind

/-- The contents of a section that was just mapped. -/
def fillSection (bytes : List Byte) (entry : SectionInfo) (address : Word)
    (memory : Memory) : Except String Memory :=
  if (memory.find address entry.totalLength.toNat).isNone then
    .error "internal PEF mapping failure"
  else if entry.kind = kPatternData then do
    let unpacked ← unpackPattern
      (Bytes.slice bytes entry.containerOffset.toNat
        entry.containerLength.toNat) entry.unpackedLength.toNat
    return copyTo memory address entry.totalLength.toNat unpacked
  else if entry.containerLength != 0 then
    .ok (copyTo memory address entry.totalLength.toNat
      (Bytes.slice bytes entry.containerOffset.toNat
        (min entry.containerLength.toNat entry.unpackedLength.toNat)))
  else .ok memory

/-- The loop of `mapSections`, from a cursor. -/
def mapFrom (bytes : List Byte) :
    Word → Memory → List SectionInfo →
      Except String (Memory × List SectionInfo)
  | _, memory, [] => .ok (memory, [])
  | cursor, memory, entry :: rest =>
      if isPlaced entry = false then do
        let (memory, rest) ← mapFrom bytes cursor memory rest
        return (memory, entry :: rest)
      else if entry.alignmentPower.toNat ≥ 31 then
        .error "PEF section alignment is too large"
      else
        let start := alignUp cursor (1 <<< entry.alignmentPower.toNat)
        if start.toNat + entry.totalLength.toNat > 2 ^ 32 then
          .error "PEF instantiated sections exceed 32-bit address space"
        else
          match memory.map start entry.totalLength.toNat
              (sectionPerms entry.kind) (regionName entry) with
          | (false, _) =>
              .error ("failed to map PEF section " ++
                decimal entry.index.toNat)
          | (true, memory) => do
              let memory ← fillSection bytes entry start memory
              let (memory, rest) ←
                mapFrom bytes (start + entry.totalLength) memory rest
              return (memory, { entry with mappedAddress := start } :: rest)

def mapSections (bytes : List Byte) (memory : Memory) (info : ImageInfo)
    (imageBase : Word) : Except String (Memory × ImageInfo) := do
  let (memory, sections) ← mapFrom bytes imageBase memory info.sections
  return (memory, { sections })

end PpcLab.Pef
