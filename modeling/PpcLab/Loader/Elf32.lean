import PpcLab.Library.Text
import PpcLab.Loader.DirectAccess

/-!
# ELF images

The sections of an ELF image and the placement of a relocatable object: its
allocated sections are laid out one after the other from the image base and
filled from the file.
-/

namespace PpcLab.Elf32

open Loader

structure SectionInfo where
  index : Word
  name : String
  type : Word
  flags : Word
  fileOffset : Word
  size : Word
  alignment : Word
  mappedAddress : Word
  deriving DecidableEq, Repr

structure ImageInfo where
  loadBias : Word
  sections : List SectionInfo
  deriving DecidableEq, Repr

def shtNobits : Word := 8
def shfWrite : Word := 0x1
def shfAlloc : Word := 0x2
def shfExecinstr : Word := 0x4

def rangeWithin (offset size total : Nat) : Bool :=
  decide (offset ≤ total) && decide (size ≤ total - offset)

def sectionPerms (flags : Word) : MemoryPerm :=
  let perms := MemoryPerm.read
  let perms := if (flags &&& shfWrite) != 0 then perms ||| .write else perms
  if (flags &&& shfExecinstr) != 0 then perms ||| .execute else perms

/-- The section takes part in the layout. -/
def isAllocated (entry : SectionInfo) : Bool :=
  !((entry.flags &&& shfAlloc) == 0 || entry.size == 0)

/-- An alignment of zero means none. -/
def sectionAlignment (entry : SectionInfo) : Word :=
  if entry.alignment < 1 then 1 else entry.alignment

def regionName (entry : SectionInfo) : String :=
  "elf:" ++ (if entry.name.isEmpty then "section" else entry.name) ++ "[" ++
    Text.decimal entry.index.toNat ++ "]"

/-- The contents of a section that was just mapped. -/
def fillSection (bytes : List Byte) (entry : SectionInfo) (address : Word)
    (memory : Memory) : Except String Memory :=
  if entry.type = shtNobits then .ok memory
  else if (memory.find address entry.size.toNat).isNone ||
      !rangeWithin entry.fileOffset.toNat entry.size.toNat bytes.length then
    .error "invalid ELF ET_REL section data"
  else
    .ok (copyTo memory address entry.size.toNat
      (Bytes.slice bytes entry.fileOffset.toNat entry.size.toNat))

/-- The loop of `mapRelSections`, from a cursor. -/
def mapRelFrom (bytes : List Byte) :
    Word → Memory → List SectionInfo →
      Except String (Memory × List SectionInfo)
  | _, memory, [] => .ok (memory, [])
  | cursor, memory, entry :: rest =>
      if isAllocated entry = false then do
        let (memory, rest) ← mapRelFrom bytes cursor memory rest
        return (memory, entry :: rest)
      else
        let alignment := sectionAlignment entry
        if (alignment &&& (alignment - 1)) != 0 then
          .error "ELF ET_REL section alignment is not a power of two"
        else
          let start := alignUp cursor alignment
          if start.toNat + entry.size.toNat > 2 ^ 32 then
            .error "ELF ET_REL allocation exceeds 32-bit address space"
          else
            match memory.map start entry.size.toNat (sectionPerms entry.flags)
                (regionName entry) with
            | (false, _) =>
                .error ("failed to map ELF ET_REL section " ++
                  Text.decimal entry.index.toNat)
            | (true, memory) => do
                let memory ← fillSection bytes entry start memory
                let (memory, rest) ←
                  mapRelFrom bytes (start + entry.size) memory rest
                return (memory, { entry with mappedAddress := start } :: rest)

def mapRelSections (bytes : List Byte) (memory : Memory) (info : ImageInfo)
    (imageBase : Word) : Except String (Memory × ImageInfo) := do
  let (memory, sections) ← mapRelFrom bytes imageBase memory info.sections
  return (memory, { loadBias := imageBase, sections })

end PpcLab.Elf32
