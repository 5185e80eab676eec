import PpcLab.Library.Bytes
import PpcLab.Library.Word
import Mathlib.Data.List.Sort

/-!
# Guest memory

Guest memory is a list of mapped regions, kept sorted by base address.  Every
access looks up the first region that holds the whole range and then checks
the permission it needs.

A size is a `size_t`, so the end of a range is computed modulo `2^64`.  The
end of a region needs no reduction: a vector holds fewer than `2^63` bytes and
a base is below `2^32`.
-/

namespace PpcLab

/-- Permission flags, combined bit by bit. -/
structure MemoryPerm where
  bits : BitVec 8
  deriving DecidableEq, Repr

namespace MemoryPerm

def none : MemoryPerm := ⟨0⟩
def read : MemoryPerm := ⟨1⟩
def write : MemoryPerm := ⟨2⟩
def execute : MemoryPerm := ⟨4⟩

instance : OrOp MemoryPerm := ⟨fun left right => ⟨left.bits ||| right.bits⟩⟩

end MemoryPerm

def hasPerm (value flag : MemoryPerm) : Bool :=
  (value.bits &&& flag.bits) != 0

structure MemoryRegion where
  base : Word
  bytes : List Byte
  perms : MemoryPerm
  name : String
  deriving DecidableEq, Repr

namespace MemoryRegion

def endExclusive (region : MemoryRegion) : Nat :=
  region.base.toNat + region.bytes.length

/-- The test of `Memory::find`. -/
def covers (region : MemoryRegion) (address : Word) (size : Nat) : Bool :=
  decide (region.base.toNat ≤ address.toNat) &&
    decide ((address.toNat + size) % 2 ^ 64 ≤ region.endExclusive)

/-- The index of an address in the bytes of the region that holds it. -/
def offset (region : MemoryRegion) (address : Word) : Nat :=
  (address - region.base).toNat

/-- Copy bytes into the region at an address. -/
def copyIn (region : MemoryRegion) (address : Word) (bytes : List Byte) :
    MemoryRegion :=
  { region with
    bytes := Bytes.overwrite region.bytes (region.offset address) bytes }

end MemoryRegion

structure Memory where
  regions : List MemoryRegion
  deriving DecidableEq, Repr

namespace Memory

def empty : Memory := ⟨[]⟩

/-- Position of the region `find` returns; past the end when there is none. -/
def findIndex (memory : Memory) (address : Word) (size : Nat) : Nat :=
  memory.regions.findIdx (·.covers address size)

def find (memory : Memory) (address : Word) (size : Nat) :
    Option MemoryRegion :=
  memory.regions.find? (·.covers address size)

/-- Assign through the pointer `find` returned. -/
def assignFound (memory : Memory) (address : Word) (size : Nat)
    (region : MemoryRegion) : Memory :=
  ⟨memory.regions.set (memory.findIndex address size) region⟩

def map (memory : Memory) (base : Word) (size : Nat) (perms : MemoryPerm)
    (name : String) : Bool × Memory :=
  let finish := (base.toNat + size) % 2 ^ 64
  if size = 0 then (false, memory)
  else if finish > 2 ^ 32 then (false, memory)
  else if memory.regions.any (fun region =>
      !(decide (finish ≤ region.base.toNat) ||
        decide (region.endExclusive ≤ base.toNat))) then (false, memory)
  else
    let region : MemoryRegion :=
      { base, bytes := List.replicate size 0, perms, name }
    (true, ⟨(memory.regions ++ [region]).insertionSort
      (fun left right => left.base ≤ right.base)⟩)

def load (memory : Memory) (base : Word) (bytes : List Byte)
    (perms : MemoryPerm) (name : String) : Bool × Memory :=
  match memory.map base bytes.length perms name with
  | (false, memory) => (false, memory)
  | (true, memory) =>
      match memory.find base bytes.length with
      | none => (false, memory)
      | some region =>
          (true, memory.assignFound base bytes.length
            { region with bytes := Bytes.overwrite region.bytes 0 bytes })

def readable (memory : Memory) (address : Word) (size : Nat) : Bool :=
  (memory.find address size).any (fun region => hasPerm region.perms .read)

def writable (memory : Memory) (address : Word) (size : Nat) : Bool :=
  (memory.find address size).any (fun region => hasPerm region.perms .write)

def executable (memory : Memory) (address : Word) (size : Nat) : Bool :=
  (memory.find address size).any (fun region => hasPerm region.perms .execute)

def readBytes (memory : Memory) (address : Word) (count : Nat) :
    Option (List Byte) :=
  match memory.find address count with
  | none => none
  | some region =>
      if hasPerm region.perms .read then
        some (Bytes.slice region.bytes (region.offset address) count)
      else none

def read8 (memory : Memory) (address : Word) : Option Byte :=
  match memory.find address 1 with
  | none => none
  | some region =>
      if hasPerm region.perms .read then
        region.bytes[region.offset address]?
      else none

def read16 (memory : Memory) (address : Word) : Option Half :=
  (memory.readBytes address 2).map (Bytes.decode 16)

def read32 (memory : Memory) (address : Word) : Option Word :=
  (memory.readBytes address 4).map (Bytes.decode 32)

def read64 (memory : Memory) (address : Word) : Option DoubleWord :=
  (memory.readBytes address 8).map (Bytes.decode 64)

def writeBytes (memory : Memory) (address : Word) (bytes : List Byte) :
    Bool × Memory :=
  match memory.find address bytes.length with
  | none => (false, memory)
  | some region =>
      if hasPerm region.perms .write then
        (true, memory.assignFound address bytes.length
          (region.copyIn address bytes))
      else (false, memory)

def write8 (memory : Memory) (address : Word) (value : Byte) :
    Bool × Memory :=
  match memory.find address 1 with
  | none => (false, memory)
  | some region =>
      if hasPerm region.perms .write then
        (true, memory.assignFound address 1
          { region with
            bytes := region.bytes.set (region.offset address) value })
      else (false, memory)

def write16 (memory : Memory) (address : Word) (value : Half) :
    Bool × Memory :=
  memory.writeBytes address (Bytes.encode 2 value)

def write32 (memory : Memory) (address : Word) (value : Word) :
    Bool × Memory :=
  memory.writeBytes address (Bytes.encode 4 value)

def write64 (memory : Memory) (address : Word) (value : DoubleWord) :
    Bool × Memory :=
  memory.writeBytes address (Bytes.encode 8 value)

end Memory

end PpcLab
