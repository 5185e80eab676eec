import PpcLab.MemoryInvariant

/-!
# Direct access to loaded bytes

The loaders patch the image they mapped through the region itself, without
asking for a permission.  A word can be read back as one word or as two
halves, so a patched half is a patched field of the word around it.
-/

namespace PpcLab.Loader

def directRead32 (memory : Memory) (address : Word) : Option Word :=
  (memory.find address 4).map fun region =>
    Bytes.decode 32 (Bytes.slice region.bytes (region.offset address) 4)

def directRead16 (memory : Memory) (address : Word) : Option Half :=
  (memory.find address 2).map fun region =>
    Bytes.decode 16 (Bytes.slice region.bytes (region.offset address) 2)

/-- Assign bytes inside the one region that holds them all. -/
def directWrite (memory : Memory) (address : Word) (bytes : List Byte) :
    Option Memory :=
  (memory.find address bytes.length).map fun region =>
    memory.assignFound address bytes.length (region.copyIn address bytes)

def directWrite32 (memory : Memory) (address value : Word) : Option Memory :=
  directWrite memory address (Bytes.encode 4 value)

def directWrite16 (memory : Memory) (address : Word) (value : Half) :
    Option Memory :=
  directWrite memory address (Bytes.encode 2 value)

/-- A write that fails returns without touching the error text. -/
def written (error : String) : Option Memory → Except String Memory
  | none => .error error
  | some memory => .ok memory

theorem written_eq_ok {error : String} {result : Option Memory}
    {after : Memory} (succeeded : written error result = .ok after) :
    result = some after := by
  cases result with
  | none => cases succeeded
  | some memory => rw [Except.ok.inj succeeded]

/-- Copy bytes to the start of the region that holds a whole range. -/
def copyTo (memory : Memory) (address : Word) (size : Nat)
    (bytes : List Byte) : Memory :=
  match memory.find address size with
  | none => memory
  | some region =>
      memory.assignFound address size
        { region with bytes := Bytes.overwrite region.bytes 0 bytes }

def be16 (bytes : List Byte) (off : Nat) : Half :=
  Bytes.decode 16 (Bytes.slice bytes off 2)

def be32 (bytes : List Byte) (off : Nat) : Word :=
  Bytes.decode 32 (Bytes.slice bytes off 4)

/-- Round up to a multiple of a power of two, in 64 bits, and keep 32. -/
def alignUp (value alignment : Word) : Word :=
  if alignment.toNat ≤ 1 then value
  else
    ((value.setWidth 64 + alignment.setWidth 64 - 1) &&&
      ~~~(alignment.setWidth 64 - 1 : DoubleWord)).setWidth 32

/-- The signed value of the low `bits` bits. -/
def signExtend (value : Word) (bits : Nat) : Int :=
  let sign : Word := 1 <<< (bits - 1)
  ((value ^^^ sign) - sign).toInt

def fitsSigned (value : Int) (bits : Nat) : Bool :=
  decide (-2 ^ (bits - 1) ≤ value) && decide (value ≤ 2 ^ (bits - 1) - 1)

theorem fitsSigned_iff {value : Int} {bits : Nat} :
    fitsSigned value bits = true ↔
      -2 ^ (bits - 1) ≤ value ∧ value < 2 ^ (bits - 1) := by
  simp only [fitsSigned, Bool.and_eq_true, decide_eq_true_eq]
  omega

theorem directRead32_eq (memory : Memory) (address : Word) :
    directRead32 memory address =
      (memory.rangeAt address 4).map (Bytes.decode 32) := by
  rw [directRead32, Memory.rangeAt, Option.map_map]
  rfl

/-- Where reading is permitted the interpreter sees what the loader sees. -/
theorem read32_eq_directRead32 {memory : Memory} {address : Word}
    (permitted : memory.readable address 4 = true) :
    memory.read32 address = directRead32 memory address := by
  unfold Memory.readable at permitted
  rw [Memory.read32, Memory.readBytes, directRead32]
  cases found : memory.find address 4 with
  | none => rfl
  | some region =>
      have readBit : hasPerm region.perms .read = true := by
        simpa [found] using permitted
      simp [readBit]

theorem directWrite_sameShape {before after : Memory} {address : Word}
    {bytes : List Byte} (written : directWrite before address bytes = some after) :
    before.SameShape after := by
  obtain ⟨region, found, rfl⟩ := Option.map_eq_some_iff.mp written
  exact Memory.assignFound_sameShape found
    (region.copyIn_sameShape address bytes)

theorem rangeAt_directWrite_self {before after : Memory} {address : Word}
    {bytes : List Byte} (small : bytes.length < 2 ^ 63)
    (written : directWrite before address bytes = some after) :
    after.rangeAt address bytes.length = some bytes := by
  obtain ⟨region, found, rfl⟩ := Option.map_eq_some_iff.mp written
  exact Memory.rangeAt_copyIn_self small found

theorem rangeAt_directWrite_apart {before after : Memory}
    {address other : Word} {bytes : List Byte} {count : Nat}
    (small : bytes.length < 2 ^ 63) (countSmall : count < 2 ^ 63)
    (written : directWrite before address bytes = some after)
    (apart : other.toNat + count ≤ address.toNat ∨
      address.toNat + bytes.length ≤ other.toNat) :
    after.rangeAt other count = before.rangeAt other count := by
  obtain ⟨region, found, rfl⟩ := Option.map_eq_some_iff.mp written
  exact Memory.rangeAt_copyIn_apart small countSmall found apart

theorem directRead32_directWrite32 {before after : Memory}
    {address value : Word}
    (written : directWrite32 before address value = some after) :
    directRead32 after address = some value := by
  have stored := rangeAt_directWrite_self (by simp) written
  rw [Bytes.length_encode] at stored
  rw [directRead32_eq, stored, Option.map_some]
  exact congrArg some (Bytes.decode_encode 4 value)

theorem directRead32_directWrite_apart {before after : Memory}
    {address other : Word} {bytes : List Byte}
    (small : bytes.length < 2 ^ 63)
    (written : directWrite before address bytes = some after)
    (apart : other.toNat + 4 ≤ address.toNat ∨
      address.toNat + bytes.length ≤ other.toNat) :
    directRead32 after other = directRead32 before other := by
  rw [directRead32_eq, directRead32_eq,
    rangeAt_directWrite_apart small (by omega) written apart]

private theorem decode_replaceHalf (upper : List Byte) {lower : List Byte}
    (value : Half) (length : lower.length = 2) :
    Bytes.decode 32 (upper ++ Bytes.encode 2 value) =
      Word.withField (Bytes.decode 32 (upper ++ lower)) 0 value := by
  apply BitVec.eq_of_getLsbD_eq
  intro index bound
  rw [Word.getLsbD_withField _ _ _ _ bound, Bytes.decode_append,
    Bytes.decode_append, Bytes.length_encode, length, BitVec.getLsbD_or,
    BitVec.getLsbD_or, Bytes.getLsbD_decode_encode 2 value bound]
  by_cases inside : index < 16
  · simp [inside]
  · rw [Bytes.getLsbD_decode_of_le 32 lower (by omega)]
    simp [inside]

/-- A patched lower half is the low field of the word around it. -/
theorem directRead32_directWrite16 {before after : Memory}
    {address word : Word} {value : Half} (wellFormed : before.WellFormed)
    (present : directRead32 before address = some word)
    (written : directWrite16 before (address + 2) value = some after) :
    directRead32 after address = some (word.withField 0 value) := by
  have shape := directWrite_sameShape written
  rw [directRead32_eq] at present ⊢
  obtain ⟨bytes, range, rfl⟩ := Option.map_eq_some_iff.mp present
  obtain ⟨fresh, freshRange⟩ := shape.rangeAt range
  obtain ⟨upper, lower⟩ :=
    wellFormed.rangeAt_split 2 2 (by omega) (by omega) (by omega) range
  obtain ⟨freshUpper, freshLower⟩ :=
    (shape.wellFormed wellFormed).rangeAt_split 2 2 (by omega) (by omega)
      (by omega) freshRange
  have stored := rangeAt_directWrite_self (by simp) written
  have below := wellFormed.rangeAt_le (by omega) range
  have next : (address + 2).toNat = address.toNat + 2 := by
    rw [BitVec.toNat_add, show (2 : Word).toNat = 2 from rfl]
    omega
  have kept : after.rangeAt address 2 = before.rangeAt address 2 :=
    rangeAt_directWrite_apart (by simp) (by omega) written (.inl (by omega))
  rw [Bytes.length_encode] at stored
  have sameUpper : fresh.take 2 = bytes.take 2 :=
    Option.some.inj (freshUpper.symm.trans (kept.trans upper))
  have newLower : fresh.drop 2 = Bytes.encode 2 value :=
    Option.some.inj (freshLower.symm.trans stored)
  have lowerLength : (bytes.drop 2).length = 2 := by
    rw [List.length_drop, Memory.length_of_rangeAt (by omega) range]
  rw [freshRange, Option.map_some, ← List.take_append_drop 2 fresh, sameUpper,
    newLower, decode_replaceHalf _ value lowerLength, List.take_append_drop]

end PpcLab.Loader
