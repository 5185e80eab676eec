import PpcLab.Library.CursorLayout
import PpcLab.Loader.Elf32
import PpcLab.Loader.MachO
import PpcLab.Loader.Pef

/-!
# The layout of sections

Three loaders lay sections out behind a 32-bit cursor: ELF relocatable
objects, PEF containers and Mach-O objects.  Each is an instance of the bounded
cursor layout, so its sections are in order exactly when the cursor never
reaches `2^32` with a section still to place.
-/

namespace PpcLab.Loader

open CursorLayout
open Outcome (bind_eq_ok)

/-- Clearing the low bits rounds down to a multiple of a power of two. -/
private theorem toNat_and_not_mask (word : DoubleWord) (power : Nat) :
    (word &&& ~~~(BitVec.ofNat 64 (2 ^ power - 1))).toNat =
      word.toNat / 2 ^ power * 2 ^ power := by
  have cleared : word &&& ~~~(BitVec.ofNat 64 (2 ^ power - 1)) =
      (word >>> power) <<< power := by
    apply BitVec.eq_of_getLsbD_eq
    intro index bound
    simp only [BitVec.getLsbD_and, BitVec.getLsbD_not, BitVec.getLsbD_ofNat,
      Nat.testBit_two_pow_sub_one, BitVec.getLsbD_shiftLeft,
      BitVec.getLsbD_ushiftRight, bound, decide_true, Bool.true_and]
    by_cases low : index < power
    · simp [low]
    · have position : power + (index - power) = index := by omega
      simp [low, position]
  rw [cleared, BitVec.toNat_shiftLeft, BitVec.toNat_ushiftRight,
    Nat.shiftLeft_eq, Nat.shiftRight_eq_div_pow]
  apply Nat.mod_eq_of_lt
  exact Nat.lt_of_le_of_lt (Nat.div_mul_le_self _ _) word.isLt

theorem toNat_alignUp (value : Word) {alignment : Word} {power : Nat}
    (isPower : alignment.toNat = 2 ^ power) :
    (alignUp value alignment).toNat =
      roundUp value.toNat alignment.toNat % 2 ^ 32 := by
  have positive : 0 < 2 ^ power := Nat.two_pow_pos power
  unfold alignUp
  by_cases none : alignment.toNat ≤ 1
  · have isOne : alignment.toNat = 1 := by omega
    rw [if_pos none, isOne, roundUp, Nat.div_one, Nat.mul_one,
      Nat.add_sub_cancel, Nat.mod_eq_of_lt value.isLt]
  · have valueBound := value.isLt
    have alignmentBound := alignment.isLt
    have wideValue : (value.setWidth 64 : DoubleWord).toNat = value.toNat := by
      rw [BitVec.toNat_setWidth]
      omega
    have wideAlignment :
        (alignment.setWidth 64 : DoubleWord).toNat = alignment.toNat := by
      rw [BitVec.toNat_setWidth]
      omega
    have one : (1 : DoubleWord).toNat = 1 := rfl
    have mask : (alignment.setWidth 64 - 1 : DoubleWord) =
        BitVec.ofNat 64 (2 ^ power - 1) := by
      apply BitVec.eq_of_toNat_eq
      rw [BitVec.toNat_sub, wideAlignment, one, BitVec.toNat_ofNat, ← isPower]
      omega
    have sum : (value.setWidth 64 + alignment.setWidth 64 - 1 :
        DoubleWord).toNat = value.toNat + alignment.toNat - 1 := by
      rw [BitVec.toNat_sub, BitVec.toNat_add, wideValue, wideAlignment, one]
      omega
    rw [if_neg none, BitVec.toNat_setWidth, mask,
      toNat_and_not_mask, sum, isPower, roundUp]

/-- A power of two that a word can hold divides the size of the address
space. -/
theorem placeable_of_power {size alignment : Word} {power : Nat}
    (nonempty : size ≠ 0) (isPower : alignment.toNat = 2 ^ power) :
    Placeable (2 ^ 32) ⟨size.toNat, alignment.toNat⟩ where
  nonempty := by
    apply Nat.pos_of_ne_zero
    intro zero
    exact nonempty (BitVec.eq_of_toNat_eq zero)
  positive := by
    rw [isPower]
    exact Nat.two_pow_pos power
  divides := by
    have bound := alignment.isLt
    rw [isPower] at bound ⊢
    apply Nat.pow_dvd_pow
    exact Nat.le_of_lt ((Nat.pow_lt_pow_iff_right (by omega)).mp bound)

private theorem toNat_shifted_one {power : Nat} (small : power < 31) :
    ((1 : Word) <<< power).toNat = 2 ^ power := by
  rw [BitVec.toNat_shiftLeft, Nat.shiftLeft_eq,
    show (1 : Word).toNat = 1 from rfl, Nat.one_mul]
  apply Nat.mod_eq_of_lt
  apply Nat.pow_lt_pow_right
  · omega
  · omega

/-- The size and the declared alignment of a section. -/
def elfItem (entry : Elf32.SectionInfo) : Item :=
  ⟨entry.size.toNat, (Elf32.sectionAlignment entry).toNat⟩

def pefItem (entry : Pef.SectionInfo) : Item :=
  ⟨entry.totalLength.toNat, ((1 : Word) <<< entry.alignmentPower.toNat).toNat⟩

def machOItem (entry : MachO.SectionInfo) : Item :=
  ⟨entry.size.toNat, ((1 : Word) <<< entry.alignmentPower.toNat).toNat⟩

def machOIsPlaced (entry : MachO.SectionInfo) : Bool :=
  !(entry.size == 0)

theorem elf_power {entry : Elf32.SectionInfo}
    (accepted : ((Elf32.sectionAlignment entry &&&
      (Elf32.sectionAlignment entry - 1)) != 0) = false) :
    ∃ power, (Elf32.sectionAlignment entry).toNat = 2 ^ power := by
  have positive : (Elf32.sectionAlignment entry).toNat ≠ 0 := by
    unfold Elf32.sectionAlignment
    split
    · decide
    · rename_i large
      rw [BitVec.lt_def] at large
      have : (1 : Word).toNat = 1 := rfl
      omega
  generalize Elf32.sectionAlignment entry = alignment at accepted positive
  have cleared : alignment &&& (alignment - 1) = 0 := by
    simpa using accepted
  have previous : (alignment - 1).toNat = alignment.toNat - 1 := by
    rw [BitVec.toNat_sub_of_le]
    · rfl
    · rw [BitVec.le_def]
      have : (1 : Word).toNat = 1 := rfl
      omega
  have naturals := congrArg BitVec.toNat cleared
  rw [BitVec.toNat_and, previous] at naturals
  exact (Nat.and_sub_one_eq_zero_iff_isPowerOfTwo positive).mp naturals

theorem elf_laidOut {bytes : List Byte} {cursor : Word}
    {memory after : Memory} {before result : List Elf32.SectionInfo}
    (succeeded : Elf32.mapRelFrom bytes cursor memory before =
      .ok (after, result)) :
    LaidOut Elf32.isAllocated elfItem (·.mappedAddress.toNat) (2 ^ 32)
      cursor.toNat before result := by
  induction before generalizing cursor memory after result with
  | nil =>
      cases succeeded
      exact .nil _
  | cons entry rest induction =>
      unfold Elf32.mapRelFrom at succeeded
      split at succeeded
      · rename_i absent
        obtain ⟨⟨_, tail⟩, mapped, returned⟩ := bind_eq_ok.mp succeeded
        cases returned
        exact .skip absent (induction mapped)
      rename_i present
      simp only [Bool.not_eq_false] at present
      dsimp only at succeeded
      split at succeeded
      · cases succeeded
      rename_i accepted
      obtain ⟨power, isPower⟩ := elf_power (by simpa using accepted)
      split at succeeded
      · cases succeeded
      rename_i fits
      split at succeeded
      · cases succeeded
      obtain ⟨filled, _, succeeded⟩ := bind_eq_ok.mp succeeded
      obtain ⟨⟨_, tail⟩, mapped, returned⟩ := bind_eq_ok.mp succeeded
      cases returned
      have nonempty : entry.size ≠ 0 := by
        intro empty
        simp [Elf32.isAllocated, empty] at present
      have later := induction mapped
      rw [BitVec.toNat_add] at later
      exact .place present present (placeable_of_power nonempty isPower)
        (toNat_alignUp cursor isPower) (Nat.le_of_not_lt fits) later

theorem pef_laidOut {bytes : List Byte} {cursor : Word}
    {memory after : Memory} {before result : List Pef.SectionInfo}
    (succeeded : Pef.mapFrom bytes cursor memory before =
      .ok (after, result)) :
    LaidOut Pef.isPlaced pefItem (·.mappedAddress.toNat) (2 ^ 32)
      cursor.toNat before result := by
  induction before generalizing cursor memory after result with
  | nil =>
      cases succeeded
      exact .nil _
  | cons entry rest induction =>
      unfold Pef.mapFrom at succeeded
      split at succeeded
      · rename_i absent
        obtain ⟨⟨_, tail⟩, mapped, returned⟩ := bind_eq_ok.mp succeeded
        cases returned
        exact .skip absent (induction mapped)
      rename_i present
      simp only [Bool.not_eq_false] at present
      split at succeeded
      · cases succeeded
      rename_i accepted
      have isPower := toNat_shifted_one (Nat.lt_of_not_le accepted)
      dsimp only at succeeded
      split at succeeded
      · cases succeeded
      rename_i fits
      split at succeeded
      · cases succeeded
      obtain ⟨filled, _, succeeded⟩ := bind_eq_ok.mp succeeded
      obtain ⟨⟨_, tail⟩, mapped, returned⟩ := bind_eq_ok.mp succeeded
      cases returned
      have nonempty : entry.totalLength ≠ 0 := by
        intro empty
        simp [Pef.isPlaced, empty] at present
      have later := induction mapped
      rw [BitVec.toNat_add] at later
      exact .place present present (placeable_of_power nonempty isPower)
        (toNat_alignUp cursor isPower) (Nat.le_of_not_lt fits) later

/-- A mapping that succeeded ends inside the address space. -/
private theorem mapped_fits {memory after : Memory} {base size : Word}
    {perms : MemoryPerm} {name : String}
    (mapped : memory.map base size.toNat perms name = (true, after)) :
    base.toNat + size.toNat ≤ 2 ^ 32 := by
  have small : size.toNat < 2 ^ 63 := by
    have := size.isLt
    omega
  rcases memory.map_cases base perms name small with
    refused | ⟨_, fits, _, _⟩
  · rw [refused] at mapped
    cases mapped
  · exact fits

theorem machO_laidOut {bytes : List Byte} {cursor : Word}
    {memory after : Memory} {before result : List MachO.SectionInfo}
    (succeeded : MachO.mapObject bytes cursor memory before =
      .ok (after, result)) :
    LaidOut machOIsPlaced machOItem (·.mappedAddress.toNat) (2 ^ 32)
      cursor.toNat before result := by
  induction before generalizing cursor memory after result with
  | nil =>
      cases succeeded
      exact .nil _
  | cons entry rest induction =>
      unfold MachO.mapObject at succeeded
      split at succeeded
      · rename_i empty
        obtain ⟨⟨_, tail⟩, mapped, returned⟩ := bind_eq_ok.mp succeeded
        cases returned
        exact .skip (by simp [machOIsPlaced, empty]) (induction mapped)
      rename_i nonempty
      have present : machOIsPlaced entry = true := by
        simpa [machOIsPlaced] using nonempty
      split at succeeded
      · cases succeeded
      rename_i accepted
      have isPower := toNat_shifted_one (Nat.lt_of_not_le accepted)
      dsimp only at succeeded
      split at succeeded
      · cases succeeded
      rename_i placed
      obtain ⟨⟨_, tail⟩, mapped, returned⟩ := bind_eq_ok.mp succeeded
      cases returned
      have later := induction mapped
      rw [BitVec.toNat_add] at later
      exact .place present present (placeable_of_power nonempty isPower)
        (toNat_alignUp cursor isPower) (mapped_fits placed) later

section Layouts

variable {bytes : List Byte} {memory after : Memory} {imageBase : Word}

def ElfWellPlaced (imageBase : Word)
    (before after : Elf32.ImageInfo) : Prop :=
  WellPlaced Elf32.isAllocated elfItem (·.mappedAddress.toNat) (2 ^ 32)
    imageBase.toNat before.sections after.sections

def PefWellPlaced (imageBase : Word) (before after : Pef.ImageInfo) : Prop :=
  WellPlaced Pef.isPlaced pefItem (·.mappedAddress.toNat) (2 ^ 32)
    imageBase.toNat before.sections after.sections

def MachOWellPlaced (imageBase : Word)
    (before after : MachO.ImageInfo) : Prop :=
  WellPlaced machOIsPlaced machOItem (·.mappedAddress.toNat) (2 ^ 32)
    imageBase.toNat before.sections after.sections

theorem elf_wellPlaced_iff {before result : Elf32.ImageInfo}
    (succeeded : Elf32.mapRelSections bytes memory before imageBase =
      .ok (after, result)) :
    ElfWellPlaced imageBase before result ↔
      StaysBelow Elf32.isAllocated elfItem (2 ^ 32) imageBase.toNat
        before.sections := by
  obtain ⟨⟨_, tail⟩, mapped, returned⟩ := bind_eq_ok.mp succeeded
  cases returned
  exact (elf_laidOut mapped).wellPlaced_iff imageBase.isLt

theorem pef_wellPlaced_iff {before result : Pef.ImageInfo}
    (succeeded : Pef.mapSections bytes memory before imageBase =
      .ok (after, result)) :
    PefWellPlaced imageBase before result ↔
      StaysBelow Pef.isPlaced pefItem (2 ^ 32) imageBase.toNat
        before.sections := by
  obtain ⟨⟨_, tail⟩, mapped, returned⟩ := bind_eq_ok.mp succeeded
  cases returned
  exact (pef_laidOut mapped).wellPlaced_iff imageBase.isLt

theorem machO_wellPlaced_iff {parsed : MachO.ParsedMachO}
    {before result : MachO.ImageInfo}
    (isObject : before.fileType = MachO.mhObject)
    (succeeded : MachO.mapImage parsed memory before imageBase =
      .ok (after, result)) :
    MachOWellPlaced imageBase before result ↔
      StaysBelow machOIsPlaced machOItem (2 ^ 32) imageBase.toNat
        before.sections := by
  rw [MachO.mapImage, if_pos isObject] at succeeded
  obtain ⟨⟨_, tail⟩, mapped, returned⟩ := bind_eq_ok.mp succeeded
  cases returned
  exact (machO_laidOut mapped).wellPlaced_iff imageBase.isLt

end Layouts

/-- A layout that succeeded is in order and above the image base exactly when
no section starts at `2^32` or beyond as the cursor is counted without
wrapping. -/
theorem section_layouts_in_order_iff (memory : Memory) (imageBase : Word) :
    (∀ bytes before after result,
      Elf32.mapRelSections bytes memory before imageBase =
          .ok (after, result) →
        (ElfWellPlaced imageBase before result ↔
          StaysBelow Elf32.isAllocated elfItem (2 ^ 32) imageBase.toNat
            before.sections)) ∧
      (∀ bytes before after result,
        Pef.mapSections bytes memory before imageBase =
            .ok (after, result) →
          (PefWellPlaced imageBase before result ↔
            StaysBelow Pef.isPlaced pefItem (2 ^ 32) imageBase.toNat
              before.sections)) ∧
      ∀ parsed before after result,
        before.fileType = MachO.mhObject →
        MachO.mapImage parsed memory before imageBase =
            .ok (after, result) →
          (MachOWellPlaced imageBase before result ↔
            StaysBelow machOIsPlaced machOItem (2 ^ 32) imageBase.toNat
              before.sections) := by
  refine ⟨?_, ?_, ?_⟩
  · intro bytes before after result succeeded
    exact elf_wellPlaced_iff succeeded
  · intro bytes before after result succeeded
    exact pef_wellPlaced_iff succeeded
  · intro parsed before after result isObject succeeded
    exact machO_wellPlaced_iff isObject succeeded

private def elfSection (index mappedAddress : Word) : Elf32.SectionInfo :=
  { index := index
    name := ".bss"
    type := Elf32.shtNobits
    flags := 3
    fileOffset := 0
    size := 16
    alignment := 4
    mappedAddress := mappedAddress }

private def pefSection (index mappedAddress : Word) : Pef.SectionInfo :=
  { index := index
    totalLength := 16
    unpackedLength := 0
    containerLength := 0
    containerOffset := 0
    kind := Pef.kUnpackedData
    alignmentPower := 2
    mappedAddress := mappedAddress }

private def machOSection (mappedAddress : Word) : MachO.SectionInfo :=
  { sectionName := "__bss"
    segmentName := "__DATA"
    address := 0
    size := 16
    fileOffset := 0
    alignmentPower := 2
    relocationOffset := 0
    relocationCount := 0
    flags := MachO.sZerofill
    mappedAddress := mappedAddress }

private def machOImage (loadBias first second : Word) : MachO.ImageInfo :=
  ⟨MachO.mhObject, loadBias, [], [machOSection first, machOSection second],
    []⟩

/-- All three layouts accept the two sections and put the second one at
address zero, below the image base. -/
theorem cursor_wraps_to_zero :
    (¬∀ bytes memory before imageBase after result,
      Elf32.mapRelSections bytes memory before imageBase =
          .ok (after, result) →
        ElfWellPlaced imageBase before result) ∧
      (¬∀ bytes memory before imageBase after result,
        Pef.mapSections bytes memory before imageBase =
            .ok (after, result) →
          PefWellPlaced imageBase before result) ∧
      ¬∀ parsed memory before imageBase after result,
        before.fileType = MachO.mhObject →
        MachO.mapImage parsed memory before imageBase =
            .ok (after, result) →
          MachOWellPlaced imageBase before result := by
  refine ⟨?_, ?_, ?_⟩
  · intro inOrder
    have mapped : Elf32.mapRelSections [] .empty
        ⟨0, [elfSection 1 0, elfSection 2 0]⟩ 0xfffffff0 = .ok _ := rfl
    have below := (elf_wellPlaced_iff mapped).mp (inOrder _ _ _ _ _ _ mapped)
    exact absurd (below (2 ^ 32) (by decide)) (by omega)
  · intro inOrder
    have mapped : Pef.mapSections [] .empty
        ⟨[pefSection 1 0, pefSection 2 0]⟩ 0xfffffff0 = .ok _ := rfl
    have below := (pef_wellPlaced_iff mapped).mp (inOrder _ _ _ _ _ _ mapped)
    exact absurd (below (2 ^ 32) (by decide)) (by omega)
  · intro inOrder
    have mapped : MachO.mapImage ⟨[], machOImage 0 0 0, []⟩ .empty
        (machOImage 0 0 0) 0xfffffff0 = .ok _ := rfl
    have below := (machO_wellPlaced_iff rfl mapped).mp
      (inOrder _ _ _ _ _ _ rfl mapped)
    exact absurd (below (2 ^ 32) (by decide)) (by omega)

end PpcLab.Loader
