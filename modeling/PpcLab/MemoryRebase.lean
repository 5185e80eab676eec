import PpcLab.MemoryInvariant

/-!
# Rebased memory

Rebasing a memory moves every region by the same distance.  As long as no
region runs past the end of the address space, a rebased range is found
exactly when the range was, in the same region at the same offset.
-/

namespace PpcLab

/-- The byte is one of the four from `word` on. -/
def InWord (word address : Word) : Prop :=
  (address - word).toNat < 4

theorem inWord_add_iff (delta word address : Word) :
    InWord (word + delta) (address + delta) ↔ InWord word address := by
  rw [InWord, InWord, add_sub_add_right_eq_sub]

theorem apart_of_not_inWord {word address : Word}
    (outside : ¬ InWord word address) :
    address.toNat + 1 ≤ word.toNat ∨ word.toNat + 4 ≤ address.toNat := by
  by_cases below : address.toNat < word.toNat
  · exact .inl below
  · have difference : (address - word).toNat = address.toNat - word.toNat :=
      BitVec.toNat_sub_of_le (Nat.le_of_not_gt below)
    rw [InWord, difference] at outside
    exact .inr (by omega)

namespace MemoryRegion

def rebase (delta : Word) (region : MemoryRegion) : MemoryRegion :=
  { region with base := region.base + delta }

theorem rebase_sameShape {before after : MemoryRegion}
    (same : SameShape before after) (delta : Word) :
    SameShape (before.rebase delta) (after.rebase delta) := by
  obtain ⟨base, length, perms, name⟩ := same
  constructor
  · simp only [rebase, base]
  · exact length
  · exact perms
  · exact name

theorem rebase_offset (region : MemoryRegion) (delta address : Word) :
    (region.rebase delta).offset (address + delta) =
      region.offset address := by
  rw [offset, offset, rebase, add_sub_add_right_eq_sub]

/-- A region that ends inside the address space covers a range by its
offset alone. -/
theorem covers_iff_offset {region : MemoryRegion} {address : Word}
    {size : Nat} (bounded : region.endExclusive ≤ 2 ^ 32)
    (positive : 0 < size) (small : size < 2 ^ 63) :
    region.covers address size = true ↔
      region.offset address + size ≤ region.bytes.length := by
  rw [covers_iff small]
  unfold endExclusive at bounded ⊢
  by_cases lower : region.base.toNat ≤ address.toNat
  · rw [offset_eq lower]
    omega
  · have wrapped : region.offset address =
        2 ^ 32 - region.base.toNat + address.toNat := by
      rw [offset, BitVec.toNat_sub]
      have := region.base.isLt
      omega
    omega

theorem rebase_covers {region : MemoryRegion} {delta : Word} {size : Nat}
    (bounded : region.endExclusive ≤ 2 ^ 32)
    (rebasedBounded : (region.rebase delta).endExclusive ≤ 2 ^ 32)
    (address : Word) (positive : 0 < size) (small : size < 2 ^ 63) :
    (region.rebase delta).covers (address + delta) size =
      region.covers address size := by
  rw [Bool.eq_iff_iff, covers_iff_offset bounded positive small,
    covers_iff_offset rebasedBounded positive small, rebase_offset]
  rfl

end MemoryRegion

namespace Memory

def rebase (delta : Word) (memory : Memory) : Memory :=
  ⟨memory.regions.map (·.rebase delta)⟩

theorem SameShape.rebase {before after : Memory}
    (same : SameShape before after) (delta : Word) :
    SameShape (before.rebase delta) (after.rebase delta) := by
  obtain ⟨beforeRegions⟩ := before
  obtain ⟨afterRegions⟩ := after
  simp only [SameShape, Memory.rebase] at same ⊢
  induction same with
  | nil => exact .nil
  | cons head _ induction =>
      exact .cons (MemoryRegion.rebase_sameShape head delta) induction

/-- A rebased lookup finds the same region, rebased. -/
theorem WellFormed.find_rebase {memory : Memory} {delta : Word}
    (wellFormed : memory.WellFormed)
    (rebased : (memory.rebase delta).WellFormed) (address : Word)
    {size : Nat} (positive : 0 < size) (small : size < 2 ^ 63) :
    (memory.rebase delta).find (address + delta) size =
      (memory.find address size).map (·.rebase delta) := by
  obtain ⟨-, -, bounded⟩ := wellFormed
  obtain ⟨-, -, rebasedBounded⟩ := rebased
  obtain ⟨regions⟩ := memory
  simp only [find, Memory.rebase] at bounded rebasedBounded ⊢
  induction regions with
  | nil => rfl
  | cons region regions induction =>
      have covers := MemoryRegion.rebase_covers
        (bounded region List.mem_cons_self)
        (rebasedBounded (region.rebase delta) (by simp)) address positive small
      rw [List.map_cons, List.find?_cons, List.find?_cons, covers]
      cases region.covers address size with
      | true => rfl
      | false =>
          apply induction
          · intro other member
            exact bounded other (List.mem_cons_of_mem _ member)
          · intro other member
            exact rebasedBounded other (List.mem_cons_of_mem _ member)

theorem WellFormed.rangeAt_rebase {memory : Memory} {delta : Word}
    (wellFormed : memory.WellFormed)
    (rebased : (memory.rebase delta).WellFormed) (address : Word)
    {count : Nat} (positive : 0 < count) (small : count < 2 ^ 63) :
    (memory.rebase delta).rangeAt (address + delta) count =
      memory.rangeAt address count := by
  rw [rangeAt, rangeAt, wellFormed.find_rebase rebased address positive small]
  cases memory.find address count with
  | none => rfl
  | some region =>
      simp only [Option.map_some, MemoryRegion.rebase_offset]
      rfl

/-- The word lies inside one region, at a multiple of four from its start. -/
def WordAligned (memory : Memory) (address : Word) : Prop :=
  ∃ region ∈ memory.regions,
    region.covers address 4 = true ∧ region.offset address % 4 = 0

theorem SameShape.wordAligned {before after : Memory}
    (same : SameShape before after) {address : Word}
    (aligned : before.WordAligned address) : after.WordAligned address := by
  obtain ⟨region, member, covered, multiple⟩ := aligned
  obtain ⟨index, bound, rfl⟩ := List.getElem_of_mem member
  have afterBound : index < after.regions.length := by
    rwa [← same.length_eq]
  have shape := same.get bound afterBound
  refine ⟨after.regions[index], List.getElem_mem afterBound, ?_, ?_⟩
  · exact (shape.covers address 4).trans covered
  · exact (congrArg (· % 4) (shape.offset address)).trans multiple

theorem WellFormed.wordAligned_rebase {memory : Memory} {delta : Word}
    (wellFormed : memory.WellFormed)
    (rebased : (memory.rebase delta).WellFormed) {address : Word}
    (aligned : memory.WordAligned address) :
    (memory.rebase delta).WordAligned (address + delta) := by
  obtain ⟨region, member, covered, multiple⟩ := aligned
  have rebasedMember : region.rebase delta ∈ (memory.rebase delta).regions :=
    List.mem_map_of_mem member
  refine ⟨region.rebase delta, rebasedMember, ?_, ?_⟩
  · rw [MemoryRegion.rebase_covers (wellFormed.bounded region member)
      (rebased.bounded _ rebasedMember) address (by omega) (by omega)]
    exact covered
  · rw [MemoryRegion.rebase_offset]
    exact multiple

/-- Two different aligned words do not overlap. -/
theorem WellFormed.wordAligned_apart {memory : Memory}
    (wellFormed : memory.WellFormed) {first second : Word}
    (firstAligned : memory.WordAligned first)
    (secondAligned : memory.WordAligned second) (different : first ≠ second) :
    first.toNat + 4 ≤ second.toNat ∨ second.toNat + 4 ≤ first.toNat := by
  obtain ⟨left, leftMember, leftCovers, leftMultiple⟩ := firstAligned
  obtain ⟨right, rightMember, rightCovers, rightMultiple⟩ := secondAligned
  obtain ⟨leftLower, leftUpper⟩ :=
    (MemoryRegion.covers_iff (by omega)).mp leftCovers
  obtain ⟨rightLower, rightUpper⟩ :=
    (MemoryRegion.covers_iff (by omega)).mp rightCovers
  obtain ⟨i, iBound, rfl⟩ := List.getElem_of_mem leftMember
  obtain ⟨j, jBound, rfl⟩ := List.getElem_of_mem rightMember
  have ordered := List.pairwise_iff_getElem.mp wellFormed.ordered
  rcases Nat.lt_trichotomy i j with before | same | after
  · have := ordered i j iBound jBound before
    omega
  · subst same
    rw [MemoryRegion.offset_eq leftLower] at leftMultiple
    rw [MemoryRegion.offset_eq rightLower] at rightMultiple
    have apart : first.toNat ≠ second.toNat := by
      intro equal
      exact different (BitVec.eq_of_toNat_eq equal)
    omega
  · have := ordered j i jBound iBound after
    omega

end Memory

end PpcLab
