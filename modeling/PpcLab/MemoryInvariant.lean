import PpcLab.Memory

/-!
# What a store can change

A store assigns new bytes to the one region `find` selected.  It keeps the
list of regions, their bases, sizes, permissions and names, and it reaches
only a region with write permission.  Both facts are reflexive and transitive,
so they extend from one store to whole runs without assuming anything about
how the regions lie.

Mapping keeps the regions sorted, non-empty, disjoint and inside the 32-bit
address space, and stores never move them.  On such a memory every address
belongs to at most one region, so the region list denotes a partial function
from addresses to bytes, and a successful store is an update of that function
on the range written.
-/

namespace PpcLab

namespace MemoryRegion

/-- Equal up to the values of the bytes. -/
structure SameShape (before after : MemoryRegion) : Prop where
  base : after.base = before.base
  length : after.bytes.length = before.bytes.length
  perms : after.perms = before.perms
  name : after.name = before.name

namespace SameShape

theorem refl (region : MemoryRegion) : SameShape region region :=
  ⟨rfl, rfl, rfl, rfl⟩

theorem trans {first second third : MemoryRegion}
    (left : SameShape first second) (right : SameShape second third) :
    SameShape first third :=
  ⟨right.base.trans left.base, right.length.trans left.length,
    right.perms.trans left.perms, right.name.trans left.name⟩

theorem symm {first second : MemoryRegion} (same : SameShape first second) :
    SameShape second first :=
  ⟨same.base.symm, same.length.symm, same.perms.symm, same.name.symm⟩

theorem endExclusive {before after : MemoryRegion}
    (same : SameShape before after) :
    after.endExclusive = before.endExclusive := by
  simp [MemoryRegion.endExclusive, same.base, same.length]

theorem covers {before after : MemoryRegion}
    (same : SameShape before after) (address : Word) (size : Nat) :
    after.covers address size = before.covers address size := by
  simp [MemoryRegion.covers, same.base, same.endExclusive]

theorem offset {before after : MemoryRegion}
    (same : SameShape before after) (address : Word) :
    after.offset address = before.offset address := by
  simp [MemoryRegion.offset, same.base]

end SameShape

theorem copyIn_sameShape (region : MemoryRegion) (address : Word)
    (bytes : List Byte) :
    SameShape region (region.copyIn address bytes) :=
  ⟨rfl, by simp [copyIn], rfl, rfl⟩

/-- Equal up to the bytes of a writable region. -/
structure WriteProtected (before after : MemoryRegion) : Prop where
  shape : SameShape before after
  bytes : hasPerm before.perms .write = false → after.bytes = before.bytes

namespace WriteProtected

theorem refl (region : MemoryRegion) : WriteProtected region region :=
  ⟨.refl region, fun _ => rfl⟩

theorem trans {first second third : MemoryRegion}
    (left : WriteProtected first second)
    (right : WriteProtected second third) :
    WriteProtected first third := by
  refine ⟨left.shape.trans right.shape, ?_⟩
  intro protectedRegion
  have stillProtected : hasPerm second.perms .write = false := by
    rw [left.shape.perms]
    exact protectedRegion
  rw [right.bytes stillProtected, left.bytes protectedRegion]

end WriteProtected

end MemoryRegion

namespace Memory

variable {memory before after : Memory} {region fresh : MemoryRegion}
  {address : Word} {size : Nat} {bytes : List Byte}

theorem find_eq_getElem? (memory : Memory) (address : Word) (size : Nat) :
    memory.find address size =
      memory.regions[memory.findIndex address size]? := by
  exact List.find?_eq_getElem?_findIdx

theorem covers_of_find (found : memory.find address size = some region) :
    region.covers address size = true := by
  have selected := List.find?_some
    (p := fun candidate : MemoryRegion => candidate.covers address size) found
  exact selected

theorem mem_of_find (found : memory.find address size = some region) :
    region ∈ memory.regions := by
  unfold find at found
  exact List.mem_of_find?_eq_some found

/-- The two memories have the same regions, up to the values of bytes. -/
def SameShape (before after : Memory) : Prop :=
  List.Forall₂ MemoryRegion.SameShape before.regions after.regions

/-- The two memories have the same regions, up to the bytes of writable
ones. -/
def WriteProtected (before after : Memory) : Prop :=
  List.Forall₂ MemoryRegion.WriteProtected before.regions after.regions

private theorem forall₂_trans {α : Type} {relation : α → α → Prop}
    {first second third : List α}
    (left : List.Forall₂ relation first second)
    (right : List.Forall₂ relation second third)
    (transitive : ∀ first second third,
      relation first second → relation second third → relation first third) :
    List.Forall₂ relation first third := by
  induction left generalizing third with
  | nil => exact right
  | cons head _ induction =>
      cases right with
      | cons otherHead otherTail =>
          exact .cons (transitive _ _ _ head otherHead) (induction otherTail)

private theorem forall₂_set {α : Type} {relation : α → α → Prop}
    (reflexive : ∀ item, relation item item)
    {items : List α} {index : Nat} {old fresh : α}
    (present : items[index]? = some old) (related : relation old fresh) :
    List.Forall₂ relation items (items.set index fresh) := by
  induction items generalizing index with
  | nil => simp at present
  | cons item items induction =>
      cases index with
      | zero =>
          simp only [List.getElem?_cons_zero, Option.some.injEq] at present
          subst present
          exact .cons related (List.forall₂_same.mpr fun item _ => reflexive item)
      | succ index =>
          simp only [List.getElem?_cons_succ] at present
          exact .cons (reflexive item) (induction present)

theorem SameShape.refl (memory : Memory) : SameShape memory memory :=
  List.forall₂_same.mpr fun region _ => .refl region

theorem SameShape.trans {first second third : Memory}
    (left : SameShape first second) (right : SameShape second third) :
    SameShape first third :=
  forall₂_trans left right fun _ _ _ => MemoryRegion.SameShape.trans

theorem SameShape.symm {first second : Memory}
    (same : SameShape first second) : SameShape second first :=
  (same.imp fun _ _ region => region.symm).flip

theorem WriteProtected.refl (memory : Memory) :
    WriteProtected memory memory :=
  List.forall₂_same.mpr fun region _ => .refl region

theorem WriteProtected.trans {first second third : Memory}
    (left : WriteProtected first second)
    (right : WriteProtected second third) : WriteProtected first third :=
  forall₂_trans left right fun _ _ _ => MemoryRegion.WriteProtected.trans

theorem assignFound_sameShape (found : memory.find address size = some region)
    (same : MemoryRegion.SameShape region fresh) :
    SameShape memory (memory.assignFound address size fresh) := by
  rw [find_eq_getElem?] at found
  exact forall₂_set MemoryRegion.SameShape.refl found same

theorem assignFound_writeProtected
    (found : memory.find address size = some region)
    (same : MemoryRegion.SameShape region fresh)
    (permitted : hasPerm region.perms .write = true) :
    WriteProtected memory (memory.assignFound address size fresh) := by
  rw [find_eq_getElem?] at found
  refine forall₂_set MemoryRegion.WriteProtected.refl found ⟨same, ?_⟩
  intro protectedRegion
  rw [permitted] at protectedRegion
  contradiction

/-- A store that succeeds assigned to a writable region that `find`
selected; a store that fails left memory alone. -/
theorem writeBytes_cases (memory : Memory) (address : Word)
    (bytes : List Byte) :
    memory.writeBytes address bytes = (false, memory) ∨
      ∃ region, memory.find address bytes.length = some region ∧
        hasPerm region.perms .write = true ∧
        memory.writeBytes address bytes =
          (true, memory.assignFound address bytes.length
            (region.copyIn address bytes)) := by
  unfold writeBytes
  cases found : memory.find address bytes.length with
  | none => exact .inl rfl
  | some region =>
      by_cases permitted : hasPerm region.perms .write = true
      · exact .inr ⟨region, rfl, permitted, by simp [permitted]⟩
      · exact .inl (by simp [permitted])

theorem writeBytes_of_false
    (failed : (memory.writeBytes address bytes).1 = false) :
    (memory.writeBytes address bytes).2 = memory := by
  rcases memory.writeBytes_cases address bytes with
    unchanged | ⟨region, _, _, written⟩
  · rw [unchanged]
  · rw [written] at failed
    contradiction

theorem writeBytes_writeProtected (memory : Memory) (address : Word)
    (bytes : List Byte) :
    WriteProtected memory (memory.writeBytes address bytes).2 := by
  rcases memory.writeBytes_cases address bytes with
    unchanged | ⟨region, found, permitted, written⟩
  · rw [unchanged]
    exact .refl memory
  · rw [written]
    exact assignFound_writeProtected found
      (region.copyIn_sameShape address bytes) permitted

theorem set_eq_overwrite {α : Type} (items : List α) (index : Nat)
    (value : α) :
    items.set index value = Bytes.overwrite items index [value] := by
  apply List.ext_getElem?
  intro position
  rw [Bytes.getElem?_overwrite, List.getElem?_set']
  by_cases here : index = position
  · subst here
    cases items[index]? <;> simp
  · by_cases after : index ≤ position
    · obtain ⟨gap, equality⟩ : ∃ gap, position - index = gap + 1 :=
        ⟨position - index - 1, by omega⟩
      simp [here, after, equality]
    · simp [here, after]

/-- The byte store is the one-byte case of `writeBytes`. -/
theorem write8_eq_writeBytes (memory : Memory) (address : Word)
    (value : Byte) :
    memory.write8 address value = memory.writeBytes address [value] := by
  simp [write8, writeBytes, MemoryRegion.copyIn, set_eq_overwrite]

end Memory

namespace MemoryRegion

/-- The addresses a region holds. -/
def Holds (region : MemoryRegion) (address : Word) : Prop :=
  region.base.toNat ≤ address.toNat ∧ address.toNat < region.endExclusive

theorem covers_iff {region : MemoryRegion} {address : Word} {size : Nat}
    (small : size < 2 ^ 63) :
    region.covers address size = true ↔
      region.base.toNat ≤ address.toNat ∧
        address.toNat + size ≤ region.endExclusive := by
  have noWrap : (address.toNat + size) % 2 ^ 64 = address.toNat + size := by
    apply Nat.mod_eq_of_lt
    have := address.isLt
    omega
  rw [covers, noWrap]
  simp

theorem offset_eq {region : MemoryRegion} {address : Word}
    (lower : region.base.toNat ≤ address.toNat) :
    region.offset address = address.toNat - region.base.toNat := by
  exact BitVec.toNat_sub_of_le lower

theorem holds_of_covers {region : MemoryRegion} {address : Word} {size : Nat}
    (small : size < 2 ^ 63) (positive : 0 < size)
    (covered : region.covers address size = true) : region.Holds address := by
  obtain ⟨lower, upper⟩ := (covers_iff small).mp covered
  exact ⟨lower, by omega⟩

theorem covers_one_iff {region : MemoryRegion} {address : Word} :
    region.covers address 1 = true ↔ region.Holds address := by
  rw [covers_iff (by omega)]
  simp only [Holds]
  omega

end MemoryRegion

namespace Memory

variable {memory before after : Memory} {region fresh : MemoryRegion}
  {address : Word} {size : Nat} {bytes : List Byte}

/-- The regions are sorted and disjoint, each holds at least one byte, and all
lie below `2^32`. -/
structure WellFormed (memory : Memory) : Prop where
  ordered : memory.regions.Pairwise fun left right =>
    left.endExclusive ≤ right.base.toNat
  nonempty : ∀ region ∈ memory.regions, region.bytes ≠ []
  bounded : ∀ region ∈ memory.regions, region.endExclusive ≤ 2 ^ 32

theorem empty_wellFormed : WellFormed empty :=
  ⟨.nil, by simp [empty], by simp [empty]⟩

namespace WellFormed

/-- An address lies in at most one region. -/
theorem region_unique (wellFormed : memory.WellFormed)
    {first second : MemoryRegion} (firstMember : first ∈ memory.regions)
    (secondMember : second ∈ memory.regions) (inFirst : first.Holds address)
    (inSecond : second.Holds address) :
    first = second := by
  obtain ⟨i, iBound, rfl⟩ := List.getElem_of_mem firstMember
  obtain ⟨j, jBound, rfl⟩ := List.getElem_of_mem secondMember
  have ordered := List.pairwise_iff_getElem.mp wellFormed.ordered
  unfold MemoryRegion.Holds at inFirst inSecond
  rcases Nat.lt_trichotomy i j with before | same | after
  · have := ordered i j iBound jBound before
    omega
  · subst same
    rfl
  · have := ordered j i jBound iBound after
    omega

/-- `find` returns the region that covers a non-empty range. -/
theorem find_eq_some (wellFormed : memory.WellFormed)
    (member : region ∈ memory.regions) (positive : 0 < size)
    (small : size < 2 ^ 63) (covered : region.covers address size = true) :
    memory.find address size = some region := by
  cases found : memory.find address size with
  | none =>
      have absent := List.find?_eq_none.mp found region member
      contradiction
  | some other =>
      rw [wellFormed.region_unique (mem_of_find found) member
        (MemoryRegion.holds_of_covers small positive (covers_of_find found))
        (MemoryRegion.holds_of_covers small positive covered)]

end WellFormed

theorem SameShape.wellFormed (same : SameShape before after)
    (wellFormed : before.WellFormed) :
    after.WellFormed := by
  obtain ⟨ordered, nonempty, bounded⟩ := wellFormed
  obtain ⟨afterRegions⟩ := after
  obtain ⟨beforeRegions⟩ := before
  simp only [SameShape] at same ordered nonempty bounded
  induction same with
  | nil => exact empty_wellFormed
  | @cons region fresh regions freshRegions head tail induction =>
      rw [List.pairwise_cons] at ordered
      obtain ⟨tailOrdered, tailNonempty, tailBounded⟩ :=
        induction ordered.2
          (fun other member => nonempty other (List.mem_cons_of_mem _ member))
          (fun other member => bounded other (List.mem_cons_of_mem _ member))
      have freshNonempty : fresh.bytes ≠ [] := by
        have := nonempty region List.mem_cons_self
        rw [← List.length_pos_iff] at this ⊢
        rwa [head.length]
      have freshBounded : fresh.endExclusive ≤ 2 ^ 32 := by
        rw [head.endExclusive]
        exact bounded region List.mem_cons_self
      refine ⟨List.pairwise_cons.mpr ⟨?_, tailOrdered⟩, ?_, ?_⟩
      · intro other member
        obtain ⟨index, bound, rfl⟩ := List.getElem_of_mem member
        have oldBound : index < regions.length := by
          rwa [tail.length_eq]
        have shape := tail.get oldBound bound
        simp only [List.get_eq_getElem] at shape
        rw [head.endExclusive, shape.base]
        exact ordered.1 _ (List.getElem_mem oldBound)
      · intro other member
        rcases List.mem_cons.mp member with rfl | later
        · exact freshNonempty
        · exact tailNonempty other later
      · intro other member
        rcases List.mem_cons.mp member with rfl | later
        · exact freshBounded
        · exact tailBounded other later

theorem SameShape.findIndex (same : SameShape before after) (address : Word)
    (size : Nat) :
    after.findIndex address size = before.findIndex address size := by
  obtain ⟨afterRegions⟩ := after
  obtain ⟨beforeRegions⟩ := before
  simp only [SameShape, Memory.findIndex] at same ⊢
  induction same with
  | nil => rfl
  | cons head _ induction =>
      simp [List.findIdx_cons, head.covers, induction]

theorem WriteProtected.sameShape (kept : WriteProtected before after) :
    SameShape before after :=
  List.Forall₂.imp (fun _ _ region => region.shape) kept

/-- No region is writable and executable. -/
def WriteXorExecute (memory : Memory) : Prop :=
  ∀ region ∈ memory.regions, hasPerm region.perms .execute = true →
    hasPerm region.perms .write = false

/-- What is executable is found as it was. -/
theorem WriteProtected.find_executable (kept : before.WriteProtected after)
    (apart : before.WriteXorExecute)
    (found : after.find address size = some region)
    (executable : hasPerm region.perms .execute = true) :
    ∃ old, before.find address size = some old ∧
      old.base = region.base ∧ old.perms = region.perms ∧
      old.bytes = region.bytes := by
  rw [find_eq_getElem?, kept.sameShape.findIndex] at found
  obtain ⟨bound, same⟩ := List.getElem?_eq_some_iff.mp found
  have length : before.regions.length = after.regions.length :=
    List.Forall₂.length_eq kept
  have present := List.getElem?_eq_getElem (length.symm ▸ bound)
  have related := List.Forall₂.get kept (length.symm ▸ bound) bound
  simp only [List.get_eq_getElem, same] at related
  refine ⟨_, (find_eq_getElem? before address size).trans present,
    related.shape.base.symm, related.shape.perms.symm, ?_⟩
  apply Eq.symm
  apply related.bytes
  apply apart _ (List.mem_of_getElem? present)
  rw [← related.shape.perms]
  exact executable

/-- Looking the assigned range up again finds the fresh region. -/
theorem find_assignFound_self (found : memory.find address size = some region)
    (same : MemoryRegion.SameShape region fresh) :
    (memory.assignFound address size fresh).find address size =
      some fresh := by
  have index := (assignFound_sameShape found same).findIndex address size
  rw [find_eq_getElem?] at found ⊢
  rw [index]
  have bound := (List.getElem?_eq_some_iff.mp found).1
  simp [assignFound, bound]

/-- Any other lookup finds what it found before, or the fresh region. -/
theorem find_assignFound (found : memory.find address size = some region)
    (same : MemoryRegion.SameShape region fresh) (other : Word) (count : Nat) :
    (memory.assignFound address size fresh).find other count =
      if memory.findIndex other count = memory.findIndex address size then
        some fresh
      else memory.find other count := by
  have index := (assignFound_sameShape found same).findIndex other count
  rw [find_eq_getElem?] at found
  have bound := (List.getElem?_eq_some_iff.mp found).1
  rw [find_eq_getElem?, find_eq_getElem?, index]
  by_cases hit :
      memory.findIndex other count = memory.findIndex address size
  · rw [if_pos hit, hit]
    simp [assignFound, bound]
  · rw [if_neg hit]
    simp [assignFound, List.getElem?_set_ne (Ne.symm hit)]

/-- The byte at an address, whatever the permissions of its region. -/
def byteAt (memory : Memory) (address : Word) : Option Byte :=
  (memory.find address 1).bind fun region =>
    region.bytes[region.offset address]?

private theorem offset_add_le (small : size < 2 ^ 63)
    (covered : region.covers address size = true) :
    region.offset address + size ≤ region.bytes.length := by
  obtain ⟨lower, upper⟩ := (MemoryRegion.covers_iff small).mp covered
  rw [MemoryRegion.offset_eq lower]
  unfold MemoryRegion.endExclusive at upper
  omega

/-- Reading a range back from a readable region after a successful store. -/
theorem readBytes_writeBytes (small : bytes.length < 2 ^ 63)
    (stored : (memory.writeBytes address bytes).1 = true)
    (permitted : memory.readable address bytes.length = true) :
    (memory.writeBytes address bytes).2.readBytes address bytes.length =
      some bytes := by
  rcases memory.writeBytes_cases address bytes with
    failed | ⟨region, found, _, written⟩
  · rw [failed] at stored
    contradiction
  · have shape := region.copyIn_sameShape address bytes
    have readBit : hasPerm region.perms .read = true := by
      simpa [readable, found] using permitted
    have fits := offset_add_le small (covers_of_find found)
    rw [written, readBytes, find_assignFound_self found shape]
    simp only [shape.perms, readBit, if_true, shape.offset]
    rw [MemoryRegion.copyIn, Bytes.slice_overwrite_self fits]

/-- A store leaves every byte outside the range written alone. -/
theorem byteAt_writeBytes_outside (small : bytes.length < 2 ^ 63) {other : Word}
    (outside : other.toNat < address.toNat ∨
      address.toNat + bytes.length ≤ other.toNat) :
    (memory.writeBytes address bytes).2.byteAt other =
      memory.byteAt other := by
  rcases memory.writeBytes_cases address bytes with
    failed | ⟨region, found, _, written⟩
  · rw [failed]
  · have shape := region.copyIn_sameShape address bytes
    rw [written]
    unfold byteAt
    rw [find_assignFound found shape]
    by_cases hit : memory.findIndex other 1 =
        memory.findIndex address bytes.length
    · have otherFound : memory.find other 1 = some region := by
        rw [find_eq_getElem?, hit, ← find_eq_getElem?]
        exact found
      have holds := MemoryRegion.covers_one_iff.mp (covers_of_find otherFound)
      obtain ⟨lower, _⟩ :=
        (MemoryRegion.covers_iff small).mp (covers_of_find found)
      rw [if_pos hit, otherFound]
      rw [Option.bind_some, Option.bind_some, shape.offset]
      apply Bytes.getElem?_overwrite_outside
      rw [MemoryRegion.offset_eq lower, MemoryRegion.offset_eq holds.1]
      have := holds.1
      omega
    · rw [if_neg hit]

/-- Inside the range written a store defines the bytes. -/
theorem byteAt_writeBytes_inside (wellFormed : memory.WellFormed)
    (small : bytes.length < 2 ^ 63)
    (stored : (memory.writeBytes address bytes).1 = true) {other : Word}
    (lower : address.toNat ≤ other.toNat)
    (upper : other.toNat < address.toNat + bytes.length) :
    (memory.writeBytes address bytes).2.byteAt other =
      bytes[other.toNat - address.toNat]? := by
  rcases memory.writeBytes_cases address bytes with
    failed | ⟨region, found, _, written⟩
  · rw [failed] at stored
    contradiction
  · have shape := region.copyIn_sameShape address bytes
    obtain ⟨regionLower, regionUpper⟩ :=
      (MemoryRegion.covers_iff small).mp (covers_of_find found)
    have holds : (region.copyIn address bytes).Holds other := by
      unfold MemoryRegion.Holds
      rw [shape.base, shape.endExclusive]
      omega
    have otherFound :
        (memory.assignFound address bytes.length
          (region.copyIn address bytes)).find other 1 =
          some (region.copyIn address bytes) :=
      ((assignFound_sameShape found shape).wellFormed wellFormed).find_eq_some
        (mem_of_find (find_assignFound_self found shape)) Nat.one_pos
        (by omega) (MemoryRegion.covers_one_iff.mpr holds)
    have fits := offset_add_le small (covers_of_find found)
    rw [MemoryRegion.offset_eq regionLower] at fits
    have position : region.offset other =
        region.offset address + (other.toNat - address.toNat) := by
      rw [MemoryRegion.offset_eq regionLower,
        MemoryRegion.offset_eq (by omega)]
      omega
    rw [written, byteAt, otherFound]
    rw [Option.bind_some, shape.offset, position]
    exact Bytes.getElem?_overwrite_inside
      (by rwa [MemoryRegion.offset_eq regionLower]) (by omega)

private theorem decode_readBytes_writeBytes (count : Nat)
    (value : BitVec (8 * count)) (small : count < 2 ^ 63)
    (stored : (memory.writeBytes address (Bytes.encode count value)).1 = true)
    (permitted : memory.readable address count = true) :
    ((memory.writeBytes address (Bytes.encode count value)).2.readBytes
        address count).map (Bytes.decode (8 * count)) = some value := by
  have length := Bytes.length_encode count value
  have read := readBytes_writeBytes (by rwa [length]) stored
    (by rwa [length])
  rw [length] at read
  rw [read, Option.map_some, Bytes.decode_encode]

theorem read16_write16 {value : Half}
    (stored : (memory.write16 address value).1 = true)
    (permitted : memory.readable address 2 = true) :
    (memory.write16 address value).2.read16 address = some value :=
  decode_readBytes_writeBytes 2 value (by omega) stored permitted

theorem read32_write32 {value : Word}
    (stored : (memory.write32 address value).1 = true)
    (permitted : memory.readable address 4 = true) :
    (memory.write32 address value).2.read32 address = some value :=
  decode_readBytes_writeBytes 4 value (by omega) stored permitted

theorem read64_write64 {value : DoubleWord}
    (stored : (memory.write64 address value).1 = true)
    (permitted : memory.readable address 8 = true) :
    (memory.write64 address value).2.read64 address = some value :=
  decode_readBytes_writeBytes 8 value (by omega) stored permitted

/-- The byte load is the one-byte case of `readBytes`. -/
theorem readBytes_one (memory : Memory) (address : Word) :
    memory.readBytes address 1 =
      (memory.read8 address).map fun byte => [byte] := by
  unfold readBytes read8
  cases found : memory.find address 1 with
  | none => rfl
  | some region =>
      have fits := offset_add_le (by omega) (covers_of_find found)
      have bound : region.offset address < region.bytes.length := by omega
      by_cases permitted : hasPerm region.perms .read = true
      · simp only [permitted, if_true, List.getElem?_eq_getElem bound,
          Option.map_some, Bytes.slice]
        rw [List.drop_eq_getElem_cons bound, List.take_succ_cons,
          List.take_zero]
      · simp [permitted]

theorem read8_write8 {value : Byte}
    (stored : (memory.write8 address value).1 = true)
    (permitted : memory.readable address 1 = true) :
    (memory.write8 address value).2.read8 address = some value := by
  rw [write8_eq_writeBytes] at stored ⊢
  have single : [value].length < 2 ^ 63 := by simp
  have read := readBytes_writeBytes single stored permitted
  rw [List.length_singleton, readBytes_one] at read
  cases loaded :
      (memory.writeBytes address [value]).2.read8 address with
  | none => simp [loaded] at read
  | some byte => simpa [loaded] using read

/-- The bytes of a range that lies in one region, whatever its permissions. -/
def rangeAt (memory : Memory) (address : Word) (count : Nat) :
    Option (List Byte) :=
  (memory.find address count).map fun region =>
    Bytes.slice region.bytes (region.offset address) count

theorem SameShape.find (same : SameShape before after) (address : Word)
    (size : Nat) :
    Option.Rel MemoryRegion.SameShape (before.find address size)
      (after.find address size) := by
  obtain ⟨afterRegions⟩ := after
  obtain ⟨beforeRegions⟩ := before
  simp only [SameShape, Memory.find] at same ⊢
  induction same with
  | nil => exact .none
  | @cons region fresh _ _ head _ induction =>
      rw [List.find?_cons, List.find?_cons, head.covers]
      cases region.covers address size with
      | true => exact .some head
      | false => exact induction

theorem SameShape.permits (same : SameShape before after) (address : Word)
    (size : Nat) (flag : MemoryPerm) :
    (after.find address size).any (fun region => hasPerm region.perms flag) =
      (before.find address size).any
        (fun region => hasPerm region.perms flag) := by
  have related := same.find address size
  generalize before.find address size = old at related
  generalize after.find address size = fresh at related
  cases related with
  | none => rfl
  | some shape => simp [shape.perms]

/-- A range lies in one region after the change when it did before. -/
theorem SameShape.rangeAt (same : SameShape before after) {count : Nat}
    (present : before.rangeAt address count = some bytes) :
    ∃ fresh, after.rangeAt address count = some fresh := by
  obtain ⟨region, found, _⟩ := Option.map_eq_some_iff.mp present
  have related := same.find address count
  rw [found] at related
  unfold Memory.rangeAt
  generalize after.find address count = other at related
  cases related with
  | some shape => exact ⟨_, rfl⟩

theorem SameShape.writable (same : SameShape before after) (address : Word)
    (size : Nat) :
    after.writable address size = before.writable address size :=
  same.permits address size .write

theorem SameShape.readable (same : SameShape before after) (address : Word)
    (size : Nat) :
    after.readable address size = before.readable address size :=
  same.permits address size .read

theorem SameShape.executable (same : SameShape before after) (address : Word)
    (size : Nat) :
    after.executable address size = before.executable address size :=
  same.permits address size .execute

theorem writeBytes_fst (memory : Memory) (address : Word)
    (bytes : List Byte) :
    (memory.writeBytes address bytes).1 =
      memory.writable address bytes.length := by
  unfold writeBytes writable
  cases memory.find address bytes.length with
  | none => rfl
  | some region =>
      by_cases permitted : hasPerm region.perms .write = true
      · simp [permitted]
      · simp [permitted]

private theorem assignFound_eq_self_iff
    (found : memory.find address size = some region) :
    memory.assignFound address size fresh = memory ↔ fresh = region := by
  rw [find_eq_getElem?] at found
  obtain ⟨bound, present⟩ := List.getElem?_eq_some_iff.mp found
  obtain ⟨regions⟩ := memory
  unfold assignFound
  rw [Memory.mk.injEq]
  constructor
  · intro same
    have equal := congrArg
      (fun items => items[findIndex ⟨regions⟩ address size]?) same
    simp only [List.getElem?_set_self bound] at equal
    exact Option.some.inj (equal.trans found)
  · rintro rfl
    rw [← present]
    exact List.set_getElem_self bound

theorem writeBytes_eq_self_iff (memory : Memory) (address : Word)
    (small : bytes.length < 2 ^ 63) :
    memory.writeBytes address bytes = (true, memory) ↔
      memory.writable address bytes.length = true ∧
        memory.rangeAt address bytes.length = some bytes := by
  unfold writeBytes writable rangeAt
  cases found : memory.find address bytes.length with
  | none => simp
  | some region =>
      have fits := offset_add_le small (covers_of_find found)
      have unchanged : region.copyIn address bytes = region ↔
          Bytes.slice region.bytes (region.offset address) bytes.length =
            bytes := by
        rw [← Bytes.overwrite_eq_self_iff fits]
        obtain ⟨base, contents, perms, name⟩ := region
        simp [MemoryRegion.copyIn]
      by_cases permitted : hasPerm region.perms .write = true
      · simp [permitted, assignFound_eq_self_iff found, unchanged]
      · simp [permitted]

/-- What was copied into a range is read back from it. -/
theorem rangeAt_copyIn_self (small : bytes.length < 2 ^ 63)
    (found : memory.find address bytes.length = some region) :
    (memory.assignFound address bytes.length
        (region.copyIn address bytes)).rangeAt address bytes.length =
      some bytes := by
  have shape := region.copyIn_sameShape address bytes
  have fits := offset_add_le small (covers_of_find found)
  rw [rangeAt, find_assignFound_self found shape, Option.map_some,
    shape.offset, MemoryRegion.copyIn, Bytes.slice_overwrite_self fits]

/-- Copying into a range leaves the ranges on either side of it alone. -/
theorem rangeAt_copyIn_apart {other : Word} {count : Nat}
    (small : bytes.length < 2 ^ 63) (countSmall : count < 2 ^ 63)
    (found : memory.find address bytes.length = some region)
    (apart : other.toNat + count ≤ address.toNat ∨
      address.toNat + bytes.length ≤ other.toNat) :
    (memory.assignFound address bytes.length
        (region.copyIn address bytes)).rangeAt other count =
      memory.rangeAt other count := by
  have shape := region.copyIn_sameShape address bytes
  unfold rangeAt
  rw [find_assignFound found shape]
  by_cases hit : memory.findIndex other count =
      memory.findIndex address bytes.length
  · have otherFound : memory.find other count = some region := by
      rw [find_eq_getElem?, hit, ← find_eq_getElem?]
      exact found
    obtain ⟨lower, _⟩ :=
      (MemoryRegion.covers_iff small).mp (covers_of_find found)
    obtain ⟨otherLower, _⟩ :=
      (MemoryRegion.covers_iff countSmall).mp (covers_of_find otherFound)
    rw [if_pos hit, otherFound, Option.map_some, Option.map_some,
      shape.offset]
    congr 1
    apply Bytes.slice_overwrite_outside
    rw [MemoryRegion.offset_eq lower, MemoryRegion.offset_eq otherLower]
    omega
  · rw [if_neg hit]

theorem rangeAt_writeBytes_self (small : bytes.length < 2 ^ 63)
    (stored : (memory.writeBytes address bytes).1 = true) :
    (memory.writeBytes address bytes).2.rangeAt address bytes.length =
      some bytes := by
  rcases memory.writeBytes_cases address bytes with
    failed | ⟨region, found, _, written⟩
  · rw [failed] at stored
    contradiction
  · rw [written]
    exact rangeAt_copyIn_self small found

theorem rangeAt_writeBytes_apart (memory : Memory) {other : Word} {count : Nat}
    (small : bytes.length < 2 ^ 63) (countSmall : count < 2 ^ 63)
    (apart : other.toNat + count ≤ address.toNat ∨
      address.toNat + bytes.length ≤ other.toNat) :
    (memory.writeBytes address bytes).2.rangeAt other count =
      memory.rangeAt other count := by
  rcases memory.writeBytes_cases address bytes with
    failed | ⟨region, found, _, written⟩
  · rw [failed]
  · rw [written]
    exact rangeAt_copyIn_apart small countSmall found apart

theorem length_of_rangeAt {count : Nat} (small : count < 2 ^ 63)
    (present : memory.rangeAt address count = some bytes) :
    bytes.length = count := by
  obtain ⟨region, found, rfl⟩ := Option.map_eq_some_iff.mp present
  exact Bytes.length_slice (offset_add_le small (covers_of_find found))

theorem WellFormed.rangeAt_le (wellFormed : memory.WellFormed) {count : Nat}
    (small : count < 2 ^ 63)
    (present : memory.rangeAt address count = some bytes) :
    address.toNat + count ≤ 2 ^ 32 := by
  obtain ⟨region, found, _⟩ := Option.map_eq_some_iff.mp present
  have bounded := wellFormed.bounded region (mem_of_find found)
  have := ((MemoryRegion.covers_iff small).mp (covers_of_find found)).2
  omega

/-- On disjoint regions the two parts of a range are found in the region that
holds the whole. -/
theorem WellFormed.rangeAt_split (wellFormed : memory.WellFormed)
    (first second : Nat) (firstPositive : 0 < first)
    (secondPositive : 0 < second) (small : first + second < 2 ^ 32)
    (whole : memory.rangeAt address (first + second) = some bytes) :
    memory.rangeAt address first = some (bytes.take first) ∧
      memory.rangeAt (address + BitVec.ofNat 32 first) second =
        some (bytes.drop first) := by
  obtain ⟨region, found, rfl⟩ := Option.map_eq_some_iff.mp whole
  have member := mem_of_find found
  have bounded := wellFormed.bounded region member
  obtain ⟨lower, upper⟩ :=
    (MemoryRegion.covers_iff (by omega)).mp (covers_of_find found)
  have fits := offset_add_le (by omega) (covers_of_find found)
  have next : (address + BitVec.ofNat 32 first).toNat =
      address.toNat + first := by
    rw [BitVec.toNat_add, BitVec.toNat_ofNat]
    omega
  have firstFound : memory.find address first = some region :=
    wellFormed.find_eq_some member firstPositive (by omega)
      ((MemoryRegion.covers_iff (by omega)).mpr ⟨lower, by omega⟩)
  have secondFound :
      memory.find (address + BitVec.ofNat 32 first) second = some region :=
    wellFormed.find_eq_some member secondPositive (by omega)
      ((MemoryRegion.covers_iff (by omega)).mpr
        ⟨by omega, by omega⟩)
  have position : region.offset (address + BitVec.ofNat 32 first) =
      region.offset address + first := by
    rw [MemoryRegion.offset_eq lower, MemoryRegion.offset_eq (by omega), next]
    omega
  have firstLength : (Bytes.slice region.bytes (region.offset address)
      first).length = first := Bytes.length_slice (by omega)
  rw [rangeAt, rangeAt, firstFound, secondFound, Option.map_some,
    Option.map_some, position, Bytes.slice_add]
  exact ⟨by rw [List.take_left' firstLength],
    by rw [List.drop_left' firstLength]⟩

/-- Two regions share no address. -/
def Apart (left right : MemoryRegion) : Prop :=
  left.endExclusive ≤ right.base.toNat ∨ right.endExclusive ≤ left.base.toNat

private theorem base_lt_endExclusive (nonempty : region.bytes ≠ []) :
    region.base.toNat < region.endExclusive := by
  have := List.length_pos_iff.mpr nonempty
  unfold MemoryRegion.endExclusive
  omega

/-- Sorting disjoint non-empty regions by base puts each before the next. -/
private theorem pairwise_insertionSort {regions : List MemoryRegion}
    (nonempty : ∀ region ∈ regions, region.bytes ≠ [])
    (apart : regions.Pairwise Apart) :
    (regions.insertionSort fun left right => left.base ≤ right.base).Pairwise
      fun left right => left.endExclusive ≤ right.base.toNat := by
  let order := fun left right : MemoryRegion => left.base ≤ right.base
  have total : Std.Total order :=
    ⟨fun left right => BitVec.le_total left.base right.base⟩
  have transitive : IsTrans MemoryRegion order :=
    ⟨fun _ _ _ first second => BitVec.le_trans first second⟩
  have sorted := List.pairwise_insertionSort order regions
  have sortedApart : (regions.insertionSort order).Pairwise Apart :=
    apart.perm (List.perm_insertionSort order regions).symm
      (fun separated => Or.symm separated)
  refine List.Pairwise.imp_of_mem ?_ (sorted.and sortedApart)
  intro left right leftMember rightMember ⟨below, separated⟩
  have leftNonempty :=
    base_lt_endExclusive (nonempty left ((List.mem_insertionSort order).mp leftMember))
  have rightNonempty :=
    base_lt_endExclusive (nonempty right ((List.mem_insertionSort order).mp rightMember))
  have below : left.base.toNat ≤ right.base.toNat := below
  rcases separated with before | after
  · exact before
  · omega

/-- Mapping either refuses and changes nothing, or sorts one fresh zeroed
region into the list. -/
theorem map_cases (memory : Memory) (base : Word) (perms : MemoryPerm)
    (name : String) (small : size < 2 ^ 63) :
    memory.map base size perms name = (false, memory) ∨
      (size ≠ 0 ∧ base.toNat + size ≤ 2 ^ 32 ∧
        (∀ region ∈ memory.regions,
          base.toNat + size ≤ region.base.toNat ∨
            region.endExclusive ≤ base.toNat) ∧
        memory.map base size perms name =
          (true, ⟨(memory.regions ++
            [({ base, bytes := List.replicate size 0, perms, name } :
              MemoryRegion)]).insertionSort
                fun left right => left.base ≤ right.base⟩)) := by
  have noWrap : (base.toNat + size) % 2 ^ 64 = base.toNat + size := by
    apply Nat.mod_eq_of_lt
    have := base.isLt
    omega
  unfold map
  rw [noWrap]
  by_cases zero : size = 0
  · exact .inl (by simp [zero])
  by_cases large : base.toNat + size > 2 ^ 32
  · exact .inl (by simp only [zero, large, if_true, if_false])
  by_cases overlap : (memory.regions.any fun region =>
      !(decide (base.toNat + size ≤ region.base.toNat) ||
        decide (region.endExclusive ≤ base.toNat))) = true
  · exact .inl (by simp only [zero, large, overlap, if_true, if_false])
  · refine .inr ⟨zero, by omega, ?_, by
      simp only [zero, large, overlap, if_false]
      rfl⟩
    intro region member
    by_contra contact
    apply overlap
    rw [List.any_eq_true]
    refine ⟨region, member, ?_⟩
    simpa using contact

theorem map_of_false {base : Word} {perms : MemoryPerm} {name : String}
    (small : size < 2 ^ 63)
    (refused : (memory.map base size perms name).1 = false) :
    (memory.map base size perms name).2 = memory := by
  rcases map_cases memory base perms name small with
    unchanged | ⟨_, _, _, mapped⟩
  · rw [unchanged]
  · rw [mapped] at refused
    contradiction

theorem WellFormed.map (wellFormed : memory.WellFormed) {base : Word}
    {perms : MemoryPerm} {name : String} (small : size < 2 ^ 63) :
    (memory.map base size perms name).2.WellFormed := by
  rcases map_cases memory base perms name small with
    unchanged | ⟨positive, below, apart, mapped⟩
  · rw [unchanged]
    exact wellFormed
  · rw [mapped]
    let fresh : MemoryRegion :=
      { base, bytes := List.replicate size 0, perms, name }
    have freshEnd : fresh.endExclusive = base.toNat + size := by
      simp [fresh, MemoryRegion.endExclusive]
    have nonempty : ∀ region ∈ memory.regions ++ [fresh],
        region.bytes ≠ [] := by
      intro region member
      rcases List.mem_append.mp member with old | new
      · exact wellFormed.nonempty region old
      · rw [List.mem_singleton.mp new]
        simpa [fresh] using positive
    have allApart : (memory.regions ++ [fresh]).Pairwise Apart := by
      rw [List.pairwise_append]
      refine ⟨wellFormed.ordered.imp Or.inl, List.pairwise_singleton _ _, ?_⟩
      intro region member other otherMember
      rw [List.mem_singleton.mp otherMember]
      unfold Apart
      rw [freshEnd]
      exact (apart region member).symm
    refine ⟨pairwise_insertionSort nonempty allApart, ?_, ?_⟩
    · intro region member
      exact nonempty region ((List.mem_insertionSort _).mp member)
    · intro region member
      rcases List.mem_append.mp ((List.mem_insertionSort _).mp member) with
        old | new
      · exact wellFormed.bounded region old
      · rw [List.mem_singleton.mp new, freshEnd]
        exact below

/-- After a successful mapping the fresh region is found at its base. -/
theorem WellFormed.find_map (wellFormed : memory.WellFormed) {base : Word}
    {perms : MemoryPerm} {name : String} (small : size < 2 ^ 63)
    (mapped : (memory.map base size perms name).1 = true) :
    (memory.map base size perms name).2.find base size =
      some { base, bytes := List.replicate size 0, perms, name } := by
  have after : (memory.map base size perms name).2.WellFormed :=
    wellFormed.map small
  rcases map_cases memory base perms name small with
    unchanged | ⟨positive, _, _, result⟩
  · rw [unchanged] at mapped
    contradiction
  · rw [result] at after ⊢
    refine after.find_eq_some ?_ (Nat.pos_of_ne_zero positive) small ?_
    · rw [List.mem_insertionSort]
      simp
    · rw [MemoryRegion.covers_iff small]
      simp [MemoryRegion.endExclusive]

/-- Loading succeeds exactly when mapping does. -/
theorem WellFormed.load_cases (wellFormed : memory.WellFormed) (base : Word)
    (perms : MemoryPerm) (name : String) (small : bytes.length < 2 ^ 63) :
    memory.load base bytes perms name = (false, memory) ∨
      ∃ region fresh,
        (memory.map base bytes.length perms name).2.find base bytes.length =
            some region ∧
          MemoryRegion.SameShape region fresh ∧
          memory.load base bytes perms name =
            (true, (memory.map base bytes.length perms name).2.assignFound
              base bytes.length fresh) := by
  cases result : memory.map base bytes.length perms name with
  | mk mapped after =>
      cases mapped with
      | false =>
          have unchanged := map_of_false small (congrArg Prod.fst result)
          rw [result] at unchanged
          have equality : after = memory := unchanged
          exact .inl (by simp [load, result, equality])
      | true =>
          have found := wellFormed.find_map small (congrArg Prod.fst result)
          rw [result] at found
          let region : MemoryRegion :=
            { base, bytes := List.replicate bytes.length 0, perms, name }
          let fresh : MemoryRegion :=
            { region with bytes := Bytes.overwrite region.bytes 0 bytes }
          have same : MemoryRegion.SameShape region fresh :=
            ⟨rfl, by simp [fresh], rfl, rfl⟩
          exact .inr ⟨region, fresh, found, same, by
            simp only [load, result, found]
            rfl⟩

/-- The mutating calls of the memory interface. -/
inductive Call where
  | map (base : Word) (size : Nat) (perms : MemoryPerm) (name : String)
  | load (base : Word) (bytes : List Byte) (perms : MemoryPerm)
      (name : String)
  | write8 (address : Word) (value : Byte)
  | write16 (address : Word) (value : Half)
  | write32 (address : Word) (value : Word)
  | write64 (address : Word) (value : DoubleWord)
  | writeBytes (address : Word) (bytes : List Byte)

namespace Call

def apply (memory : Memory) : Call → Bool × Memory
  | .map base size perms name => memory.map base size perms name
  | .load base bytes perms name => memory.load base bytes perms name
  | .write8 address value => memory.write8 address value
  | .write16 address value => memory.write16 address value
  | .write32 address value => memory.write32 address value
  | .write64 address value => memory.write64 address value
  | .writeBytes address bytes => memory.writeBytes address bytes

/-- The sizes a call passes are below `2^63`; a vector cannot be longer. -/
def Sized : Call → Prop
  | .map _ size _ _ => size < 2 ^ 63
  | .load _ bytes _ _ => bytes.length < 2 ^ 63
  | .writeBytes _ bytes => bytes.length < 2 ^ 63
  | _ => True

/-- The memory a sequence of calls leaves, whether or not each succeeded. -/
def applyAll (memory : Memory) (calls : List Call) : Memory :=
  calls.foldl (fun memory call => (call.apply memory).2) memory

theorem apply_of_false (wellFormed : memory.WellFormed) {call : Call}
    (sized : call.Sized) (refused : (call.apply memory).1 = false) :
    (call.apply memory).2 = memory := by
  cases call with
  | map base size perms name => exact map_of_false sized refused
  | load base bytes perms name =>
      rcases wellFormed.load_cases base perms name sized with
        unchanged | ⟨_, _, _, _, loaded⟩
      · simp [apply, unchanged]
      · simp [apply, loaded] at refused
  | write8 address value =>
      simp only [apply, write8_eq_writeBytes] at refused ⊢
      exact writeBytes_of_false refused
  | write16 address value => exact writeBytes_of_false refused
  | write32 address value => exact writeBytes_of_false refused
  | write64 address value => exact writeBytes_of_false refused
  | writeBytes address bytes => exact writeBytes_of_false refused

private theorem writeBytes_wellFormed (wellFormed : memory.WellFormed)
    (address : Word) (bytes : List Byte) :
    (memory.writeBytes address bytes).2.WellFormed :=
  (memory.writeBytes_writeProtected address bytes).sameShape.wellFormed
    wellFormed

theorem apply_wellFormed (wellFormed : memory.WellFormed) {call : Call}
    (sized : call.Sized) :
    (call.apply memory).2.WellFormed := by
  cases call with
  | map base size perms name => exact wellFormed.map sized
  | load base bytes perms name =>
      rcases wellFormed.load_cases base perms name sized with
        unchanged | ⟨_, _, found, same, loaded⟩
      · simpa [apply, unchanged] using wellFormed
      · simpa [apply, loaded] using
          (assignFound_sameShape found same).wellFormed (wellFormed.map sized)
  | write8 address value =>
      simp only [apply, write8_eq_writeBytes]
      exact writeBytes_wellFormed wellFormed address [value]
  | write16 address value =>
      exact writeBytes_wellFormed wellFormed address _
  | write32 address value =>
      exact writeBytes_wellFormed wellFormed address _
  | write64 address value =>
      exact writeBytes_wellFormed wellFormed address _
  | writeBytes address bytes =>
      exact writeBytes_wellFormed wellFormed address bytes

theorem applyAll_wellFormed (wellFormed : memory.WellFormed) (calls : List Call)
    (sized : ∀ call ∈ calls, call.Sized) :
    (applyAll memory calls).WellFormed := by
  induction calls generalizing memory with
  | nil => exact wellFormed
  | cons call calls induction =>
      exact induction (apply_wellFormed wellFormed (sized call (by simp)))
        (fun later member => sized later (List.mem_cons_of_mem _ member))

end Call

/-- The region list denotes a partial byte map, and the interface reads and
updates it as one. -/
structure PartialByteMap (memory : Memory) : Prop where
  sorted : memory.regions.Pairwise fun left right => left.base < right.base
  nonempty : ∀ region ∈ memory.regions, region.bytes ≠ []
  disjoint : memory.regions.Pairwise Apart
  bounded : ∀ region ∈ memory.regions, region.endExclusive ≤ 2 ^ 32
  unique : ∀ first ∈ memory.regions, ∀ second ∈ memory.regions,
    ∀ address, first.Holds address → second.Holds address → first = second
  refused : ∀ call : Call, call.Sized →
    (call.apply memory).1 = false → (call.apply memory).2 = memory
  stored : ∀ (address : Word) (bytes : List Byte), bytes.length < 2 ^ 63 →
    (memory.writeBytes address bytes).1 = true →
      memory.readable address bytes.length = true →
        (memory.writeBytes address bytes).2.readBytes address bytes.length =
          some bytes
  written : ∀ (address : Word) (bytes : List Byte), bytes.length < 2 ^ 63 →
    (memory.writeBytes address bytes).1 = true →
      ∀ other : Word, address.toNat ≤ other.toNat →
        other.toNat < address.toNat + bytes.length →
        (memory.writeBytes address bytes).2.byteAt other =
          bytes[other.toNat - address.toNat]?
  framed : ∀ (address : Word) (bytes : List Byte), bytes.length < 2 ^ 63 →
    SameShape memory (memory.writeBytes address bytes).2 ∧
      ∀ other : Word,
        (other.toNat < address.toNat ∨
          address.toNat + bytes.length ≤ other.toNat) →
        (memory.writeBytes address bytes).2.byteAt other = memory.byteAt other
  read8 : ∀ address value, (memory.write8 address value).1 = true →
    memory.readable address 1 = true →
      (memory.write8 address value).2.read8 address = some value
  read16 : ∀ address value, (memory.write16 address value).1 = true →
    memory.readable address 2 = true →
      (memory.write16 address value).2.read16 address = some value
  read32 : ∀ address value, (memory.write32 address value).1 = true →
    memory.readable address 4 = true →
      (memory.write32 address value).2.read32 address = some value
  read64 : ∀ address value, (memory.write64 address value).1 = true →
    memory.readable address 8 = true →
      (memory.write64 address value).2.read64 address = some value

theorem WellFormed.partialByteMap (wellFormed : memory.WellFormed) :
    PartialByteMap memory where
  sorted := by
    refine List.Pairwise.imp_of_mem ?_ wellFormed.ordered
    intro left right member _ before
    have := base_lt_endExclusive (wellFormed.nonempty left member)
    rw [BitVec.lt_def]
    omega
  nonempty := wellFormed.nonempty
  disjoint := wellFormed.ordered.imp Or.inl
  bounded := wellFormed.bounded
  unique := fun _ firstMember _ secondMember _ inFirst inSecond =>
    wellFormed.region_unique firstMember secondMember inFirst inSecond
  refused := fun _ sized refused =>
    Call.apply_of_false wellFormed sized refused
  stored := fun _ _ small stored permitted =>
    readBytes_writeBytes small stored permitted
  written := fun _ _ small stored _ lower upper =>
    byteAt_writeBytes_inside wellFormed small stored lower upper
  framed := fun address bytes small =>
    ⟨(memory.writeBytes_writeProtected address bytes).sameShape,
      fun _ outside => byteAt_writeBytes_outside small outside⟩
  read8 := fun _ _ => read8_write8
  read16 := fun _ _ => read16_write16
  read32 := fun _ _ => read32_write32
  read64 := fun _ _ => read64_write64

/-- Whatever calls succeed or fail on the way, the memory they build from
nothing is a partial byte map. -/
theorem applyAll_partialByteMap (calls : List Call)
    (sized : ∀ call ∈ calls, call.Sized) :
    PartialByteMap (Call.applyAll empty calls) :=
  (Call.applyAll_wellFormed empty_wellFormed calls sized).partialByteMap

/-- A region at the very top of the address space, a refused overlap and an
unaligned store that ends at the last byte. -/
theorem applyAll_partialByteMap_topOfMemory :
    PartialByteMap (Call.applyAll empty
      [.map 0xfffffff0 16 (.read ||| .write) "top",
        .map 0xfffffff8 4 .read "overlap",
        .write32 0xfffffffc 0x01020304]) :=
  applyAll_partialByteMap _ (by simp [Call.Sized])

end Memory

end PpcLab
