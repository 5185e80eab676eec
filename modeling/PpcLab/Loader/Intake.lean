import PpcLab.Library.Traced
import PpcLab.Loader.DirectAccess

/-!
# Reading a file

What a loader reads from the bytes of a file is recorded: single bytes by their
index, ranges by their offset and length.  Strings in a file end at a zero byte
or where their table does.
-/

namespace PpcLab.Loader

/-- A range of bytes that was read. -/
structure Access where
  offset : Nat
  length : Nat
  deriving DecidableEq, Repr

/-- The range lies within so many bytes, also when it is empty. -/
def Access.Inside (total : Nat) (access : Access) : Prop :=
  access.offset ≤ total ∧ access.length ≤ total - access.offset

instance (total : Nat) : DecidablePred (Access.Inside total) :=
  fun _ => inferInstanceAs (Decidable (_ ∧ _))

abbrev Intake := Traced Access String

def rangeWithin (offset size total : Nat) : Bool :=
  decide (offset ≤ total) && decide (size ≤ total - offset)

/-- `b[off]` -/
def byteAt (bytes : List Byte) (off : Nat) : Intake Byte :=
  ⟨[⟨off, 1⟩], .ok (bytes.getD off 0)⟩

def be16At (bytes : List Byte) (off : Nat) : Intake Half :=
  ⟨[⟨off, 1⟩, ⟨off + 1, 1⟩], .ok (be16 bytes off)⟩

def be32At (bytes : List Byte) (off : Nat) : Intake Word :=
  ⟨[⟨off, 1⟩, ⟨off + 1, 1⟩, ⟨off + 2, 1⟩, ⟨off + 3, 1⟩],
    .ok (be32 bytes off)⟩

def be64At (bytes : List Byte) (off : Nat) : Intake DoubleWord := do
  let high ← be32At bytes off
  let low ← be32At bytes (off + 4)
  return (high.setWidth 64 <<< 32) ||| low.setWidth 64

/-- A range taken as a whole. -/
def subspan (bytes : List Byte) (offset count : Nat) : Intake (List Byte) :=
  ⟨[⟨offset, count⟩], .ok (Bytes.slice bytes offset count)⟩

/-- How many bytes stand before a zero byte, or before the room ends. -/
def terminated (bytes : List Byte) : Nat → Nat → Intake Nat
  | 0, _ => pure 0
  | room + 1, position => do
      let byte ← byteAt bytes position
      if byte = 0 then return 0
      else do
        let rest ← terminated bytes room (position + 1)
        return rest + 1

/-- The string of some bytes, one character for each. -/
def latin1 (bytes : List Byte) : String :=
  String.ofList (bytes.map fun byte => Char.ofNat byte.toNat)

def fixedString (bytes : List Byte) (off count : Nat) : Intake String := do
  let length ← terminated bytes count off
  let text ← subspan bytes off length
  return latin1 text

def cstringAt (bytes : List Byte) (base size offset : Nat) : Intake String :=
  if size ≤ offset ∨ bytes.length ≤ base + offset then pure ""
  else do
    let limit := min bytes.length (base + size)
    let length ←
      terminated bytes (limit - (base + offset)) (base + offset)
    let text ← subspan bytes (base + offset) length
    return latin1 text

theorem inside_byte {total index : Nat} :
    Access.Inside total ⟨index, 1⟩ ↔ index < total := by
  unfold Access.Inside
  dsimp only
  omega

theorem inside_range {total offset length : Nat}
    (fits : offset + length ≤ total) :
    Access.Inside total ⟨offset, length⟩ := by
  unfold Access.Inside
  dsimp only
  omega

theorem rangeWithin_iff {offset size total : Nat} :
    rangeWithin offset size total = true ↔
      Access.Inside total ⟨offset, size⟩ := by
  unfold rangeWithin
  rw [Bool.and_eq_true, decide_eq_true_eq, decide_eq_true_eq]
  rfl

/-- An entry of a table that fits. -/
theorem entry_fits {base count size total i : Nat}
    (inTable : i < count) (fits : base + size * count ≤ total) :
    base + i * size + size ≤ total := by
  have bound : (i + 1) * size ≤ count * size :=
    Nat.mul_le_mul_right size inTable
  rw [Nat.succ_mul] at bound
  rw [Nat.mul_comm size count] at fits
  omega

/-- The whole program reads within the bytes. -/
abbrev ReadsInside (bytes : List Byte) (program : Intake α)
    (post : α → Prop) : Prop :=
  Traced.Every (Access.Inside bytes.length) program post

namespace ReadsInside

open Traced

variable {bytes : List Byte} {off : Nat} {α : Type} {post : α → Prop}

theorem bind_iff {first : Intake β} {next : β → Intake α} {value : β}
    (succeeded : first.result = .ok value) :
    ReadsInside bytes (first >>= next) post ↔
      (∀ access ∈ first.steps, access.Inside bytes.length) ∧
        ReadsInside bytes (next value) post := by
  rw [bind_of_ok succeeded]
  constructor
  · intro every
    refine ⟨fun access member =>
      every.steps access (List.mem_append_left _ member), ?_, every.value⟩
    intro access member
    exact every.steps access (List.mem_append_right _ member)
  · intro parts
    refine ⟨?_, parts.2.value⟩
    intro access member
    rcases List.mem_append.mp member with early | late
    · exact parts.1 access early
    · exact parts.2.steps access late

@[simp] theorem pure_iff {value : α} :
    ReadsInside bytes (pure value) post ↔ post value := by
  constructor
  · intro every
    exact every.value value rfl
  · intro holds
    exact .pure holds

@[simp] theorem byteAt_iff {next : Byte → Intake α} :
    ReadsInside bytes (byteAt bytes off >>= next) post ↔
      off < bytes.length ∧
        ReadsInside bytes (next (bytes.getD off 0)) post := by
  rw [bind_iff rfl]
  apply and_congr_left'
  rw [byteAt, List.forall_mem_singleton, inside_byte]

@[simp] theorem be16At_iff {next : Half → Intake α} :
    ReadsInside bytes (be16At bytes off >>= next) post ↔
      off + 2 ≤ bytes.length ∧
        ReadsInside bytes (next (be16 bytes off)) post := by
  rw [bind_iff rfl]
  apply and_congr_left'
  simp only [be16At, List.forall_mem_cons, List.not_mem_nil, false_implies,
    implies_true, and_true, inside_byte]
  omega

@[simp] theorem be32At_iff {next : Word → Intake α} :
    ReadsInside bytes (be32At bytes off >>= next) post ↔
      off + 4 ≤ bytes.length ∧
        ReadsInside bytes (next (be32 bytes off)) post := by
  rw [bind_iff rfl]
  apply and_congr_left'
  simp only [be32At, List.forall_mem_cons, List.not_mem_nil, false_implies,
    implies_true, and_true, inside_byte]
  omega

@[simp] theorem reject_iff {condition : Bool} {error : String}
    {next : Unit → Intake α} :
    ReadsInside bytes (reject condition error >>= next) post ↔
      (condition = false → ReadsInside bytes (next ()) post) := by
  constructor
  · intro every accepted
    rw [accepted] at every
    exact ((bind_iff rfl).mp every).2
  · intro tail
    exact .reject tail

theorem be64At (fits : off + 8 ≤ bytes.length) :
    ReadsInside bytes (be64At bytes off) fun _ => True := by
  unfold Loader.be64At
  rw [be32At_iff, be32At_iff, pure_iff]
  exact ⟨by omega, by omega, trivial⟩

theorem subspan {count : Nat}
    (inside : Access.Inside bytes.length ⟨off, count⟩) :
    ReadsInside bytes (subspan bytes off count) fun _ => True := by
  constructor
  · intro access member
    rw [List.mem_singleton.mp member]
    exact inside
  · intro value succeeded
    exact trivial

theorem terminated {room : Nat} (fits : off + room ≤ bytes.length) :
    ReadsInside bytes (terminated bytes room off)
      fun length => length ≤ room := by
  induction room generalizing off with
  | zero =>
      apply Every.pure
      exact Nat.le_refl 0
  | succ room induction =>
      unfold Loader.terminated
      rw [byteAt_iff]
      refine ⟨by omega, ?_⟩
      apply Every.ite
      · intro isEnd
        exact .pure (Nat.zero_le _)
      · intro continues
        apply Every.bind (induction (by omega))
        intro rest bound
        exact .pure (Nat.succ_le_succ bound)

theorem fixedString {count : Nat} (fits : off + count ≤ bytes.length) :
    ReadsInside bytes (fixedString bytes off count) fun _ => True := by
  apply Every.bind (terminated fits)
  intro length bound
  apply Every.bind (subspan (inside_range (by omega)))
  intro text holds
  exact .pure trivial

/-- A string in a table is read within the bytes whatever the table is. -/
theorem cstringAt (base size offset : Nat) :
    ReadsInside bytes (cstringAt bytes base size offset) fun _ => True := by
  apply Every.ite
  · intro outside
    exact .pure trivial
  · intro inside
    apply Every.bind (terminated (by omega))
    intro length bound
    apply Every.bind (subspan (inside_range (by omega)))
    intro text holds
    exact .pure trivial

end ReadsInside

end PpcLab.Loader
