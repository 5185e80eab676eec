import PpcLab.Library.Word

/-!
# Base-128 numerals

A number written in groups of seven bits, the most significant first, with the
top bit of a byte set when another one follows.  No numeral is a proper
beginning of another, so a stream of numerals is read in one way only.
-/

namespace PpcLab.Base128

abbrev Group := BitVec 7

/-- The groups of a numeral; the last one ends it. -/
structure Numeral where
  leading : List Group
  last : Group

/-- A group that another one follows. -/
def continued (group : Group) : Byte :=
  group.setWidth 8 ||| 0x80

def final (group : Group) : Byte :=
  group.setWidth 8

def Numeral.bytes (numeral : Numeral) : List Byte :=
  numeral.leading.map continued ++ [final numeral.last]

/-- The number read so far, and one more group. -/
def shifted (value : Nat) (group : Group) : Nat :=
  128 * value + group.toNat

def Numeral.value (numeral : Numeral) : Nat :=
  shifted (numeral.leading.foldl shifted 0) numeral.last

theorem continued_bit : ∀ group : Group, (continued group &&& 0x80) ≠ 0 := by
  decide

theorem final_bit : ∀ group : Group, (final group &&& 0x80) = 0 := by
  decide

theorem continued_payload :
    ∀ group : Group, (continued group &&& 0x7f).setWidth 32 =
      group.setWidth 32 := by
  decide

theorem final_payload :
    ∀ group : Group, (final group &&& 0x7f).setWidth 32 =
      group.setWidth 32 := by
  decide

theorem eq_continued :
    ∀ byte : Byte, (byte &&& 0x80) ≠ 0 → byte = continued (byte.setWidth 7) := by
  decide

theorem eq_final :
    ∀ byte : Byte, (byte &&& 0x80) = 0 → byte = final (byte.setWidth 7) := by
  decide

theorem setWidth_continued :
    ∀ group : Group, (continued group).setWidth 7 = group := by
  decide

theorem setWidth_final :
    ∀ group : Group, (final group).setWidth 7 = group := by
  decide

theorem continued_injective {left right : Group}
    (same : continued left = continued right) : left = right := by
  have groups := congrArg (BitVec.setWidth 7) same
  rwa [setWidth_continued, setWidth_continued] at groups

theorem final_injective {left right : Group}
    (same : final left = final right) : left = right := by
  have groups := congrArg (BitVec.setWidth 7) same
  rwa [setWidth_final, setWidth_final] at groups

theorem continued_ne_final (left right : Group) :
    continued left ≠ final right := by
  intro same
  apply continued_bit left
  rw [same]
  exact final_bit right

@[simp] theorem Numeral.length_bytes (numeral : Numeral) :
    numeral.bytes.length = numeral.leading.length + 1 := by
  simp [Numeral.bytes]

private theorem leading_unique {left right : List Group} {last last' : Group}
    {rest rest' : List Byte}
    (same : left.map continued ++ final last :: rest =
      right.map continued ++ final last' :: rest') :
    left = right ∧ last = last' ∧ rest = rest' := by
  induction left generalizing right with
  | nil =>
      cases right with
      | nil =>
          injection same with head tail
          exact ⟨rfl, final_injective head, tail⟩
      | cons group right =>
          injection same with head tail
          exact absurd head.symm (continued_ne_final group last)
  | cons group left induction =>
      cases right with
      | nil =>
          injection same with head tail
          exact absurd head (continued_ne_final group last')
      | cons group' right =>
          injection same with head tail
          obtain ⟨leading, ending, after⟩ := induction tail
          exact ⟨by rw [continued_injective head, leading], ending, after⟩

/-- A numeral ends where it says it does. -/
theorem bytes_append_injective {left right : Numeral} {rest rest' : List Byte}
    (same : left.bytes ++ rest = right.bytes ++ rest') :
    left = right ∧ rest = rest' := by
  obtain ⟨leading, last⟩ := left
  obtain ⟨leading', last'⟩ := right
  have split : leading.map continued ++ final last :: rest =
      leading'.map continued ++ final last' :: rest' := by
    simpa [Numeral.bytes] using same
  obtain ⟨rfl, rfl, after⟩ := leading_unique split
  exact ⟨rfl, after⟩

/-- One more group in a machine word, which keeps the low 32 bits. -/
theorem shifted_word (value : Nat) (group : Group) :
    ((BitVec.ofNat 32 value) <<< 7) ||| group.setWidth 32 =
      BitVec.ofNat 32 (shifted value group) := by
  have small : group.toNat < 2 ^ 7 := group.isLt
  apply BitVec.eq_of_toNat_eq
  have shift : (BitVec.ofNat 32 value <<< 7).toNat =
      2 ^ 7 * (value % 2 ^ 25) := by
    simp only [BitVec.toNat_shiftLeft, BitVec.toNat_ofNat, Nat.shiftLeft_eq]
    omega
  have payload : (group.setWidth 32).toNat = group.toNat := by
    rw [BitVec.toNat_setWidth]
    omega
  rw [BitVec.toNat_or, shift, payload, ← Nat.two_pow_add_eq_or_of_lt small,
    BitVec.toNat_ofNat, shifted]
  omega

end PpcLab.Base128
