import Mathlib.Data.List.Basic

/-!
# Byte strings

Copying one byte string into another, cutting a piece out of one, and the
big-endian reading of a byte string as a machine word.
-/

namespace PpcLab.Bytes

variable {α : Type}

/-- Copy `fresh` over the elements that start at `offset`.  The length of the
target never changes. -/
def overwrite (target : List α) (offset : Nat) (fresh : List α) : List α :=
  target.mapIdx fun index old =>
    if offset ≤ index then fresh.getD (index - offset) old else old

/-- The `count` elements that start at `offset`. -/
def slice (source : List α) (offset count : Nat) : List α :=
  (source.drop offset).take count

@[simp] theorem length_overwrite (target : List α) (offset : Nat)
    (fresh : List α) :
    (overwrite target offset fresh).length = target.length := by
  simp [overwrite]

theorem getElem?_overwrite (target : List α) (offset : Nat) (fresh : List α)
    (index : Nat) :
    (overwrite target offset fresh)[index]? =
      target[index]?.map fun old =>
        if offset ≤ index then fresh.getD (index - offset) old else old := by
  simp [overwrite]

theorem getElem?_overwrite_inside {target fresh : List α} {offset index : Nat}
    (fits : offset + fresh.length ≤ target.length)
    (inside : index < fresh.length) :
    (overwrite target offset fresh)[offset + index]? = fresh[index]? := by
  have bounded : offset + index < target.length := by omega
  simp [getElem?_overwrite, List.getElem?_eq_getElem bounded,
    List.getElem?_eq_getElem inside, List.getD_eq_getElem?_getD]

theorem getElem?_overwrite_outside {target fresh : List α} {offset index : Nat}
    (outside : index < offset ∨ offset + fresh.length ≤ index) :
    (overwrite target offset fresh)[index]? = target[index]? := by
  rw [getElem?_overwrite]
  by_cases after : offset ≤ index
  · have beyond : fresh.length ≤ index - offset := by omega
    simp [after, List.getD_eq_getElem?_getD,
      List.getElem?_eq_none beyond]
  · simp [after]

@[simp] theorem getElem?_slice (source : List α) (offset count index : Nat) :
    (slice source offset count)[index]? =
      if index < count then source[offset + index]? else none := by
  simp [slice, List.getElem?_take, List.getElem?_drop]

theorem length_slice {source : List α} {offset count : Nat}
    (fits : offset + count ≤ source.length) :
    (slice source offset count).length = count := by
  simp [slice]
  omega

/-- Reading back what was copied in. -/
theorem slice_overwrite_self {target fresh : List α} {offset : Nat}
    (fits : offset + fresh.length ≤ target.length) :
    slice (overwrite target offset fresh) offset fresh.length = fresh := by
  apply List.ext_getElem?
  intro index
  rw [getElem?_slice]
  by_cases inside : index < fresh.length
  · rw [if_pos inside, getElem?_overwrite_inside fits inside]
  · rw [if_neg inside, List.getElem?_eq_none (by omega)]

/-- Copying changes nothing exactly when the bytes were already there. -/
theorem overwrite_eq_self_iff {target fresh : List α} {offset : Nat}
    (fits : offset + fresh.length ≤ target.length) :
    overwrite target offset fresh = target ↔
      slice target offset fresh.length = fresh := by
  constructor
  · intro same
    have copied := slice_overwrite_self fits
    rwa [same] at copied
  · intro same
    apply List.ext_getElem?
    intro index
    by_cases inside : offset ≤ index ∧ index < offset + fresh.length
    · obtain ⟨distance, rfl⟩ := Nat.exists_eq_add_of_le inside.1
      have within : distance < fresh.length := by omega
      rw [getElem?_overwrite_inside fits within]
      conv_lhs => rw [← same]
      rw [getElem?_slice, if_pos within]
    · exact getElem?_overwrite_outside (by omega)

/-- A piece splits wherever it is cut. -/
theorem slice_add (source : List α) (offset first second : Nat) :
    slice source offset (first + second) =
      slice source offset first ++ slice source (offset + first) second := by
  simp only [slice, List.take_add, List.drop_drop]

/-- Copying leaves every piece on either side of it alone. -/
theorem slice_overwrite_outside {target fresh : List α}
    {offset start count : Nat}
    (apart : start + count ≤ offset ∨ offset + fresh.length ≤ start) :
    slice (overwrite target offset fresh) start count =
      slice target start count := by
  apply List.ext_getElem?
  intro index
  rw [getElem?_slice, getElem?_slice]
  by_cases inside : index < count
  · rw [if_pos inside, if_pos inside]
    exact getElem?_overwrite_outside (by omega)
  · rw [if_neg inside, if_neg inside]

/-- The big-endian value of a byte string in a word of `width` bits:
`value = (value << 8) | byte`, byte by byte. -/
def decode (width : Nat) (bytes : List (BitVec 8)) : BitVec width :=
  bytes.foldl
    (fun (value : BitVec width) byte =>
      (value <<< 8) ||| byte.setWidth width) 0

/-- The `count` low bytes of a word, most significant first. -/
def encode {width : Nat} : Nat → BitVec width → List (BitVec 8)
  | 0, _ => []
  | count + 1, value =>
      (value >>> (8 * count)).setWidth 8 :: encode count value

@[simp] theorem length_encode {width : Nat} (count : Nat)
    (value : BitVec width) : (encode count value).length = count := by
  induction count with
  | zero => rfl
  | succ count induction => simp [encode, induction]

@[simp] theorem decode_nil (width : Nat) : decode width [] = 0 := rfl

private theorem foldl_decode (width : Nat) (bytes : List (BitVec 8))
    (start : BitVec width) :
    bytes.foldl
        (fun (value : BitVec width) byte =>
          (value <<< 8) ||| byte.setWidth width) start =
      (start <<< (8 * bytes.length)) ||| decode width bytes := by
  induction bytes generalizing start with
  | nil => simp
  | cons byte bytes induction =>
      have step (value : BitVec width) :
          ((value <<< 8) ||| byte.setWidth width) <<< (8 * bytes.length) =
            (value <<< (8 * (bytes.length + 1))) |||
              (byte.setWidth width <<< (8 * bytes.length)) := by
        rw [BitVec.shiftLeft_or_distrib, ← BitVec.shiftLeft_add]
        congr 2
        omega
      rw [decode, List.foldl_cons, List.foldl_cons, induction, induction,
        step, step, List.length_cons]
      simp [BitVec.or_assoc]

theorem decode_append (width : Nat) (first second : List (BitVec 8)) :
    decode width (first ++ second) =
      (decode width first <<< (8 * second.length)) |||
        decode width second := by
  rw [decode, List.foldl_append, foldl_decode]
  rfl

theorem decode_cons (width : Nat) (byte : BitVec 8) (bytes : List (BitVec 8)) :
    decode width (byte :: bytes) =
      (byte.setWidth width <<< (8 * bytes.length)) ||| decode width bytes := by
  rw [decode, List.foldl_cons, foldl_decode]
  simp

/-- A byte string has no bits beyond its length. -/
theorem getLsbD_decode_of_le (width : Nat) (bytes : List (BitVec 8))
    {index : Nat} (beyond : 8 * bytes.length ≤ index) :
    (decode width bytes).getLsbD index = false := by
  induction bytes with
  | nil => simp
  | cons byte bytes induction =>
      rw [List.length_cons] at beyond
      have tail := induction (by omega)
      have above : 8 ≤ index - 8 * bytes.length := by omega
      rw [decode_cons, BitVec.getLsbD_or, tail, BitVec.getLsbD_shiftLeft,
        BitVec.getLsbD_setWidth, BitVec.getLsbD_of_ge byte _ above]
      simp

/-- Reading the low bytes of a word back gives its low part. -/
theorem getLsbD_decode_encode {width target : Nat} (count : Nat)
    (value : BitVec width) {index : Nat} (bound : index < target) :
    (decode target (encode count value)).getLsbD index =
      (decide (index < 8 * count) && value.getLsbD index) := by
  induction count with
  | zero => simp [encode]
  | succ count induction =>
      rw [encode, decode_cons, BitVec.getLsbD_or, induction]
      simp only [length_encode, BitVec.getLsbD_shiftLeft,
        BitVec.getLsbD_setWidth, BitVec.getLsbD_ushiftRight]
      have shifted : index - 8 * count < target := by omega
      by_cases low : index < 8 * count
      · have inWord : index < 8 * (count + 1) := by omega
        simp [low, inWord]
      · by_cases here : index < 8 * (count + 1)
        · have offset : 8 * count + (index - 8 * count) = index := by omega
          have small : index - 8 * count < 8 := by omega
          simp [low, here, bound, shifted, small, offset]
        · have beyond : ¬index - 8 * count < 8 := by omega
          simp [low, here, beyond]

/-- A word whose width is the number of bytes written survives the round
trip. -/
theorem decode_encode (count : Nat) (value : BitVec (8 * count)) :
    decode (8 * count) (encode count value) = value := by
  apply BitVec.eq_of_getLsbD_eq
  intro index bound
  rw [getLsbD_decode_encode count value bound]
  simp [bound]

end PpcLab.Bytes
