import PpcLab.Library.Text
import PpcLab.Loader.Intake

/-!
# PEF pattern data

The compressed form of an initialised data section: a stream of instructions,
each of which appends to the output.  Sizes are `size_t`, so the products the
decoder compares with the room left are taken modulo `2^64`.

Unpacking reads its input through a span of the file.  Every read lies within
the span, and the outcome is that of unpacking the bytes the span shows.
-/

namespace PpcLab.Pef

open Text

/-- A big-endian base-128 number of at most five bytes. -/
def readPidataArg : Nat → Word → List Byte → Except String (Word × List Byte)
  | 0, _, _ => .error "PEF pattern-data argument exceeds five bytes"
  | _ + 1, _, [] => .error "truncated PEF pattern-data argument"
  | bytes + 1, value, byte :: rest =>
      let value := (value <<< 7) ||| (byte &&& 0x7f).setWidth 32
      if (byte &&& 0x80) == 0 then .ok (value, rest)
      else readPidataArg bytes value rest

/-- An argument, read from its first byte. -/
def pidataArg (src : List Byte) : Except String (Word × List Byte) :=
  readPidataArg 5 0 src

/-- A count is held in the control byte, or follows it when that is zero. -/
def pidataCount (inlineCount : Word) (src : List Byte) :
    Except String (Word × List Byte) :=
  if inlineCount != 0 then .ok (inlineCount, src) else pidataArg src

/-- Move bytes from the input to the output. -/
def appendRaw (src out : List Byte) (count limit : Nat) :
    Except String (List Byte × List Byte) :=
  if count > src.length ∨ out.length + count > limit then
    .error "PEF pattern-data raw block exceeds input/output bounds"
  else .ok (src.drop count, out ++ src.take count)

/-- `outputSize - out.size()` -/
def room (outputSize : Nat) (out : List Byte) : Nat :=
  (2 ^ 64 + outputSize - out.length) % 2 ^ 64

/-- The common block before every custom one. -/
def interleave (common : List Byte) (customSize limit : Nat) :
    Nat → List Byte → List Byte → Except String (List Byte × List Byte)
  | 0, src, out => .ok (src, out)
  | repeats + 1, src, out => do
      let (src, out) ← appendRaw src (out ++ common) customSize limit
      interleave common customSize limit repeats src out

/-- The interleaved instructions, with a stored or a zero common block. -/
def unpackInterleaved (stored : Bool) (commonSize : Word) (outputSize : Nat)
    (src out : List Byte) : Except String (List Byte × List Byte) := do
  let (customSize, src) ← pidataArg src
  let (repeatCount, src) ← pidataArg src
  if stored ∧ commonSize.toNat > src.length then
    .error "truncated PEF pidata common block"
  else
    let common :=
      if stored then src.take commonSize.toNat
      else List.replicate commonSize.toNat 0
    let src := if stored then src.drop commonSize.toNat else src
    let required := (commonSize.toNat * (repeatCount.toNat + 1) +
      customSize.toNat * repeatCount.toNat) % 2 ^ 64
    if required > room outputSize out then
      .error "PEF pidata interleave exceeds output"
    else do
      let (src, out) ← interleave common customSize.toNat outputSize
        repeatCount.toNat src out
      return (src, out ++ common)

/-- One instruction, from its control byte. -/
def unpackOne (outputSize : Nat) (control : Byte) (src out : List Byte) :
    Except String (List Byte × List Byte) := do
  let (count, src) ← pidataCount ((control &&& 0x1f).setWidth 32) src
  match (control >>> 5).toNat with
  | 0 =>
      if out.length + count.toNat > outputSize then
        .error "PEF pidata zero exceeds output"
      else .ok (src, out ++ List.replicate count.toNat 0)
  | 1 => appendRaw src out count.toNat outputSize
  | 2 => do
      let (repeatMinusOne, src) ← pidataArg src
      if count.toNat > src.length then
        .error "truncated PEF pidata repeated block"
      else
        let block := src.take count.toNat
        let repeats := repeatMinusOne.toNat + 1
        if repeats * count.toNat > room outputSize out then
          .error "PEF pidata repeated block exceeds output"
        else
          .ok (src.drop count.toNat,
            out ++ (List.replicate repeats block).flatten)
  | 3 => unpackInterleaved true count outputSize src out
  | 4 => unpackInterleaved false count outputSize src out
  | opcode =>
      .error ("reserved PEF pattern-data opcode " ++ decimal opcode)

/-- The loop of `unpackPattern`.  Every instruction consumes its control byte,
so the length of the input is fuel enough. -/
def unpackFrom (outputSize : Nat) :
    Nat → List Byte → List Byte → Except String (List Byte)
  | _, [], out => .ok out
  | 0, _ :: _, out => .ok out
  | fuel + 1, control :: src, out => do
      let (src, out) ← unpackOne outputSize control src out
      unpackFrom outputSize fuel src out

def unpackPattern (src : List Byte) (outputSize : Nat) :
    Except String (List Byte) := do
  let out ← unpackFrom outputSize src.length src []
  if out.length > outputSize then
    .error "PEF pattern data produced too much output"
  else return out ++ List.replicate (outputSize - out.length) 0

open Loader Traced

/-- `std::span` -/
structure Span where
  bytes : List Byte
  start : Nat
  length : Nat

namespace Span

variable (src : Span)

/-- `src[cursor]` -/
def byte (cursor : Nat) : Intake Byte :=
  byteAt src.bytes (src.start + cursor)

/-- `src.subspan(cursor, count)` -/
def sub (cursor count : Nat) : Intake (List Byte) :=
  subspan src.bytes (src.start + cursor) count

/-- What the span shows. -/
def data : List Byte :=
  Bytes.slice src.bytes src.start src.length

end Span

section Unpack

variable (src : Span)

/-- The loop of `readPidataArg`. -/
def readPidataArgAt : Nat → Word → Nat → Intake (Word × Nat)
  | 0, _, _ => fail "PEF pattern-data argument exceeds five bytes"
  | bytes + 1, value, cursor =>
      if src.length ≤ cursor then
        fail "truncated PEF pattern-data argument"
      else do
        let byte ← src.byte cursor
        let value := (value <<< 7) ||| (byte &&& 0x7f).setWidth 32
        if (byte &&& 0x80) == 0 then return (value, cursor + 1)
        else readPidataArgAt bytes value (cursor + 1)

def pidataArgAt (cursor : Nat) : Intake (Word × Nat) :=
  readPidataArgAt src 5 0 cursor

def pidataCountAt (inlineCount : Word) (cursor : Nat) : Intake (Word × Nat) :=
  if inlineCount != 0 then pure (inlineCount, cursor)
  else pidataArgAt src cursor

/-- The bytes remain in the input. -/
def available (cursor count : Nat) : Bool :=
  decide (cursor ≤ src.length) && decide (count ≤ src.length - cursor)

def appendRawAt (cursor : Nat) (out : List Byte) (count limit : Nat) :
    Intake (Nat × List Byte) := do
  reject (!available src cursor count || decide (limit < out.length + count))
    "PEF pattern-data raw block exceeds input/output bounds"
  let block ← src.sub cursor count
  return (cursor + count, out ++ block)

def interleaveAt (common : List Byte) (customSize limit : Nat) :
    Nat → Nat → List Byte → Intake (Nat × List Byte)
  | 0, cursor, out => pure (cursor, out)
  | repeats + 1, cursor, out => do
      let (cursor, out) ←
        appendRawAt src cursor (out ++ common) customSize limit
      interleaveAt common customSize limit repeats cursor out

/-- The interleaved instructions once the common block is there. -/
def interleaveCommonAt (common : List Byte)
    (commonSize customSize repeatCount : Word) (outputSize cursor : Nat)
    (out : List Byte) : Intake (Nat × List Byte) := do
  reject (room outputSize out <
      (commonSize.toNat * (repeatCount.toNat + 1) +
        customSize.toNat * repeatCount.toNat) % 2 ^ 64)
    "PEF pidata interleave exceeds output"
  let (cursor, out) ← interleaveAt src common customSize.toNat outputSize
    repeatCount.toNat cursor out
  return (cursor, out ++ common)

def unpackInterleavedAt (stored : Bool) (commonSize : Word)
    (outputSize cursor : Nat) (out : List Byte) :
    Intake (Nat × List Byte) := do
  let (customSize, cursor) ← pidataArgAt src cursor
  let (repeatCount, cursor) ← pidataArgAt src cursor
  if stored then do
    reject (!available src cursor commonSize.toNat)
      "truncated PEF pidata common block"
    let common ← src.sub cursor commonSize.toNat
    interleaveCommonAt src common commonSize customSize repeatCount outputSize
      (cursor + commonSize.toNat) out
  else
    interleaveCommonAt src (List.replicate commonSize.toNat 0) commonSize
      customSize repeatCount outputSize cursor out

def repeatedBlockAt (count : Word) (outputSize cursor : Nat)
    (out : List Byte) : Intake (Nat × List Byte) := do
  let (repeatMinusOne, cursor) ← pidataArgAt src cursor
  reject (!available src cursor count.toNat)
    "truncated PEF pidata repeated block"
  let block ← src.sub cursor count.toNat
  let repeats := repeatMinusOne.toNat + 1
  reject (room outputSize out < repeats * count.toNat)
    "PEF pidata repeated block exceeds output"
  return (cursor + count.toNat, out ++ (List.replicate repeats block).flatten)

def unpackOneAt (outputSize cursor : Nat) (out : List Byte) :
    Intake (Nat × List Byte) := do
  let control ← src.byte cursor
  let (count, cursor) ←
    pidataCountAt src ((control &&& 0x1f).setWidth 32) (cursor + 1)
  match (control >>> 5).toNat with
  | 0 => do
      reject (outputSize < out.length + count.toNat)
        "PEF pidata zero exceeds output"
      return (cursor, out ++ List.replicate count.toNat 0)
  | 1 => appendRawAt src cursor out count.toNat outputSize
  | 2 => repeatedBlockAt src count outputSize cursor out
  | 3 => unpackInterleavedAt src true count outputSize cursor out
  | 4 => unpackInterleavedAt src false count outputSize cursor out
  | opcode => fail ("reserved PEF pattern-data opcode " ++ decimal opcode)

/-- The loop of `unpackPattern`.  Every instruction moves the cursor, so the
length of the input is fuel enough. -/
def unpackFromAt (outputSize : Nat) :
    Nat → Nat → List Byte → Intake (List Byte)
  | 0, _, out => pure out
  | fuel + 1, cursor, out =>
      if src.length ≤ cursor then pure out
      else do
        let (cursor, out) ← unpackOneAt src outputSize cursor out
        unpackFromAt outputSize fuel cursor out

def unpackPatternAt (outputSize : Nat) : Intake (List Byte) := do
  let out ← unpackFromAt src outputSize src.length 0 []
  reject (outputSize < out.length)
    "PEF pattern data produced too much output"
  return out ++ List.replicate (outputSize - out.length) 0

end Unpack

namespace Span

variable (src : Span)

/-- What is left of the input behind the cursor. -/
def rest (cursor : Nat) : List Byte :=
  src.data.drop cursor

/-- A cursor into the input, and something else. -/
def behind (found : α × Nat) : α × List Byte :=
  (found.1, src.rest found.2)

/-- A cursor into the input, and the output. -/
def before (found : Nat × List Byte) : List Byte × List Byte :=
  (src.rest found.1, found.2)

variable {src} (fits : src.start + src.length ≤ src.bytes.length)
  {cursor count : Nat}

include fits

theorem length_data : src.data.length = src.length := by
  rw [data, Bytes.slice, List.length_take, List.length_drop]
  omega

theorem length_rest : (src.rest cursor).length = src.length - cursor := by
  rw [rest, List.length_drop, length_data fits]

theorem rest_eq_cons (inside : cursor < src.length) :
    src.rest cursor =
      src.bytes.getD (src.start + cursor) 0 :: src.rest (cursor + 1) := by
  have bound : cursor < src.data.length := by
    rw [length_data fits]
    exact inside
  have here : src.data[cursor] = src.bytes.getD (src.start + cursor) 0 := by
    have inFile : src.start + cursor < src.bytes.length := by omega
    rw [List.getD_eq_getElem?_getD, List.getElem?_eq_getElem inFile,
      Option.getD_some]
    simp only [data, Bytes.slice, List.getElem_take, List.getElem_drop]
  rw [rest, List.drop_eq_getElem_cons bound, here]
  rfl

omit fits in
theorem block_eq (inside : cursor + count ≤ src.length) :
    Bytes.slice src.bytes (src.start + cursor) count =
      (src.rest cursor).take count := by
  rw [rest, data, Bytes.slice, Bytes.slice, List.drop_take, List.take_take,
    List.drop_drop, Nat.min_eq_left (by omega)]

omit fits in
theorem drop_rest : (src.rest cursor).drop count = src.rest (cursor + count) := by
  rw [rest, rest, List.drop_drop]

end Span

section Mirrored

variable {src : Span} (fits : src.start + src.length ≤ src.bytes.length)

include fits

private theorem byte_step {cursor : Nat} (inside : cursor < src.length)
    {next : Byte → Intake α} {view : α → β} {plain : Except String β}
    {post : α → Prop}
    (tail : Mirrors (Access.Inside src.bytes.length)
      (next (src.bytes.getD (src.start + cursor) 0)) view plain post) :
    Mirrors (Access.Inside src.bytes.length) (src.byte cursor >>= next) view
      plain post := by
  apply Mirrors.step rfl _ tail
  intro access member
  rw [List.mem_singleton.mp member]
  exact inside_range (by omega)

private theorem sub_step {cursor count : Nat}
    (inside : cursor + count ≤ src.length)
    {next : List Byte → Intake α} {view : α → β} {plain : Except String β}
    {post : α → Prop}
    (tail : Mirrors (Access.Inside src.bytes.length)
      (next ((src.rest cursor).take count)) view plain post) :
    Mirrors (Access.Inside src.bytes.length) (src.sub cursor count >>= next)
      view plain post := by
  apply Mirrors.step (congrArg Except.ok (Span.block_eq inside)) _ tail
  intro access member
  rw [List.mem_singleton.mp member]
  exact inside_range (by omega)

private theorem readPidataArgAt_mirrors (bytes : Nat) (value : Word)
    {cursor : Nat} (inside : cursor ≤ src.length) :
    Mirrors (Access.Inside src.bytes.length)
      (readPidataArgAt src bytes value cursor) src.behind
      (readPidataArg bytes value (src.rest cursor))
      fun found => found.2 ≤ src.length := by
  induction bytes generalizing value cursor with
  | zero => exact .fail _
  | succ bytes induction =>
      unfold readPidataArgAt
      by_cases atEnd : src.length ≤ cursor
      · have empty : src.rest cursor = [] := by
          apply List.eq_nil_of_length_eq_zero
          rw [Span.length_rest fits]
          omega
        rw [if_pos atEnd, empty]
        exact .fail _
      · rw [if_neg atEnd, Span.rest_eq_cons fits (by omega)]
        apply byte_step fits (by omega)
        apply Mirrors.ite
        · intro last
          exact .pure (by omega)
        · intro more
          exact induction _ (by omega)

private theorem pidataCountAt_mirrors (inlineCount : Word) {cursor : Nat}
    (inside : cursor ≤ src.length) :
    Mirrors (Access.Inside src.bytes.length)
      (pidataCountAt src inlineCount cursor) src.behind
      (pidataCount inlineCount (src.rest cursor))
      fun found => found.2 ≤ src.length := by
  apply Mirrors.ite
  · intro inline
    exact .pure inside
  · intro read
    exact readPidataArgAt_mirrors fits 5 0 inside

/-- What is not available is what the list does not hold. -/
private theorem available_iff {cursor count : Nat}
    (inside : cursor ≤ src.length) :
    available src cursor count = true ↔ ¬ count > (src.rest cursor).length := by
  unfold available
  rw [Bool.and_eq_true, decide_eq_true_eq, decide_eq_true_eq,
    Span.length_rest fits]
  omega

private theorem appendRawAt_mirrors {cursor : Nat}
    (inside : cursor ≤ src.length) (out : List Byte) (count limit : Nat) :
    Mirrors (Access.Inside src.bytes.length)
      (appendRawAt src cursor out count limit) src.before
      (appendRaw (src.rest cursor) out count limit)
      fun found => found.1 ≤ src.length := by
  unfold appendRawAt appendRaw
  apply Mirrors.reject
  · rw [Bool.or_eq_true, Bool.not_eq_true', ← Bool.not_eq_true,
      available_iff fits inside, not_not, decide_eq_true_eq]
  · intro accepted
    rw [Bool.or_eq_false_iff, Bool.not_eq_false', available_iff fits inside,
      Span.length_rest fits] at accepted
    apply sub_step fits (by omega)
    rw [Span.drop_rest]
    exact .pure (by omega)

private theorem interleaveAt_mirrors (common : List Byte)
    (customSize limit repeats : Nat) {cursor : Nat}
    (inside : cursor ≤ src.length) (out : List Byte) :
    Mirrors (Access.Inside src.bytes.length)
      (interleaveAt src common customSize limit repeats cursor out) src.before
      (interleave common customSize limit repeats (src.rest cursor) out)
      fun found => found.1 ≤ src.length := by
  induction repeats generalizing cursor out with
  | zero => exact .pure inside
  | succ repeats induction =>
      apply Mirrors.bind (appendRawAt_mirrors fits inside _ _ _)
      intro found stillInside
      exact induction stillInside found.2

private theorem interleaveCommonAt_mirrors (common : List Byte)
    (commonSize customSize repeatCount : Word) (outputSize : Nat)
    {cursor : Nat} (inside : cursor ≤ src.length) (out : List Byte) :
    Mirrors (Access.Inside src.bytes.length)
      (interleaveCommonAt src common commonSize customSize repeatCount
        outputSize cursor out) src.before
      (if (commonSize.toNat * (repeatCount.toNat + 1) +
          customSize.toNat * repeatCount.toNat) % 2 ^ 64 >
            room outputSize out then
        .error "PEF pidata interleave exceeds output"
      else do
        let (src, out) ← interleave common customSize.toNat outputSize
          repeatCount.toNat (src.rest cursor) out
        return (src, out ++ common))
      fun found => found.1 ≤ src.length := by
  apply Mirrors.reject
  · exact decide_eq_true_iff
  · intro fitsOutput
    apply Mirrors.bind (interleaveAt_mirrors fits _ _ _ _ inside _)
    intro found stillInside
    exact .pure stillInside

private theorem unpackInterleavedAt_mirrors (stored : Bool)
    (commonSize : Word) (outputSize : Nat) {cursor : Nat}
    (inside : cursor ≤ src.length) (out : List Byte) :
    Mirrors (Access.Inside src.bytes.length)
      (unpackInterleavedAt src stored commonSize outputSize cursor out)
      src.before
      (unpackInterleaved stored commonSize outputSize (src.rest cursor) out)
      fun found => found.1 ≤ src.length := by
  apply Mirrors.bind (readPidataArgAt_mirrors fits 5 0 inside)
  intro custom customInside
  apply Mirrors.bind (readPidataArgAt_mirrors fits 5 0 customInside)
  intro repeats repeatsInside
  cases stored with
  | false => exact interleaveCommonAt_mirrors fits _ _ _ _ _ repeatsInside out
  | true =>
      apply Mirrors.reject
      · rw [Bool.not_eq_true', ← Bool.not_eq_true,
          available_iff fits repeatsInside, not_not]
        exact (and_iff_right rfl).symm
      · intro isAvailable
        rw [Bool.not_eq_false', available_iff fits repeatsInside,
          Span.length_rest fits] at isAvailable
        have mirrored := interleaveCommonAt_mirrors fits
          ((src.rest repeats.2).take commonSize.toNat) commonSize custom.1
          repeats.1 outputSize
          (show repeats.2 + commonSize.toNat ≤ src.length by omega) out
        rw [← Span.drop_rest] at mirrored
        exact sub_step fits (by omega) mirrored

private theorem repeatedBlockAt_mirrors (count : Word) (outputSize : Nat)
    {cursor : Nat} (inside : cursor ≤ src.length) (out : List Byte) :
    Mirrors (Access.Inside src.bytes.length)
      (repeatedBlockAt src count outputSize cursor out) src.before
      (do
        let (repeatMinusOne, src) ← pidataArg (src.rest cursor)
        if count.toNat > src.length then
          .error "truncated PEF pidata repeated block"
        else
          let block := src.take count.toNat
          let repeats := repeatMinusOne.toNat + 1
          if repeats * count.toNat > room outputSize out then
            .error "PEF pidata repeated block exceeds output"
          else
            .ok (src.drop count.toNat,
              out ++ (List.replicate repeats block).flatten))
      fun found => found.1 ≤ src.length := by
  apply Mirrors.bind (readPidataArgAt_mirrors fits 5 0 inside)
  intro repeats repeatsInside
  apply Mirrors.reject
  · rw [Bool.not_eq_true', ← Bool.not_eq_true,
      available_iff fits repeatsInside, not_not]
  · intro isAvailable
    rw [Bool.not_eq_false', available_iff fits repeatsInside,
      Span.length_rest fits] at isAvailable
    apply sub_step fits (by omega)
    apply Mirrors.reject
    · exact decide_eq_true_iff
    · intro fitsOutput
      rw [Span.drop_rest]
      exact .pure (by omega)

private theorem unpackOneAt_mirrors (outputSize : Nat) {cursor : Nat}
    (inside : cursor < src.length) (out : List Byte) :
    Mirrors (Access.Inside src.bytes.length)
      (unpackOneAt src outputSize cursor out) src.before
      (unpackOne outputSize (src.bytes.getD (src.start + cursor) 0)
        (src.rest (cursor + 1)) out)
      fun found => found.1 ≤ src.length := by
  apply byte_step fits inside
  apply Mirrors.bind (pidataCountAt_mirrors fits _ (by omega))
  intro found foundInside
  obtain ⟨count, cursor'⟩ := found
  dsimp only [Span.behind]
  generalize (src.bytes.getD (src.start + cursor) 0 >>> 5).toNat = opcode
  rcases opcode with _ | _ | _ | _ | _ | opcode
  · apply Mirrors.reject
    · exact decide_eq_true_iff
    · intro fitsOutput
      exact .pure foundInside
  · exact appendRawAt_mirrors fits foundInside _ _ _
  · exact repeatedBlockAt_mirrors fits _ _ foundInside _
  · exact unpackInterleavedAt_mirrors fits _ _ _ foundInside _
  · exact unpackInterleavedAt_mirrors fits _ _ _ foundInside _
  · exact .fail _

/-- The decoder ends before its fuel does. -/
private theorem unpackFromAt_mirrors (outputSize : Nat) {fuel cursor : Nat}
    (inside : cursor ≤ src.length) (out : List Byte) :
    Mirrors (Access.Inside src.bytes.length)
      (unpackFromAt src outputSize fuel cursor out) id
      (unpackFrom outputSize fuel (src.rest cursor) out) fun _ => True := by
  induction fuel generalizing cursor out with
  | zero =>
      cases src.rest cursor with
      | nil => exact .pure trivial
      | cons byte bytes => exact .pure trivial
  | succ fuel induction =>
      unfold unpackFromAt
      by_cases atEnd : src.length ≤ cursor
      · have empty : src.rest cursor = [] := by
          apply List.eq_nil_of_length_eq_zero
          rw [Span.length_rest fits]
          omega
        rw [if_pos atEnd, empty]
        exact .pure trivial
      · rw [if_neg atEnd, Span.rest_eq_cons fits (by omega)]
        apply Mirrors.bind (unpackOneAt_mirrors fits _ (by omega) _)
        intro found stillInside
        exact induction stillInside found.2

end Mirrored

/-- Unpacking reads within a span that lies in the file, and comes to what
unpacking its bytes comes to. -/
theorem unpackPatternAt_mirrors (src : Span)
    (fits : src.length ≠ 0 → src.start + src.length ≤ src.bytes.length)
    (outputSize : Nat) :
    Mirrors (Access.Inside src.bytes.length) (unpackPatternAt src outputSize)
      id (unpackPattern src.data outputSize) fun _ => True := by
  have loop : Mirrors (Access.Inside src.bytes.length)
      (unpackFromAt src outputSize src.length 0 []) id
      (unpackFrom outputSize src.data.length src.data []) fun _ => True := by
    by_cases empty : src.length = 0
    · have noData : src.data = [] := by
        rw [Span.data, Bytes.slice, empty, List.take_zero]
      rw [empty, noData]
      exact .pure trivial
    · rw [Span.length_data (fits empty)]
      exact unpackFromAt_mirrors (fits empty) outputSize (Nat.zero_le _) []
  apply Mirrors.bind loop
  intro out holds
  apply Mirrors.reject
  · exact decide_eq_true_iff
  · intro small
    exact .pure trivial

end PpcLab.Pef
