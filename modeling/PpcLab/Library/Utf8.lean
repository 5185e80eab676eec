import PpcLab.Library.JsonText

/-!
# Canonical bytes

The encoding of a text in UTF-8, which fails on surrogates, and the canonical
bytes of a JSON value: the text with sorted members and a line feed at its end.
The bytes determine the value up to the order of members.
-/

namespace PpcLab

private def byte (value : Nat) : Byte :=
  BitVec.ofNat 8 value

def utf8Character (character : CodePoint) : Option (List Byte) :=
  let value := character.val
  if value < 0x80 then some [byte value]
  else if value < 0x800 then
    some [byte (0xc0 + value / 0x40), byte (0x80 + value % 0x40)]
  else if 0xd800 ≤ value ∧ value < 0xe000 then none
  else if value < 0x10000 then
    some [byte (0xe0 + value / 0x1000), byte (0x80 + value / 0x40 % 0x40),
      byte (0x80 + value % 0x40)]
  else
    some [byte (0xf0 + value / 0x40000), byte (0x80 + value / 0x1000 % 0x40),
      byte (0x80 + value / 0x40 % 0x40), byte (0x80 + value % 0x40)]

/-- `encode("utf-8")` -/
def utf8 : Str → Option (List Byte)
  | [] => some []
  | character :: text => do
      let first ← utf8Character character
      let rest ← utf8 text
      return first ++ rest

private theorem byte_eq_iff (first second : Nat) :
    byte first = byte second ↔ first % 0x100 = second % 0x100 := by
  rw [byte, byte, ← BitVec.toNat_inj, BitVec.toNat_ofNat, BitVec.toNat_ofNat]

/-- Encoded characters are told apart by their beginnings. -/
theorem utf8Character_append {first second : CodePoint}
    {bytes otherBytes rest otherRest : List Byte}
    (encoded : utf8Character first = some bytes)
    (otherEncoded : utf8Character second = some otherBytes)
    (same : bytes ++ rest = otherBytes ++ otherRest) :
    first = second ∧ rest = otherRest := by
  have bound := first.isLt
  have otherBound := second.isLt
  have equal : first.val = second.val ∧ rest = otherRest := by
    unfold utf8Character at encoded otherEncoded
    dsimp only at encoded otherEncoded
    split_ifs at encoded otherEncoded
    all_goals
      cases encoded
      cases otherEncoded
      simp only [List.cons_append, List.nil_append, List.cons.injEq,
        byte_eq_iff] at same
      first
        | exact ⟨by omega, same.2⟩
        | exact ⟨by omega, same.2.2⟩
        | exact ⟨by omega, same.2.2.2⟩
        | exact ⟨by omega, same.2.2.2.2⟩
        | exact absurd same.1 (by omega)
  exact ⟨Fin.ext equal.1, equal.2⟩

/-- The bits of a character, from the bytes that encode it. -/
def characterOf : List Byte → CodePoint
  | [first] => CodePoint.ofNat first.toNat
  | [first, second] =>
      CodePoint.ofNat (first.toNat % 0x20 * 0x40 + second.toNat % 0x40)
  | [first, second, third] =>
      CodePoint.ofNat ((first.toNat % 0x10 * 0x40 + second.toNat % 0x40) * 0x40 +
        third.toNat % 0x40)
  | [first, second, third, fourth] =>
      CodePoint.ofNat (((first.toNat % 0x08 * 0x40 + second.toNat % 0x40) * 0x40 +
        third.toNat % 0x40) * 0x40 + fourth.toNat % 0x40)
  | _ => 0

/-- The bytes of a character give its bits back. -/
theorem characterOf_utf8Character {character : CodePoint}
    {bytes : List Byte} (encoded : utf8Character character = some bytes) :
    characterOf bytes = character ∧ bytes.length ∈ [1, 2, 3, 4] := by
  have bound := character.isLt
  have point (value : Nat) (same : value = character.val) :
      CodePoint.ofNat value = character := by
    apply Fin.ext
    rw [same, CodePoint.ofNat, Fin.val_ofNat]
    exact Nat.mod_eq_of_lt bound
  unfold utf8Character at encoded
  dsimp only at encoded
  split_ifs at encoded
  all_goals
    cases encoded
    refine ⟨?_, by simp⟩
    apply point
    simp only [byte, BitVec.toNat_ofNat]
    omega

/-- A byte in ASCII is no part of a longer character. -/
theorem utf8Character_of_ascii {character : CodePoint}
    {bytes : List Byte} (encoded : utf8Character character = some bytes)
    {part : Byte} (member : part ∈ bytes) (ascii : part.toNat < 0x80) :
    bytes = [part] ∧ character.val = part.toNat := by
  have bound := character.isLt
  unfold utf8Character at encoded
  dsimp only at encoded
  split_ifs at encoded
  all_goals
    cases encoded
    simp only [List.mem_cons, List.not_mem_nil, or_false] at member
  · subst member
    refine ⟨rfl, ?_⟩
    simp only [byte, BitVec.toNat_ofNat]
    omega
  all_goals
    rcases member with rfl | rfl | rfl | rfl
    all_goals
      simp only [byte, BitVec.toNat_ofNat] at ascii
      omega

theorem utf8_cons {character : CodePoint} {text : Str}
    {bytes : List Byte} (encoded : utf8 (character :: text) = some bytes) :
    ∃ first rest, utf8Character character = some first ∧
      utf8 text = some rest ∧ first ++ rest = bytes := by
  obtain ⟨first, here, encoded⟩ := Option.bind_eq_some_iff.mp encoded
  obtain ⟨rest, there, encoded⟩ := Option.bind_eq_some_iff.mp encoded
  exact ⟨first, rest, here, there, Option.some.inj encoded⟩

theorem utf8Character_ne_nil {character : CodePoint}
    {bytes : List Byte} (encoded : utf8Character character = some bytes) :
    bytes ≠ [] := by
  unfold utf8Character at encoded
  dsimp only at encoded
  split_ifs at encoded
  all_goals
    cases encoded
    exact List.cons_ne_nil _ _

theorem utf8_append {first second : Str} {bytes otherBytes : List Byte}
    (encoded : utf8 first = some bytes)
    (otherEncoded : utf8 second = some otherBytes) :
    utf8 (first ++ second) = some (bytes ++ otherBytes) := by
  induction first generalizing bytes with
  | nil =>
      cases encoded
      exact otherEncoded
  | cons character first induction =>
      obtain ⟨head, tail, here, rest, rfl⟩ := utf8_cons encoded
      rw [List.cons_append, utf8, here, induction rest, List.append_assoc]
      rfl

/-- The end of a text that is encoded is encoded. -/
theorem exists_utf8_of_append {first second : Str} {bytes : List Byte}
    (encoded : utf8 (first ++ second) = some bytes) :
    ∃ rest, utf8 second = some rest := by
  induction first generalizing bytes with
  | nil => exact ⟨bytes, encoded⟩
  | cons character first induction =>
      obtain ⟨_, rest, _, there, _⟩ := utf8_cons encoded
      exact induction there

/-- Characters before the surrogates are encoded. -/
theorem exists_utf8_of_small {text : Str}
    (small : ∀ character ∈ text, character.val < 0x800) :
    ∃ bytes, utf8 text = some bytes := by
  induction text with
  | nil => exact ⟨[], rfl⟩
  | cons character text induction =>
      obtain ⟨rest, there⟩ := induction fun other member =>
        small other (List.mem_cons_of_mem _ member)
      have bound := small character List.mem_cons_self
      have here : ∃ first, utf8Character character = some first := by
        unfold utf8Character
        dsimp only
        split_ifs
        · exact ⟨_, rfl⟩
        · exact ⟨_, rfl⟩
      obtain ⟨first, here⟩ := here
      refine ⟨first ++ rest, ?_⟩
      rw [utf8, here, there]
      rfl

/-- The bytes of a text determine the text. -/
theorem utf8_injective {first second : Str} {bytes : List Byte}
    (encoded : utf8 first = some bytes)
    (otherEncoded : utf8 second = some bytes) : first = second := by
  induction first generalizing second bytes with
  | nil =>
      cases encoded
      cases second with
      | nil => rfl
      | cons character text =>
          obtain ⟨head, tail, here, _, empty⟩ := utf8_cons otherEncoded
          have none := (List.append_eq_nil_iff.mp empty).1
          exact absurd none (utf8Character_ne_nil here)
  | cons character first induction =>
      obtain ⟨head, tail, here, rest, joined⟩ := utf8_cons encoded
      cases second with
      | nil =>
          cases otherEncoded
          have none := (List.append_eq_nil_iff.mp joined).1
          exact absurd none (utf8Character_ne_nil here)
      | cons other second =>
          obtain ⟨otherHead, otherTail, otherHere, otherRest, otherJoined⟩ :=
            utf8_cons otherEncoded
          obtain ⟨rfl, rfl⟩ := utf8Character_append here otherHere
            (joined.trans otherJoined.symm)
          rw [induction rest otherRest]

namespace Json

def lineFeed : CodePoint := 0x0a

/-- `json.dumps(value, sort_keys=True, separators=(",", ":"),
ensure_ascii=False) + "\n"` in UTF-8. -/
def canonical (value : Json) : Option (List Byte) :=
  utf8 (value.sorted.text ++ [lineFeed])

theorem canonical_sorted (value : Json) :
    canonical value.sorted = canonical value := by
  rw [canonical, sorted_sorted]
  rfl

theorem sorted_of_canonical {first second : Json} {bytes : List Byte}
    (encoded : first.canonical = some bytes)
    (otherEncoded : second.canonical = some bytes) :
    first.sorted = second.sorted := by
  have texts := utf8_injective encoded otherEncoded
  exact text_injective (List.append_cancel_right texts)

end Json

/-- Canonical bytes, with the value that they are read back as. -/
structure Canonical where
  value : Json
  bytes : List Byte
  ordered : value.sorted = value
  encoded : value.canonical = some bytes

namespace Canonical

private theorem encoded_sorted {value : Json} {bytes : List Byte}
    (encoded : value.canonical = some bytes) :
    value.sorted.canonical = some bytes := by
  rw [Json.canonical_sorted, encoded]

def of? (value : Json) : Option Canonical :=
  match encoded : value.canonical with
  | some bytes =>
      some ⟨value.sorted, bytes, Json.sorted_sorted value,
        encoded_sorted encoded⟩
  | none => none

theorem value_of? {value : Json} {text : Canonical}
    (made : of? value = some text) : text.value = value.sorted := by
  unfold of? at made
  split at made
  · cases made
    rfl
  · cases made

theorem isSome_of? (value : Json) :
    (of? value).isSome = value.canonical.isSome := by
  unfold of?
  split
  · rename_i encoded
    exact (Option.isSome_of_eq_some encoded).symm
  · rename_i missing
    exact (Option.isSome_eq_false_iff.mpr (by simp [missing])).symm

/-- The bytes tell canonical texts apart. -/
theorem ext_bytes {first second : Canonical}
    (same : first.bytes = second.bytes) : first = second := by
  obtain ⟨value, bytes, ordered, encoded⟩ := first
  obtain ⟨other, otherBytes, otherOrdered, otherEncoded⟩ := second
  cases same
  have equal := Json.sorted_of_canonical encoded otherEncoded
  rw [ordered, otherOrdered] at equal
  cases equal
  rfl

theorem of?_eq_some {value : Json} {text : Canonical} :
    of? value = some text ↔ value.sorted = text.value := by
  constructor
  · intro made
    exact (value_of? made).symm
  · intro same
    have encoded : value.canonical = some text.bytes := by
      rw [← Json.canonical_sorted, same, text.encoded]
    have made : (of? value).isSome := by
      unfold of?
      split
      · rfl
      · rename_i missing
        rw [missing] at encoded
        cases encoded
    obtain ⟨other, made⟩ := Option.isSome_iff_exists.mp made
    have otherSame := value_of? made
    have otherEncoded := other.encoded
    rw [otherSame, Json.canonical_sorted, encoded] at otherEncoded
    rw [made]
    exact congrArg some (ext_bytes (Option.some.inj otherEncoded).symm)

/-- The text of a canonical value. -/
def text (canonical : Canonical) : Str :=
  canonical.value.text ++ [Json.lineFeed]

private theorem utf8_text (canonical : Canonical) :
    utf8 canonical.text = some canonical.bytes := by
  have encoded := canonical.encoded
  rw [Json.canonical, canonical.ordered] at encoded
  exact encoded

theorem utf8_flatMap_text (texts : List Canonical) :
    utf8 (texts.flatMap text) = some (texts.flatMap (·.bytes)) := by
  induction texts with
  | nil => rfl
  | cons first texts induction =>
      rw [List.flatMap_cons, List.flatMap_cons]
      exact utf8_append (utf8_text first) induction

private theorem delimited_lineFeed (rest : Str) :
    Json.Delimited (Json.lineFeed :: rest) :=
  Json.delimited_cons (by decide)

private theorem flatMap_text_injective {first second : List Canonical}
    (same : first.flatMap text = second.flatMap text) : first = second := by
  induction first generalizing second with
  | nil =>
      cases second with
      | nil => rfl
      | cons other second => simp [text] at same
  | cons head first induction =>
      cases second with
      | nil => simp [text] at same
      | cons other second =>
          rw [List.flatMap_cons, List.flatMap_cons, text, text,
            List.append_assoc, List.append_assoc] at same
          obtain ⟨values, rests⟩ := Json.text_append (delimited_lineFeed _)
            (delimited_lineFeed _) same
          have heads : head = other := by
            apply ext_bytes
            have encoded := head.encoded
            rw [values, other.encoded] at encoded
            exact (Option.some.inj encoded).symm
          rw [heads, induction (List.cons.inj rests).2]

/-- Canonical texts one after the other can be told apart. -/
theorem flatMap_bytes_injective {first second : List Canonical}
    (same : first.flatMap (·.bytes) = second.flatMap (·.bytes)) :
    first = second := by
  apply flatMap_text_injective
  apply utf8_injective (utf8_flatMap_text first)
  rw [same]
  exact utf8_flatMap_text second

end Canonical

end PpcLab
