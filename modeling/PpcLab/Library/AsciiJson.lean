import PpcLab.Library.JsonText

/-!
# JSON texts in ASCII

The text that `json.dumps` prints when it escapes what is not ASCII: every
other character is written as one or two escapes of four digits.  The escapes
of a pair of surrogates are those of one character, so a text stands for its
strings up to the pairing of surrogates.
-/

namespace PpcLab

def isHighSurrogate (character : CodePoint) : Bool :=
  0xd800 ≤ character.val && character.val < 0xdc00

def isLowSurrogate (character : CodePoint) : Bool :=
  0xdc00 ≤ character.val && character.val < 0xe000

/-- A character as units of sixteen bits. -/
def surrogates (character : CodePoint) : Str :=
  if character.val < 0x10000 then [character]
  else
    [CodePoint.ofNat (0xd800 + (character.val - 0x10000) / 0x400),
      CodePoint.ofNat (0xdc00 + (character.val - 0x10000) % 0x400)]

def units (text : Str) : Str :=
  text.flatMap surrogates

def joined (high low : CodePoint) : CodePoint :=
  CodePoint.ofNat
    (0x10000 + 0x400 * (high.val - 0xd800) + (low.val - 0xdc00))

/-- Every high surrogate joined with a low one that follows it. -/
def paired : Str → Str
  | [] => []
  | [character] => [character]
  | first :: second :: text =>
      if isHighSurrogate first && isLowSurrogate second then
        joined first second :: paired text
      else first :: paired (second :: text)

private theorem val_ofNat {value : Nat} (small : value < 0x110000) :
    (CodePoint.ofNat value).val = value := by
  rw [CodePoint.ofNat, Fin.val_ofNat]
  exact Nat.mod_eq_of_lt small

private theorem isHighSurrogate_iff (character : CodePoint) :
    isHighSurrogate character ↔
      0xd800 ≤ character.val ∧ character.val < 0xdc00 := by
  simp [isHighSurrogate]

private theorem isLowSurrogate_iff (character : CodePoint) :
    isLowSurrogate character ↔
      0xdc00 ≤ character.val ∧ character.val < 0xe000 := by
  simp [isLowSurrogate]

theorem paired_cons_of_not_high {first : CodePoint} (text : Str)
    (single : isHighSurrogate first = false) :
    paired (first :: text) = first :: paired text := by
  cases text with
  | nil => rfl
  | cons second text =>
      rw [paired, single]
      rfl

private theorem paired_cons_of_not_low (first : CodePoint) {second : CodePoint}
    (text : Str) (single : isLowSurrogate second = false) :
    paired (first :: second :: text) = first :: paired (second :: text) := by
  rw [paired, single, Bool.and_false]
  rfl

private theorem paired_cons_pair {high low : CodePoint} (text : Str)
    (isHigh : isHighSurrogate high) (isLow : isLowSurrogate low) :
    paired (high :: low :: text) = joined high low :: paired text := by
  rw [paired, isHigh, isLow]
  rfl

/-- A character beyond sixteen bits is a pair of surrogates. -/
private theorem surrogates_of_large {character : CodePoint}
    (large : 0x10000 ≤ character.val) :
    ∃ high low, surrogates character = [high, low] ∧
      isHighSurrogate high ∧ isLowSurrogate low ∧
      joined high low = character := by
  have bound := character.isLt
  refine ⟨_, _, if_neg (Nat.not_lt.mpr large), ?_, ?_, ?_⟩
  · rw [isHighSurrogate_iff, val_ofNat (by omega)]
    omega
  · rw [isLowSurrogate_iff, val_ofNat (by omega)]
    omega
  · have high : (CodePoint.ofNat
        (0xd800 + (character.val - 0x10000) / 0x400)).val =
          0xd800 + (character.val - 0x10000) / 0x400 := val_ofNat (by omega)
    have low : (CodePoint.ofNat
        (0xdc00 + (character.val - 0x10000) % 0x400)).val =
          0xdc00 + (character.val - 0x10000) % 0x400 := val_ofNat (by omega)
    apply Fin.ext
    rw [joined, high, low, val_ofNat (by omega)]
    omega

private theorem surrogates_of_small {character : CodePoint}
    (small : character.val < 0x10000) : surrogates character = [character] :=
  if_pos small

/-- Pairing the units of a text pairs the text. -/
theorem paired_units (text : Str) : paired (units text) = paired text := by
  induction text using paired.induct with
  | case1 => rfl
  | case2 character =>
      rw [units, List.flatMap_singleton]
      by_cases small : character.val < 0x10000
      · rw [surrogates_of_small small]
      · obtain ⟨high, low, parts, isHigh, isLow, whole⟩ :=
          surrogates_of_large (Nat.not_lt.mp small)
        rw [parts, paired_cons_pair _ isHigh isLow, whole]
        rfl
  | case3 first second text pair induction =>
      have both := Bool.and_eq_true_iff.mp pair
      have highBound := (isHighSurrogate_iff first).mp both.1
      have lowBound := (isLowSurrogate_iff second).mp both.2
      rw [units, List.flatMap_cons, List.flatMap_cons,
        surrogates_of_small (by omega), surrogates_of_small (by omega),
        List.singleton_append, List.singleton_append, paired, paired,
        if_pos pair, if_pos pair]
      exact congrArg _ induction
  | case4 first second text single induction =>
      rw [paired, if_neg single, ← induction, units, List.flatMap_cons]
      by_cases small : first.val < 0x10000
      · rw [surrogates_of_small small, List.singleton_append]
        by_cases isHigh : isHighSurrogate first = true
        · have notLow : isLowSurrogate second = false := by
            simpa [isHigh] using single
          rw [units, List.flatMap_cons]
          by_cases smallSecond : second.val < 0x10000
          · rw [surrogates_of_small smallSecond, List.singleton_append,
              paired_cons_of_not_low _ _ notLow]
          · obtain ⟨high, low, parts, highSecond, _, _⟩ :=
              surrogates_of_large (Nat.not_lt.mp smallSecond)
            have bound := (isHighSurrogate_iff high).mp highSecond
            have notLowSecond : isLowSurrogate high = false := by
              rw [Bool.eq_false_iff, ne_eq, isLowSurrogate_iff]
              omega
            rw [parts, List.cons_append,
              paired_cons_of_not_low _ _ notLowSecond]
        · exact paired_cons_of_not_high _ (Bool.eq_false_iff.mpr isHigh)
      · obtain ⟨high, low, parts, isHigh, isLow, whole⟩ :=
          surrogates_of_large (Nat.not_lt.mp small)
        rw [parts, List.cons_append, List.singleton_append,
          paired_cons_pair _ isHigh isLow, whole]
        rfl

private theorem units_cons (character : CodePoint) (text : Str) :
    units (character :: text) = surrogates character ++ units text :=
  List.flatMap_cons

/-- A text and its pairing have the same units. -/
theorem units_paired (text : Str) : units (paired text) = units text := by
  induction text using paired.induct with
  | case1 => rfl
  | case2 character => rfl
  | case3 first second text pair induction =>
      have both := Bool.and_eq_true_iff.mp pair
      have highBound := (isHighSurrogate_iff first).mp both.1
      have lowBound := (isLowSurrogate_iff second).mp both.2
      have whole : (joined first second).val =
          0x10000 + 0x400 * (first.val - 0xd800) + (second.val - 0xdc00) :=
        val_ofNat (by omega)
      have high : CodePoint.ofNat
          (0xd800 + ((joined first second).val - 0x10000) / 0x400) = first := by
        apply Fin.ext
        rw [val_ofNat (by omega), whole]
        omega
      have low : CodePoint.ofNat
          (0xdc00 + ((joined first second).val - 0x10000) % 0x400) =
            second := by
        apply Fin.ext
        rw [val_ofNat (by omega), whole]
        omega
      have parts : surrogates (joined first second) = [first, second] := by
        rw [surrogates, if_neg (by omega), high, low]
      have firstSmall : first.val < 0x10000 := by
        omega
      have secondSmall : second.val < 0x10000 := by
        omega
      rw [paired, if_pos pair, units_cons, induction, units_cons, units_cons,
        surrogates_of_small firstSmall, surrogates_of_small secondSmall, parts]
      rfl
  | case4 first second text single induction =>
      rw [paired, if_neg single, units_cons, induction, ← units_cons]

theorem paired_paired (text : Str) : paired (paired text) = paired text := by
  rw [← paired_units (paired text), units_paired, paired_units]

def escapedUnit (unit : CodePoint) : Str :=
  [backslash, 0x75, hexDigit (unit.val / 0x1000),
    hexDigit (unit.val / 0x100 % 0x10), hexDigit (unit.val / 0x10 % 0x10),
    hexDigit (unit.val % 0x10)]

def asciiCharacter (character : CodePoint) : Str :=
  if 0x20 ≤ character.val ∧ character.val < 0x7f then [character]
  else (surrogates character).flatMap escapedUnit

def inAscii (text : Str) : Str :=
  text.flatMap asciiCharacter

theorem inAscii_cons (character : CodePoint) (text : Str) :
    inAscii (character :: text) = asciiCharacter character ++ inAscii text :=
  List.flatMap_cons

theorem inAscii_append (first second : Str) :
    inAscii (first ++ second) = inAscii first ++ inAscii second :=
  List.flatMap_append

theorem asciiCharacter_of_plain {character : CodePoint}
    (low : 0x20 ≤ character.val) (high : character.val < 0x7f) :
    asciiCharacter character = [character] :=
  if_pos ⟨low, high⟩

/-- What is printable in ASCII stays as it is. -/
theorem inAscii_of_plain {text : Str}
    (plain : ∀ character ∈ text,
      0x20 ≤ character.val ∧ character.val < 0x7f) : inAscii text = text := by
  induction text with
  | nil => rfl
  | cons character text induction =>
      have here := plain character List.mem_cons_self
      rw [inAscii_cons, asciiCharacter_of_plain here.1 here.2,
        induction fun other member =>
          plain other (List.mem_cons_of_mem _ member)]
      rfl

/-- What stands for one unit inside of a string. -/
def stringUnit (unit : CodePoint) : Str :=
  inAscii (escaped unit)

private theorem escaped_of_large {character : CodePoint}
    (large : 0x7f ≤ character.val) : escaped character = [character] := by
  refine if_pos ⟨by omega, ?_⟩
  rintro rfl
  exact absurd large (by decide)

/-- The escapes of a character are those of its units. -/
theorem inAscii_escaped (character : CodePoint) :
    inAscii (escaped character) =
      (surrogates character).flatMap stringUnit := by
  by_cases small : character.val < 0x10000
  · rw [surrogates_of_small small, List.flatMap_singleton]
    rfl
  · obtain ⟨high, low, parts, isHigh, isLow, _⟩ :=
      surrogates_of_large (Nat.not_lt.mp small)
    have highBound := (isHighSurrogate_iff high).mp isHigh
    have lowBound := (isLowSurrogate_iff low).mp isLow
    have unit {part : CodePoint} (large : 0xd800 ≤ part.val)
        (small : part.val < 0x10000) : stringUnit part = escapedUnit part := by
      rw [stringUnit, escaped_of_large (by omega), inAscii,
        List.flatMap_singleton, asciiCharacter, if_neg (by omega),
        surrogates_of_small small, List.flatMap_singleton]
    rw [escaped_of_large (by omega), inAscii, List.flatMap_singleton,
      asciiCharacter, if_neg (by omega), parts]
    simp only [List.flatMap_cons, List.flatMap_nil]
    rw [unit highBound.1 (by omega), unit (by omega) (by omega)]

theorem inAscii_flatMap_escaped (text : Str) :
    inAscii (text.flatMap escaped) = (units text).flatMap stringUnit := by
  induction text with
  | nil => rfl
  | cons character text induction =>
      rw [List.flatMap_cons, inAscii_append, induction, units_cons,
        List.flatMap_append, inAscii_escaped]

theorem inAscii_quoted (text : Str) :
    inAscii (quoted text) =
      doubleQuote :: ((units text).flatMap stringUnit ++ [doubleQuote]) := by
  have quote : asciiCharacter doubleQuote = [doubleQuote] :=
    asciiCharacter_of_plain (by decide) (by decide)
  rw [quoted, inAscii_cons, inAscii_append, inAscii_flatMap_escaped, quote,
    inAscii, List.flatMap_singleton, quote]
  rfl

namespace Json

/-- `json.dumps(value, separators=(",", ":"))` -/
def asciiText (value : Json) : Str :=
  inAscii value.text

/-- The pairing of the surrogates of a string does not show. -/
theorem asciiText_paired (value : Str) :
    (Json.string (paired value)).asciiText =
      (Json.string value).asciiText := by
  rw [asciiText, asciiText, text, text, inAscii_quoted, inAscii_quoted,
    units_paired]

private theorem hexDigit_printable (value : Nat) :
    0x20 ≤ (hexDigit value).val ∧ (hexDigit value).val < 0x7f := by
  have all : ∀ value : Fin 16, 0x20 ≤ (hexDigit value.val).val ∧
      (hexDigit value.val).val < 0x7f := by
    decide
  by_cases small : value < 16
  · exact all ⟨value, small⟩
  · have star : Nat.digitChar value = '*' := by
      unfold Nat.digitChar
      iterate 16 rw [if_neg (by omega)]
    rw [hexDigit, star]
    decide

/-- Texts in ASCII can be printed. -/
theorem printable_of_mem_inAscii {text : Str} {character : CodePoint}
    (member : character ∈ inAscii text) :
    0x20 ≤ character.val ∧ character.val < 0x7f := by
  obtain ⟨source, _, part⟩ := List.mem_flatMap.mp member
  unfold asciiCharacter at part
  split at part
  · rename_i printable
    rw [List.mem_singleton.mp part]
    exact printable
  · obtain ⟨unit, _, inUnit⟩ := List.mem_flatMap.mp part
    simp only [escapedUnit, List.mem_cons, List.not_mem_nil, or_false]
      at inUnit
    rcases inUnit with rfl | rfl | rfl | rfl | rfl | rfl
    · decide
    · decide
    all_goals exact hexDigit_printable _

end Json

end PpcLab
