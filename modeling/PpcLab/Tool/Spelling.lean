import PpcLab.Library.PythonText
import PpcLab.Tool.Options

/-!
# Numbers of two readers

The command line tool and Python read numbers from the same texts.  What the
tool takes for a number is the same number for Python, except for spellings
that `int(text, 0)` refuses: decimal numbers with a zero in front or with very
many digits, and numbers with a separator beside them.
-/

namespace PpcLab.Tool

open Numerals (underscore)

def denoted (base : Nat) (digits : List Nat) : Nat :=
  digits.foldl (fun value digit => base * value + digit) 0

private theorem range_of_digitValue {base digit : Nat} {character : Char}
    (found : digitValue base character = some digit) :
    digit < base ∧
      ((0x30 ≤ character.toNat ∧ character.toNat ≤ 0x39 ∧
          digit = character.toNat - 0x30) ∨
        (0x61 ≤ character.toNat ∧ character.toNat ≤ 0x66 ∧
          digit = character.toNat - 0x61 + 10) ∨
        (0x41 ≤ character.toNat ∧ character.toNat ≤ 0x46 ∧
          digit = character.toNat - 0x41 + 10)) := by
  have bounds (first last : Char) : (first ≤ character ∧ character ≤ last) ↔
      first.toNat ≤ character.toNat ∧ character.toNat ≤ last.toNat := by
    rw [Char.le_def, Char.le_def, UInt32.le_iff_toNat_le,
      UInt32.le_iff_toNat_le]
    rfl
  have digits : ('0'.toNat = 0x30 ∧ '9'.toNat = 0x39) ∧
      ('a'.toNat = 0x61 ∧ 'f'.toNat = 0x66) ∧
      ('A'.toNat = 0x41 ∧ 'F'.toNat = 0x46) := by
    decide
  obtain ⟨⟨zero, nine⟩, ⟨lowA, lowF⟩, upA, upF⟩ := digits
  unfold digitValue at found
  simp only [bounds, zero, nine, lowA, lowF, upA, upF] at found
  obtain ⟨small, same⟩ := Option.ite_none_right_eq_some.mp found
  have isDigit := Option.some.inj same
  split_ifs at small isDigit <;> omega

theorem digit_of_digitValue (numerals : Numerals) {base digit : Nat}
    {character : Char}
    (found : digitValue base character = some digit) :
    numerals.digit base (codePoint character) = some digit ∧
      codePoint character ≠ underscore := by
  obtain ⟨small, ranges⟩ := range_of_digitValue found
  have value : (codePoint character).val = character.toNat := rfl
  have ascii := numerals.ordinary (codePoint character) (by rw [value]; omega)
  have notUnderscore : codePoint character ≠ underscore := by
    intro same
    have here : character.toNat = 0x5f := congrArg Fin.val same
    omega
  refine ⟨?_, notUnderscore⟩
  unfold Numerals.digit
  simp only [ascii, asciiDigit, value]
  rcases ranges with ⟨low, high, rfl⟩ | ⟨low, high, rfl⟩ | ⟨low, high, rfl⟩
  · rw [if_pos (by omega)]
    simp [small]
  · rw [if_neg (by omega), if_pos (by omega)]
    simp [small]
  · rw [if_neg (by omega), if_neg (by omega), if_pos (by omega)]
    simp [small]

/-- Digits are read from left to right. -/
theorem digits_map_codePoint (numerals : Numerals) {base : Nat} {text : List Char}
    {values : List Nat} (read : text.mapM (digitValue base) = some values)
    (start : Nat) (afterDigit : Bool) :
    numerals.digits base start afterDigit (text.map codePoint) =
      if text = [] ∧ afterDigit = false then none
      else some
        (values.foldl (fun value digit => base * value + digit) start) := by
  induction text generalizing values start afterDigit with
  | nil =>
      cases read
      cases afterDigit <;> rfl
  | cons character text induction =>
      rw [List.mapM_cons] at read
      obtain ⟨digit, isDigit, read⟩ := Option.bind_eq_some_iff.mp read
      obtain ⟨others, rest, read⟩ := Option.bind_eq_some_iff.mp read
      cases read
      obtain ⟨same, notUnderscore⟩ := digit_of_digitValue numerals isDigit
      rw [List.map_cons, Numerals.digits, if_neg notUnderscore, same]
      change numerals.digits base (base * start + digit) true
        (text.map codePoint) = _
      rw [induction rest]
      simp

theorem fromChars_eq_some {base value : Nat} {text : List Char}
    (read : fromChars base text = some value) :
    ∃ values, text.mapM (digitValue base) = some values ∧ text ≠ [] ∧
      value = denoted base values := by
  obtain ⟨values, digits, read⟩ := Option.bind_eq_some_iff.mp read
  obtain ⟨bounds, same⟩ := Option.ite_none_right_eq_some.mp read
  refine ⟨values, digits, ?_, (Option.some.inj same).symm⟩
  rintro rfl
  cases digits
  exact absurd bounds.1 (by decide)

/-- A number in hexadecimal digits behind a prefix, or in decimal digits. -/
inductive Numeral : List Char → Nat → Prop where
  | hexadecimal {mark : Char} {text : List Char} {values : List Nat} :
      mark = 'x' ∨ mark = 'X' → text ≠ [] →
      text.mapM (digitValue 16) = some values →
      Numeral ('0' :: mark :: text) (denoted 16 values)
  | decimal {text : List Char} {values : List Nat} :
      text ≠ [] → text.mapM (digitValue 10) = some values →
      Numeral text (denoted 10 values)

theorem numeral_of_parseUnsigned {text : List Char} {value : Nat}
    (read : parseUnsigned text = some value) : Numeral text value := by
  unfold parseUnsigned at read
  split at read
  · split at read
    · rename_i marked
      obtain ⟨values, digits, some, rfl⟩ := fromChars_eq_some read
      exact .hexadecimal marked some digits
    · obtain ⟨values, digits, some, rfl⟩ := fromChars_eq_some read
      exact .decimal some digits
  · obtain ⟨values, digits, some, rfl⟩ := fromChars_eq_some read
    exact .decimal some digits

private theorem prefixes_eq : Numerals.prefixes =
    [([0x30, 0x78], 16), ([0x30, 0x58], 16), ([0x30, 0x6f], 8),
      ([0x30, 0x4f], 8), ([0x30, 0x62], 2), ([0x30, 0x42], 2)] := by
  decide

private theorem visible_of_digits {text : List Char} {values : List Nat}
    (digits : text.mapM (digitValue 16) = some values) :
    ∀ character ∈ text,
      0x30 ≤ (codePoint character).val ∧ (codePoint character).val < 0x7f := by
  induction text generalizing values with
  | nil => exact fun _ absent => absurd absent List.not_mem_nil
  | cons character text induction =>
      rw [List.mapM_cons] at digits
      obtain ⟨digit, isDigit, digits⟩ := Option.bind_eq_some_iff.mp digits
      obtain ⟨others, rest, _⟩ := Option.bind_eq_some_iff.mp digits
      obtain ⟨small, ranges⟩ := range_of_digitValue isDigit
      refine List.forall_mem_cons.mpr ⟨?_, induction rest⟩
      change 0x30 ≤ character.toNat ∧ character.toNat < 0x7f
      omega

private theorem find?_prefixes_hexadecimal {mark : Char} (text : Str)
    (marked : mark = 'x' ∨ mark = 'X') :
    ∃ word, Numerals.prefixes.find? (fun entry => entry.1.isPrefixOf
        (codePoint '0' :: codePoint mark :: text)) = some (word, 16) ∧
      word.length = 2 := by
  rw [prefixes_eq]
  rcases marked with rfl | rfl
  · exact ⟨[0x30, 0x78], by simp [List.isPrefixOf]; decide, rfl⟩
  · exact ⟨[0x30, 0x58], by simp [List.isPrefixOf]; decide, rfl⟩

private theorem decimal_of_mem {text : List Char} {values : List Nat}
    (digits : text.mapM (digitValue 10) = some values) :
    ∀ character ∈ text,
      0x30 ≤ (codePoint character).val ∧ (codePoint character).val ≤ 0x39 := by
  induction text generalizing values with
  | nil => exact fun _ absent => absurd absent List.not_mem_nil
  | cons character text induction =>
      rw [List.mapM_cons] at digits
      obtain ⟨digit, isDigit, digits⟩ := Option.bind_eq_some_iff.mp digits
      obtain ⟨others, rest, _⟩ := Option.bind_eq_some_iff.mp digits
      obtain ⟨small, ranges⟩ := range_of_digitValue isDigit
      refine List.forall_mem_cons.mpr ⟨?_, induction rest⟩
      change 0x30 ≤ character.toNat ∧ character.toNat ≤ 0x39
      omega

/-- A second decimal digit is no mark of a base. -/
private theorem find?_prefixes_decimal {text : List Char} {values : List Nat}
    (digits : text.mapM (digitValue 10) = some values) :
    Numerals.prefixes.find? (fun entry => entry.1.isPrefixOf
      (text.map codePoint)) = none := by
  have small := decimal_of_mem digits
  rw [prefixes_eq]
  match text with
  | [] => rfl
  | [first] => simp [List.isPrefixOf]
  | first :: second :: text =>
      have bounds := small second (by simp)
      have other (mark : CodePoint) (letter : 0x39 < mark.val) :
          mark ≠ codePoint second := by
        rintro rfl
        omega
      simp only [List.find?_eq_none, List.forall_mem_cons, List.map_cons,
        List.isPrefixOf, Bool.and_eq_true, beq_iff_eq, not_and]
      refine ⟨fun _ same => absurd same (other _ (by decide)),
        fun _ same => absurd same (other _ (by decide)),
        fun _ same => absurd same (other _ (by decide)),
        fun _ same => absurd same (other _ (by decide)),
        fun _ same => absurd same (other _ (by decide)),
        fun _ same => absurd same (other _ (by decide)), ?_⟩
      exact fun _ absent => absurd absent List.not_mem_nil

private theorem prefixed_of_hexadecimal (numerals : Numerals) {mark : Char} {text : List Char}
    {values : List Nat} (marked : mark = 'x' ∨ mark = 'X') (some : text ≠ [])
    (digits : text.mapM (digitValue 16) = .some values) :
    numerals.prefixed (('0' :: mark :: text).map codePoint) =
      .some (denoted 16 values) := by
  obtain ⟨word, found, length⟩ :=
    find?_prefixes_hexadecimal (text.map codePoint) marked
  rw [List.map_cons, List.map_cons, Numerals.prefixed, found]
  change numerals.digits 16 0 _ (List.drop word.length
    (codePoint '0' :: codePoint mark :: text.map codePoint)) = _
  rw [length, List.drop_succ_cons, List.drop_succ_cons, List.drop_zero,
    digits_map_codePoint numerals digits, if_neg (fun none => some none.1)]
  rfl

private theorem digit_eq_zero_iff (numerals : Numerals) {character : Char} {digit : Nat}
    (isDigit : digitValue 10 character = some digit) :
    numerals.digit 10 (codePoint character) = some 0 ↔
      codePoint character = codePoint '0' := by
  obtain ⟨small, ranges⟩ := range_of_digitValue isDigit
  rw [(digit_of_digitValue numerals isDigit).1, Option.some.injEq]
  constructor
  · rintro rfl
    apply Fin.ext
    change character.toNat = 0x30
    omega
  · intro same
    have here : character.toNat = 0x30 := congrArg Fin.val same
    omega

private theorem prefixed_of_decimal (numerals : Numerals) {text : List Char} {values : List Nat}
    (some : text ≠ []) (digits : text.mapM (digitValue 10) = .some values) :
    numerals.prefixed (text.map codePoint) =
      if numerals.permits (text.map codePoint) = false ∨
          ((text.map codePoint).head? = .some (codePoint '0') ∧
            denoted 10 values ≠ 0) then none
      else .some (denoted 10 values) := by
  have filled : ¬(text = [] ∧ false = false) := fun nothing => some nothing.1
  rw [Numerals.prefixed, find?_prefixes_decimal digits]
  dsimp only
  rw [Numerals.decimals, digits_map_codePoint numerals digits, if_neg filled]
  cases permitted : numerals.permits (text.map codePoint) with
  | false => rfl
  | true =>
      rw [if_pos rfl, Option.bind_eq_bind, Option.bind_some]
      obtain ⟨first, rest, rfl⟩ := List.exists_cons_of_ne_nil some
      rw [List.mapM_cons] at digits
      obtain ⟨digit, isDigit, _⟩ := Option.bind_eq_some_iff.mp digits
      have isZero := digit_eq_zero_iff numerals isDigit
      rw [List.map_cons, List.head?_cons, Option.bind_some]
      simp only [isZero, Option.some.injEq, Bool.true_eq_false, false_or]
      rfl

/-- A numeral begins with a digit. -/
private theorem head_of_numeral {text : List Char} {value : Nat}
    (numeral : Numeral text value) :
    ∃ first rest, text = first :: rest ∧ 0x30 ≤ (codePoint first).val ∧
      (codePoint first).val ≤ 0x39 := by
  cases numeral with
  | @hexadecimal mark text values marked some digits =>
      exact ⟨'0', mark :: text, rfl, by decide, by decide⟩
  | @decimal _ values some digits =>
      obtain ⟨first, rest, rfl⟩ := List.exists_cons_of_ne_nil some
      have bounds := decimal_of_mem digits first List.mem_cons_self
      exact ⟨first, rest, rfl, bounds⟩

private theorem digits_of_separator (numerals : Numerals) {text : Str} {character : CodePoint}
    (separates : Numerals.isSeparator character) (member : character ∈ text)
    (base value : Nat) (afterDigit : Bool) :
    numerals.digits base value afterDigit text = none := by
  obtain ⟨low, high⟩ := Bool.and_eq_true_iff.mp separates
  have low := of_decide_eq_true low
  have high := of_decide_eq_true high
  have noDigit : numerals.digit base character = none := by
    unfold Numerals.digit
    simp only [numerals.ordinary character (by omega), asciiDigit]
    rw [if_neg (by omega), if_neg (by omega), if_neg (by omega)]
    rfl
  have notUnderscore : character ≠ underscore := by
    rintro rfl
    exact absurd high (by decide)
  induction text generalizing value afterDigit with
  | nil => cases member
  | cons first text induction =>
      rw [Numerals.digits]
      rcases List.mem_cons.mp member with rfl | later
      · rw [if_neg notUnderscore, noDigit]
        rfl
      · split
        · split
          · exact induction later value false
          · rfl
        · cases numerals.digit base first with
          | none => rfl
          | some digit => exact induction later _ true

private theorem prefixed_of_separator (numerals : Numerals) {text : Str} {character : CodePoint}
    (separates : Numerals.isSeparator character) (member : character ∈ text) :
    numerals.prefixed text = none := by
  unfold Numerals.prefixed
  split
  · rename_i word base found
    have starts := List.find?_some found
    obtain ⟨rest, rfl⟩ := List.isPrefixOf_iff_prefix.mp starts
    have listed := List.mem_of_find?_eq_some found
    have plain : ∀ entry ∈ Numerals.prefixes, ∀ character ∈ entry.1,
        Numerals.isSeparator character = false := by
      decide
    rw [List.drop_left]
    refine digits_of_separator numerals separates ?_ _ _ _
    refine (List.mem_append.mp member).resolve_left fun marked => ?_
    rw [plain _ listed _ marked] at separates
    cases separates
  · rw [Numerals.decimals, digits_of_separator numerals separates member,
      ite_self]
    rfl

private theorem ofLiteral_of_separator (numerals : Numerals) {text : Str} {character : CodePoint}
    (separates : Numerals.isSeparator character)
    (member : character ∈ Numerals.trim text) :
    numerals.ofLiteral text = none := by
  have noSign (sign : CodePoint) (isSign : sign = 0x2d ∨ sign = 0x2b) :
      character ≠ sign := by
    rintro rfl
    rcases isSign with rfl | rfl
    · exact absurd separates (by decide)
    · exact absurd separates (by decide)
  unfold Numerals.ofLiteral Numerals.signed
  generalize Numerals.trim text = trimmed at member
  cases trimmed with
  | nil => rfl
  | cons sign rest =>
      dsimp only
      have inRest (isSign : sign = 0x2d ∨ sign = 0x2b) : character ∈ rest :=
        (List.mem_cons.mp member).resolve_left (noSign sign isSign)
      split
      · rename_i isMinus
        rw [prefixed_of_separator numerals separates (inRest (.inl isMinus))]
        rfl
      · split
        · rename_i isPlus
          rw [prefixed_of_separator numerals separates (inRest (.inr isPlus))]
          rfl
        · rw [prefixed_of_separator numerals separates member]
          rfl

/-- The mark of a base is no decimal digit. -/
private theorem digits_of_hexadecimal (numerals : Numerals) {mark : Char} (characters : List Char)
    (marked : mark = 'x' ∨ mark = 'X') :
    numerals.digits 10 0 false
      (('0' :: mark :: characters).map codePoint) = none := by
  have noDigit : numerals.digit 10 (codePoint mark) = none := by
    unfold Numerals.digit
    rcases marked with rfl | rfl
    · rw [numerals.ordinary _ (by decide)]
      decide
    · rw [numerals.ordinary _ (by decide)]
      decide
  have notUnderscore (character : Char) (differs : character.toNat ≠ 0x5f) :
      codePoint character ≠ underscore :=
    fun same => differs (congrArg Fin.val same)
  have isZero : numerals.digit 10 (codePoint '0') = some 0 := by
    unfold Numerals.digit
    rw [numerals.ordinary _ (by decide)]
    decide
  rw [List.map_cons, List.map_cons, Numerals.digits,
    if_neg (notUnderscore '0' (by decide)), isZero, Option.bind_eq_bind,
    Option.bind_some, Numerals.digits, if_neg (notUnderscore mark ?_), noDigit]
  · rfl
  · rcases marked with rfl | rfl
    · decide
    · decide

/-- The spellings of a number that `int(text, 0)` refuses: with a separator
beside it, with more decimal digits than are converted, or with a zero in front
of a decimal number that is not zero. -/
def isRefused (numerals : Numerals) (text : Str) : Bool :=
  let number := Lines.strip text
  decide (Numerals.trim text ≠ number) ||
    (numerals.digits 10 0 false number).any fun value =>
      !numerals.permits number ||
        (number.head? == some (codePoint '0') && decide (value ≠ 0))

/-- Python reads the same number, unless it refuses the spelling. -/
theorem ofLiteral_of_numeral (numerals : Numerals) {text : Str} {characters : List Char}
    {value : Nat} (numeral : Numeral characters value)
    (stripped : Lines.strip text = characters.map codePoint) :
    numerals.ofLiteral text =
      if isRefused numerals text then none else some ↑value := by
  by_cases trimmed : Numerals.trim text = Lines.strip text
  · obtain ⟨first, rest, same, low, _⟩ := head_of_numeral numeral
    have begins : Numerals.trim text =
        codePoint first :: rest.map codePoint := by
      rw [trimmed, stripped, same, List.map_cons]
    have read : numerals.ofLiteral text =
        (numerals.prefixed (characters.map codePoint)).map
          fun value => (value : Int) := by
      rw [Numerals.ofLiteral, Numerals.signed_of_digit begins low, ← begins, trimmed,
        stripped]
    have refused : isRefused numerals text =
        (numerals.digits 10 0 false (characters.map codePoint)).any fun value =>
          !numerals.permits (characters.map codePoint) ||
            ((characters.map codePoint).head? == some (codePoint '0') &&
              decide (value ≠ 0)) := by
      rw [isRefused, stripped, trimmed, stripped]
      simp
    rw [read, refused]
    cases numeral with
    | hexadecimal marked some digits =>
        rw [prefixed_of_hexadecimal numerals marked some digits,
          digits_of_hexadecimal numerals _ marked]
        rfl
    | @decimal _ values some digits =>
        have filled : ¬(characters = [] ∧ false = false) :=
          fun nothing => some nothing.1
        rw [prefixed_of_decimal numerals some digits,
          digits_map_codePoint numerals digits, if_neg filled, Option.any_some,
          show values.foldl _ 0 = denoted 10 values from rfl]
        simp only [Bool.or_eq_true, Bool.not_eq_true', Bool.and_eq_true,
          beq_iff_eq, decide_eq_true_eq]
        split <;> rfl
  · have separated : ∃ character ∈ Numerals.trim text,
        Numerals.isSeparator character := by
      by_contra plain
      refine trimmed (Numerals.trim_eq_strip fun character member => ?_)
      rw [Bool.eq_false_iff]
      exact fun separates => plain ⟨character, member, separates⟩
    obtain ⟨character, member, separates⟩ := separated
    rw [ofLiteral_of_separator numerals separates member, isRefused,
      decide_eq_true trimmed]
    rfl

theorem ofText_of_decimal (numerals : Numerals) {text : List Char}
    {values : List Nat} (some : text ≠ [])
    (digits : text.mapM (digitValue 10) = .some values) :
    numerals.ofText (text.map codePoint) =
      if numerals.permits (text.map codePoint) then
        .some ↑(denoted 10 values) else none := by
  have decimal := decimal_of_mem digits
  have isDigits : Numerals.isDigits (text.map codePoint) := by
    simpa [Numerals.isDigits, some] using decimal
  have filled : ¬(text = [] ∧ false = false) := fun nothing => some nothing.1
  have values := digits_map_codePoint numerals digits 0 false
  rw [if_neg filled, Numerals.digits_of_isDigits isDigits] at values
  rw [Numerals.ofText_of_isDigits isDigits, Option.some.inj values]
  rfl

private theorem digitValue_digitChar {base digit : Nat}
    (isBase : base = 10 ∨ base = 16) (small : digit < base) :
    digitValue base (Nat.digitChar digit) = some digit := by
  have ten : ∀ digit : Fin 10, digitValue 10 (Nat.digitChar digit.val) =
      some digit.val := by
    decide
  have sixteen : ∀ digit : Fin 16, digitValue 16 (Nat.digitChar digit.val) =
      some digit.val := by
    decide
  rcases isBase with rfl | rfl
  · exact ten ⟨digit, small⟩
  · exact sixteen ⟨digit, small⟩

theorem mapM_toDigits {base : Nat} (isBase : base = 10 ∨ base = 16)
    (value : Nat) :
    ∃ values, (Nat.toDigits base value).mapM (digitValue base) = some values ∧
      denoted base values = value := by
  have large : 1 < base := by omega
  induction value using Nat.strongRecOn with
  | ind value induction =>
      rw [Nat.toDigits_eq_if large]
      split
      · rename_i small
        refine ⟨[value], ?_, ?_⟩
        · rw [List.mapM_cons, digitValue_digitChar isBase small]
          rfl
        · simp [denoted]
      · rename_i more
        have smaller : value / base < value :=
          Nat.div_lt_self (by omega) large
        obtain ⟨values, read, same⟩ := induction _ smaller
        refine ⟨values ++ [value % base], ?_, ?_⟩
        · rw [List.mapM_append, read, List.mapM_cons,
            digitValue_digitChar isBase (Nat.mod_lt _ (by omega))]
          rfl
        · rw [denoted, List.foldl_append, List.foldl_cons, List.foldl_nil]
          rw [denoted] at same
          rw [same]
          exact Nat.div_add_mod value base

theorem toList_decimal (value : Nat) :
    (Text.decimal value).toList = Nat.toDigits 10 value := by
  rw [Text.decimal, Nat.toString_eq_ofList_toDigits, String.toList_ofList]

private theorem toDigits_ne_nil {base : Nat} (large : 1 < base) (value : Nat) :
    Nat.toDigits base value ≠ [] := by
  rw [Nat.toDigits_eq_if large]
  split
  · exact List.cons_ne_nil _ _
  · exact List.append_ne_nil_of_right_ne_nil _ (List.cons_ne_nil _ _)

private theorem mapM_zeros (count : Nat) {text : List Char} {values : List Nat}
    (read : text.mapM (digitValue 16) = some values) :
    ∃ others, (List.replicate count '0' ++ text).mapM (digitValue 16) =
      some others ∧ denoted 16 others = denoted 16 values := by
  induction count with
  | zero => exact ⟨values, read, rfl⟩
  | succ count induction =>
      obtain ⟨others, read, same⟩ := induction
      refine ⟨0 :: others, ?_, same⟩
      rw [List.replicate_succ, List.cons_append, List.mapM_cons, read]
      rfl

private theorem paddedDigits (value : Nat) :
    ∃ values, (List.replicate (8 - (Nat.toDigits 16 value).length) '0' ++
        Nat.toDigits 16 value).mapM (digitValue 16) = some values ∧
      denoted 16 values = value := by
  obtain ⟨values, read, same⟩ := mapM_toDigits (.inr rfl) value
  obtain ⟨others, padded, still⟩ :=
    mapM_zeros (8 - (Nat.toDigits 16 value).length) read
  exact ⟨others, padded, still.trans same⟩

private theorem visible_hex32 (value : Nat) :
    ∀ character ∈ (Text.hex32 value).toList,
      0x30 ≤ (codePoint character).val ∧
        (codePoint character).val < 0x7f := by
  obtain ⟨values, padded, _⟩ := paddedDigits value
  rw [Text.hex32, String.toList_ofList]
  exact List.forall_mem_cons.mpr ⟨by decide,
    List.forall_mem_cons.mpr ⟨by decide, visible_of_digits padded⟩⟩

theorem printable_hex32 (value : Nat) :
    ∀ character ∈ str (Text.hex32 value), character.val < 0x7f := by
  rw [str_eq]
  intro character member
  obtain ⟨digit, listed, rfl⟩ := List.mem_map.mp member
  exact (visible_hex32 value digit listed).2

/-- Python reads back what is printed for a word. -/
theorem ofLiteral_hex32 (numerals : Numerals) (value : Nat) :
    numerals.ofLiteral (str (Text.hex32 value)) = some ↑value := by
  obtain ⟨values, padded, same⟩ := paddedDigits value
  have some := List.append_ne_nil_of_right_ne_nil
    (List.replicate (8 - (Nat.toDigits 16 value).length) '0')
    (toDigits_ne_nil (by omega : 1 < 16) value)
  have visible := visible_hex32 value
  rw [Text.hex32, String.toList_ofList] at visible
  rw [str_eq, Text.hex32, String.toList_ofList, Numerals.ofLiteral,
    List.map_cons]
  have trimmed : Numerals.trim (codePoint '0' :: List.map codePoint _) = _ :=
    Numerals.trim_of_visible (List.cons_ne_nil _ _) (by
      rw [← List.map_cons, List.forall_mem_map]
      intro digit member
      have bounds := visible digit member
      omega)
  rw [Numerals.signed_of_digit trimmed (by decide), ← List.map_cons,
    prefixed_of_hexadecimal numerals (.inl rfl) some padded, same]
  rfl

/-- Only a number that is not negative is read where its decimal text is
expected, and it is read as itself. -/
theorem parseUnsigned_signedDecimal {value : Int} {number : Nat}
    (read : parseUnsigned (Text.signedDecimal value).toList = some number) :
    value = number := by
  have numeral := numeral_of_parseUnsigned read
  rw [Text.signedDecimal, Int.toString_eq_repr, Int.repr_eq_if] at numeral
  split at numeral
  · rename_i positive
    rw [Nat.toList_repr] at numeral
    obtain ⟨values, digits, same⟩ := mapM_toDigits (.inl rfl) value.toNat
    generalize Nat.toDigits 10 value.toNat = text at numeral digits
    cases numeral with
    | @hexadecimal mark text _ marked _ _ =>
        have bounds := (decimal_of_mem digits mark (by simp)).2
        rcases marked with rfl | rfl
        · exact absurd bounds (by decide)
        · exact absurd bounds (by decide)
    | decimal _ others =>
        rw [digits] at others
        cases others
        omega
  · rw [String.toList_append] at numeral
    obtain ⟨first, rest, same, low, _⟩ := head_of_numeral numeral
    cases List.head_eq_of_cons_eq same
    exact absurd low (by decide)

end PpcLab.Tool
