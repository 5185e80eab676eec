import Mathlib.Data.List.Basic

/-!
# Numerals and assembly lines

Decimal and hexadecimal numerals as a stream formatter prints them, and lines
made of a mnemonic and comma-separated operands.  A numeral determines its
number, and the text of a line determines its mnemonic and operands.
-/

namespace PpcLab.Text

def decimal (value : Nat) : String :=
  toString value

def signedDecimal (value : Int) : String :=
  toString value

/-- Lower-case hexadecimal without leading zeros. -/
def hex (value : Nat) : String :=
  String.ofList (Nat.toDigits 16 value)

/-- `0x` and at least eight digits, padded with zeros. -/
def hex32 (value : Nat) : String :=
  let digits := Nat.toDigits 16 value
  String.ofList
    ('0' :: 'x' :: (List.replicate (8 - digits.length) '0' ++ digits))

/-- A mnemonic, and its operands if there are any. -/
structure Line where
  mnemonic : String
  operands : List String
  deriving DecidableEq, Repr

def Line.text (line : Line) : String :=
  match line.operands with
  | [] => line.mnemonic
  | operands => line.mnemonic ++ " " ++ ",".intercalate operands

/-- The value of a digit below sixteen. -/
def digitValue (digit : Char) : Nat :=
  (List.range 16).findIdx fun value => Nat.digitChar value == digit

/-- The number a list of digits denotes. -/
def readDigits (base : Nat) (digits : List Char) : Nat :=
  digits.foldl (fun value digit => base * value + digitValue digit) 0

theorem digitValue_digitChar {value : Nat} (small : value < 16) :
    digitValue (Nat.digitChar value) = value := by
  have all : ∀ value : Fin 16,
      digitValue (Nat.digitChar value.val) = value.val := by decide
  exact all ⟨value, small⟩

theorem readDigits_append_singleton (base : Nat) (digits : List Char)
    (digit : Char) :
    readDigits base (digits ++ [digit]) =
      base * readDigits base digits + digitValue digit := by
  simp [readDigits]

/-- Reading the digits of a number back. -/
theorem readDigits_toDigits {base : Nat} (large : 1 < base)
    (small : base ≤ 16) (value : Nat) :
    readDigits base (Nat.toDigits base value) = value := by
  induction value using Nat.strongRecOn with
  | ind value induction =>
      rw [Nat.toDigits_eq_if large]
      split
      · rename_i oneDigit
        have digit := digitValue_digitChar (Nat.lt_of_lt_of_le oneDigit small)
        simp [readDigits, digit]
      · rename_i moreDigits
        have smaller : value / base < value :=
          Nat.div_lt_self (by omega) large
        have remainder : value % base < base := Nat.mod_lt _ (by omega)
        rw [readDigits_append_singleton, induction _ smaller,
          digitValue_digitChar (by omega)]
        exact Nat.div_add_mod value base

theorem readDigits_replicate_zero (base count : Nat) (digits : List Char) :
    readDigits base (List.replicate count '0' ++ digits) =
      readDigits base digits := by
  have zeros : (List.replicate count '0').foldl
      (fun value digit => base * value + digitValue digit) 0 = 0 := by
    have zero : digitValue '0' = 0 := by decide
    induction count with
    | zero => rfl
    | succ count induction => simpa [List.replicate_succ, zero] using induction
  rw [readDigits, List.foldl_append, zeros]
  rfl

theorem digits_injective {base left right : Nat} (large : 1 < base)
    (small : base ≤ 16)
    (same : Nat.toDigits base left = Nat.toDigits base right) :
    left = right := by
  rw [← readDigits_toDigits large small left, same,
    readDigits_toDigits large small]

theorem decimal_injective : Function.Injective decimal := by
  intro left right same
  have digits := congrArg String.toList same
  simp only [decimal, Nat.toString_eq_ofList_toDigits,
    String.toList_ofList] at digits
  exact digits_injective (by omega) (by omega) digits

theorem hex_injective : Function.Injective hex := by
  intro left right same
  have digits := congrArg String.toList same
  simp only [hex, String.toList_ofList] at digits
  exact digits_injective (by omega) (by omega) digits

theorem hex32_injective : Function.Injective hex32 := by
  intro left right same
  have digits := congrArg String.toList same
  simp only [hex32, String.toList_ofList, List.cons.injEq, true_and] at digits
  have values := congrArg (readDigits 16) digits
  rw [readDigits_replicate_zero, readDigits_replicate_zero,
    readDigits_toDigits (by omega) (by omega),
    readDigits_toDigits (by omega) (by omega)] at values
  exact values

/-- A character that is no digit occurs in no numeral. -/
theorem not_mem_toDigits {base value : Nat} {character : Char}
    (large : 1 < base) (noDigit : ∀ digit, Nat.digitChar digit ≠ character) :
    character ∉ Nat.toDigits base value := by
  induction value using Nat.strongRecOn with
  | ind value induction =>
      rw [Nat.toDigits_eq_if large]
      split
      · simpa using (noDigit value).symm
      · rename_i moreDigits
        have smaller : value / base < value :=
          Nat.div_lt_self (by omega) large
        simpa using ⟨induction _ smaller, (noDigit (value % base)).symm⟩

theorem digitChar_ne {character : Char} (digit : Nat)
    (ordinary : ∀ value : Fin 16, Nat.digitChar value.val ≠ character)
    (notStar : '*' ≠ character) : Nat.digitChar digit ≠ character := by
  rcases Nat.lt_or_ge digit 16 with small | large
  · exact ordinary ⟨digit, small⟩
  · rw [Nat.digitChar_eq_star.mpr large]
    exact notStar

/-- A character that numerals do not use. -/
def Separates (character : Char) : Prop :=
  character ≠ '-' ∧ ∀ digit, Nat.digitChar digit ≠ character

theorem comma_separates : Separates ',' := by
  refine ⟨by decide, ?_⟩
  intro digit
  apply digitChar_ne
  · decide
  · decide

theorem bracket_separates : Separates '(' := by
  refine ⟨by decide, ?_⟩
  intro digit
  apply digitChar_ne
  · decide
  · decide

section Separated

variable {character : Char} (separates : Separates character)

include separates

theorem not_mem_decimal (value : Nat) :
    character ∉ (decimal value).toList := by
  rw [decimal, Nat.toString_eq_ofList_toDigits, String.toList_ofList]
  exact not_mem_toDigits (by omega) separates.2

theorem not_mem_hex (value : Nat) : character ∉ (hex value).toList := by
  rw [hex, String.toList_ofList]
  exact not_mem_toDigits (by omega) separates.2

theorem not_mem_hex32 (value : Nat) (notX : character ≠ 'x') :
    character ∉ (hex32 value).toList := by
  have notZero : character ≠ '0' := by
    intro isZero
    exact separates.2 0 isZero.symm
  have notDigit : character ∉ Nat.toDigits 16 value :=
    not_mem_toDigits (by omega) separates.2
  rw [hex32, String.toList_ofList]
  simp [notZero, notX, notDigit]

theorem not_mem_signedDecimal (value : Int) :
    character ∉ (signedDecimal value).toList := by
  have magnitude (number : Nat) : character ∉ Nat.toDigits 10 number :=
    not_mem_toDigits (by omega) separates.2
  rw [signedDecimal, Int.toString_eq_repr, Int.repr_eq_if]
  split
  · rw [Nat.toList_repr]
    exact magnitude _
  · rw [String.toList_append, Nat.toList_repr]
    simp [separates.1, magnitude]

end Separated

theorem signedDecimal_injective : Function.Injective signedDecimal := by
  have noSign (number : Nat) : '-' ∉ Nat.toDigits 10 number := by
    apply not_mem_toDigits (by omega)
    intro digit
    apply digitChar_ne
    · decide
    · decide
  intro left right same
  have texts := congrArg String.toList same
  simp only [signedDecimal, Int.toString_eq_repr, Int.repr_eq_if] at texts
  split at texts <;> split at texts
  · rw [Nat.toList_repr, Nat.toList_repr] at texts
    have := digits_injective (by omega) (by omega) texts
    omega
  · rw [Nat.toList_repr, String.toList_append] at texts
    refine absurd ?_ (noSign left.toNat)
    rw [texts]
    simp
  · rw [Nat.toList_repr, String.toList_append] at texts
    refine absurd ?_ (noSign right.toNat)
    rw [← texts]
    simp
  · rw [String.toList_append, String.toList_append, Nat.toList_repr,
      Nat.toList_repr] at texts
    have := digits_injective (by omega) (by omega)
      (List.append_cancel_left texts)
    omega

/-- What precedes the first separator determines both parts. -/
theorem append_cons_injective {α : Type} {separator : α}
    {left right leftRest rightRest : List α}
    (notLeft : separator ∉ left) (notRight : separator ∉ right)
    (same : left ++ separator :: leftRest = right ++ separator :: rightRest) :
    left = right ∧ leftRest = rightRest := by
  induction left generalizing right with
  | nil =>
      cases right with
      | nil => exact ⟨rfl, List.tail_eq_of_cons_eq same⟩
      | cons first right =>
          refine absurd ?_ notRight
          rw [List.head_eq_of_cons_eq same]
          exact List.mem_cons_self
  | cons first left induction =>
      cases right with
      | nil =>
          refine absurd ?_ notLeft
          rw [List.head_eq_of_cons_eq same]
          exact List.mem_cons_self
      | cons second right =>
          obtain ⟨rfl, tails⟩ := List.cons.inj same
          obtain ⟨rfl, rests⟩ := induction
            (fun member => notLeft (List.mem_cons_of_mem _ member))
            (fun member => notRight (List.mem_cons_of_mem _ member)) tails
          exact ⟨rfl, rests⟩

namespace Line

/-- Blanks and commas only separate. -/
structure Plain (line : Line) : Prop where
  mnemonic : ' ' ∉ line.mnemonic.toList
  operands : ∀ operand ∈ line.operands, ',' ∉ operand.toList

/-- What follows the mnemonic. -/
def tail (line : Line) : List Char :=
  match line.operands with
  | [] => []
  | operands => ' ' :: [','].intercalate (operands.map String.toList)

theorem toList_text (line : Line) :
    line.text.toList = line.mnemonic.toList ++ line.tail := by
  obtain ⟨mnemonic, operands⟩ := line
  cases operands with
  | nil => simp [text, tail]
  | cons first rest =>
      simp [text, tail, String.toList_append, String.toList_intercalate]

theorem tail_injective {left right : Line} (leftPlain : left.Plain)
    (rightPlain : right.Plain) (same : left.tail = right.tail) :
    left.operands = right.operands := by
  obtain ⟨_, leftOperands⟩ := left
  obtain ⟨_, rightOperands⟩ := right
  have noComma {operands : List String}
      (plain : ∀ operand ∈ operands, ',' ∉ operand.toList) :
      ∀ part ∈ operands.map String.toList, ',' ∉ part := by
    intro part member
    obtain ⟨operand, listed, rfl⟩ := List.mem_map.mp member
    exact plain operand listed
  cases leftOperands with
  | nil =>
      cases rightOperands with
      | nil => rfl
      | cons first rest => simp [tail] at same
  | cons first rest =>
      cases rightOperands with
      | nil => simp [tail] at same
      | cons second others =>
          have joined := congrArg (List.splitOn ',')
            (List.tail_eq_of_cons_eq same)
          rw [List.splitOn_intercalate _ (noComma leftPlain.operands)
              (by simp),
            List.splitOn_intercalate _ (noComma rightPlain.operands)
              (by simp)] at joined
          exact List.map_injective_iff.mpr
            (fun _ _ => String.toList_inj.mp) joined

theorem tail_cases (line : Line) :
    line.tail = [] ∨ ∃ rest, line.tail = ' ' :: rest := by
  obtain ⟨_, operands⟩ := line
  cases operands with
  | nil => exact .inl rfl
  | cons first rest => exact .inr ⟨_, rfl⟩

/-- The text of a line determines the line. -/
theorem text_injective {left right : Line} (leftPlain : left.Plain)
    (rightPlain : right.Plain) (same : left.text = right.text) :
    left = right := by
  have texts := congrArg String.toList same
  rw [toList_text, toList_text] at texts
  have parts : left.mnemonic.toList = right.mnemonic.toList ∧
      left.tail = right.tail := by
    rcases left.tail_cases with leftTail | ⟨leftRest, leftTail⟩
    · rcases right.tail_cases with rightTail | ⟨rightRest, rightTail⟩
      · rw [leftTail, rightTail] at texts ⊢
        simpa using texts
      · rw [leftTail, rightTail, List.append_nil] at texts
        refine absurd ?_ leftPlain.mnemonic
        rw [texts]
        simp
    · rcases right.tail_cases with rightTail | ⟨rightRest, rightTail⟩
      · rw [leftTail, rightTail, List.append_nil] at texts
        refine absurd ?_ rightPlain.mnemonic
        rw [← texts]
        simp
      · rw [leftTail, rightTail] at texts ⊢
        obtain ⟨mnemonics, rests⟩ := append_cons_injective
          leftPlain.mnemonic rightPlain.mnemonic texts
        exact ⟨mnemonics, by rw [rests]⟩
  have mnemonics := String.toList_inj.mp parts.1
  have operands := tail_injective leftPlain rightPlain parts.2
  cases left
  cases right
  simp_all

/-- A start without a blank is a start of the mnemonic. -/
theorem startsWith_text_iff (line : Line) {start : List Char}
    (noBlank : ' ' ∉ start) :
    start <+: line.text.toList ↔ start <+: line.mnemonic.toList := by
  rw [toList_text]
  constructor
  · intro starts
    rcases List.prefix_or_prefix_of_prefix starts
      (List.prefix_append line.mnemonic.toList line.tail) with
      inside | ⟨rest, rfl⟩
    · exact inside
    · rw [List.prefix_append_right_inj] at starts
      rcases line.tail_cases with none | ⟨others, blank⟩
      · rw [none, List.prefix_nil] at starts
        simp only [starts, List.append_nil, List.prefix_rfl]
      · cases rest with
        | nil =>
            simp only [List.append_nil, List.prefix_rfl]
        | cons first rest =>
            rw [blank, List.cons_prefix_cons] at starts
            simp [starts.1] at noBlank
  · intro starts
    exact starts.trans (List.prefix_append _ _)

end Line

end PpcLab.Text
