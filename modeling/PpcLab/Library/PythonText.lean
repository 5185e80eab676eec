import PpcLab.Library.Ieee754
import PpcLab.Library.JsonText
import PpcLab.Library.Lines

/-!
# Integers of Python

`int` of a text, with a base or with the base that its prefix names, and of
the values that a JSON reader returns.  The decimal digits are those that the
character database lists; a float is truncated by a function that is given.
White space around a number is skipped, but not the four separators that
`strip` removes as well.

The doubles that the floats of a JSON value stand for, and `==` of the values
that a JSON reader returns.  A truth value, an integer and a float are equal
when the numbers are.  The reader has one object for `NaN`, which is found in a
list although it is not equal to itself.

What `str` and `repr` print for the values that a JSON reader returns.  A
dictionary prints its members in the order in which they were inserted.
-/

namespace PpcLab

/-- The value of a decimal digit of ASCII. -/
def asciiDigit (character : CodePoint) : Option Nat :=
  if 0x30 ≤ character.val ∧ character.val ≤ 0x39 then
    some (character.val - 0x30)
  else none

structure Numerals where
  /-- The value of a decimal digit. -/
  decimal : CodePoint → Option Nat
  ordinary : ∀ character : CodePoint, character.val < 0x80 →
    decimal character = asciiDigit character
  /-- `int` of a float, which has none for `nan` and the infinities. -/
  truncated : FloatLiteral → Option Int
  /-- The most decimal digits that are converted, if there is a limit. -/
  maxDigits : Option Nat
  manyDigits : ∀ limit ∈ maxDigits, 640 ≤ limit

namespace Numerals

variable (numerals : Numerals)

def underscore : CodePoint := 0x5f

/-- The value of a digit in bases up to sixteen. -/
def digit (base : Nat) (character : CodePoint) : Option Nat :=
  let letter (first : Nat) : Option Nat :=
    if first ≤ character.val ∧ character.val < first + 6 then
      some (character.val - first + 10)
    else none
  ((numerals.decimal character).or ((letter 0x61).or (letter 0x41))).filter
    (· < base)

/-- Digits, between which underscores may stand one at a time. -/
def digits (base : Nat) : (value : Nat) → (afterDigit : Bool) → Str →
    Option Nat
  | value, afterDigit, [] => if afterDigit then some value else none
  | value, afterDigit, character :: text =>
      if character = underscore then
        if afterDigit then digits base value false text else none
      else do
        let next ← numerals.digit base character
        digits base (base * value + next) true text

/-- `0x`, `0o` and `0b`. -/
def prefixes : List (Str × Nat) :=
  [(str "0x", 16), (str "0X", 16), (str "0o", 8), (str "0O", 8),
    (str "0b", 2), (str "0B", 2)]

/-- A text has no more decimal digits than are converted. -/
def permits (text : Str) : Bool :=
  numerals.maxDigits.all fun limit =>
    decide (text.countP (· ≠ underscore) ≤ limit)

def decimals (text : Str) : Option Nat :=
  if numerals.permits text then numerals.digits 10 0 false text else none

/-- A number after its sign, in the base that its prefix names.  Without a
prefix only zero begins with the digit zero. -/
def prefixed (text : Str) : Option Nat :=
  match prefixes.find? fun entry => entry.1.isPrefixOf text with
  | some (word, base) =>
      let rest := text.drop word.length
      numerals.digits base 0 (rest.head? == some underscore) rest
  | none => do
      let value ← numerals.decimals text
      if text.head?.bind (numerals.digit 10) = some 0 ∧ value ≠ 0 then none
      else return value

def isSeparator (character : CodePoint) : Bool :=
  0x1c ≤ character.val && character.val ≤ 0x1f

/-- The text without the white space around it. -/
def trim (text : Str) : Str :=
  Lines.stripBy (fun character =>
    Lines.isWhite character && !isSeparator character) text

def signed (read : Str → Option Nat) (text : Str) : Option Int :=
  match trim text with
  | [] => none
  | sign :: rest =>
      if sign = 0x2d then (read rest).map fun value => -(value : Int)
      else if sign = 0x2b then (read rest).map fun value => (value : Int)
      else (read (sign :: rest)).map fun value => (value : Int)

/-- `int(text)` -/
def ofText (text : Str) : Option Int :=
  signed numerals.decimals text

/-- `int(text, 0)` -/
def ofLiteral (text : Str) : Option Int :=
  signed numerals.prefixed text

/-- `int(value)` -/
def int : Json → Option Int
  | .int value => some value
  | .bool value => some value.toInt
  | .string text => numerals.ofText text
  | .float literal => numerals.truncated literal
  | .null | .array _ | .object _ => none

def isDigits (text : Str) : Bool :=
  !text.isEmpty && text.all fun character =>
    decide (0x30 ≤ character.val ∧ character.val ≤ 0x39)

def digitsValue (text : Str) : Nat :=
  text.foldl (fun value character => 10 * value + (character.val - 0x30)) 0

section

variable {numerals} {text rest : Str} {first : CodePoint}

/-- Without separators `int` skips what `strip` does. -/
theorem trim_eq_strip
    (inside : ∀ character ∈ trim text, isSeparator character = false) :
    trim text = Lines.strip text := by
  rw [Lines.strip_eq]
  apply Lines.stripBy_eq
  · intro character skipped
    exact (Bool.and_eq_true_iff.mp skipped).1
  · intro character left white
    rw [white, inside character left]
    rfl

theorem trim_of_visible (some : text ≠ [])
    (visible : ∀ character ∈ text,
      0x20 < character.val ∧ character.val < 0x7f) : trim text = text := by
  have isFirst := visible (text.head some) (List.head_mem some)
  have isLast := visible (text.getLast some) (List.getLast_mem some)
  have stripped := Lines.strip_of_visible (List.head?_eq_some_head some)
    (List.getLast?_eq_some_getLast some)
    (Lines.isWhite_of_visible isFirst.1 isFirst.2)
    (Lines.isWhite_of_visible isLast.1 isLast.2)
  rw [trim_eq_strip, stripped]
  intro character member
  have bounds := visible character (Lines.mem_of_mem_stripBy member)
  rw [Bool.eq_false_iff]
  intro separates
  have high := of_decide_eq_true (Bool.and_eq_true_iff.mp separates).2
  omega

/-- A text that begins with a digit has no sign. -/
theorem signed_of_digit {read : Str → Option Nat}
    (trimmed : trim text = first :: rest) (low : 0x30 ≤ first.val) :
    signed read text =
      (read (first :: rest)).map fun value => (value : Int) := by
  have notMinus : first ≠ 0x2d := by
    rintro rfl
    exact absurd low (by decide)
  have notPlus : first ≠ 0x2b := by
    rintro rfl
    exact absurd low (by decide)
  rw [signed, trimmed]
  dsimp only
  rw [if_neg notMinus, if_neg notPlus]

private theorem digits_of_plain
    (plain : ∀ character ∈ text, 0x30 ≤ character.val ∧ character.val ≤ 0x39)
    (value : Nat) (afterDigit : Bool) :
    numerals.digits 10 value afterDigit text =
      if text = [] ∧ afterDigit = false then none
      else some (text.foldl (fun value character =>
        10 * value + (character.val - 0x30)) value) := by
  induction text generalizing value afterDigit with
  | nil => cases afterDigit <;> rfl
  | cons character text induction =>
      obtain ⟨⟨low, high⟩, plain⟩ := List.forall_mem_cons.mp plain
      have notUnderscore : character ≠ underscore := by
        rintro rfl
        exact absurd high (by decide)
      have isDigit : numerals.digit 10 character =
          some (character.val - 0x30) := by
        rw [digit, numerals.ordinary character (by omega), asciiDigit,
          if_pos ⟨low, high⟩]
        exact Option.filter_eq_some_iff.mpr ⟨rfl, decide_eq_true (by omega)⟩
      rw [digits, if_neg notUnderscore, isDigit, Option.bind_eq_bind,
        Option.bind_some, induction plain]
      simp

private theorem digits_of_mem (plain : isDigits text) :
    text ≠ [] ∧ ∀ character ∈ text,
      0x30 ≤ character.val ∧ character.val ≤ 0x39 := by
  rw [isDigits, Bool.and_eq_true, Bool.not_eq_true', List.isEmpty_eq_false_iff,
    List.all_eq_true] at plain
  exact ⟨plain.1, fun character member =>
    of_decide_eq_true (plain.2 character member)⟩

theorem digits_of_isDigits (plain : isDigits text) :
    numerals.digits 10 0 false text = some (digitsValue text) := by
  obtain ⟨some, all⟩ := digits_of_mem plain
  have filled : ¬(text = [] ∧ false = false) := fun nothing => some nothing.1
  rw [digits_of_plain all, if_neg filled]
  rfl

/-- Digits of ASCII are read as they are, unless there are too many. -/
theorem ofText_of_isDigits (plain : isDigits text) :
    numerals.ofText text =
      if numerals.permits text then some ↑(digitsValue text) else none := by
  obtain ⟨some, all⟩ := digits_of_mem plain
  have trimmed := trim_of_visible some fun character member => by
    have bounds := all character member
    omega
  have read : numerals.decimals text =
      if numerals.permits text then .some (digitsValue text) else none := by
    rw [decimals, digits_of_isDigits plain]
  obtain ⟨first, rest, rfl⟩ := List.exists_cons_of_ne_nil some
  rw [ofText, signed_of_digit trimmed (all first List.mem_cons_self).1, read]
  split <;> rfl

end

/-- The digits of ASCII, and floats that are not truncated. -/
def ascii : Numerals where
  decimal := asciiDigit
  ordinary _ _ := rfl
  truncated _ := none
  maxDigits := some 4300
  manyDigits := by decide

example : ascii.ofText (str " -1_0 ") = some (-10) := by
  decide

example : ascii.ofText [0x1c, 0x31] = none := by
  decide

example : ascii.ofLiteral (str "0x_1f") = some 31 := by
  decide

example : ascii.ofLiteral (str "010") = none := by
  decide

end Numerals

structure Doubles where
  /-- The double that is printed by a text. -/
  ofLiteral : FloatLiteral → Nat
  /-- `float` of a text. -/
  ofText : Str → Option Nat

namespace Doubles

open Ieee754

variable (doubles : Doubles)

/-- `float` of an integer, which has none when it is out of range. -/
def ofInteger (value : Int) : Option Nat :=
  let bits := ofInt binary64 value
  if binary64.magnitude bits = binary64.infinityBits then none else some bits

/-- `float(value)` -/
def float : Json → Option Nat
  | .float literal => some (doubles.ofLiteral literal)
  | .int value => ofInteger value
  | .bool value => ofInteger value.toInt
  | .string text => doubles.ofText text
  | .null | .array _ | .object _ => none

def one : Nat :=
  ofInt binary64 1

/-- `first <= second` -/
def notAbove (first second : Nat) : Bool :=
  lt binary64 first second || eq binary64 first second

/-- `dividend / divisor` of integers that are exact as doubles. -/
def quotient (dividend divisor : Nat) : Nat :=
  div binary64 0 (ofInt binary64 dividend) (ofInt binary64 divisor)

/-- A double is an integer. -/
def isInteger (bits : Nat) (value : Int) : Bool :=
  match decode binary64 bits with
  | .finite negative significand exponent =>
      decide (signed negative (significand * 2 ^ exponent.toNat) =
        value * 2 ^ (-exponent).toNat)
  | .nan | .infinity _ => false

/-- `==` of values without parts. -/
def equalScalars : Json → Json → Bool
  | .null, .null => true
  | .string first, .string second => first == second
  | .float first, .float second =>
      eq binary64 (doubles.ofLiteral first) (doubles.ofLiteral second)
  | .float first, second =>
      ((Json.asInteger? second).map
        (isInteger (doubles.ofLiteral first))).getD false
  | first, .float second =>
      ((Json.asInteger? first).map
        (isInteger (doubles.ofLiteral second))).getD false
  | first, second =>
      (Json.asInteger? first).isSome &&
        Json.asInteger? first == Json.asInteger? second

/-- Both are the object that the reader has for `NaN`. -/
def bothNaN : Json → Json → Bool
  | .float first, .float second =>
      first.text == str "NaN" && second.text == str "NaN"
  | _, _ => false

mutual

/-- `first == second` -/
def equal : Json → Json → Bool
  | .array firsts, .array seconds => equalItems firsts seconds
  | .object firsts, .object seconds =>
      firsts.length == seconds.length && equalFields firsts seconds
  | first, second => doubles.equalScalars first second

/-- Elements that are the same object are not compared. -/
def equalItems : List Json → List Json → Bool
  | [], [] => true
  | first :: firsts, second :: seconds =>
      (bothNaN first second || equal first second) &&
        equalItems firsts seconds
  | _, _ => false

def equalFields : Fields → Fields → Bool
  | [], _ => true
  | (key, first) :: firsts, seconds =>
      ((Json.find? seconds key).map fun second =>
        bothNaN first second || equal first second).getD false &&
        equalFields firsts seconds

end

/-- `value in items` -/
def isIn (value : Json) (items : List Json) : Bool :=
  items.any fun item => bothNaN value item || doubles.equal item value

/-- Floats that nothing is made of. -/
def none : Doubles where
  ofLiteral _ := 0
  ofText _ := Option.none

example : Doubles.none.equal (.array [.int 1, .bool false])
    (.array [.bool true, .int 0]) = true := by
  decide

end Doubles

/-- What the character database says. -/
structure Unicode where
  isPrintable : CodePoint → Bool
  isSpace : CodePoint → Bool
  lower : Str → Str

namespace Unicode

/-- The database for texts in ASCII. -/
def ascii : Unicode where
  isPrintable character := 0x20 ≤ character.val && character.val < 0x7f
  isSpace character :=
    (0x09 ≤ character.val && character.val < 0x0e) ||
      (0x1c ≤ character.val && character.val ≤ 0x20)
  lower text := text.map fun character =>
    if 0x41 ≤ character.val && character.val ≤ 0x5a then
      CodePoint.ofNat (character.val + 0x20)
    else character

variable (unicode : Unicode)

/-- `strip()` -/
def strip (text : Str) : Str :=
  ((text.dropWhile unicode.isSpace).reverse.dropWhile unicode.isSpace).reverse

def hexDigits (count value : Nat) : Str :=
  (List.range count).map fun index =>
    hexDigit (value / 16 ^ (count - 1 - index) % 16)

def singleQuote : CodePoint := 0x27

def reprCharacter (quote character : CodePoint) : Str :=
  if character = quote ∨ character = backslash then [backslash, character]
  else if character = 0x09 then [backslash, codePoint 't']
  else if character = 0x0a then [backslash, codePoint 'n']
  else if character = 0x0d then [backslash, codePoint 'r']
  else if character.val < 0x20 ∨ character.val = 0x7f then
    backslash :: codePoint 'x' :: hexDigits 2 character.val
  else if character.val < 0x7f ∨ unicode.isPrintable character then [character]
  else if character.val < 0x100 then
    backslash :: codePoint 'x' :: hexDigits 2 character.val
  else if character.val < 0x10000 then
    backslash :: codePoint 'u' :: hexDigits 4 character.val
  else backslash :: codePoint 'U' :: hexDigits 8 character.val

/-- `repr` of a string. -/
def reprStr (text : Str) : Str :=
  let quote :=
    if singleQuote ∈ text ∧ doubleQuote ∉ text then doubleQuote
    else singleQuote
  quote :: (text.flatMap (unicode.reprCharacter quote) ++ [quote])

/-- `repr` of a float. -/
def reprFloat (literal : FloatLiteral) : Str :=
  if literal.text = str "NaN" then str "nan"
  else if literal.text = str "Infinity" then str "inf"
  else if literal.text = str "-Infinity" then str "-inf"
  else literal.text

mutual

def repr : Json → Str
  | .null => str "None"
  | .bool true => str "True"
  | .bool false => str "False"
  | .int value => str (Text.signedDecimal value)
  | .float literal => reprFloat literal
  | .string value => unicode.reprStr value
  | .array items => 0x5b :: reprItems items
  | .object fields => 0x7b :: reprFields fields

def reprItems : List Json → Str
  | [] => [0x5d]
  | [item] => repr item ++ [0x5d]
  | item :: items => repr item ++ str ", " ++ reprItems items

def reprFields : Fields → Str
  | [] => [0x7d]
  | [(key, value)] => unicode.reprStr key ++ str ": " ++ repr value ++ [0x7d]
  | (key, value) :: fields =>
      unicode.reprStr key ++ str ": " ++ repr value ++ str ", " ++
        reprFields fields

end

/-- `str` -/
def toStr : Json → Str
  | .string value => value
  | value => unicode.repr value

end Unicode

end PpcLab
