import PpcLab.Library.AsciiJson
import PpcLab.Library.Dictionary
import PpcLab.Library.Utf8Reader

/-!
# A JSON reader

`json.loads`: the value that a text stands for.  A float is read by a function
that the reader is given; a constant stands for itself.

What a reader makes of bytes: a value, an error that says where the text is
malformed, or another failure, such as bytes that are no text.
-/

namespace PpcLab.Json

/-- What may stand between the tokens of a text. -/
def isSpace (character : CodePoint) : Bool :=
  character ∈ str " \t\n\r"

def skipped (text : Str) : Str :=
  text.dropWhile isSpace

def isDigit (character : CodePoint) : Bool :=
  0x30 ≤ character.val && character.val ≤ 0x39

def decimalValue (digits : Str) : Nat :=
  digits.foldl (fun value digit => 10 * value + (digit.val - 0x30)) 0

def hexadecimalDigit (character : CodePoint) : Option Nat :=
  if isDigit character then some (character.val - 0x30)
  else if 0x61 ≤ character.val ∧ character.val ≤ 0x66 then
    some (character.val - 0x57)
  else if 0x41 ≤ character.val ∧ character.val ≤ 0x46 then
    some (character.val - 0x37)
  else none

def hexadecimal (digits : Str) : Option Nat :=
  digits.foldlM (fun value digit =>
    (hexadecimalDigit digit).map (0x10 * value + ·)) 0

/-- What follows a word. -/
def after (word : String) (text : Str) : Option Str :=
  if (str word).isPrefixOf text then some (text.drop (str word).length)
  else none

def shortForms : List (CodePoint × CodePoint) :=
  [(0x22, 0x22), (0x5c, 0x5c), (0x2f, 0x2f), (0x62, 0x08), (0x66, 0x0c),
    (0x6e, 0x0a), (0x72, 0x0d), (0x74, 0x09)]

/-- The units of a string up to the quote that closes it. -/
def readUnits : Str → Option (Str × Str)
  | [] => none
  | character :: text =>
      if character = doubleQuote then some ([], text)
      else if character = backslash then
        match text with
        | [] => none
        | letter :: text =>
            if letter = 0x75 then
              match text with
              | first :: second :: third :: fourth :: text => do
                  let unit ← hexadecimal [first, second, third, fourth]
                  let (units, rest) ← readUnits text
                  return (CodePoint.ofNat unit :: units, rest)
              | _ => none
            else do
              let plain ← shortForms.lookup letter
              let (units, rest) ← readUnits text
              return (plain :: units, rest)
      else if character.val < 0x20 then none
      else do
        let (units, rest) ← readUnits text
        return (character :: units, rest)

def readString (text : Str) : Option (Str × Str) :=
  (readUnits text).map fun (units, rest) => (paired units, rest)

def readWhole : Str → Option (Str × Str)
  | [] => none
  | digit :: text =>
      if digit = 0x30 then some ([digit], text)
      else if isDigit digit then
        some (digit :: text.takeWhile isDigit, text.dropWhile isDigit)
      else none

def readFraction : Str → Str × Str
  | [] => ([], [])
  | dot :: text =>
      if dot = 0x2e ∧ (text.takeWhile isDigit).isEmpty = false then
        (dot :: text.takeWhile isDigit, text.dropWhile isDigit)
      else ([], dot :: text)

/-- The sign that a text may begin with. -/
def readSign : Str → Str × Str
  | [] => ([], [])
  | sign :: text =>
      if sign = 0x2b ∨ sign = 0x2d then ([sign], text) else ([], sign :: text)

def readExponent : Str → Str × Str
  | [] => ([], [])
  | mark :: text =>
      let (sign, digits) := readSign text
      if (mark = 0x65 ∨ mark = 0x45) ∧
          (digits.takeWhile isDigit).isEmpty = false then
        (mark :: (sign ++ digits.takeWhile isDigit), digits.dropWhile isDigit)
      else ([], mark :: text)

variable (float : Str → FloatLiteral)

/-- A number after its sign. -/
def readMagnitude (sign text : Str) : Option (Json × Str) := do
  let (whole, rest) ← readWhole text
  let (fraction, rest) := readFraction rest
  let (exponent, rest) := readExponent rest
  if fraction.isEmpty && exponent.isEmpty then
    let value : Int := decimalValue whole
    return (.int (if sign.isEmpty then value else -value), rest)
  else
    return (.float (float (sign ++ whole ++ fraction ++ exponent)), rest)

def readNumber (text : Str) : Option (Json × Str) :=
  match text with
  | [] => none
  | sign :: rest =>
      if sign = 0x2d then readMagnitude float [sign] rest
      else readMagnitude float [] text

theorem isFloatText_NaN : isFloatText (str "NaN") := by
  decide

theorem isFloatText_Infinity : isFloatText (str "Infinity") := by
  decide

theorem isFloatText_minusInfinity : isFloatText (str "-Infinity") := by
  decide

/-- The words that stand for values. -/
def constants : List (String × Json) :=
  [("null", .null), ("true", .bool true), ("false", .bool false),
    ("NaN", .float ⟨str "NaN", isFloatText_NaN⟩),
    ("Infinity", .float ⟨str "Infinity", isFloatText_Infinity⟩),
    ("-Infinity", .float ⟨str "-Infinity", isFloatText_minusInfinity⟩)]

def readConstant (text : Str) : Option (Json × Str) :=
  constants.findSome? fun constant =>
    (after constant.1 text).map fun rest => (constant.2, rest)

def readScalar (text : Str) : Option (Json × Str) :=
  (readConstant text).or (readNumber float text)

/-- A dictionary of the members that were read, the last one of a key. -/
def dictionary (members : Fields) : Fields :=
  members.foldl Dictionary.assign []

mutual

def readValue : Nat → Str → Option (Json × Str)
  | 0, _ => none
  | _ + 1, [] => none
  | fuel + 1, first :: text =>
      if first = doubleQuote then
        (readString text).map fun (value, rest) => (.string value, rest)
      else if first = 0x5b then
        match skipped text with
        | [] => none
        | next :: rest =>
            if next = 0x5d then some (.array [], rest)
            else (readItems fuel (next :: rest)).map fun (items, rest) =>
              (.array items, rest)
      else if first = 0x7b then
        match skipped text with
        | [] => none
        | next :: rest =>
            if next = 0x7d then some (.object [], rest)
            else (readMembers fuel (next :: rest)).map fun (members, rest) =>
              (.object (dictionary members), rest)
      else readScalar float (first :: text)

/-- Items from one on. -/
def readItems : Nat → Str → Option (List Json × Str)
  | 0, _ => none
  | fuel + 1, text => do
      let (item, rest) ← readValue fuel text
      match skipped rest with
      | [] => none
      | mark :: rest =>
          if mark = 0x5d then return ([item], rest)
          else if mark = 0x2c then
            let (items, rest) ← readItems fuel (skipped rest)
            return (item :: items, rest)
          else none

/-- Members from one on. -/
def readMembers : Nat → Str → Option (Fields × Str)
  | 0, _ => none
  | _ + 1, [] => none
  | fuel + 1, quote :: text =>
      if quote = doubleQuote then do
        let (key, rest) ← readString text
        match skipped rest with
        | [] => none
        | colon :: rest =>
            if colon = 0x3a then
              let (value, rest) ← readValue fuel (skipped rest)
              match skipped rest with
              | [] => none
              | mark :: rest =>
                  if mark = 0x7d then return ([(key, value)], rest)
                  else if mark = 0x2c then
                    let (members, rest) ← readMembers fuel (skipped rest)
                    return ((key, value) :: members, rest)
                  else none
            else none
      else none

end

/-- `json.loads` -/
def loads (text : Str) : Option Json := do
  let (value, rest) ← readValue float (2 * text.length) (skipped text)
  if (skipped rest).isEmpty then return value else none

end PpcLab.Json

namespace PpcLab.Json

/-- What `json.loads` makes of bytes. -/
inductive Loaded where
  | value (value : Json)
  | malformed (reason : Str)
  | undecodable
  deriving DecidableEq

/-- Bytes in UTF-8 without a mark at their beginning. -/
def loadsUtf8 (float : Str → FloatLiteral) (bytes : List Byte) : Loaded :=
  match decodeUtf8 bytes with
  | none => .undecodable
  | some text =>
      match loads float text with
      | some value => .value value
      | none => .malformed "invalid JSON"

end PpcLab.Json
