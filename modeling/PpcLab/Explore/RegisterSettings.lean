import PpcLab.Explore.Evaluate
import PpcLab.Tool.Spelling

/-!
# Registers that a job sets

The worker passes the registers of a job on as texts, which the command line
tool reads.  The value that is stored is the one that Python reads from the
job, unless Python reads none.
-/

namespace PpcLab.Explore

open Json (codePoint_injective)

/-- `_string_number` -/
def stringNumber : Json → Option Str
  | .int value => some (str (Text.signedDecimal value))
  | .string text =>
      if Lines.strip text = [] then none else some (Lines.strip text)
  | _ => none

/-- The name of a register, as `build_run_args` checks it.  Where a digit is
none of the decimal ones `int` fails. -/
def isGprName (numerals : Numerals) (name : Str) : Bool :=
  name.head? == some (codePoint 'r') && !(name.drop 1).isEmpty &&
    (name.drop 1).all (fun character =>
      (numerals.decimal character).isSome) &&
    (numerals.ofText (name.drop 1)).any fun index =>
      decide (0 ≤ index ∧ index < 32)

/-- A surrogate is no character of an argument. -/
def character? (character : CodePoint) : Option Char :=
  if character.val.isValidChar then some (Char.ofNat character.val) else none

def registerOf : Except String (Tool.Setting Nat Unit) → Option (Nat × Nat)
  | .ok (.register index value) => some (index, value)
  | _ => none

/-- What `--set` stores for a register of the job, if the worker and the tool
accept it. -/
def gprSetting (numerals : Numerals) (entry : Str × Json) :
    Option (Nat × Nat) :=
  if isGprName numerals entry.1 then do
    let number ← stringNumber entry.2
    let text ← (entry.1 ++ str "=" ++ number).mapM character?
    registerOf (Tool.readRegister (· % 2 ^ 32) (String.ofList text))
  else none

/-- `int(text, 0)` reads what the tool does. -/
def isPlain (numerals : Numerals) : Json → Bool
  | .string text => !Tool.isRefused numerals text
  | _ => true

private theorem codePoint_of_character? {character : CodePoint} {read : Char}
    (found : character? character = some read) :
    codePoint read = character := by
  obtain ⟨valid, same⟩ := Option.ite_none_right_eq_some.mp found
  rw [← Option.some.inj same]
  apply Fin.ext
  change (Char.ofNat character.val).toNat = character.val
  rw [Char.ofNat, dif_pos valid]
  rfl

private theorem map_of_mapM_character? {text : Str} {read : List Char}
    (found : text.mapM character? = some read) : read.map codePoint = text := by
  induction text generalizing read with
  | nil =>
      cases found
      rfl
  | cons character text induction =>
      rw [List.mapM_cons] at found
      obtain ⟨first, isFirst, found⟩ := Option.bind_eq_some_iff.mp found
      obtain ⟨rest, isRest, found⟩ := Option.bind_eq_some_iff.mp found
      cases found
      rw [List.map_cons, codePoint_of_character? isFirst, induction isRest]

/-- A setting as it was read from its text. -/
inductive ReadSetting : Str × Json → Nat → Nat → Prop where
  | intro {digits number : List Char} {values : List Nat} {value : Json}
      {whole : Nat} :
      digits ≠ [] → digits.mapM (Tool.digitValue 10) = some values →
      Tool.denoted 10 values < 32 →
      stringNumber value = some (number.map codePoint) →
      Tool.parseUnsigned number = some whole →
      ReadSetting (codePoint 'r' :: digits.map codePoint, value)
        (Tool.denoted 10 values) (whole % 2 ^ 32)

section Accepted

variable {numerals : Numerals}

/-- What is no decimal digit of ASCII is in no number of decimal digits. -/
private theorem not_mem_decimals {digits : List Char} {other : Char}
    (decimals : ∀ digit ∈ digits,
      (numerals.decimal (codePoint digit)).isSome)
    (noDigit : other.toNat < 0x30 ∨ 0x39 < other.toNat)
    (ascii : other.toNat < 0x80) : other ∉ digits := by
  intro member
  have none : numerals.decimal (codePoint other) = none := by
    rw [numerals.ordinary (codePoint other) ascii]
    refine if_neg ?_
    change ¬(0x30 ≤ other.toNat ∧ other.toNat ≤ 0x39)
    omega
  have some := decimals other member
  rw [none] at some
  cases some

private theorem splitAssignment_of_not_mem {name number : List Char}
    (absent : '=' ∉ name) (filled : name ≠ []) :
    Tool.splitAssignment (name ++ '=' :: number) =
      if number = [] then none else some (name, number) := by
  have differs : ∀ character ∈ name, decide (character ≠ '=') = true := by
    intro character member
    apply decide_eq_true
    rintro rfl
    exact absent member
  rw [Tool.splitAssignment, Tool.splitFilled, Tool.splitAt,
    List.dropWhile_append_of_pos differs, List.takeWhile_append_of_pos differs]
  by_cases nothing : number = []
  · simp [nothing]
  · simp [filled, nothing]

private theorem decimals_of_isGprName {name : Str}
    (named : isGprName numerals name) :
    ∃ digits, name = codePoint 'r' :: digits ∧ digits ≠ [] ∧
      ∀ digit ∈ digits, (numerals.decimal digit).isSome := by
  simp only [isGprName, Bool.and_eq_true, beq_iff_eq, Bool.not_eq_true',
    List.isEmpty_eq_false_iff, List.all_eq_true] at named
  obtain ⟨⟨⟨head, some⟩, decimals⟩, _⟩ := named
  obtain ⟨digits, rfl⟩ := List.head?_eq_some_iff.mp head
  exact ⟨digits, rfl, some, decimals⟩

private theorem decimal_of_numeral {digits : List Char} {index : Nat}
    (decimals : ∀ digit ∈ digits,
      (numerals.decimal (codePoint digit)).isSome)
    (numeral : Tool.Numeral digits index) :
    ∃ values, digits.mapM (Tool.digitValue 10) = some values ∧
      index = Tool.denoted 10 values := by
  cases numeral with
  | @hexadecimal mark text _ marked _ _ =>
      refine absurd (?_ : mark ∈ '0' :: mark :: text)
        (not_mem_decimals decimals ?_ ?_)
      · simp
      · rcases marked with rfl | rfl
        · exact .inr (by decide)
        · exact .inr (by decide)
      · rcases marked with rfl | rfl
        · decide
        · decide
  | @decimal _ values _ read => exact ⟨values, read, rfl⟩

private theorem registerOf_eq_some {text : String} {index value : Nat}
    (found : registerOf (Tool.readRegister (· % 2 ^ 32) text) =
      some (index, value)) :
    ∃ left right whole, Tool.splitRegister 'r' text = some (left, right) ∧
      Tool.parseUnsigned left = some index ∧ index < 32 ∧
      Tool.parseUnsigned right = some whole ∧ value = whole % 2 ^ 32 := by
  unfold Tool.readRegister Tool.readPair at found
  split at found
  · cases found
  · rename_i left right split
    split at found
    · cases found
    · rename_i number isIndex
      split at found
      · cases found
      · rename_i whole isValue
        cases found
        obtain ⟨parsed, small⟩ := Option.filter_eq_some_iff.mp isIndex
        exact ⟨left, right, whole, split, parsed, of_decide_eq_true small,
          isValue, rfl⟩

private theorem splitRegister_of_digits {digits number left right : List Char}
    (decimals : ∀ digit ∈ digits,
      (numerals.decimal (codePoint digit)).isSome) (some : digits ≠ [])
    (split : Tool.splitRegister 'r' (String.ofList
      ('r' :: digits ++ "=".toList ++ number)) = .some (left, right)) :
    left = digits ∧ right = number := by
  have absent : '=' ∉ 'r' :: digits := by
    rw [List.mem_cons, not_or]
    refine ⟨by decide, ?_⟩
    exact not_mem_decimals decimals (.inr (by decide)) (by decide)
  obtain ⟨first, rest, rfl⟩ := List.exists_cons_of_ne_nil some
  unfold Tool.splitRegister at split
  rw [String.toList_ofList, List.append_assoc, show "=".toList ++ number =
    '=' :: number from rfl, splitAssignment_of_not_mem absent
    (List.cons_ne_nil _ _)] at split
  by_cases nothing : number = []
  · rw [if_pos nothing] at split
    cases split
  · rw [if_neg nothing] at split
    cases split
    exact ⟨rfl, rfl⟩

theorem readSetting_of_gprSetting {entry : Str × Json} {index value : Nat}
    (accepted : gprSetting numerals entry = some (index, value)) :
    ReadSetting entry index value := by
  obtain ⟨name, given⟩ := entry
  obtain ⟨named, sent⟩ := Option.ite_none_right_eq_some.mp accepted
  obtain ⟨number, isNumber, typed⟩ := Option.bind_eq_some_iff.mp sent
  obtain ⟨text, read, stored⟩ := Option.bind_eq_some_iff.mp typed
  obtain ⟨digits, rfl, some, decimals⟩ := decimals_of_isGprName named
  have whole := map_of_mapM_character? read
  obtain ⟨front, back, rfl, isFront, isBack⟩ :=
    List.map_eq_append_iff.mp whole
  obtain ⟨letters, mark, rfl, isName, isMark⟩ :=
    List.map_eq_append_iff.mp isFront
  rw [str_eq] at isMark
  have marks := List.map_injective_iff.mpr codePoint_injective isMark
  obtain ⟨letter, digits, rfl, isLetter, rfl⟩ := List.map_eq_cons_iff.mp isName
  have letters := codePoint_injective isLetter
  subst letters marks isBack
  have decimalDigits : ∀ digit ∈ digits,
      (numerals.decimal (codePoint digit)).isSome := by
    intro digit member
    exact decimals _ (List.mem_map_of_mem member)
  have someDigits : digits ≠ [] := by
    rintro rfl
    exact some rfl
  obtain ⟨left, right, parsed, split, isIndex, small, isValue, rfl⟩ :=
    registerOf_eq_some stored
  obtain ⟨rfl, rfl⟩ :=
    splitRegister_of_digits decimalDigits someDigits split
  obtain ⟨values, isDigits, rfl⟩ := decimal_of_numeral decimalDigits
    (Tool.numeral_of_parseUnsigned isIndex)
  exact .intro someDigits isDigits small isNumber isValue

theorem ofText_of_gprSetting {entry : Str × Json} {index value : Nat}
    (accepted : gprSetting numerals entry = some (index, value)) :
    numerals.ofText (entry.1.drop 1) = some ↑index := by
  have read := readSetting_of_gprSetting accepted
  obtain ⟨named, _⟩ := Option.ite_none_right_eq_some.mp accepted
  obtain ⟨_, inRange⟩ := Bool.and_eq_true_iff.mp named
  cases read with
  | intro some digits _ _ _ =>
      have isIndex := Tool.ofText_of_decimal numerals some digits
      rw [List.drop_succ_cons, List.drop_zero, isIndex] at inRange ⊢
      split at inRange
      · rename_i permitted
        rw [if_pos permitted]
      · cases inRange

end Accepted

/-- What Python makes of the number of an accepted setting. -/
theorem ReadSetting.u32 {setting : Setting} {entry : Str × Json}
    {index value : Nat} (read : ReadSetting entry index value) :
    u32 setting entry.2 =
      if isPlain setting.python.numerals entry.2 then some value else none := by
  cases read with
  | @intro _ number _ given whole _ _ _ isNumber parsed =>
      cases given with
      | int given =>
          rw [stringNumber, str_eq, Option.some.injEq] at isNumber
          have same := List.map_injective_iff.mpr codePoint_injective isNumber
          rw [← same] at parsed
          rw [Tool.parseUnsigned_signedDecimal parsed]
          rfl
      | string text =>
          obtain ⟨_, stripped⟩ := Option.ite_none_left_eq_some.mp isNumber
          have literal := Tool.ofLiteral_of_numeral setting.python.numerals
            (Tool.numeral_of_parseUnsigned parsed) (Option.some.inj stripped)
          change (setting.python.numerals.ofLiteral text).map _ =
            if !Tool.isRefused setting.python.numerals text then _ else _
          rw [literal]
          cases Tool.isRefused setting.python.numerals text
          · rfl
          · rfl
      | null => cases isNumber
      | bool _ => cases isNumber
      | float _ => cases isNumber
      | array _ => cases isNumber
      | object _ => cases isNumber

end PpcLab.Explore
