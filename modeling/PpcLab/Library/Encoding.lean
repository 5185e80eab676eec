import PpcLab.Library.PythonText
import PpcLab.Library.Utf8

/-!
# Texts that can be encoded

A text has an encoding exactly when no surrogate is in it, and a value has
canonical bytes exactly when that is so of its strings.  What Python prints for
such a value can be encoded, too.
-/

namespace PpcLab

def isSurrogate (character : CodePoint) : Bool :=
  0xd800 ≤ character.val && character.val < 0xe000

/-- No surrogate is in a text. -/
def encodes (text : Str) : Bool :=
  text.all fun character => !isSurrogate character

@[simp] theorem encodes_nil : encodes [] = true := rfl

@[simp] theorem encodes_cons (character : CodePoint) (text : Str) :
    encodes (character :: text) = (!isSurrogate character && encodes text) :=
  rfl

@[simp] theorem encodes_append (first second : Str) :
    encodes (first ++ second) = (encodes first && encodes second) :=
  List.all_append

@[simp] theorem encodes_reverse (text : Str) :
    encodes text.reverse = encodes text :=
  List.all_reverse

theorem encodes_iff {text : Str} :
    encodes text = true ↔
      ∀ character ∈ text, isSurrogate character = false := by
  rw [encodes, List.all_eq_true]
  simp only [Bool.not_eq_true']

/-- A part of a text. -/
theorem encodes_of_subset {part text : Str} (subset : part ⊆ text)
    (whole : encodes text = true) : encodes part = true := by
  rw [encodes_iff] at whole ⊢
  intro character member
  exact whole character (subset member)

theorem encodes_flatMap {α : Type} {items : List α} {text : α → Str}
    (each : ∀ item ∈ items, encodes (text item) = true) :
    encodes (items.flatMap text) = true := by
  induction items with
  | nil => rfl
  | cons item items induction =>
      rw [List.flatMap_cons, encodes_append, each item List.mem_cons_self]
      apply induction
      intro other member
      exact each other (List.mem_cons_of_mem _ member)

theorem encodes_of_small {text : Str}
    (small : ∀ character ∈ text, character.val < 0x800) :
    encodes text = true := by
  rw [encodes_iff]
  intro character member
  have bound := small character member
  rw [isSurrogate, decide_eq_false (by omega)]
  rfl

private theorem isSome_utf8Character (character : CodePoint) :
    (utf8Character character).isSome = !isSurrogate character := by
  unfold utf8Character isSurrogate
  dsimp only
  split_ifs with ascii two surrogate
  · simp
    omega
  · simp
    omega
  · simp [surrogate]
  · simp
    omega
  · simp
    omega

theorem isSome_utf8 (text : Str) : (utf8 text).isSome = encodes text := by
  induction text with
  | nil => rfl
  | cons character text induction =>
      rw [encodes_cons, ← induction, ← isSome_utf8Character, utf8]
      cases utf8Character character with
      | none => rfl
      | some bytes => cases utf8 text <;> rfl

/-- The characters of Lean are no surrogates. -/
@[simp] theorem encodes_str (text : String) : encodes (str text) = true := by
  rw [str_eq, encodes_iff]
  intro point member
  obtain ⟨character, _, rfl⟩ := List.mem_map.mp member
  have valid := character.valid
  simp only [UInt32.isValidChar, Nat.isValidChar] at valid
  have value : (codePoint character).val = character.val.toNat := rfl
  rw [isSurrogate, value]
  simp only [Bool.and_eq_false_iff, decide_eq_false_iff_not]
  omega

namespace Json

mutual

/-- No surrogate is in a string of a value. -/
def allEncode : Json → Bool
  | .string value => encodes value
  | .array items => itemsEncode items
  | .object fields => fieldsEncode fields
  | .null | .bool _ | .int _ | .float _ => true

def itemsEncode : List Json → Bool
  | [] => true
  | item :: items => allEncode item && itemsEncode items

def fieldsEncode : Fields → Bool
  | [] => true
  | (key, value) :: fields =>
      encodes key && allEncode value && fieldsEncode fields

end

theorem itemsEncode_eq (items : List Json) :
    itemsEncode items = items.all allEncode := by
  induction items with
  | nil => rfl
  | cons item items induction => rw [itemsEncode, induction, List.all_cons]

theorem fieldsEncode_eq (fields : Fields) :
    fieldsEncode fields =
      fields.all fun member => encodes member.1 && allEncode member.2 := by
  induction fields with
  | nil => rfl
  | cons member fields induction =>
      rw [fieldsEncode, induction, List.all_cons]

private theorem fieldsEncode_sortFields (fields : Fields) :
    fieldsEncode (sortFields fields) = fieldsEncode fields := by
  rw [fieldsEncode_eq, fieldsEncode_eq, sortFields]
  exact (List.perm_insertionSort byKey fields).all_eq

mutual

theorem allEncode_sorted (value : Json) :
    allEncode value.sorted = allEncode value := by
  cases value with
  | array items =>
      rw [sorted, allEncode, allEncode, itemsEncode_sorted items]
  | object fields =>
      rw [sorted, allEncode, allEncode, fieldsEncode_sortFields,
        fieldsEncode_sorted fields]
  | null | bool | int | float | string => rfl

theorem itemsEncode_sorted (items : List Json) :
    itemsEncode (sortedItems items) = itemsEncode items := by
  cases items with
  | nil => rfl
  | cons item items =>
      rw [sortedItems, itemsEncode, itemsEncode, allEncode_sorted item,
        itemsEncode_sorted items]

theorem fieldsEncode_sorted (fields : Fields) :
    fieldsEncode (sortedFields fields) = fieldsEncode fields := by
  match fields with
  | [] => rfl
  | (key, value) :: fields =>
      rw [sortedFields, fieldsEncode, fieldsEncode, allEncode_sorted value,
        fieldsEncode_sorted fields]

end

private theorem encodes_escaped (character : CodePoint) :
    encodes (escaped character) = !isSurrogate character := by
  have ascii : ∀ small : Fin 0x80, encodes (escaped
      (CodePoint.ofNat small.val)) = true := by
    decide
  by_cases small : character.val < 0x80
  · have same : CodePoint.ofNat character.val = character := by
      apply Fin.ext
      rw [CodePoint.ofNat, Fin.val_ofNat]
      exact Nat.mod_eq_of_lt character.isLt
    have here := ascii ⟨character.val, small⟩
    rw [same] at here
    rw [here, isSurrogate, decide_eq_false (by omega)]
    rfl
  · have plain : 0x22 < character.val ∧ character ≠ backslash := by
      refine ⟨by omega, ?_⟩
      intro same
      apply small
      rw [same]
      decide
    rw [escaped, if_pos plain, encodes_cons, encodes_nil, Bool.and_true]

private theorem encodes_quoted (text : Str) :
    encodes (quoted text) = encodes text := by
  have inside : encodes (text.flatMap escaped) = encodes text := by
    induction text with
    | nil => rfl
    | cons character text induction =>
        rw [List.flatMap_cons, encodes_append, induction, encodes_escaped,
          encodes_cons]
  have quote : encodes [doubleQuote] = true := by
    decide
  rw [quoted, encodes_cons, encodes_append, inside, quote, Bool.and_true]
  rfl

private theorem encodes_of_isScalar {value : Json} (scalar : value.isScalar) :
    encodes value.text = true := by
  have tokens : ∀ character ∈ str "+-.0123456789INaefilnrstuy",
      isSurrogate character = false := by
    decide
  rw [encodes_iff]
  intro character member
  have token := isToken_of_mem_text scalar member
  exact tokens character (of_decide_eq_true token)

mutual

theorem encodes_text (value : Json) : encodes value.text = allEncode value := by
  cases value with
  | array items =>
      rw [text, encodes_cons, allEncode, encodes_itemsText items]
      rfl
  | object fields =>
      rw [text, encodes_cons, allEncode, encodes_fieldsText fields]
      rfl
  | string value => exact encodes_quoted value
  | null | bool | int | float => exact encodes_of_isScalar rfl

theorem encodes_itemsText (items : List Json) :
    encodes (itemsText items) = itemsEncode items := by
  cases items with
  | nil => rfl
  | cons item items =>
      rw [itemsText, itemsEncode, encodes_append, encodes_text item,
        encodes_moreItems items]

theorem encodes_moreItems (items : List Json) :
    encodes (moreItems items) = itemsEncode items := by
  cases items with
  | nil => rfl
  | cons item items =>
      rw [moreItems, itemsEncode, encodes_cons, encodes_append,
        encodes_text item, encodes_moreItems items]
      rfl

theorem encodes_fieldsText (fields : Fields) :
    encodes (fieldsText fields) = fieldsEncode fields := by
  match fields with
  | [] => rfl
  | (key, value) :: fields =>
      rw [fieldsText, fieldsEncode, encodes_append, encodes_cons,
        encodes_append, encodes_quoted, encodes_text value,
        encodes_moreFields fields, Bool.and_assoc]
      rfl

theorem encodes_moreFields (fields : Fields) :
    encodes (moreFields fields) = fieldsEncode fields := by
  match fields with
  | [] => rfl
  | (key, value) :: fields =>
      rw [moreFields, fieldsEncode, encodes_cons, encodes_append,
        encodes_cons, encodes_append, encodes_quoted, encodes_text value,
        encodes_moreFields fields, Bool.and_assoc]
      rfl

end

/-- A value has canonical bytes exactly when its strings have an encoding. -/
theorem isSome_canonical (value : Json) :
    (canonical value).isSome = allEncode value := by
  rw [canonical, isSome_utf8, encodes_append, encodes_text, allEncode_sorted]
  exact Bool.and_true _

theorem encodes_of_find? {fields : Fields} {key : Str} {value : Json}
    (encoded : fieldsEncode fields = true)
    (found : find? fields key = some value) : allEncode value = true := by
  obtain ⟨member, first, rfl⟩ := Option.map_eq_some_iff.mp found
  rw [fieldsEncode_eq, List.all_eq_true] at encoded
  have both := encoded member (List.mem_of_find?_eq_some first)
  exact (Bool.and_eq_true_iff.mp both).2

theorem encodes_get {fields : Fields} (encoded : fieldsEncode fields = true)
    (key : Str) : allEncode (get fields key) = true := by
  rw [get]
  cases found : find? fields key with
  | none => rfl
  | some value => exact encodes_of_find? encoded found

theorem encodes_of_mem {items : List Json} {item : Json}
    (encoded : itemsEncode items = true) (member : item ∈ items) :
    allEncode item = true := by
  rw [itemsEncode_eq, List.all_eq_true] at encoded
  exact encoded item member

end Json

namespace Unicode

variable (unicode : Unicode)

private theorem encodes_hexDigits (count value : Nat) :
    encodes (hexDigits count value) = true := by
  have digits : ∀ digit : Fin 16,
      isSurrogate (hexDigit digit.val) = false := by
    decide
  rw [encodes_iff]
  intro character member
  obtain ⟨index, _, rfl⟩ := List.mem_map.mp member
  exact digits ⟨_, Nat.mod_lt _ (by omega)⟩

private theorem encodes_reprCharacter {quote character : CodePoint}
    (plain : isSurrogate character = false) :
    encodes (unicode.reprCharacter quote character) = true := by
  have escape (letter : Char) (count value : Nat) :
      encodes (backslash :: codePoint letter :: hexDigits count value) =
        encodes [codePoint letter] := by
    rw [encodes_cons, encodes_cons, encodes_hexDigits, encodes_cons]
    rfl
  unfold reprCharacter
  split_ifs
  · rw [encodes_cons, encodes_cons, plain]
    rfl
  · decide
  · decide
  · decide
  · rw [escape]
    decide
  · rw [encodes_cons, plain]
    rfl
  · rw [escape]
    decide
  · rw [escape]
    decide
  · rw [escape]
    decide

private theorem encodes_reprStr {text : Str}
    (encoded : encodes text = true) :
    encodes (unicode.reprStr text) = true := by
  have quotes : isSurrogate doubleQuote = false ∧
      isSurrogate singleQuote = false := by
    decide
  have inside (quote : CodePoint) :
      encodes (text.flatMap (unicode.reprCharacter quote)) = true := by
    apply encodes_flatMap
    intro character member
    apply unicode.encodes_reprCharacter
    exact encodes_iff.mp encoded character member
  rw [reprStr]
  rw [encodes_cons, encodes_append, inside, encodes_cons]
  split
  · rw [quotes.1]
    rfl
  · rw [quotes.2]
    rfl

private theorem encodes_reprFloat (literal : FloatLiteral) :
    encodes (reprFloat literal) = true := by
  have plain : encodes (Json.float literal).text = true :=
    Json.encodes_text _
  unfold reprFloat
  split_ifs
  · exact encodes_str _
  · exact encodes_str _
  · exact encodes_str _
  · exact plain

mutual

private theorem encodes_repr {value : Json}
    (encoded : value.allEncode = true) :
    encodes (unicode.repr value) = true := by
  cases value with
  | null => exact encodes_str _
  | bool value => cases value <;> exact encodes_str _
  | int value => exact encodes_str _
  | float literal => exact encodes_reprFloat literal
  | string value => exact unicode.encodes_reprStr encoded
  | array items =>
      rw [repr, encodes_cons, encodes_reprItems encoded]
      rfl
  | object fields =>
      rw [repr, encodes_cons, encodes_reprFields encoded]
      rfl

private theorem encodes_reprItems {items : List Json}
    (encoded : Json.itemsEncode items = true) :
    encodes (unicode.reprItems items) = true := by
  match items with
  | [] => rfl
  | [item] =>
      obtain ⟨here, _⟩ := Bool.and_eq_true_iff.mp encoded
      rw [reprItems, encodes_append, encodes_repr here]
      rfl
  | item :: other :: items =>
      obtain ⟨here, rest⟩ := Bool.and_eq_true_iff.mp encoded
      rw [reprItems, encodes_append, encodes_append, encodes_repr here,
        encodes_str, encodes_reprItems rest]
      · rfl
      · intro empty
        cases empty

private theorem encodes_reprFields {fields : Fields}
    (encoded : Json.fieldsEncode fields = true) :
    encodes (unicode.reprFields fields) = true := by
  match fields with
  | [] => rfl
  | [(key, value)] =>
      obtain ⟨here, _⟩ := Bool.and_eq_true_iff.mp encoded
      obtain ⟨name, here⟩ := Bool.and_eq_true_iff.mp here
      rw [reprFields, encodes_append, encodes_append, encodes_append,
        encodes_repr here, encodes_str, unicode.encodes_reprStr name]
      rfl
  | (key, value) :: other :: fields =>
      obtain ⟨here, rest⟩ := Bool.and_eq_true_iff.mp encoded
      obtain ⟨name, here⟩ := Bool.and_eq_true_iff.mp here
      rw [reprFields, encodes_append, encodes_append, encodes_append,
        encodes_append, encodes_repr here, encodes_str, encodes_str,
        unicode.encodes_reprStr name, encodes_reprFields rest]
      · rfl
      · intro empty
        cases empty

end

theorem encodes_toStr {value : Json} (encoded : value.allEncode = true) :
    encodes (unicode.toStr value) = true := by
  cases value with
  | string value => exact encoded
  | null | bool | int | float | array | object =>
      exact unicode.encodes_repr encoded

/-- Space at both ends is taken away. -/
theorem encodes_strip {text : Str} (encoded : encodes text = true) :
    encodes (unicode.strip text) = true := by
  rw [strip, encodes_reverse]
  apply encodes_of_subset (List.dropWhile_suffix _).subset
  rw [encodes_reverse]
  exact encodes_of_subset (List.dropWhile_suffix _).subset encoded

end Unicode

end PpcLab
