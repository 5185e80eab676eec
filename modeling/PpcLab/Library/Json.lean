import Mathlib.Data.List.Lex
import Mathlib.Data.List.Sort
import Mathlib.Order.Fin.Basic

/-!
# JSON values

The values that a JSON reader returns, with the strings of Python: sequences of
code points, surrogates included.  The members of an object stand in the order
in which they were written; sorting the members of every object gives the value
from which canonical texts are printed.
-/

namespace PpcLab

def CodePoint := Fin 0x110000

instance : DecidableEq CodePoint :=
  inferInstanceAs (DecidableEq (Fin 0x110000))

instance : LinearOrder CodePoint :=
  inferInstanceAs (LinearOrder (Fin 0x110000))

instance (value : Nat) : OfNat CodePoint value :=
  inferInstanceAs (OfNat (Fin 0x110000) value)

/-- A Python string. -/
abbrev Str := List CodePoint

instance : LawfulBEq Str := inferInstance

def CodePoint.ofNat (value : Nat) : CodePoint :=
  Fin.ofNat 0x110000 value

def codePoint (character : Char) : CodePoint :=
  ⟨character.toNat, by
    have valid := character.valid
    simp only [UInt32.isValidChar, Nat.isValidChar] at valid
    unfold Char.toNat
    omega⟩

/-- The characters that bytes in UTF-8 stand for; `left` bytes are missing of a
character with the bits `value`. -/
def decoded : Nat → Nat → List UInt8 → Str
  | _, _, [] => []
  | 0, _, byte :: bytes =>
      if byte.toNat < 0x80 then
        CodePoint.ofNat byte.toNat :: decoded 0 0 bytes
      else if byte.toNat < 0xe0 then decoded 1 (byte.toNat % 0x20) bytes
      else if byte.toNat < 0xf0 then decoded 2 (byte.toNat % 0x10) bytes
      else decoded 3 (byte.toNat % 0x08) bytes
  | 1, value, byte :: bytes =>
      CodePoint.ofNat (0x40 * value + byte.toNat % 0x40) :: decoded 0 0 bytes
  | left + 2, value, byte :: bytes =>
      decoded (left + 1) (0x40 * value + byte.toNat % 0x40) bytes

def str (text : String) : Str :=
  decoded 0 0 text.toByteArray.data.toList

private theorem decoded_utf8EncodeChar (character : Char)
    (bytes : List UInt8) :
    decoded 0 0 (String.utf8EncodeChar character ++ bytes) =
      codePoint character :: decoded 0 0 bytes := by
  have valid := character.valid
  simp only [UInt32.isValidChar, Nat.isValidChar] at valid
  have point (value : Nat) (same : value = character.val.toNat) :
      CodePoint.ofNat value = codePoint character := by
    apply Fin.ext
    rw [same, CodePoint.ofNat, Fin.val_ofNat]
    exact Nat.mod_eq_of_lt (by omega)
  have byte (value : Nat) (small : value < 0x100) :
      (UInt8.ofNat value).toNat = value := by
    rw [UInt8.toNat_ofNat', Nat.mod_eq_of_lt small]
  unfold String.utf8EncodeChar
  dsimp only
  generalize character.val.toNat = value at valid point
  split_ifs with one two three
  · rw [List.cons_append, List.nil_append, decoded, byte _ (by omega)]
    rw [if_pos (by omega), point value rfl]
  · simp only [List.cons_append, List.nil_append]
    rw [decoded, byte _ (by omega)]
    rw [if_neg (by omega), if_pos (by omega), decoded, byte _ (by omega),
      point _ (by omega)]
  · simp only [List.cons_append, List.nil_append]
    rw [decoded, byte _ (by omega)]
    rw [if_neg (by omega), if_neg (by omega), if_pos (by omega), decoded,
      byte _ (by omega), decoded, byte _ (by omega), point _ (by omega)]
  · simp only [List.cons_append, List.nil_append]
    rw [decoded, byte _ (by omega)]
    rw [if_neg (by omega), if_neg (by omega), if_neg (by omega), decoded,
      byte _ (by omega), decoded, byte _ (by omega), decoded,
      byte _ (by omega), point _ (by omega)]

theorem str_eq (text : String) : str text = text.toList.map codePoint := by
  have whole (characters : List Char) :
      decoded 0 0 (characters.flatMap String.utf8EncodeChar) =
        characters.map codePoint := by
    induction characters with
    | nil => rfl
    | cons character characters induction =>
        rw [List.flatMap_cons, decoded_utf8EncodeChar, induction, List.map_cons]
  have same := whole text.toList
  rw [str, ← same]
  have bytes : text.toByteArray.data.toList =
      text.toList.flatMap String.utf8EncodeChar := by
    have listed := congrArg (fun text => text.toByteArray.data.toList)
      (String.ofList_toList (s := text))
    rw [String.toByteArray_ofList, List.utf8Encode,
      List.toList_data_toByteArray] at listed
    exact listed.symm
  rw [bytes]

instance : Coe String Str := ⟨str⟩

/-- The text by which a float is printed: `1.5`, `1e-07`, `NaN`. -/
def isFloatText (text : Str) : Bool :=
  text.all (· ∈ str "+-.0123456789INaefinty") && text.any (· ∈ str ".eNI")

/-- A float, as the text that it is printed by. -/
structure FloatLiteral where
  text : Str
  isFloat : isFloatText text
  deriving DecidableEq

/-- The text of zero. -/
def FloatLiteral.zero : FloatLiteral :=
  ⟨"0.0", by decide⟩

inductive Json where
  | null
  | bool (value : Bool)
  | int (value : Int)
  | float (literal : FloatLiteral)
  | string (value : Str)
  | array (items : List Json)
  | object (fields : List (Str × Json))

abbrev Fields := List (Str × Json)

namespace Json

mutual

def same : Json → Json → Bool
  | .null, .null => true
  | .bool first, .bool second => first == second
  | .int first, .int second => first == second
  | .float first, .float second => first == second
  | .string first, .string second => first == second
  | .array first, .array second => sameItems first second
  | .object first, .object second => sameFields first second
  | _, _ => false

def sameItems : List Json → List Json → Bool
  | [], [] => true
  | first :: firsts, second :: seconds =>
      same first second && sameItems firsts seconds
  | _, _ => false

def sameFields : Fields → Fields → Bool
  | [], [] => true
  | (firstKey, first) :: firsts, (secondKey, second) :: seconds =>
      firstKey == secondKey && same first second && sameFields firsts seconds
  | _, _ => false

end

mutual

theorem same_iff (first second : Json) : same first second ↔ first = second := by
  cases first with
  | array items =>
      cases second <;> simp [same, sameItems_iff items]
  | object fields =>
      cases second <;> simp [same, sameFields_iff fields]
  | null | bool | int | float | string =>
      cases second <;> simp [same]

theorem sameItems_iff (first second : List Json) :
    sameItems first second ↔ first = second := by
  cases first with
  | nil => cases second <;> simp [sameItems]
  | cons head tail =>
      cases second <;> simp [sameItems, same_iff head, sameItems_iff tail]

theorem sameFields_iff (first second : Fields) :
    sameFields first second ↔ first = second := by
  match first with
  | [] => cases second <;> simp [sameFields]
  | (key, head) :: tail =>
      cases second <;>
        simp [sameFields, Prod.ext_iff, same_iff head, sameFields_iff tail]

end

instance : DecidableEq Json :=
  fun first second => decidable_of_iff _ (same_iff first second)

/-- The member with a key, if there is one. -/
def find? (fields : Fields) (key : Str) : Option Json :=
  (fields.find? (·.1 == key)).map (·.2)

/-- `get` of a dictionary: `None` stands for a missing member, too. -/
def get (fields : Fields) (key : Str) : Json :=
  (find? fields key).getD .null

theorem get_cons (key wanted : Str) (value : Json) (fields : Fields) :
    get ((key, value) :: fields) wanted =
      if key = wanted then value else get fields wanted := by
  rw [get, get, find?, find?, List.find?_cons]
  by_cases here : key = wanted
  · simp [here]
  · rw [if_neg here, beq_eq_false_iff_ne.mpr here]

/-- The members of an object. -/
def asObject? : Json → Option Fields
  | .object fields => some fields
  | _ => none

def asString? : Json → Option Str
  | .string value => some value
  | _ => none

def asArray? : Json → Option (List Json)
  | .array items => some items
  | _ => none

def asBool? : Json → Option Bool
  | .bool value => some value
  | _ => none

/-- A number without a fraction that is not a truth value. -/
def asInt? : Json → Option Int
  | .int value => some value
  | _ => none

/-- `isinstance(value, int)`, which truth values are, too. -/
def asInteger? : Json → Option Int
  | .int value => some value
  | .bool value => some value.toInt
  | _ => none

/-- `value if isinstance(value, dict) else {}` -/
def dict (value : Json) : Fields :=
  (asObject? value).getD []

def byKey (first second : Str × Json) : Prop :=
  first.1 ≤ second.1

/-- The order of two texts, computed character by character. -/
def notAfter : Str → Str → Bool
  | [], _ => true
  | _ :: _, [] => false
  | first :: firsts, second :: seconds =>
      first.val < second.val ||
        (first.val == second.val && notAfter firsts seconds)

theorem notAfter_iff (first second : Str) :
    notAfter first second ↔ first ≤ second := by
  rw [← not_lt]
  induction first generalizing second with
  | nil => simp [notAfter]
  | cons head first induction =>
      cases second with
      | nil => simp [notAfter]
      | cons other second =>
          rw [List.cons_lt_cons_iff, not_or, not_and, ← induction, not_lt]
          rcases lt_trichotomy head other with less | rfl | greater
          · simp [notAfter, Fin.lt_def.mp less, less.le, less.ne']
          · simp [notAfter]
          · have notLess : ¬ head.val < other.val :=
              Nat.not_lt.mpr (Fin.lt_def.mp greater).le
            have differ : head.val ≠ other.val := (Fin.lt_def.mp greater).ne'
            simp [notAfter, notLess, differ, greater]

instance : DecidableRel byKey :=
  fun first second => decidable_of_iff _ (notAfter_iff first.1 second.1)

def sortFields (fields : Fields) : Fields :=
  fields.insertionSort byKey

mutual

/-- The members of every object in the order of their keys, as
`json.dumps(sort_keys=True)` prints them. -/
def sorted : Json → Json
  | .array items => .array (sortedItems items)
  | .object fields => .object (sortFields (sortedFields fields))
  | value => value

def sortedItems : List Json → List Json
  | [] => []
  | item :: items => sorted item :: sortedItems items

def sortedFields : Fields → Fields
  | [] => []
  | (key, value) :: fields => (key, sorted value) :: sortedFields fields

end

theorem sortedItems_eq_map (items : List Json) :
    sortedItems items = items.map sorted := by
  induction items with
  | nil => rfl
  | cons item items induction => rw [sortedItems, induction, List.map_cons]

theorem sortedFields_eq_map (fields : Fields) :
    sortedFields fields = fields.map fun member =>
      (member.1, sorted member.2) := by
  induction fields with
  | nil => rfl
  | cons member fields induction =>
      rw [sortedFields, induction, List.map_cons]

private theorem filter_orderedInsert (key : Str) (member : Str × Json)
    (fields : Fields) :
    (fields.orderedInsert byKey member).filter (·.1 == key) =
      (member :: fields).filter (·.1 == key) := by
  induction fields with
  | nil => rfl
  | cons head fields induction =>
      rw [List.orderedInsert_cons]
      split
      · rfl
      · rename_i after
        rw [List.filter_cons, induction]
        by_cases here : head.1 = key
        · have other : member.1 ≠ key := by
            intro same
            apply after
            rw [byKey, same, here]
          simp [here, other]
        · simp [List.filter_cons, here]

/-- Members with the same key keep their order. -/
theorem filter_sortFields (key : Str) (fields : Fields) :
    (sortFields fields).filter (·.1 == key) = fields.filter (·.1 == key) := by
  induction fields with
  | nil => rfl
  | cons member fields induction =>
      rw [sortFields, List.insertionSort_cons, filter_orderedInsert,
        List.filter_cons, List.filter_cons]
      rw [sortFields] at induction
      rw [induction]

private theorem find?_eq_head? (fields : Fields) (key : Str) :
    find? fields key = ((fields.filter (·.1 == key)).head?).map (·.2) := by
  rw [find?, List.head?_filter]

theorem find?_sortFields (fields : Fields) (key : Str) :
    find? (sortFields fields) key = find? fields key := by
  rw [find?_eq_head?, filter_sortFields, ← find?_eq_head?]

theorem find?_sortedFields (fields : Fields) (key : Str) :
    find? (sortedFields fields) key = (find? fields key).map sorted := by
  induction fields with
  | nil => rfl
  | cons member fields induction =>
      unfold find? at induction ⊢
      rw [sortedFields, List.find?_cons, List.find?_cons]
      by_cases here : member.1 = key
      · simp [here]
      · rw [beq_eq_false_iff_ne.mpr here]
        exact induction

/-- The members of a sorted object. -/
def sortedObject (fields : Fields) : Fields :=
  sortFields (sortedFields fields)

/-- What a sorted object has for a key. -/
theorem get_sorted (fields : Fields) (key : Str) :
    get (sortedObject fields) key = sorted (get fields key) := by
  rw [get, get, sortedObject, find?_sortFields, find?_sortedFields]
  cases find? fields key <;> rfl

theorem sorted_eq_string {value : Json} {text : Str} :
    sorted value = .string text ↔ value = .string text := by
  cases value <;> simp [sorted]

private theorem sortedFields_sortFields (fields : Fields) :
    sortedFields (sortFields fields) = sortFields (sortedFields fields) := by
  rw [sortedFields_eq_map, sortedFields_eq_map, sortFields, sortFields]
  exact List.map_insertionSort byKey byKey _ fields fun _ _ _ _ => Iff.rfl

/-- Members with the same keys in the same order are told apart when they are
sorted, too. -/
theorem sortFields_injective {first second : Fields}
    (keys : first.map (·.1) = second.map (·.1))
    (same : sortFields first = sortFields second) : first = second := by
  have byKeys (key : Str) :
      first.filter (·.1 == key) = second.filter (·.1 == key) := by
    rw [← filter_sortFields, same, filter_sortFields]
  clear same
  induction first generalizing second with
  | nil => exact (List.map_eq_nil_iff.mp keys.symm).symm
  | cons head first induction =>
      cases second with
      | nil => cases keys
      | cons other second =>
          obtain ⟨sameKey, restKeys⟩ := List.cons.inj keys
          have here := byKeys head.1
          rw [List.filter_cons_of_pos (by simp),
            List.filter_cons_of_pos (by simp [sameKey])] at here
          have heads := (List.cons.inj here).1
          subst heads
          congr 1
          apply induction restKeys
          intro key
          have there := byKeys key
          rw [List.filter_cons, List.filter_cons] at there
          split at there
          · exact (List.cons.inj there).2
          · exact there

private theorem byKey_total : Std.Total byKey :=
  ⟨fun first second => le_total first.1 second.1⟩

private theorem byKey_trans : IsTrans (Str × Json) byKey :=
  ⟨fun _ _ _ => le_trans⟩

/-- Sorted members do not tell in which order they stood. -/
theorem sortFields_eq_of_perm {first second : Fields}
    (distinct : (first.map (·.1)).Nodup) (same : first.Perm second) :
    sortFields first = sortFields second := by
  have total := byKey_total
  have transitive := byKey_trans
  have inFirst : (sortFields first).Perm first := List.perm_insertionSort _ _
  have inSecond : (sortFields second).Perm second := List.perm_insertionSort _ _
  refine List.Perm.eq_of_pairwise ?_
    (List.pairwise_insertionSort byKey first)
    (List.pairwise_insertionSort byKey second)
    (inFirst.trans (same.trans inSecond.symm))
  intro one other here there before after
  have keys : one.1 = other.1 := le_antisymm before after
  exact List.inj_on_of_nodup_map distinct (inFirst.mem_iff.mp here)
    (same.mem_iff.mpr (inSecond.mem_iff.mp there)) keys

theorem sortFields_sortFields (fields : Fields) :
    sortFields (sortFields fields) = sortFields fields := by
  have total := byKey_total
  have transitive := byKey_trans
  exact (List.pairwise_insertionSort byKey fields).insertionSort_eq

mutual

theorem sorted_sorted (value : Json) : sorted (sorted value) = sorted value := by
  cases value with
  | array items => rw [sorted, sorted, sortedItems_sortedItems items]
  | object fields =>
      rw [sorted, sorted, sortedFields_sortFields,
        sortedFields_sortedFields fields, sortFields_sortFields]
  | _ => rfl

theorem sortedItems_sortedItems (items : List Json) :
    sortedItems (sortedItems items) = sortedItems items := by
  cases items with
  | nil => rfl
  | cons item items =>
      rw [sortedItems, sortedItems, sorted_sorted item,
        sortedItems_sortedItems items]

theorem sortedFields_sortedFields (fields : Fields) :
    sortedFields (sortedFields fields) = sortedFields fields := by
  match fields with
  | [] => rfl
  | (key, value) :: fields =>
      rw [sortedFields, sortedFields, sorted_sorted value,
        sortedFields_sortedFields fields]

end

end Json

end PpcLab
