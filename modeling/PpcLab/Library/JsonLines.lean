import PpcLab.Library.JsonPrefix
import PpcLab.Library.Lines

/-!
# JSON texts on lines

A text that does not escape what is not ASCII has a break in it exactly where a
string has one of three characters, and the beginning of an object up to such a
break is not read.
-/

namespace PpcLab.Json

/-- The characters that end a line and are not escaped. -/
def rawBreaks : Str :=
  [0x85, 0x2028, 0x2029]

mutual

/-- The strings and the keys of a value. -/
def strings : Json → List Str
  | .string value => [value]
  | .array items => itemsStrings items
  | .object fields => fieldsStrings fields
  | _ => []

def itemsStrings : List Json → List Str
  | [] => []
  | item :: items => strings item ++ itemsStrings items

def fieldsStrings : Fields → List Str
  | [] => []
  | (key, value) :: fields => key :: (strings value ++ fieldsStrings fields)

end

/-- No string of a value has a break that is not escaped. -/
def Unbroken (value : Json) : Prop :=
  ∀ text ∈ value.strings, ∀ character ∈ text, character ∉ rawBreaks

instance (value : Json) : Decidable value.Unbroken :=
  inferInstanceAs (Decidable (∀ text ∈ value.strings, ∀ character ∈ text,
    character ∉ rawBreaks))

theorem fieldsStrings_eq (fields : Fields) :
    fieldsStrings fields =
      fields.flatMap fun member => member.1 :: strings member.2 := by
  induction fields with
  | nil => rfl
  | cons member fields induction =>
      rw [fieldsStrings, induction, List.flatMap_cons, List.cons_append]

mutual

theorem mem_strings_sorted (wanted : Str) : (value : Json) →
    (wanted ∈ value.sorted.strings ↔ wanted ∈ value.strings)
  | .null | .bool _ | .int _ | .float _ | .string _ => Iff.rfl
  | .array items => mem_strings_sortedItems wanted items
  | .object fields => by
      have same : (sortFields (sortedFields fields)).Perm
          (sortedFields fields) := List.perm_insertionSort _ _
      rw [sorted, strings, strings, ← mem_strings_sortedFields wanted fields,
        fieldsStrings_eq, fieldsStrings_eq]
      exact (same.flatMap_right _).mem_iff

theorem mem_strings_sortedItems (wanted : Str) : (items : List Json) →
    (wanted ∈ itemsStrings (sortedItems items) ↔ wanted ∈ itemsStrings items)
  | [] => Iff.rfl
  | item :: items => by
      rw [sortedItems, itemsStrings, itemsStrings, List.mem_append,
        List.mem_append, mem_strings_sorted wanted item,
        mem_strings_sortedItems wanted items]

theorem mem_strings_sortedFields (wanted : Str) : (fields : Fields) →
    (wanted ∈ fieldsStrings (sortedFields fields) ↔
      wanted ∈ fieldsStrings fields)
  | [] => Iff.rfl
  | (key, value) :: fields => by
      rw [sortedFields, fieldsStrings, fieldsStrings, List.mem_cons,
        List.mem_append, List.mem_cons, List.mem_append,
        mem_strings_sorted wanted value,
        mem_strings_sortedFields wanted fields]

end

theorem unbroken_sorted (value : Json) :
    value.sorted.Unbroken ↔ value.Unbroken := by
  simp only [Unbroken, mem_strings_sorted]

private theorem isBreak_iff_mem_rawBreaks {character : CodePoint}
    (large : 0x20 ≤ character.val) :
    Lines.isBreak character ↔ character ∈ rawBreaks := by
  constructor
  · intro ends
    simp only [Lines.isBreak, Bool.or_eq_true, Bool.and_eq_true,
      decide_eq_true_eq, beq_iff_eq] at ends
    have three : character.val = 0x85 ∨ character.val = 0x2028 ∨
        character.val = 0x2029 := by
      omega
    rcases three with next | line | paragraph
    · exact List.mem_cons.mpr (.inl (Fin.ext next))
    · exact List.mem_cons.mpr (.inr (List.mem_cons.mpr (.inl (Fin.ext line))))
    · exact List.mem_cons.mpr (.inr (List.mem_cons.mpr
        (.inr (List.mem_singleton.mpr (Fin.ext paragraph)))))
  · intro raw
    have all : ∀ character ∈ rawBreaks, Lines.isBreak character := by
      decide
    exact all character raw

private theorem not_mem_visible {mark : CodePoint}
    (ends : Lines.isBreak mark) {text : Str}
    (visible : ∀ character ∈ text, Lines.isBreak character = false) :
    mark ∉ text := by
  intro member
  rw [visible mark member] at ends
  cases ends

/-- A character is escaped unless it is one of the three. -/
private theorem mem_escaped {mark : CodePoint} (ends : Lines.isBreak mark)
    (character : CodePoint) :
    mark ∈ escaped character ↔ mark = character ∧ mark ∈ rawBreaks := by
  have alone (large : 0x20 ≤ character.val) :
      mark ∈ [character] ↔ mark = character ∧ mark ∈ rawBreaks := by
    rw [List.mem_singleton]
    constructor
    · rintro rfl
      exact ⟨rfl, (isBreak_iff_mem_rawBreaks large).mp ends⟩
    · exact And.left
  have large : ∀ character ∈ rawBreaks, 0x85 ≤ character.val := by
    decide
  rw [escaped]
  split
  · exact alone (by omega)
  · cases found : shortEscapes.lookup character with
    | some letter =>
        obtain ⟨before, later, table, _⟩ := List.lookup_eq_some_iff.mp found
        have listed : (character, letter) ∈ shortEscapes := by
          rw [table]
          simp
        have all : ∀ escape ∈ shortEscapes, escape.1.val < 0x85 ∧
            ∀ other ∈ [backslash, escape.2], Lines.isBreak other = false := by
          decide
        obtain ⟨small, visible⟩ := all _ listed
        refine iff_of_false (not_mem_visible ends visible) ?_
        rintro ⟨rfl, raw⟩
        exact absurd (large _ raw) (Nat.not_le.mpr small)
    | none =>
        dsimp only
        split
        · rename_i control
          have all : ∀ value : Fin 0x20, ∀ other ∈ [backslash, 0x75, 0x30, 0x30,
              hexDigit (value.val / 16), hexDigit (value.val % 16)],
                Lines.isBreak other = false := by
            decide
          have visible := all ⟨character.val, control⟩
          refine iff_of_false (not_mem_visible ends visible) ?_
          rintro ⟨rfl, raw⟩
          have here := large _ raw
          omega
        · exact alone (by omega)

private theorem mem_quoted {mark : CodePoint} (ends : Lines.isBreak mark)
    (text : Str) :
    mark ∈ quoted text ↔ mark ∈ rawBreaks ∧ mark ∈ text := by
  have notQuote : mark ∉ [doubleQuote] :=
    not_mem_visible ends (by decide)
  rw [quoted, List.mem_cons, List.mem_append, List.mem_flatMap]
  simp only [mem_escaped ends]
  rw [List.mem_singleton] at notQuote
  simp [notQuote, and_comm]

private theorem not_mem_scalar {mark : CodePoint} (ends : Lines.isBreak mark)
    {value : Json} (scalar : value.isScalar) : mark ∉ value.text := by
  have tokens : ∀ character ∈ str "+-.0123456789INaefilnrstuy",
      Lines.isBreak character = false := by
    decide
  apply not_mem_visible ends
  intro character member
  exact tokens character
    (of_decide_eq_true (isToken_of_mem_text scalar member))

/-- A break in a text of parts is in one of the parts. -/
private def Within (mark : CodePoint) (text : Str) (parts : List Str) : Prop :=
  mark ∈ text ↔ mark ∈ rawBreaks ∧ ∃ part ∈ parts, mark ∈ part

private theorem Within.none {mark : CodePoint} {text : Str}
    (outside : mark ∉ text) : Within mark text [] :=
  iff_of_false outside (by simp)

private theorem Within.visible {mark character : CodePoint}
    (ends : Lines.isBreak mark) (visible : Lines.isBreak character = false)
    {text : Str} {parts : List Str} (within : Within mark text parts) :
    Within mark (character :: text) parts := by
  have other : mark ≠ character := by
    rintro rfl
    rw [visible] at ends
    cases ends
  rw [Within, List.mem_cons, or_iff_right other]
  exact within

private theorem Within.append {mark : CodePoint} {first second : Str}
    {firstParts secondParts : List Str}
    (within : Within mark first firstParts)
    (others : Within mark second secondParts) :
    Within mark (first ++ second) (firstParts ++ secondParts) := by
  have here : mark ∈ first ↔ mark ∈ rawBreaks ∧
      ∃ part ∈ firstParts, mark ∈ part := within
  have there : mark ∈ second ↔ mark ∈ rawBreaks ∧
      ∃ part ∈ secondParts, mark ∈ part := others
  rw [Within, List.mem_append, here, there, ← and_or_left]
  simp only [List.mem_append, or_and_right, exists_or]

private theorem within_quoted {mark : CodePoint} (ends : Lines.isBreak mark)
    (text : Str) : Within mark (quoted text) [text] := by
  rw [Within, mem_quoted ends]
  simp

mutual

private theorem within_text {mark : CodePoint} (ends : Lines.isBreak mark) :
    (value : Json) → Within mark value.text value.strings
  | .null => .none (not_mem_scalar ends rfl)
  | .bool _ => .none (not_mem_scalar ends rfl)
  | .int _ => .none (not_mem_scalar ends rfl)
  | .float _ => .none (not_mem_scalar ends rfl)
  | .string value => within_quoted ends value
  | .array [] => .none (not_mem_visible ends (by decide))
  | .array (item :: items) => by
      rw [text, itemsText, strings, itemsStrings]
      exact .visible ends (by decide)
        (.append (within_text ends item) (within_moreItems ends items))
  | .object [] => .none (not_mem_visible ends (by decide))
  | .object ((key, value) :: fields) => by
      rw [text, fieldsText, strings, fieldsStrings]
      exact .visible ends (by decide) (.append (within_quoted ends key)
        (.visible ends (by decide) (.append (within_text ends value)
          (within_moreFields ends fields))))

private theorem within_moreItems {mark : CodePoint}
    (ends : Lines.isBreak mark) : (items : List Json) →
    Within mark (moreItems items) (itemsStrings items)
  | [] => .none (not_mem_visible ends (by decide))
  | item :: items => by
      rw [moreItems, itemsStrings]
      exact .visible ends (by decide)
        (.append (within_text ends item) (within_moreItems ends items))

private theorem within_moreFields {mark : CodePoint}
    (ends : Lines.isBreak mark) : (fields : Fields) →
    Within mark (moreFields fields) (fieldsStrings fields)
  | [] => .none (not_mem_visible ends (by decide))
  | (key, value) :: fields => by
      rw [moreFields, fieldsStrings]
      exact .visible ends (by decide) (.append (within_quoted ends key)
        (.visible ends (by decide) (.append (within_text ends value)
          (within_moreFields ends fields))))

end

/-- The text of a value is on one line exactly if no string is broken. -/
theorem unbroken_iff (value : Json) :
    value.Unbroken ↔
      ∀ character ∈ value.text, Lines.isBreak character = false := by
  constructor
  · intro unbroken character member
    rw [Bool.eq_false_iff]
    intro ends
    obtain ⟨raw, part, listed, inside⟩ := (within_text ends value).mp member
    exact unbroken part listed character inside raw
  · intro visible part listed character inside raw
    have all : ∀ character ∈ rawBreaks, Lines.isBreak character := by
      decide
    have ends := all character raw
    have member := (within_text ends value).mpr ⟨raw, part, listed, inside⟩
    rw [visible character member] at ends
    cases ends

variable (float : Str → FloatLiteral)

/-- An object whose text is broken begins with a line that is not read. -/
theorem loads_of_broken {fields : Fields}
    (readable : Readable float (.object fields))
    (broken : ¬ (Json.object fields).Unbroken) :
    ∃ line mark rest, (Json.object fields).text = line ++ mark :: rest ∧
      Lines.isBreak mark ∧ mark ∈ rawBreaks ∧
      (∀ character ∈ line, Lines.isBreak character = false) ∧
      Lines.isBlank line = false ∧ loads float line = none := by
  have inside : ∀ character ∈ (Json.object fields).text.takeWhile
      (!Lines.isBreak ·), Lines.isBreak character = false := by
    intro character member
    have kept := List.all_eq_true.mp List.all_takeWhile character member
    rwa [Bool.not_eq_true'] at kept
  have whole := List.takeWhile_append_dropWhile
    (p := (!Lines.isBreak ·)) (l := (Json.object fields).text)
  cases remains : (Json.object fields).text.dropWhile (!Lines.isBreak ·) with
  | nil =>
      rw [remains, List.append_nil] at whole
      rw [whole] at inside
      exact absurd ((unbroken_iff _).mpr inside) broken
  | cons mark rest =>
      have ends : Lines.isBreak mark := by
        have first := List.head?_dropWhile_not (!Lines.isBreak ·)
          (Json.object fields).text
        rw [remains] at first
        simpa using first
      rw [remains] at whole
      have member : mark ∈ (Json.object fields).text := by
        rw [← whole]
        simp
      have raw := ((within_text ends _).mp member).1
      have begins : (Json.object fields).text.takeWhile (!Lines.isBreak ·) =
          0x7b :: (fieldsText fields).takeWhile (!Lines.isBreak ·) := rfl
      refine ⟨_, mark, rest, whole.symm, ends, raw, inside, ?_, ?_⟩
      · rw [begins]
        rfl
      · rw [begins] at whole ⊢
        apply Spelling.raw.loads_of_cut float readable _ (List.cons_ne_nil mark rest)
        rw [Spelling.raw_text]
        exact whole.symm

end PpcLab.Json
