import PpcLab.Interpreter.TraceText
import PpcLab.Triage.TraceEvents

/-!
# Trace lines read back

The words and the disassembly of a printed line are read back whatever follows
them.  A symbol is read back if it is a text without closing brackets and line
ends that neither begins nor ends with white space, and only then.
-/

namespace PpcLab.Triage

open BuiltinInterpreter Text

theorem str_append (first second : String) :
    str (first ++ second) = str first ++ str second := by
  rw [str_eq, str_eq, str_eq, String.toList_append, List.map_append]

private theorem digits_hex32 {value : Nat} (small : value < 2 ^ 32) :
    ∃ digits, str (hex32 value) = 0x30 :: 0x78 :: digits ∧
      digits.length = 8 ∧ digits.all isHexDigit ∧
      (str (hex32 value)).map lower = str (hex32 value) := by
  have one (digit : Nat) (bound : digit < 16) :
      isHexDigit (codePoint (Nat.digitChar digit)) = true ∧
        lower (codePoint (Nat.digitChar digit)) =
          codePoint (Nat.digitChar digit) := by
    have all : ∀ value : Fin 16,
        isHexDigit (codePoint (Nat.digitChar value.val)) = true ∧
          lower (codePoint (Nat.digitChar value.val)) =
            codePoint (Nat.digitChar value.val) := by
      decide
    exact all ⟨digit, bound⟩
  have length : (Nat.toDigits 16 value).length ≤ 8 :=
    (Nat.length_toDigits_le_iff (by omega) (by omega)).mpr small
  have each (number : Nat) : ∀ character ∈ Nat.toDigits 16 number,
      isHexDigit (codePoint character) = true ∧
        lower (codePoint character) = codePoint character := by
    induction number using Nat.strongRecOn with
    | ind number induction =>
        rw [Nat.toDigits_eq_if (by omega)]
        intro character member
        split at member
        · rename_i small
          rw [List.mem_singleton.mp member]
          exact one number small
        · rcases List.mem_append.mp member with before | last
          · exact induction _ (Nat.div_lt_self (by omega) (by omega))
              character before
          · rw [List.mem_singleton.mp last]
            exact one _ (Nat.mod_lt _ (by omega))
  have letters : ∀ character ∈
      List.replicate (8 - (Nat.toDigits 16 value).length) '0' ++
        Nat.toDigits 16 value,
      isHexDigit (codePoint character) = true ∧
        lower (codePoint character) = codePoint character := by
    intro character member
    rcases List.mem_append.mp member with zeros | digits
    · rw [List.eq_of_mem_replicate zeros]
      exact one 0 (by omega)
    · exact each value character digits
  have text : str (hex32 value) = 0x30 :: 0x78 ::
      (List.replicate (8 - (Nat.toDigits 16 value).length) '0' ++
        Nat.toDigits 16 value).map codePoint := by
    rw [str_eq, hex32, String.toList_ofList]
    rfl
  refine ⟨_, text, ?_, ?_, ?_⟩
  · rw [List.length_map, List.length_append, List.length_replicate]
    omega
  · rw [List.all_map, List.all_eq_true]
    intro character member
    exact (letters character member).1
  · have start : lower 0x30 = 0x30 ∧ lower 0x78 = 0x78 := by
      decide
    rw [text, List.map_cons, List.map_cons, start.1, start.2, List.map_map]
    refine congrArg _ (congrArg _ (List.map_congr_left ?_))
    intro character member
    exact (letters character member).2

private theorem readWord_hex32 {value : Nat} (small : value < 2 ^ 32)
    (rest : Str) :
    readWord (str (hex32 value) ++ rest) = some (str (hex32 value), rest) := by
  obtain ⟨digits, text, length, hex, _⟩ := digits_hex32 small
  have inWord : (digits ++ rest).take 8 = digits := by
    rw [← length, List.take_left]
  have behind : (digits ++ rest).drop 8 = rest := by
    rw [← length, List.drop_left]
  rw [readWord, text]
  simp only [List.cons_append, List.drop_succ_cons, List.drop_zero,
    List.take_succ_cons, List.take_zero]
  rw [inWord, behind, if_pos ⟨trivial, length, hex⟩]

private theorem readBlanks_two {first : CodePoint} {rest : Str}
    (visible : Lines.isWhite first = false) :
    readBlanks (str "  " ++ first :: rest) = some (first :: rest) := by
  have blanks : str "  " = [0x20, 0x20] := by
    decide
  have white : Lines.isWhite 0x20 = true := by
    decide
  rw [blanks, List.cons_append, List.cons_append, List.nil_append, readBlanks,
    if_pos white, Lines.stripLeft, List.dropWhile_cons_of_pos white,
    ← Lines.stripLeft, Lines.stripLeft_cons rest visible]

/-- The words of a line are found whatever follows them. -/
private theorem matchHead_line (pc insn : Word) {first : CodePoint}
    {rest : Str} (visible : Lines.isWhite first = false) :
    matchHead (str (hex32 pc.toNat) ++ (str "  " ++ (str (hex32 insn.toNat) ++
      (str "  " ++ first :: rest)))) =
      some (str (hex32 pc.toNat), str (hex32 insn.toNat), first :: rest) := by
  obtain ⟨digits, text, _⟩ := digits_hex32 insn.isLt
  have zeroVisible : Lines.isWhite 0x30 = false := by
    decide
  have blanks : str "  " = [0x20, 0x20] := by
    decide
  have between : readBlanks (str "  " ++ (str (hex32 insn.toNat) ++
      (str "  " ++ first :: rest))) =
        some (str (hex32 insn.toNat) ++ (str "  " ++ first :: rest)) := by
    rw [text, List.cons_append]
    exact readBlanks_two zeroVisible
  rw [matchHead, readWord_hex32 pc.isLt, Option.bind_eq_bind,
    Option.bind_some]
  dsimp only
  rw [between, Option.bind_eq_bind, Option.bind_some,
    readWord_hex32 insn.isLt, Option.bind_some]
  have further := @readBlanks_two first rest visible
  rw [blanks] at further ⊢
  dsimp only [List.cons_append, List.nil_append] at further ⊢
  rw [further]
  rfl

/-- What is needed of the text of an instruction. -/
private structure Solid (text : Str) : Prop where
  first : ∃ head tail, text = head :: tail ∧ Lines.isWhite head = false
  last : ∃ last, text.getLast? = some last ∧ Lines.isWhite last = false
  inside : ∀ character ∈ text, character.val < 0x80 ∧ character ≠ 0x5b ∧
    character ≠ 0x5d ∧ Lines.isBreak character = false

private theorem solid_disassemble (pc insn : Word) :
    Solid (str (disassemble pc insn)) := by
  obtain ⟨tidy, first, begins, firstVisible⟩ := disassemble_tidy pc insn
  obtain ⟨last, ends, lastVisible⟩ := tidy.last
  have range {character : Char} (member : character ∈
      (disassemble pc insn).toList) :
      (0x20 ≤ character.toNat ∧ character.toNat < 0x7f) ∧
        character ≠ '[' ∧ character ≠ ']' := by
    simpa only [isLineCharacter, Bool.and_eq_true, decide_eq_true_eq] using
      tidy.inline character member
  have different {character other : Char} (differ : character ≠ other) :
      (codePoint character).val ≠ other.toNat := by
    intro same
    exact differ (Char.ext (UInt32.toNat_inj.mp same))
  have visible {character : Char} (member : character ∈
      (disassemble pc insn).toList) (notBlank : character ≠ ' ') :
      Lines.isWhite (codePoint character) = false := by
    obtain ⟨⟨low, high⟩, _⟩ := range member
    have notSpace : (codePoint character).val ≠ 0x20 := different notBlank
    have atLeast : 0x20 ≤ (codePoint character).val := low
    exact Lines.isWhite_of_visible (by omega) high
  have text : str (disassemble pc insn) =
      (disassemble pc insn).toList.map codePoint := str_eq _
  obtain ⟨tail, whole⟩ := List.head?_eq_some_iff.mp begins
  refine ⟨⟨codePoint first, tail.map codePoint, ?_, ?_⟩,
    ⟨codePoint last, ?_, ?_⟩, ?_⟩
  · rw [text, whole, List.map_cons]
  · exact visible (whole ▸ List.mem_cons_self) firstVisible
  · rw [text, List.getLast?_map, ends]
    rfl
  · exact visible (List.mem_of_getLast? ends) lastVisible
  · intro other member
    rw [text] at member
    obtain ⟨character, held, rfl⟩ := List.mem_map.mp member
    obtain ⟨⟨low, high⟩, notOpen, notClose⟩ := range held
    refine ⟨?_, ?_, ?_, ?_⟩
    · have below : (codePoint character).val < 0x7f := high
      omega
    · intro same
      exact different notOpen (congrArg Fin.val same)
    · intro same
      exact different notClose (congrArg Fin.val same)
    · exact Lines.isBreak_of_printable low high

private theorem readSymbol_cons (opening : CodePoint) (text : Str) :
    readSymbol (opening :: text) =
      if opening = 0x5b ∧ text.getLast? = some 0x5d ∧ text.dropLast ≠ [] ∧
          0x5d ∉ text.dropLast then
        some text.dropLast
      else none :=
  rfl

private theorem matchTail_cons (character : CodePoint) (text : Str) :
    matchTail (character :: text) =
      match readSymbol (Lines.stripLeft (character :: text)) with
      | some symbol => some ([], symbol)
      | none => (matchTail text).map fun found =>
          (character :: found.1, found.2) := by
  rfl

private theorem readSymbol_of_solid {text : Str} (rest : Str)
    (last : ∃ last, text.getLast? = some last ∧ Lines.isWhite last = false)
    (closed : ∀ character ∈ text, character ≠ 0x5b) :
    readSymbol (Lines.stripLeft (text ++ rest)) = none := by
  induction text with
  | nil =>
      obtain ⟨_, nothing, _⟩ := last
      cases nothing
  | cons character text induction =>
      cases white : Lines.isWhite character with
      | false =>
          rw [List.cons_append, Lines.stripLeft_cons _ white, readSymbol_cons,
            if_neg]
          intro opens
          exact closed character List.mem_cons_self opens.1
      | true =>
          have further : ∃ last, text.getLast? = some last ∧
              Lines.isWhite last = false := by
            obtain ⟨last, ends, visible⟩ := last
            cases text with
            | nil =>
                rw [List.getLast?_singleton] at ends
                cases ends
                rw [white] at visible
                cases visible
            | cons next text =>
                rw [List.getLast?_cons_cons] at ends
                exact ⟨last, ends, visible⟩
          rw [List.cons_append, Lines.stripLeft,
            List.dropWhile_cons_of_pos white]
          exact induction further fun other member =>
            closed other (List.mem_cons_of_mem _ member)

/-- The symbol is looked for behind the disassembly. -/
private theorem matchTail_of_solid {text : Str} (rest : Str)
    (last : ∃ last, text.getLast? = some last ∧ Lines.isWhite last = false)
    (closed : ∀ character ∈ text, character ≠ 0x5b) :
    matchTail (text ++ rest) = (matchTail rest).map fun found =>
      (text ++ found.1, found.2) := by
  induction text with
  | nil =>
      obtain ⟨_, nothing, _⟩ := last
      cases nothing
  | cons character text induction =>
      have here := readSymbol_of_solid rest last closed
      rw [List.cons_append] at here ⊢
      rw [matchTail_cons, here]
      dsimp only
      by_cases single : text = []
      · subst single
        rfl
      · have further : ∃ last, text.getLast? = some last ∧
            Lines.isWhite last = false := by
          obtain ⟨next, others, rfl⟩ := List.exists_cons_of_ne_nil single
          rw [List.getLast?_cons_cons] at last
          exact last
        rw [induction further fun other member =>
          closed other (List.mem_cons_of_mem _ member), Option.map_map]
        rfl

private theorem matchTail_symbol {symbol : Str} (some : symbol ≠ [])
    (closed : 0x5d ∉ symbol) :
    matchTail (str "  [" ++ (symbol ++ [0x5d])) = .some ([], symbol) := by
  have opening : str "  [" = [0x20, 0x20, 0x5b] := by
    decide
  have white : Lines.isWhite 0x20 = true := by
    decide
  have visible : Lines.isWhite 0x5b = false := by
    decide
  have start : Lines.stripLeft (str "  [" ++ (symbol ++ [0x5d])) =
      0x5b :: (symbol ++ [0x5d]) := by
    rw [opening, List.cons_append, List.cons_append, List.cons_append,
      List.nil_append, Lines.stripLeft, List.dropWhile_cons_of_pos white,
      List.dropWhile_cons_of_pos white, ← Lines.stripLeft,
      Lines.stripLeft_cons _ visible]
  have found : readSymbol (0x5b :: (symbol ++ [0x5d])) = .some symbol := by
    rw [readSymbol_cons, List.dropLast_concat, List.getLast?_concat,
      if_pos ⟨rfl, rfl, some, closed⟩]
  rw [opening] at start ⊢
  rw [List.cons_append] at start ⊢
  rw [matchTail_cons, start, found]

/-- A symbol that was found has no closing bracket. -/
private theorem closed_of_matchTail {text disassembly symbol : Str}
    (found : matchTail text = some (disassembly, symbol)) :
    0x5d ∉ symbol ∧ ∀ character ∈ symbol, character ∈ text := by
  induction text generalizing disassembly with
  | nil => cases found
  | cons character text induction =>
      rw [matchTail_cons] at found
      split at found
      · rename_i name read
        cases found
        generalize shape : Lines.stripLeft (character :: text) = stripped at read
        cases stripped with
        | nil => cases read
        | cons opening rest =>
            rw [readSymbol_cons] at read
            split at read
            · rename_i holds
              cases read
              refine ⟨holds.2.2.2, ?_⟩
              intro other member
              have inStripped : other ∈ Lines.stripLeft (character :: text) := by
                rw [shape]
                exact List.mem_cons_of_mem _
                  ((List.dropLast_sublist rest).subset member)
              exact (List.dropWhile_suffix Lines.isWhite).subset inStripped
            · cases read
      · obtain ⟨⟨before, name⟩, later, same⟩ := Option.map_eq_some_iff.mp found
        cases same
        obtain ⟨closed, inText⟩ := induction later
        exact ⟨closed, fun other member =>
          List.mem_cons_of_mem _ (inText other member)⟩

/-- What is read as a symbol can be read as one. -/
private theorem closed_of_readRest (rest : Str) :
    Lines.strip (readRest rest).2 = (readRest rest).2 ∧
      0x5d ∉ (readRest rest).2 ∧
      ∀ character ∈ (readRest rest).2, character ∈ rest := by
  unfold readRest
  dsimp only
  split
  · rename_i disassembly symbol found
    obtain ⟨closed, inRest⟩ := closed_of_matchTail found
    refine ⟨Lines.strip_strip symbol, ?_, ?_⟩
    · intro member
      exact closed (Lines.mem_of_mem_strip member)
    · intro character member
      exact Lines.mem_of_mem_strip
        (inRest character (Lines.mem_of_mem_strip member))
  · exact ⟨rfl, nofun, nofun⟩

/-- The words and the disassembly of a line. -/
private def wordsText (event : Word × Word) : String :=
  hex32 event.1.toNat ++ "  " ++ hex32 event.2.toNat ++ "  " ++
    disassemble event.1 event.2

private def symbolText (symbol : Str) : Str :=
  if symbol = [] then [] else str "  [" ++ (symbol ++ [0x5d])

private def lineText (event : Word × Word) (symbol : Str) : Str :=
  str (wordsText event) ++ symbolText symbol

private theorem str_wordsText (event : Word × Word) :
    str (wordsText event) = str (hex32 event.1.toNat) ++ (str "  " ++
      (str (hex32 event.2.toNat) ++ (str "  " ++
        str (disassemble event.1 event.2)))) := by
  rw [wordsText, str_append, str_append, str_append, str_append]
  simp only [List.append_assoc]

private theorem mem_wordsText (event : Word × Word) {character : CodePoint}
    (member : character ∈ str (disassemble event.1 event.2)) :
    character ∈ str (wordsText event) := by
  rw [str_wordsText]
  refine List.mem_append_right _ (List.mem_append_right _ ?_)
  exact List.mem_append_right _ (List.mem_append_right _ member)

private theorem inside_wordsText (event : Word × Word) :
    ∀ character ∈ str (wordsText event), character.val < 0x80 ∧
      Lines.isBreak character = false := by
  have blanks : Inline "  " := List.all_eq_true.mp (by decide)
  have inline : Inline (wordsText event) :=
    inline_append (inline_append (inline_append (inline_append
      (hex32_tidy _).inline blanks) (hex32_tidy _).inline) blanks)
      (disassemble_tidy event.1 event.2).1.inline
  intro other member
  rw [str_eq] at member
  obtain ⟨character, held, rfl⟩ := List.mem_map.mp member
  obtain ⟨⟨low, high⟩, _⟩ : (0x20 ≤ character.toNat ∧ character.toNat < 0x7f) ∧
      character ≠ '[' ∧ character ≠ ']' := by
    simpa only [isLineCharacter, Bool.and_eq_true, decide_eq_true_eq] using
      inline character held
  have below : (codePoint character).val < 0x7f := high
  exact ⟨by omega, Lines.isBreak_of_printable low high⟩

/-- The words are found and the rest is taken apart. -/
private theorem traceEvent_line (event : Word × Word) (more : Str) :
    traceEvent (str (wordsText event) ++ more) =
      some ⟨str (hex32 event.1.toNat), str (hex32 event.2.toNat),
        (readRest (str (disassemble event.1 event.2) ++ more)).1,
        (readRest (str (disassemble event.1 event.2) ++ more)).2⟩ := by
  obtain ⟨head, tail, text, visible⟩ :=
    (solid_disassemble event.1 event.2).first
  obtain ⟨_, _, _, _, lowerPc⟩ := digits_hex32 event.1.isLt
  obtain ⟨_, _, _, _, lowerInsn⟩ := digits_hex32 event.2.isLt
  rw [traceEvent, str_wordsText, text]
  simp only [List.append_assoc, List.cons_append]
  rw [matchHead_line event.1 event.2 visible, Option.map_some]
  dsimp only
  rw [lowerPc, lowerInsn]

private theorem readRest_line (event : Word × Word) {symbol : Str}
    (stripped : Lines.strip symbol = symbol) (closed : 0x5d ∉ symbol) :
    readRest (str (disassemble event.1 event.2) ++ symbolText symbol) =
      (str (disassemble event.1 event.2), symbol) := by
  obtain ⟨⟨head, tail, text, visible⟩, ⟨last, ends, lastVisible⟩, inside⟩ :=
    solid_disassemble event.1 event.2
  have begins : (str (disassemble event.1 event.2)).head? = some head := by
    rw [text]
    rfl
  have noBracket : ∀ character ∈ str (disassemble event.1 event.2),
      character ≠ 0x5b :=
    fun character member => (inside character member).2.1
  have alone := Lines.strip_of_visible begins ends visible lastVisible
  unfold readRest
  dsimp only
  by_cases none : symbol = []
  · subst none
    rw [symbolText, if_pos rfl, List.append_nil, alone]
    have nothing := matchTail_of_solid [] ⟨last, ends, lastVisible⟩ noBracket
    rw [List.append_nil] at nothing
    rw [nothing]
    rfl
  · have whole : (str (disassemble event.1 event.2) ++
        symbolText symbol).getLast? = some 0x5d := by
      rw [symbolText, if_neg none, ← List.append_assoc, ← List.append_assoc,
        List.getLast?_concat]
    have starts : (str (disassemble event.1 event.2) ++
        symbolText symbol).head? = some head := by
      rw [List.head?_append, begins]
      rfl
    have closing : Lines.isWhite 0x5d = false := by
      decide
    rw [Lines.strip_of_visible starts whole visible closing,
      matchTail_of_solid _ ⟨last, ends, lastVisible⟩ noBracket, symbolText,
      if_neg none, matchTail_symbol none closed, Option.map_some]
    dsimp only
    rw [List.append_nil, alone, stripped]

private theorem bytesOf_append (first second : String) :
    bytesOf (first ++ second) = bytesOf first ++ bytesOf second := by
  rw [bytesOf, bytesOf, bytesOf, String.toList_append, List.map_append]

private theorem bytesOf_eq (text : String) :
    bytesOf text = (str text).map fun character =>
      BitVec.ofNat 8 character.val := by
  rw [bytesOf, str_eq, List.map_map]
  rfl

private theorem printed_eq (config : ExecutionConfig) (event : Word × Word) :
    printed config event = bytesOf (wordsText event) ++
      ((if symbolBytes config event = [] then [] else
        bytesOf "  [" ++ (symbolBytes config event ++ [0x5d])) ++ [0x0a]) := by
  have empty : symbolBytes config event = [] ↔
      (symbolize event.1 config.traceSymbols).isEmpty = true := by
    rw [symbolBytes, bytesOf, List.map_eq_nil_iff, String.toList_eq_nil_iff,
      String.isEmpty_iff]
  have closing : bytesOf "]" = [0x5d] := by
    decide
  rw [printed, traceLine, ← List.append_assoc]
  refine congrArg (· ++ [0x0a]) ?_
  rw [bytesOf_append]
  refine congrArg₂ (· ++ ·) rfl ?_
  by_cases none : (symbolize event.1 config.traceSymbols).isEmpty = true
  · rw [if_pos none, if_pos (empty.mpr none)]
    rfl
  · rw [if_neg none, if_neg (mt empty.mp none), bytesOf_append,
      bytesOf_append, closing, List.append_assoc]
    rfl

private theorem ascii_opening :
    ∀ character ∈ str "  [", character.val < 0x80 := by
  decide

/-- A text that was encoded as a line and more begins with the line. -/
private theorem lineText_of_utf8 (config : ExecutionConfig)
    (event : Word × Word) {text : Str} {rest : List Byte}
    (encoded : utf8 text = some (printed config event ++ rest)) :
    ∃ symbol more, text = lineText event symbol ++ 0x0a :: more ∧
      utf8 symbol = some (symbolBytes config event) ∧
      utf8 more = some rest := by
  rw [printed_eq, bytesOf_eq, List.append_assoc, List.append_assoc,
    List.singleton_append] at encoded
  obtain ⟨behind, begins, inBehind⟩ := utf8_start
    (fun character member => (inside_wordsText event character member).1)
    encoded
  have feed : CodePoint.ofNat (0x0a : Byte).toNat = 0x0a := by
    decide
  have bracket : CodePoint.ofNat (0x5d : Byte).toNat = 0x5d := by
    decide
  by_cases none : symbolBytes config event = []
  · rw [if_pos none, List.nil_append] at inBehind
    obtain ⟨first, more, rfl, inFirst, inMore⟩ :=
      @utf8_split behind [] _ _ (by decide) inBehind
    have nothing : first = [] := utf8_injective inFirst rfl
    subst nothing
    refine ⟨[], more, ?_, by rw [none]; rfl, inMore⟩
    rw [begins, lineText, symbolText, if_pos rfl, feed, List.append_nil]
    rfl
  · rw [if_neg none, bytesOf_eq, List.append_assoc, List.append_assoc,
      List.singleton_append] at inBehind
    obtain ⟨named, rfl, inNamed⟩ := utf8_start ascii_opening inBehind
    obtain ⟨symbol, closed, rfl, inSymbol, inClosed⟩ :=
      utf8_split (by decide) inNamed
    obtain ⟨first, more, rfl, inFirst, inMore⟩ :=
      @utf8_split closed [] _ _ (by decide) inClosed
    have nothing : first = [] := utf8_injective inFirst rfl
    subst nothing
    refine ⟨symbol, more, ?_, inSymbol, inMore⟩
    have some : symbol ≠ [] := by
      rintro rfl
      exact none (Option.some.inj inSymbol).symm
    rw [begins, lineText, symbolText, if_neg some, feed, bracket]
    simp only [List.append_assoc, List.cons_append, List.nil_append]

private theorem utf8_lineText (config : ExecutionConfig) (event : Word × Word)
    {symbol more : Str} {rest : List Byte}
    (inSymbol : utf8 symbol = some (symbolBytes config event))
    (inMore : utf8 more = some rest) :
    utf8 (lineText event symbol ++ 0x0a :: more) =
      some (printed config event ++ rest) := by
  have words : utf8 (str (wordsText event)) = some (bytesOf (wordsText event)) := by
    rw [bytesOf_eq]
    exact utf8_of_ascii fun character member =>
      (inside_wordsText event character member).1
  have feed : utf8 [0x0a] = some [0x0a] := by
    decide
  have bracket : utf8 [0x5d] = some [0x5d] := by
    decide
  have opening : utf8 (str "  [") = some (bytesOf "  [") := by
    rw [bytesOf_eq]
    exact utf8_of_ascii ascii_opening
  have named : utf8 (symbolText symbol) = some
      (if symbolBytes config event = [] then [] else
        bytesOf "  [" ++ (symbolBytes config event ++ [0x5d])) := by
    rw [symbolText]
    by_cases none : symbol = []
    · subst none
      rw [if_pos rfl, if_pos (Option.some.inj inSymbol).symm]
      rfl
    · have some : symbolBytes config event ≠ [] := by
        intro nothing
        rw [nothing] at inSymbol
        exact none (utf8_injective inSymbol rfl)
      rw [if_neg none, if_neg some]
      exact utf8_append opening (utf8_append inSymbol bracket)
  rw [printed_eq, lineText, List.append_assoc, List.append_assoc,
    List.append_assoc]
  exact utf8_append words (utf8_append named (utf8_append feed inMore))

/-- A symbol that is read back. -/
def Survives (bytes : List Byte) : Prop :=
  ∃ symbol, utf8 symbol = some bytes ∧ Lines.strip symbol = symbol ∧
    ∀ character ∈ symbol,
      character ≠ 0x5d ∧ Lines.isBreak character = false

/-- The captured trace has one event for every printed line, and it says what
the line says. -/
def ReadBack (read : Str → Option TraceEvent) (config : ExecutionConfig)
    (events : List (Word × Word)) : Prop :=
  ∃ trace, captured read (events.flatMap (printed config)) = some trace ∧
    List.Forall₂ (Tells config) events trace.events ∧ trace.unparsed = []

private theorem readBack_of_survives (config : ExecutionConfig)
    (events : List (Word × Word))
    (survive : ∀ event ∈ events, Survives (symbolBytes config event)) :
    ∃ text, utf8 text = some (events.flatMap (printed config)) ∧
      List.Forall₂ (Tells config) events
        ((Lines.splitLines text).filterMap traceEvent) ∧
      ∀ line ∈ Lines.splitLines text, (traceEvent line).isSome := by
  induction events with
  | nil => exact ⟨[], rfl, .nil, nofun⟩
  | cons event events induction =>
      obtain ⟨more, inMore, tell, parsed⟩ := induction fun other member =>
        survive other (List.mem_cons_of_mem _ member)
      obtain ⟨symbol, inSymbol, stripped, plain⟩ :=
        survive event List.mem_cons_self
      have closed : 0x5d ∉ symbol := fun member => (plain _ member).1 rfl
      have inside : ∀ character ∈ lineText event symbol,
          Lines.isBreak character = false := by
        intro character member
        rw [lineText, List.mem_append] at member
        rcases member with words | named
        · exact (inside_wordsText event character words).2
        · rw [symbolText] at named
          split at named
          · cases named
          · rw [List.mem_append, List.mem_append] at named
            rcases named with opening | symbols | last
            · have all : ∀ character ∈ str "  [",
                  Lines.isBreak character = false := by
                decide
              exact all character opening
            · exact (plain character symbols).2
            · rw [List.mem_singleton.mp last]
              decide
      have lines : Lines.splitLines (lineText event symbol ++ 0x0a :: more) =
          lineText event symbol :: Lines.splitLines more :=
        Lines.splitLines_append inside
      have parsedLine : traceEvent (lineText event symbol) =
          some ⟨str (hex32 event.1.toNat), str (hex32 event.2.toNat),
            str (disassemble event.1 event.2), symbol⟩ := by
        rw [lineText, traceEvent_line, readRest_line event stripped closed]
      refine ⟨lineText event symbol ++ 0x0a :: more,
        utf8_lineText config event inSymbol inMore, ?_, ?_⟩
      · rw [lines, List.filterMap_cons_some parsedLine]
        exact .cons ⟨rfl, rfl, rfl, inSymbol⟩ tell
      · rw [lines]
        intro line member
        rcases List.mem_cons.mp member with same | later
        · rw [same, parsedLine]
          rfl
        · exact parsed line later

/-- A line has an event at its beginning, whatever its symbol is. -/
private theorem begins_with_event (event : Word × Word) (symbol more : Str) :
    ∃ line lines, Lines.splitLines (lineText event symbol ++ 0x0a :: more) =
        line :: lines ++ Lines.splitLines more ∧
      ∃ rest, line = str (wordsText event) ++ rest := by
  obtain ⟨head, tail, begins, _⟩ := (solid_disassemble event.1 event.2).first
  have nonempty : str (wordsText event) ≠ [] := by
    rw [str_wordsText, begins]
    simp
  obtain ⟨rest, lines, whole⟩ := Lines.splitLines_begins nonempty
    (fun character member => (inside_wordsText event character member).2)
    (symbolText symbol ++ [0x0a])
  refine ⟨str (wordsText event) ++ rest, lines, ?_, rest, rfl⟩
  rw [(Lines.splitLines_append_lineFeed _ more).1, lineText, List.append_assoc,
    whole]

private theorem survives_of_readBack (config : ExecutionConfig)
    (events : List (Word × Word)) {text : Str}
    (encoded : utf8 text = some (events.flatMap (printed config))) :
    events.length ≤ ((Lines.splitLines text).filterMap traceEvent).length ∧
      (List.Forall₂ (Tells config) events
          ((Lines.splitLines text).filterMap traceEvent) →
        ∀ event ∈ events, Survives (symbolBytes config event)) := by
  induction events generalizing text with
  | nil => exact ⟨Nat.zero_le _, fun _ => nofun⟩
  | cons event events induction =>
      rw [List.flatMap_cons] at encoded
      obtain ⟨symbol, more, begins, inSymbol, inMore⟩ :=
        lineText_of_utf8 config event encoded
      rw [begins]
      obtain ⟨atLeast, further⟩ := induction inMore
      obtain ⟨line, lines, whole, rest, starts⟩ :=
        begins_with_event event symbol more
      have parsed := traceEvent_line event rest
      rw [← starts] at parsed
      rw [whole, List.cons_append, List.filterMap_cons_some parsed,
        List.filterMap_append]
      refine ⟨?_, ?_⟩
      · rw [List.length_cons, List.length_cons, List.length_append]
        omega
      · intro tell
        obtain ⟨here, later⟩ := List.forall₂_cons.mp tell
        have counts := later.length_eq
        rw [List.length_append] at counts
        have alone : lines.filterMap traceEvent = [] :=
          List.eq_nil_of_length_eq_zero (by omega)
        rw [alone, List.nil_append] at later
        intro other member
        rcases List.mem_cons.mp member with rfl | inEvents
        · have same := utf8_injective inSymbol here.symbol
          obtain ⟨stripped, closed, inRest⟩ :=
            closed_of_readRest (str (disassemble other.1 other.2) ++ rest)
          dsimp only at same
          rw [← same] at stripped closed inRest
          refine ⟨symbol, inSymbol, stripped, ?_⟩
          intro character inside
          refine ⟨fun bracket => closed (bracket ▸ inside), ?_⟩
          have inLine : character ∈ line := by
            rw [starts]
            have found := inRest character inside
            rw [List.mem_append] at found
            rcases found with before | after
            · exact List.mem_append_left _ (mem_wordsText other before)
            · exact List.mem_append_right _ after
          have first : line ∈ Lines.splitLines
              (lineText other symbol ++ 0x0a :: more) := by
            rw [whole]
            exact List.mem_cons_self
          exact Lines.isBreak_of_mem_splitLines first inLine
        · exact further later other inEvents

/-- A trace is read back exactly if all of its symbols are. -/
theorem readBack_iff_survives (config : ExecutionConfig)
    (events : List (Word × Word)) :
    (ReadBack traceEvent config events ↔
      ∀ event ∈ events, Survives (symbolBytes config event)) ∧
    (ReadBack parse config events ↔
      ∀ event ∈ events, Survives (symbolBytes config event)) := by
  have same : ReadBack parse config events ↔
      ReadBack traceEvent config events := Iff.rfl
  rw [same, and_self_iff]
  constructor
  · rintro ⟨trace, read, tell, _⟩
    rw [captured, Option.map_eq_some_iff] at read
    obtain ⟨text, decoded, rfl⟩ := read
    rw [readTrace, Lines.splitLines_universalNewlines] at tell
    exact (survives_of_readBack config events
      (decodeUtf8_eq_some.mp decoded)).2 tell
  · intro survive
    obtain ⟨text, encoded, tell, parsed⟩ :=
      readBack_of_survives config events survive
    refine ⟨readTrace traceEvent (Lines.universalNewlines text), ?_, ?_, ?_⟩
    · rw [captured, decodeUtf8_eq_some.mpr encoded]
      rfl
    · rw [readTrace, Lines.splitLines_universalNewlines]
      exact tell
    · rw [readTrace, Lines.splitLines_universalNewlines]
      refine List.filter_eq_nil_iff.mpr ?_
      intro line member
      have some := parsed line member
      rw [Option.isNone_eq_false_iff.mpr some]
      exact nofun

/-- A method of a class, as the loaders name it. -/
private def methodSymbol : ImageSymbol where
  name := "-[Foo bar]"
  value := 0x1000
  size := 0
  sectionIndex := 0
  binding := 0
  type := 0
  defined := true
  imported := false

private def methodConfig : ExecutionConfig :=
  { trace := true, traceSymbols := some [methodSymbol] }

theorem method_name_not_read_back :
    captured traceEvent ([(0x1000, 0x4e800020)].flatMap (printed methodConfig)) =
      some ⟨[⟨str "0x00001000", str "0x4e800020", str "blr  [-[Foo bar]]", []⟩],
        []⟩ ∧
    ¬ReadBack traceEvent methodConfig [(0x1000, 0x4e800020)] := by
  have read : captured traceEvent
      ([(0x1000, 0x4e800020)].flatMap (printed methodConfig)) =
        some ⟨[⟨str "0x00001000", str "0x4e800020",
          str "blr  [-[Foo bar]]", []⟩], []⟩ := by
    decide
  refine ⟨read, ?_⟩
  rintro ⟨trace, captures, tell, _⟩
  rw [read] at captures
  cases captures
  obtain ⟨here, _⟩ := List.forall₂_cons.mp tell
  have named := here.symbol
  revert named
  decide

end PpcLab.Triage
