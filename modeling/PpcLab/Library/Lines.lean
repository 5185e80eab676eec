import Mathlib.Data.List.TakeWhile
import PpcLab.Library.Json

/-!
# Lines of a text

`splitlines` and `strip` of Python, with the characters that end a line and
those that are white.  A line that none of them is in is read back as it was
written.
-/

namespace PpcLab.Lines

/-- `isspace` -/
def isWhite (character : CodePoint) : Bool :=
  let value := character.val
  (0x09 ≤ value && value ≤ 0x0d) || (0x1c ≤ value && value ≤ 0x20) ||
    value == 0x85 || value == 0xa0 || value == 0x1680 ||
    (0x2000 ≤ value && value ≤ 0x200a) || value == 0x2028 ||
    value == 0x2029 || value == 0x202f || value == 0x205f || value == 0x3000

/-- What ends a line. -/
def isBreak (character : CodePoint) : Bool :=
  let value := character.val
  (0x0a ≤ value && value ≤ 0x0d) || (0x1c ≤ value && value ≤ 0x1e) ||
    value == 0x85 || value == 0x2028 || value == 0x2029

/-- A character put before the first line. -/
def onto (character : CodePoint) : List Str → List Str
  | [] => [[character]]
  | line :: lines => (character :: line) :: lines

/-- `splitlines()` -/
def splitLines : Str → List Str
  | [] => []
  | [character] => if isBreak character then [[]] else [[character]]
  | first :: second :: text =>
      if first = 0x0d ∧ second = 0x0a then [] :: splitLines text
      else if isBreak first then [] :: splitLines (second :: text)
      else onto first (splitLines (second :: text))

/-- Line feeds for the other line ends of a text file. -/
def universalNewlines : Str → Str
  | [] => []
  | [character] => [if character = 0x0d then 0x0a else character]
  | first :: second :: text =>
      if first = 0x0d ∧ second = 0x0a then 0x0a :: universalNewlines text
      else (if first = 0x0d then 0x0a else first) ::
        universalNewlines (second :: text)

def stripLeft (text : Str) : Str :=
  text.dropWhile isWhite

def stripRight (text : Str) : Str :=
  (text.reverse.dropWhile isWhite).reverse

/-- `strip()` -/
def strip (text : Str) : Str :=
  stripRight (stripLeft text)

/-- The text without the characters at its ends for which a test holds. -/
def stripBy (drops : CodePoint → Bool) (text : Str) : Str :=
  ((text.dropWhile drops).reverse.dropWhile drops).reverse

/-- `not text.strip()` -/
def isBlank (text : Str) : Bool :=
  text.all isWhite

theorem isWhite_of_visible {character : CodePoint}
    (low : 0x20 < character.val) (high : character.val < 0x7f) :
    isWhite character = false := by
  rw [Bool.eq_false_iff]
  simp only [isWhite, ne_eq, Bool.or_eq_true, Bool.and_eq_true,
    decide_eq_true_eq, beq_iff_eq]
  omega

theorem isBreak_of_printable {character : CodePoint}
    (low : 0x20 ≤ character.val) (high : character.val < 0x7f) :
    isBreak character = false := by
  rw [Bool.eq_false_iff]
  simp only [isBreak, ne_eq, Bool.or_eq_true, Bool.and_eq_true,
    decide_eq_true_eq, beq_iff_eq]
  omega

private theorem splitLines_cons {character : CodePoint} (text : Str)
    (inside : isBreak character = false) :
    splitLines (character :: text) = onto character (splitLines text) := by
  cases text with
  | nil => simp [splitLines, inside, onto]
  | cons next text =>
      have notReturn : character ≠ 0x0d := by
        rintro rfl
        revert inside
        decide
      rw [splitLines, if_neg fun both => notReturn both.1, inside]
      rfl

/-- A line ends where the first break stands. -/
theorem splitLines_append_mark {line rest : Str} {mark : CodePoint}
    (ends : isBreak mark) (single : mark ≠ 0x0d)
    (inside : ∀ character ∈ line, isBreak character = false) :
    splitLines (line ++ mark :: rest) = line :: splitLines rest := by
  induction line with
  | nil =>
      cases rest with
      | nil => rw [List.nil_append, splitLines, splitLines, if_pos ends]
      | cons next rest =>
          rw [List.nil_append, splitLines, if_neg fun both => single both.1,
            if_pos ends]
  | cons character line induction =>
      rw [List.cons_append,
        splitLines_cons _ (inside character List.mem_cons_self),
        induction fun other member =>
          inside other (List.mem_cons_of_mem _ member)]
      rfl

theorem splitLines_append {line rest : Str}
    (inside : ∀ character ∈ line, isBreak character = false) :
    splitLines (line ++ 0x0a :: rest) = line :: splitLines rest :=
  splitLines_append_mark (by decide) (by decide) inside

/-- A text without breaks is one line. -/
theorem splitLines_of_inside {line : Str} (nonempty : line ≠ [])
    (inside : ∀ character ∈ line, isBreak character = false) :
    splitLines line = [line] := by
  induction line with
  | nil => exact absurd rfl nonempty
  | cons character line induction =>
      rw [splitLines_cons _ (inside character List.mem_cons_self)]
      by_cases last : line = []
      · rw [last]
        rfl
      · rw [induction last fun other member =>
          inside other (List.mem_cons_of_mem _ member)]
        rfl

/-- No line has a break in it. -/
theorem isBreak_of_mem_splitLines {text line : Str}
    (member : line ∈ splitLines text) {character : CodePoint}
    (inside : character ∈ line) : isBreak character = false := by
  have inOnto {first : CodePoint} {lines : List Str}
      (plain : isBreak first = false)
      (others : ∀ line ∈ lines, ∀ character ∈ line, isBreak character = false) :
      ∀ line ∈ onto first lines, ∀ character ∈ line,
        isBreak character = false := by
    intro line member character inside
    cases lines with
    | nil =>
        rw [List.mem_singleton.mp member] at inside
        rw [List.mem_singleton.mp inside]
        exact plain
    | cons head lines =>
        rcases List.mem_cons.mp member with rfl | later
        · rcases List.mem_cons.mp inside with rfl | more
          · exact plain
          · exact others head List.mem_cons_self _ more
        · exact others line (List.mem_cons_of_mem _ later) _ inside
  revert line character
  induction text using splitLines.induct with
  | case1 =>
      intro line member
      cases member
  | case2 single ends =>
      intro line member character inside
      rw [splitLines, if_pos ends, List.mem_singleton] at member
      subst member
      cases inside
  | case3 single inner =>
      intro line member character inside
      rw [splitLines, if_neg inner, List.mem_singleton] at member
      rw [member, List.mem_singleton] at inside
      rw [inside]
      exact Bool.eq_false_iff.mpr inner
  | case4 first second text pair induction =>
      intro line member character inside
      rw [splitLines, if_pos pair] at member
      rcases List.mem_cons.mp member with rfl | later
      · cases inside
      · exact induction later inside
  | case5 first second text noPair ends induction =>
      intro line member character inside
      rw [splitLines, if_neg noPair, if_pos ends] at member
      rcases List.mem_cons.mp member with rfl | later
      · cases inside
      · exact induction later inside
  | case6 first second text noPair inner induction =>
      intro line member character inside
      rw [splitLines, if_neg noPair, if_neg inner] at member
      exact inOnto (Bool.eq_false_iff.mpr inner)
        (fun line member character inside => induction member inside)
        line member character inside

/-- The lines are the same with line feeds. -/
theorem splitLines_universalNewlines (text : Str) :
    splitLines (universalNewlines text) = splitLines text := by
  have feed (rest : Str) : splitLines (0x0a :: rest) = [] :: splitLines rest :=
    @splitLines_append [] rest nofun
  have broken {character : CodePoint} (ends : isBreak character)
      (rest : Str) (other : character ≠ 0x0d) :
      splitLines (character :: rest) = [] :: splitLines rest := by
    cases rest with
    | nil => rw [splitLines, splitLines, if_pos ends]
    | cons next rest =>
        rw [splitLines, if_neg fun both => other both.1, if_pos ends]
  induction text using splitLines.induct with
  | case1 => rfl
  | case2 single ends =>
      rw [universalNewlines]
      split
      · rw [feed, splitLines, splitLines, if_pos ends]
      · rfl
  | case3 single inner =>
      rw [universalNewlines, if_neg]
      rintro rfl
      exact inner (by decide)
  | case4 first second text pair induction =>
      rw [universalNewlines, if_pos pair, feed, induction, splitLines,
        if_pos pair]
  | case5 first second text noPair ends induction =>
      rw [universalNewlines, if_neg noPair, splitLines, if_neg noPair,
        if_pos ends]
      split
      · rw [feed, induction]
      · rename_i other
        rw [broken ends _ other, induction]
  | case6 first second text noPair inner induction =>
      have other : first ≠ 0x0d := by
        rintro rfl
        exact inner (by decide)
      rw [universalNewlines, if_neg noPair, if_neg other,
        splitLines_cons _ (Bool.eq_false_iff.mpr inner), induction,
        splitLines_cons _ (Bool.eq_false_iff.mpr inner)]

private theorem onto_append {character : CodePoint} {first : List Str}
    (some : first ≠ []) (second : List Str) :
    onto character (first ++ second) = onto character first ++ second := by
  cases first with
  | nil => exact absurd rfl some
  | cons line lines => rfl

/-- What is behind a line feed does not change the lines before it. -/
theorem splitLines_append_lineFeed (text rest : Str) :
    splitLines (text ++ 0x0a :: rest) =
        splitLines (text ++ [0x0a]) ++ splitLines rest ∧
      splitLines (text ++ [0x0a]) ≠ [] := by
  have feed (rest : Str) : splitLines (0x0a :: rest) = [] :: splitLines rest :=
    @splitLines_append [] rest nofun
  induction text using splitLines.induct with
  | case1 => exact ⟨feed rest, by rw [List.nil_append, feed]; exact nofun⟩
  | case2 single ends =>
      by_cases isReturn : single = 0x0d
      · subst isReturn
        constructor
        · rw [List.singleton_append, splitLines, if_pos ⟨rfl, rfl⟩,
            List.singleton_append, splitLines, if_pos ⟨rfl, rfl⟩]
          rfl
        · rw [List.singleton_append, splitLines, if_pos ⟨rfl, rfl⟩]
          exact nofun
      · have noPair (last : CodePoint) : ¬(single = 0x0d ∧ last = 0x0a) :=
          fun both => isReturn both.1
        constructor
        · rw [List.singleton_append, splitLines, if_neg (noPair _), if_pos ends,
            List.singleton_append, splitLines, if_neg (noPair _), if_pos ends,
            feed, feed]
          rfl
        · rw [List.singleton_append, splitLines, if_neg (noPair _), if_pos ends]
          exact nofun
  | case3 single inner =>
      have plain := Bool.eq_false_iff.mpr inner
      constructor
      · rw [List.singleton_append, List.singleton_append,
          splitLines_cons _ plain, splitLines_cons _ plain, feed, feed]
        rfl
      · rw [List.singleton_append, splitLines_cons _ plain, feed]
        exact nofun
  | case4 first second text pair induction =>
      simp only [List.cons_append]
      rw [splitLines, if_pos pair, splitLines, if_pos pair, induction.1]
      exact ⟨rfl, nofun⟩
  | case5 first second text noPair ends induction =>
      simp only [List.cons_append] at induction ⊢
      rw [splitLines, if_neg noPair, if_pos ends, splitLines, if_neg noPair,
        if_pos ends, induction.1]
      exact ⟨rfl, nofun⟩
  | case6 first second text noPair inner induction =>
      have plain := Bool.eq_false_iff.mpr inner
      obtain ⟨same, some⟩ := induction
      simp only [List.cons_append] at same some ⊢
      rw [splitLines_cons _ plain, splitLines_cons _ plain, same,
        onto_append some]
      refine ⟨rfl, ?_⟩
      generalize splitLines (second :: (text ++ [0x0a])) = lines at some ⊢
      cases lines with
      | nil => exact absurd rfl some
      | cons line lines => exact nofun

/-- The first line begins with what has no break in it. -/
theorem splitLines_begins {start : Str} (some : start ≠ [])
    (inside : ∀ character ∈ start, isBreak character = false) (text : Str) :
    ∃ more lines, splitLines (start ++ text) = (start ++ more) :: lines := by
  induction start with
  | nil => exact absurd rfl some
  | cons character start induction =>
      have plain := inside character List.mem_cons_self
      rw [List.cons_append, splitLines_cons _ plain]
      by_cases last : start = []
      · subst last
        rw [List.nil_append]
        cases splitLines text with
        | nil => exact ⟨[], [], rfl⟩
        | cons line lines => exact ⟨line, lines, rfl⟩
      · obtain ⟨more, lines, begins⟩ := induction last fun other member =>
          inside other (List.mem_cons_of_mem _ member)
        exact ⟨more, lines, by rw [begins]; rfl⟩

theorem stripLeft_cons {head : CodePoint} (tail : Str)
    (visible : isWhite head = false) : stripLeft (head :: tail) = head :: tail := by
  rw [stripLeft, List.dropWhile_cons, visible]
  rfl

theorem stripRight_concat (text : Str) {last : CodePoint}
    (visible : isWhite last = false) :
    stripRight (text ++ [last]) = text ++ [last] := by
  rw [stripRight, List.reverse_append, List.reverse_singleton,
    List.singleton_append, List.dropWhile_cons, visible]
  simp

private theorem head_stripLeft (text : Str) :
    stripLeft text = [] ∨ ∃ head tail, stripLeft text = head :: tail ∧
      isWhite head = false := by
  induction text with
  | nil => exact .inl rfl
  | cons character text induction =>
      cases white : isWhite character with
      | true =>
          rw [stripLeft, List.dropWhile_cons_of_pos white]
          exact induction
      | false => exact .inr ⟨character, text, stripLeft_cons text white, white⟩

private theorem stripRight_eq (text : Str) :
    stripRight text = [] ∨ ∃ start last, stripRight text = start ++ [last] ∧
      isWhite last = false := by
  rcases head_stripLeft text.reverse with nothing | ⟨last, start, ends, visible⟩
  · refine .inl ?_
    rw [stripRight, ← stripLeft, nothing]
    rfl
  · refine .inr ⟨start.reverse, last, ?_, visible⟩
    rw [stripRight, ← stripLeft, ends, List.reverse_cons]

private theorem stripRight_begins (text : Str) : stripRight text <+: text := by
  have suffix := List.dropWhile_suffix isWhite (l := text.reverse)
  rw [← List.reverse_prefix, List.reverse_reverse] at suffix
  exact suffix

/-- A text that begins and ends with visible characters is stripped already. -/
theorem strip_of_visible {text : Str} {first last : CodePoint}
    (begins : text.head? = some first) (ends : text.getLast? = some last)
    (visible : isWhite first = false) (lastVisible : isWhite last = false) :
    strip text = text := by
  cases text with
  | nil => cases begins
  | cons head text =>
      cases begins
      obtain ⟨start, whole⟩ : ∃ start, first :: text = start ++ [last] :=
        (List.getLast?_eq_some_iff.mp ends)
      rw [strip, stripLeft_cons text visible, whole,
        stripRight_concat _ lastVisible]

/-- Stripping a text once is enough. -/
theorem strip_strip (text : Str) : strip (strip text) = strip text := by
  rcases stripRight_eq (stripLeft text) with nothing | ⟨start, last, ends, lastVisible⟩
  · rw [strip, strip, nothing]
    rfl
  · have begins : ∃ first, (strip text).head? = some first ∧
        isWhite first = false := by
      rcases head_stripLeft text with nothing | ⟨first, tail, begins, visible⟩
      · rw [nothing] at ends
        exact absurd ends.symm (List.append_ne_nil_of_right_ne_nil _ nofun)
      · refine ⟨first, ?_, visible⟩
        obtain ⟨more, whole⟩ := stripRight_begins (stripLeft text)
        rw [begins] at whole
        rw [strip, begins]
        rw [begins] at ends
        cases stripped : stripRight (first :: tail) with
        | nil =>
            rw [stripped] at ends
            exact absurd ends.symm (List.append_ne_nil_of_right_ne_nil _ nofun)
        | cons other rest =>
            rw [stripped, List.cons_append] at whole
            rw [(List.cons.inj whole).1]
            rfl
    obtain ⟨first, begins, visible⟩ := begins
    refine strip_of_visible begins ?_ visible lastVisible
    rw [strip, ends, List.getLast?_concat]

theorem mem_of_mem_strip {text : Str} {character : CodePoint}
    (member : character ∈ strip text) : character ∈ text :=
  (List.dropWhile_suffix isWhite).subset
    ((stripRight_begins (stripLeft text)).subset member)

theorem strip_eq (text : Str) : strip text = stripBy isWhite text :=
  rfl

private theorem dropWhile_eq {first second : CodePoint → Bool} {text : Str}
    (more : ∀ character, first character → second character)
    (stops : ∀ character ∈ (text.dropWhile first).head?,
      second character = false) :
    text.dropWhile first = text.dropWhile second := by
  induction text with
  | nil => rfl
  | cons character text induction =>
      cases drops : first character with
      | true =>
          rw [List.dropWhile_cons_of_pos drops] at stops ⊢
          rw [List.dropWhile_cons_of_pos (more _ drops)]
          exact induction stops
      | false =>
          have keeps : ¬first character = true := by
            rw [drops]
            exact Bool.false_ne_true
          rw [List.dropWhile_cons_of_neg keeps] at stops ⊢
          have keeps := stops character rfl
          rw [List.dropWhile_cons_of_neg (by rw [keeps]; exact nofun)]

private theorem mem_dropWhile {drops : CodePoint → Bool} {text : Str}
    {character : CodePoint} (member : character ∈ text)
    (keeps : drops character = false) : character ∈ text.dropWhile drops := by
  rw [← List.takeWhile_append_dropWhile (p := drops) (l := text),
    List.mem_append] at member
  refine member.resolve_left fun taken => ?_
  rw [List.mem_takeWhile_imp taken] at keeps
  cases keeps

theorem mem_of_mem_stripBy {drops : CodePoint → Bool} {text : Str}
    {character : CodePoint} (member : character ∈ stripBy drops text) :
    character ∈ text := by
  rw [stripBy, List.mem_reverse] at member
  have left := (List.dropWhile_suffix _).subset member
  rw [List.mem_reverse] at left
  exact (List.dropWhile_suffix _).subset left

/-- A stronger test that holds for nothing in what is left drops the same. -/
theorem stripBy_eq {first second : CodePoint → Bool} {text : Str}
    (more : ∀ character, first character → second character)
    (inside : ∀ character ∈ stripBy first text, second character →
      first character) :
    stripBy first text = stripBy second text := by
  have stops {text : Str} : ∀ character ∈ (text.dropWhile first).head?,
      first character = false := by
    intro character head
    have keeps := List.head?_dropWhile_not first text
    rw [Option.mem_def.mp head] at keeps
    exact keeps
  have kept {character : CodePoint} (left : character ∈ stripBy first text)
      (keeps : first character = false) : second character = false := by
    rw [Bool.eq_false_iff]
    intro drops
    rw [inside character left drops] at keeps
    cases keeps
  have left : text.dropWhile first = text.dropWhile second := by
    refine dropWhile_eq more fun character head => ?_
    refine kept ?_ (stops character head)
    rw [stripBy, List.mem_reverse]
    refine mem_dropWhile ?_ (stops character head)
    rw [List.mem_reverse]
    exact List.mem_of_mem_head? head
  rw [stripBy, stripBy, ← left]
  congr 1
  refine dropWhile_eq more fun character head => ?_
  refine kept ?_ (stops character head)
  rw [stripBy, List.mem_reverse]
  exact List.mem_of_mem_head? head

end PpcLab.Lines
