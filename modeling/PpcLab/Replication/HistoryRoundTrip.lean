import PpcLab.Library.JsonLines
import PpcLab.Replication.Redaction
import PpcLab.Security.Audit

/-!
# Control history after an import

A bundle holds the records of a history as canonical texts, which keep every
character that is not ASCII.  The import splits them into lines anew and writes
the lines to an archive.  A line also ends at three characters that are not
escaped, so a record with one of them is not read back.
-/

namespace PpcLab.Replication

open Json
open Security (Python)

/-- The lines of a text file. -/
def textLines (text : Str) : List Str :=
  Lines.splitLines (Lines.universalNewlines text)

section Reading

variable (python : Python)

/-- A line of a history; `reason` is what is said of one that is malformed. -/
def HistoryLine.read (reason : Str → Str) (line : Str) : HistoryLine :=
  if Lines.isBlank line then .blank
  else
    match python.loads line with
    | some value => .json value
    | none => .malformed (reason line)

/-- A control root with the text of its history, if there is one. -/
def ControlRoot.read (reason : Str → Str) (initialized : Bool)
    (history : Option Str) : ControlRoot where
  initialized := initialized
  history := history.map fun text =>
    (textLines text).map (HistoryLine.read python reason)

end Reading

/-- `history_lines`: the lines that an import takes from the members. -/
def historyLines (members : List Member) : Option (List Str) :=
  match members.find? (·.name = .history) with
  | none => some []
  | some member => (decodeUtf8 member.raw).map Lines.splitLines

/-- `"\n".join(history_lines) + "\n"` -/
def archiveText (lines : List Str) : Str :=
  List.intercalate [lineFeed] lines ++ [lineFeed]

/-- The archive that `import_bundle` writes, if the bundle has lines. -/
def writeArchive (members : List Member) : Option (Option (List Byte)) := do
  let lines ← historyLines members
  if lines.isEmpty then return none
  else (utf8 (archiveText lines)).map some

section Survival

variable (python : Python)

/-- The values of the lines of a text. -/
def decodeNdjson (text : Str) : Option (List Json) :=
  ((textLines text).filter fun line => !Lines.isBlank line).mapM python.loads

def decodeArchive : Option (List Byte) → Option (List Json)
  | none => some []
  | some bytes => (decodeUtf8 bytes).bind (decodeNdjson python)

/-- The archive is decoded to the redacted records, one by one. -/
def Survives (root : ControlRoot) (members : List Member) : Prop :=
  ∃ archive values, writeArchive members = some archive ∧
    decodeArchive python archive = some values ∧
    values.map sorted = root.copied

private theorem readable_safe {record : Fields}
    (readable : Readable python.float (.object record)) :
    Readable python.float (.object (safe record)) := by
  obtain ⟨distinct, each⟩ := readable
  refine ⟨(List.filter_sublist.map _).nodup distinct, ?_⟩
  rw [readableFields_iff] at each ⊢
  intro member kept
  exact each member (List.mem_of_mem_filter kept)

private theorem readable_records {reason : Str → Str} {initialized : Bool}
    {history : Option Str} {record : Fields}
    (member : record ∈
      (ControlRoot.read python reason initialized history).records) :
    Readable python.float (.object record) := by
  obtain ⟨line, listed, found⟩ := List.mem_filterMap.mp member
  cases history with
  | none => cases listed
  | some text =>
      obtain ⟨source, _, rfl⟩ := List.mem_map.mp listed
      rw [HistoryLine.read] at found
      split at found
      · cases found
      · cases loaded : python.loads source with
        | none =>
            rw [loaded] at found
            cases found
        | some value =>
            rw [loaded] at found
            cases value with
            | object fields =>
                cases found
                exact readable_of_loads python.float python.readsBack loaded
            | _ => cases found

private theorem splitLines_flatMap {lines : List Str}
    (inside : ∀ line ∈ lines, ∀ character ∈ line,
      Lines.isBreak character = false) (rest : Str) :
    Lines.splitLines (lines.flatMap (· ++ [lineFeed]) ++ rest) =
      lines ++ Lines.splitLines rest := by
  induction lines with
  | nil => rfl
  | cons line lines induction =>
      have others := induction fun other member =>
        inside other (List.mem_cons_of_mem _ member)
      rw [List.flatMap_cons, List.append_assoc, List.append_assoc,
        List.singleton_append, List.cons_append, ← others]
      exact Lines.splitLines_append (inside line List.mem_cons_self)

private theorem archiveText_eq {lines : List Str} (some : lines ≠ []) :
    archiveText lines = lines.flatMap (· ++ [lineFeed]) := by
  induction lines with
  | nil => exact absurd rfl some
  | cons line lines induction =>
      cases lines with
      | nil => simp [archiveText, List.intercalate]
      | cons next lines =>
          have others := induction (List.cons_ne_nil _ _)
          rw [List.flatMap_cons, ← others]
          simp [archiveText, List.intercalate]

/-- An archive is decoded line by line, as it was written. -/
private theorem decodeNdjson_archiveText {text : Str}
    (some : Lines.splitLines text ≠ []) :
    decodeNdjson python (archiveText (Lines.splitLines text)) =
      ((Lines.splitLines text).filter fun line =>
        !Lines.isBlank line).mapM python.loads := by
  have inside : ∀ line ∈ Lines.splitLines text, ∀ character ∈ line,
      Lines.isBreak character = false := by
    intro line member character held
    exact Lines.isBreak_of_mem_splitLines member held
  have lines := splitLines_flatMap inside []
  rw [List.append_nil, Lines.splitLines, List.append_nil] at lines
  rw [decodeNdjson, textLines, Lines.splitLines_universalNewlines,
    archiveText_eq some, lines]

/-- The first part of a broken record is a line that is not read. -/
private theorem broken_line {texts : List Canonical}
    (objects : ∀ text ∈ texts, ∃ fields, text.value = .object fields ∧
      Readable python.float (.object fields))
    (broken : ∃ text ∈ texts, ¬ text.value.Unbroken) :
    ∃ line ∈ Lines.splitLines (texts.flatMap Canonical.text),
      Lines.isBlank line = false ∧ python.loads line = none := by
  induction texts with
  | nil =>
      obtain ⟨text, none, _⟩ := broken
      cases none
  | cons text texts induction =>
      rw [List.flatMap_cons, Canonical.text, List.append_assoc,
        List.singleton_append]
      by_cases unbroken : text.value.Unbroken
      · have later : ∃ text ∈ texts, ¬ text.value.Unbroken := by
          obtain ⟨other, member, bad⟩ := broken
          rcases List.mem_cons.mp member with rfl | listed
          · exact absurd unbroken bad
          · exact ⟨other, listed, bad⟩
        obtain ⟨line, member, visible, unread⟩ := induction
          (fun other member => objects other (List.mem_cons_of_mem _ member))
          later
        have split : Lines.splitLines (text.value.text ++
            lineFeed :: texts.flatMap Canonical.text) =
              text.value.text ::
                Lines.splitLines (texts.flatMap Canonical.text) :=
          Lines.splitLines_append ((unbroken_iff _).mp unbroken)
        rw [split]
        exact ⟨line, List.mem_cons_of_mem _ member, visible, unread⟩
      · obtain ⟨fields, value, readable⟩ := objects text List.mem_cons_self
        rw [value] at unbroken
        obtain ⟨line, mark, rest, whole, ends, raw, inside, visible, unread⟩ :=
          loads_of_broken python.float readable unbroken
        have single : ∀ mark ∈ rawBreaks, mark ≠ 0x0d := by
          decide
        rw [value, whole, List.append_assoc, List.cons_append,
          Lines.splitLines_append_mark ends (single mark raw) inside]
        exact ⟨line, List.mem_cons_self, visible, unread⟩

private theorem mapM_eq_none {α β : Type} {read : α → Option β} {items : List α}
    {item : α} (member : item ∈ items) (unread : read item = none) :
    items.mapM read = none := by
  induction items with
  | nil => cases member
  | cons first items induction =>
      rw [List.mapM_cons]
      rcases List.mem_cons.mp member with rfl | later
      · rw [unread]
        rfl
      · rw [induction later]
        cases read first <;> rfl

private theorem mapM_eq_some {α β : Type} {read : α → Option β}
    {result : β → α} {results : List β}
    (reads : ∀ value ∈ results, read (result value) = some value) :
    (results.map result).mapM read = some results := by
  induction results with
  | nil => rfl
  | cons value results induction =>
      rw [List.map_cons, List.mapM_cons, reads value List.mem_cons_self,
        induction fun other member =>
          reads other (List.mem_cons_of_mem _ member)]
      rfl

/-- Texts that are not broken are lines. -/
private theorem splitLines_texts {texts : List Canonical}
    (unbroken : ∀ text ∈ texts, text.value.Unbroken) :
    texts.flatMap Canonical.text =
        (texts.map (·.value.text)).flatMap (· ++ [lineFeed]) ∧
      Lines.splitLines (texts.flatMap Canonical.text) =
        texts.map (·.value.text) := by
  have whole : texts.flatMap Canonical.text =
      (texts.map (·.value.text)).flatMap (· ++ [lineFeed]) := by
    rw [List.flatMap_map]
    rfl
  have inside : ∀ line ∈ texts.map (·.value.text), ∀ character ∈ line,
      Lines.isBreak character = false := by
    intro line member
    obtain ⟨text, listed, rfl⟩ := List.mem_map.mp member
    exact (unbroken_iff _).mp (unbroken text listed)
  refine ⟨whole, ?_⟩
  have split := splitLines_flatMap inside []
  rw [List.append_nil, Lines.splitLines, List.append_nil] at split
  rw [whole, split]

private theorem historyLines_texts (texts : List Canonical) :
    historyLines [⟨.history, texts⟩] =
      some (Lines.splitLines (texts.flatMap Canonical.text)) := by
  have read : decodeUtf8 (texts.flatMap (·.bytes)) =
      some (texts.flatMap Canonical.text) :=
    decodeUtf8_eq_some.mpr (Canonical.utf8_flatMap_text texts)
  have held : historyLines [⟨.history, texts⟩] =
      (decodeUtf8 (texts.flatMap (·.bytes))).map Lines.splitLines := rfl
  rw [held, read, Option.map_some]

private theorem splitLines_texts_ne_nil {texts : List Canonical}
    (some : texts ≠ []) :
    Lines.splitLines (texts.flatMap Canonical.text) ≠ [] := by
  obtain ⟨text, texts, rfl⟩ := List.exists_cons_of_ne_nil some
  obtain ⟨split, nonempty⟩ := Lines.splitLines_append_lineFeed
    text.value.text (texts.flatMap Canonical.text)
  rw [List.flatMap_cons, Canonical.text, List.append_assoc,
    List.singleton_append, show lineFeed = 0x0a from rfl, split]
  exact fun none => nonempty (List.append_eq_nil_iff.mp none).1

/-- An archive is the text of its lines. -/
private theorem writeArchive_texts {texts : List Canonical}
    (some : texts ≠ []) :
    writeArchive [⟨.history, texts⟩] =
      (utf8 (archiveText
        (Lines.splitLines (texts.flatMap Canonical.text)))).map .some := by
  have nonempty := splitLines_texts_ne_nil some
  rw [writeArchive, historyLines_texts, Option.bind_eq_bind, Option.bind_some,
    if_neg (by rwa [List.isEmpty_iff])]

/-- The archive of a bundle with records. -/
private theorem survives_texts_iff {root : ControlRoot}
    {texts : List Canonical} (some : texts ≠ [])
    (objects : ∀ text ∈ texts, ∃ fields, text.value = .object fields ∧
      Readable python.float (.object fields))
    (values : texts.map (·.value) = root.copied) :
    Survives python root [⟨.history, texts⟩] ↔
      ∀ text ∈ texts, text.value.Unbroken := by
  have nonempty := splitLines_texts_ne_nil some
  have written := writeArchive_texts some
  have decoded := decodeNdjson_archiveText python nonempty
  constructor
  · rintro ⟨archive, read, made, found, _⟩
    by_contra broken
    push Not at broken
    obtain ⟨line, member, visible, unread⟩ :=
      broken_line python objects broken
    have kept : line ∈ (Lines.splitLines
        (texts.flatMap Canonical.text)).filter fun line =>
          !Lines.isBlank line :=
      List.mem_filter.mpr ⟨member, by rw [visible]; rfl⟩
    rw [mapM_eq_none kept unread] at decoded
    rw [written] at made
    obtain ⟨bytes, encoded, rfl⟩ := Option.map_eq_some_iff.mp made
    rw [decodeArchive, decodeUtf8_eq_some.mpr encoded, Option.bind_some,
      decoded] at found
    cases found
  · intro unbroken
    obtain ⟨whole, lines⟩ := splitLines_texts unbroken
    have encoded : utf8 (archiveText
        (Lines.splitLines (texts.flatMap Canonical.text))) =
          .some (texts.flatMap (·.bytes)) := by
      rw [archiveText_eq nonempty, lines, ← whole]
      exact Canonical.utf8_flatMap_text texts
    have visible : (texts.map (·.value.text)).filter
        (fun line => !Lines.isBlank line) = texts.map (·.value.text) := by
      rw [List.filter_eq_self]
      intro line member
      obtain ⟨text, listed, rfl⟩ := List.mem_map.mp member
      obtain ⟨fields, value, _⟩ := objects text listed
      rw [value]
      rfl
    have reads : ∀ value ∈ texts.map (·.value),
        python.loads value.text = .some value := by
      intro value member
      obtain ⟨text, listed, rfl⟩ := List.mem_map.mp member
      obtain ⟨fields, same, readable⟩ := objects text listed
      have loaded := Spelling.raw.loads_text python.float readable
      rw [Spelling.raw_text] at loaded
      rw [same]
      exact loaded
    have all := mapM_eq_some reads
    rw [List.map_map] at all
    rw [encoded, Option.map_some] at written
    rw [lines, visible] at decoded
    refine ⟨_, texts.map (·.value), written, ?_, ?_⟩
    · rw [decodeArchive, decodeUtf8_eq_some.mpr (lines ▸ encoded),
        Option.bind_some, decoded]
      exact all
    · rw [List.map_map, ← values]
      exact List.map_congr_left fun text _ => text.ordered

private theorem unbroken_copied {root : ControlRoot} {texts : List Canonical}
    (values : texts.map (·.value) = root.copied) :
    (∀ text ∈ texts, text.value.Unbroken) ↔
      ∀ record ∈ root.records, (Json.object (safe record)).Unbroken := by
  have sides : (∀ value ∈ texts.map (·.value), value.Unbroken) ↔
      ∀ value ∈ root.copied, value.Unbroken := by
    rw [values]
  simp only [ControlRoot.copied, List.forall_mem_map, unbroken_sorted] at sides
  exact sides

/-- A history survives an import exactly if no string of its redacted records
has a break that is not escaped. -/
theorem survives_iff_unbroken (reason : Str → Str) (initialized : Bool)
    (history : Option Str) (members : List Member)
    (collected : collectControlHistory
      (ControlRoot.read python reason initialized history) = .ok members) :
    Survives python (ControlRoot.read python reason initialized history)
        members ↔
      ∀ record ∈ (ControlRoot.read python reason initialized history).records,
        (Json.object (safe record)).Unbroken := by
  obtain ⟨_, texts, values, rfl⟩ := collected_iff.mp collected
  rw [← unbroken_copied values]
  cases texts with
  | nil =>
      refine iff_of_true ⟨none, [], rfl, rfl, ?_⟩ nofun
      rw [← values]
      rfl
  | cons text texts =>
      apply survives_texts_iff python (List.cons_ne_nil _ _) _ values
      intro other member
      have copied : other.value ∈ (text :: texts).map (·.value) :=
        List.mem_map_of_mem member
      rw [values] at copied
      obtain ⟨record, listed, same⟩ := List.mem_map.mp copied
      refine ⟨sortedObject (safe record), same.symm, ?_⟩
      exact readable_sorted python.float _
        (readable_safe python (readable_records python listed))

end Survival

/-- A history of one record, with a path and an error of two words. -/
def accented : Str :=
  "\x7b\"error\": \"disque \\u00e9puis\\u00e9\", \"log_path\": \"/x\"\x7d\n"

theorem survives_iff_unbroken_accented :
    ∃ members, collectControlHistory
        (ControlRoot.read .ascii id true (some accented)) = .ok members ∧
      Survives .ascii (ControlRoot.read .ascii id true (some accented))
        members := by
  have made : (collectControlHistory
      (ControlRoot.read .ascii id true (some accented))).toBool := by
    decide +kernel
  cases collected : collectControlHistory
      (ControlRoot.read .ascii id true (some accented)) with
  | error failure =>
      rw [collected] at made
      cases made
  | ok members =>
      refine ⟨members, rfl, ?_⟩
      apply (survives_iff_unbroken .ascii id true _ members collected).mpr
      decide +kernel

/-- A history of one record, its error with a line separator in it. -/
def separated : Str :=
  "\x7b\"error\": \"disk\\u2028full\", \"id\": \"run-000001\"\x7d\n"

/-- The record is split into two lines, neither of which is JSON. -/
theorem separator_splits_record :
    ∃ members, collectControlHistory
        (ControlRoot.read .ascii id true (some separated)) = .ok members ∧
      ¬ Survives .ascii (ControlRoot.read .ascii id true (some separated))
        members := by
  have made : (collectControlHistory
      (ControlRoot.read .ascii id true (some separated))).toBool := by
    decide +kernel
  have unread : ((collectControlHistory
      (ControlRoot.read .ascii id true (some separated))).toOption.bind
        writeArchive).bind (decodeArchive .ascii) = none := by
    decide +kernel
  cases collected : collectControlHistory
      (ControlRoot.read .ascii id true (some separated)) with
  | error failure =>
      rw [collected] at made
      cases made
  | ok members =>
      refine ⟨members, rfl, ?_⟩
      rintro ⟨archive, values, written, decoded, _⟩
      rw [collected, Except.toOption, Option.bind_some, written,
        Option.bind_some, decoded] at unread
      cases unread

end PpcLab.Replication
