import PpcLab.Library.JsonPrefix
import PpcLab.Security.AuditChain

/-!
# Torn audit logs

The logs that appends leave behind when some of them are cut short.  A log
that ends with a whole line of JSON is a chain and stays one.  In every other
log the next record is refused or is the last one.
-/

namespace PpcLab.Security

variable (python : Python)

/-- A log that was appended to; of each line at least a part was written. -/
inductive Left : Option Str → Prop where
  | none : Left none
  | appended {log : Option Str} {line part : Str} (timestamp : Str)
      (event : Event) :
      Left log →
      auditAppend python log timestamp event.fields =
        some (log.getD [] ++ line) →
      part <+: line →
      Left (some (log.getD [] ++ part))

/-- A log that ends with a line feed and is JSON in every line. -/
def Whole (log : Option Str) : Prop :=
  (log.getD [] = [] ∨ (log.getD []).getLast? = some Json.lineFeed) ∧
    ∀ line ∈ Lines.splitLines (log.getD []), (python.loads line).isSome

/-- What a log looks like that appends left behind. -/
inductive LogForm : Option Str → Prop where
  | whole {log : Option Str} {records : List Fields} {prev : Str} :
      Chain records prev →
      log.getD [] = logText records →
      LogForm log
  | unfinished {records : List Fields} (prev : Str) (seq : Int)
      (timestamp : Str) (event : Event) :
      LogForm (some (logText records ++
        recordLine (recordOf prev seq timestamp event)))
  | unread {records : List Fields} {line rest : Str} :
      (∀ character ∈ line, Lines.isBreak character = false) →
      Lines.isBlank line = false →
      python.loads line = none →
      rest = [] ∨ rest = [Json.lineFeed] →
      LogForm (some (logText records ++ (line ++ rest)))

private theorem splitLines_logText_append (records : List Fields) (rest : Str) :
    Lines.splitLines (logText records ++ rest) =
      records.map recordLine ++ Lines.splitLines rest := by
  induction records with
  | nil => rfl
  | cons record records induction =>
      rw [logText, List.flatMap_cons, List.append_assoc, List.append_assoc,
        List.singleton_append]
      rw [show (Json.lineFeed : CodePoint) = 0x0a from rfl,
        Lines.splitLines_append (recordLine_inside record)]
      exact congrArg _ induction

private theorem splitLines_single {line rest : Str}
    (inside : ∀ character ∈ line, Lines.isBreak character = false)
    (visible : Lines.isBlank line = false)
    (ending : rest = [] ∨ rest = [Json.lineFeed]) :
    Lines.splitLines (line ++ rest) = [line] := by
  rcases ending with rfl | rfl
  · rw [List.append_nil]
    apply Lines.splitLines_of_inside _ inside
    rintro rfl
    cases visible
  · exact Lines.splitLines_append inside

/-- A last line that cannot be read is not continued. -/
private theorem continuation_unread {records : List Fields} {line rest : Str}
    (inside : ∀ character ∈ line, Lines.isBreak character = false)
    (visible : Lines.isBlank line = false)
    (unread : python.loads line = none)
    (ending : rest = [] ∨ rest = [Json.lineFeed]) :
    continuation python (some (logText records ++ (line ++ rest))) = none := by
  unfold continuation
  rw [Option.getD_some, splitLines_logText_append,
    splitLines_single inside visible ending, List.filter_append,
    List.filter_cons_of_pos (by rw [visible]; rfl), List.filter_nil,
    List.getLast?_concat]
  dsimp only
  rw [unread]
  rfl

theorem auditAppend_eq_none {log : Option Str}
    (blocked : continuation python log = none) (timestamp : Str)
    (event : Fields) : auditAppend python log timestamp event = none := by
  rw [auditAppend, blocked]
  rfl

/-- An append adds the line of a record. -/
private theorem line_of_auditAppend {log : Option Str} {text timestamp : Str}
    {event : Event}
    (written : auditAppend python log timestamp event.fields = some text) :
    ∃ prev seq, text = log.getD [] ++
      (recordLine (recordOf prev seq timestamp event) ++ [Json.lineFeed]) := by
  obtain ⟨⟨prev, seq⟩, _, same⟩ := Option.bind_eq_some_iff.mp written
  refine ⟨prev, seq, ?_⟩
  rw [← sealed_baseRecord]
  exact (Option.some.inj same).symm

private theorem begins_of_start {record : Fields} {part : Str}
    (start : part <+: recordLine record) (some : part ≠ []) :
    ∃ rest, part = 0x7b :: rest := by
  obtain ⟨tail, line⟩ := recordLine_eq record
  cases part with
  | nil => exact absurd rfl some
  | cons first part =>
      obtain ⟨extra, whole⟩ := start
      rw [line, List.cons_append] at whole
      exact ⟨part, congrArg (· :: part) (List.cons.inj whole).1⟩

private theorem visible_of_begins {part : Str}
    (begins : ∃ rest, part = 0x7b :: rest) : Lines.isBlank part = false := by
  obtain ⟨rest, rfl⟩ := begins
  rfl

private theorem inside_of_start {record : Fields} {part : Str}
    (start : part <+: recordLine record) :
    ∀ character ∈ part, Lines.isBreak character = false := by
  intro character member
  exact recordLine_inside record character (start.subset member)

/-- A line that was cut short is not read. -/
private theorem loads_cut {prev timestamp : Str} {seq : Int} {event : Event}
    {part : Str}
    (start : part <+: recordLine (recordOf prev seq timestamp event))
    (some : part ≠ [])
    (strict : part ≠ recordLine (recordOf prev seq timestamp event)) :
    python.loads part = none := by
  obtain ⟨rest, rfl⟩ := begins_of_start start some
  obtain ⟨extra, whole⟩ := start
  obtain ⟨readable, line⟩ :=
    recordLine_recordOf python prev seq timestamp event
  rw [line] at whole strict
  refine Json.Spelling.ascii.loads_of_cut python.float readable whole.symm ?_
  rintro rfl
  exact strict (by rw [← whole, List.append_nil])

/-- A line that was written behind another one is not read. -/
private theorem loads_joined {prev timestamp : Str} {seq : Int} {event : Event}
    {more : Str} (begins : ∃ rest, more = 0x7b :: rest) :
    python.loads (recordLine (recordOf prev seq timestamp event) ++ more) =
      none := by
  obtain ⟨rest, rfl⟩ := begins
  obtain ⟨readable, line⟩ :=
    recordLine_recordOf python prev seq timestamp event
  rw [line]
  apply Json.Spelling.ascii.loads_of_joined python.float readable
  rw [Json.skipped_cons _ (by decide)]
  exact List.cons_ne_nil _ _

/-- What is behind an unfinished line does not matter: it is not read. -/
private theorem form_joined (records : List Fields) (prev : Str) (seq : Int)
    (timestamp : Str) (event : Event) {other : Fields} {part : Str}
    (some : part ≠ []) (start : part <+: recordLine other ++ [Json.lineFeed]) :
    LogForm python (.some (logText records ++
      (recordLine (recordOf prev seq timestamp event) ++ part))) := by
  have joined {more : Str} (inLine : more <+: recordLine other)
      (some : more ≠ []) :
      (∀ character ∈ recordLine (recordOf prev seq timestamp event) ++ more,
        Lines.isBreak character = false) ∧
      Lines.isBlank (recordLine (recordOf prev seq timestamp event) ++ more) =
        false := by
    constructor
    · intro character member
      rcases List.mem_append.mp member with before | after
      · exact recordLine_inside _ character before
      · exact inside_of_start inLine character after
    · obtain ⟨rest, line⟩ :=
        recordLine_eq (recordOf prev seq timestamp event)
      rw [line]
      rfl
  rcases List.prefix_concat_iff.mp start with rfl | inLine
  · have nonempty : recordLine other ≠ [] := by
      obtain ⟨rest, line⟩ := recordLine_eq other
      rw [line]
      exact List.cons_ne_nil _ _
    obtain ⟨inside, visible⟩ := joined (List.prefix_refl _) nonempty
    rw [← List.append_assoc (recordLine _)]
    exact .unread inside visible
      (loads_joined python (recordLine_eq other)) (.inr rfl)
  · obtain ⟨inside, visible⟩ := joined inLine some
    rw [← List.append_nil (recordLine _ ++ part)]
    exact .unread inside visible
      (loads_joined python (begins_of_start inLine some)) (.inl rfl)

/-- Every log that was left behind has one of the forms. -/
theorem form_of_left {log : Option Str} (left : Left python log) :
    LogForm python log := by
  induction left with
  | none => exact .whole .start rfl
  | @appended log line part timestamp event before written start induction =>
      by_cases nothing : part = []
      · subst nothing
        rw [List.append_nil]
        cases log with
        | none => exact .whole .start rfl
        | some text => exact induction
      · cases induction with
        | @whole _ records prev chain there =>
            rw [auditAppend_logText python chain there] at written
            have lines := Option.some.inj written
            rw [there, logText, logText, List.flatMap_append,
              List.flatMap_singleton] at lines
            rw [← List.append_cancel_left lines] at start
            rw [there]
            rcases List.prefix_concat_iff.mp start with rfl | inLine
            · refine .whole (chain.next timestamp event) ?_
              rw [Option.getD_some, logText, logText, List.flatMap_append,
                List.flatMap_singleton]
            · by_cases all : part = recordLine
                (recordOf prev (records.length + 1) timestamp event)
              · subst all
                exact .unfinished prev _ timestamp event
              · rw [← List.append_nil part]
                exact .unread (inside_of_start inLine)
                  (visible_of_begins (begins_of_start inLine nothing))
                  (loads_cut python inLine nothing all) (.inl rfl)
        | @unfinished records prev seq earlier other =>
            obtain ⟨_, _, lines⟩ := line_of_auditAppend python written
            rw [List.append_cancel_left lines] at start
            rw [Option.getD_some, List.append_assoc]
            exact form_joined python records prev seq earlier other nothing start
        | unread inside visible unread ending =>
            rw [auditAppend_eq_none python
              (continuation_unread python inside visible unread ending)] at written
            cases written

private theorem getLast?_logText (records : List Fields) :
    logText records = [] ∨ (logText records).getLast? = some Json.lineFeed := by
  obtain rfl | ⟨before, record, rfl⟩ := List.eq_nil_or_concat records
  · exact .inl rfl
  · refine .inr ?_
    rw [List.concat_eq_append, logText, List.flatMap_append,
      List.flatMap_singleton, ← List.append_assoc, List.getLast?_concat]

private theorem exists_recordOf {records : List Fields} {prev : Str}
    (chain : Chain records prev) {record : Fields} (member : record ∈ records) :
    ∃ hash seq timestamp event, record = recordOf hash seq timestamp event := by
  induction chain with
  | start => cases member
  | @next before prev timestamp event chain induction =>
      rcases List.mem_append.mp member with earlier | last
      · exact induction earlier
      · exact ⟨prev, _, timestamp, event, List.mem_singleton.mp last⟩

theorem whole_of_chain {log : Option Str} {records : List Fields} {prev : Str}
    (chain : Chain records prev) (written : log.getD [] = logText records) :
    Whole python log := by
  rw [Whole, written, splitLines_logText]
  refine ⟨getLast?_logText records, ?_⟩
  intro line member
  obtain ⟨record, held, rfl⟩ := List.mem_map.mp member
  obtain ⟨hash, seq, timestamp, event, rfl⟩ := exists_recordOf chain held
  rw [loads_recordLine]
  rfl

/-- A whole log that was left behind is a chain. -/
theorem chain_of_whole {log : Option Str} (left : Left python log)
    (whole : Whole python log) : ∃ records prev, Chain records prev ∧
      log.getD [] = logText records := by
  obtain ⟨ending, lines⟩ := whole
  cases form_of_left python left with
  | whole chain written => exact ⟨_, _, chain, written⟩
  | @unfinished records prev seq timestamp event =>
      obtain ⟨rest, line⟩ :=
        recordLine_eq (recordOf prev seq timestamp event)
      have nonempty : recordLine (recordOf prev seq timestamp event) ≠ [] := by
        rw [line]
        exact List.cons_ne_nil _ _
      rw [Option.getD_some] at ending
      rcases ending with empty | last
      · exact absurd (List.append_eq_nil_iff.mp empty).2 nonempty
      · rw [List.getLast?_append_of_ne_nil _ nonempty] at last
        have inside := recordLine_inside _ _ (List.mem_of_getLast? last)
        cases inside
  | @unread records line rest inside visible unread last =>
      have read := lines line (by
        rw [Option.getD_some, splitLines_logText_append,
          splitLines_single inside visible last]
        simp)
      rw [unread] at read
      cases read

/-- After a log that is not whole a record is refused, or it is the last. -/
theorem blocked_of_not_whole {log : Option Str} (left : Left python log)
    (torn : ¬Whole python log) {text timestamp : Str} {event : Event}
    (written : auditAppend python log timestamp event.fields = some text) :
    continuation python (some text) = none := by
  cases form_of_left python left with
  | whole chain there => exact absurd (whole_of_chain python chain there) torn
  | @unfinished records prev seq earlier other =>
      obtain ⟨hash, number, rfl⟩ := line_of_auditAppend python written
      obtain ⟨rest, line⟩ :=
        recordLine_eq (recordOf hash number timestamp event)
      have inside : ∀ character ∈
          recordLine (recordOf prev seq earlier other) ++
            recordLine (recordOf hash number timestamp event),
          Lines.isBreak character = false := by
        intro character member
        rcases List.mem_append.mp member with before | after
        · exact recordLine_inside _ character before
        · exact recordLine_inside _ character after
      have visible : Lines.isBlank
          (recordLine (recordOf prev seq earlier other) ++
            recordLine (recordOf hash number timestamp event)) = false := by
        obtain ⟨tail, start⟩ := recordLine_eq (recordOf prev seq earlier other)
        rw [start]
        rfl
      rw [Option.getD_some, List.append_assoc,
        ← List.append_assoc (recordLine _)]
      exact continuation_unread python inside visible
        (loads_joined python ⟨rest, line⟩) (.inr rfl)
  | unread inside visible unread ending =>
      rw [auditAppend_eq_none python
        (continuation_unread python inside visible unread ending)] at written
      cases written

/-- The records that a chain decodes to. -/
theorem auditRecords_logText {log : Option Str} {records : List Fields}
    {prev : Str} (chain : Chain records prev)
    (written : log.getD [] = logText records) :
    auditRecords python log =
      records.map fun record => .object (readRecord record) := by
  have mapped : (records.map fun record => .object (readRecord record)) =
      records.filterMap fun record =>
        some (Json.object (readRecord record)) := by
    rw [← List.filterMap_eq_map]
    rfl
  rw [auditRecords, written, visibleLines_logText, List.filterMap_map, mapped]
  apply List.filterMap_congr
  intro record member
  obtain ⟨hash, seq, timestamp, event, rfl⟩ := exists_recordOf chain member
  exact loads_recordLine python hash seq timestamp event

end PpcLab.Security
