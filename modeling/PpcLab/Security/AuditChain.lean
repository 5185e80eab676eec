import PpcLab.Security.Audit
import Mathlib.Data.Set.Function

/-!
# The chain of audit records

A log that was appended to from nothing is a chain: every record continues the
one before it and carries its own hash.  The verifier accepts such a log.  Two
logs that it accepts are told apart by their heads and their counts as long as
SHA-256 has no collisions among what the two verifications hash.
-/

namespace PpcLab.Security

variable (python : Python)

/-- The record of an event, before its hash. -/
def unsealed (prev : Str) (seq : Int) (timestamp : Str) (event : Event) :
    Fields :=
  (str "schema", .string auditSchema) :: (str "seq", .int seq) ::
    (str "timestamp", .string timestamp) ::
    (str "prev_hash", .string prev) :: event.fields

theorem baseRecord_event (prev : Str) (seq : Int) (timestamp : Str)
    (event : Event) :
    baseRecord prev seq timestamp event.fields =
      unsealed prev seq timestamp event := by
  refine Dictionary.foldl_assign_of_nodup ?_
  have keys : ([str "schema", str "seq", str "timestamp", str "prev_hash",
      str "event", str "method", str "path", str "required_scope",
      str "allowed", str "token_id", str "client"]).Nodup := by
    decide
  exact keys

/-- The record of an event. -/
def recordOf (prev : Str) (seq : Int) (timestamp : Str) (event : Event) :
    Fields :=
  unsealed prev seq timestamp event ++
    [(str "record_hash", .string (hashOf (unsealed prev seq timestamp event)))]

private theorem keys_unsealed (prev : Str) (seq : Int) (timestamp : Str)
    (event : Event) :
    (unsealed prev seq timestamp event).map (·.1) =
      [str "schema", str "seq", str "timestamp", str "prev_hash", str "event",
        str "method", str "path", str "required_scope", str "allowed",
        str "token_id", str "client"] :=
  rfl

private theorem keys_recordOf (prev : Str) (seq : Int) (timestamp : Str)
    (event : Event) :
    (recordOf prev seq timestamp event).map (·.1) =
      [str "schema", str "seq", str "timestamp", str "prev_hash", str "event",
        str "method", str "path", str "required_scope", str "allowed",
        str "token_id", str "client", str "record_hash"] :=
  rfl

theorem sealed_baseRecord (prev : Str) (seq : Int) (timestamp : Str)
    (event : Event) :
    sealed (baseRecord prev seq timestamp event.fields) =
      recordOf prev seq timestamp event := by
  rw [baseRecord_event]
  have new : str "record_hash" ∉ [str "schema", str "seq", str "timestamp",
      str "prev_hash", str "event", str "method", str "path",
      str "required_scope", str "allowed", str "token_id", str "client"] := by
    decide
  exact Dictionary.assign_of_new new

theorem nodup_recordOf (prev : Str) (seq : Int) (timestamp : Str)
    (event : Event) :
    ((recordOf prev seq timestamp event).map (·.1)).Nodup := by
  rw [keys_recordOf]
  decide

/-- A value as it is read back: strings with their surrogates paired. -/
def readBack : Json → Json
  | .string text => .string (paired text)
  | value => value

def readBackFields (fields : Fields) : Fields :=
  fields.map fun member => (member.1, readBack member.2)

private theorem asciiText_readBack (value : Json) :
    (readBack value).asciiText = value.asciiText := by
  cases value with
  | string text => exact Json.asciiText_paired text
  | _ => rfl

/-- A value of a record: no float, and nothing that holds further values. -/
def isFlat : Json → Bool
  | .null | .bool _ | .int _ | .string _ => true
  | .float _ | .array _ | .object _ => false

def Flat (fields : Fields) : Prop :=
  ∀ member ∈ fields, isFlat member.2

private theorem sortedFields_of_flat {fields : Fields} (flat : Flat fields) :
    Json.sortedFields fields = fields := by
  rw [Json.sortedFields_eq_map]
  refine (List.map_congr_left ?_).trans (List.map_id _)
  rintro ⟨key, value⟩ member
  have scalar := flat _ member
  cases value with
  | array | object => cases scalar
  | _ => rfl

private theorem isFlat_readBack (value : Json) :
    isFlat (readBack value) = isFlat value := by
  cases value <;> rfl

private theorem flat_readBackFields {fields : Fields} (flat : Flat fields) :
    Flat (readBackFields fields) := by
  intro member held
  obtain ⟨old, kept, rfl⟩ := List.mem_map.mp held
  exact (isFlat_readBack old.2).trans (flat old kept)

private theorem flat_unsealed (prev : Str) (seq : Int) (timestamp : Str)
    (event : Event) : Flat (unsealed prev seq timestamp event) := by
  have texts (text : Option Str) : isFlat (optional text) := by
    cases text <;> rfl
  intro member held
  simp only [unsealed, Event.fields, List.mem_cons, List.not_mem_nil,
    or_false] at held
  rcases held with rfl | rfl | rfl | rfl | rfl | rfl | rfl | rfl | rfl | rfl |
    rfl
  all_goals first
    | exact texts _
    | rfl

private theorem flat_recordOf (prev : Str) (seq : Int) (timestamp : Str)
    (event : Event) : Flat (recordOf prev seq timestamp event) := by
  intro member held
  rcases List.mem_append.mp held with before | last
  · exact flat_unsealed prev seq timestamp event member before
  · rw [List.mem_singleton.mp last]
    rfl

private theorem asciiText_object_readBack (fields : Fields) :
    (Json.object (readBackFields fields)).asciiText =
      (Json.object fields).asciiText := by
  have more (fields : Fields) :
      inAscii (Json.moreFields (readBackFields fields)) =
        inAscii (Json.moreFields fields) := by
    induction fields with
    | nil => rfl
    | cons member fields induction =>
        have here := asciiText_readBack member.2
        simp only [readBackFields, List.map_cons, Json.moreFields,
          inAscii_cons, inAscii_append] at induction ⊢
        rw [Json.asciiText, Json.asciiText] at here
        rw [here, induction]
  cases fields with
  | nil => rfl
  | cons member fields =>
      have here := asciiText_readBack member.2
      have others := more fields
      simp only [readBackFields, List.map_cons, Json.asciiText, Json.text,
        Json.fieldsText, inAscii_cons, inAscii_append] at here others ⊢
      rw [here, others]

private theorem sortFields_readBackFields (fields : Fields) :
    Json.sortFields (readBackFields fields) =
      readBackFields (Json.sortFields fields) :=
  (List.map_insertionSort Json.byKey Json.byKey
    (fun member => (member.1, readBack member.2)) fields
    fun _ _ _ _ => Iff.rfl).symm

/-- Reading a flat record back does not change its canonical text. -/
private theorem asciiText_sorted_readBack {fields : Fields}
    (flat : Flat fields) :
    (Json.object (readBackFields fields)).sorted.asciiText =
      (Json.object fields).sorted.asciiText := by
  rw [Json.sorted, Json.sorted, sortedFields_of_flat flat,
    sortedFields_of_flat (flat_readBackFields flat), sortFields_readBackFields,
    asciiText_object_readBack]

private theorem readable_readBackFields {fields : Fields} (flat : Flat fields)
    (distinct : (fields.map (·.1)).Nodup)
    (pairedKeys : ∀ key ∈ fields.map (·.1), paired key = key) :
    Json.Readable python.float (.object (readBackFields fields)) := by
  have keys : (readBackFields fields).map (·.1) = fields.map (·.1) := by
    rw [readBackFields, List.map_map]
    rfl
  rw [Json.Readable, keys, Json.readableFields_iff]
  refine ⟨distinct, ?_⟩
  intro member held
  obtain ⟨⟨key, value⟩, kept, rfl⟩ := List.mem_map.mp held
  refine ⟨pairedKeys key (List.mem_map_of_mem kept), ?_⟩
  have scalar := flat _ kept
  cases value with
  | null | bool | int => trivial
  | string text => exact paired_paired text
  | float | array | object => cases scalar

/-- A record as it is read. -/
def readRecord (record : Fields) : Fields :=
  readBackFields (Json.sortFields record)

/-- The line of a record is the text of the record as it is read. -/
theorem recordLine_recordOf (prev : Str) (seq : Int) (timestamp : Str)
    (event : Event) :
    Json.Readable python.float
        (.object (readRecord (recordOf prev seq timestamp event))) ∧
      recordLine (recordOf prev seq timestamp event) =
        (Json.object
          (readRecord (recordOf prev seq timestamp event))).asciiText := by
  let record := recordOf prev seq timestamp event
  have flat := flat_recordOf prev seq timestamp event
  have same : (Json.sortFields record).Perm record :=
    List.perm_insertionSort _ _
  have flatSorted : Flat (Json.sortFields record) := by
    intro member held
    exact flat member (same.mem_iff.mp held)
  have distinct : ((Json.sortFields record).map (·.1)).Nodup := by
    rw [(same.map _).nodup_iff]
    exact nodup_recordOf prev seq timestamp event
  have plain : ∀ key ∈ [str "schema", str "seq", str "timestamp",
      str "prev_hash", str "event", str "method", str "path",
      str "required_scope", str "allowed", str "token_id", str "client",
      str "record_hash"], paired key = key := by
    decide
  have pairedKeys : ∀ key ∈ (Json.sortFields record).map (·.1),
      paired key = key := by
    intro key member
    exact plain key ((same.map _).mem_iff.mp member)
  refine ⟨readable_readBackFields python flatSorted distinct pairedKeys, ?_⟩
  rw [recordLine, Json.sorted, sortedFields_of_flat flat, readRecord,
    asciiText_object_readBack]

/-- A line of the log is read as its record. -/
theorem loads_recordLine (prev : Str) (seq : Int) (timestamp : Str)
    (event : Event) :
    python.loads (recordLine (recordOf prev seq timestamp event)) =
      some (.object (readRecord (recordOf prev seq timestamp event))) := by
  obtain ⟨readable, line⟩ :=
    recordLine_recordOf python prev seq timestamp event
  rw [line]
  exact Json.loads_asciiText python.float readable

private theorem get_readBackFields (fields : Fields) (key : Str) :
    Json.get (readBackFields fields) key = readBack (Json.get fields key) := by
  induction fields with
  | nil => rfl
  | cons member fields induction =>
      obtain ⟨here, value⟩ := member
      rw [readBackFields, List.map_cons, Json.get_cons, Json.get_cons]
      split
      · rfl
      · exact induction

/-- What a record has for a key once it was read. -/
theorem get_readRecord (record : Fields) (key : Str) :
    Json.get (readRecord record) key = readBack (Json.get record key) := by
  rw [readRecord, get_readBackFields, Json.get, Json.get,
    Json.find?_sortFields]

private theorem without_readBackFields (key : Str) (fields : Fields) :
    without key (readBackFields fields) = readBackFields (without key fields) := by
  rw [without, without, readBackFields, readBackFields, List.filter_map]
  rfl

/-- The hash is computed over what was hashed when the record was written. -/
private theorem hashOf_without_readRecord (prev : Str) (seq : Int)
    (timestamp : Str) (event : Event) :
    hashOf (without (str "record_hash")
      (readRecord (recordOf prev seq timestamp event))) =
      hashOf (unsealed prev seq timestamp event) := by
  have alone : without (str "record_hash")
      (recordOf prev seq timestamp event) =
        unsealed prev seq timestamp event := by
    have last (hash : Json) : without (str "record_hash")
        [(str "record_hash", hash)] = [] := by
      rw [without, List.filter_cons_of_neg (by simp)]
      rfl
    have others : without (str "record_hash")
        (unsealed prev seq timestamp event) =
          unsealed prev seq timestamp event := by
      refine List.filter_eq_self.mpr ?_
      intro member held
      have keys : ∀ key ∈ [str "schema", str "seq", str "timestamp",
          str "prev_hash", str "event", str "method", str "path",
          str "required_scope", str "allowed", str "token_id",
          str "client"], key ≠ str "record_hash" := by
        decide
      have listed : member.1 ∈ (unsealed prev seq timestamp event).map (·.1) :=
        List.mem_map_of_mem held
      exact decide_eq_true (keys member.1 listed)
    rw [recordOf, without, List.filter_append]
    exact (congrArg₂ (· ++ ·) others (last _)).trans (List.append_nil _)
  have flat := flat_unsealed prev seq timestamp event
  have same : (Json.sortFields (recordOf prev seq timestamp event)).Perm
      (recordOf prev seq timestamp event) := List.perm_insertionSort _ _
  have kept : (without (str "record_hash")
      (Json.sortFields (recordOf prev seq timestamp event))).Perm
        (unsealed prev seq timestamp event) := by
    have filtered := same.filter fun member =>
      decide (member.1 ≠ str "record_hash")
    rw [← without, ← without, alone] at filtered
    exact filtered
  have flatKept : Flat (without (str "record_hash")
      (Json.sortFields (recordOf prev seq timestamp event))) := by
    intro member held
    exact flat member (kept.mem_iff.mp held)
  have distinct : ((unsealed prev seq timestamp event).map (·.1)).Nodup := by
    rw [keys_unsealed]
    decide
  rw [readRecord, without_readBackFields, hashOf, hashOf, canonical, canonical,
    asciiText_sorted_readBack flatKept, Json.sorted, Json.sorted,
    sortedFields_of_flat flat, sortedFields_of_flat flatKept,
    Json.sortFields_eq_of_perm distinct kept.symm]

theorem paired_of_printable {text : Str}
    (printable : ∀ character ∈ text, character.val < 0x7f) :
    paired text = text := by
  induction text with
  | nil => rfl
  | cons character text induction =>
      have small := printable character List.mem_cons_self
      have notHigh : isHighSurrogate character = false := by
        rw [isHighSurrogate, Bool.and_eq_false_iff, decide_eq_false_iff_not]
        exact .inl (by omega)
      rw [paired_cons_of_not_high text notHigh,
        induction fun other member =>
          printable other (List.mem_cons_of_mem _ member)]

/-- A hash is read back as it was written. -/
private theorem paired_hashOf (fields : Fields) :
    paired (hashOf fields) = hashOf fields := by
  apply paired_of_printable
  intro character member
  rw [hashOf, Sha256.hexdigest, Sha256.settledAll_eq] at member
  obtain ⟨word, _, inWord⟩ := List.mem_flatMap.mp member
  obtain ⟨index, _, rfl⟩ := List.mem_map.mp inWord
  have all : ∀ value : Fin 16,
      (codePoint (Nat.digitChar value.val)).val < 0x7f := by
    decide
  exact all ⟨_, Nat.mod_lt _ (by decide)⟩

private theorem paired_zeros : paired zeros = zeros := by
  decide

/-- Records of events, each continuing the one before, and the last hash. -/
inductive Chain : List Fields → Str → Prop where
  | start : Chain [] zeros
  | next {records : List Fields} {prev : Str} (timestamp : Str)
      (event : Event) :
      Chain records prev →
      Chain (records ++
          [recordOf prev (records.length + 1) timestamp event])
        (hashOf (unsealed prev (records.length + 1) timestamp event))

def logText (records : List Fields) : Str :=
  records.flatMap fun record => recordLine record ++ [Json.lineFeed]

private theorem paired_of_chain {records : List Fields} {prev : Str}
    (chain : Chain records prev) : paired prev = prev := by
  cases chain with
  | start => exact paired_zeros
  | next timestamp event before => exact paired_hashOf _

theorem recordLine_eq (record : Fields) :
    ∃ rest, recordLine record = 0x7b :: rest :=
  ⟨_, rfl⟩

theorem recordLine_inside (record : Fields) :
    ∀ character ∈ recordLine record, Lines.isBreak character = false := by
  intro character member
  have printable := Json.printable_of_mem_inAscii member
  rw [Bool.eq_false_iff]
  simp only [Lines.isBreak, ne_eq, Bool.or_eq_true, Bool.and_eq_true,
    decide_eq_true_eq, beq_iff_eq]
  omega

theorem recordLine_visible (record : Fields) :
    Lines.isBlank (recordLine record) = false := by
  obtain ⟨rest, line⟩ := recordLine_eq record
  rw [line, Lines.isBlank, List.all_cons]
  have open_ : Lines.isWhite 0x7b = false := by
    decide
  rw [open_, Bool.false_and]

/-- The lines of a log are the records. -/
theorem splitLines_logText (records : List Fields) :
    Lines.splitLines (logText records) = records.map recordLine := by
  induction records with
  | nil => rfl
  | cons record records induction =>
      rw [logText, List.flatMap_cons, List.append_assoc,
        List.singleton_append]
      rw [show (Json.lineFeed : CodePoint) = 0x0a from rfl,
        Lines.splitLines_append (recordLine_inside record)]
      exact congrArg _ induction

theorem visibleLines_logText (records : List Fields) :
    ((Lines.splitLines (logText records)).filter fun line =>
      !Lines.isBlank line) = records.map recordLine := by
  rw [splitLines_logText]
  refine List.filter_eq_self.mpr ?_
  intro line member
  obtain ⟨record, _, rfl⟩ := List.mem_map.mp member
  rw [recordLine_visible]
  rfl

private theorem get_schema (prev : Str) (seq : Int) (timestamp : Str)
    (event : Event) :
    Json.get (recordOf prev seq timestamp event) (str "schema") =
      .string auditSchema :=
  rfl

private theorem find?_eq_some_of_get {fields : Fields} {key : Str}
    {value : Json} (there : Json.get fields key = value)
    (some : value ≠ .null) : Json.find? fields key = .some value := by
  rw [Json.get] at there
  cases found : Json.find? fields key with
  | none =>
      rw [found] at there
      exact absurd there.symm some
  | some other =>
      rw [found] at there
      exact congrArg Option.some there

private theorem gets_recordOf (prev : Str) (seq : Int) (timestamp : Str)
    (event : Event) :
    Json.get (recordOf prev seq timestamp event) (str "seq") = .int seq ∧
      Json.get (recordOf prev seq timestamp event) (str "prev_hash") =
        .string prev ∧
      Json.get (recordOf prev seq timestamp event) (str "record_hash") =
        .string (hashOf (unsealed prev seq timestamp event)) := by
  have differ : ∀ key ∈ [str "schema", str "seq", str "timestamp",
      str "prev_hash", str "event", str "method", str "path",
      str "required_scope", str "allowed", str "token_id", str "client"],
      key ≠ str "record_hash" := by
    decide
  have seqDiffers : str "schema" ≠ str "seq" := by
    decide
  have prevDiffers : ∀ key ∈ [str "schema", str "seq", str "timestamp"],
      key ≠ str "prev_hash" := by
    decide
  refine ⟨?_, ?_, ?_⟩
  · rw [recordOf, unsealed, List.cons_append, List.cons_append,
      Json.get_cons, if_neg seqDiffers, Json.get_cons, if_pos rfl]
  · simp only [recordOf, unsealed, List.cons_append]
    rw [Json.get_cons, if_neg (prevDiffers _ (by simp)), Json.get_cons,
      if_neg (prevDiffers _ (by simp)), Json.get_cons,
      if_neg (prevDiffers _ (by simp)), Json.get_cons, if_pos rfl]
  · have skip (fields rest : Fields)
        (others : ∀ member ∈ fields, member.1 ≠ str "record_hash") :
        Json.get (fields ++ rest) (str "record_hash") =
          Json.get rest (str "record_hash") := by
      induction fields with
      | nil => rfl
      | cons member fields induction =>
          obtain ⟨key, value⟩ := member
          rw [List.cons_append, Json.get_cons,
            if_neg (others _ List.mem_cons_self)]
          exact induction fun other held =>
            others other (List.mem_cons_of_mem _ held)
    rw [recordOf, skip, Json.get_cons, if_pos rfl]
    intro member held
    exact differ member.1 (List.mem_map_of_mem held)

/-- The next record continues from the last one. -/
theorem continuation_logText {log : Option Str} {records : List Fields}
    {prev : Str} (chain : Chain records prev)
    (written : log.getD [] = logText records) :
    continuation python log = some (prev, (records.length : Int) + 1) := by
  unfold continuation
  rw [written, visibleLines_logText]
  cases chain with
  | start => rfl
  | @next records prev timestamp event before =>
      have seqRead := (gets_recordOf prev (records.length + 1) timestamp event).1
      have hashRead :=
        (gets_recordOf prev (records.length + 1) timestamp event).2.2
      have seqFound := find?_eq_some_of_get
        ((get_readRecord _ (str "seq")).trans (congrArg readBack seqRead)) nofun
      have hashFound := find?_eq_some_of_get
        ((get_readRecord _ (str "record_hash")).trans
          (congrArg readBack hashRead)) nofun
      rw [List.map_append, List.map_singleton, List.getLast?_concat]
      dsimp only
      rw [loads_recordLine, Option.bind_some, Json.asObject?,
        Option.bind_some, continued, seqFound, hashFound, List.length_append,
        List.length_singleton]
      dsimp only [readBack, Option.elim_some, Option.getD_some]
      rw [paired_hashOf]
      rfl

/-- Appending to a chain goes on with the chain. -/
theorem auditAppend_logText {log : Option Str} {records : List Fields}
    {prev : Str} (chain : Chain records prev)
    (written : log.getD [] = logText records) (timestamp : Str)
    (event : Event) :
    auditAppend python log timestamp event.fields =
      some (logText (records ++
        [recordOf prev (records.length + 1) timestamp event])) := by
  rw [auditAppend, continuation_logText python chain written,
    Option.bind_eq_bind, Option.bind_some]
  dsimp only
  rw [sealed_baseRecord, written, logText, logText, List.flatMap_append,
    List.flatMap_singleton]
  rfl

theorem storedHash_of_string {record : Fields} {hash : Str}
    (stored : Json.get record (str "record_hash") = .string hash) :
    storedHash python record = hash := by
  rw [storedHash, stored]
  cases hash <;> rfl

private theorem verifyLine_recordLine {prev : Str} (pairedPrev : paired prev = prev)
    (seq : Int) (timestamp : Str) (event : Event) (count number : Nat) :
    verifyLine python ⟨prev, count, []⟩ number
        (recordLine (recordOf prev seq timestamp event)) =
      some ⟨hashOf (unsealed prev seq timestamp event), count + 1, []⟩ := by
  obtain ⟨_, prevRead, hashRead⟩ := gets_recordOf prev seq timestamp event
  have schema := (get_readRecord _ (str "schema")).trans
    (congrArg readBack (get_schema prev seq timestamp event))
  have previous := (get_readRecord _ (str "prev_hash")).trans
    (congrArg readBack prevRead)
  have stored := (get_readRecord _ (str "record_hash")).trans
    (congrArg readBack hashRead)
  have schemaPaired : paired auditSchema = auditSchema := by
    decide
  rw [readBack, schemaPaired] at schema
  rw [readBack, pairedPrev] at previous
  rw [readBack, paired_hashOf] at stored
  have faultless : recordFaults prev
      (readRecord (recordOf prev seq timestamp event)) = [] := by
    rw [recordFaults, schema, previous, stored, hashOf_without_readRecord]
    simp
  unfold verifyLine
  rw [recordLine_visible, if_neg Bool.false_ne_true, loads_recordLine]
  dsimp only [Json.asObject?]
  rw [Option.bind_eq_bind, Option.bind_some, faultless,
    storedHash_of_string python stored]
  rfl

private theorem verifyLines_append (progress : Progress) (number : Nat)
    (first second : List Str) :
    verifyLines python progress number (first ++ second) =
      (verifyLines python progress number first).bind fun next =>
        verifyLines python next (number + first.length) second := by
  induction first generalizing progress number with
  | nil => rfl
  | cons line first induction =>
      rw [List.cons_append, verifyLines, verifyLines, Option.bind_eq_bind,
        Option.bind_assoc]
      refine congrArg _ (funext fun next => ?_)
      rw [induction, List.length_cons, Nat.add_assoc, Nat.add_comm 1]

private theorem verifyLines_chain {records : List Fields} {prev : Str}
    (chain : Chain records prev) :
    verifyLines python .start 1 (records.map recordLine) =
      some ⟨prev, records.length, []⟩ := by
  induction chain with
  | start => rfl
  | @next records prev timestamp event before induction =>
      rw [List.map_append, List.map_singleton, verifyLines_append, induction,
        Option.bind_some, verifyLines,
        verifyLine_recordLine python (paired_of_chain before),
        Option.bind_eq_bind, Option.bind_some, verifyLines,
        List.length_append, List.length_singleton]

/-- A chain is accepted with all of its records. -/
theorem auditVerify_logText {records : List Fields} {prev : Str}
    (chain : Chain records prev) :
    auditVerify python (some (logText records)) =
      some ⟨records.length, some prev, []⟩ := by
  rw [auditVerify, splitLines_logText, verifyLines_chain python chain]
  rfl

/-- The log after events were appended one after the other. -/
def appended (log : Option Str) (events : List (Str × Event)) :
    Option (Option Str) :=
  events.foldlM (fun log entry =>
    (auditAppend python log entry.1 entry.2.fields).map some) log

private theorem appended_chain {log : Option Str} {records : List Fields}
    {prev : Str} (chain : Chain records prev)
    (written : log.getD [] = logText records) (events : List (Str × Event)) :
    ∃ final more last, appended python log events = some final ∧
      Chain (records ++ more) last ∧ more.length = events.length ∧
      final.getD [] = logText (records ++ more) ∧
      (events ≠ [] → final.isSome) := by
  induction events generalizing log records prev with
  | nil =>
      refine ⟨log, [], prev, rfl, ?_, rfl, ?_, fun none => absurd rfl none⟩
      · rw [List.append_nil]
        exact chain
      · rw [List.append_nil]
        exact written
  | cons entry events induction =>
      have step := auditAppend_logText python chain written entry.1 entry.2
      have written : (some (logText (records ++
          [recordOf prev (records.length + 1) entry.1 entry.2]))).getD [] =
            logText (records ++
              [recordOf prev (records.length + 1) entry.1 entry.2]) := rfl
      obtain ⟨final, more, last, ran, whole, length, text, there⟩ :=
        induction (.next entry.1 entry.2 chain) written
      refine ⟨final, recordOf prev (records.length + 1) entry.1 entry.2 :: more,
        last, ?_, ?_, congrArg (· + 1) length, ?_, ?_⟩
      · rw [appended, List.foldlM_cons, step]
        exact ran
      · rw [List.append_cons]
        exact whole
      · rw [List.append_cons]
        exact text
      · intro _
        by_cases none : events = []
        · subst none
          cases ran
          rfl
        · exact there none

/-- A log built from nothing is accepted with one record for each event. -/
theorem auditVerify_appended (events : List (Str × Event)) :
    ∃ log report, appended python none events = some log ∧
      auditVerify python log = some report ∧ report.ok ∧
      report.records = events.length := by
  obtain ⟨final, more, last, ran, chain, length, text, there⟩ :=
    @appended_chain python none [] zeros .start rfl events
  rw [List.nil_append] at chain text
  cases final with
  | none =>
      have empty : events = [] := by
        by_contra some
        cases there some
      subst empty
      exact ⟨none, _, ran, rfl, rfl, rfl⟩
  | some log =>
      rw [Option.getD_some] at text
      subst text
      exact ⟨_, _, ran, auditVerify_logText python chain, rfl, length⟩

/-- What is hashed to verify a log. -/
def hashed (log : Option Str) : Set (List Byte) :=
  { bytes | ∃ record, Json.object record ∈ auditRecords python log ∧
    bytes = canonical (.object (without (str "record_hash") record)) }

/-- Records without a fault, from the hash before them to the last one. -/
def Linked : Str → List Fields → Str → Prop
  | prev, [], head => prev = head
  | prev, record :: records, head =>
      recordFaults prev record = [] ∧
        Linked (hashOf (without (str "record_hash") record)) records head

private theorem linked_concat {prev head : Str} {records : List Fields}
    {record : Fields} :
    Linked prev (records ++ [record]) head ↔
      ∃ middle, Linked prev records middle ∧
        recordFaults middle record = [] ∧
        hashOf (without (str "record_hash") record) = head := by
  induction records generalizing prev with
  | nil =>
      constructor
      · rintro ⟨faultless, last⟩
        exact ⟨prev, rfl, faultless, last⟩
      · rintro ⟨middle, rfl, faultless, last⟩
        exact ⟨faultless, last⟩
  | cons first records induction =>
      rw [List.cons_append, Linked, induction]
      constructor
      · rintro ⟨faultless, middle, linked, rest⟩
        exact ⟨middle, ⟨faultless, linked⟩, rest⟩
      · rintro ⟨middle, ⟨faultless, linked⟩, rest⟩
        exact ⟨faultless, middle, linked, rest⟩

/-- What a record without a fault says. -/
private theorem links_of_faultless {prev : Str} {record : Fields}
    (faultless : recordFaults prev record = []) :
    Json.get record (str "prev_hash") = .string prev ∧
      Json.get record (str "record_hash") =
        .string (hashOf (without (str "record_hash") record)) := by
  simp only [recordFaults, List.append_eq_nil_iff, ite_eq_right_iff,
    List.cons_ne_nil, imp_false, not_not] at faultless
  exact ⟨faultless.1.2, faultless.2⟩

private theorem verifyLines_linked {lines : List Str} {progress final : Progress}
    {number : Nat}
    (ran : verifyLines python progress number lines = some final)
    (faultless : final.errors = []) :
    progress.errors = [] ∧ ∃ records : List Fields,
      (lines.filter fun line => !Lines.isBlank line).filterMap python.loads =
        records.map .object ∧
      progress.count + records.length = final.count ∧
      Linked progress.prev records final.prev := by
  induction lines generalizing progress number with
  | nil =>
      cases ran
      exact ⟨faultless, [], rfl, rfl, rfl⟩
  | cons line lines induction =>
      obtain ⟨next, step, rest⟩ := Option.bind_eq_some_iff.mp ran
      obtain ⟨clean, records, decoded, count, linked⟩ := induction rest
      unfold verifyLine at step
      split at step
      · rename_i blank
        cases step
        refine ⟨clean, records, ?_, count, linked⟩
        rw [List.filter_cons_of_neg (by simp [blank])]
        exact decoded
      · rename_i visible
        split at step
        · cases step
          simp at clean
        · rename_i value loaded
          obtain ⟨record, isRecord, step⟩ := Option.bind_eq_some_iff.mp step
          cases step
          obtain ⟨before, none⟩ := List.append_eq_nil_iff.mp clean
          have faults := List.map_eq_nil_iff.mp none
          have object : value = .object record := by
            cases value with
            | object fields => exact congrArg _ (Option.some.inj isRecord)
            | _ => cases isRecord
          subst object
          have stored := storedHash_of_string python
            (links_of_faultless faults).2
          refine ⟨before, record :: records, ?_, ?_, faults, ?_⟩
          · rw [List.filter_cons_of_pos (by simp [visible]),
              List.filterMap_cons_some loaded, decoded]
            rfl
          · rw [List.length_cons, ← count]
            dsimp only
            omega
          · rw [← stored]
            exact linked

/-- The records of an accepted log are linked from the first to the head. -/
private theorem linked_of_ok {log : Option Str} {report : AuditReport}
    (verified : auditVerify python log = some report) (ok : report.ok) :
    ∃ records last, auditRecords python log = records.map .object ∧
      records.length = report.records ∧ Linked zeros records last ∧
      (records ≠ [] → report.head = some last) := by
  cases log with
  | none =>
      cases verified
      exact ⟨[], zeros, rfl, rfl, rfl, fun none => absurd rfl none⟩
  | some text =>
      obtain ⟨progress, ran, rfl⟩ := Option.map_eq_some_iff.mp verified
      obtain ⟨_, records, decoded, count, linked⟩ :=
        verifyLines_linked python ran (List.isEmpty_iff.mp ok)
      refine ⟨records, progress.prev, decoded, ?_, linked, fun _ => rfl⟩
      exact (Nat.zero_add _).symm.trans count

private theorem asciiByte_injOn {first second : Str}
    (printable : ∀ character ∈ first, character.val < 0x7f)
    (otherPrintable : ∀ character ∈ second, character.val < 0x7f)
    (same : first.map asciiByte = second.map asciiByte) : first = second := by
  induction first generalizing second with
  | nil => exact (List.map_eq_nil_iff.mp same.symm).symm
  | cons head first induction =>
      cases second with
      | nil => cases same
      | cons other second =>
          obtain ⟨heads, tails⟩ := List.cons.inj same
          have small := printable head List.mem_cons_self
          have otherSmall := otherPrintable other List.mem_cons_self
          have equal : head = other := by
            rw [asciiByte, asciiByte, ← BitVec.toNat_inj, BitVec.toNat_ofNat,
              BitVec.toNat_ofNat, Nat.mod_eq_of_lt (by omega),
              Nat.mod_eq_of_lt (by omega)] at heads
            exact Fin.ext heads
          rw [equal, induction
            (fun character member =>
              printable character (List.mem_cons_of_mem _ member))
            (fun character member =>
              otherPrintable character (List.mem_cons_of_mem _ member)) tails]

/-- Canonical bytes tell values apart that were read. -/
theorem sorted_eq_of_canonical {first second : Json}
    (readable : Json.Readable python.float first)
    (otherReadable : Json.Readable python.float second)
    (same : canonical first = canonical second) :
    first.sorted = second.sorted := by
  refine Json.asciiText_injective python.float
    (Json.readable_sorted python.float first readable)
    (Json.readable_sorted python.float second otherReadable)
    (asciiByte_injOn ?_ ?_ same)
  · intro character member
    exact (Json.printable_of_mem_inAscii member).2
  · intro character member
    exact (Json.printable_of_mem_inAscii member).2

private theorem readable_without {record : Fields} (key : Str)
    (readable : Json.Readable python.float (.object record)) :
    Json.Readable python.float (.object (without key record)) := by
  rw [Json.Readable, Json.readableFields_iff] at readable ⊢
  have kept : (without key record).Sublist record := List.filter_sublist
  refine ⟨readable.1.sublist (kept.map _), ?_⟩
  intro member held
  exact readable.2 member (kept.subset held)

private theorem get_without {key other : Str} (differ : other ≠ key)
    (record : Fields) :
    Json.get (without key record) other = Json.get record other := by
  induction record with
  | nil => rfl
  | cons member record induction =>
      obtain ⟨here, value⟩ := member
      rw [Json.get_cons, without]
      by_cases removed : here = key
      · rw [List.filter_cons_of_neg (by simp [removed]),
          if_neg fun same => differ (same.symm.trans removed)]
        exact induction
      · rw [List.filter_cons_of_pos (by simp [removed]), Json.get_cons]
        split
        · rfl
        · exact induction

/-- A record is known from its hash and from the rest of it. -/
private theorem sortedObject_of_without {key : Str} {value : Json}
    {record : Fields} (distinct : (record.map (·.1)).Nodup)
    (there : Json.get record key = value) (some : value ≠ .null) :
    Json.sortedObject record = Json.sortFields
      ((key, value.sorted) :: Json.sortedObject (without key record)) := by
  have found := find?_eq_some_of_get there some
  have member : (key, value) ∈ record := by
    obtain ⟨entry, first, same⟩ := Option.map_eq_some_iff.mp found
    have isKey : entry.1 = key := by
      simpa using List.find?_some first
    rw [← isKey, ← same]
    exact List.mem_of_find?_eq_some first
  have parted : record.Perm ((key, value) :: without key record) := by
    clear found there
    induction record with
    | nil => cases member
    | cons head record induction =>
        obtain ⟨new, distinct⟩ := List.nodup_cons.mp distinct
        rcases List.mem_cons.mp member with rfl | later
        · have others : without key record = record := by
            refine List.filter_eq_self.mpr ?_
            intro other held
            rw [decide_eq_true_eq]
            intro same
            exact new (List.mem_map.mpr ⟨other, held, same⟩)
          rw [without, List.filter_cons_of_neg (by simp), ← without, others]
        · have differ : head.1 ≠ key := by
            intro same
            exact new (List.mem_map.mpr ⟨_, later, same.symm⟩)
          rw [without, List.filter_cons_of_pos (by simpa using differ),
            ← without]
          exact ((induction distinct later).cons head).trans (.swap _ _ _)
  have keys : (Json.sortedFields record).map (·.1) = record.map (·.1) := by
    rw [Json.sortedFields_eq_map, List.map_map]
    rfl
  refine Json.sortFields_eq_of_perm (keys ▸ distinct) ?_
  rw [Json.sortedFields_eq_map]
  refine (parted.map _).trans ?_
  rw [List.map_cons, ← Json.sortedFields_eq_map]
  exact (List.perm_insertionSort _ _).symm.cons _

/-- Linked records with the same last hash are the same. -/
private theorem linked_eq {first second : List Fields} {prev otherPrev head : Str}
    (readable : ∀ record ∈ first ++ second,
      Json.Readable python.float (.object record))
    (collisionFree : Set.InjOn Sha256.hexdigest { bytes |
      ∃ record ∈ first ++ second,
        bytes = canonical (.object (without (str "record_hash") record)) })
    (lengths : first.length = second.length)
    (linked : Linked prev first head) (otherLinked : Linked otherPrev second head) :
    first.map Json.sortedObject = second.map Json.sortedObject := by
  induction first using List.reverseRecOn generalizing second head with
  | nil => rw [List.eq_nil_of_length_eq_zero lengths.symm]
  | append_singleton first record induction =>
      obtain rfl | ⟨second, other, rfl⟩ := List.eq_nil_or_concat second
      · simp at lengths
      rw [List.concat_eq_append] at readable collisionFree lengths otherLinked ⊢
      obtain ⟨middle, linked, faultless, rfl⟩ := linked_concat.mp linked
      obtain ⟨otherMiddle, otherLinked, otherFaultless, heads⟩ :=
        linked_concat.mp otherLinked
      have here := readable record (by simp)
      have there := readable other (by simp)
      have bytes := collisionFree ⟨other, by simp, rfl⟩ ⟨record, by simp, rfl⟩
        heads
      have rests := sorted_eq_of_canonical python
        (readable_without python _ there) (readable_without python _ here) bytes
      have sortedRests := Json.object.inj rests
      obtain ⟨previous, stored⟩ := links_of_faultless faultless
      obtain ⟨otherPrevious, otherStored⟩ := links_of_faultless otherFaultless
      have differ : str "prev_hash" ≠ str "record_hash" := by
        decide
      have middles : otherMiddle = middle := by
        have got := congrArg (Json.get · (str "prev_hash")) sortedRests
        rw [← Json.sortedObject, ← Json.sortedObject, Json.get_sorted,
          Json.get_sorted, get_without differ, get_without differ, previous,
          otherPrevious] at got
        exact Json.string.inj got
      subst middles
      have before := induction
        (fun record member => readable record (by
          rcases List.mem_append.mp member with left | right
          · simp [left]
          · simp [right]))
        (collisionFree.mono (by
          rintro bytes ⟨record, member, same⟩
          refine ⟨record, ?_, same⟩
          rcases List.mem_append.mp member with left | right
          · simp [left]
          · simp [right]))
        (by simpa using lengths) linked otherLinked
      have last : Json.sortedObject record = Json.sortedObject other := by
        rw [Json.Readable] at here there
        rw [heads] at otherStored
        rw [sortedObject_of_without here.1 stored (by simp),
          sortedObject_of_without there.1 otherStored (by simp)]
        exact congrArg (fun rest => Json.sortFields (_ :: rest))
          sortedRests.symm
      rw [List.map_append, List.map_append, before, List.map_singleton,
        List.map_singleton, last]

/-- Every log that is built by appending is accepted, and accepted logs with
the same head and count hold the same records. -/
theorem accepted_logs_tell_records :
    (∀ events : List (Str × Event), ∃ log report,
      appended python none events = some log ∧
        auditVerify python log = some report ∧ report.ok ∧
        report.records = events.length) ∧
    (∀ first second report otherReport,
      auditVerify python first = some report → report.ok →
      auditVerify python second = some otherReport → otherReport.ok →
      report.head = otherReport.head →
      report.records = otherReport.records →
      Set.InjOn Sha256.hexdigest (hashed python first ∪ hashed python second) →
      (auditRecords python first).map Json.sorted =
        (auditRecords python second).map Json.sorted) := by
  refine ⟨auditVerify_appended python, ?_⟩
  intro first second report otherReport verified ok otherVerified otherOk heads
    counts collisionFree
  obtain ⟨records, last, decoded, count, linked, head⟩ :=
    linked_of_ok python verified ok
  obtain ⟨others, otherLast, otherDecoded, otherCount, otherLinked,
    otherHead⟩ := linked_of_ok python otherVerified otherOk
  have lengths : records.length = others.length := by
    rw [count, counts, otherCount]
  have readable {log : Option Str} {value : Json}
      (member : value ∈ auditRecords python log) :
      Json.Readable python.float value := by
    obtain ⟨line, _, loaded⟩ := List.mem_filterMap.mp member
    exact Json.readable_of_loads python.float python.readsBack loaded
  have objects (records : List Fields) :
      (records.map Json.object).map Json.sorted =
        (records.map Json.sortedObject).map Json.object := by
    rw [List.map_map, List.map_map]
    rfl
  have same : records.map Json.sortedObject = others.map Json.sortedObject := by
    by_cases none : records = []
    · subst none
      rw [List.eq_nil_of_length_eq_zero lengths.symm]
    · have others_ne : others ≠ [] := by
        rintro rfl
        exact none (List.eq_nil_of_length_eq_zero lengths)
      have lasts : otherLast = last := by
        have here := head none
        rw [heads, otherHead others_ne] at here
        exact Option.some.inj here
      subst lasts
      refine linked_eq python ?_ (collisionFree.mono ?_) lengths linked
        otherLinked
      · intro record member
        rcases List.mem_append.mp member with left | right
        · exact readable (decoded ▸ List.mem_map_of_mem left)
        · exact readable (otherDecoded ▸ List.mem_map_of_mem right)
      · rintro bytes ⟨record, member, rfl⟩
        rcases List.mem_append.mp member with left | right
        · exact .inl ⟨record, decoded ▸ List.mem_map_of_mem left, rfl⟩
        · exact .inr ⟨record, otherDecoded ▸ List.mem_map_of_mem right, rfl⟩
  rw [decoded, otherDecoded, objects, objects, same]

/-- The log of one request. -/
private def oneRequest : Str :=
  str "\x7b\"allowed\":true,\"client\":\"127.0.0.1\"," ++
  str "\"event\":\"api.authorization\",\"method\":\"GET\"," ++
  str "\"path\":\"/v1/health\",\"prev_hash\":\"" ++ zeros ++
  str "\",\"record_hash\":\"6f1d3dc939d7cd6f319d142af90887ab" ++
  str "912eea42f3ab4ac4af276317a7be1511\"," ++
  str "\"required_scope\":\"status:read\"," ++
  str "\"schema\":\"ppc-lab-audit-record-v1\",\"seq\":1," ++
  str "\"timestamp\":\"2026-01-01T00:00:00Z\",\"token_id\":\"legacy\"\x7d\n"

/-- The same record, written by another program. -/
private def rewritten : Str :=
  str "\n \x7b\"seq\": 1, \"client\": \"127.0.0.1\", " ++
  str "\"event\": \"api.authorization\", \"method\": \"GET\", " ++
  str "\"path\": \"/v1/health\", \"prev_hash\": \"" ++ zeros ++
  str "\", \"record_hash\": \"6f1d3dc939d7cd6f319d142af90887ab" ++
  str "912eea42f3ab4ac4af276317a7be1511\", " ++
  str "\"required_scope\": \"status:read\", \"allowed\": true, " ++
  str "\"schema\": \"ppc-lab-audit-record-v1\", " ++
  str "\"timestamp\": \"2026-01-01T00:00:00Z\", \"token_id\": " ++
  str "\"\\u006cegacy\"\x7d"

/-- The head of both. -/
private def requestHash : Str :=
  str "6f1d3dc939d7cd6f319d142af90887ab912eea42f3ab4ac4af276317a7be1511"

private def request : Event :=
  ⟨str "GET", str "/v1/health", str "status:read", true,
    some (str "legacy"), some (str "127.0.0.1")⟩

private theorem hashed_requests : ∀ log ∈ [oneRequest, rewritten],
    ∀ value ∈ auditRecords Python.ascii (some log),
      canonical (.object (without (str "record_hash") value.dict)) =
        canonical (.object
          (unsealed zeros 1 (str "2026-01-01T00:00:00Z") request)) := by
  decide +kernel

theorem accepted_logs_tell_records_rewritten :
    (auditRecords Python.ascii (some oneRequest)).map Json.sorted =
      (auditRecords Python.ascii (some rewritten)).map Json.sorted := by
  have verified : auditVerify Python.ascii (some oneRequest) =
      some ⟨1, some requestHash, []⟩ := by
    decide +kernel
  have otherVerified : auditVerify Python.ascii (some rewritten) =
      some ⟨1, some requestHash, []⟩ := by
    decide +kernel
  refine (accepted_logs_tell_records Python.ascii).2 _ _ _ _ verified rfl
    otherVerified rfl rfl rfl ?_
  have single : ∀ bytes ∈ hashed Python.ascii (some oneRequest) ∪
      hashed Python.ascii (some rewritten), bytes = canonical (.object
        (unsealed zeros 1 (str "2026-01-01T00:00:00Z") request)) := by
    rintro bytes (⟨record, member, rfl⟩ | ⟨record, member, rfl⟩)
    · exact hashed_requests oneRequest (by simp) _ member
    · exact hashed_requests rewritten (by simp) _ member
  intro first here second there _
  rw [single first here, single second there]

end PpcLab.Security
