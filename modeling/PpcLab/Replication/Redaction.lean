import PpcLab.Replication.Bundle

/-!
# Control history in a bundle

The history of a control root is copied record by record.  The paths at the top
of a record are left out; those in the summary of the scheduler, which is a
part of the record, are not.
-/

namespace PpcLab.Replication

open Json

inductive HistoryLine where
  | blank
  | malformed (reason : Str)
  | json (value : Json)
  deriving DecidableEq

structure ControlRoot where
  initialized : Bool
  history : Option (List HistoryLine)
  deriving DecidableEq

inductive HistoryFailure where
  | notInitialized
  | malformed (line : Nat) (reason : Str)
  | notObject (line : Nat)
  | encoding
  deriving DecidableEq

/-- The text of a `ReplicationError`. -/
def HistoryFailure.message (control : Str) : HistoryFailure → Option Str
  | .notInitialized =>
      some ("control plane is not initialized: " ++ control)
  | .malformed line reason =>
      some ("invalid control history line " ++ Text.decimal line ++ ": " ++
        reason)
  | .notObject line =>
      some ("control history line " ++ Text.decimal line ++
        " is not an object")
  | .encoding => none

def strippedKeys : List Str :=
  ["manifest", "run_out", "log_path", "scheduler_tool"]

/-- A record without the fields that name places of the host. -/
def safe (record : Fields) : Fields :=
  record.filter fun member => member.1 ∉ strippedKeys

def collectRecords : Nat → List HistoryLine →
    Except HistoryFailure (List Fields)
  | _, [] => .ok []
  | line, .blank :: lines => collectRecords (line + 1) lines
  | line, .malformed reason :: _ => .error (.malformed line reason)
  | line, .json (.object record) :: lines =>
      match collectRecords (line + 1) lines with
      | .ok records => .ok (safe record :: records)
      | .error failure => .error failure
  | line, .json _ :: _ => .error (.notObject line)

def encodeRecords : List Fields → Except HistoryFailure (List Canonical)
  | [] => .ok []
  | record :: records =>
      match Canonical.of? (.object record), encodeRecords records with
      | some text, .ok texts => .ok (text :: texts)
      | _, _ => .error .encoding

/-- `collect_control_history` -/
def collectControlHistory (root : ControlRoot) :
    Except HistoryFailure (List Member) :=
  if root.initialized then
    match root.history with
    | none => .ok []
    | some lines =>
        match collectRecords 1 lines with
        | .error failure => .error failure
        | .ok records =>
            match encodeRecords records with
            | .error failure => .error failure
            | .ok texts =>
                .ok (if texts.isEmpty then [] else [⟨.history, texts⟩])
  else .error .notInitialized

/-- Change the members with some keys. -/
def onMembers (keys : List Str) (change : Json → Json) (fields : Fields) :
    Fields :=
  fields.map fun member =>
    (member.1, if member.1 ∈ keys then change member.2 else member.2)

/-- Keep the members with some keys. -/
def keepMembers (keys : List Str) (keep : Json → Json) (fields : Fields) :
    Fields :=
  (fields.filter (·.1 ∈ keys)).map fun member => (member.1, keep member.2)

def onObject (change : Fields → Fields) : Json → Json
  | .object fields => .object (change fields)
  | value => value

def onArray (change : Json → Json) : Json → Json
  | .array items => .array (items.map change)
  | value => value

/-- Values that agree where nothing is hidden are printed alike exactly if they
agree in what is kept. -/
def Exposes (hide keep : Json → Json) : Prop :=
  ∀ first second, hide first = hide second →
    (sorted first = sorted second ↔ keep first = keep second)

theorem exposes_whole : Exposes (fun _ => .null) sorted :=
  fun _ _ _ => Iff.rfl

private theorem keys_onMembers (keys : List Str) (change : Json → Json)
    (fields : Fields) :
    (onMembers keys change fields).map (·.1) = fields.map (·.1) := by
  rw [onMembers, List.map_map]
  rfl

private theorem sortedFields_iff {hide keep : Json → Json}
    (exposes : Exposes hide keep) (keys : List Str) {first second : Fields}
    (alike : onMembers keys hide first = onMembers keys hide second) :
    sortedFields first = sortedFields second ↔
      keepMembers keys keep first = keepMembers keys keep second := by
  induction first generalizing second with
  | nil =>
      cases second with
      | nil => exact Iff.rfl
      | cons other second => cases alike
  | cons head first induction =>
      cases second with
      | nil => cases alike
      | cons other second =>
          obtain ⟨heads, tails⟩ := List.cons.inj alike
          obtain ⟨sameKey, sameValue⟩ := Prod.mk.inj heads
          obtain ⟨key, value⟩ := head
          obtain ⟨otherKey, otherValue⟩ := other
          dsimp only at sameKey sameValue
          subst sameKey
          have rest := induction tails
          rw [sortedFields, sortedFields, keepMembers, keepMembers]
          by_cases hidden : key ∈ keys
          · rw [if_pos hidden, if_pos hidden] at sameValue
            have here := exposes _ _ sameValue
            rw [keepMembers, keepMembers] at rest
            rw [List.filter_cons_of_pos (by simpa using hidden),
              List.filter_cons_of_pos (by simpa using hidden)]
            simp [here, rest]
          · rw [if_neg hidden, if_neg hidden] at sameValue
            rw [keepMembers, keepMembers] at rest
            rw [List.filter_cons_of_neg (by simpa using hidden),
              List.filter_cons_of_neg (by simpa using hidden)]
            simp [sameValue, rest]

theorem sortedObject_iff {hide keep : Json → Json}
    (exposes : Exposes hide keep) (keys : List Str) {first second : Fields}
    (alike : onMembers keys hide first = onMembers keys hide second) :
    sortedObject first = sortedObject second ↔
      keepMembers keys keep first = keepMembers keys keep second := by
  rw [← sortedFields_iff exposes keys alike]
  constructor
  · intro same
    apply sortFields_injective _ same
    have sameKeys := congrArg (List.map Prod.fst) alike
    rw [keys_onMembers, keys_onMembers] at sameKeys
    simpa [sortedFields_eq_map, Function.comp_def] using sameKeys
  · intro same
    rw [sortedObject, sortedObject, same]

theorem Exposes.members {hide keep : Json → Json}
    (exposes : Exposes hide keep) (keys : List Str) :
    Exposes (onObject (onMembers keys hide))
      (onObject (keepMembers keys keep)) := by
  intro first second alike
  cases first with
  | object fields =>
      cases second with
      | object otherFields =>
          have inside := sortedObject_iff exposes keys
            (Json.object.inj alike)
          simpa [sorted, onObject, sortedObject] using inside
      | _ => cases alike
  | _ =>
      cases second with
      | object otherFields => cases alike
      | _ =>
          simp only [onObject] at alike
          simp [alike]

theorem Exposes.items {hide keep : Json → Json}
    (exposes : Exposes hide keep) :
    Exposes (onArray hide) (onArray keep) := by
  have inside {first second : List Json}
      (alike : first.map hide = second.map hide) :
      sortedItems first = sortedItems second ↔
        first.map keep = second.map keep := by
    induction first generalizing second with
    | nil =>
        cases second with
        | nil => exact Iff.rfl
        | cons other second => cases alike
    | cons head first induction =>
        cases second with
        | nil => cases alike
        | cons other second =>
            obtain ⟨heads, tails⟩ := List.cons.inj alike
            simp [sortedItems, exposes _ _ heads, induction tails]
  intro first second alike
  cases first with
  | array items =>
      cases second with
      | array otherItems =>
          simpa [sorted, onArray] using inside (Json.array.inj alike)
      | _ => cases alike
  | _ =>
      cases second with
      | array otherItems => cases alike
      | _ =>
          simp only [onArray] at alike
          simp [alike]

def campaignPathKeys : List Str :=
  ["manifest", "out", "command"]

/-- A record of a campaign without its paths. -/
def hideCampaign : Json → Json :=
  onObject (onMembers campaignPathKeys fun _ => .null)

def hideSummary : Json → Json :=
  onObject (onMembers ["campaigns"] (onArray hideCampaign))

/-- A record of the history without the values of its paths. -/
def hidePaths (record : Fields) : Fields :=
  onMembers ["scheduler_summary"] hideSummary
    (onMembers ["manifest", "run_out"] (fun _ => .null) record)

/-- The paths in the record of a campaign. -/
def campaignPaths : Json → Json :=
  onObject (keepMembers campaignPathKeys sorted)

def summaryPaths : Json → Json :=
  onObject (keepMembers ["campaigns"] (onArray campaignPaths))

/-- The paths in the summary of the scheduler. -/
def nestedPaths (record : Fields) : Fields :=
  keepMembers ["scheduler_summary"] summaryPaths record

theorem exposes_summary : Exposes hideSummary summaryPaths :=
  (exposes_whole.members campaignPathKeys).items.members ["campaigns"]

private theorem safe_hidePaths (record : Fields) :
    safe (hidePaths record) =
      onMembers ["scheduler_summary"] hideSummary (safe record) := by
  have pathKeys : ∀ key ∈ [str "manifest", str "run_out"],
      key ∈ strippedKeys := by
    decide
  rw [hidePaths, onMembers, onMembers, onMembers, List.map_map, safe, safe,
    List.filter_map]
  apply List.map_congr_left
  intro member kept
  have notPath : member.1 ∉ [str "manifest", str "run_out"] := by
    intro path
    have removed := (List.mem_filter.mp kept).2
    simp only [Function.comp_apply, decide_eq_true_eq] at removed
    exact removed (pathKeys _ path)
  simp only [Function.comp_apply, if_neg notPath]

private theorem nestedPaths_safe (record : Fields) :
    nestedPaths (safe record) = nestedPaths record := by
  have notStripped : str "scheduler_summary" ∉ strippedKeys := by
    decide
  rw [nestedPaths, nestedPaths, keepMembers, keepMembers, safe,
    List.filter_filter]
  congr 1
  apply List.filter_congr
  intro member _
  by_cases here : member.1 = str "scheduler_summary"
  · simp [here, notStripped]
  · simp [here]

/-- The records that differ in paths at most are copied alike exactly if the
paths in their summaries are the same. -/
theorem safe_iff {first second : Fields}
    (alike : hidePaths first = hidePaths second) :
    sortedObject (safe first) = sortedObject (safe second) ↔
      nestedPaths first = nestedPaths second := by
  have kept := congrArg safe alike
  rw [safe_hidePaths, safe_hidePaths] at kept
  rw [sortedObject_iff exposes_summary ["scheduler_summary"] kept,
    ← nestedPaths_safe first, ← nestedPaths_safe second]
  rfl

def HistoryLine.hidePaths : HistoryLine → HistoryLine
  | .json (.object record) => .json (.object (Replication.hidePaths record))
  | line => line

/-- A control root without the values of the paths in its history. -/
def ControlRoot.hidePaths (root : ControlRoot) : ControlRoot :=
  { root with history := root.history.map (·.map HistoryLine.hidePaths) }

def HistoryLine.record? : HistoryLine → Option Fields
  | .json (.object record) => some record
  | _ => none

private theorem record?_blank : HistoryLine.blank.record? = none := rfl

private theorem record?_object (record : Fields) :
    (HistoryLine.json (.object record)).record? = some record := rfl

def ControlRoot.records (root : ControlRoot) : List Fields :=
  (root.history.getD []).filterMap HistoryLine.record?

/-- Every line is blank or a record. -/
def ControlRoot.Readable (root : ControlRoot) : Prop :=
  root.initialized = true ∧ ∀ line ∈ root.history.getD [],
    line = .blank ∨ line.record?.isSome

/-- The records can be encoded, as they are copied. -/
def ControlRoot.Encodes (root : ControlRoot) : Prop :=
  ∀ record ∈ root.records, (Json.object (safe record)).canonical.isSome

def payloads (members : List Member) : List (Str × List Byte) :=
  members.map fun member => (member.name.path, member.raw)

private theorem collectRecords_iff {lines : List HistoryLine} {start : Nat}
    {records : List Fields} :
    collectRecords start lines = .ok records ↔
      (∀ line ∈ lines, line = .blank ∨ line.record?.isSome) ∧
        (lines.filterMap HistoryLine.record?).map safe = records := by
  induction lines generalizing start records with
  | nil => simp [collectRecords]
  | cons head lines induction =>
      cases head with
      | blank =>
          rw [collectRecords, induction, List.forall_mem_cons,
            List.filterMap_cons_none record?_blank]
          simp
      | malformed reason => simp [collectRecords, HistoryLine.record?]
      | json value =>
          cases value with
          | object record =>
              rw [collectRecords]
              cases rest : collectRecords (start + 1) lines with
              | ok others =>
                  obtain ⟨readable, collected⟩ := induction.mp rest
                  rw [List.filterMap_cons_some (record?_object record),
                    List.map_cons, collected]
                  constructor
                  · intro same
                    cases same
                    refine ⟨?_, rfl⟩
                    intro line member
                    rcases List.mem_cons.mp member with rfl | later
                    · exact .inr rfl
                    · exact readable line later
                  · intro both
                    rw [← both.2]
              | error failure =>
                  constructor
                  · intro same
                    cases same
                  · intro both
                    have collected : collectRecords (start + 1) lines =
                        .ok ((lines.filterMap HistoryLine.record?).map safe) :=
                      induction.mpr ⟨fun line member =>
                        both.1 line (List.mem_cons_of_mem _ member), rfl⟩
                    rw [rest] at collected
                    cases collected
          | _ => simp [collectRecords, HistoryLine.record?]

private theorem encodeRecords_iff {records : List Fields}
    {texts : List Canonical} :
    encodeRecords records = .ok texts ↔
      texts.map (·.value) =
        records.map fun record => (Json.object record).sorted := by
  induction records generalizing texts with
  | nil =>
      rw [encodeRecords, List.map_nil, List.map_eq_nil_iff]
      constructor
      · intro same
        cases same
        rfl
      · rintro rfl
        rfl
  | cons record records induction =>
      rw [encodeRecords, List.map_cons]
      cases here : Canonical.of? (.object record) with
      | none =>
          refine ⟨nofun, ?_⟩
          intro same
          cases texts with
          | nil => cases same
          | cons text texts =>
              have made := Canonical.of?_eq_some.mpr
                (List.cons.inj same).1.symm
              rw [here] at made
              cases made
      | some text =>
          cases rest : encodeRecords records with
          | error failure =>
              refine ⟨nofun, ?_⟩
              intro same
              cases texts with
              | nil => cases same
              | cons text texts =>
                  have made := induction.mpr (List.cons.inj same).2
                  rw [rest] at made
                  cases made
          | ok others =>
              have values := Canonical.of?_eq_some.mp here
              rw [values]
              cases texts with
              | nil => exact ⟨nofun, nofun⟩
              | cons head texts =>
                  rw [List.map_cons, ← induction.mp rest]
                  constructor
                  · intro same
                    cases same
                    rfl
                  · intro same
                    obtain ⟨heads, tails⟩ := List.cons.inj same
                    have made := induction.mpr
                      (tails.trans (induction.mp rest))
                    rw [rest] at made
                    cases made
                    have again := Canonical.of?_eq_some.mpr
                      (values.trans heads.symm)
                    rw [here] at again
                    cases again
                    rfl

/-- The paths that a root has in the summaries of its records. -/
def ControlRoot.nestedPaths (root : ControlRoot) : List Fields :=
  root.records.map Replication.nestedPaths

/-- The values of the records of a bundle. -/
def ControlRoot.copied (root : ControlRoot) : List Json :=
  root.records.map fun record => (Json.object (safe record)).sorted

theorem collected_iff {root : ControlRoot} {members : List Member} :
    collectControlHistory root = .ok members ↔
      root.Readable ∧ ∃ texts : List Canonical,
        texts.map (·.value) = root.copied ∧
          members = if texts.isEmpty then [] else [⟨.history, texts⟩] := by
  obtain ⟨initialized, history⟩ := root
  cases initialized with
  | false => simp [collectControlHistory, ControlRoot.Readable]
  | true =>
      cases history with
      | none =>
          have readable : ControlRoot.Readable ⟨true, none⟩ := ⟨rfl, nofun⟩
          constructor
          · intro collected
            cases collected
            exact ⟨readable, [], rfl, rfl⟩
          · rintro ⟨_, texts, values, rfl⟩
            rw [List.map_eq_nil_iff.mp values]
            rfl
      | some lines =>
          rw [collectControlHistory, if_pos rfl]
          dsimp only
          constructor
          · intro collected
            cases records : collectRecords 1 lines with
            | error failure =>
                rw [records] at collected
                cases collected
            | ok safes =>
                rw [records] at collected
                dsimp only at collected
                obtain ⟨readable, here⟩ := collectRecords_iff.mp records
                cases encoded : encodeRecords safes with
                | error failure =>
                    rw [encoded] at collected
                    cases collected
                | ok texts =>
                    rw [encoded] at collected
                    cases collected
                    refine ⟨⟨rfl, readable⟩, texts, ?_, rfl⟩
                    rw [encodeRecords_iff.mp encoded, ← here, List.map_map]
                    rfl
          · rintro ⟨⟨_, readable⟩, texts, values, rfl⟩
            have records : collectRecords 1 lines =
                .ok ((lines.filterMap HistoryLine.record?).map safe) :=
              collectRecords_iff.mpr ⟨readable, rfl⟩
            have encoded : encodeRecords
                ((lines.filterMap HistoryLine.record?).map safe) =
                .ok texts := by
              rw [encodeRecords_iff, values, List.map_map]
              rfl
            rw [records]
            dsimp only
            rw [encoded]

private theorem encodes_iff {root : ControlRoot} :
    root.Encodes ↔
      ∃ texts : List Canonical, texts.map (·.value) = root.copied := by
  unfold ControlRoot.Encodes ControlRoot.copied
  induction root.records with
  | nil => simp
  | cons record records induction =>
      rw [List.forall_mem_cons, induction]
      constructor
      · rintro ⟨encoded, texts, values⟩
        rw [← Canonical.isSome_of?] at encoded
        obtain ⟨text, made⟩ := Option.isSome_iff_exists.mp encoded
        refine ⟨text :: texts, ?_⟩
        rw [List.map_cons, List.map_cons, values, Canonical.value_of? made]
      · rintro ⟨texts, values⟩
        cases texts with
        | nil => cases values
        | cons text texts =>
            obtain ⟨here, there⟩ := List.cons.inj values
            refine ⟨?_, texts, there⟩
            rw [← Canonical.isSome_of?, Canonical.of?_eq_some.mpr here.symm]
            rfl

private theorem payloads_collected {first second : List Canonical}
    (same : payloads (if first.isEmpty then [] else [⟨.history, first⟩]) =
      payloads (if second.isEmpty then [] else [⟨.history, second⟩])) :
    first = second := by
  cases first with
  | nil =>
      cases second with
      | nil => rfl
      | cons => cases same
  | cons head first =>
      cases second with
      | nil => cases same
      | cons other second =>
          have members := (List.cons.inj same).1
          exact Canonical.flatMap_bytes_injective (Prod.mk.inj members).2

private theorem hidePaths_line (line : HistoryLine) :
    (line.hidePaths = .blank ↔ line = .blank) ∧
      line.hidePaths.record? = line.record?.map Replication.hidePaths := by
  cases line with
  | json value => cases value <;> simp [HistoryLine.hidePaths, HistoryLine.record?]
  | _ => simp [HistoryLine.hidePaths, HistoryLine.record?]

private theorem records_hidePaths (root : ControlRoot) :
    root.hidePaths.records = root.records.map Replication.hidePaths := by
  obtain ⟨initialized, history⟩ := root
  cases history with
  | none => rfl
  | some lines =>
      simp only [ControlRoot.records, ControlRoot.hidePaths, Option.map_some,
        Option.getD_some, List.filterMap_map, List.map_filterMap]
      congr 1
      funext line
      exact (hidePaths_line line).2

private theorem readable_hidePaths (root : ControlRoot) :
    root.hidePaths.Readable ↔ root.Readable := by
  obtain ⟨initialized, history⟩ := root
  cases history with
  | none => exact Iff.rfl
  | some lines =>
      simp only [ControlRoot.Readable, ControlRoot.hidePaths, Option.map_some,
        Option.getD_some, List.forall_mem_map, hidePaths_line,
        Option.isSome_map]

private theorem copied_iff {first second : List Fields}
    (alike : first.map hidePaths = second.map hidePaths) :
    (first.map fun record => (Json.object (safe record)).sorted) =
        (second.map fun record => (Json.object (safe record)).sorted) ↔
      first.map nestedPaths = second.map nestedPaths := by
  induction first generalizing second with
  | nil =>
      cases second with
      | nil => exact iff_of_true rfl rfl
      | cons => cases alike
  | cons record first induction =>
      cases second with
      | nil => cases alike
      | cons other second =>
          obtain ⟨heads, tails⟩ := List.cons.inj alike
          have here : (Json.object (safe record)).sorted =
              (Json.object (safe other)).sorted ↔
                nestedPaths record = nestedPaths other := by
            rw [sorted, sorted, Json.object.injEq]
            exact safe_iff heads
          rw [List.map_cons, List.map_cons, List.map_cons, List.map_cons,
            List.cons_eq_cons, List.cons_eq_cons, here, induction tails]

/-- The histories of two roots are copied into the same bytes. -/
def SamePayloads (first second : ControlRoot) : Prop :=
  ∃ members otherMembers, collectControlHistory first = .ok members ∧
    collectControlHistory second = .ok otherMembers ∧
    payloads members = payloads otherMembers

/-- Two control roots whose records differ in paths at most are copied into the
same bytes exactly if they can be read and encoded and the summaries of the
scheduler name the same paths. -/
theorem samePayloads_iff_nestedPaths (first second : ControlRoot)
    (alike : first.hidePaths = second.hidePaths) :
    SamePayloads first second ↔
      first.Readable ∧ first.Encodes ∧
        first.nestedPaths = second.nestedPaths := by
  have sameRecords := congrArg ControlRoot.records alike
  rw [records_hidePaths, records_hidePaths] at sameRecords
  have copied : first.copied = second.copied ↔
      first.nestedPaths = second.nestedPaths := copied_iff sameRecords
  constructor
  · rintro ⟨members, otherMembers, collected, otherCollected, same⟩
    obtain ⟨readable, texts, values, rfl⟩ := collected_iff.mp collected
    obtain ⟨_, otherTexts, otherValues, rfl⟩ :=
      collected_iff.mp otherCollected
    have equal := payloads_collected same
    subst equal
    refine ⟨readable, encodes_iff.mpr ⟨texts, values⟩, ?_⟩
    rw [← copied, ← values, otherValues]
  · rintro ⟨readable, encodes, paths⟩
    obtain ⟨texts, values⟩ := encodes_iff.mp encodes
    have otherReadable : second.Readable := by
      rw [← readable_hidePaths, ← alike, readable_hidePaths]
      exact readable
    refine ⟨_, _, collected_iff.mpr ⟨readable, texts, values, rfl⟩,
      collected_iff.mpr ⟨otherReadable, texts, ?_, rfl⟩, rfl⟩
    rw [values, copied.mpr paths]

def unix : FloatLiteral :=
  ⟨"1754000000.25", rfl⟩

/-- The record of a run, as it is archived under a directory. -/
def archived (home : Str) (summary : Json) : ControlRoot where
  initialized := true
  history := some [.json (.object
    [("schema", .string "ppc-lab-control-history-record-v1"),
      ("id", .string "run-000001"), ("seq", .int 1), ("priority", .int 0),
      ("manifest", .string (home ++ "/nightly.json")),
      ("manifest_sha256", .string "00"), ("status", .string "complete"),
      ("submitted_unix", .float unix), ("started_unix", .float unix),
      ("finished_unix", .float unix), ("returncode", .int 0),
      ("attempts", .int 1), ("run_out", .string (home ++ "/runs/run-000001")),
      ("scheduler_summary", summary)])]

/-- The summary of a run with one campaign. -/
def summaryAt (home : Str) : Json :=
  .object
    [("schema", .string "ppc-lab-schedule-summary-v1"),
      ("status", .string "complete"),
      ("campaigns", .array [.object
        [("id", .string "boot"), ("status", .string "complete"),
          ("manifest", .string (home ++ "/boot.json")),
          ("out", .string (home ++ "/runs/run-000001/boot")),
          ("command", .array
            [.string "ppc-lab-campaign", .string (home ++ "/boot.json")])]])]

/-- Two runs that ended before the scheduler wrote a summary. -/
theorem samePayloads_iff_nestedPaths_archived :
    SamePayloads (archived "/home/lab" .null) (archived "/srv/lab" .null) := by
  apply (samePayloads_iff_nestedPaths _ _ (by decide)).mpr
  refine ⟨⟨rfl, ?_⟩, ?_, by decide⟩
  · intro line member
    rw [List.mem_singleton.mp member]
    exact .inr rfl
  · intro record member
    rw [List.mem_singleton.mp member]
    decide +kernel

/-- The same run under two directories. -/
theorem summary_reveals_paths :
    (archived "/home/lab" (summaryAt "/home/lab")).hidePaths =
        (archived "/srv/lab" (summaryAt "/srv/lab")).hidePaths ∧
      ¬ SamePayloads (archived "/home/lab" (summaryAt "/home/lab"))
        (archived "/srv/lab" (summaryAt "/srv/lab")) := by
  refine ⟨by decide, ?_⟩
  rintro ⟨members, otherMembers, collected, otherCollected, same⟩
  have differ :
      (collectControlHistory (archived "/home/lab"
        (summaryAt "/home/lab"))).toOption.map payloads ≠
      (collectControlHistory (archived "/srv/lab"
        (summaryAt "/srv/lab"))).toOption.map payloads := by
    decide +kernel
  apply differ
  rw [collected, otherCollected]
  exact congrArg some same

end PpcLab.Replication
