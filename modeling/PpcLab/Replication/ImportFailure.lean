import PpcLab.Knowledge.Batches
import PpcLab.Replication.Import

/-!
# Imports that fail

An import that fails before anything is merged changes nothing.  One that fails
later leaves what was merged before, so it changes nothing exactly when no
document and no history is new that an earlier step has merged.
-/

namespace PpcLab.Replication.Import

open Json

/-- The documents, the receipts and the histories are those from before. -/
structure Unchanged (before after : Site) : Prop where
  evidence : ∀ digest,
    after.evidence.Knows digest ↔ before.evidence.Knows digest
  knowledge : ∀ digest,
    after.knowledge.Knows digest ↔ before.knowledge.Knows digest
  receipts : ∀ key, after.receipts.lookup key = before.receipts.lookup key
  histories : ∀ key, after.histories.lookup key = before.histories.lookup key

section Failure

variable (python : Python) (request : Request) (site : Site)

/-- Where the import fails, nothing has changed. -/
def FailsUnchanged : Prop :=
  ∀ failure after, importBundle python request site = (.error failure, after) →
    Unchanged site after

/-- A verified bundle without a receipt, with the members that it holds. -/
structure Merges (manifest : Fields) (unpacked : Unpacked) : Prop where
  verified : Archive.verifyBundle python.sha256 python.reader request.path
    request.file = .ok (manifest, [])
  found : request.isFound = true
  new : site.receipts.lookup (keyOf python manifest) = none
  members : unpack request manifest = .ok unpacked

/-- No file, or a store that takes every file. -/
def EvidenceReady (files : List Evidence.File) : Prop :=
  files = [] ∨ request.evidence = .store ∧
    (∀ file ∈ files, file.isEvidence = true) ∧
    Evidence.Unblocked python.sha256 python.reader.unicode
      site.evidence.Knows files

def KnowledgeReady (files : List Knowledge.File) : Prop :=
  files = [] ∨ request.knowledge = .store ∧
    ∀ file ∈ files, ¬ file.Blocks python.host python.reader.loads none

/-- The archive of the history and the receipt can be written. -/
def Concludes (lines : List Str) : Prop :=
  (lines = [] ∨ request.history = .done) ∧ request.receipt = true

def BringsEvidence (files : List Evidence.File) : Prop :=
  ∃ digest, (∃ file ∈ files, file.digest? python.sha256 = some digest) ∧
    ¬ site.evidence.Knows digest

def BringsKnowledge (files : List Knowledge.File) : Prop :=
  ∃ digest, (∃ file ∈ files,
    file.digest? python.host python.reader.loads = some digest) ∧
    ¬ site.knowledge.Knows digest

/-- What is in the archive of the history after it was written or torn. -/
def left (lines : List Str) : Option (List Byte) :=
  if lines = [] then none
  else
    match request.history with
    | .done => some (historyRaw lines)
    | .refused => none
    | .torn left => some left

def BringsHistory (key : Str × Int) (lines : List Str) : Prop :=
  ∃ raw, left request lines = some raw ∧
    site.histories.lookup key ≠ some ⟨key, raw⟩

/-- A step fails after one that has brought something. -/
structure LateFailure (manifest : Fields) (unpacked : Unpacked) : Prop where
  merges : Merges python request site manifest unpacked
  evidence : EvidenceReady python request site
    (unpacked.evidenceFiles python request)
  late : BringsEvidence python site
        (unpacked.evidenceFiles python request) ∧
      ¬ (KnowledgeReady python request (unpacked.knowledgeFiles request) ∧
        Concludes request unpacked.history) ∨
    KnowledgeReady python request (unpacked.knowledgeFiles request) ∧
      (BringsKnowledge python site (unpacked.knowledgeFiles request) ∨
        BringsHistory request site (keyOf python manifest)
          unpacked.history) ∧
      ¬ Concludes request unpacked.history

end Failure

section Steps

variable {python : Python} {request : Request} {site : Site}

private theorem present_evidenceFiles {unpacked : Unpacked} :
    ∀ file ∈ unpacked.evidenceFiles python request,
      file.content ≠ .missing := by
  intro file member
  obtain ⟨source, _, rfl⟩ := List.mem_map.mp member
  rw [Evidence.File.ofBytes]
  dsimp only
  split <;> simp

private theorem importEvidence_ready {files : List Evidence.File}
    (present : ∀ file ∈ files, file.content ≠ .missing)
    (ready : EvidenceReady python request site files) :
    ∃ database fields,
      importEvidence python request.evidence site.evidence files =
        .ok (database, fields) ∧
      ∀ digest, database.Knows digest ↔ site.evidence.Knows digest ∨
        ∃ file ∈ files, file.digest? python.sha256 = some digest := by
  unfold importEvidence
  by_cases empty : files = []
  · subst empty
    exact ⟨_, _, rfl, by simp⟩
  · obtain ⟨store, evidence, unblocked⟩ := ready.resolve_left empty
    obtain ⟨after, report, ran, knows⟩ :=
      Evidence.ingest_strict python.now ⟨0, 0, 0, 0, []⟩ present evidence
        unblocked
    rw [if_neg empty, store]
    dsimp only
    rw [Evidence.ingest, ran]
    exact ⟨_, _, rfl, knows⟩

private theorem importEvidence_not_ready {files : List Evidence.File}
    (present : ∀ file ∈ files, file.content ≠ .missing)
    (unready : ¬ EvidenceReady python request site files) :
    ∃ failure, importEvidence python request.evidence site.evidence files =
      .error failure := by
  unfold importEvidence
  have some : files ≠ [] := by
    intro empty
    exact unready (.inl empty)
  rw [if_neg some]
  cases destination : request.evidence with
  | none => exact ⟨_, rfl⟩
  | unusable => exact ⟨_, rfl⟩
  | store =>
      have stopped : ∃ failure, Evidence.ingest python.sha256
          python.reader.unicode true python.now site.evidence files =
          .error failure := by
        by_cases evidence : ∀ file ∈ files, file.isEvidence = true
        · apply Evidence.ingest_of_blocked true python.now _ present
          intro unblocked
          exact unready (.inr ⟨destination, evidence, unblocked⟩)
        · apply Evidence.ingest_strict_other python.now _ present
          simpa using evidence
      obtain ⟨failure, stopped⟩ := stopped
      dsimp only
      rw [stopped]
      exact ⟨_, rfl⟩

private theorem importKnowledge_ready (site : Site) {files : List Knowledge.File}
    (ready : KnowledgeReady python request files) :
    ∃ tables fields,
      importKnowledge python request.knowledge site.knowledge files =
        .ok (tables, fields) ∧
      ∀ digest, tables.Knows digest ↔ site.knowledge.Knows digest ∨
        ∃ file ∈ files,
          file.digest? python.host python.reader.loads = some digest := by
  unfold importKnowledge
  by_cases empty : files = []
  · subst empty
    exact ⟨_, _, rfl, by simp⟩
  · obtain ⟨store, unblocked⟩ := ready.resolve_left empty
    have agree : Knowledge.Summary.Agrees ⟨0, 0, 0, []⟩ ⟨0, 0, 0, []⟩ :=
      ⟨rfl, rfl, rfl⟩
    obtain ⟨after, summary, _, ran, _⟩ := Knowledge.ingest_of_unblocked
      python.now site.knowledge unblocked agree
    rw [if_neg empty, store]
    dsimp only
    rw [Knowledge.ingestPaths, ran]
    exact ⟨_, _, rfl, Knowledge.knows_ingestPaths ran⟩

private theorem importKnowledge_not_ready (site : Site) {files : List Knowledge.File}
    (unready : ¬ KnowledgeReady python request files) :
    ∃ failure, importKnowledge python request.knowledge site.knowledge files =
      .error failure := by
  unfold importKnowledge
  have some : files ≠ [] := by
    intro empty
    exact unready (.inl empty)
  rw [if_neg some]
  cases destination : request.knowledge with
  | none => exact ⟨_, rfl⟩
  | unusable => exact ⟨_, rfl⟩
  | store =>
      have blocked : ∃ file ∈ files,
          file.Blocks python.host python.reader.loads Option.none := by
        by_contra free
        apply unready
        refine .inr ⟨destination, ?_⟩
        intro file member blocks
        exact free ⟨file, member, blocks⟩
      dsimp only
      rw [Knowledge.ingestPaths, Knowledge.ingest_of_blocked blocked]
      exact ⟨_, rfl⟩

/-- The archives after the history was written, to its end or not. -/
def leftHistories (request : Request) (site : Site) (key : Str × Int)
    (lines : List Str) : Keyed HistoryFile.key :=
  (left request lines).elim site.histories fun raw =>
    site.histories.put ⟨key, raw⟩

private theorem lookup_leftHistories {key : Str × Int} {lines : List Str} :
    (∀ other, (leftHistories request site key lines).lookup other =
      site.histories.lookup other) ↔
    ¬ BringsHistory request site key lines := by
  unfold leftHistories BringsHistory
  cases left request lines with
  | none => simp
  | some raw =>
      constructor
      · intro same brings
        obtain ⟨other, found, changed⟩ := brings
        cases found
        apply changed
        rw [← same key]
        exact Keyed.lookup_put_self site.histories ⟨key, raw⟩
      · intro same other
        have there : site.histories.lookup key = some ⟨key, raw⟩ := by
          by_contra changed
          exact same ⟨raw, rfl, changed⟩
        by_cases here : other = key
        · subst here
          rw [there]
          exact Keyed.lookup_put_self site.histories ⟨other, raw⟩
        · exact Keyed.lookup_put_of_ne site.histories here

private theorem writeHistory_of_written {key : Str × Int}
    {lines : List Str} (written : lines = [] ∨ request.history = .done) :
    writeHistory request key lines site.histories =
      (true, leftHistories request site key lines) := by
  unfold writeHistory leftHistories left
  by_cases empty : lines = []
  · rw [if_pos empty, if_pos empty]
    rfl
  · rw [if_neg empty, if_neg empty, written.resolve_left empty]
    rfl

private theorem writeHistory_of_not {key : Str × Int} {lines : List Str}
    (unwritten : ¬ (lines = [] ∨ request.history = .done)) :
    writeHistory request key lines site.histories =
      (false, leftHistories request site key lines) := by
  obtain ⟨some, other⟩ := not_or.mp unwritten
  unfold writeHistory leftHistories left
  rw [if_neg some, if_neg some]
  cases how : request.history with
  | done => exact absurd how other
  | refused => rfl
  | torn left => rfl

private theorem conclude_of_concludes (python : Python) (site : Site)
    (manifest evidence knowledge : Fields) {lines : List Str} (concludes : Concludes request lines) :
    ∃ doc after, conclude python request manifest lines evidence knowledge
      site = (.ok doc, after) := by
  obtain ⟨written, receipt⟩ := concludes
  unfold conclude
  dsimp only
  rw [writeHistory_of_written written]
  dsimp only
  rw [if_pos rfl, if_pos receipt]
  exact ⟨_, _, rfl⟩

private theorem conclude_of_not (python : Python) (site : Site)
    (manifest evidence knowledge : Fields) {lines : List Str} (fails : ¬ Concludes request lines) :
    ∃ failure, conclude python request manifest lines evidence knowledge
      site = (.error failure, { site with
        histories :=
          leftHistories request site (keyOf python manifest) lines }) := by
  unfold conclude
  dsimp only
  by_cases written : lines = [] ∨ request.history = .done
  · have noReceipt : ¬ request.receipt = true := by
      intro receipt
      exact fails ⟨written, receipt⟩
    rw [writeHistory_of_written written]
    dsimp only
    rw [if_pos rfl, if_neg noReceipt]
    exact ⟨_, rfl⟩
  · rw [writeHistory_of_not written]
    exact ⟨_, rfl⟩

section Merging

variable {unpacked : Unpacked}

private theorem merge_without_evidence (manifest : Fields)
    (unready : ¬ EvidenceReady python request site
      (unpacked.evidenceFiles python request)) :
    ∃ failure, merge python request manifest unpacked site =
      (.error failure, site) := by
  obtain ⟨failure, stopped⟩ :=
    importEvidence_not_ready present_evidenceFiles unready
  unfold merge
  rw [stopped]
  exact ⟨failure, rfl⟩

private theorem merge_without_knowledge (manifest : Fields)
    (evidence : EvidenceReady python request site
      (unpacked.evidenceFiles python request))
    (unready : ¬ KnowledgeReady python request
      (unpacked.knowledgeFiles request)) :
    ∃ failure database, merge python request manifest unpacked site =
        (.error failure, { site with evidence := database }) ∧
      ∀ digest, database.Knows digest ↔ site.evidence.Knows digest ∨
        ∃ file ∈ unpacked.evidenceFiles python request,
          file.digest? python.sha256 = some digest := by
  obtain ⟨database, fields, merged, knows⟩ :=
    importEvidence_ready present_evidenceFiles evidence
  obtain ⟨failure, stopped⟩ := importKnowledge_not_ready site unready
  unfold merge
  rw [merged]
  dsimp only
  rw [stopped]
  exact ⟨failure, database, rfl, knows⟩

private theorem merge_without_end (manifest : Fields)
    (evidence : EvidenceReady python request site
      (unpacked.evidenceFiles python request))
    (knowledge : KnowledgeReady python request
      (unpacked.knowledgeFiles request))
    (fails : ¬ Concludes request unpacked.history) :
    ∃ failure database tables,
      merge python request manifest unpacked site = (.error failure,
        { evidence := database
          knowledge := tables
          receipts := site.receipts
          histories := leftHistories request site (keyOf python manifest)
            unpacked.history }) ∧
      (∀ digest, database.Knows digest ↔ site.evidence.Knows digest ∨
        ∃ file ∈ unpacked.evidenceFiles python request,
          file.digest? python.sha256 = some digest) ∧
      ∀ digest, tables.Knows digest ↔ site.knowledge.Knows digest ∨
        ∃ file ∈ unpacked.knowledgeFiles request,
          file.digest? python.host python.reader.loads = some digest := by
  obtain ⟨database, fields, merged, knows⟩ :=
    importEvidence_ready present_evidenceFiles evidence
  obtain ⟨tables, others, related, learns⟩ :=
    importKnowledge_ready site knowledge
  obtain ⟨failure, stopped⟩ := conclude_of_not python
    ⟨database, tables, site.receipts, site.histories⟩ manifest fields others
    fails
  refine ⟨failure, database, tables, ?_, knows, learns⟩
  unfold merge
  rw [merged]
  dsimp only
  rw [related]
  dsimp only
  rw [stopped]
  rfl

private theorem merge_to_end (manifest : Fields)
    (evidence : EvidenceReady python request site
      (unpacked.evidenceFiles python request))
    (knowledge : KnowledgeReady python request
      (unpacked.knowledgeFiles request))
    (concludes : Concludes request unpacked.history) :
    ∃ doc after, merge python request manifest unpacked site =
      (.ok doc, after) := by
  obtain ⟨database, fields, merged, _⟩ :=
    importEvidence_ready present_evidenceFiles evidence
  obtain ⟨tables, others, related, _⟩ := importKnowledge_ready site knowledge
  obtain ⟨doc, after, ended⟩ := conclude_of_concludes python
    ⟨database, tables, site.receipts, site.histories⟩ manifest fields others
    concludes
  refine ⟨doc, after, ?_⟩
  unfold merge
  rw [merged]
  dsimp only
  rw [related]
  exact ended

/-- What is known stays the same exactly when nothing new is brought. -/
private theorem keeps_iff {before after brought : Str → Prop}
    (knows : ∀ digest, after digest ↔ before digest ∨ brought digest) :
    (∀ digest, after digest ↔ before digest) ↔
      ¬ ∃ digest, brought digest ∧ ¬ before digest := by
  constructor
  · intro same brings
    obtain ⟨digest, new, unknown⟩ := brings
    exact unknown ((same digest).mp ((knows digest).mpr (.inr new)))
  · intro nothing digest
    rw [knows]
    constructor
    · intro either
      rcases either with old | new
      · exact old
      · by_contra unknown
        exact nothing ⟨digest, new, unknown⟩
    · exact .inl

private theorem Unchanged.refl (site : Site) : Unchanged site site :=
  ⟨fun _ => .rfl, fun _ => .rfl, fun _ => rfl, fun _ => rfl⟩

/-- A merge that fails leaves things as they were exactly when no step fails
after one that has brought something. -/
private theorem merge_unchanged_iff {manifest : Fields}
    (merges : Merges python request site manifest unpacked) :
    (∀ failure after, merge python request manifest unpacked site =
      (.error failure, after) → Unchanged site after) ↔
    ¬ LateFailure python request site manifest unpacked := by
  by_cases evidence : EvidenceReady python request site
      (unpacked.evidenceFiles python request)
  · by_cases knowledge : KnowledgeReady python request
        (unpacked.knowledgeFiles request)
    · by_cases concludes : Concludes request unpacked.history
      · obtain ⟨doc, final, merged⟩ :=
          merge_to_end manifest evidence knowledge concludes
        constructor
        · intro _ late
          rcases late.late with brings | brings
          · exact brings.2 ⟨knowledge, concludes⟩
          · exact brings.2.2 concludes
        · intro _ failure after failed
          rw [merged] at failed
          cases failed
      · obtain ⟨failure, database, tables, merged, knows, learns⟩ :=
          merge_without_end manifest evidence knowledge concludes
        rw [merged]
        constructor
        · intro unchanged late
          have same := unchanged _ _ rfl
          rcases late.late with brings | brings
          · exact (keeps_iff knows).mp same.evidence brings.1
          · rcases brings.2.1 with document | history
            · exact (keeps_iff learns).mp same.knowledge document
            · exact lookup_leftHistories.mp same.histories history
        · intro never failure after failed
          cases failed
          constructor
          · apply (keeps_iff knows).mpr
            intro brings
            exact never ⟨merges, evidence,
              .inl ⟨brings, fun both => concludes both.2⟩⟩
          · apply (keeps_iff learns).mpr
            intro brings
            exact never ⟨merges, evidence,
              .inr ⟨knowledge, .inl brings, concludes⟩⟩
          · intro key
            rfl
          · apply lookup_leftHistories.mpr
            intro brings
            exact never ⟨merges, evidence,
              .inr ⟨knowledge, .inr brings, concludes⟩⟩
    · obtain ⟨failure, database, merged, knows⟩ :=
        merge_without_knowledge manifest evidence knowledge
      rw [merged]
      constructor
      · intro unchanged late
        have same := unchanged _ _ rfl
        rcases late.late with brings | brings
        · exact (keeps_iff knows).mp same.evidence brings.1
        · exact knowledge brings.1
      · intro never failure after failed
        cases failed
        constructor
        · apply (keeps_iff knows).mpr
          intro brings
          exact never ⟨merges, evidence,
            .inl ⟨brings, fun both => knowledge both.1⟩⟩
        · intro digest
          exact .rfl
        · intro key
          rfl
        · intro key
          rfl
  · obtain ⟨failure, merged⟩ :=
      merge_without_evidence manifest evidence
    rw [merged]
    constructor
    · intro _ late
      exact evidence late.evidence
    · intro _ failure after failed
      cases failed
      exact .refl site

end Merging

private theorem importBundle_of_merges {manifest : Fields}
    {unpacked : Unpacked}
    (merges : Merges python request site manifest unpacked) :
    importBundle python request site =
      merge python request manifest unpacked site := by
  unfold importBundle
  rw [merges.verified]
  dsimp only
  rw [if_pos merges.found, merges.new]
  dsimp only
  rw [merges.members]

private theorem importBundle_of_not {outcome : Except Failure Fields}
    {after : Site}
    (merging : ¬ ∃ manifest unpacked,
      Merges python request site manifest unpacked)
    (ran : importBundle python request site = (outcome, after)) :
    after = site := by
  unfold importBundle at ran
  cases verified : Archive.verifyBundle python.sha256 python.reader
      request.path request.file with
  | error stop =>
      rw [verified] at ran
      cases ran
      rfl
  | ok result =>
      obtain ⟨manifest, errors⟩ := result
      rw [verified] at ran
      cases errors with
      | cons error errors =>
          cases ran
          rfl
      | nil =>
          dsimp only at ran
          by_cases found : request.isFound = true
          · rw [if_pos found] at ran
            cases new : site.receipts.lookup (keyOf python manifest) with
            | some receipt =>
                rw [new] at ran
                cases ran
                rfl
            | none =>
                rw [new] at ran
                dsimp only at ran
                cases members : unpack request manifest with
                | error failure =>
                    rw [members] at ran
                    cases ran
                    rfl
                | ok unpacked =>
                    exact absurd
                      ⟨manifest, unpacked, verified, found, new, members⟩
                      merging
          · rw [if_neg found] at ran
            cases ran
            rfl

/-- An import that fails changes nothing exactly when no step of it fails
after one that has brought a document or a history. -/
theorem failsUnchanged_iff :
    FailsUnchanged python request site ↔
      ∀ manifest unpacked,
        ¬ LateFailure python request site manifest unpacked := by
  constructor
  · intro unchanged manifest unpacked late
    apply (merge_unchanged_iff late.merges).mp ?_ late
    intro failure after failed
    apply unchanged failure after
    rw [importBundle_of_merges late.merges]
    exact failed
  · intro never failure after failed
    by_cases merging : ∃ manifest unpacked,
        Merges python request site manifest unpacked
    · obtain ⟨manifest, unpacked, merges⟩ := merging
      rw [importBundle_of_merges merges] at failed
      exact (merge_unchanged_iff merges).mpr (never manifest unpacked)
        failure after failed
    · rw [importBundle_of_not merging failed]
      exact .refl site

end Steps

/-- Python for texts in ASCII; no text is hashed by `sha1`. -/
def asciiPython : Python where
  reader := .ascii
  float _ := .zero
  sha256 := Sha256.hexdigest
  sha1 _ := []
  now _ := "09:00"

def note : Json :=
  .object [("schema", .string "ppc-lab-note-v1"), ("text", .string "pass")]

def noteBytes : List Byte :=
  note.canonical.getD []

def noteDigest : Str :=
  "5fc17c69e0eb71570585c5f4c09d2ef4dc2b4fb55d435f3d5277ffc8826f212f"

/-- The note under a folder of the bundle. -/
def noteMember (folder : Str) : Str :=
  folder ++ "/" ++ noteDigest ++ ".json"

def noteMaterial : Fields :=
  [("schema", .string "ppc-lab-replication-bundle-v1"),
    ("replication_api", .int 1),
    ("source_site", .string "site-a"),
    ("generation", .int 1),
    ("files", .array (["evidence", "knowledge"].map fun folder =>
      .object [("path", .string (noteMember folder)),
        ("sha256", .string noteDigest), ("size", .int noteBytes.length)])),
    ("policy", .object [("target_binaries_included", .bool false),
      ("live_control_state_included", .bool false)])]

def noteManifest : Fields :=
  ("bundle_id", .string
    "9b241be36cca6a1f4240150acce69ab6984ece5b6eb7de1eb0951f273df31718") ::
    noteMaterial

def noteArchive : List Archive.ZipInfo :=
  [⟨noteMember "evidence", noteBytes.length, 0, .ok noteBytes⟩,
    ⟨noteMember "knowledge", noteBytes.length, 0, .ok noteBytes⟩,
    ⟨Archive.manifestName, 900, 0,
      .ok (((Json.object noteManifest).canonical).getD [])⟩]

/-- The import of the bundle with a destination for evidence only. -/
def halfRequest : Request where
  path := "bundle.zip"
  file := some ⟨2048, .ok noteArchive⟩
  bundleSha256 := []
  evidence := .store
  knowledge := .none
  directory := "/tmp/ppclab-replicate-0"
  isWritable _ := true
  isFound := true
  history := .done
  receipt := true
  importedAt := "2026-01-01T00:00:00Z"

def emptySite : Site :=
  ⟨.empty, .empty, .empty, .empty⟩

/-- The import fails for want of a destination, and the evidence is there. -/
theorem failed_import_keeps_evidence :
    ∃ after, importBundle asciiPython halfRequest emptySite =
        (.error .knowledgeDestination, after) ∧
      after.evidence.Knows noteDigest ∧
      ¬ emptySite.evidence.Knows noteDigest ∧
      ¬ FailsUnchanged asciiPython halfRequest emptySite := by
  have ran : ((importBundle asciiPython halfRequest emptySite).casesOn
      fun outcome site =>
        decide (outcome = .error .knowledgeDestination) &&
          (site.evidence.artifacts.lookup noteDigest).isSome) = true := by
    decide +kernel
  have unknown (digest : Str) : ¬ emptySite.evidence.Knows digest := by
    intro impossible
    cases impossible
  generalize noteDigest = digest at ran ⊢
  generalize imported : importBundle asciiPython halfRequest emptySite = result
    at ran
  obtain ⟨outcome, after⟩ := result
  obtain ⟨failed, known⟩ := Bool.and_eq_true_iff.mp ran
  obtain rfl := of_decide_eq_true failed
  refine ⟨after, rfl, known, unknown digest, ?_⟩
  intro unchanged
  have same := unchanged _ _ imported
  exact unknown digest ((same.evidence digest).mp known)

end PpcLab.Replication.Import
