import PpcLab.Evidence.Blocking
import PpcLab.Knowledge.References

/-!
# Batches with bad documents

A file that is no JSON or no PPC Lab document is counted, and the others of its
batch are indexed as if it were absent.  That does not hold of every file that
cannot be indexed: some documents raise, and the whole batch is rolled back.
-/

namespace PpcLab.Knowledge

open Json

section Blocking

variable (host : Host) (loads : List Byte → Loaded) (forced : Option Str)

/-- Bytes that the reader raises on, and documents that raise when they are
indexed. -/
def File.Blocks (file : File) : Prop :=
  file.read host loads = .raises ∨
    ∃ raw doc, file.read host loads = .document raw doc ∧
      ¬ (fieldsEncode doc = true ∧ WellTyped host forced doc)

def File.isDocument (file : File) : Bool :=
  match file.read host loads with
  | .document _ _ => true
  | .skipped | .raises => false

end Blocking

/-- Summaries that agree on the documents. -/
structure Summary.Agrees (first second : Summary) : Prop where
  added : first.added = second.added
  deduplicated : first.deduplicated = second.deduplicated
  relations : first.relations = second.relations

section Batch

variable {host : Host} {loads : List Byte → Loaded} {forced : Option Str}
  {now : Str → Str}

/-- A document is indexed whatever the summary says. -/
private theorem ingestFile_document {file : File} (now : Str → Str)
    (tables : Tables)
    (is : file.isDocument host loads = true)
    (free : ¬ file.Blocks host loads forced) :
    ∃ after existed counted, ∀ summary : Summary,
      ingestFile host loads forced now (tables, summary) file =
        some (after, summary.include existed counted) := by
  unfold File.isDocument at is
  unfold ingestFile
  cases read : file.read host loads with
  | skipped | raises =>
      rw [read] at is
      cases is
  | document raw doc =>
      have typed : fieldsEncode doc = true ∧ WellTyped host forced doc := by
        by_contra untyped
        exact free (.inr ⟨raw, doc, read, untyped⟩)
      obtain ⟨result, indexed⟩ := Option.isSome_iff_exists.mp
        ((isSome_ingestDocument (now file.path) file.path tables raw).mpr
          typed)
      obtain ⟨after, existed, counted⟩ := result
      refine ⟨after, existed, counted, ?_⟩
      intro summary
      dsimp only
      rw [indexed]
      rfl

private theorem ingestFile_blocks {file : File} (state : Tables × Summary)
    (blocks : file.Blocks host loads forced) :
    ingestFile host loads forced now state file = none := by
  unfold ingestFile
  rcases blocks with raises | untyped
  · rw [raises]
  · obtain ⟨raw, doc, read, untyped⟩ := untyped
    rw [read]
    dsimp only
    have fails : ingestDocument host forced (now file.path) state.1 doc
        file.path raw = none := by
      rw [← Option.not_isSome_iff_eq_none, isSome_ingestDocument]
      exact untyped
    rw [fails]
    rfl

private theorem ingestFile_other {file : File} (now : Str → Str)
    (state : Tables × Summary)
    (other : file.isDocument host loads = false)
    (free : ¬ file.Blocks host loads forced) :
    ingestFile host loads forced now state file =
      some (state.1, { state.2 with skipped := state.2.skipped + 1 }) := by
  unfold File.isDocument at other
  unfold ingestFile
  cases read : file.read host loads with
  | skipped => rfl
  | raises => exact absurd (.inl read) free
  | document raw doc =>
      rw [read] at other
      cases other

/-- What a batch comes to that nothing stops. -/
theorem ingest_of_unblocked (now : Str → Str) (tables : Tables)
    {files : List File} {summary other : Summary}
    (unblocked : ∀ file ∈ files, ¬ file.Blocks host loads forced)
    (agree : summary.Agrees other) :
    ∃ after final otherFinal,
      files.foldlM (ingestFile host loads forced now) (tables, summary) =
        some (after, final) ∧
      (files.filter (File.isDocument host loads)).foldlM
        (ingestFile host loads forced now) (tables, other) =
        some (after, otherFinal) ∧
      final.Agrees otherFinal ∧
      final.skipped = summary.skipped +
        (files.filter fun file => !file.isDocument host loads).length := by
  induction files generalizing tables summary other with
  | nil => exact ⟨tables, summary, other, rfl, rfl, agree, rfl⟩
  | cons file files induction =>
      have free := unblocked file List.mem_cons_self
      have later : ∀ file ∈ files, ¬ file.Blocks host loads forced := by
        intro file member
        exact unblocked file (List.mem_cons_of_mem _ member)
      cases is : file.isDocument host loads with
      | false =>
          have skipped : Summary.Agrees
              { summary with skipped := summary.skipped + 1 } other :=
            ⟨agree.added, agree.deduplicated, agree.relations⟩
          have stepped := ingestFile_other now (tables, summary) is free
          obtain ⟨after, final, otherFinal, ran, otherRan, agrees, count⟩ :=
            induction _ later skipped
          refine ⟨after, final, otherFinal, ?_, ?_, agrees, ?_⟩
          · rw [List.foldlM_cons, stepped]
            exact ran
          · rw [List.filter_cons_of_neg (by simp [is])]
            exact otherRan
          · rw [List.filter_cons_of_pos (by simp [is]), count,
              List.length_cons]
            dsimp only
            omega
      | true =>
          obtain ⟨next, existed, counted, stepped⟩ :=
            ingestFile_document now tables is free
          have agree : (summary.include existed counted).Agrees
              (other.include existed counted) :=
            ⟨congrArg (· + _) agree.added,
              congrArg (· + _) agree.deduplicated,
              congrArg (· ++ counted) agree.relations⟩
          obtain ⟨after, final, otherFinal, ran, otherRan, agrees, count⟩ :=
            induction next later agree
          refine ⟨after, final, otherFinal, ?_, ?_, agrees, ?_⟩
          · rw [List.foldlM_cons, stepped]
            exact ran
          · rw [List.filter_cons_of_pos is, List.foldlM_cons, stepped]
            exact otherRan
          · rw [List.filter_cons_of_neg (by simp [is]), count]
            rfl

theorem ingest_of_blocked {state : Tables × Summary}
    {files : List File}
    (blocked : ∃ file ∈ files, file.Blocks host loads forced) :
    files.foldlM (ingestFile host loads forced now) state = none := by
  induction files generalizing state with
  | nil =>
      obtain ⟨_, member, _⟩ := blocked
      cases member
  | cons file files induction =>
      rw [List.foldlM_cons]
      by_cases here : file.Blocks host loads forced
      · rw [ingestFile_blocks state here]
        rfl
      · have rest : ∃ file ∈ files, file.Blocks host loads forced := by
          obtain ⟨bad, member, blocks⟩ := blocked
          rcases List.mem_cons.mp member with rfl | member
          · exact absurd blocks here
          · exact ⟨bad, member, blocks⟩
        cases ingestFile host loads forced now state file with
        | none => rfl
        | some next => exact induction rest

/-- The documents that a graph has a row for. -/
def Tables.Knows (tables : Tables) (digest : Str) : Prop :=
  (tables.documents.lookup digest).isSome = true

/-- The hash of the document that a file is indexed as. -/
def File.digest? (host : Host) (loads : List Byte → Loaded) (file : File) :
    Option Str :=
  match file.read host loads with
  | .document _ doc => (Json.object doc).canonical.map host.sha256
  | .skipped | .raises => none

private theorem documents_write {tables after : Tables} {write : Write}
    (wrote : tables.write write = some after) :
    after.documents = tables.documents := by
  cases write with
  | node node =>
      cases wrote
      rfl
  | edge edge metadata =>
      have added : tables.addEdge ⟨edge, metadata⟩ = some after := wrote
      unfold Tables.addEdge at added
      split at added
      · cases added
        rfl
      · cases added

private theorem documents_foldlM {tables after : Tables}
    {writes : List Write}
    (wrote : writes.foldlM Tables.write tables = some after) :
    after.documents = tables.documents := by
  induction writes generalizing tables with
  | nil =>
      cases wrote
      rfl
  | cons write writes induction =>
      rw [List.foldlM_cons] at wrote
      obtain ⟨next, here, later⟩ := Option.bind_eq_some_iff.mp wrote
      rw [induction later, documents_write here]

private theorem knows_ingestDocument {tables after : Tables} {doc : Fields}
    {time path : Str} {raw : List Byte} {existed : Bool}
    {counted : List Counter}
    (indexed : ingestDocument host forced time tables doc path raw =
      some (after, existed, counted)) :
    ∃ blob, (Json.object doc).canonical = some blob ∧
      ∀ digest, after.Knows digest ↔
        tables.Knows digest ∨ host.sha256 blob = digest := by
  obtain ⟨blob, encoded, indexed⟩ := Option.bind_eq_some_iff.mp indexed
  obtain ⟨findings, _, indexed⟩ := Option.bind_eq_some_iff.mp indexed
  obtain ⟨final, wrote, indexed⟩ := Option.bind_eq_some_iff.mp indexed
  cases indexed
  refine ⟨blob, encoded, ?_⟩
  intro digest
  rw [Tables.Knows, documents_foldlM wrote, Tables.Knows]
  dsimp only [Tables.addSource, Tables.addDocument]
  rw [Keyed.lookup_putNew, Option.isSome_or, Bool.or_eq_true]
  dsimp only
  split <;> simp_all

/-- A batch adds the documents of its files. -/
theorem knows_ingestPaths {tables : Tables} {files : List File}
    {summary : Summary} {result : Tables × Summary}
    (ran : files.foldlM (ingestFile host loads forced now)
      (tables, summary) = some result) (digest : Str) :
    result.1.Knows digest ↔ tables.Knows digest ∨
      ∃ file ∈ files, file.digest? host loads = some digest := by
  induction files generalizing tables summary with
  | nil =>
      cases ran
      simp
  | cons file files induction =>
      rw [List.foldlM_cons] at ran
      obtain ⟨next, here, later⟩ := Option.bind_eq_some_iff.mp ran
      rw [induction later, List.exists_mem_cons_iff, ← or_assoc]
      apply or_congr_left
      unfold ingestFile at here
      unfold File.digest?
      cases read : file.read host loads with
      | raises =>
          rw [read] at here
          cases here
      | skipped =>
          rw [read] at here
          cases here
          simp
      | document raw doc =>
          rw [read] at here
          obtain ⟨indexed, found, here⟩ := Option.bind_eq_some_iff.mp here
          cases here
          obtain ⟨blob, encoded, knows⟩ := knows_ingestDocument found
          dsimp only
          rw [knows, encoded]
          simp

end Batch

section Both

variable {δ : Type} [DecidableEq δ] (sha256 : List Byte → δ)
  (float : Str → FloatLiteral) (host : Host) (loads : List Byte → Loaded)
  (forced : Option Str) (now : Str → Str) (files : List (Str × List Byte))

def evidenceFiles : List Evidence.File :=
  files.map fun file => .ofBytes float file.1 file.2

def knowledgeFiles : List File :=
  files.map fun file => ⟨file.1, some file.2⟩

/-- The call completes, counts the files that are no evidence, and does to the
store what it does without these. -/
def EvidenceCompletes (unicode : Unicode) (database : Evidence.Database δ)
    (files : List Evidence.File) : Prop :=
  ∃ after report alone,
    Evidence.ingest sha256 unicode false now database files =
      .ok (after, report) ∧
    Evidence.ingest sha256 unicode false now database
      (files.filter Evidence.File.isEvidence) = .ok (after, alone) ∧
    report.Agrees alone ∧
    report.passed = (files.filter fun file => !file.isEvidence).length

def KnowledgeCompletes (tables : Tables) (files : List File) : Prop :=
  ∃ after summary alone,
    ingestPaths host loads forced now tables files = some (after, summary) ∧
    ingestPaths host loads forced now tables
      (files.filter (File.isDocument host loads)) = some (after, alone) ∧
    summary.Agrees alone ∧
    summary.skipped =
      (files.filter fun file => !file.isDocument host loads).length

private theorem present_evidenceFiles :
    ∀ file ∈ evidenceFiles float files, file.content ≠ .missing := by
  intro file member
  obtain ⟨source, _, rfl⟩ := List.mem_map.mp member
  rw [Evidence.File.ofBytes]
  dsimp only
  split <;> simp

private theorem evidenceCompletes_iff {unicode : Unicode}
    {database : Evidence.Database δ} :
    EvidenceCompletes sha256 now unicode database
        (evidenceFiles float files) ↔
      Evidence.Unblocked sha256 unicode database.Knows
        (evidenceFiles float files) := by
  have present := present_evidenceFiles float files
  constructor
  · intro completes
    obtain ⟨after, report, alone, ran, _⟩ := completes
    by_contra blocked
    obtain ⟨failure, stopped⟩ := Evidence.ingest_of_blocked false now
      ⟨0, 0, 0, 0, []⟩ present blocked
    rw [Evidence.ingest, stopped] at ran
    cases ran
  · intro unblocked
    have agree : (⟨0, 0, 0, 0, []⟩ : Evidence.Report δ).Agrees
        ⟨0, 0, 0, 0, []⟩ := ⟨rfl, rfl, rfl⟩
    obtain ⟨after, final, alone, ran, without, agrees, count, _⟩ :=
      Evidence.ingest_of_unblocked now present unblocked agree
    refine ⟨after, final, alone, ran, without, agrees, ?_⟩
    rw [count]
    exact Nat.zero_add _

private theorem knowledgeCompletes_iff {tables : Tables}
    {files : List File} :
    KnowledgeCompletes host loads forced now tables files ↔
      ∀ file ∈ files, ¬ file.Blocks host loads forced := by
  constructor
  · intro completes file member blocks
    obtain ⟨after, summary, alone, ran, _⟩ := completes
    rw [ingestPaths, ingest_of_blocked ⟨file, member, blocks⟩] at ran
    cases ran
  · intro unblocked
    have agree : Summary.Agrees ⟨0, 0, 0, []⟩ ⟨0, 0, 0, []⟩ :=
      ⟨rfl, rfl, rfl⟩
    obtain ⟨after, final, alone, ran, without, agrees, count⟩ :=
      ingest_of_unblocked now tables unblocked agree
    refine ⟨after, final, alone, ran, without, agrees, ?_⟩
    rw [count]
    exact Nat.zero_add _

/-- No bad document blocks a batch exactly when every document can be encoded
and has integers that fit, or is known, and no bytes or documents raise. -/
theorem batches_complete_iff {database : Evidence.Database δ}
    {tables : Tables} :
    EvidenceCompletes sha256 now host.unicode database
        (evidenceFiles float files) ∧
      KnowledgeCompletes host loads forced now tables (knowledgeFiles files) ↔
    Evidence.Unblocked sha256 host.unicode database.Knows
        (evidenceFiles float files) ∧
      ∀ file ∈ knowledgeFiles files, ¬ file.Blocks host loads forced := by
  rw [evidenceCompletes_iff, knowledgeCompletes_iff]

end Both

/-- A note whose text is a lone surrogate. -/
def surrogateNote : Str × List Byte :=
  ("bad.json", (utf8
    "\x7b\"schema\":\"ppc-lab-note-v1\",\"text\":\"\\ud800\"\x7d").getD [])

def plainNote : Str × List Byte :=
  ("good.json", (utf8
    "\x7b\"schema\":\"ppc-lab-note-v1\",\"text\":\"pass\"\x7d").getD [])

/-- The note is added when it is alone, and not when the surrogate comes first.
Bytes that are no text stop a batch of the knowledge graph. -/
theorem bad_document_blocks_batch :
    ((Evidence.ingest Sha256.hexdigest .ascii false (fun _ => "09:00")
      .empty (evidenceFiles (fun _ => .zero) [plainNote])).toOption.map
        (·.2.added)) = some 1 ∧
    ¬ EvidenceCompletes Sha256.hexdigest (fun _ => "09:00") .ascii .empty
      (evidenceFiles (fun _ => .zero) [surrogateNote, plainNote]) ∧
    ∀ host tables, ¬ KnowledgeCompletes host (loadsUtf8 fun _ => .zero) none
      (fun _ => "09:00") tables (knowledgeFiles [("bad.json", [0xff])]) := by
  refine ⟨by decide +kernel, ?_, ?_⟩
  · have stopped : (Evidence.ingest Sha256.hexdigest .ascii false
        (fun _ => "09:00") .empty (evidenceFiles (fun _ => .zero)
          [surrogateNote, plainNote])).toOption.isNone = true := by
      decide +kernel
    intro completes
    obtain ⟨_, _, _, ran, _⟩ := completes
    rw [ran] at stopped
    cases stopped
  · intro host tables completes
    rw [knowledgeCompletes_iff] at completes
    apply completes ⟨"bad.json", some [0xff]⟩ List.mem_cons_self
    exact .inl rfl

end PpcLab.Knowledge
