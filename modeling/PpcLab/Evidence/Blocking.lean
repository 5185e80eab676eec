import PpcLab.Evidence.Batch
import PpcLab.Evidence.Repetition

/-!
# What stops a batch of evidence

A batch is committed exactly when no document of it lacks canonical bytes or
has an integer that does not fit its column, and then files that are no
evidence make no difference to the tables.
-/

namespace PpcLab.Evidence

open Json

variable {δ : Type} [DecidableEq δ] {sha256 : List Byte → δ}
  {unicode : Unicode} {now : Str → Str}

/-- The database when the pending operations are done. -/
def Database.after (database : Database δ) (pending : List (Operation δ)) :
    Database δ :=
  pending.foldl Operation.database database

private theorem after_inputs (database : Database δ) (digest : δ)
    (inputs : List InputHash) :
    (database.after (inputs.map fun input => .insertInput ⟨digest, input⟩)) =
      { database with
        inputs := (inputs.map fun input => ⟨digest, input⟩).foldl Keyed.putNew
          database.inputs } := by
  unfold Database.after
  induction inputs generalizing database with
  | nil => rfl
  | cons input inputs induction =>
      rw [List.map_cons, List.foldl_cons, induction]
      rfl

theorem after_evidence (database : Database δ) (row : Artifact δ)
    (canonical : Canonical) (inputs : List InputHash) (source : SourceRow δ) :
    let after := database.after (.insertArtifact row ::
      .writeObject row.sha256 canonical ::
        (inputs.map (fun input => .insertInput ⟨row.sha256, input⟩) ++
          [.insertSource source]))
    after.artifacts = database.artifacts.put row ∧
      after.inputs = (inputs.map fun input => ⟨row.sha256, input⟩).foldl
        Keyed.putNew database.inputs := by
  have inserted := after_inputs
    { database with artifacts := database.artifacts.put row } row.sha256 inputs
  unfold Database.after at inserted ⊢
  rw [List.foldl_cons, List.foldl_cons, List.foldl_append]
  dsimp only [Operation.database]
  rw [inserted]
  exact ⟨rfl, rfl⟩

private theorem foldlM_execute {database : Database δ}
    {operations : List (Operation δ)} :
    operations.foldlM Operation.execute database =
      if ∀ operation ∈ operations, operation.overflows = false then
        .ok (database.after operations)
      else .error .overflow := by
  induction operations generalizing database with
  | nil => rfl
  | cons operation operations induction =>
      rw [List.foldlM_cons, Operation.execute]
      cases overflows : operation.overflows with
      | true =>
          rw [if_pos rfl, if_neg]
          · rfl
          · intro all
            have small := all operation List.mem_cons_self
            rw [overflows] at small
            cases small
      | false =>
          rw [if_neg (by decide)]
          refine induction.trans ?_
          simp [Database.after, overflows]

/-- The documents that a database has a row for. -/
def Database.Knows (database : Database δ) (digest : δ) : Prop :=
  (database.artifacts.lookup digest).isSome = true

private theorem knows_after_evidence {database : Database δ}
    {row : Artifact δ} {canonical : Canonical} {inputs : List InputHash}
    {source : SourceRow δ} :
    (database.after (.insertArtifact row ::
      .writeObject row.sha256 canonical ::
        (inputs.map (fun input => .insertInput ⟨row.sha256, input⟩) ++
          [.insertSource source]))).Knows =
      fun digest => database.Knows digest ∨ row.sha256 = digest := by
  have artifacts := (after_evidence database row canonical inputs source).1
  funext digest
  rw [Database.Knows, artifacts, Database.Knows]
  by_cases same : digest = row.sha256
  · subst same
    rw [Keyed.lookup_put_self]
    simp
  · rw [Keyed.lookup_put_of_ne _ same]
    simp [Ne.symm same]

/-- What a file with a document comes to. -/
inductive Examination (unicode : Unicode) (database : Database δ)
    (document : Document) (digest : Option δ) : Examined δ → Prop where
  | unencodable : digest = none →
      Examination unicode database document digest (.fails .encoding)
  | known {hash : δ} {source : SourceRow δ} : digest = some hash →
      database.Knows hash →
      Examination unicode database document digest
        (.evidence hash false [.insertSource source])
  | fresh {hash : δ} {row : Artifact δ} {canonical : Canonical}
      {source : SourceRow δ} : digest = some hash → row.sha256 = hash →
      ¬ database.Knows hash →
      row.metadata = extractFields unicode document.fields →
      Examination unicode database document digest
        (.evidence hash true (.insertArtifact row ::
          .writeObject hash canonical ::
            ((extractInputs unicode document.fields).map
              (fun input => .insertInput ⟨hash, input⟩) ++
              [.insertSource source])))

private theorem examination (sha256 : List Byte → δ) (unicode : Unicode)
    (database : Database δ) (time : Str) {file : File} {document : Document}
    (read : file.document? = some document) :
    Examination unicode database document (file.digest? sha256)
      (examine sha256 unicode database time file) := by
  rw [File.digest?, read]
  unfold File.document? at read
  unfold examine
  cases content : file.content with
  | missing | malformed reason =>
      rw [content] at read
      cases read
  | json raw value =>
      rw [content] at read
      have same := Document.value_of_ofJson? read
      dsimp only at read ⊢
      rw [read, Option.bind_eq_bind, Option.bind_some, same]
      dsimp only
      cases encoded : Canonical.of? value with
      | none => exact .unencodable rfl
      | some canonical =>
          dsimp only
          split
          · next known => exact .known rfl known
          · next unknown =>
            exact .fresh rfl rfl unknown rfl

private theorem examine_of_none (sha256 : List Byte → δ) (unicode : Unicode)
    (database : Database δ) (time : Str) {file : File} (present : file.content ≠ .missing)
    (read : file.document? = none) :
    ∃ failure, examine sha256 unicode database time file =
        .malformed failure ∨
      examine sha256 unicode database time file = .skipped failure := by
  unfold File.document? at read
  unfold examine
  cases content : file.content with
  | missing => exact absurd content present
  | malformed reason => exact ⟨_, .inl rfl⟩
  | json raw value =>
      rw [content] at read
      dsimp only at read ⊢
      rw [read]
      exact ⟨_, .inr rfl⟩

omit [DecidableEq δ] in
private theorem overflows_fresh {document : Document} {row : Artifact δ}
    (canonical : Canonical) (source : SourceRow δ)
    (metadata : row.metadata = extractFields unicode document.fields) :
    (∀ operation ∈ Operation.insertArtifact row ::
      .writeObject row.sha256 canonical ::
        ((extractInputs unicode document.fields).map
          (fun input => .insertInput ⟨row.sha256, input⟩) ++
          [.insertSource source]), operation.overflows = false) ↔
      document.Fits unicode := by
  simp [Operation.overflows, Document.Fits, metadata, and_assoc,
    or_imp, forall_and]

/-- A file with a document, in a call of either kind. -/
private theorem ingestFile_document (sha256 : List Byte → δ)
    (unicode : Unicode) (now : Str → Str) (strict : Bool)
    (database : Database δ) (report : Report δ) {file : File}
    {document : Document} (read : file.document? = some document) :
    (file.Blocks sha256 unicode database.Knows →
      ∃ failure, ingestFile sha256 unicode strict now (database, report) file =
        .error failure) ∧
    (¬ file.Blocks sha256 unicode database.Knows →
      ∃ after digest isNew, file.digest? sha256 = some digest ∧
        (∀ other, ingestFile sha256 unicode strict now (database, other) file =
          .ok (after, other.include digest isNew)) ∧
        after.Knows = fun other => database.Knows other ∨
          file.digest? sha256 = some other) := by
  have examined := examination sha256 unicode database (now file.path) read
  unfold ingestFile
  dsimp only
  generalize examine sha256 unicode database (now file.path) file = outcome
    at examined
  have blocks : file.Blocks sha256 unicode database.Knows ↔
      ∀ digest, file.digest? sha256 = some digest →
        ¬ database.Knows digest ∧ ¬ document.Fits unicode := by
    rw [File.Blocks, read]
    simp
  rw [blocks]
  cases examined with
  | unencodable none =>
      rw [none]
      refine ⟨fun _ => ⟨_, rfl⟩, ?_⟩
      intro free
      exact absurd (fun digest impossible => nomatch impossible) free
  | @known digest source found held =>
      rw [found]
      constructor
      · intro blocked
        exact absurd held (blocked digest rfl).1
      · intro _
        refine ⟨_, digest, false, rfl, fun other => rfl, ?_⟩
        funext other
        have unchanged : (Operation.database database
            (.insertSource source)).Knows other = database.Knows other := rfl
        rw [unchanged, Option.some.injEq]
        apply propext
        constructor
        · exact .inl
        · intro either
          rcases either with before | rfl
          · exact before
          · exact held
  | @fresh digest row canonical source found same unknown metadata =>
      subst same
      have fits := overflows_fresh canonical source metadata
      rw [found]
      dsimp only
      rw [foldlM_execute]
      constructor
      · intro blocked
        rw [if_neg]
        · exact ⟨_, rfl⟩
        · intro small
          exact (blocked _ rfl).2 (fits.mp small)
      · intro free
        have small : document.Fits unicode := by
          by_contra large
          apply free
          intro digest same
          cases same
          exact ⟨unknown, large⟩
        rw [if_pos (fits.mpr small)]
        refine ⟨_, _, _, rfl, fun other => rfl, ?_⟩
        rw [knows_after_evidence]
        simp only [Option.some.injEq]

/-- Reports that agree on the files that are evidence. -/
structure Report.Agrees (first second : Report δ) : Prop where
  added : first.added = second.added
  deduplicated : first.deduplicated = second.deduplicated
  artifacts : first.artifacts = second.artifacts

/-- The files that are counted as no evidence. -/
def Report.passed (report : Report δ) : Nat :=
  report.skipped + report.malformed

omit [DecidableEq δ] in
private theorem Report.Agrees.include {first second : Report δ}
    (agree : first.Agrees second) (digest : δ) (isNew : Bool) :
    (first.include digest isNew).Agrees (second.include digest isNew) := by
  cases isNew with
  | true =>
      exact ⟨congrArg (· + 1) agree.added, agree.deduplicated,
        congrArg (· ++ [digest]) agree.artifacts⟩
  | false =>
      exact ⟨agree.added, congrArg (· + 1) agree.deduplicated,
        congrArg (· ++ [digest]) agree.artifacts⟩

omit [DecidableEq δ] in
private theorem passed_include (report : Report δ) (digest : δ)
    (isNew : Bool) :
    (report.include digest isNew).passed = report.passed := by
  cases isNew <;> rfl

def File.isEvidence (file : File) : Bool :=
  file.document?.isSome

/-- A file that is no evidence. -/
private theorem ingestFile_other (sha256 : List Byte → δ) (unicode : Unicode)
    (now : Str → Str) (strict : Bool) (database : Database δ)
    (report : Report δ) {file : File} (present : file.content ≠ .missing)
    (read : file.document? = none) :
    ∃ failure other,
      ingestFile sha256 unicode strict now (database, report) file =
        pass strict failure (database, other) ∧
      other.Agrees report ∧ other.passed = report.passed + 1 := by
  obtain ⟨failure, examined⟩ := examine_of_none sha256 unicode database
    (now file.path) present read
  unfold ingestFile
  dsimp only
  rcases examined with malformed | skipped
  · rw [malformed]
    exact ⟨_, _, rfl, ⟨rfl, rfl, rfl⟩, rfl⟩
  · rw [skipped]
    refine ⟨_, _, rfl, ⟨rfl, rfl, rfl⟩, ?_⟩
    exact Nat.add_right_comm _ _ _

omit [DecidableEq δ] in
private theorem digest?_of_none {file : File}
    (read : file.document? = none) : file.digest? sha256 = none := by
  rw [File.digest?, read]
  rfl

omit [DecidableEq δ] in
private theorem unblocked_of_none {known : δ → Prop} {file : File}
    {files : List File} (read : file.document? = none) :
    Unblocked sha256 unicode known (file :: files) ↔
      Unblocked sha256 unicode known files := by
  rw [Unblocked, digest?_of_none read, File.Blocks, read]
  simp

/-- What a batch comes to that nothing stops. -/
theorem ingest_of_unblocked (now : Str → Str) {database : Database δ}
    {files : List File} {report other : Report δ}
    (present : ∀ file ∈ files, file.content ≠ .missing)
    (unblocked : Unblocked sha256 unicode database.Knows files)
    (agree : report.Agrees other) :
    ∃ after final otherFinal,
      files.foldlM (ingestFile sha256 unicode false now) (database, report) =
        .ok (after, final) ∧
      (files.filter File.isEvidence).foldlM
        (ingestFile sha256 unicode false now) (database, other) =
        .ok (after, otherFinal) ∧
      final.Agrees otherFinal ∧
      final.passed = report.passed +
        (files.filter fun file => !file.isEvidence).length ∧
      otherFinal.passed = other.passed := by
  induction files generalizing database report other with
  | nil => exact ⟨database, report, other, rfl, rfl, agree, rfl, rfl⟩
  | cons file files induction =>
      have later : ∀ file ∈ files, file.content ≠ .missing := by
        intro file member
        exact present file (List.mem_cons_of_mem _ member)
      cases read : file.document? with
      | none =>
          have isNot : file.isEvidence = false := by
            rw [File.isEvidence, read]
            rfl
          obtain ⟨failure, next, stepped, same, count⟩ :=
            ingestFile_other sha256 unicode now false database report
              (present file List.mem_cons_self) read
          have rest := (unblocked_of_none read).mp unblocked
          have agree : next.Agrees other :=
            ⟨same.added.trans agree.added,
              same.deduplicated.trans agree.deduplicated,
              same.artifacts.trans agree.artifacts⟩
          obtain ⟨after, final, otherFinal, ran, otherRan, agrees, passed,
            otherPassed⟩ := induction later rest agree
          refine ⟨after, final, otherFinal, ?_, ?_, agrees, ?_, otherPassed⟩
          · rw [List.foldlM_cons, stepped]
            exact ran
          · rw [List.filter_cons_of_neg (by simp [isNot])]
            exact otherRan
          · rw [List.filter_cons_of_pos (by simp [isNot]), passed, count,
              List.length_cons]
            omega
      | some document =>
          have is : file.isEvidence = true := by
            rw [File.isEvidence, read]
            rfl
          obtain ⟨free, rest⟩ := unblocked
          obtain ⟨next, digest, isNew, _, stepped, knows⟩ :=
            (ingestFile_document sha256 unicode now false database report
              read).2 free
          rw [← knows] at rest
          obtain ⟨after, final, otherFinal, ran, otherRan, agrees, passed,
            otherPassed⟩ := induction later rest
              (agree.include digest isNew)
          refine ⟨after, final, otherFinal, ?_, ?_, agrees, ?_, ?_⟩
          · rw [List.foldlM_cons, stepped]
            exact ran
          · rw [List.filter_cons_of_pos is, List.foldlM_cons, stepped]
            exact otherRan
          · rw [List.filter_cons_of_neg (by simp [is]), passed,
              passed_include]
          · rw [otherPassed, passed_include]

/-- A batch that something stops fails. -/
theorem ingest_of_blocked (strict : Bool) (now : Str → Str)
    {database : Database δ} {files : List File} (report : Report δ)
    (present : ∀ file ∈ files, file.content ≠ .missing)
    (blocked : ¬ Unblocked sha256 unicode database.Knows files) :
    ∃ failure, files.foldlM (ingestFile sha256 unicode strict now)
      (database, report) = .error failure := by
  induction files generalizing database report with
  | nil => exact absurd trivial blocked
  | cons file files induction =>
      have later : ∀ file ∈ files, file.content ≠ .missing := by
        intro file member
        exact present file (List.mem_cons_of_mem _ member)
      cases read : file.document? with
      | none =>
          obtain ⟨failure, next, stepped, _⟩ :=
            ingestFile_other sha256 unicode now strict database report
              (present file List.mem_cons_self) read
          rw [unblocked_of_none read] at blocked
          cases strict with
          | true =>
              refine ⟨failure, ?_⟩
              rw [List.foldlM_cons, stepped]
              rfl
          | false =>
              obtain ⟨failure, stopped⟩ := induction next later blocked
              refine ⟨failure, ?_⟩
              rw [List.foldlM_cons, stepped]
              exact stopped
      | some document =>
          obtain ⟨stops, goesOn⟩ :=
            ingestFile_document sha256 unicode now strict database report read
          by_cases here : file.Blocks sha256 unicode database.Knows
          · obtain ⟨failure, stopped⟩ := stops here
            refine ⟨failure, ?_⟩
            rw [List.foldlM_cons, stopped]
            rfl
          · obtain ⟨next, digest, isNew, _, stepped, knows⟩ := goesOn here
            have rest : ¬ Unblocked sha256 unicode next.Knows files := by
              rw [knows]
              intro unblocked
              exact blocked ⟨here, unblocked⟩
            obtain ⟨failure, stopped⟩ := induction _ later rest
            refine ⟨failure, ?_⟩
            rw [List.foldlM_cons, stepped]
            exact stopped

/-- A strict batch is committed when all files are evidence and nothing stops
it, and then the database knows their documents. -/
theorem ingest_strict (now : Str → Str) {database : Database δ}
    {files : List File} (report : Report δ)
    (present : ∀ file ∈ files, file.content ≠ .missing)
    (evidence : ∀ file ∈ files, file.isEvidence = true)
    (unblocked : Unblocked sha256 unicode database.Knows files) :
    ∃ after final, files.foldlM (ingestFile sha256 unicode true now)
        (database, report) = .ok (after, final) ∧
      ∀ digest, after.Knows digest ↔ database.Knows digest ∨
        ∃ file ∈ files, file.digest? sha256 = some digest := by
  induction files generalizing database report with
  | nil =>
      refine ⟨database, report, rfl, ?_⟩
      simp
  | cons file files induction =>
      obtain ⟨free, rest⟩ := unblocked
      obtain ⟨document, read⟩ := Option.isSome_iff_exists.mp
        (evidence file List.mem_cons_self)
      obtain ⟨next, digest, isNew, _, stepped, knows⟩ :=
        (ingestFile_document sha256 unicode now true database report
          read).2 free
      rw [← knows] at rest
      obtain ⟨after, final, ran, known⟩ := induction _
        (fun file member => present file (List.mem_cons_of_mem _ member))
        (fun file member => evidence file (List.mem_cons_of_mem _ member))
        rest
      refine ⟨after, final, ?_, ?_⟩
      · rw [List.foldlM_cons, stepped]
        exact ran
      · intro digest
        rw [known, knows, List.exists_mem_cons_iff, or_assoc]

theorem ingest_strict_other (now : Str → Str) {database : Database δ}
    {files : List File} (report : Report δ)
    (present : ∀ file ∈ files, file.content ≠ .missing)
    (other : ∃ file ∈ files, file.isEvidence = false) :
    ∃ failure, files.foldlM (ingestFile sha256 unicode true now)
      (database, report) = .error failure := by
  induction files generalizing database report with
  | nil =>
      obtain ⟨_, member, _⟩ := other
      cases member
  | cons file files induction =>
      have later : ∀ file ∈ files, file.content ≠ .missing := by
        intro file member
        exact present file (List.mem_cons_of_mem _ member)
      cases read : file.document? with
      | none =>
          obtain ⟨failure, next, stepped, _⟩ :=
            ingestFile_other sha256 unicode now true database report
              (present file List.mem_cons_self) read
          refine ⟨failure, ?_⟩
          rw [List.foldlM_cons, stepped]
          rfl
      | some document =>
          have rest : ∃ file ∈ files, file.isEvidence = false := by
            obtain ⟨bad, member, isNot⟩ := other
            rcases List.mem_cons.mp member with rfl | member
            · rw [File.isEvidence, read] at isNot
              cases isNot
            · exact ⟨bad, member, isNot⟩
          obtain ⟨stops, goesOn⟩ :=
            ingestFile_document sha256 unicode now true database report read
          by_cases here : file.Blocks sha256 unicode database.Knows
          · obtain ⟨failure, stopped⟩ := stops here
            refine ⟨failure, ?_⟩
            rw [List.foldlM_cons, stopped]
            rfl
          · obtain ⟨next, digest, isNew, _, stepped, _⟩ := goesOn here
            obtain ⟨failure, stopped⟩ := induction _ later rest
            refine ⟨failure, ?_⟩
            rw [List.foldlM_cons, stepped]
            exact stopped

end PpcLab.Evidence
