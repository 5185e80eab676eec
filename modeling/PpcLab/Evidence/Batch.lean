import PpcLab.Evidence.Store
import PpcLab.Library.JsonReader
import PpcLab.Library.Outcome

/-!
# Batches of files

A call of `ingest` as one transaction: the database that it commits and what it
reports, or why it fails.  A call that fails changes no table.

A call that is not interrupted does to the store what its batch says, one file
and one operation after the other.
-/

namespace PpcLab.Evidence

open Json

variable {δ : Type} [DecidableEq δ]

/-- A file as it is read: `json.loads(raw.decode("utf-8"))`. -/
def File.ofBytes (float : Str → FloatLiteral) (path : Str)
    (raw : List Byte) : File where
  path := path
  content :=
    match loadsUtf8 float raw with
    | .value value => .json raw value
    | .malformed reason => .malformed reason
    | .undecodable => .malformed "invalid start byte"

def Operation.execute (database : Database δ) (operation : Operation δ) :
    Except Failure (Database δ) :=
  if operation.overflows then .error .overflow
  else .ok (operation.database database)

/-- The report after a file that is evidence. -/
def Report.include (report : Report δ) (digest : δ) (isNew : Bool) :
    Report δ :=
  if isNew then
    { report with
      added := report.added + 1
      artifacts := report.artifacts ++ [digest] }
  else
    { report with
      deduplicated := report.deduplicated + 1
      artifacts := report.artifacts ++ [digest] }

section Batch

variable (sha256 : List Byte → δ) (unicode : Unicode) (strict : Bool)
  (now : Str → Str)

/-- A file that is no evidence is counted unless the call is strict. -/
def pass (failure : Failure) (state : Database δ × Report δ) :
    Except Failure (Database δ × Report δ) :=
  if strict then .error failure else .ok state

/-- What `ingest` does with one file; `now` is the time at a path. -/
def ingestFile (state : Database δ × Report δ) (file : File) :
    Except Failure (Database δ × Report δ) :=
  let report := state.2
  match examine sha256 unicode state.1 (now file.path) file with
  | .fails failure => .error failure
  | .malformed failure =>
      pass strict failure
        (state.1, { report with malformed := report.malformed + 1 })
  | .skipped failure =>
      pass strict failure
        (state.1, { report with skipped := report.skipped + 1 })
  | .evidence digest isNew operations => do
      let database ← operations.foldlM Operation.execute state.1
      return (database, report.include digest isNew)

/-- `ingest` of what `_candidate_files` finds. -/
def ingest (database : Database δ) (files : List File) :
    Except Failure (Database δ × Report δ) :=
  files.foldlM (ingestFile sha256 unicode strict now)
    (database, ⟨0, 0, 0, 0, []⟩)

end Batch

section Blocking

variable (sha256 : List Byte → δ) (unicode : Unicode)

/-- The digest of a document that has canonical bytes. -/
def File.digest? (file : File) : Option δ := do
  let document ← file.document?
  let canonical ← Canonical.of? document.value
  return sha256 canonical.bytes

/-- Every integer of a document fits its column. -/
def Document.Fits (document : Document) : Prop :=
  fitsColumn (extractFields unicode document.fields).exitCode = true ∧
    fitsColumn (extractFields unicode document.fields).instructions = true ∧
    ∀ input ∈ extractInputs unicode document.fields,
      fitsColumn input.size = true

/-- A document that has no canonical bytes, or that is not in the store and has
an integer that does not fit. -/
def File.Blocks (known : δ → Prop) (file : File) : Prop :=
  ∃ document, file.document? = some document ∧
    ∀ digest, file.digest? sha256 = some digest →
      ¬ known digest ∧ ¬ document.Fits unicode

/-- No file of a batch stops it. -/
def Unblocked : (known : δ → Prop) → List File → Prop
  | _, [] => True
  | known, file :: files =>
      ¬ file.Blocks sha256 unicode known ∧
        Unblocked
          (fun digest => known digest ∨ file.digest? sha256 = some digest)
          files

end Blocking

end PpcLab.Evidence

namespace PpcLab.Evidence

variable {δ : Type} [DecidableEq δ] (sha256 : List Byte → δ)
  (unicode : Unicode) (time : Str)

/-- What a batch leaves: the committed database and the results. -/
def Store.after (store : Store δ) (call : Call) :
    Except Failure (Database δ × Report δ) →
      Database δ × List (Call × Outcome δ)
  | .ok (database, report) =>
      (database, store.results ++ [(call, .ingested report)])
  | .error failure =>
      (store.committed, store.results ++ [(call, .failed failure)])

/-- The rest of a session as a batch. -/
def Session.rest (session : Session δ) :
    Except Failure (Database δ × Report δ) := do
  let database ← session.pending.foldlM Operation.execute session.database
  session.files.foldlM
    (ingestFile sha256 unicode session.call.strict fun _ => time)
    (database, session.report)

/-- The session ends with what its rest comes to. -/
def Ends (store : Store δ) (session : Session δ) : Prop :=
  ∃ count final, follow (step sha256 unicode)
      { store with session := some session }
      (List.replicate count (.advance time)) = some final ∧
    final.session = none ∧
    (final.committed, final.results) =
      store.after session.call (session.rest sha256 unicode time)

variable {sha256 unicode time}

/-- A session whose next step ends it. -/
private theorem ends_of_final {store final : Store δ} {session : Session δ}
    (stepped : ({ store with session := some session } : Store δ).advance
      sha256 unicode session time = final)
    (idle : final.session = none)
    (after : (final.committed, final.results) =
      store.after session.call (session.rest sha256 unicode time)) :
    Ends sha256 unicode time store session := by
  refine ⟨1, final, ?_, idle, after⟩
  rw [← stepped]
  rfl

/-- A session whose next step leaves a session that ends. -/
private theorem ends_of_next {store : Store δ} {session : Session δ}
    (objects : Objects δ) (next : Session δ)
    (stepped : ({ store with session := some session } : Store δ).advance
      sha256 unicode session time =
      { store with objects := objects, session := some next })
    (call : next.call = session.call)
    (rest : session.rest sha256 unicode time = next.rest sha256 unicode time)
    (ends : Ends sha256 unicode time { store with objects := objects } next) :
    Ends sha256 unicode time store session := by
  obtain ⟨count, final, ran, idle, after⟩ := ends
  refine ⟨count + 1, final, ?_, idle, ?_⟩
  · have first : step sha256 unicode { store with session := some session }
        (.advance time) =
        some { store with objects := objects, session := some next } :=
      congrArg some stepped
    rw [List.replicate_succ, follow, first]
    exact ran
  · rw [after, call, rest]
    rfl

/-- The operations that are pending come before the files. -/
private theorem ends_pending {call : Call} {files : List File}
    (opened : ∀ (store : Store δ) database report,
      Ends sha256 unicode time store ⟨call, files, [], database, report⟩)
    (pending : List (Operation δ)) (store : Store δ)
    (database : Database δ) (report : Report δ) :
    Ends sha256 unicode time store
      ⟨call, files, pending, database, report⟩ := by
  induction pending generalizing store database with
  | nil => exact opened store database report
  | cons operation pending induction =>
      cases overflows : operation.overflows with
      | true =>
          have stopped : Operation.execute database operation =
              .error .overflow := if_pos overflows
          apply ends_of_final
          · exact if_pos overflows
          · rfl
          · rw [Session.rest, List.foldlM_cons, stopped]
            rfl
      | false =>
          have executed : Operation.execute database operation =
              .ok (operation.database database) := by
            rw [Operation.execute, overflows, if_neg (by decide)]
          refine ends_of_next (operation.objects store.objects)
            ⟨call, files, pending, operation.database database, report⟩ ?_ rfl
            ?_ (induction _ _)
          · refine if_neg ?_
            rw [overflows]
            decide
          · rw [Session.rest, List.foldlM_cons, executed]
            rfl

/-- A file is opened when nothing is pending. -/
private theorem ends_open {call : Call} {file : File} {files : List File}
    (others : ∀ pending (store : Store δ) database report,
      Ends sha256 unicode time store ⟨call, files, pending, database, report⟩)
    (store : Store δ) (database : Database δ) (report : Report δ) :
    Ends sha256 unicode time store
      ⟨call, file :: files, [], database, report⟩ := by
  have rest : Session.rest sha256 unicode time
      ⟨call, file :: files, [], database, report⟩ =
      (ingestFile sha256 unicode call.strict (fun _ => time)
        (database, report) file).bind fun state => files.foldlM
          (ingestFile sha256 unicode call.strict fun _ => time) state := rfl
  have opened : (Store.advance sha256 unicode
      { store with session := some ⟨call, file :: files, [], database, report⟩ }
      ⟨call, file :: files, [], database, report⟩ time) =
      Store.open sha256 unicode
        { store with
          session := some ⟨call, file :: files, [], database, report⟩ }
        ⟨call, files, [], database, report⟩ time file := rfl
  have passing (failure : Failure) (next : Report δ)
      (opened : (Store.advance sha256 unicode
        { store with
          session := some ⟨call, file :: files, [], database, report⟩ }
        ⟨call, file :: files, [], database, report⟩ time) =
        Store.pass
          { store with
            session := some ⟨call, file :: files, [], database, report⟩ }
          ⟨call, files, [], database, report⟩ failure next)
      (rest : Session.rest sha256 unicode time
        ⟨call, file :: files, [], database, report⟩ =
        (pass call.strict failure (database, next)).bind fun state =>
          files.foldlM
            (ingestFile sha256 unicode call.strict fun _ => time) state) :
      Ends sha256 unicode time store
        ⟨call, file :: files, [], database, report⟩ := by
    rw [Store.pass] at opened
    rw [pass] at rest
    dsimp only at opened
    cases strict : call.strict with
    | true =>
        rw [strict, if_pos rfl] at opened rest
        exact ends_of_final opened rfl (by rw [rest]; rfl)
    | false =>
        rw [strict, if_neg (by decide)] at opened rest
        refine ends_of_next store.objects ⟨call, files, [], database, next⟩
          opened rfl ?_ (others _ _ _ _)
        rw [rest, Session.rest, strict]
        rfl
  unfold Store.open at opened
  dsimp only at opened
  have first : ingestFile sha256 unicode call.strict (fun _ => time)
      (database, report) file = _ := rfl
  conv at first => rhs; unfold ingestFile
  dsimp only at first
  cases examined : examine sha256 unicode database time file with
  | fails failure =>
      rw [examined] at opened first
      exact ends_of_final opened rfl (by rw [rest, first]; rfl)
  | malformed failure =>
      rw [examined] at opened first
      exact passing failure _ opened (by rw [rest, first])
  | skipped failure =>
      rw [examined] at opened first
      exact passing failure _ opened (by rw [rest, first])
  | evidence digest isNew operations =>
      rw [examined] at opened first
      dsimp only at first
      refine ends_of_next store.objects ⟨call, files, operations, database,
        report.include digest isNew⟩ ?_ rfl ?_ (others _ _ _ _)
      · rw [opened, Report.include]
      · rw [rest, first, Session.rest]
        cases operations.foldlM Operation.execute database <;> rfl

theorem ends_session (files : List File) (pending : List (Operation δ))
    (store : Store δ) (call : Call) (database : Database δ)
    (report : Report δ) :
    Ends sha256 unicode time store
      ⟨call, files, pending, database, report⟩ := by
  induction files generalizing pending store database report with
  | nil =>
      apply ends_pending
      intro store database report
      exact ends_of_final rfl rfl rfl
  | cons file files induction =>
      apply ends_pending
      exact ends_open induction

/-- A call that nothing interrupts ends as its batch does. -/
theorem follow_ingest (sha256 : List Byte → δ) (unicode : Unicode)
    (time : Str) (store : Store δ) (call : Call) :
    ∃ count final, follow (step sha256 unicode)
        { store with session := none }
        (.ingest call :: List.replicate count (.advance time)) = some final ∧
      final.session = none ∧
      (final.committed, final.results) = store.after call
        (ingest sha256 unicode call.strict (fun _ => time) store.committed
          call.files) :=
  ends_session call.files [] store call store.committed ⟨0, 0, 0, 0, []⟩

end PpcLab.Evidence
