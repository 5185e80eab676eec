import PpcLab.Evidence.Store

/-!
# Moves of the evidence store

What one step of the store can do.  A document whose row is there is only
given a new source; the row of another document comes in first, then its
object, then what belongs to the row.
-/

namespace PpcLab.Evidence

variable {δ : Type} [DecidableEq δ]

/-- Neither a new artifact nor its object. -/
def Operation.Belongs : Operation δ → Prop
  | .insertArtifact _ | .writeObject _ _ => False
  | .insertInput _ | .insertSource _ => True

/-- The text that a document is stored as. -/
def File.Holds (file : File) (canonical : Canonical) : Prop :=
  ∃ document, file.document? = some document ∧
    Canonical.of? document.value = some canonical

section Examine

variable (sha256 : List Byte → δ) (unicode : Unicode)

/-- The row of a document and what belongs to it. -/
def Describes (file : File) (row : Artifact δ) (rest : List (Operation δ)) :
    Prop :=
  ∃ document source, file.document? = some document ∧
    row.metadata = extractFields unicode document.fields ∧
    rest = (extractInputs unicode document.fields).map
      (fun input => .insertInput ⟨row.sha256, input⟩) ++
        [.insertSource source]

/-- The operations for a file that is evidence. -/
inductive Evident (database : Database δ) (file : File) :
    List (Operation δ) → Prop where
  | known {canonical : Canonical} {source : SourceRow δ} :
      file.Holds canonical →
      (database.artifacts.lookup (sha256 canonical.bytes)).isSome →
      Evident database file [.insertSource source]
  | fresh {canonical : Canonical} {row : Artifact δ}
      {rest : List (Operation δ)} :
      file.Holds canonical →
      database.artifacts.lookup (sha256 canonical.bytes) = none →
      row.sha256 = sha256 canonical.bytes →
      row.canonicalSize = canonical.bytes.length →
      Describes unicode file row rest →
      Evident database file
        (.insertArtifact row :: .writeObject (sha256 canonical.bytes) canonical ::
          rest)

variable {sha256} {unicode} {database : Database δ} {now : Str} {file : File}

omit [DecidableEq δ] in
theorem Describes.belongs {row : Artifact δ} {rest : List (Operation δ)}
    (describes : Describes unicode file row rest) :
    ∀ operation ∈ rest, operation.Belongs := by
  obtain ⟨document, source, _, _, rfl⟩ := describes
  intro operation member
  rcases List.mem_append.mp member with input | last
  · obtain ⟨_, _, rfl⟩ := List.mem_map.mp input
    exact trivial
  · rw [List.mem_singleton.mp last]
    exact trivial

theorem evident_of_examine {digest : δ} {isNew : Bool}
    {operations : List (Operation δ)}
    (examined : examine sha256 unicode database now file =
      .evidence digest isNew operations) :
    Evident sha256 unicode database file operations := by
  unfold examine at examined
  cases content : file.content with
  | missing => simp [content] at examined
  | malformed reason => simp [content] at examined
  | json raw value =>
      rw [content] at examined
      dsimp only at examined
      cases read : Document.ofJson? value with
      | none => simp [read] at examined
      | some document =>
          rw [read] at examined
          dsimp only at examined
          cases encoded : Canonical.of? value with
          | none => simp [encoded] at examined
          | some canonical =>
              have found : file.document? = some document := by
                simp [File.document?, content, read]
              have holds : file.Holds canonical := by
                refine ⟨document, found, ?_⟩
                rw [Document.value_of_ofJson? read, encoded]
              rw [encoded] at examined
              dsimp only at examined
              split at examined
              · rename_i known
                cases examined
                exact .known holds known
              · rename_i unknown
                cases examined
                exact .fresh holds (by simpa using unknown) rfl rfl
                  ⟨document, _, found, rfl, rfl⟩

theorem document?_of_examine {failure : Failure}
    (examined : examine sha256 unicode database now file =
        .malformed failure ∨
      examine sha256 unicode database now file = .skipped failure) :
    file.document? = none := by
  unfold examine at examined
  cases content : file.content with
  | missing | malformed reason => simp [File.document?, content]
  | json raw value =>
      cases read : Document.ofJson? value with
      | none => simp [File.document?, content, read]
      | some document =>
          rw [content] at examined
          dsimp only at examined
          rw [read] at examined
          cases encoded : Canonical.of? value with
          | none => simp [encoded] at examined
          | some canonical =>
              rw [encoded] at examined
              dsimp only at examined
              split at examined <;> simp at examined

end Examine

/-- What a step does to the committed database, the objects and the call. -/
inductive Moved (sha256 : List Byte → δ) (unicode : Unicode)
    (store : Store δ) : Event → Store δ → Prop where
  | began {call : Call} : store.session = none →
      Moved sha256 unicode store (.ingest call)
        { store with session := some (.start store.committed call) }
  | ended {event : Event} {results : List (Call × Outcome δ)} :
      (∀ call report, (call, .ingested report) ∈ results →
        (call, .ingested report) ∈ store.results) →
      Moved sha256 unicode store event { store with session := none, results := results }
  | performed {now : Str} {session : Session δ} {operation : Operation δ}
      {pending : List (Operation δ)} :
      store.session = some session →
      session.pending = operation :: pending →
      Moved sha256 unicode store (.advance now)
        { store with
          objects := operation.objects store.objects
          session := some
            { session with
              pending := pending
              database := operation.database session.database } }
  | passed {now : Str} {session : Session δ} {file : File}
      {files : List File} {report : Report δ} :
      store.session = some session → session.pending = [] →
      session.files = file :: files → file.document? = none →
      Moved sha256 unicode store (.advance now)
        { store with
          session := some
            { session with files := files, report := report } }
  | opened {now : Str} {session : Session δ} {file : File}
      {files : List File} {report : Report δ}
      {operations : List (Operation δ)} :
      store.session = some session → session.pending = [] →
      session.files = file :: files →
      Evident sha256 unicode session.database file operations →
      Moved sha256 unicode store (.advance now)
        { store with
          session := some
            { session with
              files := files, pending := operations, report := report } }
  | committed {now : Str} {session : Session δ} :
      store.session = some session → session.pending = [] →
      session.files = [] →
      Moved sha256 unicode store (.advance now) (store.commit session)

section Step

variable {sha256 : List Byte → δ} {unicode : Unicode} {store next : Store δ}

private theorem moved_fail {session : Session δ} {failure : Failure}
    {event : Event} : Moved sha256 unicode store event (store.fail session failure) := by
  refine .ended ?_
  intro call report member
  rcases List.mem_append.mp member with before | last
  · exact before
  · simp at last

private theorem moved_pass {session : Session δ} {failure : Failure}
    {report : Report δ} {now : Str} {file : File} {files : List File}
    (running : store.session = some session) (quiet : session.pending = [])
    (following : session.files = file :: files)
    (none : file.document? = none) :
    Moved sha256 unicode store (.advance now)
      (store.pass { session with files := files } failure report) := by
  unfold Store.pass
  split
  · exact moved_fail
  · exact @Moved.passed _ _ _ _ _ now session file files report running quiet
      following none

private theorem moved_open {session : Session δ} {now : Str} {file : File}
    {files : List File} (running : store.session = some session)
    (quiet : session.pending = []) (following : session.files = file :: files) :
    Moved sha256 unicode store (.advance now)
      (store.open sha256 unicode { session with files := files } now file) := by
  unfold Store.open
  cases examined : examine sha256 unicode session.database now file with
  | fails failure =>
      dsimp only
      exact moved_fail
  | malformed failure =>
      dsimp only
      exact moved_pass running quiet following
        (document?_of_examine (.inl examined))
  | skipped failure =>
      dsimp only
      exact moved_pass running quiet following
        (document?_of_examine (.inr examined))
  | evidence digest isNew operations =>
      dsimp only
      exact .opened running quiet following (evident_of_examine examined)

private theorem moved_advance {session : Session δ} {now : Str}
    (running : store.session = some session) :
    Moved sha256 unicode store (.advance now)
      (store.advance sha256 unicode session now) := by
  unfold Store.advance
  cases next : session.pending with
  | cons operation pending =>
      simp only
      unfold Store.perform
      split
      · exact moved_fail
      · exact @Moved.performed _ _ _ _ _ now session operation pending running
          next
  | nil =>
      cases following : session.files with
      | nil => exact .committed running next following
      | cons file files =>
          have opened : Moved sha256 unicode store (.advance now)
              (store.open sha256 unicode { session with files := files } now
                file) := moved_open running next following
          rw [next] at opened
          exact opened

theorem moved_of_step {event : Event}
    (stepped : step sha256 unicode store event = some next) :
    Moved sha256 unicode store event next := by
  cases event with
  | ingest call =>
      unfold step at stepped
      cases idle : store.session with
      | none =>
          simp only [idle] at stepped
          cases stepped
          exact .began idle
      | some session => simp [idle] at stepped
  | advance now =>
      obtain ⟨session, running, rfl⟩ := Option.map_eq_some_iff.mp stepped
      exact moved_advance running
  | die =>
      obtain ⟨session, running, rfl⟩ := Option.map_eq_some_iff.mp stepped
      exact .ended fun _ _ member => member

end Step

end PpcLab.Evidence
