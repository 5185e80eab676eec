import PpcLab.Evidence.Extract
import PpcLab.Library.Keyed
import PpcLab.Library.Runs

/-!
# The evidence store

A database of rows beside a directory of objects.  A call that ingests files
works on a database of its own until it commits; the objects that it writes
are there at once.  A call that fails or dies leaves the committed database as
it was.
-/

namespace PpcLab.Evidence

variable {δ : Type} [DecidableEq δ]

structure Artifact (δ : Type) where
  sha256 : δ
  canonicalSize : Nat
  firstIngested : Str
  metadata : Metadata
  deriving DecidableEq

/-- A row of `inputs`; the artifact is named by its hash. -/
structure InputRow (δ : Type) where
  artifact : δ
  input : InputHash
  deriving DecidableEq

structure SourceRow (δ : Type) where
  artifact : δ
  sourcePath : Str
  rawSha256 : δ
  rawSize : Nat
  ingestedAt : Str
  deriving DecidableEq

def InputRow.key (row : InputRow δ) : δ × Str × Str :=
  (row.artifact, row.input.fieldName, row.input.sha256)

def SourceRow.key (row : SourceRow δ) : δ × Str × δ :=
  (row.artifact, row.sourcePath, row.rawSha256)

structure Database (δ : Type) [DecidableEq δ] where
  artifacts : Keyed fun row : Artifact δ => row.sha256
  inputs : Keyed (InputRow.key (δ := δ))
  sources : Keyed (SourceRow.key (δ := δ))

def Database.empty : Database δ :=
  ⟨.empty, .empty, .empty⟩

/-- The files under `objects`, each named by its hash. -/
abbrev Objects (δ : Type) [DecidableEq δ] :=
  Keyed (Prod.fst : δ × Canonical → δ)

inductive Operation (δ : Type) where
  | insertArtifact (row : Artifact δ)
  | writeObject (digest : δ) (canonical : Canonical)
  | insertInput (row : InputRow δ)
  | insertSource (row : SourceRow δ)

/-- An integer column holds 64 bits. -/
def fitsColumn (value : Option Int) : Bool :=
  value.all fun value => -2 ^ 63 ≤ value && value < 2 ^ 63

namespace Operation

def overflows : Operation δ → Bool
  | .insertArtifact row =>
      !(fitsColumn row.metadata.exitCode &&
        fitsColumn row.metadata.instructions)
  | .insertInput row => !fitsColumn row.input.size
  | .writeObject _ _ | .insertSource _ => false

def database (database : Database δ) : Operation δ → Database δ
  | .insertArtifact row =>
      { database with artifacts := database.artifacts.put row }
  | .writeObject _ _ => database
  | .insertInput row =>
      { database with inputs := database.inputs.putNew row }
  | .insertSource row =>
      { database with sources := database.sources.putNew row }

/-- `_atomic_bytes` -/
def objects (objects : Objects δ) : Operation δ → Objects δ
  | .writeObject digest canonical => objects.put (digest, canonical)
  | _ => objects

end Operation

/-- What is found under a path. -/
inductive Content where
  | missing
  | malformed (reason : Str)
  | json (raw : List Byte) (value : Json)
  deriving DecidableEq

structure File where
  path : Str
  content : Content
  deriving DecidableEq

def File.document? (file : File) : Option Document :=
  match file.content with
  | .json _ value => Document.ofJson? value
  | _ => none

/-- Why a call ends without a report. -/
inductive Failure where
  | missing (path : Str)
  | malformed (path reason : Str)
  | notEvidence (path : Str)
  | encoding
  | overflow
  deriving DecidableEq

/-- The text of an `EvidenceError`; the other failures are not caught. -/
def Failure.message : Failure → Option Str
  | .missing path => some ("input does not exist: " ++ path)
  | .malformed path reason =>
      some ("cannot parse JSON " ++ path ++ ": " ++ reason)
  | .notEvidence path => some ("not a PPC Lab evidence document: " ++ path)
  | .encoding | .overflow => none

section Ingest

variable (sha256 : List Byte → δ) (unicode : Unicode)

inductive Examined (δ : Type) where
  | fails (failure : Failure)
  | malformed (failure : Failure)
  | skipped (failure : Failure)
  | evidence (digest : δ) (isNew : Bool) (operations : List (Operation δ))

/-- What `ingest` does with one file. -/
def examine (database : Database δ) (now : Str) (file : File) : Examined δ :=
  match file.content with
  | .missing => .fails (.missing file.path)
  | .malformed reason => .malformed (.malformed file.path reason)
  | .json raw value =>
      match Document.ofJson? value with
      | none => .skipped (.notEvidence file.path)
      | some document =>
          match Canonical.of? value with
          | none => .fails .encoding
          | some canonical =>
              let digest := sha256 canonical.bytes
              let source : SourceRow δ :=
                { artifact := digest
                  sourcePath := file.path
                  rawSha256 := sha256 raw
                  rawSize := raw.length
                  ingestedAt := now }
              if (database.artifacts.lookup digest).isSome then
                .evidence digest false [.insertSource source]
              else
                let row : Artifact δ :=
                  { sha256 := digest
                    canonicalSize := canonical.bytes.length
                    firstIngested := now
                    metadata := extractFields unicode document.fields }
                let inputs := (extractInputs unicode document.fields).map
                  fun input => .insertInput ⟨digest, input⟩
                .evidence digest true
                  (.insertArtifact row :: .writeObject digest canonical ::
                    (inputs ++ [.insertSource source]))

end Ingest

/-- What a call of `ingest` is given; directories stand for their files. -/
structure Call where
  files : List File
  strict : Bool
  deriving DecidableEq

structure Report (δ : Type) where
  added : Nat
  deduplicated : Nat
  skipped : Nat
  malformed : Nat
  artifacts : List δ
  deriving DecidableEq

inductive Outcome (δ : Type) where
  | ingested (report : Report δ)
  | failed (failure : Failure)
  deriving DecidableEq

/-- A call that is running. -/
structure Session (δ : Type) [DecidableEq δ] where
  call : Call
  files : List File
  pending : List (Operation δ)
  database : Database δ
  report : Report δ

structure Store (δ : Type) [DecidableEq δ] where
  committed : Database δ
  objects : Objects δ
  session : Option (Session δ)
  results : List (Call × Outcome δ)

/-- What `init_store` makes. -/
def Store.initialized : Store δ :=
  ⟨.empty, .empty, none, []⟩

inductive Event where
  | ingest (call : Call)
  | advance (now : Str)
  | die

def Session.start (committed : Database δ) (call : Call) : Session δ :=
  ⟨call, call.files, [], committed, ⟨0, 0, 0, 0, []⟩⟩

def Store.fail (store : Store δ) (session : Session δ) (failure : Failure) :
    Store δ :=
  { store with
    session := none
    results := store.results ++ [(session.call, .failed failure)] }

def Store.commit (store : Store δ) (session : Session δ) : Store δ :=
  { store with
    committed := session.database
    session := none
    results := store.results ++ [(session.call, .ingested session.report)] }

section Step

variable (sha256 : List Byte → δ) (unicode : Unicode)

/-- A file that is no evidence ends a strict call. -/
def Store.pass (store : Store δ) (session : Session δ) (failure : Failure)
    (report : Report δ) : Store δ :=
  if session.call.strict then store.fail session failure
  else { store with session := some { session with report := report } }

def Store.open (store : Store δ) (session : Session δ) (now : Str)
    (file : File) : Store δ :=
  let report := session.report
  match examine sha256 unicode session.database now file with
  | .fails failure => store.fail session failure
  | .malformed failure =>
      store.pass session failure
        { report with malformed := report.malformed + 1 }
  | .skipped failure =>
      store.pass session failure { report with skipped := report.skipped + 1 }
  | .evidence digest isNew operations =>
      let artifacts := report.artifacts ++ [digest]
      let report :=
        if isNew then
          { report with added := report.added + 1, artifacts := artifacts }
        else
          { report with
            deduplicated := report.deduplicated + 1
            artifacts := artifacts }
      { store with
        session := some
          { session with pending := operations, report := report } }

def Store.perform (store : Store δ) (session : Session δ)
    (operation : Operation δ) : Store δ :=
  if operation.overflows then store.fail session .overflow
  else
    { store with
      objects := operation.objects store.objects
      session := some
        { session with database := operation.database session.database } }

def Store.advance (store : Store δ) (session : Session δ) (now : Str) :
    Store δ :=
  match session.pending, session.files with
  | operation :: pending, _ =>
      store.perform { session with pending := pending } operation
  | [], file :: files =>
      store.open sha256 unicode { session with files := files } now file
  | [], [] => store.commit session

/-- One store, one call at a time, which can die between any two
operations. -/
def step (store : Store δ) : Event → Option (Store δ)
  | .ingest call =>
      match store.session with
      | none =>
          some { store with
            session := some (.start store.committed call) }
      | some _ => none
  | .advance now =>
      store.session.map fun session =>
        store.advance sha256 unicode session now
  | .die => store.session.map fun _ => { store with session := none }

structure Verification (δ : Type) where
  ok : Bool
  missing : List δ
  corrupt : List δ
  orphans : List δ

/-- `verify` -/
def verify (store : Store δ) : Verification δ :=
  let rows := store.committed.artifacts.entries
  let isMissing (row : Artifact δ) : Bool :=
    (store.objects.lookup row.sha256).isNone
  let isCorrupt (row : Artifact δ) : Bool :=
    (store.objects.lookup row.sha256).any fun object =>
      object.2.bytes.length != row.canonicalSize ||
        sha256 object.2.bytes != row.sha256
  let missing := (rows.filter isMissing).map (·.sha256)
  let corrupt := (rows.filter isCorrupt).map (·.sha256)
  { ok := missing.isEmpty && corrupt.isEmpty
    missing := missing
    corrupt := corrupt
    orphans := store.objects.keys.filter fun digest =>
      (store.committed.artifacts.lookup digest).isNone }

end Step

end PpcLab.Evidence
