import PpcLab.Explore.Evaluate

/-!
# Persisted state

Databases and the control plane, what is said about them, and their migration:
up to three stores are checked and rewritten one after the other, each with a
copy of it that is made once.  A copy or a write can fail, or the process can
die there.
-/

namespace PpcLab.Platform

open Explore (Failure sortedSet)
open Security (truthy)

/-- `PLATFORM_VERSION` -/
def platformVersion : Str :=
  str "3.9.4"

/-- `SUPPORTED_PERSISTED_SCHEMA_VERSION` -/
def supportedSchemaVersion : Int :=
  1

def formatKey : Str :=
  str "platform_format_version"

def controlFormatKey : Str :=
  str "format_version"

def migratedByKey : Str :=
  str "last_migrated_by"

/-- What a migration takes from the world around it. -/
structure Tools where
  unicode : Unicode
  numerals : Numerals
  readsOne : numerals.ofText (str "1") = some 1
  /-- The message about a file that is no UTF-8. -/
  decodeError : Str
  /-- The directories of the databases. -/
  evidenceRoot : Str
  knowledgeRoot : Str

structure Info where
  present : Bool
  compatible : Bool
  reason : Option Str
  tables : List Str
  schema : Json
  schemaVersion : Option Int
  formatVersion : Option Int
  lastMigratedBy : Json
  invalidQueueItems : List Str

/-- A store that is not compatible, for a reason. -/
def refused (present : Bool) (reason : Str) : Info :=
  ⟨present, false, some reason, [], .null, none, none, .null, []⟩

/-- `int(item.get("platform_format_version", item.get("format_version", 0)) or
0) < 1` of a store that is compatible -/
def Info.migrationRequired (info : Info) : Bool :=
  info.compatible && decide (info.formatVersion.getD 0 < 1)

structure Database where
  /-- The entries of the table `meta`, if there is that table. -/
  entries : Option (List (Str × Str))
  /-- The other tables and their rows. -/
  others : List (Str × List (List Str))
  noMeta : str "meta" ∉ others.map Prod.fst
  deriving DecidableEq

inductive DatabaseFile where
  | unreadable (reason : Str)
  | database (content : Database)
  deriving DecidableEq

def Database.tables (database : Database) : List Str :=
  database.others.map Prod.fst ++
    if database.entries.isSome then [str "meta"] else []

/-- `meta.get(key)` -/
def Database.entryOf (database : Database) (key : Str) : Option Str :=
  (database.entries.getD []).lookup key

/-- `int(text)` -/
def intOf (tools : Tools) (text : Str) : Except Str Int :=
  match tools.numerals.ofText text with
  | some value => .ok value
  | none => .error (str "invalid literal for int() with base 10: " ++
      tools.unicode.reprStr text)

def databaseInfo (tools : Tools) (expected : List Str) (database : Database) :
    Except Str Info := do
  if expected.all (· ∈ database.tables) then
    let version ← intOf tools
      ((database.entryOf (str "schema_version")).getD (str "0"))
    let format ← intOf tools ((database.entryOf formatKey).getD (str "0"))
    return {
      present := true
      compatible := decide (version = supportedSchemaVersion)
      reason := none
      tables := sortedSet database.tables
      schema := .null
      schemaVersion := some version
      formatVersion := some format
      lastMigratedBy :=
        ((database.entryOf migratedByKey).map Json.string).getD .null
      invalidQueueItems := [] }
  else
    let info := refused true (str "required tables missing")
    return { info with tables := sortedSet database.tables }

def sqliteMeta (tools : Tools) (name : Str) (expected : List Str) :
    Option DatabaseFile → Info
  | none => refused false (str "missing " ++ name)
  | some (.unreadable reason) => refused true reason
  | some (.database database) =>
      match databaseInfo tools expected database with
      | .ok info => info
      | .error reason => refused true reason

/-- `INSERT OR REPLACE` of the two entries -/
def migratedEntries (entries : List (Str × Str)) : List (Str × Str) :=
  Dictionary.assign (Dictionary.assign entries (formatKey, str "1"))
    (migratedByKey, platformVersion)

def Database.migrated (database : Database) : Database :=
  { database with entries := database.entries.map migratedEntries }

def DatabaseFile.migrated : DatabaseFile → DatabaseFile
  | .unreadable reason => .unreadable reason
  | .database content => .database content.migrated

/-- A JSON file as it is read. -/
inductive Document where
  | malformed (reason : Str)
  | undecodable
  | value (content : Json)
  deriving DecidableEq

def isQueueItem : Json → Bool
  | .object item => Json.get item (str "schema") =
      .string (str "ppc-lab-control-item-v1")
  | _ => false

/-- The names of the queue items that are none. -/
def invalidItems (tools : Tools) : List (Str × Document) →
    Except Str (List Str)
  | [] => .ok []
  | (_, .malformed reason) :: _ => .error reason
  | (_, .undecodable) :: _ => .error tools.decodeError
  | (name, .value item) :: queue => do
      let others ← invalidItems tools queue
      return if isQueueItem item then others else name :: others

/-- `int(doc.get("format_version", 0) or 0)`; a message that is reported is one
that the check catches. -/
def controlVersion (tools : Tools) (doc : Fields) : Except Failure Int :=
  match (Json.find? doc controlFormatKey).getD (.int 0) with
  | .array items => if items.isEmpty then .ok 0 else .error .raised
  | .object fields => if fields.isEmpty then .ok 0 else .error .raised
  | .float literal =>
      match tools.numerals.truncated literal with
      | some version => .ok version
      | none =>
          if literal.text ∈ [str "Infinity", str "-Infinity"] then
            .error .raised
          else .error (.reported
            (str "cannot convert float NaN to integer"))
  | value =>
      if truthy value then
        match tools.numerals.int value with
        | some version => .ok version
        | none => .error (.reported
            (str "invalid literal for int() with base 10: " ++
              tools.unicode.repr value))
      else .ok 0

def checkControl (tools : Tools) (queue : List (Str × Document)) :
    Option Document → Except Failure Info
  | none => .ok (refused false (str "missing control.json"))
  | some (.malformed reason) => .ok (refused true reason)
  | some .undecodable => .ok (refused true tools.decodeError)
  | some (.value (.object doc)) =>
      match invalidItems tools queue with
      | .error reason => .ok (refused true reason)
      | .ok bad =>
          match controlVersion tools doc with
          | .error (.reported reason) => .ok (refused true reason)
          | .error failure => .error failure
          | .ok version => .ok {
              present := true
              compatible := decide (Json.get doc (str "schema") =
                .string (str "ppc-lab-control-v1")) && bad.isEmpty
              reason := none
              tables := []
              schema := Json.get doc (str "schema")
              schemaVersion := none
              formatVersion := some version
              lastMigratedBy := Json.get doc migratedByKey
              invalidQueueItems := bad }
  | some (.value _) => .error .raised

/-- The document with the two entries, as it is written and read again: with
its keys in order. -/
def Document.migrated : Document → Document
  | .value (.object doc) => .value (.object (Json.sortedObject
      (Dictionary.assign (Dictionary.assign doc (controlFormatKey, .int 1))
        (migratedByKey, .string platformVersion))))
  | document => document

/-- A kind of store: the check, the migration, and the message about a store
that is not compatible. -/
structure Kind (σ : Type) where
  check : Option σ → Except Failure Info
  write : σ → σ
  refusal : Str

def databaseKind (tools : Tools) (root : Str) (name : String)
    (expected : List Str) : Kind DatabaseFile where
  check file := .ok (sqliteMeta tools (str name) expected file)
  write := DatabaseFile.migrated
  refusal := str "cannot migrate incompatible " ++ root ++ str "/" ++
    str name ++ str ": "

def evidenceKind (tools : Tools) : Kind DatabaseFile :=
  databaseKind tools tools.evidenceRoot "evidence.sqlite3"
    [str "meta", str "artifacts", str "sources", str "inputs"]

def knowledgeKind (tools : Tools) : Kind DatabaseFile :=
  databaseKind tools tools.knowledgeRoot "knowledge.sqlite3"
    [str "meta", str "documents", str "nodes", str "edges"]

def controlKind (tools : Tools) (queue : List (Str × Document)) :
    Kind Document where
  check := checkControl tools queue
  write := Document.migrated
  refusal := str "cannot migrate incompatible control plane: "

/-- A file and its copy `.pre-v3.0.0.bak`. -/
structure Kept (σ : Type) where
  file : Option σ
  backup : Option σ
  deriving DecidableEq

/-- Making the copy fails, and leaves something or nothing; or the write fails,
which leaves the file as it is. -/
inductive Fault (σ : Type) where
  | backing (left : Option σ)
  | writing

section

variable {σ : Type}

/-- `backup_sqlite`, and the copy of `control.json`: nothing is done where there
is a file with the name of the copy. -/
def backUp (fault : Option (Fault σ)) (kept : Kept σ) (file : σ) :
    Except (Kept σ) (Kept σ) :=
  match kept.backup, fault with
  | some _, _ => .ok kept
  | none, some (.backing left) => .error { kept with backup := left }
  | none, _ => .ok { kept with backup := some file }

def writeStore (kind : Kind σ) (fault : Option (Fault σ)) (kept : Kept σ)
    (file : σ) : Except (Kept σ) (Kept σ) :=
  match fault with
  | some .writing => .error kept
  | _ => .ok { kept with file := some (kind.write file) }

/-- `migrate_sqlite` and `migrate_control`: whether something changed, or the
failure, and what is there afterwards. -/
def migrateStore (kind : Kind σ) (fault : Option (Fault σ)) (kept : Kept σ) :
    Except (Failure × Kept σ) (Bool × Kept σ) :=
  match kind.check kept.file, kept.file with
  | .error failure, _ => .error (failure, kept)
  | .ok info, none => .error (.reported (kind.refusal ++
      info.reason.getD (str "schema mismatch")), kept)
  | .ok info, some file =>
      if info.compatible then
        match backUp fault kept file >>= fun kept =>
            writeStore kind fault kept file with
        | .error after => .error (.raised, after)
        | .ok after => .ok (decide (info.formatVersion.getD 0 < 1), after)
      else .error (.reported (kind.refusal ++
        info.reason.getD (str "schema mismatch")), kept)

/-- A store that is not given is not migrated. -/
def migrateGiven (kind : Kind σ) (fault : Option (Fault σ)) :
    Option (Kept σ) →
      Except (Failure × Option (Kept σ)) (Option Bool × Option (Kept σ))
  | none => .ok (none, none)
  | some kept =>
      match migrateStore kind fault kept with
      | .error (failure, after) => .error (failure, some after)
      | .ok (changed, after) => .ok (some changed, some after)

end

structure Stores where
  evidence : Option (Kept DatabaseFile)
  knowledge : Option (Kept DatabaseFile)
  control : Option (Kept Document)
  /-- `queue/*.json` of the control plane, in order. -/
  queue : List (Str × Document)
  deriving DecidableEq

/-- What fails in an attempt. -/
structure Faults where
  evidence : Option (Fault DatabaseFile)
  knowledge : Option (Fault DatabaseFile)
  control : Option (Fault Document)

structure Report where
  components : List (Str × Info)
  compatible : Bool
  migrationRequired : Bool

def component {σ : Type} (name : String) (kind : Kind σ) :
    Option (Kept σ) → Except Failure (List (Str × Info))
  | none => .ok []
  | some kept => do
      let info ← kind.check kept.file
      return [(str name, info)]

def upgradeReport (tools : Tools) (stores : Stores) :
    Except Failure Report := do
  let evidence ← component "evidence" (evidenceKind tools) stores.evidence
  let knowledge ← component "knowledge" (knowledgeKind tools) stores.knowledge
  let control ← component "control" (controlKind tools stores.queue)
    stores.control
  let components := evidence ++ knowledge ++ control
  return ⟨components, components.all fun part => part.2.compatible,
    components.any fun part => part.2.migrationRequired⟩

structure Result where
  evidence : Option Bool
  knowledge : Option Bool
  control : Option Bool
  postcheck : Report

/-- `migrate` -/
def migrate (tools : Tools) (faults : Faults) (stores : Stores) :
    Except (Failure × Stores) (Result × Stores) :=
  match migrateGiven (evidenceKind tools) faults.evidence stores.evidence with
  | .error (failure, after) => .error (failure, { stores with evidence := after })
  | .ok (evidence, after) =>
      let stores := { stores with evidence := after }
      match migrateGiven (knowledgeKind tools) faults.knowledge
          stores.knowledge with
      | .error (failure, after) =>
          .error (failure, { stores with knowledge := after })
      | .ok (knowledge, after) =>
          let stores := { stores with knowledge := after }
          match migrateGiven (controlKind tools stores.queue) faults.control
              stores.control with
          | .error (failure, after) =>
              .error (failure, { stores with control := after })
          | .ok (control, after) =>
              let stores := { stores with control := after }
              match upgradeReport tools stores with
              | .error failure => .error (failure, stores)
              | .ok report => .ok (⟨evidence, knowledge, control, report⟩, stores)

end PpcLab.Platform
