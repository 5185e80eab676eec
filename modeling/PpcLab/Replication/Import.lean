import PpcLab.Evidence.Batch
import PpcLab.Knowledge.Ingest
import PpcLab.Replication.Archive

/-!
# Imports of bundles

An import verifies a bundle, looks for a receipt, unpacks the members and then
merges them into the evidence store, into the knowledge graph and into the
archive of histories, one after the other.  What is merged stays when a later
step fails.
-/

namespace PpcLab.Replication.Import

open Json
open Archive (Reader ZipInfo BundleFile readMember)

/-- A receipt file; the document is nothing where it cannot be read as one. -/
structure ReceiptFile where
  key : Str × Int
  doc : Option Fields

structure HistoryFile where
  key : Str × Int
  raw : List Byte

/-- What an import changes: two stores, and files under the root. -/
structure Site where
  evidence : Evidence.Database Str
  knowledge : Knowledge.Tables
  receipts : Keyed ReceiptFile.key
  histories : Keyed HistoryFile.key

/-- The argument for a store, and whether the store can be opened. -/
inductive Destination where
  | none
  | unusable
  | store
  deriving DecidableEq

/-- How a text file is written; a file that is torn holds something else. -/
inductive Writing where
  | done
  | refused
  | torn (left : List Byte)

/-- An import: the bundle, the destinations, and what the file system does
with temporary files, the receipt and the archive of the history.  The receipt
is looked for before it is written, and that can fail. -/
structure Request where
  path : Str
  file : Option BundleFile
  bundleSha256 : Str
  evidence : Destination
  knowledge : Destination
  directory : Str
  isWritable : Str → Bool
  isFound : Bool
  history : Writing
  receipt : Bool
  importedAt : Str

/-- What Python brings along. -/
structure Python where
  reader : Reader
  float : Str → FloatLiteral
  sha256 : List Byte → Str
  sha1 : List Byte → Str
  now : Str → Str

def Python.host (python : Python) : Knowledge.Host where
  unicode := python.reader.unicode
  numerals := python.reader.numerals
  sha256 := python.sha256
  sha1 := python.sha1

inductive Failure where
  | unverified (stop : Archive.Stop)
  | verification (errors : List Str)
  | receiptUnreadable
  | conflict
  | unpacking
  | evidenceDestination
  | evidenceStore
  | evidence (failure : Evidence.Failure)
  | knowledgeDestination
  | knowledgeGraph
  | knowledge
  | history
  | receipt
  deriving DecidableEq

/-- The members in the temporary directory; a name that is written twice has
the later contents. -/
structure Unpacked where
  evidence : List (Str × List Byte)
  knowledge : List (Str × List Byte)
  history : List Str

/-- `Path(name).name` -/
def fileName (name : Str) : Str :=
  (Paths.pureParts name).getLastD []

section Import

variable (python : Python)

def unpackMember (request : Request) (infos : List ZipInfo) (name : Str)
    (unpacked : Unpacked) : Except Failure Unpacked :=
  match readMember infos name with
  | .error _ => .error .unpacking
  | .ok data =>
      if (str "evidence/").isPrefixOf name then
        if request.isWritable (fileName name) then
          .ok { unpacked with
            evidence := Dictionary.assign unpacked.evidence
              (fileName name, data) }
        else .error .unpacking
      else if (str "knowledge/").isPrefixOf name then
        if request.isWritable (fileName name) then
          .ok { unpacked with
            knowledge := Dictionary.assign unpacked.knowledge
              (fileName name, data) }
        else .error .unpacking
      else if name = str "control/history.ndjson" then
        match decodeUtf8 data with
        | some text => .ok { unpacked with history := Lines.splitLines text }
        | none => .error .unpacking
      else .ok unpacked

/-- `item["path"]` is no member where it is no string. -/
def unpackItem (request : Request) (infos : List ZipInfo)
    (unpacked : Unpacked) (item : Json) : Except Failure Unpacked :=
  match get (dict item) "path" with
  | .string name => unpackMember request infos name unpacked
  | _ => .error .unpacking

def unpack (request : Request) (manifest : Fields) : Except Failure Unpacked :=
  match request.file.map BundleFile.archive with
  | some (.ok infos) =>
      (Archive.listedItems manifest).foldlM (unpackItem request infos)
        ⟨[], [], []⟩
  | _ => .error .unpacking

def temporary (request : Request) (folder name : Str) : Str :=
  request.directory ++ "/" ++ folder ++ "/" ++ name

def Unpacked.evidenceFiles (unpacked : Unpacked) (request : Request) :
    List Evidence.File :=
  unpacked.evidence.map fun file =>
    .ofBytes python.float (temporary request "evidence" file.1) file.2

def Unpacked.knowledgeFiles (unpacked : Unpacked) (request : Request) :
    List Knowledge.File :=
  unpacked.knowledge.map fun file =>
    ⟨temporary request "knowledge" file.1, some file.2⟩

def importEvidence (destination : Destination)
    (database : Evidence.Database Str) (files : List Evidence.File) :
    Except Failure (Evidence.Database Str × Fields) :=
  if files = [] then
    .ok (database, [("objects", .int 0), ("ingested", .int 0)])
  else
    match destination with
    | .none => .error .evidenceDestination
    | .unusable => .error .evidenceStore
    | .store =>
        match Evidence.ingest python.sha256 python.reader.unicode true
            python.now database files with
        | .error failure => .error (.evidence failure)
        | .ok (database, report) =>
            .ok (database, [("objects", .int files.length),
              ("ingested", .int report.artifacts.length)])

def importKnowledge (destination : Destination) (tables : Knowledge.Tables)
    (files : List Knowledge.File) :
    Except Failure (Knowledge.Tables × Fields) :=
  if files = [] then
    .ok (tables, [("documents", .int 0), ("ingested", .int 0)])
  else
    match destination with
    | .none => .error .knowledgeDestination
    | .unusable => .error .knowledgeGraph
    | .store =>
        match Knowledge.ingestPaths python.host python.reader.loads none
            python.now tables files with
        | none => .error .knowledge
        | some (tables, summary) =>
            .ok (tables, [("documents", .int files.length),
              ("ingested", .int summary.added),
              ("deduplicated", .int summary.deduplicated)])

/-- `"\n".join(history_lines) + "\n"` -/
def historyRaw (lines : List Str) : List Byte :=
  (utf8 (List.intercalate [lineFeed] lines ++ [lineFeed])).getD []

/-- The archive of a history, and whether it is written to its end. -/
def writeHistory (request : Request) (key : Str × Int) (lines : List Str)
    (histories : Keyed HistoryFile.key) : Bool × Keyed HistoryFile.key :=
  if lines = [] then (true, histories)
  else
    match request.history with
    | .done => (true, histories.put ⟨key, historyRaw lines⟩)
    | .refused => (false, histories)
    | .torn left => (false, histories.put ⟨key, left⟩)

def receiptSchema : Json :=
  .string "ppc-lab-replication-receipt-v1"

/-- `int(manifest["generation"])` of a manifest that is verified. -/
def generationOf (manifest : Fields) : Int :=
  (python.reader.numerals.int (get manifest "generation")).getD 0

def keyOf (manifest : Fields) : Str × Int :=
  (Archive.siteOf python.reader manifest, generationOf python manifest)

def bundleIdOf (manifest : Fields) : Str :=
  python.reader.unicode.toStr (get manifest "bundle_id")

def receiptDoc (request : Request) (manifest evidence knowledge : Fields)
    (records : Nat) : Fields :=
  [("schema", receiptSchema), ("replication_api", .int 1),
    ("status", .string "imported"),
    ("source_site", .string (keyOf python manifest).1),
    ("generation", .int (keyOf python manifest).2),
    ("bundle_id", .string (bundleIdOf python manifest)),
    ("bundle_sha256", .string request.bundleSha256),
    ("imported_at", .string request.importedAt),
    ("evidence", .object evidence), ("knowledge", .object knowledge),
    ("control_history", .object [("records", .int records)])]

/-- What is returned for a generation that has a receipt. -/
def alreadyImported (manifest : Fields) : Option Fields → Except Failure Fields
  | none => .error .receiptUnreadable
  | some old =>
      if get old "bundle_id" = .string (bundleIdOf python manifest) then
        .ok [("schema", receiptSchema), ("status", .string "already-imported"),
          ("source_site", .string (keyOf python manifest).1),
          ("generation", .int (keyOf python manifest).2),
          ("bundle_id", .string (bundleIdOf python manifest)),
          ("evidence", (find? old "evidence").getD (.object [])),
          ("knowledge", (find? old "knowledge").getD (.object [])),
          ("control_history",
            (find? old "control_history").getD (.object []))]
      else .error .conflict

/-- The last steps: the archive of the history, and the receipt. -/
def conclude (request : Request) (manifest : Fields) (lines : List Str)
    (evidence knowledge : Fields) (site : Site) :
    Except Failure Fields × Site :=
  let key := keyOf python manifest
  let (written, histories) := writeHistory request key lines site.histories
  let site := { site with histories := histories }
  if written then
    if request.receipt then
      let doc :=
        receiptDoc python request manifest evidence knowledge lines.length
      (.ok doc, { site with receipts := site.receipts.put ⟨key, some doc⟩ })
    else (.error .receipt, site)
  else (.error .history, site)

def merge (request : Request) (manifest : Fields) (unpacked : Unpacked)
    (site : Site) : Except Failure Fields × Site :=
  match importEvidence python request.evidence site.evidence
      (unpacked.evidenceFiles python request) with
  | .error failure => (.error failure, site)
  | .ok (database, evidence) =>
      let site := { site with evidence := database }
      match importKnowledge python request.knowledge site.knowledge
          (unpacked.knowledgeFiles request) with
      | .error failure => (.error failure, site)
      | .ok (tables, knowledge) =>
          conclude python request manifest unpacked.history evidence knowledge
            { site with knowledge := tables }

/-- `import_bundle` -/
def importBundle (request : Request) (site : Site) :
    Except Failure Fields × Site :=
  match Archive.verifyBundle python.sha256 python.reader request.path
      request.file with
  | .error stop => (.error (.unverified stop), site)
  | .ok (manifest, []) =>
      if request.isFound then
        match site.receipts.lookup (keyOf python manifest) with
        | some receipt => (alreadyImported python manifest receipt.doc, site)
        | none =>
            match unpack request manifest with
            | .error failure => (.error failure, site)
            | .ok unpacked => merge python request manifest unpacked site
      else (.error .receiptUnreadable, site)
  | .ok (_, error :: errors) => (.error (.verification (error :: errors)), site)

end Import

end PpcLab.Replication.Import
