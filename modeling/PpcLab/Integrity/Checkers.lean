import PpcLab.Backup.Archive
import PpcLab.Explore.Hypotheses

/-!
# Integrity checkers

Backups, releases, support bundles and audit logs are checked as somebody hands
them over.  A checker returns the errors that it finds or raises, and what it
raises is handled by itself, by its command or by nobody.
-/

namespace PpcLab.Integrity

open Backup (hasDigest hasSize isPermitted isUnhashable membersErrors place?)
open Explore (sortedSet)
open Json (asObject? asString? find? get)
open Trees (Tree)

/-- What is raised, as far as the handlers tell it apart: the error of a tool,
`BadZipFile`, `OSError`, `KeyError`, `JSONDecodeError`, any other `ValueError`,
and all the rest. -/
inductive Exception where
  | own (message : Str)
  | badZip (message : Str)
  | os (message : Str)
  | key (message : Str)
  | json (message : Str)
  | value (message : Str)
  | other (message : Str)
  deriving DecidableEq

namespace Exception

/-- `str(exc)` -/
def message : Exception → Str
  | own text | badZip text | os text | key text | json text | value text
  | other text => text

def isOther : Exception → Bool
  | other _ => true
  | _ => false

/-- The handler in `read_and_verify` -/
def caughtByBackup : Exception → Bool
  | badZip _ | os _ | json _ | key _ | value _ => true
  | own _ | other _ => false

/-- The handler in `release_doc` -/
def caughtByRelease : Exception → Bool
  | badZip _ | os _ | json _ | key _ => true
  | own _ | value _ | other _ => false

/-- The handlers of the commands: the error of the tool, `OSError` and
`ValueError`. -/
def handledByCommand : Exception → Bool
  | own _ | os _ | json _ | value _ => true
  | badZip _ | key _ | other _ => false

/-- The handler of `ppc-lab-support` -/
def handledBySupport : Exception → Bool
  | badZip _ => true
  | exception => exception.handledByCommand

end Exception

/-- A handler that raises the error of the tool instead. -/
def caught {α : Type} (catches : Exception → Bool) (context : Str) :
    Except Exception α → Except Exception α
  | .ok result => .ok result
  | .error exception =>
      if catches exception then .error (.own (context ++ exception.message))
      else .error exception

def typeName : Json → Str
  | .null => str "NoneType"
  | .bool _ => str "bool"
  | .int _ => str "int"
  | .float _ => str "float"
  | .string _ => str "str"
  | .array _ => str "list"
  | .object _ => str "dict"

/-- `value.get(..)` of what is no dictionary -/
def noGet (value : Json) : Exception :=
  .other (str "'" ++ typeName value ++ str "' object has no attribute 'get'")

def asDict : Json → Except Exception Fields
  | .object fields => .ok fields
  | value => .error (noGet value)

/-- A member, and what reading it comes to: it can be damaged, encrypted or
compressed in an unknown way. -/
structure Member where
  filename : Str
  externalAttr : Nat
  content : Except Exception (List Byte)

/-- What opening a file comes to. -/
abbrev Archive :=
  Except Exception (List Member)

def names (members : List Member) : List Str :=
  members.map Member.filename

def Member.isDirectory (member : Member) : Bool :=
  member.filename.getLast? == some Paths.slash

def Member.isSymlink (member : Member) : Bool :=
  (member.externalAttr >>> 16) &&& 0o170000 == 0o120000

/-- `read`: the last member with a name. -/
def readMember (members : List Member) (name : Str) :
    Except Exception (List Byte) :=
  match members.reverse.find? (·.filename == name) with
  | some member => member.content
  | none => .error (.key (str "There is no item named " ++ name))

/-- What the checkers take from the world around them. -/
structure World where
  unicode : Unicode
  doubles : Doubles
  /-- `json.loads(data.decode("utf-8"))` -/
  decode : List Byte → Except Exception Json
  /-- `json.loads(data)` -/
  loads : List Byte → Except Exception Json
  /-- `int(text, 8)` -/
  octal : Str → Except Exception Int
  /-- The permissions after `chmod`. -/
  chmod : Int → Except Exception Nat
  /-- The process may write every file. -/
  overrides : Bool
  /-- What the integrity checks of the databases find. -/
  databases : Tree → Except Exception (List Str)

/-- `for x in manifest.get("files", [])` -/
def filesOf (manifest : Fields) : Except Exception (List Json) :=
  match find? manifest (str "files") with
  | none | some (.object _) | some (.string _) => .ok []
  | some (.array items) => .ok items
  | some value => .error
      (.other (str "'" ++ typeName value ++ str "' object is not iterable"))

/-- The entries, which are the dictionaries of a list. -/
def entriesOf (items : List Json) : List Fields :=
  items.filterMap asObject?

def pathOf (entry : Fields) : Json :=
  get entry (str "path")

def isText (value : Json) : Bool :=
  (asString? value).isSome

def unhashable : Exception :=
  .other (str "unhashable type")

/-- The texts and other values that are no texts cannot be sorted or joined. -/
def noText : Exception :=
  .other (str "expected str instance")

/-- `{x.get("path"): x}` of entries with texts as their paths -/
def tableOf (entries : List Fields) : List (Str × Fields) :=
  (entries.map fun entry => ((asString? (pathOf entry)).getD [], entry)).foldl
    Dictionary.assign []

/-- The same of entries with any paths, where a path that is no text is
`mismatch`. -/
def table (mismatch : Exception) (entries : List Fields) :
    Except Exception (List (Str × Fields)) :=
  if entries.any fun entry => isUnhashable (pathOf entry) then
    .error unhashable
  else if entries.all fun entry => isText (pathOf entry) then
    .ok (tableOf entries)
  else .error mismatch

/-- `json.loads(zf.read(name).decode("utf-8"))`, which has to be a
dictionary -/
def readManifest (world : World) (name : Str) (members : List Member) :
    Except Exception Fields := do
  let bytes ← readMember members name
  let value ← world.decode bytes
  asDict value

/-- `set(names) - {manifest}` -/
def memberSet (manifestName : Str) (members : List Member) : List Str :=
  ((names members).filter (· ≠ manifestName)).dedup

def backupName : Str :=
  str "BACKUP-MANIFEST.json"

def checkBackupMember (member : Member) : Except Exception Unit :=
  if (place? member.filename).isNone then
    .error (.own (str "unsafe backup member: " ++ member.filename))
  else if member.isDirectory then
    .error (.own
      (str "directory members are not permitted: " ++ member.filename))
  else if member.isSymlink then
    .error (.own (str "symlink members are not permitted: " ++ member.filename))
  else .ok ()

def backupContentErrors (doubles : Doubles) (entry : Fields) (name : Str)
    (bytes : List Byte) : List Str :=
  (if hasSize doubles entry bytes then []
    else [str "size mismatch: " ++ name]) ++
  (if hasDigest entry bytes then [] else [str "hash mismatch: " ++ name]) ++
  (if isPermitted name then []
    else [str "member outside permitted backup roots: " ++ name])

def checkContent (world : World) (members : List Member)
    (entries : List (Str × Fields)) (name : Str) :
    Except Exception (List Str) := do
  let bytes ← readMember members name
  return backupContentErrors world.doubles ((entries.lookup name).getD [])
    name bytes

def declaresPolicy (policy : Fields) : Bool :=
  decide (get policy (str "target_binaries_copied") = .bool false ∧
    get policy (str "api_secrets_copied") = .bool false)

def policyErrors (manifest : Fields) : Except Exception (List Str) := do
  let policy ← asDict ((find? manifest (str "policy")).getD (.object []))
  return if declaresPolicy policy then [] else [str
    "backup policy must declare no target binaries and no API secrets"]

def backupSchemaErrors (manifest : Fields) : List Str :=
  if get manifest (str "schema") = .string (str "ppc-lab-backup-v1") then []
  else [str "schema must be ppc-lab-backup-v1"]

/-- `int(expected[name].get("mode", "0644"), 8)` -/
def modeOf (world : World) (entry : Fields) : Except Exception Int :=
  match (find? entry (str "mode")).getD (.string (str "0644")) with
  | .string text => world.octal text
  | _ => .error
      (.other (str "int() can't convert non-string with explicit base"))

def cannotWrite : Exception :=
  .os (str "cannot write")

def extractMember (world : World) (members : List Member)
    (entries : List (Str × Fields)) (tree : Tree) (name : Str) :
    Except Exception Tree := do
  let bytes ← readMember members name
  match place? name with
  | none => throw (.own (str "unsafe backup member: " ++ name))
  | some path =>
      if (Tree.rewrite world.overrides Release.newFileMode tree
          ⟨path, bytes, none⟩).isNone then throw cannotWrite
      let mode ← modeOf world ((entries.lookup name).getD [])
      let permissions ← world.chmod mode
      match Tree.rewrite world.overrides Release.newFileMode tree
          ⟨path, bytes, some permissions⟩ with
      | some tree => return tree
      | none => throw cannotWrite

/-- What is found before anything is extracted. -/
structure Compared where
  members : List Member
  manifest : Fields
  entries : List (Str × Fields)
  errors : List Str

def checkBackupNames (members : List Member) : Except Exception Unit :=
  if (names members).count backupName ≠ 1 then
    .error (.own (str "backup must contain exactly one BACKUP-MANIFEST.json"))
  else (members.mapM checkBackupMember).map fun _ => ()

def compareManifest (world : World) (members : List Member)
    (manifest : Fields) : Except Exception Compared := do
  let items ← filesOf manifest
  let entries ← table noText (entriesOf items)
  let actual := memberSet backupName members
  let contents ← (sortedSet (actual.filter (· ∈ entries.map Prod.fst))).mapM
    (checkContent world members entries)
  let policy ← policyErrors manifest
  return ⟨members, manifest, entries, backupSchemaErrors manifest ++
    membersErrors actual (entries.map Prod.fst) ++ contents.flatten ++ policy⟩

def compareBackup (world : World) (archive : Archive) :
    Except Exception Compared := do
  let members ← archive
  let _ ← checkBackupNames members
  let manifest ← readManifest world backupName members
  compareManifest world members manifest

def extractBackup (world : World) (order : List Str → List Str)
    (compared : Compared) : Except Exception Tree :=
  (order (memberSet backupName compared.members)).foldlM
    (extractMember world compared.members compared.entries) Keyed.empty

def controlErrors (world : World) (tree : Tree) :
    Except Exception (List Str) :=
  match (place? (str "state/control/control.json")).bind tree.fileAt with
  | none => .ok []
  | some file =>
      match world.decode file.bytes with
      | .ok value => do
          let control ← asDict value
          return if get control (str "schema") =
              .string (str "ppc-lab-control-v1") then []
            else [str "restored control.json has unsupported schema"]
      | .error (.os _) | .error (.json _) =>
          .ok [str "restored control.json is invalid JSON"]
      | .error exception => .error exception

/-- The comparison, and the extraction where there are no errors. -/
def readBackup (world : World) (order : List Str → List Str) (extract : Bool)
    (archive : Archive) : Except Exception (Compared × Option Tree) := do
  let compared ← compareBackup world archive
  if extract = true ∧ compared.errors = [] then
    let tree ← extractBackup world order compared
    return (compared, some tree)
  else return (compared, none)

/-- `read_and_verify`, into an empty directory or without extraction -/
def readAndVerify (world : World) (order : List Str → List Str)
    (extract : Bool) (archive : Archive) :
    Except Exception (Fields × List Str) := do
  let (compared, extracted) ← caught Exception.caughtByBackup
    (str "cannot verify backup: ") (readBackup world order extract archive)
  match extracted with
  | none => return (compared.manifest, compared.errors)
  | some tree =>
      let databases ← world.databases tree
      let control ← controlErrors world tree
      return (compared.manifest, databases ++ control)

def releaseName : Str :=
  str "RELEASE-MANIFEST.json"

def checkReleaseMember (members : List Member) (name : Str) :
    Except Exception Unit :=
  if (place? name).isNone then
    .error (.own (str "unsafe archive member: " ++ name))
  else if (members.reverse.find? (·.filename == name)).any Member.isSymlink then
    .error (.own (str "symlink member rejected: " ++ name))
  else .ok ()

def mismatch : Exception :=
  .own (str "release archive members do not match embedded manifest")

def checkReleaseContent (world : World) (members : List Member)
    (entries : List (Str × Fields)) (name : Str) : Except Exception Unit := do
  let bytes ← readMember members name
  let entry := (entries.lookup name).getD []
  if hasSize world.doubles entry bytes && hasDigest entry bytes then return ()
  else throw (.own
    (str "release member failed manifest verification: " ++ name))

def checkReleaseNames (members : List Member) : Except Exception Unit :=
  if releaseName ∉ names members then
    .error (.own (str "release archive needs one RELEASE-MANIFEST.json"))
  else ((names members).mapM (checkReleaseMember members)).map fun _ => ()

def checkReleaseSchema (world : World) (manifest : Fields) :
    Except Exception Unit :=
  if get manifest (str "schema") =
      .string (str "ppc-lab-release-manifest-v1") then .ok ()
  else .error (.own (str "unsupported release schema: " ++
    world.unicode.toStr (get manifest (str "schema"))))

def compareRelease (world : World) (members : List Member)
    (manifest : Fields) : Except Exception Unit := do
  let items ← filesOf manifest
  let entries ← table mismatch (entriesOf items)
  let actual := memberSet releaseName members
  if actual.all (· ∈ entries.map Prod.fst) &&
      (entries.map Prod.fst).all (· ∈ actual) then
    let _ ← (sortedSet actual).mapM
      (checkReleaseContent world members entries)
    return ()
  else throw mismatch

def readRelease (world : World) (archive : Archive) :
    Except Exception Fields := do
  let members ← archive
  let _ ← checkReleaseNames members
  let manifest ← readManifest world releaseName members
  let _ ← checkReleaseSchema world manifest
  let _ ← compareRelease world members manifest
  return manifest

/-- `release_doc` -/
def releaseDoc (world : World) (archive : Archive) :
    Except Exception Fields :=
  caught Exception.caughtByRelease (str "cannot verify release archive: ")
    (readRelease world archive)

def supportName : Str :=
  str "SUPPORT-MANIFEST.json"

def reportName : Str :=
  str "support-report.json"

def isAllowed (name : Str) : Bool :=
  name == reportName || name == supportName ||
    (str "logs/").isPrefixOf name && (str ".txt").isSuffixOf name &&
      decide ([Paths.dot, Paths.dot] ∉ Paths.pureParts name)

def namesErrors (names : List Str) : List Str :=
  let unexpected := names.filter fun name => !isAllowed name
  (if names.Nodup then [] else [str "duplicate archive members"]) ++
    if unexpected.isEmpty then []
    else [str "unexpected archive members: " ++ (str ", ").intercalate
      (unexpected.insertionSort fun first second =>
        Json.notAfter first second)]

def supportManifestErrors (manifest : Fields) : List Str :=
  (if get manifest (str "schema") = .string (str "ppc-lab-support-bundle-v1")
    then []
    else [str "manifest schema must be ppc-lab-support-bundle-v1"]) ++
  if get manifest (str "target_binaries_included") = .bool false then []
  else [str "manifest must declare target_binaries_included=false"]

def checkSupportMember (world : World) (members : List Member)
    (entries : List (Str × Fields)) (name : Str) :
    Except Exception (List Str) :=
  if name = supportName then .ok []
  else match entries.lookup name with
    | none => .ok [str "unlisted member: " ++ name]
    | some entry => do
        let bytes ← readMember members name
        return (if hasDigest entry bytes then []
            else [str "hash mismatch: " ++ name]) ++
          if hasSize world.doubles entry bytes then []
          else [str "size mismatch: " ++ name]

/-- The paths in `set(listed) - set(names)` -/
def missingPaths (members : List Member) (entries : List Fields) : List Json :=
  (entries.map pathOf).filter fun path =>
    path ∉ (names members).map Json.string

def missingErrors (world : World) (members : List Member)
    (entries : List Fields) : Except Exception (List Str) :=
  match Hypotheses.sortedSet world.doubles (missingPaths members entries) with
  | .ok missing => .ok (missing.map fun path =>
      str "manifest references missing member: " ++ world.unicode.toStr path)
  | .error _ => .error noText

def reportErrors (world : World) (members : List Member) : List Str :=
  if reportName ∈ names members then
    match readMember members reportName >>= world.loads >>= asDict with
    | .ok report =>
        if get report (str "schema") =
          .string (str "ppc-lab-support-report-v1") then []
        else [str "report schema must be ppc-lab-support-report-v1"]
    | .error exception =>
        [str "invalid support report: " ++ exception.message]
  else []

/-- The entries with texts as their paths. -/
def textEntries (entries : List Fields) : List Fields :=
  entries.filter fun entry => isText (pathOf entry)

def supportEntries (manifest : Fields) :
    Except Exception (List Fields) := do
  let items ← filesOf manifest
  if (entriesOf items).any fun entry => isUnhashable (pathOf entry) then
    throw unhashable
  else return entriesOf items

def compareSupport (world : World) (members : List Member)
    (manifest : Fields) : Except Exception (List Str) := do
  let entries ← supportEntries manifest
  let contents ← (names members).mapM
    (checkSupportMember world members (tableOf (textEntries entries)))
  let missing ← missingErrors world members entries
  return supportManifestErrors manifest ++ contents.flatten ++ missing ++
    reportErrors world members

def checkSupport (world : World) (members : List Member) :
    Except Exception (List Str) :=
  if supportName ∈ names members then
    match readMember members supportName >>= world.loads with
    | .error exception =>
        .ok [str "invalid manifest: " ++ exception.message]
    | .ok value => asDict value >>= compareSupport world members
  else .ok [str "missing SUPPORT-MANIFEST.json"]

/-- `verify_bundle` -/
def verifyBundle (world : World) (archive : Archive) :
    Except Exception (List Str) := do
  let members ← archive
  let found ← checkSupport world members
  return namesErrors (names members) ++ found

/-- `audit_verify` of the bytes of a file, if there is one -/
def auditVerify (python : Security.Python) :
    Option (List Byte) → Except Exception (List Security.AuditError)
  | none => .ok []
  | some bytes =>
      match decodeUtf8 bytes with
      | none => .error (.value (str "'utf-8' codec can't decode"))
      | some text =>
          match Security.auditVerify python (some text) with
          | none => .error (.other (str "object has no attribute 'get'"))
          | some report => .ok report.errors

end PpcLab.Integrity
