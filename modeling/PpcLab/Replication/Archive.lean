import PpcLab.Library.JsonReader
import PpcLab.Library.Paths
import PpcLab.Replication.Bundle

/-!
# Bundles as archives

What is verified is a file that somebody sent: the members can have any names
and contents, and the manifest any JSON in it.  The verifier collects what is
wrong with an archive.  It raises where a value of the manifest is no number, a
text cannot be encoded or a member is no text.
-/

namespace PpcLab.Replication.Archive

open Json

/-- Why the verifier stops; only the failures of the archive are caught. -/
inductive Stop where
  | caught (reason : Str)
  | unreadable
  | undecodable
  | unencodable
  | noInteger
  deriving DecidableEq

/-- A member: its entry in the directory of the archive, and what reading it
comes to. -/
structure ZipInfo where
  filename : Str
  fileSize : Nat
  externalAttr : Nat
  content : Except Stop (List Byte)

/-- A file; the archive is what opening it comes to. -/
structure BundleFile where
  size : Nat
  archive : Except Stop (List ZipInfo)

/-- What the interpreter brings along. -/
structure Reader where
  unicode : Unicode
  numerals : Numerals
  doubles : Doubles
  loads : List Byte → Loaded

/-- The interpreter for texts in ASCII without floats. -/
def Reader.ascii : Reader where
  unicode := .ascii
  numerals := .ascii
  doubles := .none
  loads := loadsUtf8 fun _ => .zero

/-- `MAX_BUNDLE_BYTES` -/
def maxBundleBytes : Nat :=
  512 * 1024 * 1024

def manifestName : Str :=
  "bundle.json"

/-- `namelist` -/
def names (infos : List ZipInfo) : List Str :=
  infos.map (·.filename)

/-- `read`: the last member with a name. -/
def readMember (infos : List ZipInfo) (name : Str) :
    Except Stop (List Byte) :=
  match infos.reverse.find? (·.filename == name) with
  | some info => info.content
  | none => .error (.caught ("There is no item named " ++ name))

def ZipInfo.isSymlink (info : ZipInfo) : Bool :=
  (info.externalAttr >>> 16) &&& 0o170000 == 0o120000

/-- `safe_member` -/
def safeMember (name : Str) : Bool :=
  !name.isEmpty && !Paths.isAbsolute name &&
    decide ([Paths.dot, Paths.dot] ∉ Paths.pureParts name) &&
    decide (backslash ∉ name)

/-- `Path(name).stem` -/
def stem (name : Str) : Str :=
  let last := (Paths.pureParts name).getLastD []
  last.take (last.length - (Paths.suffixOfName last).length)

section Verify

variable (sha256 : List Byte → Str) (reader : Reader)

def infoErrors (info : ZipInfo) : List Str :=
  (if safeMember info.filename then []
    else ["unsafe member path: " ++ info.filename]) ++
  (if info.fileSize ≤ maxMemberBytes then []
    else ["member exceeds size limit: " ++ info.filename]) ++
  (if info.isSymlink then
    ["symlink members are forbidden: " ++ info.filename] else [])

def membersErrors (infos : List ZipInfo) : List Str :=
  (if (names infos).Nodup then []
    else [str "bundle contains duplicate member names"]) ++
  infos.flatMap infoErrors

/-- `int(manifest.get("replication_api", -1))` -/
def apiErrors (manifest : Fields) : Except Stop (List Str) :=
  match reader.numerals.int
      ((find? manifest "replication_api").getD (.int (-1))) with
  | none => .error .noInteger
  | some api =>
      .ok (if api = 1 then [] else ["unsupported replication_api"])

def isInfinite : Json → Bool
  | .float literal =>
      decide (literal.text ∈ [str "Infinity", str "-Infinity"])
  | _ => false

/-- The infinities raise an error of their own, which is not caught. -/
def generationErrors (manifest : Fields) : Except Stop (List Str) :=
  let generation := (find? manifest "generation").getD (.int 0)
  match reader.numerals.int generation with
  | none =>
      if isInfinite generation then .error .noInteger
      else .ok ["invalid generation"]
  | some value =>
      .ok (if 1 ≤ value then [] else ["generation must be >= 1"])

def siteOf (manifest : Fields) : Str :=
  reader.unicode.toStr ((find? manifest "source_site").getD (.string []))

def siteErrors (manifest : Fields) : List Str :=
  if isSite (siteOf reader manifest) then []
  else
    ["site id must be 1..64 characters using A-Z a-z 0-9 . _ -"]

/-- `manifest_material` -/
def manifestMaterial (manifest : Fields) : Option (List Byte) :=
  (Json.object (manifest.filter fun member =>
    member.1 ≠ str "bundle_id")).canonical

def identityErrors (manifest : Fields) : Except Stop (List Str) :=
  match manifestMaterial manifest with
  | none => .error .unencodable
  | some material =>
      .ok (if get manifest "bundle_id" = .string (sha256 material) then []
        else ["bundle_id mismatch"])

/-- `declared` of an entry of `files`. -/
def declaredName (item : Fields) : Str :=
  reader.unicode.toStr ((find? item "path").getD (.string []))

def isAddressed (name : Str) : Bool :=
  (str "evidence/").isPrefixOf name || (str "knowledge/").isPrefixOf name

/-- The document of a member is the one that its name says. -/
def addressErrors (name : Str) (raw : List Byte) : Except Stop (List Str) :=
  if isAddressed name then
    if isHex64 (stem name) then
      match reader.loads raw with
      | .undecodable => .error .undecodable
      | .malformed _ => .ok ["invalid JSON object: " ++ name]
      | .value value =>
          match value.canonical with
          | none => .error .unencodable
          | some canonical =>
              .ok (if sha256 canonical = stem name then []
                else ["semantic hash mismatch: " ++ name])
    else .ok ["invalid content-addressed filename: " ++ name]
  else .ok []

def rawErrors (item : Fields) (name : Str) (raw : List Byte) : List Str :=
  (if reader.doubles.equal (.int raw.length) (get item "size") then []
    else ["size mismatch: " ++ name]) ++
  (if get item "sha256" = .string (sha256 raw) then []
    else ["hash mismatch: " ++ name])

def isMember (infos : List ZipInfo) (name : Str) : Bool :=
  decide (name ∈ names infos) && name != manifestName

def itemErrors (infos : List ZipInfo) : Json → Except Stop (List Str)
  | .object item =>
      let name := declaredName reader item
      if safeMember name then
        if isMember infos name then do
          let raw ← readMember infos name
          let address ← addressErrors sha256 reader name raw
          return rawErrors sha256 reader item name raw ++ address
        else .ok ["missing member: " ++ name]
      else .ok ["unsafe declared path: " ++ name]
  | _ => .ok ["invalid file manifest entry"]

/-- `listed` -/
def listedItems (manifest : Fields) : List Json :=
  (asArray? (get manifest "files")).getD []

def filesErrors (manifest : Fields) : List Str :=
  if (asArray? (get manifest "files")).isSome then []
  else ["files must be an array"]

def declaredNames (items : List Json) : List Str :=
  items.filterMap fun item => (asObject? item).map (declaredName reader)

/-- `sorted(actual_members - declared)` -/
def extraMembers (infos : List ZipInfo) (items : List Json) : List Str :=
  (((names infos).filter fun name =>
    name != manifestName && decide (name ∉ declaredNames reader items)).dedup
      ).insertionSort (· ≤ ·)

def extraErrors (infos : List ZipInfo) (items : List Json) : List Str :=
  let extra := extraMembers reader infos items
  if extra.isEmpty then []
  else ["undeclared bundle members: " ++ (str ", ").intercalate extra]

def policyErrors (manifest : Fields) : List Str :=
  let policy := dict (get manifest "policy")
  (if get policy "target_binaries_included" = .bool false then []
    else [str "bundle must declare target_binaries_included=false"]) ++
  (if get policy "live_control_state_included" = .bool false then []
    else [str "bundle must declare live_control_state_included=false"])

def schemaErrors (manifest : Fields) : List Str :=
  if get manifest "schema" = .string "ppc-lab-replication-bundle-v1" then []
  else ["schema must be ppc-lab-replication-bundle-v1"]

/-- The errors of all entries, one after the other. -/
def itemsErrors (infos : List ZipInfo) :
    List Json → Except Stop (List Str)
  | [] => .ok []
  | item :: items => do
      let first ← itemErrors sha256 reader infos item
      let others ← itemsErrors infos items
      return first ++ others

def manifestErrors (infos : List ZipInfo) (manifest : Fields) :
    Except Stop (List Str) := do
  let api ← apiErrors reader manifest
  let generation ← generationErrors reader manifest
  let identity ← identityErrors sha256 manifest
  let items ← itemsErrors sha256 reader infos (listedItems manifest)
  return membersErrors infos ++ schemaErrors manifest ++ api ++
    siteErrors reader manifest ++ generation ++ identity ++
    filesErrors manifest ++ items ++
    extraErrors reader infos (listedItems manifest) ++ policyErrors manifest

/-- The manifest and what is wrong with an archive, once it is open. -/
def verifyOpened (infos : List ZipInfo) :
    Except Stop (Fields × List Str) :=
  if manifestName ∈ names infos then do
    let raw ← readMember infos manifestName
    match reader.loads raw with
    | .undecodable => .error .undecodable
    | .malformed reason => .error (.caught reason)
    | .value (.object manifest) =>
        let errors ← manifestErrors sha256 reader infos manifest
        return (manifest, errors)
    | .value _ => return ([], ["bundle manifest is not an object"])
  else .ok ([], ["bundle.json is missing"])

/-- `verify_bundle`; what it raises is not caught. -/
def verifyBundle (path : Str) (file : Option BundleFile) :
    Except Stop (Fields × List Str) :=
  match file with
  | none => .ok ([], ["bundle does not exist: " ++ path])
  | some file =>
      if file.size ≤ maxBundleBytes then
        match file.archive.bind (verifyOpened sha256 reader) with
        | .error (.caught reason) =>
            .ok ([], ["cannot verify bundle: " ++ reason])
        | outcome => outcome
      else .ok ([], ["bundle exceeds size limit"])

end Verify

end PpcLab.Replication.Archive
