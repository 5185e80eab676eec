import PpcLab.Library.Outcome
import PpcLab.Library.Trees
import PpcLab.Security.Tokens
import PpcLab.Target.Profile

/-!
# Profile packages

A profile is packed when its document and its directory pass the checks.  The
check for binaries and the packer pass over the directory separately: the
packer skips folders by their names below the profile, the check by all names
of their paths.
-/

namespace PpcLab.Target

open Explore (Failure isAmong)
open Trees (Entry File Tree sortedByPath mem_sortedByPath)

def packageSchema : Str :=
  str "ppc-lab-target-profile-package-v1"

/-- `SKIP_PARTS` -/
def skipParts : List Str :=
  [str ".git", str "__pycache__", str "build", str ".DS_Store"]

/-- `BINARY_SUFFIXES` -/
def binarySuffixes : List Str :=
  [str ".exe", str ".dll", str ".dylib", str ".so", str ".bin", str ".rom",
    str ".img", str ".iso", str ".dmg", str ".elf", str ".pef", str ".app",
    str ".sit", str ".hqx", str ".zip", str ".7z", str ".rar"]

def isSkipped (parts : List Str) : Bool :=
  parts.any fun part => isAmong skipParts part

/-- A directory at an absolute path. -/
structure Directory where
  location : List Str
  tree : Tree

variable (unicode : Unicode) (doubles : Doubles)

/-- `path.suffix.lower() in BINARY_SUFFIXES` -/
def isBinary (path : Relative) : Bool :=
  isAmong binarySuffixes (unicode.lower path.suffix)

/-- `set(redistributable_files)`, which lists have no place in. -/
def allowed (doc : Fields) : Except Failure (List Json) :=
  match Json.get doc (str "redistributable_files") with
  | .array files =>
      if files.all Security.isHashable then .ok files else .error .raised
  | _ => .ok []

def isListed (allow : List Json) (path : Relative) : Bool :=
  allow.any fun item => decide (item = .string path.posix)

theorem isComponent_profile : ∀ part ∈ [str "profile.json"],
    Paths.IsComponent part := by
  decide

private theorem isComponent_readme : ∀ part ∈ [str "README.md"],
    Paths.IsComponent part := by
  decide

private theorem isComponent_scripts : ∀ part ∈ [str "scripts"],
    Paths.IsComponent part := by
  decide

def requiredPaths : List Relative :=
  [⟨[str "profile.json"], List.cons_ne_nil _ _, isComponent_profile⟩,
    ⟨[str "README.md"], List.cons_ne_nil _ _, isComponent_readme⟩,
    ⟨[str "scripts"], List.cons_ne_nil _ _, isComponent_scripts⟩]

def missingErrors (directory : Directory) : List Str :=
  (requiredPaths.filter fun path => !directory.tree.contains path).map
    fun path => str "missing required profile path: " ++ path.posix

/-- The check passes over files with a skipped name anywhere in their absolute
path. -/
def isChecked (directory : Directory) (entry : Entry) : Bool :=
  entry.file?.isSome && !isSkipped (directory.location ++ entry.path.parts)

def binaryErrors (directory : Directory) (allow : List Json) : List Str :=
  (directory.tree.entries.filter fun entry =>
    isChecked directory entry && isBinary unicode entry.path &&
      !isListed allow entry.path).map
    fun entry => str "binary-like file is not declared redistributable: " ++
      entry.path.posix

def validateDoc (doc : Json) (directory : Directory) :
    Except Failure (List Str) :=
  match doc with
  | .object fields => do
      let allow ← allowed fields
      return documentErrors unicode doubles fields ++ missingErrors directory ++
        binaryErrors unicode directory allow
  | _ => .ok [str "profile must be a JSON object"]

/-- The packer passes over files with a skipped name below the profile. -/
def isPacked (path : Relative) : Bool :=
  !isSkipped path.parts && path.suffix != str ".pyc"

def profileFiles (directory : Directory) : List (Relative × File) :=
  sortedByPath (directory.tree.regularFiles.filter fun file => isPacked file.1)

def fileFields (file : Relative × File) : Json :=
  .object [(str "path", .string file.1.posix),
    (str "size", .int file.2.bytes.length),
    (str "sha256", .string (Sha256.hexdigest file.2.bytes))]

def manifest (ident minimum : Json) (files : List (Relative × File)) : Json :=
  .object [(str "schema", .string packageSchema),
    (str "profile_schema", .string profileSchema),
    (str "profile_api", .int profileApi), (str "id", ident),
    (str "minimum_ppc_lab", minimum),
    (str "files", .array (files.map fileFields))]

def packedFile (start : Str) (epoch : Int) (file : Relative × File) :
    Zip.Member Json where
  name := start ++ file.1.posix
  time := Zip.zipTime epoch
  mode := Zip.regularFile + Zip.permissions file.2.executable
  content := .bytes file.2.bytes

def packedManifest (start : Str) (epoch : Int) (value : Json) :
    Zip.Member Json where
  name := start ++ str "PROFILE-PACKAGE.json"
  time := Zip.zipTime epoch
  mode := Zip.regularFile + Zip.permissions false
  content := .document value

/-- `doc[key]` -/
def member (doc : Fields) (key : Str) : Except Failure Json :=
  match Json.find? doc key with
  | some value => .ok value
  | none => .error .raised

/-- `str(doc["id"])` with a slash. -/
def start (ident : Json) : Str :=
  unicode.toStr ident ++ [Paths.slash]

/-- The members of the archive that is written. -/
def archive (ident minimum : Json) (directory : Directory) (epoch : Int) :
    List (Zip.Member Json) :=
  let files := profileFiles directory
  files.map (packedFile (start unicode ident) epoch) ++
    [packedManifest (start unicode ident) epoch (manifest ident minimum files)]

def cmdPack (doc : Json) (directory : Directory) (epoch : Int) :
    Except Failure (List (Zip.Member Json)) := do
  let errors ← validateDoc unicode doubles doc directory
  if errors ≠ [] then
    throw (.reported (str "profile validation failed: " ++
      (str "; ").intercalate errors))
  else
    let ident ← member (Json.dict doc) (str "id")
    let minimum ← member (Json.dict doc) (str "minimum_ppc_lab")
    let members := archive unicode ident minimum directory epoch
    if members.all Zip.isWritable then return members
    else throw .raised

end PpcLab.Target
