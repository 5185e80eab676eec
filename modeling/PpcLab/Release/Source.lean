import PpcLab.Library.Outcome
import PpcLab.Library.Trees
import PpcLab.Release.Compatibility
import PpcLab.Target.Profile

/-!
# Source trees

A release is made of the source files of a tree: its regular files, without
those in certain folders and with certain suffixes.  A manifest lists them with
their sizes and digests, and a tree is verified against one.
-/

namespace PpcLab.Release

open Explore (Failure isAmong sortedSet)
open Target (isNumber)
open Trees (File Tree sortedByPath)

def manifestSchema : Str :=
  str "ppc-lab-release-manifest-v1"

/-- `EXCLUDE_DIRS` -/
def excludeDirs : List Str :=
  [str ".git", str "build", str "build-release", str "build-asan",
    str "build-debug", str "__pycache__", str ".pytest_cache",
    str ".mypy_cache", str ".idea", str ".vscode"]

/-- `EXCLUDE_SUFFIXES` -/
def excludeSuffixes : List Str :=
  [str ".pyc", str ".pyo", str ".zip", str ".tar", str ".gz", str ".xz",
    str ".7z"]

def manifestName : Str :=
  str "RELEASE-MANIFEST.json"

private theorem isComponent_manifest : ∀ part ∈ [manifestName],
    Paths.IsComponent part := by
  decide

private theorem isComponent_lists : ∀ part ∈ [str "CMakeLists.txt"],
    Paths.IsComponent part := by
  decide

private theorem isComponent_compat :
    ∀ part ∈ [str "scripts", str "ppc_lab_compat.py"],
    Paths.IsComponent part := by
  decide

def manifestPath : Relative :=
  ⟨[manifestName], List.cons_ne_nil _ _, isComponent_manifest⟩

def cmakeLists : Relative :=
  ⟨[str "CMakeLists.txt"], List.cons_ne_nil _ _, isComponent_lists⟩

def compatScript : Relative :=
  ⟨[str "scripts", str "ppc_lab_compat.py"], List.cons_ne_nil _ _,
    isComponent_compat⟩

/-- What a release takes from the world around it. -/
structure Tooling where
  unicode : Unicode
  /-- Normalization and case folding of a path. -/
  portablePathKey : Str → Str
  /-- What the compatibility script of a tree says about it. -/
  buildSnapshot : Tree → Except Failure Snapshot
  /-- The message of a system that has no file. -/
  osError : Str

/-- The version that a text begins with, after what announces it. -/
def versionAt (text : Str) : Option Str :=
  let announced := str "project(PPCLab VERSION "
  if announced.isPrefixOf text then
    let rest := text.drop announced.length
    let major := rest.takeWhile Target.isDigit
    let rest := rest.drop major.length
    let minor := (rest.drop 1).takeWhile Target.isDigit
    let last := (rest.drop 1).drop minor.length
    let patch := (last.drop 1).takeWhile Target.isDigit
    if isNumber major && isNumber minor && isNumber patch &&
        rest.head? == some Paths.dot && last.head? == some Paths.dot then
      some (major ++ Paths.dot :: (minor ++ Paths.dot :: patch))
    else none
  else none

/-- `is_file()` and the bytes of the file. -/
def readFile (tree : Tree) (path : Relative) : Except Failure (List Byte) :=
  match (tree.lookup path).bind Trees.Entry.file? with
  | some file => .ok file.bytes
  | none => .error .unreadable

def versionOf (bytes : List Byte) : Except Failure Str :=
  match decodeUtf8 bytes with
  | none => .error .raised
  | some text =>
      match text.tails.findSome? versionAt with
      | some version => .ok version
      | none => .error (.reported (str "cannot determine project version"))

def projectVersion (tree : Tree) : Except Failure Str := do
  let bytes ← readFile tree cmakeLists
  versionOf bytes

variable (tooling : Tooling)

/-- A file is part of a release by its path. -/
def isSource (path : Relative) : Bool :=
  path.posix != manifestName && !path.parts.any (isAmong excludeDirs) &&
    !isAmong excludeSuffixes (tooling.unicode.lower path.suffix)

/-- The excluded files are those that the tool itself writes into the tree. -/
def sourceFiles (tree : Tree) (excluded : List Relative) :
    List (Relative × File) :=
  sortedByPath (tree.regularFiles.filter fun file =>
    isSource tooling file.1 && !decide (file.1 ∈ excluded))

/-- The paths with one key, for every key in the order in which it comes up. -/
def casefoldGroups (paths : List Str) : List (List Str) :=
  (paths.map tooling.portablePathKey).eraseDups.map fun key =>
    paths.filter fun path => tooling.portablePathKey path == key

def casefoldCollisions (paths : List Str) : List (List Str) :=
  ((casefoldGroups tooling paths).filter fun group =>
    1 < group.dedup.length).map fun group =>
      group.insertionSort fun first second => Json.notAfter first second

def collisionErrors (paths : List Str) (label : String) : List Str :=
  (casefoldCollisions tooling paths).map fun group =>
    str label ++ str " case-fold path collision: " ++
      (str " <-> ").intercalate group

structure Listing where
  path : Str
  size : Nat
  mode : Str
  sha256 : Str
  deriving DecidableEq

structure Manifest where
  schema : Str
  releaseApi : Nat
  version : Str
  license : Str
  cppApi : Nat
  cppAbi : Nat
  targetProfileApi : Nat
  compatibility : Snapshot
  files : List Listing

def modeFor (file : File) : Str :=
  if file.executable then str "0755" else str "0644"

def listing (file : Relative × File) : Listing where
  path := file.1.posix
  size := file.2.bytes.length
  mode := modeFor file.2
  sha256 := Sha256.hexdigest file.2.bytes

def compatibilitySnapshot (tree : Tree) : Except Failure Snapshot :=
  match readFile tree compatScript with
  | .ok _ => tooling.buildSnapshot tree
  | .error _ => .error (.reported (str "missing scripts/ppc_lab_compat.py"))

def buildManifest (tree : Tree) (excluded : List Relative) :
    Except Failure Manifest := do
  let files := sourceFiles tooling tree excluded
  let collisions := collisionErrors tooling (files.map (·.1.posix)) "source"
  if collisions ≠ [] then
    throw (.reported ((str "; ").intercalate collisions))
  else
    let version ← projectVersion tree
    let compatibility ← compatibilitySnapshot tooling tree
    return {
      schema := manifestSchema
      releaseApi := 1
      version := version
      license := str "GPL-3.0-only"
      cppApi := 1
      cppAbi := 1
      targetProfileApi := 1
      compatibility := compatibility
      files := files.map listing }

/-- What a manifest lists, by path. -/
def listed (manifest : Manifest) : List (Str × Listing) :=
  (manifest.files.map fun file => (file.path, file)).foldl Dictionary.assign []

def versionErrors (tree : Tree) (manifest : Manifest) :
    Except Failure (List Str) :=
  match projectVersion tree with
  | .ok version =>
      .ok (if manifest.version ≠ version then
        [str "manifest version does not match CMake project version"] else [])
  | .error (.reported message) => .ok [message]
  | .error .unreadable => .ok [tooling.osError]
  | .error .raised => .error .raised

def fileErrors (manifest : Manifest) (file : Relative × File) : List Str :=
  match (listed manifest).lookup file.1.posix with
  | none => [str "unlisted source file: " ++ file.1.posix]
  | some item =>
      (if item.sha256 ≠ Sha256.hexdigest file.2.bytes then
        [str "hash mismatch: " ++ file.1.posix] else []) ++
      (if item.size ≠ file.2.bytes.length then
        [str "size mismatch: " ++ file.1.posix] else [])

def verify (tree : Tree) (manifest : Manifest) (excluded : List Relative) :
    Except Failure (List Str) := do
  let files := sourceFiles tooling tree excluded
  let paths := files.map (·.1.posix)
  let listedPaths := (listed manifest).map Prod.fst
  let versions ← versionErrors tooling tree manifest
  return (if manifest.schema ≠ manifestSchema then
      [str "schema must be " ++ manifestSchema] else []) ++
    versions ++ collisionErrors tooling listedPaths "manifest" ++
    collisionErrors tooling paths "source" ++
    files.flatMap (fileErrors manifest) ++
    (missingNames listedPaths paths).map fun path =>
      str "manifest references missing/excluded file: " ++ path

end PpcLab.Release
