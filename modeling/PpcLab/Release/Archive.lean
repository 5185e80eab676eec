import PpcLab.Library.TreeWrites
import PpcLab.Release.Source

/-!
# Source archives

A release is written as an archive of the source files and the manifest.  An
archive is inspected before it is extracted; the inspection has rules for names
that the writer does not have.
-/

namespace PpcLab.Release

open Explore (Failure isAmong)
open Trees (File Tree)

abbrev Member :=
  Zip.Member Manifest

variable (tooling : Tooling)

def archivedFile (epoch : Int) (file : Relative × File) : Member where
  name := file.1.posix
  time := Zip.zipTime epoch
  mode := Zip.regularFile + Zip.permissions file.2.executable
  content := .bytes file.2.bytes

def archivedManifest (epoch : Int) (manifest : Manifest) : Member where
  name := manifestName
  time := Zip.zipTime epoch
  mode := Zip.regularFile + Zip.permissions false
  content := .document manifest

def createArchive (tree : Tree) (excluded : List Relative) (epoch : Int) :
    Except Failure (Manifest × List Member) := do
  let manifest ← buildManifest tooling tree excluded
  let members := (sourceFiles tooling tree excluded).map (archivedFile epoch) ++
    [archivedManifest epoch manifest]
  if members.all Zip.isWritable then return (manifest, members)
  else throw .raised

/-- The text that a manifest is written as. -/
abbrev Writer :=
  Manifest → List Byte

def bytesOf (writer : Writer) : Zip.Content Manifest → List Byte
  | .bytes bytes => bytes
  | .document manifest => writer manifest

def colon : CodePoint :=
  0x3a

/-- A name is no plain relative path. -/
def isUnsafe (name : Str) : Bool :=
  Paths.isAbsolute name || Paths.normalized name != name ||
    (Paths.pureParts name).any
      (isAmong [[], [Paths.dot], [Paths.dot, Paths.dot]]) ||
    ((Paths.pureParts name).head?.getD []).any (· == colon)

/-- `S_IFMT` -/
def fileType (mode : Nat) : Nat :=
  mode &&& 0o170000

/-- What the inspection has found so far. -/
structure Inspecting where
  seen : List Str
  portableSeen : List (Str × Str)
  manifestCount : Nat
  errors : List Str

def duplicateErrors (state : Inspecting) (name : Str) : List Str :=
  if isAmong state.seen name then
    [str "duplicate archive member: " ++ name] else []

/-- The member that has the key of a name and is not that name. -/
def collision? (state : Inspecting) (name : Str) : Option Str :=
  (state.portableSeen.lookup (tooling.portablePathKey name)).filter (· != name)

def portableErrors (state : Inspecting) (name : Str) : List Str :=
  match collision? tooling state name with
  | some prior => [str "archive case-fold path collision: " ++ prior ++
      str " <-> " ++ name]
  | none => []

def portableAdded (state : Inspecting) (name : Str) : List (Str × Str) :=
  match collision? tooling state name with
  | some _ => state.portableSeen
  | none => Dictionary.assign state.portableSeen
      (tooling.portablePathKey name, name)

/-- What is wrong with a name by itself. -/
def nameErrors (name : Str) : List Str :=
  if name.isEmpty || name.getLast? == some Paths.slash then
    [str "archive contains non-file member: " ++ tooling.unicode.reprStr name]
  else if name.any (· == backslash) then
    [str "archive member uses backslash path: " ++ name]
  else if isUnsafe name then [str "unsafe archive member path: " ++ name]
  else []

def typeErrors (member : Member) : List Str :=
  if fileType (member.mode % 0x10000) = 0 ∨
      fileType (member.mode % 0x10000) = Zip.regularFile then []
  else [str "archive contains non-regular member: " ++ member.name]

def inspectMember (state : Inspecting) (member : Member) : Inspecting :=
  let plain := (nameErrors tooling member.name).isEmpty
  { seen := member.name :: state.seen
    portableSeen := portableAdded tooling state member.name
    manifestCount := state.manifestCount +
      (if plain && member.name == manifestName then 1 else 0)
    errors := state.errors ++ duplicateErrors state member.name ++
      portableErrors tooling state member.name ++
      nameErrors tooling member.name ++
      (if plain then typeErrors member else []) }

structure Inspection where
  members : Nat
  totalUncompressedBytes : Nat
  errors : List Str

def inspectSourceArchive (writer : Writer) (members : List Member) :
    Inspection :=
  let state := members.foldl (inspectMember tooling) ⟨[], [], 0, []⟩
  { members := members.length
    totalUncompressedBytes :=
      (members.map fun member => (bytesOf writer member.content).length).sum
    errors := state.errors ++
      (if state.manifestCount ≠ 1 then
        [str "archive must contain exactly one RELEASE-MANIFEST.json (found " ++
          str (Text.decimal state.manifestCount) ++ str ")"]
      else []) }

/-- The path of a member below the destination. -/
def relative? (name : Str) : Option Relative :=
  Relative.ofParts? (Paths.pureParts name)

/-- The permissions of a new file. -/
def newFileMode : Nat :=
  0o644

theorem ownerWrites_newFileMode : Trees.ownerWrites newFileMode := by
  decide

/-- The file that a member is extracted as. -/
def extracted (writer : Writer) (member : Member) : File :=
  let permissions := member.mode &&& 0o777
  { bytes := bytesOf writer member.content
    mode := if permissions = 0 then newFileMode else permissions
    executable := decide (permissions &&& 0o111 ≠ 0) }

def extractedFile (writer : Writer) (member : Member) :
    Except Failure (Relative × File) :=
  match relative? member.name with
  | some path => .ok (path, extracted writer member)
  | none => .error .raised

def extractSourceArchive (writer : Writer) (members : List Member) :
    Except Failure (Inspection × Tree) := do
  let inspection := inspectSourceArchive tooling writer members
  if inspection.errors ≠ [] then
    throw (.reported (str "invalid source archive: " ++
      (str "; ").intercalate inspection.errors))
  else
    let files ← members.mapM (extractedFile writer)
    match Trees.Tree.installAll Keyed.empty files with
    | some tree => return (inspection, tree)
    | none => throw .unreadable

end PpcLab.Release
