import PpcLab.Release.Archive

/-!
# Preflight

An archive is verified against the manifest in it, and the release is held
against the tree that it is to replace: by its version, which a channel admits
or not, and by its compatibility declaration.
-/

namespace PpcLab.Upgrade

open Explore (Failure isAmong)
open Release (Manifest Member Snapshot Tooling manifestName)
open Trees (Tree)

/-- What an upgrade takes from the world around it. -/
structure Upgrader extends Tooling where
  numerals : Numerals
  writer : Release.Writer
  /-- What the compatibility module that is found first says about a tree. -/
  currentCompat : Tree → Except Failure Snapshot

/-- `safe_member`, a path with at least one component and none above it. -/
def safeMember (name : Str) : Except Failure Relative :=
  match if Paths.isAbsolute name then none else Release.relative? name with
  | some path => .ok path
  | none => .error (.reported (str "unsafe archive member: " ++ name))

/-- `S_IFLNK` -/
def linkType : Nat :=
  0o120000

/-- The members by name; the last one with a name counts. -/
def infos (members : List Member) : List (Str × Member) :=
  (members.map fun member => (member.name, member)).foldl Dictionary.assign []

def checkMember (entry : Str × Member) : Except Failure Unit := do
  let _ ← safeMember entry.1
  if Release.fileType entry.2.mode = linkType then
    throw (.reported (str "symlink member rejected: " ++ entry.1))
  else return ()

def memberBytes (writer : Release.Writer) (member : Member) : List Byte :=
  Release.bytesOf writer member.content

/-- A member has the size and the digest that are listed. -/
def isListedAs (writer : Release.Writer) (member : Member)
    (item : Release.Listing) : Bool :=
  (memberBytes writer member).length == item.size &&
    Sha256.hexdigest (memberBytes writer member) == item.sha256

def verifyMember (writer : Release.Writer) (found : List (Str × Member))
    (expected : List (Str × Release.Listing)) (name : Str) :
    Except Failure Unit :=
  match found.lookup name, expected.lookup name with
  | some member, some item =>
      if isListedAs writer member item then .ok ()
      else .error (.reported
        (str "release member failed manifest verification: " ++ name))
  | _, _ => .error .raised

/-- The names other than the manifest's. -/
def memberNames (members : List Member) : List Str :=
  ((infos members).map Prod.fst).filter (· != manifestName)

def embeddedManifest (members : List Member) : Except Failure Manifest :=
  match (infos members).lookup manifestName with
  | none => .error
      (.reported (str "release archive needs one RELEASE-MANIFEST.json"))
  | some member =>
      match member.content with
      | .document manifest => .ok manifest
      | .bytes _ => .error (.reported
          (str "cannot verify release archive: no JSON document"))

def releaseDoc (writer : Release.Writer) (members : List Member) :
    Except Failure Manifest := do
  let found := infos members
  if found.lookup manifestName = none then
    throw (.reported (str "release archive needs one RELEASE-MANIFEST.json"))
  else
    let _ ← found.mapM checkMember
    let manifest ← embeddedManifest members
    if manifest.schema ≠ Release.manifestSchema then
      throw (.reported (str "unsupported release schema: " ++ manifest.schema))
    else
      let expected := Release.listed manifest
      let names := memberNames members
      if names.all (isAmong (expected.map Prod.fst)) &&
          (expected.map Prod.fst).all (isAmong names) then
        let _ ← (Explore.sortedSet names).mapM
          (verifyMember writer found expected)
        return manifest
      else throw (.reported
        (str "release archive members do not match embedded manifest"))

abbrev Version :=
  Nat × Nat × Nat

variable (upgrader : Upgrader)

/-- `\d+` and what follows. -/
def digitsOf (text : Str) : Option (Nat × Str) :=
  let digits := text.takeWhile fun character =>
    (upgrader.numerals.decimal character).isSome
  if digits.isEmpty then none
  else some (digits.foldl (fun value digit =>
    10 * value + (upgrader.numerals.decimal digit).getD 0) 0,
      text.drop digits.length)

/-- What follows a dot. -/
def afterDot : Str → Option Str
  | [] => none
  | first :: text => if first = Paths.dot then some text else none

/-- `(?:[-+].*)?` to the end. -/
def isSuffix : Str → Bool
  | [] => true
  | first :: text =>
      isAmong [str "-", str "+"] [first] && text.all (· != 0x0a)

def versionTuple? (text : Str) : Option Version := do
  let (major, text) ← digitsOf upgrader text
  let (minor, text) ← digitsOf upgrader (← afterDot text)
  let (patch, text) ← digitsOf upgrader (← afterDot text)
  if isSuffix text then return (major, minor, patch)
  else none

def versionTuple (text : Str) : Except Failure Version :=
  match versionTuple? upgrader text with
  | some version => .ok version
  | none => .error (.reported (str "invalid release version: " ++ text))

/-- The first version is the older one. -/
def isOlder (first second : Version) : Bool :=
  first.1 < second.1 || (first.1 == second.1 &&
    (first.2.1 < second.2.1 ||
      (first.2.1 == second.2.1 && first.2.2 < second.2.2)))

structure Channel where
  major : Option Int
  allowPrerelease : Bool
  allowDowngrade : Bool
  pin : Option Str

/-- `default_channels` -/
def defaultChannels : List (Str × Channel) :=
  [(str "stable", ⟨some 3, false, false, none⟩),
    (str "candidate", ⟨some 3, true, false, none⟩),
    (str "pinned", ⟨some 3, false, false, none⟩)]

def isPrerelease (version : Str) : Bool :=
  version.any fun character => isAmong [str "-", str "+"] [character]

/-- A pin that is there and not empty. -/
def pinned (channel : Channel) : Option Str :=
  channel.pin.filter fun pin => !pin.isEmpty

def channelErrors (channels : List (Str × Channel))
    (name incoming current : Str) : Except Failure (List Str) :=
  match channels.lookup name with
  | none => .ok [str "unknown release channel: " ++ name]
  | some channel => do
      let next ← versionTuple upgrader incoming
      let version ← versionTuple upgrader current
      return (if (next.1 : Int) ≠ channel.major.getD next.1 then
          [str "channel " ++ name ++ str " only permits major " ++
            Release.printed channel.major] else []) ++
        (if isPrerelease incoming && !channel.allowPrerelease then
          [str "channel " ++ name ++ str " rejects prereleases"] else []) ++
        (if isOlder next version && !channel.allowDowngrade then
          [str "channel " ++ name ++ str " rejects downgrade " ++ current ++
            str " -> " ++ incoming] else []) ++
        (match pinned channel with
        | none => []
        | some pin => if incoming ≠ pin then
            [str "channel " ++ name ++ str " is pinned to " ++ pin] else [])

structure Plan where
  currentVersion : Str
  incomingVersion : Str
  channel : Str
  errors : List Str

/-- The version of the tree that is replaced. -/
def currentVersion (tree : Tree) : Except Failure Str :=
  match Release.projectVersion tree with
  | .error (.reported _) =>
      .error (.reported (str "cannot determine current PPC Lab version"))
  | version => version

def preflight (members : List Member) (tree : Tree)
    (channels : List (Str × Channel)) (channel : Str) :
    Except Failure Plan := do
  let manifest ← releaseDoc upgrader.writer members
  let version ← currentVersion tree
  let errors ← channelErrors upgrader channels channel manifest.version version
  let compat ← upgrader.currentCompat tree
  return {
    currentVersion := version
    incomingVersion := manifest.version
    channel := channel
    errors := errors ++ Release.compatErrors manifest.compatibility compat }

end PpcLab.Upgrade
