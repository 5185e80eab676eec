import PpcLab.Evidence.Store

/-!
# Replication bundles

A bundle lists its members with their hashes, and its identity is the hash of
the list, the site, the generation and the time of the export.  The members of
an evidence store are the canonical texts of its documents.
-/

namespace PpcLab.Replication

open Evidence (Artifact Store File)

inductive MemberName where
  | evidence (digest : Str)
  | knowledge (digest : Str)
  | history
  deriving DecidableEq

def MemberName.path : MemberName → Str
  | .evidence digest => "evidence/" ++ digest ++ ".json"
  | .knowledge digest => "knowledge/" ++ digest ++ ".json"
  | .history => "control/history.ndjson"

/-- A member of a bundle: canonical texts, one after the other. -/
structure Member where
  name : MemberName
  texts : List Canonical

def Member.raw (member : Member) : List Byte :=
  member.texts.flatMap (·.bytes)

structure Components where
  evidence : Option Nat
  knowledge : Option Nat
  controlHistory : Option Nat
  deriving DecidableEq

private def component (name count : Str) (value : Option Nat) : Fields :=
  value.toList.map fun value =>
    (name, .object [(count, .int value)])

def Components.json (components : Components) : Json :=
  .object
    (component "evidence" "objects" components.evidence ++
      component "knowledge" "documents" components.knowledge ++
      component "control_history" "records" components.controlHistory)

structure Bundle where
  sourceSite : Str
  generation : Nat
  createdAt : Str
  components : Components
  members : List Member
  bundleId : Str

section Manifest

variable (sha256 : List Byte → Str)

/-- An entry of `files`. -/
def Member.listed (member : Member) : Json :=
  .object
    [("path", .string member.name.path),
      ("size", .int member.raw.length),
      ("sha256", .string (sha256 member.raw))]

/-- The manifest without `bundle_id`. -/
def Bundle.clean (bundle : Bundle) : Json :=
  .object
    [("schema", .string "ppc-lab-replication-bundle-v1"),
      ("replication_api", .int 1),
      ("source_site", .string bundle.sourceSite),
      ("generation", .int bundle.generation),
      ("created_at", .string bundle.createdAt),
      ("components", bundle.components.json),
      ("files", .array (bundle.members.map (Member.listed sha256))),
      ("policy", .object
        [("target_binaries_included", .bool false),
          ("live_control_state_included", .bool false),
          ("merge", .string "content-addressed-idempotent")])]

/-- `manifest_material` -/
def Bundle.manifestMaterial (bundle : Bundle) : Option (List Byte) :=
  (bundle.clean sha256).canonical

end Manifest

def isHex64 (digest : Str) : Bool :=
  digest.length == 64 && digest.all (· ∈ str "0123456789abcdef")

inductive ExportFailure where
  | invalidDigest (digest : Str)
  | objectMissing (digest : Str)
  | hashMismatch (digest : Str)
  | noComponent
  | encoding
  deriving DecidableEq

section Export

variable (sha256 : List Byte → Str)

def sortMembers (members : List Member) : List Member :=
  members.insertionSort fun first second =>
    first.name.path ≤ second.name.path

/-- What an export puts into a bundle. -/
structure Collected where
  evidence : Option (List Member)
  knowledge : Option (List Member)
  controlHistory : Option (List Member)

namespace Collected

def entries (collected : Collected) : List Member :=
  collected.evidence.getD [] ++ collected.knowledge.getD [] ++
    collected.controlHistory.getD []

def components (collected : Collected) : Components where
  evidence := collected.evidence.map (·.length)
  knowledge := collected.knowledge.map (·.length)
  controlHistory :=
    collected.controlHistory.map fun members =>
      (members.map (·.texts.length)).sum

def isEmpty (collected : Collected) : Bool :=
  collected.evidence.isNone && collected.knowledge.isNone &&
    collected.controlHistory.isNone

end Collected

/-- The bundle that `build_bundle` writes. -/
def buildBundle (site : Str) (generation : Nat) (createdAt : Str)
    (collected : Collected) : Except ExportFailure Bundle :=
  if collected.isEmpty then .error .noComponent
  else
    let unnamed : Bundle :=
      { sourceSite := site
        generation := generation
        createdAt := createdAt
        components := collected.components
        members := sortMembers collected.entries
        bundleId := [] }
    match unnamed.manifestMaterial sha256 with
    | none => .error .encoding
    | some material => .ok { unnamed with bundleId := sha256 material }

end Export

def isSiteCharacter (character : CodePoint) : Bool :=
  character ∈ str
    "ABCDEFGHIJKLMNOPQRSTUVWXYZabcdefghijklmnopqrstuvwxyz0123456789._-"

/-- `SITE_RE` -/
def isSite (site : Str) : Bool :=
  1 ≤ site.length && site.length ≤ 64 && site.all isSiteCharacter

/-- `MAX_MEMBER_BYTES` -/
def maxMemberBytes : Nat :=
  64 * 1024 * 1024

inductive VerifyError where
  | duplicateMembers
  | memberTooLarge (path : Str)
  | invalidSite
  | invalidGeneration
  | bundleIdMismatch
  | invalidName (path : Str)
  | invalidJson (path : Str)
  | semanticMismatch (path : Str)
  deriving DecidableEq

section Verify

variable (sha256 : List Byte → Str)

/-- A member whose name is the hash of its document. -/
def addressErrors (member : Member) (leaf : Str) : List VerifyError :=
  if isHex64 leaf then
    match member.texts with
    | [text] =>
        if sha256 text.bytes = leaf then []
        else [.semanticMismatch member.name.path]
    | _ => [.invalidJson member.name.path]
  else [.invalidName member.name.path]

def memberErrors (member : Member) : List VerifyError :=
  match member.name with
  | .evidence leaf | .knowledge leaf => addressErrors sha256 member leaf
  | .history => []

/-- What `verify_bundle` says of a bundle that was written to its end. -/
def verifyBundle (bundle : Bundle) : List VerifyError :=
  (if (bundle.members.map (·.name.path)).Nodup then []
    else [.duplicateMembers]) ++
  (bundle.members.filter fun member =>
    maxMemberBytes < member.raw.length).map
      (fun member => .memberTooLarge member.name.path) ++
  (if isSite bundle.sourceSite then [] else [.invalidSite]) ++
  (if 1 ≤ bundle.generation then [] else [.invalidGeneration]) ++
  (if (bundle.manifestMaterial sha256).map sha256 = some bundle.bundleId then []
    else [.bundleIdMismatch]) ++
  bundle.members.flatMap (memberErrors sha256)

end Verify

end PpcLab.Replication
