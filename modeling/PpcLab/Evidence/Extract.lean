import PpcLab.Library.Dictionary
import PpcLab.Library.PythonText
import PpcLab.Library.Utf8

/-!
# Evidence documents

What the evidence store takes from a document: the fields of its row, and the
hashes of the input files that it names, in the document itself and in its
responses.
-/

namespace PpcLab.Evidence

open Json

/-- `PPC_PREFIX` -/
def ppcPrefix : Str :=
  "ppc-lab-"

/-- An object with a PPC Lab schema. -/
structure Document where
  fields : Fields
  schema : ∃ name, get fields "schema" = .string name ∧ ppcPrefix <+: name

namespace Document

def isSchema : Json → Bool
  | .string name => ppcPrefix.isPrefixOf name
  | _ => false

theorem isSchema_iff {value : Json} :
    isSchema value ↔ ∃ name, value = .string name ∧ ppcPrefix <+: name := by
  cases value with
  | string name => simp [isSchema]
  | _ => simp [isSchema]

def ofJson? : Json → Option Document
  | .object fields =>
      if schema : isSchema (get fields "schema") then
        some ⟨fields, isSchema_iff.mp schema⟩
      else none
  | _ => none

/-- The document as a value. -/
def value (document : Document) : Json :=
  .object document.fields

theorem value_of_ofJson? {value : Json} {document : Document}
    (read : ofJson? value = some document) : document.value = value := by
  unfold ofJson? at read
  split at read
  · split at read
    · cases read
      rfl
    · cases read
  · cases read

end Document

section Fields

/-- The document or a member of it that has a schema. -/
def nested (schema member : Str) (doc : Fields) : Option Fields :=
  let hasSchema fields := get fields "schema" = .string schema
  if hasSchema doc then some doc
  else
    let inResponse := dict (get (dict (get doc "response")) member)
    if hasSchema inResponse then some inResponse
    else
      let inDoc := dict (get doc member)
      if hasSchema inDoc then some inDoc else none

/-- `_nested_result` -/
def nestedResult : Fields → Option Fields :=
  nested "ppc-lab-result-v1" "result"

/-- `_nested_snapshot` -/
def nestedSnapshot : Fields → Option Fields :=
  nested "ppc-lab-snapshot-v1" "snapshot"

structure Metadata where
  schemaName : Str
  name : Option Str
  jobId : Option Str
  engineVersion : Option Str
  backend : Option Str
  stopReason : Option Str
  ok : Option Bool
  exitCode : Option Int
  host : Option Str
  cacheKey : Option Str
  instructions : Option Int
  pc : Option Str
  deriving DecidableEq

def firstString (values : List Json) : Option Str :=
  values.findSome? asString?

/-- `_extract_fields` -/
def extractFields (unicode : Unicode) (doc : Fields) : Metadata :=
  let result := (nestedResult doc).getD []
  let response := dict (get doc "response")
  let snapshot := (nestedSnapshot doc).getD []
  let own := if response.isEmpty then doc else response
  let inResult (key : Str) :=
    firstString [get result key, get doc key, get snapshot key]
  let instructions :=
    if (asInteger? (get result "instructions")).isSome then
      get result "instructions"
    else get doc "instructions"
  { schemaName :=
      unicode.toStr ((find? doc "schema").getD (.string []))
    name := asString? (get doc "name")
    jobId := firstString [get doc "id", get response "id"]
    engineVersion :=
      firstString [get doc "engine_version",
        get (dict (get doc "engine")) "version",
        get response "engine_version", get snapshot "engine_version"]
    backend := inResult "backend"
    stopReason := inResult "stop_reason"
    ok := asBool? (get own "ok")
    exitCode := asInt? (get own "exit_code")
    host := asString? (get doc "host")
    cacheKey := asString? (get doc "cache_key")
    instructions :=
      (asInt? instructions).or (asInteger? (get snapshot "instructions"))
    pc := inResult "pc" }

end Fields

/-- An input file of an experiment. -/
structure InputHash where
  fieldName : Str
  logicalPath : Option Str
  sha256 : Str
  size : Option Int
  deriving DecidableEq

mutual

/-- The dictionaries that `harvest` visits: a value, its response and so on. -/
def levels : Json → List Fields
  | .object fields => fields :: responseLevels fields
  | _ => []

def responseLevels : Fields → List Fields
  | [] => []
  | (key, value) :: fields =>
      if key = str "response" then levels value else responseLevels fields

end

section Harvest

variable (unicode : Unicode)

def logicalPath (item : Fields) : Option Str :=
  match get item "logical_path" with
  | .null => none
  | path => some (unicode.toStr path)

/-- An input that has a hash, with the key that it is found by. -/
def inputHash (member : Str × Json) :
    Option ((Str × Str) × InputHash) := do
  let item ← asObject? member.2
  let digest ← asString? (get item "sha256")
  if digest.length = 64 then
    some ((member.1, digest),
      { fieldName := member.1
        logicalPath := logicalPath unicode item
        sha256 := unicode.lower digest
        size := asInteger? (get item "size") })
  else none

def inputHashes (level : Fields) : List ((Str × Str) × InputHash) :=
  (dict (get level "inputs")).filterMap (inputHash unicode)

/-- `_extract_inputs` -/
def extractInputs (doc : Fields) : List InputHash :=
  (((levels (.object doc)).flatMap (inputHashes unicode)).foldl
    Dictionary.assign []).map (·.2)

end Harvest

end PpcLab.Evidence
