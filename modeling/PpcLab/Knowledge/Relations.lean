import PpcLab.Explore.Evaluate
import PpcLab.Knowledge.Query
import PpcLab.Library.Paths

/-!
# Relations of a document

What a document adds to the knowledge graph: the hashes that it names, its
symbols, and what documents of some schemas say about functions, behaviours
and hypotheses.  A loop over a member that cannot be iterated over raises, and
so does the hash of a text that cannot be encoded.
-/

namespace PpcLab.Knowledge

open Json
open Explore (sortedSet)
open Security (truthy)

/-- What the modules of Python bring along. -/
structure Host where
  unicode : Unicode
  numerals : Numerals
  sha256 : List Byte → Str
  sha1 : List Byte → Str

/-- `valid_sha` -/
def validSha : Json → Bool
  | .string text =>
      text.length == 64 && text.all (· ∈ str "0123456789abcdefABCDEF")
  | _ => false

/-- The dictionaries in `for item in doc.get(key, [])`.  Numbers, truth values
and `None` cannot be iterated over. -/
def dictionaries (doc : Fields) (key : Str) : Option (List Fields) :=
  match find? doc key with
  | none => some []
  | some (.array items) => some (items.filterMap asObject?)
  | some (.string _) | some (.object _) => some []
  | some .null | some (.bool _) | some (.int _) | some (.float _) => none

/-- The dictionaries of a member that is looked at if it is a list. -/
def listed (doc : Fields) (key : Str) : List Fields :=
  ((asArray? (get doc key)).getD []).filterMap asObject?

section Values

variable (host : Host)

def formatAddress (number : Int) : Str :=
  str "0x" ++ Unicode.hexDigits 8 (number % 2 ^ 32).toNat

/-- `parse_address` -/
def addressOf : Json → Option Str
  | .null => none
  | .int number => some (formatAddress number)
  | .bool value => some (formatAddress value.toInt)
  | value => parseAddress host.numerals (host.unicode.toStr value)

/-- `str(first or second or default)` -/
def textOr (values : List Json) (default : Str) : Str :=
  host.unicode.toStr ((values.find? truthy).getD (.string default))

/-- `text.encode()` and its hash. -/
def hashText (hash : List Byte → Str) (text : Str) : Option Str :=
  (utf8 text).map hash

/-- `sha256_bytes(canonical(value))` -/
def hashValue (value : Json) : Option Str :=
  value.canonical.map host.sha256

/-- `str(value).lower()` of a valid hash. -/
def shaOf (value : Json) : Option Str :=
  if validSha value then
    some (host.unicode.lower (host.unicode.toStr value))
  else none

mutual

/-- What is found in the dictionaries of a value. -/
def harvest (here : Fields → List Str) : Json → List Str
  | .object fields => here fields ++ harvestFields here fields
  | .array items => harvestItems here items
  | .null | .bool _ | .int _ | .float _ | .string _ => []

def harvestItems (here : Fields → List Str) : List Json → List Str
  | [] => []
  | item :: items => harvest here item ++ harvestItems here items

def harvestFields (here : Fields → List Str) : Fields → List Str
  | [] => []
  | (_, value) :: fields => harvest here value ++ harvestFields here fields

end

def inputHashesAt (fields : Fields) : List Str :=
  let inputs : List Json :=
    match get fields "inputs" with
    | .object members => members.map Prod.snd
    | .array items => items
    | _ => []
  let provenance := (asArray? (get fields "input_provenance")).getD []
  ((inputs ++ provenance).filterMap asObject?).filterMap
      (fun item => shaOf host (get item "sha256")) ++
    (shaOf host (get fields "target_sha256")).toList

/-- `harvest_input_hashes` -/
def harvestInputHashes : Json → List Str :=
  harvest (inputHashesAt host)

/-- `harvest_behavior_hashes` -/
def harvestBehaviorHashes : Json → List Str :=
  harvest fun fields => (shaOf host (get fields "behavior_sha256")).toList

end Values

/-- `result_payload` -/
def resultPayload (doc : Fields) : Option Fields :=
  if get doc "schema" = .string "ppc-lab-result-v1" then some doc
  else
    ((asObject? (get doc "response")).bind fun response =>
      asObject? (get response "result")).or (asObject? (get doc "result"))

def dumpFields (dump : Fields) : Json :=
  .object [("address", get dump "address"), ("size", get dump "size"),
    ("fnv1a64", get dump "fnv1a64")]

/-- `behavior_payload` -/
def behaviorPayload (doc : Fields) : Option (Option Json) :=
  match (resultPayload doc).filter (!·.isEmpty) with
  | some result => do
      let dumps ← dictionaries result "dumps"
      return some (.object [("stop_reason", get result "stop_reason"),
        ("pc", get result "pc"), ("registers", get result "registers"),
        ("cr", get result "cr"), ("lr", get result "lr"),
        ("ctr", get result "ctr"), ("dumps", .array (dumps.map dumpFields))])
  | none =>
      some (if get doc "schema" = .string "ppc-lab-corpus-case-v1" then
        (asObject? (get doc "expectation")).map .object
      else none)

inductive Write where
  | node (node : Node)
  | edge (edge : Edge) (metadata : Json)

inductive Counter where
  | targets | symbols | addresses | functions | behaviors | coverage | calls
  | hypotheses
  deriving DecidableEq

/-- What an item of a document adds, and what it is counted as. -/
structure Finding where
  writes : List Write
  counted : List Counter

/-- The document that relations are found in. -/
structure Origin where
  docSha : Str
  targets : List Str

namespace Origin

variable (origin : Origin)

def docKey : Str :=
  "document:" ++ origin.docSha

/-- `scope_for` -/
def scope : Str :=
  match origin.targets with
  | [target] => target
  | _ => "global"

def targetSha : Option Str :=
  if origin.scope = str "global" then none else some origin.scope

/-- `add_edge` -/
def edge (source target relation : Str) (metadata : Fields) : Write :=
  .edge ⟨source, target, relation, origin.docSha⟩ (.object metadata)

def addressKey (address : Str) : Str :=
  "address:" ++ origin.scope ++ ":" ++ address

/-- A node in the scope of the document. -/
def node (key type label : Str) (metadata : Fields) : Write :=
  .node {
    key := key
    type := type
    label := label
    targetSha256 := origin.targetSha
    metadata := .object metadata }

def addressNode (address : Str) (metadata : Fields) : Write :=
  .node {
    key := origin.addressKey address
    type := "address"
    label := address
    targetSha256 := origin.targetSha
    address := some address
    metadata := .object metadata }

end Origin

def targetKey (target : Str) : Str :=
  "target:" ++ target

/-- A node of no target. -/
def freeNode (key type label : Str) (metadata : Fields) : Write :=
  .node { key := key, type := type, label := label
          metadata := .object metadata }

section Findings

variable (host : Host) (origin : Origin)

/-- `function_key` -/
def functionKey (name : Str) : Str :=
  let clean := host.unicode.strip name
  "function:" ++ origin.scope ++ ":" ++
    (if clean = [] then str "<unknown>" else clean)

def functionNode (name : Str) (metadata : Fields) : Write :=
  origin.node (functionKey host origin name) "function" name metadata

def documentFinding (schema label : Str) : Finding where
  writes :=
    let schemaKey : Str := "schema:" ++ schema
    [freeNode origin.docKey "document" ((Paths.pureParts label).getLastD [])
        [("schema", .string schema)],
      freeNode schemaKey "schema" schema [],
      origin.edge origin.docKey schemaKey "has-schema" []]
  counted := []

def targetFinding (target : Str) : Finding where
  writes :=
    [.node { key := targetKey target, type := "target"
             label := target.take 16, targetSha256 := some target },
      origin.edge origin.docKey (targetKey target) "targets" []]
  counted := [.targets]

def symbolName (item : Fields) : Str :=
  host.unicode.strip (textOr host [get item "name", get item "symbol"] [])

def symbolAddress (item : Fields) : Option Str :=
  addressOf host
    (if get item "address" = .null then get item "value"
      else get item "address")

/-- `name or addr or "symbol"` -/
def symbolLabel (item : Fields) : Str :=
  if symbolName host item = [] then (symbolAddress host item).getD "symbol"
  else symbolName host item

/-- A symbol, and the address that it is located at. -/
def symbol (item : Fields) (digest : Str) : Finding :=
  let address := symbolAddress host item
  let key : Str := "symbol:" ++ origin.scope ++ ":" ++
    address.getD "none" ++ ":" ++ digest.take 12
  let writes : List Write :=
    [.node {
        key := key
        type := "symbol"
        label := symbolLabel host item
        targetSha256 := origin.targetSha
        address := address
        metadata := .object item },
      origin.edge origin.docKey key "defines-symbol" []]
  match address with
  | none => ⟨writes, [.symbols]⟩
  | some address =>
      ⟨writes ++ [origin.addressNode address [],
        origin.edge key (origin.addressKey address) "located-at" []],
        [.addresses, .symbols]⟩

def symbolFinding (item : Fields) : Option Finding :=
  if symbolName host item = [] ∧ symbolAddress host item = none then
    some ⟨[], []⟩
  else
    (hashText host.sha1 (symbolLabel host item)).map (symbol host origin item)

def observedFunction (item : Fields) : Finding where
  writes :=
    let name := textOr host [get item "name"] "<unknown>"
    [functionNode host origin name item,
      origin.edge origin.docKey (functionKey host origin name)
        "observed-function"
        [("instructions_executed", get item "instructions_executed")]]
  counted := [.functions]

def hotPc (item : Fields) : Finding :=
  match addressOf host (get item "pc") with
  | none => ⟨[], []⟩
  | some address =>
      let key := origin.addressKey address
      let function := host.unicode.strip (textOr host [get item "function"] [])
      let owner : List Write :=
        if function = [] then []
        else
          [functionNode host origin function [],
            origin.edge key (functionKey host origin function)
              "belongs-to-function" []]
      ⟨[origin.addressNode address item,
          origin.edge origin.docKey key "executed"
            [("count", get item "count"),
              ("disassembly", get item "disassembly")]] ++ owner,
        [.addresses]⟩

def observedCall (item : Fields) : Finding where
  writes :=
    let caller := textOr host [get item "caller"] "<unknown>"
    let callee := textOr host [get item "callee"] "<unknown>"
    [functionNode host origin caller [], functionNode host origin callee [],
      origin.edge (functionKey host origin caller)
        (functionKey host origin callee) "observed-call"
        [("site", get item "site"), ("target", get item "target"),
          ("count", get item "count")]]
  counted := [.calls]

/-- `coverage_material` -/
def coverageMaterial (hotPcs : List Fields) : List Str :=
  ((hotPcs.filter fun item => truthy (get item "pc")).map fun item =>
    host.unicode.toStr (get item "pc")).insertionSort
      fun first second => notAfter first second

def coverage (material : List Str) (digest : Str) : Finding where
  writes :=
    let key : Str := "coverage:" ++ digest
    [freeNode key "coverage" (digest.take 16)
        [("unique_pcs", .int material.length)],
      origin.edge origin.docKey key "has-coverage" []]
  counted := [.coverage]

def coverageFindings (hotPcs : List Fields) : Option (List Finding) :=
  let material := coverageMaterial host hotPcs
  if material = [] then some []
  else
    (hashValue host (.array (material.map .string))).map fun digest =>
      [coverage origin material digest]

def traceFindings (doc : Fields) : Option (List Finding) := do
  let functions ← dictionaries doc "functions"
  let hotPcs ← dictionaries doc "hot_pcs"
  let calls ← dictionaries doc "calls"
  let coverage ← coverageFindings host origin hotPcs
  return functions.map (observedFunction host origin) ++
    hotPcs.map (hotPc host origin) ++ calls.map (observedCall host origin) ++
    coverage

def behaviorKey (digest : Str) : Str :=
  "behavior:" ++ digest

def behaviorNode (digest label : Str) : Write :=
  freeNode (behaviorKey digest) "behavior" label
    [("fingerprint", .string digest)]

def behaviorFinding (digest : Str) : Finding where
  writes :=
    [behaviorNode digest (digest.take 16),
      origin.edge origin.docKey (behaviorKey digest) "has-behavior" []]
  counted := [.behaviors]

def behaviorFindings (doc : Fields) : Option (List Finding) := do
  let payload ← behaviorPayload doc
  let own ← payload.elim (some []) fun behavior =>
    (hashValue host behavior).map ([·])
  return (sortedSet (harvestBehaviorHashes host (.object doc) ++ own)).map
    (behaviorFinding origin)

/-- A node that the document describes, with an edge to each target. -/
def described (key type label relation : Str) (metadata : Fields)
    (toTarget : Str) : Finding where
  writes :=
    [freeNode key type label metadata,
      origin.edge origin.docKey key relation []] ++
      origin.targets.map fun target =>
        origin.edge key (targetKey target) toTarget []
  counted := []

def corpusCase (doc : Fields) : Finding :=
  let caseId := textOr host [get doc "id"] (origin.docSha.take 12)
  described origin ("corpus-case:" ++ caseId) "corpus-case" caseId
    "describes-case"
    [("description", get doc "description"),
      ("tags", (find? doc "tags").getD (.array []))]
    "regresses-target"

def campaign (doc : Fields) : Finding :=
  let name := textOr host [get doc "name"] "campaign"
  let manifest :=
    (textOr host [get doc "manifest_sha256"] origin.docSha).take 16
  described origin ("campaign:" ++ manifest ++ ":" ++ name) "campaign" name
    "describes-campaign"
    [("status", get doc "status"),
      ("engine_version", get doc "engine_version")]
    "researched-target"

/-- One side of the first divergence. -/
def divergence (key : Str) (first : Fields) (side : Str) : List Write :=
  match (asObject? (get first side)).bind fun item =>
      addressOf host (get item "pc") with
  | none => []
  | some address =>
      [origin.addressNode address [],
        origin.edge key (origin.addressKey address)
          ("first-divergence-" ++ side) []]

def triage (doc : Fields) : Finding where
  writes :=
    let key : Str := "triage:" ++ origin.docSha
    let first := dict (get doc "first_divergence")
    [freeNode key "triage" (textOr host [get doc "classification"] "triage")
        [("equal", get doc "equal"),
          ("classification", get doc "classification")],
      origin.edge origin.docKey key "describes-triage" []] ++
      divergence host origin key first "left" ++
      divergence host origin key first "right"
  counted := []

def hypothesisMaterial (item : Fields) : Str :=
  (str "|").intercalate
    (["subject", "role", "claim"].map fun key => textOr host [get item key] [])

/-- `hypothesis_key` -/
def hypothesisKey (item : Fields) : Option Str :=
  (hashText host.sha256 (hypothesisMaterial host item)).map fun digest =>
    "hypothesis:" ++ origin.scope ++ ":" ++ digest.take 20

def hypothesisMetadata (item : Fields) : Fields :=
  (["id", "subject", "role", "claim", "confidence", "status",
    "metrics"].map fun key => (str key, get item key)).filter
      fun member => member.2 ≠ .null

def supportedBy (key : Str) (digest : Json) : List Write :=
  match shaOf host digest with
  | none => []
  | some hash =>
      [behaviorNode hash ((host.unicode.toStr digest).take 16),
        origin.edge key (behaviorKey hash) "supported-by-behavior" []]

def stateAt (key : Str) (item : Fields) : List Write :=
  let subject := textOr host [get item "subject"] []
  if (str "writes_u32.").isPrefixOf subject ∨
      (str "writes_f32.").isPrefixOf subject then
    match parseAddress host.numerals (subject.drop 11) with
    | none => []
    | some address =>
        [origin.addressNode address [],
          origin.edge key (origin.addressKey address) "hypothesizes-state-at"
            [("role", get item "role")]]
  else []

/-- The relation of a document to a hypothesis. -/
def standing (status : Str) : Str :=
  if status = str "supported" then "supports-hypothesis"
  else "proposes-hypothesis"

def hypothesis (item : Fields) (key : Str) : Finding where
  writes :=
    let status := textOr host [get item "status"] "candidate"
    let label :=
      textOr host [get item "claim", get item "subject"] "hypothesis"
    [origin.node key "hypothesis" label (hypothesisMetadata item),
      origin.edge origin.docKey key (standing status)
        [("confidence", get item "confidence"),
          ("status", .string status)]] ++
      (origin.targets.map fun target =>
        origin.edge key (targetKey target) "hypothesizes-target" []) ++
      ((asArray? (get item "supporting_behaviors")).getD []).flatMap
        (supportedBy host origin key) ++
      stateAt host origin key item
  counted := [.hypotheses]

def hypothesisFinding (item : Fields) : Option Finding :=
  (hypothesisKey host origin item).map (hypothesis host origin item)

def annotated (item : Fields) : Finding :=
  match addressOf host (get item "address") with
  | none => ⟨[], []⟩
  | some address =>
      ⟨[origin.addressNode address [],
        origin.edge origin.docKey (origin.addressKey address) "annotates"
          [("kind", get item "kind"), ("comment", get item "comment")]], []⟩

end Findings

section Documents

variable (host : Host)

/-- `str(doc.get("schema") or "unknown-json")` -/
def schemaOf (doc : Fields) : Str :=
  textOr host [get doc "schema"] "unknown-json"

/-- The targets of a document, and the one that is forced on it. -/
def targetsOf (doc : Fields) (forced : Option Str) : Option (List Str) :=
  let harvested := harvestInputHashes host (.object doc)
  match given forced with
  | none => some (sortedSet harvested)
  | some target =>
      if validSha (.string target) then
        some (sortedSet (host.unicode.lower target :: harvested))
      else none

/-- What a document of a schema says. -/
def only (condition : Prop) [Decidable condition]
    (findings : Option (List Finding)) : Option (List Finding) :=
  if condition then findings else some []

def hypothesisItems (doc : Fields) (schema : Str) : List Fields :=
  if schema = str "ppc-lab-hypothesis-report-v1" then listed doc "hypotheses"
  else if schema = str "ppc-lab-hypothesis-v1" then [doc]
  else []

/-- `document_relations` -/
def documentRelations (doc : Fields) (docSha label : Str)
    (forced : Option Str) : Option (List Finding) := do
  let schema := schemaOf host doc
  let targets ← targetsOf host doc forced
  let origin : Origin := ⟨docSha, targets⟩
  let symbols ← (listed doc "symbols").mapM (symbolFinding host origin)
  let trace ← only (schema = str "ppc-lab-trace-analysis-v1")
    (traceFindings host origin doc)
  let behaviors ← behaviorFindings host origin doc
  let corpus ← only (schema = str "ppc-lab-corpus-case-v1")
    (some [corpusCase host origin doc])
  let triaged ← only (schema = str "ppc-lab-differential-triage-v1")
    (some [triage host origin doc])
  let campaigns ← only (schema = str "ppc-lab-campaign-summary-v1")
    (some [campaign host origin doc])
  let hypotheses ← (hypothesisItems doc schema).mapM
    (hypothesisFinding host origin)
  return documentFinding origin schema label ::
    targets.map (targetFinding origin) ++ symbols ++ trace ++ behaviors ++
    corpus ++ triaged ++ campaigns ++ hypotheses ++
    (listed doc "annotations").map (annotated host origin)

end Documents

end PpcLab.Knowledge
