import PpcLab.Corpus.Behavior
import PpcLab.Explore.Readers

/-!
# Commands of the corpus

Every command reads the corpus and the world around it.  A case is a file under
the name of its id; `promote` and `bless` write such a file, and the reports of
`replay` and `minimize` go wherever the command line says.
-/

namespace PpcLab.Corpus

open Explore (Failure Setting Content Cases found? getOr readJson writeJson
  caseFiles sortedSet texts)

/-- The folder of a corpus, its manifest and its cases. -/
structure CaseStore where
  root : Str
  manifest : Option Content
  cases : Cases

/-- A file that is written: one of the corpus or another one. -/
inductive Place where
  | caseFile (name : Str)
  | elsewhere

/-- The programs of a command and what it sees of the file system. -/
structure Tool where
  world : World
  engine : Engine

variable (setting : Setting) (tool : Tool)

def corpusSchema : Json :=
  .string (str "ppc-lab-corpus-v1")

def caseSchema : Json :=
  .string (str "ppc-lab-corpus-case-v1")

def fileName (id : Str) : Str :=
  id ++ str ".json"

def checkManifest (content : Content) : Except Failure Unit := do
  let manifest ← asFields (← readJson content)
  if Json.get manifest (str "schema") = corpusSchema then return ()
  else throw (.reported (str "corpus manifest schema mismatch"))

/-- `init_corpus` -/
def initCorpus (corpus : CaseStore) : Except Failure CaseStore :=
  match corpus.manifest with
  | none => .ok { corpus with
      manifest := some (.json (.object (Json.sortedObject
        [(str "schema", corpusSchema), (str "format_version", .int 1)]))) }
  | some content => do
      checkManifest content
      return corpus

/-- `require_corpus` -/
def requireCorpus (corpus : CaseStore) : Except Failure Unit :=
  match corpus.manifest with
  | none | some .directory =>
      .error (.reported (str "corpus does not exist: " ++ corpus.root))
  | some content => checkManifest content

/-- A file is written; where it is not a case the model does not keep it. -/
def write (corpus : CaseStore) (place : Place) (fields : Fields) :
    Except Failure CaseStore :=
  match place with
  | .elsewhere => .ok corpus
  | .caseFile name => do
      let cases ← writeJson corpus.cases name (Json.sortedObject fields)
      return { corpus with cases := cases }

def isAlphanumeric (character : CodePoint) : Bool :=
  let value := character.val
  decide (0x30 ≤ value ∧ value ≤ 0x39) ||
    decide (0x41 ≤ value ∧ value ≤ 0x5a) || decide (0x61 ≤ value ∧ value ≤ 0x7a)

/-- `ID_RE`, whose last anchor also stands before a final line feed. -/
def isId (text : Str) : Bool :=
  match if text.getLast? = some 0x0a then text.dropLast else text with
  | [] => false
  | first :: rest =>
      isAlphanumeric first &&
        rest.all (fun character =>
          isAlphanumeric character || decide (character ∈ str "._-")) &&
        decide (rest.length ≤ 127)

structure Promotion where
  id : Str
  /-- The file of the job. -/
  job : Content
  /-- Its directory. -/
  base : Str
  description : Str
  tags : List Str
  embedInput : Bool
  allowFailed : Bool

def embed (spec : Spec) : Spec :=
  { spec with embedded := some (str "objects/sha256/" ++ spec.sha256) }

/-- The case that a promotion writes. -/
def promotedCase (promotion : Promotion) : Except Failure Fields := do
  if isId promotion.id then
    let job ← asFields (← readJson promotion.job)
    let (job, specs, paths) ← resolveJobInputs tool.world promotion.base job
    let response ← runWorker tool.engine job paths
    if Security.truthy (Json.get response (str "ok")) ∨ promotion.allowFailed then
      let specs := if promotion.embedInput then specs.map embed else specs
      let version ← tool.engine.version
      let expectation ← stableExpectation response
      return [(str "schema", caseSchema), (str "id", .string promotion.id),
        (str "description", .string promotion.description),
        (str "tags", texts (sortedSet promotion.tags)),
        (str "created_with", .object [(str "ppc_lab", .string version)]),
        (str "inputs", .array (specs.map Spec.json)),
        (str "job", .object job), (str "expectation", .object expectation)]
    else throw (.reported (str ("baseline execution failed; use " ++
      "--allow-failed-baseline to promote intentionally")))
  else throw (.reported (str "invalid case id"))

/-- `selected_cases` -/
def selectedCases (corpus : CaseStore) (ids tags : List Str) :
    Except Failure (List (Str × Fields)) := do
  let files ←
    match ids with
    | [] => pure (caseFiles corpus.cases)
    | ids => ids.mapM fun id =>
        match corpus.cases.lookup (fileName id) with
        | none | some (_, .directory) =>
            .error (.reported (str "case not found: " ++ id))
        | some entry => .ok entry
  let cases ← files.mapM fun entry => do
    return (entry.1, ← asFields (← readJson entry.2))
  cases.filterM fun case =>
    if tags.isEmpty then .ok true
    else do
      let held ← asItems (getOr case.2 "tags" (.array []))
      return tags.all fun tag => decide (Json.string tag ∈ held)

/-- `load_case` -/
def loadCase (corpus : CaseStore) (id : Str) : Except Failure Fields :=
  match corpus.cases.lookup (fileName id) with
  | none | some (_, .directory) =>
      .error (.reported (str "case not found: " ++ id))
  | some (_, content) => do
      let case ← asFields (← readJson content)
      if Json.get case (str "schema") = caseSchema then return case
      else throw (.reported (str "case schema mismatch: " ++ id))

/-- `parse_maps` -/
def parseMap (value : Str) : Except Failure (Str × Str) :=
  if 0x3d ∈ value then
    .ok (setting.python.unicode.lower (value.takeWhile (· ≠ 0x3d)),
      tool.world.resolve ((value.dropWhile (· ≠ 0x3d)).drop 1))
  else .error (.reported (str "--input must be SHA256=PATH"))

/-- `--input` and `--input-root` -/
structure InputOptions where
  inputs : List Str
  roots : List Str

def sources (options : InputOptions) : Except Failure Sources := do
  let maps ← options.inputs.mapM (parseMap setting tool)
  return ⟨maps.reverse, options.roots.map tool.world.resolve⟩

def withBackend (backend : Option Str) (job : Fields) :
    Except Failure Fields :=
  match backend with
  | none => .ok job
  | some backend => do
      let execution ← asFields (getOr job "execution" (.object []))
      return Dictionary.assign job (str "execution",
        .object (Dictionary.assign execution
          (str "backend", .string backend)))

/-- `do_replay` -/
def doReplay (corpus : CaseStore) (sources : Sources) (backend : Option Str)
    (case : Fields) : Except Failure (Fields × List Difference) := do
  let paths ← findInputs tool.world corpus.root sources case
  let job ← withBackend backend (← asFields (← member case "job"))
  let response ← runWorker tool.engine job paths
  let expectation ← member case "expectation"
  let shown ← stableExpectation response
  return (response, diffs setting.doubles expectation (.object shown) (str "$"))

structure ReplayRow where
  id : Json
  differences : List Difference
  version : Str

def ReplayRow.ok (row : ReplayRow) : Bool :=
  row.differences.isEmpty

def ReplayRow.json (row : ReplayRow) : Json :=
  .object
    [(str "id", row.id), (str "ok", .bool row.ok),
      (str "differences", .array (row.differences.map Difference.json)),
      (str "engine_version", .string row.version)]

structure Replay where
  cases : List Str
  tags : List Str
  options : InputOptions
  backend : Option Str
  failFast : Bool
  report : Option Place

def replayRows (corpus : CaseStore) (sources : Sources) (replay : Replay) :
    List (Str × Fields) → Except Failure (List ReplayRow)
  | [] => .ok []
  | (_, case) :: cases => do
      let (_, differences) ←
        doReplay setting tool corpus sources replay.backend case
      let id ← member case "id"
      let version ← tool.engine.version
      let row : ReplayRow := ⟨id, differences, version⟩
      if !row.ok && replay.failFast then return [row]
      else return row :: (← replayRows corpus sources replay cases)

def replaySummary (version : Str) (rows : List ReplayRow) : Fields :=
  let failed := rows.countP fun row => !row.ok
  [(str "schema", .string (str "ppc-lab-corpus-replay-summary-v1")),
    (str "engine_version", .string version),
    (str "cases", Explore.number rows.length),
    (str "passed", Explore.number (rows.length - failed)),
    (str "failed", Explore.number failed),
    (str "results", .array (rows.map ReplayRow.json))]

/-- The report of a replay. -/
def replayed (corpus : CaseStore) (replay : Replay) : Except Failure Fields := do
  let sources ← sources setting tool replay.options
  let cases ← selectedCases corpus replay.cases replay.tags
  let rows ← replayRows setting tool corpus sources replay cases
  return replaySummary (← tool.engine.version) rows

def listed (corpus : CaseStore) : Except Failure (List Str) := do
  (← selectedCases corpus [] []).mapM fun (name, case) => do
    let unicode := setting.python.unicode
    let tags ← (← asItems (getOr case "tags" (.array []))).mapM asText
    return unicode.toStr (getOr case "id" (.string (name.take (name.length - 5))))
      ++ str "\t" ++ (str ",").intercalate tags ++ str "\t" ++
      unicode.toStr (getOr case "description" (.string []))

def isDigest (text : Str) : Bool :=
  decide (text.length = 64) && text.all fun character =>
    decide (0x30 ≤ character.val ∧ character.val ≤ 0x39) ||
      decide (0x61 ≤ character.val ∧ character.val ≤ 0x66)

def verifySpec (corpus : CaseStore) (id : Str) (spec : Json) :
    Except Failure Unit := do
  let spec ← asFields spec
  let hash ← asText (getOr spec "sha256" (.string []))
  if !isDigest hash then
    throw (.reported (id ++ str ": invalid input sha256"))
  else
    match Json.get spec (str "embedded") with
    | .string (first :: path) =>
        match contained tool.world
            (Explore.joined corpus.root (first :: path)) corpus.root with
        | none => throw (.reported
            (id ++ str ": embedded input path escapes corpus root"))
        | some path =>
            if tool.world.isFile path ∧
                Json.asInteger? (Json.get spec (str "size")) =
                  some (tool.world.size path : Int) ∧
                tool.world.sha256 path = hash then
              return ()
            else throw (.reported (id ++ str ": corrupt embedded input"))
    | value => if Security.truthy value then throw .raised else return ()

/-- One turn of `verify`, after the ids that it has seen. -/
def verifyCase (corpus : CaseStore) (ids : List Str) (case : Str × Fields) :
    Except Failure (List Str) := do
  let path := Explore.casePath corpus.root case.1
  if Json.get case.2 (str "schema") ≠ caseSchema then
    throw (.reported (path ++ str ": bad schema"))
  else
    match Json.get case.2 (str "id") with
    | .string id =>
        if !isId id then throw (.reported (path ++ str ": invalid id"))
        else if Explore.isAmong ids id then throw (.reported (str "duplicate id: " ++ id))
        else do
          for spec in ← asItems (getOr case.2 "inputs" (.array [])) do
            verifySpec tool corpus id spec
          return id :: ids
    | _ => throw (.reported (path ++ str ": invalid id"))

def verified (corpus : CaseStore) : Except Failure Nat := do
  return (← (← selectedCases corpus [] []).foldlM
    (verifyCase tool corpus) []).length

structure Bless where
  case : Str
  options : InputOptions
  backend : Option Str
  yes : Bool

/-- The case with its new expectation. -/
def blessed (corpus : CaseStore) (bless : Bless) : Except Failure Fields := do
  let sources ← sources setting tool bless.options
  let case ← loadCase corpus bless.case
  if bless.yes then
    let (response, _) ←
      doReplay setting tool corpus sources bless.backend case
    let expectation ← stableExpectation response
    let version ← tool.engine.version
    return Dictionary.assign
      (Dictionary.assign case (str "expectation", .object expectation))
      (str "blessed_with", .object [(str "ppc_lab", .string version)])
  else throw (.reported (str "bless requires --yes"))

structure Minimize where
  case : Str
  options : InputOptions
  output : Place

/-- The differences of a job from an expectation. -/
def mismatches (paths : List Str) (expectation : Json) (job : Fields) :
    Except Failure (List Difference) := do
  let shown ← stableExpectation (← runWorker tool.engine job paths)
  return diffs setting.doubles expectation (.object shown) (str "$")

def setupFields : List String :=
  ["registers", "float_registers", "writes_u32", "writes_f32",
    "syscall_returns", "bindings"]

/-- A job and the entries that were taken out of it. -/
structure Reduced where
  job : Fields
  removed : List Str

/-- An entry goes when a mismatch that is wanted stays. -/
def tryWithout (paths : List Str) (expectation : Json) (wanted : List Str)
    (field : String) (reduced : Reduced) (key : Str) :
    Except Failure Reduced := do
  let entries ← asFields (← member reduced.job field)
  let candidate := Dictionary.assign reduced.job
    (str field, .object (entries.filter fun entry => entry.1 ≠ key))
  let found ← mismatches setting tool paths expectation candidate
  if found.any fun difference => Explore.isAmong wanted difference.path then
    return ⟨candidate, reduced.removed ++ [str field ++ 0x2e :: key]⟩
  else return reduced

def minimizeField (paths : List Str) (expectation : Json) (wanted : List Str)
    (reduced : Reduced) (field : String) : Except Failure Reduced := do
  let entries ← asFields (getOr reduced.job field (.object []))
  (entries.map (·.1)).foldlM
    (tryWithout setting tool paths expectation wanted field) reduced

/-- The case that `minimize` writes. -/
def minimized (corpus : CaseStore) (minimize : Minimize) :
    Except Failure Fields := do
  let sources ← sources setting tool minimize.options
  let case ← loadCase corpus minimize.case
  let paths ← findInputs tool.world corpus.root sources case
  let job ← asFields (← member case "job")
  let expectation ← member case "expectation"
  let first ← mismatches setting tool paths expectation job
  if first.isEmpty then
    throw (.reported (str "case currently passes; nothing to minimize"))
  else
    let reduced ← setupFields.foldlM
      (minimizeField setting tool paths expectation (first.map (·.path)))
      ⟨job, []⟩
    let id ← asText (← member case "id")
    return [(str "id", .string (id ++ str "-minimized")),
      (str "job", .object reduced.job), (str "minimized_from", .string id),
      (str "minimized_removed", texts reduced.removed)].foldl
        Dictionary.assign case

inductive Command where
  | init
  | promote (promotion : Promotion)
  | list
  | verify
  | replay (replay : Replay)
  | bless (bless : Bless)
  | minimize (minimize : Minimize)

/-- What a command writes into a corpus that exists. -/
def written (corpus : CaseStore) : Command → Except Failure CaseStore
  | .init => .ok corpus
  | .promote promotion => do
      let case ← promotedCase tool promotion
      write corpus (.caseFile (fileName promotion.id)) case
  | .list => do
      let _ ← listed setting corpus
      return corpus
  | .verify => do
      let _ ← verified tool corpus
      return corpus
  | .replay replay => do
      let summary ← replayed setting tool corpus replay
      match replay.report with
      | none => return corpus
      | some place => write corpus place summary
  | .bless bless => do
      let case ← blessed setting tool corpus bless
      write corpus (.caseFile (fileName bless.case)) case
  | .minimize minimize => do
      let case ← minimized setting tool corpus minimize
      write corpus minimize.output case

/-- The corpus in which a command begins its work: `init` and `promote` make
one, the others need one. -/
def opened (corpus : CaseStore) : Command → Except Failure CaseStore
  | .init | .promote _ => initCorpus corpus
  | _ => do
      requireCorpus corpus
      return corpus

/-- The corpus after a command, which may have failed. -/
def run (corpus : CaseStore) (command : Command) : CaseStore :=
  match opened corpus command with
  | .error _ => corpus
  | .ok corpus =>
      match written setting tool corpus command with
      | .error _ => corpus
      | .ok after => after

end PpcLab.Corpus
