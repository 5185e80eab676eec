import PpcLab.Explore.Evaluate
import PpcLab.Library.Outcome

/-!
# Behaviour of corpus cases

A case pins the inputs of a job by their hashes and keeps what a run of it is
expected to show.  A run is compared with the expectation member by member.
-/

namespace PpcLab.Corpus

open Explore (Failure Setting found? getOr chosen isInside inputFields)

/-- What the tool asks of the file system. -/
structure World where
  /-- `resolve()` -/
  resolve : Str → Str
  isFile : Str → Bool
  size : Str → Nat
  sha256 : Str → Str
  /-- `rglob("*")` -/
  below : Str → List Str

/-- The programs that the tool runs. -/
structure Engine where
  /-- The worker, for a staged job and the files that are copied for it. -/
  worker : Fields → List (Str × Str) → Except Failure Json
  version : Except Failure Str

/-- `fields[key]` -/
def member (fields : Fields) (key : String) : Except Failure Json :=
  match found? fields key with
  | some value => .ok value
  | none => .error .raised

/-- The members of a value that is used as a dictionary. -/
def asFields : Json → Except Failure Fields
  | .object fields => .ok fields
  | _ => .error .raised

def asItems : Json → Except Failure (List Json)
  | .array items => .ok items
  | _ => .error .raised

def asText : Json → Except Failure Str
  | .string text => .ok text
  | _ => .error .raised

/-- The parts of a path. -/
def pathParts (path : Str) : List Str :=
  (path.splitOn Explore.slash).filter fun part =>
    decide (part ≠ [] ∧ part ≠ [0x2e])

/-- `Path(path).name` -/
def pathName (path : Str) : Str :=
  (pathParts path).getLast?.getD []

/-- `str(Path(path))` of a relative path. -/
def pathText (path : Str) : Str :=
  match pathParts path with
  | [] => [0x2e]
  | parts => [Explore.slash].intercalate parts

structure Spec where
  field : Str
  sha256 : Str
  size : Nat
  pathHint : Str
  embedded : Option Str

def Spec.json (spec : Spec) : Json :=
  .object
    ([(str "field", .string spec.field), (str "sha256", .string spec.sha256),
      (str "size", Explore.number spec.size),
      (str "path_hint", .string spec.pathHint)] ++
    spec.embedded.elim [] fun path => [(str "embedded", .string path)])

/-- The place holder of an input. -/
def token (index : Nat) : Str :=
  str "$INPUT:" ++ str (Text.decimal index)

/-- A job with place holders for its inputs. -/
structure Pinned where
  image : Fields
  specs : List Spec
  paths : List Str

def pinInput (world : World) (base : Str) (pinned : Pinned) (field : Str) :
    Except Failure Pinned :=
  match Json.find? pinned.image field with
  | none => .ok pinned
  | some (.string raw) =>
      let path := world.resolve (Explore.joined base raw)
      if world.isFile path then
        .ok
          { image := Dictionary.assign pinned.image
              (field, .string (token pinned.specs.length))
            specs := pinned.specs ++
              [⟨str "image." ++ field, world.sha256 path, world.size path,
                if raw.head? = some Explore.slash then pathName raw
                else pathText raw, none⟩]
            paths := pinned.paths ++ [path] }
      else .error (.reported
        (str "image." ++ field ++ str " missing: " ++ path))
  | some _ => .error .raised

/-- `resolve_job_inputs` -/
def resolveJobInputs (world : World) (base : Str) (job : Fields) :
    Except Failure (Fields × List Spec × List Str) :=
  match found? job "image" with
  | none => .ok (job, [], [])
  | some (.object image) => do
      let pinned ← inputFields.foldlM (pinInput world base) ⟨image, [], []⟩
      return (Dictionary.assign job (str "image", .object pinned.image),
        pinned.specs, pinned.paths)
  | some (.array items) =>
      if inputFields.any fun field => Json.string field ∈ items then
        .error .raised
      else .ok (job, [], [])
  | some (.string text) =>
      if text.tails.any (str "path").isPrefixOf then .error .raised
      else .ok (job, [], [])
  | some _ => .error .raised

/-- Where a file is copied for the worker. -/
def stagedName (index : Nat) (path : Str) : Str :=
  str "inputs/" ++ Text.padded 2 index ++ str "-" ++ pathName path

/-- A field with the place holder gets the name of the copy. -/
def stageInput (job : Fields) (input : Nat × Str) : Except Failure Fields := do
  match getOr job "image" (.object []) with
  | .object image =>
      let staged := inputFields.foldl (fun (image : Fields) field =>
        if Json.get image field = .string (token input.1) then
          Dictionary.assign image (field, .string (stagedName input.1 input.2))
        else image) image
      return if (found? job "image").isSome then
        Dictionary.assign job (str "image", .object staged) else job
  | _ => throw .raised

def numberedPaths (paths : List Str) : List (Nat × Str) :=
  paths.zipIdx.map Prod.swap

/-- `stage_job` -/
def stageJob (job : Fields) (paths : List Str) : Except Failure Fields :=
  (numberedPaths paths).foldlM stageInput job

/-- `run_worker` -/
def runWorker (engine : Engine) (job : Fields) (paths : List Str) :
    Except Failure Fields := do
  let staged ← stageJob job paths
  asFields (← engine.worker staged ((numberedPaths paths).map fun input =>
    (stagedName input.1 input.2, input.2)))

/-- Some members of every object in a list. -/
def chosenItems (keys : List String) (value : Json) : Except Failure Json := do
  let items ← asItems value
  return .array (← items.mapM fun item => do
    return .object (chosen keys (← asFields item)))

/-- The members that are lists of objects, if they are there. -/
def chosenLists (lists : List (String × List String)) (fields : Fields) :
    Except Failure Fields :=
  (lists.filter fun entry => (found? fields entry.1).isSome).mapM fun entry => do
    return (str entry.1,
      ← chosenItems entry.2 (Json.get fields (str entry.1)))

/-- An object of the answer with some of its members. -/
def expectedPart (key : String) (keys : List String)
    (lists : List (String × List String)) (response : Fields) :
    Except Failure Fields :=
  match Json.get response (str key) with
  | .object fields => do
      let listed ← chosenLists lists fields
      return [(str key, .object (chosen keys fields ++ listed))]
  | _ => .ok []

def dumpKeys : List String :=
  ["address", "size", "fnv1a64"]

/-- `stable_expectation` -/
def stableExpectation (response : Fields) : Except Failure Fields := do
  let result ← expectedPart "result" ["stop_reason", "instructions", "pc",
    "instruction", "registers", "lr", "ctr", "cr"] [("dumps", dumpKeys)]
    response
  let snapshot ← expectedPart "snapshot" ["stop_reason", "instructions", "pc",
    "instruction", "cpu", "symbols"]
    [("regions", ["name", "base", "size", "perms", "fnv1a64"]),
      ("dumps", dumpKeys)] response
  let error := Json.get response (str "error")
  return [(str "ok", Json.get response (str "ok")),
    (str "exit_code", Json.get response (str "exit_code")),
    (str "timed_out", getOr response "timed_out" (.bool false))] ++
    result ++ snapshot ++ if error = .null then [] else [(str "error", error)]

structure Difference where
  path : Str
  expected : Json
  actual : Json
  deriving DecidableEq

def Difference.json (difference : Difference) : Json :=
  .object
    [(str "path", .string difference.path),
      (str "expected", difference.expected), (str "actual", difference.actual)]

mutual

/-- `diffs` -/
def diffs (doubles : Doubles) : Json → Json → Str → List Difference
  | .object fields, .object got, path => diffsFields doubles fields got path
  | .array items, .array got, path =>
      if items.length = got.length then diffsItems doubles items got 0 path
      else [⟨path, .array items, .array got⟩]
  | .object fields, got, path => [⟨path, .object fields, got⟩]
  | .array items, got, path => [⟨path, .array items, got⟩]
  | expected, got, path =>
      if doubles.equal expected got then [] else [⟨path, expected, got⟩]

def diffsFields (doubles : Doubles) : Fields → Fields → Str → List Difference
  | [], _, _ => []
  | (key, value) :: fields, got, path =>
      diffs doubles value
        ((Json.find? got key).getD (.string (str "<missing>")))
        (path ++ 0x2e :: key) ++
      diffsFields doubles fields got path

def diffsItems (doubles : Doubles) :
    List Json → List Json → Nat → Str → List Difference
  | item :: items, other :: got, index, path =>
      diffs doubles item other
        (path ++ str "[" ++ str (Text.decimal index) ++ str "]") ++
      diffsItems doubles items got (index + 1) path
  | _, _, _, _ => []

end

/-- Where a replay may find inputs: a map from hashes and directories. -/
structure Sources where
  maps : List (Str × Str)
  roots : List Str

/-- `contained` -/
def contained (world : World) (path root : Str) : Option Str :=
  let resolved := world.resolve path
  if isInside (world.resolve root) resolved then some resolved else none

/-- The places where an input is looked for first. -/
def candidates (world : World) (corpus : Str) (sources : Sources)
    (hash : Str) (spec : Fields) : Except Failure (List Str) := do
  let mapped := (sources.maps.lookup hash).toList
  let embedded ← match Json.get spec (str "embedded") with
    | .string (first :: path) =>
        match contained world (Explore.joined corpus (first :: path)) corpus with
        | some path => .ok [path]
        | none => .error (.reported
            (str "embedded input path escapes corpus root"))
    | value => if Security.truthy value then .error .raised else .ok []
  let hint ← asText (getOr spec "path_hint" (.string []))
  let hinted :=
    if hint.head? = some Explore.slash then []
    else sources.roots.filterMap fun root =>
      contained world (Explore.joined root hint) root
  return mapped ++ embedded ++ hinted

def findInput (world : World) (corpus : Str) (sources : Sources)
    (spec : Json) : Except Failure Str := do
  let spec ← asFields spec
  let hash ← asText (← member spec "sha256")
  let places ← candidates world corpus sources hash spec
  let size := Json.asInteger? (← member spec "size")
  let fits (path : Str) : Bool :=
    world.isFile path && decide (size = some (world.size path : Int)) &&
      decide (world.sha256 path = hash)
  let index := sources.roots.flatMap fun root =>
    (world.below root).filterMap fun path =>
      if world.isFile path then contained world path (world.resolve root)
      else none
  match (places.find? fits).map world.resolve |>.or (index.find? fits) with
  | some path => return path
  | none =>
      let hint ← asText (getOr spec "path_hint" (.string []))
      throw (.reported
        (str "missing input sha256=" ++ hash ++ str " hint=" ++ hint))

/-- `find_inputs` -/
def findInputs (world : World) (corpus : Str) (sources : Sources)
    (case : Fields) : Except Failure (List Str) := do
  (← asItems (← member case "inputs")).mapM
    (findInput world corpus sources)

end PpcLab.Corpus
