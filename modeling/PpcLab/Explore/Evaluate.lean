import PpcLab.Explore.Manifest
import PpcLab.Library.Keyed
import PpcLab.Library.Numbered
import PpcLab.Triage.TraceEvents

/-!
# Evaluating an assignment

An exploration gives a value to every axis, hands the resulting job to the
worker and writes what it answers into a file of its own.  The file is named by
the number of the case and replaces a file with that name.
-/

namespace PpcLab.Explore

/-- `set_path` -/
def setPath (job : Fields) (path : Str) (value : Json) :
    Except Failure Fields :=
  let (first, second) := splitPath path
  match (Json.find? job first).getD (.object []) with
  | .object fields =>
      .ok (Dictionary.assign job
        (first, .object (Dictionary.assign fields (second, value))))
  | _ => .error (.reported
      (str "base_job." ++ first ++ str " must be an object to mutate " ++ path))

def jobWithAssignment (baseJob assignment : Fields) : Except Failure Fields :=
  assignment.foldlM (fun job entry => setPath job entry.1 entry.2) baseJob

/-- The job that `run_worker` sends. -/
def traced (job : Fields) : Except Failure Fields :=
  match getOr job "execution" (.object []) with
  | .object execution =>
      .ok (Dictionary.assign job (str "execution",
        .object (Dictionary.assign execution (str "trace", .bool true))))
  | _ => .error (.reported (str "base_job.execution must be an object"))

def assignmentKey (assignment : Fields) : Str :=
  (Json.object assignment).sorted.asciiText

/-- `trace_pcs` -/
def tracePcs (stderr : Str) : List Str :=
  (Lines.splitLines stderr).filterMap fun line =>
    (Triage.matchHead (Lines.strip line)).map fun words =>
      words.1.map Triage.lower

/-- The elements of a set in their order. -/
def sortedSet (texts : List Str) : List Str :=
  texts.dedup.insertionSort fun first second => Json.notAfter first second

/-- The low 32 bits of a number, which may be written as a text. -/
def u32 (setting : Setting) (value : Json) : Option Nat :=
  let number : Option Int :=
    match value with
    | .bool value => some value.toInt
    | .int value => some value
    | .string text => setting.python.numerals.ofLiteral text
    | _ => none
  number.map fun number => (number % 2 ^ 32).toNat

def chosen (keys : List String) (fields : Fields) : Fields :=
  keys.filterMap fun key => (found? fields key).map (Prod.mk (str key))

/-- An object with some of its members, if the value is an object. -/
def part (key : String) (keys : List String) (response : Fields) : Fields :=
  match Json.get response (str key) with
  | .object fields => [(str key, .object (chosen keys fields))]
  | _ => []

/-- The parts of an answer that count as behaviour. -/
def architecture (response : Fields) : Fields :=
  let error := Json.get response (str "error")
  [(str "ok", Json.get response (str "ok")),
    (str "exit_code", Json.get response (str "exit_code")),
    (str "timed_out", getOr response "timed_out" (.bool false))] ++
  (if error = .null then [] else [(str "error", error)]) ++
  part "result" ["stop_reason", "instructions", "pc", "instruction",
    "registers", "lr", "ctr", "cr", "dumps"] response ++
  part "snapshot" ["stop_reason", "instructions", "pc", "instruction", "cpu",
    "regions", "dumps"] response

/-- A member that is an object is changed. -/
def within (key : String) (change : Fields → Fields) (fields : Fields) :
    Fields :=
  match found? fields key with
  | some (.object members) =>
      Dictionary.assign fields (str key, .object (change members))
  | _ => fields

def inputMark : Json :=
  .string (str "<input>")

/-- Registers that still hold their input lose their value. -/
def maskRegister (setting : Setting) (name : Str) (index expected : Nat)
    (value : Fields) : Fields :=
  let registers (fields : Fields) : Fields :=
    if u32 setting (Json.get fields name) = some expected then
      Dictionary.assign fields (name, inputMark)
    else fields
  let gpr (fields : Fields) : Fields :=
    match found? fields "gpr" with
    | some (.array items) =>
        if (items[index]?.bind (u32 setting)) = some expected then
          Dictionary.assign fields
            (str "gpr", .array (items.set index inputMark))
        else fields
    | _ => fields
  within "snapshot" (within "cpu" gpr)
    (within "result" (within "registers" registers) value)

def maskInput (setting : Setting) (value : Fields) (entry : Str × Json) :
    Fields :=
  if (str "registers.r").isPrefixOf entry.1 then
    let name := (splitPath entry.1).2
    match setting.python.numerals.ofText (name.drop 1),
        u32 setting entry.2 with
    | some index, some expected =>
        if 0 ≤ index ∧ index < 32 then
          maskRegister setting name index.toNat expected value
        else value
    | _, _ => value
  else value

/-- `stable_architecture` -/
def stableArchitecture (setting : Setting) (response assignment : Fields) :
    Fields :=
  assignment.foldl (maskInput setting) (architecture response)

def canonicalHash (value : Json) : Str :=
  Sha256.hexdigest (Security.canonical value)

/-- A number with at least five digits. -/
def numbered (index : Nat) : Str :=
  Text.padded 5 index

structure Row where
  index : Nat
  parent : Option Nat
  assignment : Fields
  novel : Bool
  newPcs : List Str
  behaviorNovel : Bool
  behavior : Str
  events : Nat
  pcs : List Str
  response : Fields
  job : Fields
  promotedCase : Option Str

def number (value : Nat) : Json :=
  .int value

def texts (items : List Str) : Json :=
  .array (items.map .string)

namespace Row

def fields (row : Row) : Fields :=
  [(str "schema", .string (str "ppc-lab-exploration-case-v1")),
    (str "index", number row.index),
    (str "parent", row.parent.elim .null number),
    (str "assignment", .object row.assignment),
    (str "novel", .bool row.novel),
    (str "novelty", .object
      [(str "new_pcs", texts row.newPcs),
        (str "new_pc_count", number row.newPcs.length),
        (str "behavior_novel", .bool row.behaviorNovel)]),
    (str "behavior_sha256", .string row.behavior),
    (str "trace", .object
      [(str "events", number row.events),
        (str "unique_pcs", number row.pcs.length),
        (str "pcs", texts row.pcs)]),
    (str "worker", .object row.response),
    (str "job", .object row.job)] ++
  row.promotedCase.elim [] fun case => [(str "promoted_case", .string case)]

/-- What a reader gets from the file of the row. -/
def written (row : Row) : Fields :=
  Json.sortedObject row.fields

def fileName (index : Nat) : Str :=
  numbered index ++ str ".json"

/-- The worker's `ok`. -/
def succeeded (row : Row) : Bool :=
  Security.truthy (Json.get row.response (str "ok"))

def caseId (row : Row) : Str :=
  str "explore-" ++ numbered row.index ++ str "-" ++ row.behavior.take 12

end Row

inductive Content where
  | json (value : Json)
  /-- A file that is not JSON. -/
  | other
  | directory

abbrev Cases := Keyed (Prod.fst : Str × Content → Str)

/-- `write_json` into the directory. -/
def writeJson (cases : Cases) (name : Str) (fields : Fields) :
    Except Failure Cases :=
  match cases.lookup name with
  | some (_, .directory) => .error .unreadable
  | _ => .ok (cases.put (name, .json (.object fields)))

structure AxisStats where
  attempts : Nat
  novel : Nat
  newPcs : Nat
  deriving DecidableEq

/-- What an exploration remembers. -/
structure Progress where
  evaluated : List Str
  seenPcs : List Str
  seenBehaviors : List Str
  rows : List Row
  promoted : Nat
  axisStats : List (Str × AxisStats)

structure State where
  progress : Progress
  cases : Cases

/-- An assignment that waits for its evaluation. -/
structure Candidate where
  assignment : Fields
  parent : Option Nat
  axis : Option Str

/-- What an exploration works with. -/
structure Session where
  setting : Setting
  files : Files
  base : Str
  root : Str
  /-- The answer to a job, by the number of the case. -/
  worker : Nat → Fields → Except Failure Json
  /-- `--promote-corpus`: the corpus tool for an id and a job, which can end
  with a message. -/
  promotion : Option (Str → Fields → Except Str Unit)

variable (session : Session) (baseJob : Fields)

/-- The answer to an assignment as a row that is not promoted. -/
def examine (progress : Progress) (candidate : Candidate) :
    Except Failure Row := do
  let job ← jobWithAssignment baseJob candidate.assignment
  let job ← traced job
  let index := progress.rows.length
  match ← session.worker index job with
  | .object response =>
      let pcs := tracePcs (session.setting.python.unicode.toStr
        (getOr response "stderr" (.string [])))
      let pcSet := sortedSet pcs
      let newPcs := pcSet.filter fun pc => !isAmong progress.seenPcs pc
      let behavior := canonicalHash (.object
        (stableArchitecture session.setting response candidate.assignment))
      let behaviorNovel := !isAmong progress.seenBehaviors behavior
      return {
        index := index
        parent := candidate.parent
        assignment := candidate.assignment
        novel := !newPcs.isEmpty || behaviorNovel || progress.rows.isEmpty
        newPcs := newPcs
        behaviorNovel := behaviorNovel
        behavior := behavior
        events := pcs.length
        pcs := pcSet
        response := response
        job := job
        promotedCase := none }
  | _ => throw .raised

def AxisStats.count (stats : AxisStats) (row : Row) : AxisStats where
  attempts := stats.attempts + 1
  novel := stats.novel + row.novel.toNat
  newPcs := stats.newPcs + row.newPcs.length

def countAxis (axis : Option Str) (row : Row)
    (stats : List (Str × AxisStats)) : List (Str × AxisStats) :=
  stats.map fun entry =>
    if axis = some entry.1 then (entry.1, entry.2.count row) else entry

/-- A row has been evaluated. -/
def Progress.record (progress : Progress) (candidate : Candidate) (row : Row) :
    Progress where
  evaluated := assignmentKey candidate.assignment :: progress.evaluated
  seenPcs := if row.novel then row.pcs ++ progress.seenPcs else progress.seenPcs
  seenBehaviors :=
    if row.novel then row.behavior :: progress.seenBehaviors
    else progress.seenBehaviors
  rows := progress.rows ++ [row]
  promoted := progress.promoted + row.promotedCase.isSome.toNat
  axisStats := countAxis candidate.axis row progress.axisStats

/-- The row after its promotion, which takes place only for novel rows that
succeeded. -/
def promote (row : Row) : Except Failure (Option Row) :=
  match session.promotion with
  | none => .ok none
  | some promotion =>
      if row.novel ∧ row.succeeded then do
        let job ←
          absoluteJobInputs session.files session.base session.root row.job
        match promotion row.caseId job with
        | .ok () => return some { row with promotedCase := some row.caseId }
        | .error text => throw (.reported
            (str "corpus promotion failed for " ++ row.caseId ++ str ": " ++
              text))
      else .ok none

/-- `evaluate`: the row of the assignment, unless it has been evaluated. -/
def evaluate (state : State) (candidate : Candidate) :
    Except Failure (Option Row × State) :=
  if isAmong state.progress.evaluated (assignmentKey candidate.assignment) then
    .ok (none, state)
  else do
    let row ← examine session baseJob state.progress candidate
    let name := Row.fileName row.index
    let cases ← writeJson state.cases name row.written
    match ← promote session row with
    | none => return (some row, ⟨state.progress.record candidate row, cases⟩)
    | some row =>
        let cases ← writeJson cases name row.written
        return (some row, ⟨state.progress.record candidate row, cases⟩)

end PpcLab.Explore
