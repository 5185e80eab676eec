import PpcLab.Library.SequenceMatcher
import PpcLab.Security.Audit

/-!
# Comparing traces

The triage compares two traces event by event, by their pcs and instructions.
It counts the events before the first difference, looks for the place from which
the traces agree again and shows what is around.
-/

namespace PpcLab.Triage

open SequenceMatcher

structure Difference where
  path : Str
  left : Json
  right : Json
  deriving DecidableEq

def ignored : List Str :=
  [str "backend", str "format", str "symbols"]

def missing : Json :=
  .string (str "<missing>")

def memberPath (path key : Str) : Str :=
  path ++ str "." ++ key

def itemPath (path : Str) (index : Nat) : Str :=
  path ++ str "[" ++ str (Text.decimal index) ++ str "]"

/-- Differences of members, in the order of the keys. -/
def byKeys (groups : List (Str × List Difference)) : List Difference :=
  (groups.insertionSort fun first second =>
    Json.notAfter first.1 second.1).flatMap Prod.snd

/-- The members that only the right object has. -/
def onlyRight (path : Str) (left right : Fields) :
    List (Str × List Difference) :=
  (right.filter fun member =>
    decide (member.1 ∉ ignored) && (Json.find? left member.1).isNone).map
    fun member =>
      (member.1, [⟨memberPath path member.1, missing, member.2⟩])

section

variable (doubles : Doubles)

mutual

/-- `stable_snapshot_diff` -/
def snapshotDiff (path : Str) : Json → Json → List Difference
  | .object left, .object right =>
      byKeys (memberDiffs path right left ++ onlyRight path left right)
  | .array left, .array right =>
      (if left.length = right.length then []
      else [⟨path ++ str ".length", .int left.length, .int right.length⟩]) ++
        itemDiffs path 0 left right
  | left, right =>
      if doubles.equal left right then [] else [⟨path, left, right⟩]

def memberDiffs (path : Str) (right : Fields) :
    Fields → List (Str × List Difference)
  | [] => []
  | (key, value) :: members =>
      if key ∈ ignored then memberDiffs path right members
      else
        (key, ((Json.find? right key).map
          (snapshotDiff (memberPath path key) value)).getD
            [⟨memberPath path key, value, missing⟩]) ::
        memberDiffs path right members

def itemDiffs (path : Str) (index : Nat) :
    List Json → List Json → List Difference
  | left :: lefts, right :: rights =>
      snapshotDiff (itemPath path index) left right ++
        itemDiffs path (index + 1) lefts rights
  | _, _ => []

end

end

variable (python : Security.Python) (doubles : Doubles)

/-- `str(event.get(key, "")).lower()` -/
def loweredText (event : Fields) (key : String) : Str :=
  python.unicode.lower (python.unicode.toStr
    ((Json.find? event (str key)).getD (.string [])))

/-- `sig` -/
def signature (event : Fields) : Str × Str :=
  (loweredText python event "pc", loweredText python event "instruction")

structure CompactEvent where
  index : Nat
  pc : Json
  instruction : Json
  disassembly : Json
  symbol : Json
  deriving DecidableEq

def compactEvent (event : Fields) (index : Nat) : CompactEvent where
  index := index
  pc := Json.get event (str "pc")
  instruction := Json.get event (str "instruction")
  disassembly := (Json.find? event (str "disassembly")).getD (.string [])
  symbol := (Json.find? event (str "symbol")).getD (.string [])

/-- A value that a set can hold. -/
def isHashable : Json → Bool
  | .array _ | .object _ => false
  | .null | .bool _ | .int _ | .float _ | .string _ => true

/-- The values of a set. -/
def distinctValues (values : List Json) : List Json :=
  values.foldl (fun seen value =>
    if doubles.isIn value seen then seen else value :: seen) []

/-- The number of pcs, unless a pc cannot be in a set. -/
def uniquePcs (events : List Fields) : Option Nat :=
  let pcs := events.map fun event => Json.get event (str "pc")
  if pcs.all isHashable then some (distinctValues doubles pcs).length else none

inductive Classification where
  | equal
  | traceLength
  | controlFlow
  | instructionBytes
  | dynamicSequence
  | stateOnly
  deriving DecidableEq

def Classification.name : Classification → Str
  | .equal => str "equal"
  | .traceLength => str "trace-length"
  | .controlFlow => str "control-flow"
  | .instructionBytes => str "instruction-bytes"
  | .dynamicSequence => str "dynamic-sequence"
  | .stateOnly => str "state-only"

def classify : Option Fields → Option Fields → Classification
  | some left, some right =>
      if !doubles.equal (Json.get left (str "pc")) (Json.get right (str "pc"))
        then .controlFlow
      else if !doubles.equal (Json.get left (str "instruction"))
          (Json.get right (str "instruction")) then .instructionBytes
      else .dynamicSequence
  | _, _ => .traceLength

structure Resynchronization where
  leftIndex : Nat
  rightIndex : Nat
  length : Nat
  pc : Json
  deriving DecidableEq

structure SnapshotReport where
  equal : Bool
  differences : List Difference
  differenceCount : Nat
  deriving DecidableEq

structure Report where
  equal : Bool
  traceEqual : Bool
  classification : Str
  leftEvents : Nat
  rightEvents : Nat
  commonPrefixEvents : Nat
  leftUniquePcs : Nat
  rightUniquePcs : Nat
  firstDivergence : Option (Option CompactEvent × Option CompactEvent)
  resynchronization : Option Resynchronization
  windowLeft : List CompactEvent
  windowRight : List CompactEvent
  alignment : List Opcode
  snapshot : Option SnapshotReport
  deriving DecidableEq

/-- The first operation that is no run. -/
def divergence (operations : List Opcode) : Option Opcode :=
  operations.find? fun operation => decide (operation.tag ≠ .equal)

/-- The first run behind an operation. -/
def runBehind (divergent : Opcode) (operations : List Opcode) :
    Option Opcode :=
  operations.find? fun operation =>
    decide (operation.tag = .equal) &&
    decide (divergent.leftEnd ≤ operation.leftStart) &&
    decide (divergent.rightEnd ≤ operation.rightStart) &&
    decide (operation.leftStart < operation.leftEnd)

def resyncAt (left : List Fields) (run : Opcode) : Resynchronization where
  leftIndex := run.leftStart
  rightIndex := run.rightStart
  length := min (run.leftEnd - run.leftStart) (run.rightEnd - run.rightStart)
  pc := (left[run.leftStart]?.map fun event =>
    Json.get event (str "pc")).getD .null

def resynchronize (left : List Fields) (operations : List Opcode) :
    Option Resynchronization :=
  (divergence operations).bind fun divergent =>
    (runBehind divergent operations).map (resyncAt left)

/-- The events from one place to another one. -/
def window (events : List Fields) (start stop : Nat) : List CompactEvent :=
  (((events.zipIdx).take stop).drop start).map fun entry =>
    compactEvent entry.1 entry.2

/-- What is shown of an event, which must not be empty. -/
def shown (index : Nat) : Option Fields → Option CompactEvent
  | some (member :: members) => some (compactEvent (member :: members) index)
  | some [] | none => none

/-- The snapshots of both sides are compared when both are objects. -/
def compareSnapshots : Option (Json × Json) → Option SnapshotReport
  | some (.object left, .object right) =>
      let differences :=
        snapshotDiff doubles (str "$") (.object left) (.object right)
      some ⟨differences.isEmpty, differences.take 256, differences.length⟩
  | _ => none

/-- The report on two traces with some numbers of different pcs. -/
def reportOf (left right : List Fields) (context : Int)
    (snapshots : Option (Json × Json)) (leftPcs rightPcs : Nat) : Report :=
  let lefts := left.map (signature python)
  let rights := right.map (signature python)
  let shared := commonRun lefts rights
  let traceEqual := decide (lefts = rights)
  let operations := opcodes lefts rights
  let resync := resynchronize left operations
  let around := context.toNat
  let snapshot := compareSnapshots doubles snapshots
  let stateEqual := snapshot.all (·.equal)
  let classification :=
    if traceEqual then
      if stateEqual then .equal else .stateOnly
    else classify doubles left[shared]? right[shared]?
  { equal := traceEqual && stateEqual
    traceEqual := traceEqual
    classification := classification.name
    leftEvents := left.length
    rightEvents := right.length
    commonPrefixEvents := shared
    leftUniquePcs := leftPcs
    rightUniquePcs := rightPcs
    firstDivergence :=
      if traceEqual then none
      else some (shown shared left[shared]?, shown shared right[shared]?)
    resynchronization := resync
    windowLeft := window left (shared - around)
      ((resync.map (·.leftIndex)).getD (shared + 1) + around + 1)
    windowRight := window right (shared - around)
      ((resync.map (·.rightIndex)).getD (shared + 1) + around + 1)
    alignment := (operations.filter fun operation =>
      decide (operation.tag ≠ .equal) ||
        decide (operation.leftStart ≤ shared) &&
          decide (shared ≤ operation.leftEnd)).take 32
    snapshot := snapshot }

/-- `compare_traces`, which raises when a pc cannot be in a set. -/
def compareTraces (left right : List Fields) (context : Int)
    (snapshots : Option (Json × Json)) : Option Report := do
  let leftPcs ← uniquePcs doubles left
  let rightPcs ← uniquePcs doubles right
  return reportOf python doubles left right context snapshots leftPcs rightPcs

end PpcLab.Triage
