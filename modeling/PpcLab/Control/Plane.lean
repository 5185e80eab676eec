import PpcLab.Library.Keyed
import PpcLab.Library.Runs
import PpcLab.Library.LockFile
import Mathlib.Data.List.Sort
import Mathlib.Data.Prod.Lex
import Mathlib.Data.String.Basic

/-!
# The control plane

Commands and supervisors share one directory of small files and nothing else.
A process reads one file or performs one write at a time; between any two of
these another process may move, or the process may die.  What it has still to
write is computed from the copies it has read, so a process is a list of
pending writes and a point at which it goes on reading.
-/

namespace PpcLab.Control

abbrev Pid := Nat

/-- A reading of the clock. -/
abbrev Time := Nat

inductive Status where
  | queued
  | running
  | orphaned
  | complete
  | failed
  | cancelled
  | quotaBlocked
  deriving DecidableEq, Repr

/-- `TERMINAL` -/
def Status.isTerminal : Status → Bool
  | .complete | .failed | .cancelled | .quotaBlocked => true
  | .queued | .running | .orphaned => false

structure Item where
  id : String
  seq : Nat
  priority : Int
  manifest : String
  manifestSha256 : String
  runOut : String
  status : Status
  submittedUnix : Time
  attempts : Nat
  pid : Option Pid := none
  startedUnix : Option Time := none
  finishedUnix : Option Time := none
  returncode : Option Int := none
  cancelRequestedUnix : Option Time := none
  cancelReason : Option String := none
  failureReason : Option String := none
  orphanPid : Option Pid := none
  historyWritten : Bool := false
  deriving DecidableEq, Repr

structure Record where
  id : String
  seq : Nat
  priority : Int
  manifest : String
  manifestSha256 : String
  status : Status
  submittedUnix : Time
  startedUnix : Option Time
  finishedUnix : Option Time
  returncode : Option Int
  attempts : Nat
  runOut : String
  schedulerSummary : Option String
  deriving DecidableEq, Repr

inductive Marker where
  | pause
  | drain
  | cancel
  deriving DecidableEq, Repr

/-- The files of a control root. -/
structure Root where
  nextSeq : Nat
  queue : Keyed Item.id
  history : List Record
  records : Keyed Record.id
  markers : Marker → Bool
  runMarkers : List String
  lock : Option (LockFile Pid)

/-- What `init` leaves behind. -/
def Root.initialized : Root :=
  { nextSeq := 1
    queue := .empty
    history := []
    records := .empty
    markers := fun _ => false
    runMarkers := []
    lock := none }

/-- `queue_paths` -/
def Root.queuePaths (root : Root) : List String :=
  root.queue.keys.insertionSort fun first second =>
    first ++ ".json" ≤ second ++ ".json"

/-- The operations that change a file.  A saved item comes with the copy it
was computed from. -/
inductive Write where
  | touch (marker : Marker)
  | remove (marker : Marker)
  | touchRun (runOut : String)
  | saveItem (seen : Option Item) (item : Item)
  | appendHistory (record : Record)
  | saveRecord (record : Record)
  | saveControl (nextSeq : Nat)
  | writeLock
  | unlinkLock
  deriving DecidableEq, Repr

def Write.perform (pid : Pid) (root : Root) : Write → Root
  | .touch marker =>
      { root with markers := Function.update root.markers marker true }
  | .remove marker =>
      { root with markers := Function.update root.markers marker false }
  | .touchRun runOut =>
      { root with runMarkers := root.runMarkers ++ [runOut] }
  | .saveItem _ item => { root with queue := root.queue.put item }
  | .appendHistory record =>
      { root with history := root.history ++ [record] }
  | .saveRecord record => { root with records := root.records.put record }
  | .saveControl nextSeq => { root with nextSeq }
  | .writeLock =>
      { root with lock := root.lock.map (LockFile.stamp pid) }
  | .unlinkLock => { root with lock := none }

/-- What the operating system answers in a step. -/
structure Answer where
  now : Time := 1
  alive : Bool := false
  summary : Option String := none
  schedulerStatus : Option String := none
  returncode : Option Int := none
  hash : Except String String := .ok ""
  child : Pid := 1

def recordOf (item : Item) (summary : Option String) : Record :=
  { id := item.id
    seq := item.seq
    priority := item.priority
    manifest := item.manifest
    manifestSha256 := item.manifestSha256
    status := item.status
    submittedUnix := item.submittedUnix
    startedUnix := item.startedUnix
    finishedUnix := item.finishedUnix
    returncode := item.returncode
    attempts := item.attempts
    runOut := item.runOut
    schedulerSummary := summary }

def archiveTerminal (item : Item) (answer : Answer) : List Write :=
  if item.historyWritten then []
  else
    let record := recordOf item answer.summary
    [.appendHistory record, .saveRecord record,
      .saveItem (some item) { item with historyWritten := true }]

/-- `save_item` and `archive_terminal` of a changed item. -/
def saveTerminal (seen item : Item) (answer : Answer) : List Write :=
  .saveItem (some seen) item :: archiveTerminal item answer

def cancelled (item : Item) (reason : String) (answer : Answer) : Item :=
  { item with
    status := .cancelled
    finishedUnix := some answer.now
    cancelReason := some reason }

def failed (item : Item) (reason : String) (answer : Answer) : Item :=
  { item with
    status := .failed
    finishedUnix := some answer.now
    failureReason := some reason }

/-- The body of `cancel` for the item it has read. -/
def cancelWrites (item : Item) (answer : Answer) : List Write :=
  match item.status with
  | .queued =>
      saveTerminal item
        (cancelled item "control-cancel-before-start" answer) answer
  | .running =>
      [.touchRun item.runOut,
        .saveItem (some item)
          { item with cancelRequestedUnix := some answer.now }]
  | .orphaned =>
      saveTerminal item (cancelled item "control-orphan-cancel" answer) answer
  | _ => []

/-- A process that has the number, as far as a program can tell. -/
def procAlive (live : Pid → Bool) (answer : Answer) (pid : Pid) : Bool :=
  pid != 0 && (live pid || answer.alive)

/-- The body of `recover_state` for one item. -/
def recoverWrites (live : Pid → Bool) (item : Item) (answer : Answer) :
    List Write :=
  if item.status = .running then
    if item.pid.any (procAlive live answer) then
      [.saveItem (some item)
        { item with status := .orphaned, orphanPid := item.pid }]
    else
      [.saveItem (some item) { item with status := .queued, pid := none }]
  else []

/-- The body of `cancel --all` for one item. -/
def cancelAllWrites (item : Item) (answer : Answer) : List Write :=
  match item.status with
  | .queued =>
      saveTerminal item (cancelled item "control-global-cancel" answer) answer
  | .running => [.touchRun item.runOut]
  | _ => []

/-- The body of the supervisor's pass over the queue once everything is to be
cancelled. -/
def globalCancelWrites (item : Item) (answer : Answer) : List Write :=
  match item.status with
  | .orphaned =>
      saveTerminal item
        (cancelled item "control-global-orphan-cancel" answer) answer
  | _ => cancelAllWrites item answer

def finishStatus (item : Item) (globalCancel : Bool) (returncode : Int)
    (schedulerStatus : Option String) : Status :=
  if item.cancelRequestedUnix.getD 0 ≠ 0 || globalCancel then .cancelled
  else if returncode = 0 ∧
      schedulerStatus ∈ [none, some "complete", some "drained"] then
    .complete
  else .failed

/-- The item of a scheduler process that has ended. -/
def finished (item : Item) (globalCancel : Bool) (returncode : Int)
    (answer : Answer) : Item :=
  { item with
    status := finishStatus item globalCancel returncode answer.schedulerStatus
    returncode := some returncode
    finishedUnix := some answer.now
    pid := none }

def launched (item : Item) (answer : Answer) : Item :=
  { item with
    status := .running
    pid := some answer.child
    startedUnix := some answer.now
    attempts := item.attempts + 1 }

/-- A manifest that cannot be read or has changed since its submission. -/
def manifestFault (item : Item) (answer : Answer) : Option String :=
  match answer.hash with
  | .error text => some ("manifest-unreadable: " ++ text)
  | .ok hash =>
      if hash = item.manifestSha256 then none
      else some "manifest-sha256-changed"

def itemKey (item : Item) : Int ×ₗ Nat ×ₗ String :=
  toLex (-item.priority, toLex (item.seq, item.id))

def chooseQueued (items : List Item) : Option Item :=
  least itemKey (items.filter (·.status == .queued))

structure Submission where
  manifest : String
  manifestSha256 : String
  id : Option String
  priority : Int
  deriving DecidableEq, Repr

def validateId (value : String) : Bool :=
  value != "" && value.toList.all fun character =>
    character.isAlphanum || character ∈ ['.', '_', '-']

/-- `f"run-{seq:06d}"` -/
def runId (seq : Nat) : String :=
  let digits := toString seq
  "run-" ++ String.ofList (List.replicate (6 - digits.length) '0') ++ digits

/-- `ns.id or f"run-{seq:06d}"` -/
def Submission.itemId (submission : Submission) (seq : Nat) : String :=
  match submission.id with
  | none | some "" => runId seq
  | some id => id

def Submission.item (submission : Submission) (seq : Nat) (answer : Answer) :
    Item :=
  { id := submission.itemId seq
    seq := seq
    priority := submission.priority
    manifest := submission.manifest
    manifestSha256 := submission.manifestSha256
    runOut := "runs/" ++ submission.itemId seq
    status := .queued
    submittedUnix := answer.now
    attempts := 0 }

/-- What the items of the queue are loaded for. -/
inductive Purpose where
  | cancelAll
  | recover
  | globalCancel
  | choose
  | telemetry
  deriving DecidableEq, Repr

/-- Where a process is once its pending writes are done. -/
inductive Point where
  | submitState (submission : Submission)
  | submitExists (submission : Submission) (seq : Nat)
  | submitted (item : Item)
  | cancelItem (id : String)
  | printed (text : String)
  | names (purpose : Purpose)
  | load (purpose : Purpose) (names : List String) (loaded : List Item)
  | each (purpose : Purpose) (items : List Item)
  | lockExists
  | lockRead
  | lockCreate
  | readCancel
  | readPause
  | readDrain
  | poll (ids : List String)
  | reap (id : String) (returncode : Int) (ids : List String)
  | dispatch
  | verify (item : Item)
  | spawn (item : Item)
  | released
  deriving DecidableEq, Repr

/-- The local variables of `serve`. -/
structure Supervisor where
  maxActive : Nat := 0
  untilIdle : Bool := false
  stop : Bool := false
  globalCancel : Bool := false
  paused : Bool := false
  draining : Bool := false
  active : List String := []
  deriving DecidableEq, Repr

structure Process where
  pending : List Write := []
  point : Point
  supervisor : Supervisor := {}
  deriving DecidableEq, Repr

/-- What a command prints when it ends. -/
inductive Result where
  | submitted (item : Item)
  | text (text : String)
  | error (message : String)
  deriving DecidableEq, Repr

/-- Where a step without a pending write leads. -/
inductive Next where
  | go (process : Process)
  /-- The lock file comes into being. -/
  | create (process : Process)
  /-- A scheduler process is started for an item. -/
  | start (id : String) (process : Process)
  | leave (result : Result)

/-- In a supervisor that has the lock. -/
def Point.supervises : Point → Bool
  | .names purpose | .load purpose _ _ | .each purpose _ =>
      purpose != .cancelAll
  | .readCancel | .readPause | .readDrain | .poll _ | .reap _ _ _
  | .dispatch | .verify _ | .spawn _ | .released => true
  | _ => false

namespace Process

def goTo (process : Process) (point : Point) : Next :=
  .go { process with point }

def writeThen (process : Process) (pending : List Write) (point : Point) :
    Next :=
  .go { process with pending, point }

/-- The `finally` of `serve`. -/
def release (process : Process) : Next :=
  process.writeThen [.unlinkLock] .released

/-- An exception leaves `serve` through its `finally`. -/
def raise (process : Process) (message : String) : Next :=
  if process.point.supervises then process.release
  else .leave (.error message)

end Process

/-- The writes of a pass over the queue for one item. -/
def passWrites (live : Pid → Bool) (item : Item) (answer : Answer) :
    Purpose → List Write
  | .cancelAll => cancelAllWrites item answer
  | .recover => recoverWrites live item answer
  | .globalCancel => globalCancelWrites item answer
  | .choose | .telemetry => []

def afterPass (supervisor : Supervisor) : Purpose → Point
  | .cancelAll => .printed "cancel-all requested"
  | .globalCancel => .poll supervisor.active
  | .recover | .choose | .telemetry => .readCancel

/-- The end of a round, with the number of queued items telemetry has
counted. -/
def endsRound (supervisor : Supervisor) (queued : Nat) : Bool :=
  supervisor.active.isEmpty &&
    (supervisor.draining || supervisor.globalCancel ||
      (supervisor.untilIdle && queued == 0))

def afterLoad (process : Process) (loaded : List Item) : Purpose → Next
  | .choose =>
      match chooseQueued loaded with
      | none => process.goTo (.names .telemetry)
      | some item => process.goTo (.verify item)
  | .telemetry =>
      if endsRound process.supervisor
          (loaded.countP (·.status == .queued)) then
        process.release
      else process.goTo .readCancel
  | purpose => process.goTo (.each purpose loaded)

/-- One step of a process that has nothing to write: it reads one file. -/
def proceed (live : Pid → Bool) (root : Root) (process : Process)
    (answer : Answer) : Next :=
  match process.point with
  | .submitState submission =>
      process.goTo (.submitExists submission root.nextSeq)
  | .submitExists submission seq =>
      let id := submission.itemId seq
      if !validateId id then
        .leave (.error "id must be a non-empty portable identifier")
      else if (root.queue.lookup id).isSome then
        .leave (.error ("queue item already exists: " ++ id))
      else
        let item := submission.item seq answer
        process.writeThen [.saveItem none item, .saveControl (seq + 1)]
          (.submitted item)
  | .submitted item => .leave (.submitted item)
  | .cancelItem id =>
      if id = "" then .leave (.error "cancel requires ITEM_ID or --all")
      else if !validateId id then
        .leave (.error "id must be a non-empty portable identifier")
      else
        match root.queue.lookup id with
        | none => .leave (.error ("unknown queue item: " ++ id))
        | some item =>
            process.writeThen (cancelWrites item answer)
              (.printed ("cancel requested: " ++ id))
  | .printed text => .leave (.text text)
  | .names purpose => process.goTo (.load purpose root.queuePaths [])
  | .load purpose [] loaded => afterLoad process loaded purpose
  | .load purpose (name :: names) loaded =>
      match root.queue.lookup name with
      | none => process.raise ("cannot read queue item " ++ name)
      | some item => process.goTo (.load purpose names (loaded ++ [item]))
  | .each purpose [] => process.goTo (afterPass process.supervisor purpose)
  | .each purpose (item :: items) =>
      process.writeThen (passWrites live item answer purpose)
        (.each purpose items)
  | .lockExists =>
      if root.lock.isSome then process.goTo .lockRead
      else process.goTo .lockCreate
  | .lockRead =>
      let pid := (root.lock.bind (·.content)).getD 0
      if procAlive live answer pid then
        .leave (.error
          ("control plane already serving as pid " ++ toString pid))
      else process.writeThen [.unlinkLock] .lockCreate
  | .lockCreate =>
      if root.lock.isSome then .leave (.error "File exists")
      else
        .create
          { process with pending := [.writeLock], point := .names .recover }
  | .readCancel =>
      let globalCancel := root.markers .cancel
      .go
        { process with
          point := .readPause
          supervisor := { process.supervisor with globalCancel } }
  | .readPause =>
      let paused := root.markers .pause
      .go
        { process with
          point := .readDrain
          supervisor := { process.supervisor with paused } }
  | .readDrain =>
      let draining := root.markers .drain || process.supervisor.stop
      .go
        { process with
          point :=
            if process.supervisor.globalCancel then .names .globalCancel
            else .poll process.supervisor.active
          supervisor := { process.supervisor with draining } }
  | .poll [] => process.goTo .dispatch
  | .poll (id :: ids) =>
      match answer.returncode with
      | none => process.goTo (.poll ids)
      | some returncode => process.goTo (.reap id returncode ids)
  | .reap id returncode ids =>
      match root.queue.lookup id with
      | none => process.raise ("cannot read queue item " ++ id)
      | some item =>
          .go
            { pending := saveTerminal item
                (finished item process.supervisor.globalCancel returncode
                  answer) answer
              point := .poll ids
              supervisor :=
                { process.supervisor with
                  active := process.supervisor.active.erase id } }
  | .dispatch =>
      let supervisor := process.supervisor
      if !supervisor.paused && !supervisor.draining &&
          !supervisor.globalCancel &&
          decide (supervisor.active.length < supervisor.maxActive) then
        process.goTo (.names .choose)
      else process.goTo (.names .telemetry)
  | .verify item =>
      match manifestFault item answer with
      | some reason =>
          process.writeThen
            (saveTerminal item (failed item reason answer) answer) .dispatch
      | none => process.goTo (.spawn item)
  | .spawn item =>
      .start item.id
        { pending := [.saveItem (some item) (launched item answer)]
          point := .dispatch
          supervisor :=
            { process.supervisor with
              active := process.supervisor.active ++ [item.id] } }
  | .released => .leave (.text "")

inductive Command where
  | submit (submission : Submission)
  | cancel (id : String)
  | cancelAll
  | pause
  | drain
  | resume
  | serve (maxActive : Nat) (untilIdle : Bool)
  deriving DecidableEq, Repr

def Command.process : Command → Except String Process
  | .submit submission => .ok { point := .submitState submission }
  | .cancel id => .ok { point := .cancelItem id }
  | .cancelAll =>
      .ok { pending := [.touch .cancel], point := .names .cancelAll }
  | .pause => .ok { pending := [.touch .pause], point := .printed "paused" }
  | .drain => .ok { pending := [.touch .drain], point := .printed "draining" }
  | .resume =>
      .ok
        { pending := [.remove .pause, .remove .drain, .remove .cancel]
          point := .printed "resumed" }
  | .serve maxActive untilIdle =>
      if maxActive = 0 then .error "--max-active must be positive"
      else
        .ok { point := .lockExists, supervisor := { maxActive, untilIdle } }

/-- The files, the processes by their numbers, the items a scheduler was
started for, and what the commands have printed. -/
structure World where
  root : Root
  processes : Keyed (Prod.fst : Pid × Process → Pid)
  started : List String
  results : List (Pid × Result)

inductive Input where
  | start (pid : Pid) (command : Command)
  | advance (pid : Pid) (answer : Answer)
  | signal (pid : Pid)
  | die (pid : Pid)

namespace World

def idle (root : Root) : World :=
  { root, processes := .empty, started := [], results := [] }

def process (world : World) (pid : Pid) : Option Process :=
  (world.processes.lookup pid).map (·.2)

def live (world : World) (pid : Pid) : Bool :=
  (world.process pid).isSome

def set (world : World) (pid : Pid) (process : Process) : World :=
  { world with processes := world.processes.put (pid, process) }

def exit (world : World) (pid : Pid) : World :=
  { world with processes := world.processes.erase pid }

def report (world : World) (pid : Pid) (result : Result) : World :=
  { world with results := world.results ++ [(pid, result)] }

def write (world : World) (pid : Pid) (action : Write) : World :=
  { world with root := action.perform pid world.root }

def follow (world : World) (pid : Pid) : Next → World
  | .go process => world.set pid process
  | .create process =>
      { world.set pid process with
        root := { world.root with lock := some ⟨pid, none⟩ } }
  | .start id process =>
      { world.set pid process with started := world.started ++ [id] }
  | .leave result => (world.exit pid).report pid result

end World

/-- A live process performs its next write, or reads. -/
def advance (world : World) (pid : Pid) (process : Process)
    (answer : Answer) : World :=
  match process.pending with
  | action :: pending =>
      (world.write pid action).set pid { process with pending }
  | [] => world.follow pid (proceed world.live world.root process answer)

/-- The handler of `SIGINT` and `SIGTERM`. -/
def onSignal (process : Process) : Process :=
  { process with supervisor := { process.supervisor with stop := true } }

/-- Between a successful `acquire_lock` and the removal of the lock. -/
def Process.serves (process : Process) : Bool :=
  process.point.supervises && !process.pending.contains .writeLock &&
    !(process.point == .released && process.pending.isEmpty)

def step (world : World) : Input → Option World
  | .start pid command =>
      if pid = 0 || world.live pid then none
      else
        match command.process with
        | .error message => some (world.report pid (.error message))
        | .ok process => some (world.set pid process)
  | .advance pid answer =>
      (world.process pid).map fun process =>
        advance world pid process answer
  | .signal pid =>
      match world.process pid with
      | none => none
      | some process =>
          if process.serves then
            some ((world.write pid (.touch .drain)).set pid
              (onSignal process))
          else none
  | .die pid => (world.process pid).map fun _ => world.exit pid

/-- A process goes on for a number of steps, with nothing special to hear. -/
def advances (pid count : Nat) : List Input :=
  List.replicate count (.advance pid {})

end PpcLab.Control
