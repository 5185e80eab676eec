import PpcLab.Library.Ieee754
import PpcLab.Library.Runs
import Mathlib.Data.Prod.Lex
import Mathlib.Data.String.Basic

/-!
# The campaign scheduler

The scheduler admits the campaigns of a manifest, starts them as processes and
checkpoints its state after every change.  It is a loop of a few phases; what
it reads from the outside (markers, exits, clocks) are the inputs of its steps,
and it may die at any point and be started again from the checkpoint.
-/

namespace PpcLab.Scheduler

open Ieee754

/-- The bits of a Python float. -/
abbrev Double := Nat

structure Project where
  id : String
  order : Nat
  weight : Nat
  maxConcurrent : Nat
  caseBudget : Option Nat
  wallSeconds : Option Double
  deriving DecidableEq, Repr

structure Campaign where
  id : String
  project : String
  manifest : String
  out : String
  priority : Int
  reserveCases : Nat
  wallSeconds : Option Double
  order : Nat
  deriving DecidableEq, Repr

/-- What `validate_manifest` returns, with what it has checked. -/
structure Manifest where
  projects : List Project
  campaigns : List Campaign
  globalMax : Nat
  globalMax_pos : 0 < globalMax
  weight_pos : ∀ project ∈ projects, 0 < project.weight
  slots_pos : ∀ project ∈ projects, 0 < project.maxConcurrent
  projects_nodup : (projects.map (·.id)).Nodup
  campaigns_nodup : (campaigns.map (·.id)).Nodup
  projects_order : projects.map (·.order) = List.range projects.length
  campaigns_order : campaigns.map (·.order) = List.range campaigns.length
  project_known : ∀ campaign ∈ campaigns, ∃ project ∈ projects,
    project.id = campaign.project

inductive Status where
  | pending
  | running
  | complete
  | failed
  | cancelled
  | quotaBlocked
  deriving DecidableEq, Repr

def Status.isTerminal : Status → Bool
  | .complete | .failed | .cancelled | .quotaBlocked => true
  | .pending | .running => false

structure CampaignState where
  project : String
  status : Status
  attempts : Nat
  reason : Option String
  returncode : Option Int
  deriving DecidableEq, Repr

structure ProjectState where
  reservedCases : Nat
  elapsedSeconds : Double
  dispatched : Nat
  deriving DecidableEq, Repr

structure State where
  projects : String → ProjectState
  campaigns : String → CampaignState

def projectOf (manifest : Manifest) (id : String) : String :=
  ((manifest.campaigns.find? (·.id == id)).map (·.project)).getD ""

def newState (manifest : Manifest) : State :=
  { projects := fun _ => ⟨0, 0, 0⟩
    campaigns := fun id => ⟨projectOf manifest id, .pending, 0, none, none⟩ }

namespace State

def setCampaign (state : State) (id : String)
    (change : CampaignState → CampaignState) : State :=
  { state with
    campaigns := Function.update state.campaigns id
      (change (state.campaigns id)) }

def setProject (state : State) (id : String)
    (change : ProjectState → ProjectState) : State :=
  { state with
    projects := Function.update state.projects id
      (change (state.projects id)) }

/-- `rec["status"]` of a campaign. -/
def status (state : State) (campaign : Campaign) : Status :=
  (state.campaigns campaign.id).status

end State

/-- Running work of a checkpoint becomes pending again. -/
def resumed (state : State) : State :=
  { state with
    campaigns := fun id =>
      let record := state.campaigns id
      if record.status = .running then { record with status := .pending }
      else record }

def loadState (manifest : Manifest) (checkpoint : Option State)
    (resume : Bool) : Except String State :=
  match checkpoint with
  | some state =>
      if resume then .ok (resumed state)
      else
        .error "scheduler state exists; use --resume or a new --out directory"
  | none =>
      if resume then
        .error "--resume requested but scheduler state does not exist"
      else .ok (newState manifest)

def pendingOf (manifest : Manifest) (state : State) (project : String) :
    List Campaign :=
  manifest.campaigns.filter fun campaign =>
    campaign.project == project && state.status campaign == .pending

/-- `running_by_project`, which the dispatch loop keeps in step with
`running`. -/
def runningByProject (state : State) (running : List Campaign)
    (project : String) : Nat :=
  running.countP fun campaign =>
    (state.campaigns campaign.id).project == project

def eligibleProjects (manifest : Manifest) (state : State)
    (running : List Campaign) : List Project :=
  manifest.projects.filter fun project =>
    decide (runningByProject state running project.id < project.maxConcurrent) &&
      !(pendingOf manifest state project.id).isEmpty

/-- `float(value)` -/
def toFloat (value : Nat) : Except String Double :=
  let bits := ofInt binary64 value
  if bits = binary64.infinityBits then
    .error "int too large to convert to float"
  else .ok bits

/-- `dispatched / float(weight)` -/
def serviceRatio (state : State) (project : Project) :
    Except String Double := do
  let weight ← toFloat project.weight
  let dispatched ← toFloat (state.projects project.id).dispatched
  return div binary64 binary64.infinityBits dispatched weight

def projectKey (entry : Double × Project) : Int ×ₗ Nat :=
  toLex (orderKey binary64 entry.1, entry.2.order)

def campaignKey (campaign : Campaign) : Int ×ₗ Nat ×ₗ String :=
  toLex (-campaign.priority, toLex (campaign.order, campaign.id))

def chooseNext (manifest : Manifest) (state : State)
    (running : List Campaign) : Except String (Option Campaign) := do
  let eligible ← (eligibleProjects manifest state running).mapM fun project =>
    do
      let ratio ← serviceRatio state project
      return (ratio, project)
  match least projectKey eligible with
  | none => return none
  | some (_, project) =>
      return least campaignKey (pendingOf manifest state project.id)

/-- A budget the project has, and does not leave room for the campaign. -/
def exceedsBudget (budget : Option Nat) (cases : Nat) : Bool :=
  budget.any fun budget => decide (budget < cases)

/-- `elapsed >= limit` -/
def reached (elapsed limit : Double) : Bool :=
  lt binary64 limit elapsed || eq binary64 limit elapsed

def quotaAllows (manifest : Manifest) (campaign : Campaign) (state : State) :
    Bool × Option String :=
  match manifest.projects.find? (·.id == campaign.project) with
  | none => (true, none)
  | some project =>
      let account := state.projects campaign.project
      if exceedsBudget project.caseBudget
          (account.reservedCases + campaign.reserveCases) then
        (false, some "project-case-budget")
      else if project.wallSeconds.any (reached account.elapsedSeconds) then
        (false, some "project-wall-budget")
      else (true, none)

inductive Phase where
  /-- About to look for the global cancel marker. -/
  | top
  /-- Looking after the running campaigns that are left. -/
  | poll (left : List Campaign)
  /-- In the dispatch loop. -/
  | dispatch (launched : Bool)
  deriving DecidableEq, Repr

structure Process where
  state : State
  running : List Campaign
  drained : Bool
  phase : Phase

/-- A started campaign process, with what the scheduler knew then. -/
structure Launch where
  campaign : Campaign
  state : State
  running : List Campaign

/-- What can be said about a run afterwards. -/
inductive Event where
  | begun
  | stopSeen
  | started (launch : Launch)
  | deadlock

/-- The checkpoint, the scheduler process if there is one, and what happened
so far. -/
structure World where
  checkpoint : Option State
  process : Option Process
  history : List Event

def World.fresh : World :=
  { checkpoint := none, process := none, history := [] }

/-- How a campaign process ended. -/
structure Exit where
  elapsed : Double
  returncode : Option Int
  deriving DecidableEq, Repr

inductive Input where
  | start (resume : Bool)
  | cancelMarker (present : Bool) (exits : String → Exit)
  | poll (marker : Bool) (clock : Double) (exit : Exit)
  | drainMarker (present : Bool)
  | dispatch (marker survives : Bool)
  | die

/-- A campaign process is gone. -/
def finish (state : State) (campaign : Campaign) (status : Status)
    (exit : Exit) : State :=
  (state.setCampaign campaign.id fun record =>
    { record with status, returncode := exit.returncode }).setProject
      (state.campaigns campaign.id).project fun account =>
        { account with
          elapsedSeconds := add binary64 binary64.infinityBits
            account.elapsedSeconds exit.elapsed }

/-- Everything that has not ended is cancelled. -/
def cancelAll (manifest : Manifest) (state : State) (running : List Campaign)
    (exits : String → Exit) : State :=
  let stopped := running.foldl (fun state campaign =>
    finish state campaign .cancelled (exits campaign.id)) state
  manifest.campaigns.foldl (fun state campaign =>
    if state.status campaign = .pending then
      state.setCampaign campaign.id fun record =>
        { record with status := .cancelled }
    else state) stopped

/-- What becomes of a running campaign, by its marker, by the time it has run
and by its return code. -/
def afterPoll (campaign : Campaign) (marker : Bool) (clock : Double)
    (exit : Exit) : Option Status :=
  if marker || campaign.wallSeconds.any (reached clock) then
    some .cancelled
  else exit.returncode.map fun code =>
    if code = 0 then .complete else .failed

/-- Admission charges the project. -/
def launch (state : State) (campaign : Campaign) : State :=
  (state.setCampaign campaign.id fun record =>
    { record with status := .running, attempts := record.attempts + 1 })
    |>.setProject campaign.project fun account =>
      { account with
        reservedCases := account.reservedCases + campaign.reserveCases
        dispatched := account.dispatched + 1 }

def anyPending (manifest : Manifest) (state : State) : Bool :=
  manifest.campaigns.any fun campaign => state.status campaign == .pending

namespace World

/-- The process leaves the loop, or fails. -/
def ended (world : World) : World :=
  { world with process := none }

/-- The process goes on in the next phase. -/
def goOn (world : World) (process : Process) (phase : Phase) : World :=
  { world with process := some { process with phase } }

/-- `write_json(state_path, state)` -/
def write (world : World) (state : State) : World :=
  { world with checkpoint := some state }

def note (world : World) (event : Event) : World :=
  { world with history := world.history ++ [event] }

end World

/-- Behind the dispatch loop. -/
def leaveDispatch (manifest : Manifest) (world : World) (process : Process)
    (launched : Bool) : World :=
  if process.running.isEmpty then
    if !anyPending manifest process.state then world.ended
    else if !launched then (world.note .deadlock).ended
    else world.goOn process .top
  else world.goOn process .top

/-- One turn of the dispatch loop for the campaign that was chosen. -/
def admitChosen (manifest : Manifest) (world : World) (process : Process)
    (launched : Bool) (campaign : Campaign) (marker survives : Bool) : World :=
  if marker then
    let state := process.state.setCampaign campaign.id fun record =>
      { record with status := .cancelled }
    (world.write state).goOn { process with state } (.dispatch launched)
  else
    match quotaAllows manifest campaign process.state with
    | (false, reason) =>
        let state := process.state.setCampaign campaign.id fun record =>
          { record with status := .quotaBlocked, reason }
        (world.write state).goOn { process with state } (.dispatch launched)
    | (true, _) =>
        let world := world.note (.started
          { campaign, state := process.state, running := process.running })
        if survives then
          let state := Scheduler.launch process.state campaign
          (world.write state).goOn
            { process with state, running := process.running ++ [campaign] }
            (.dispatch true)
        else world.ended

def dispatchStep (manifest : Manifest) (world : World) (process : Process)
    (launched marker survives : Bool) : World :=
  if process.drained || decide (manifest.globalMax ≤ process.running.length) then
    leaveDispatch manifest world process launched
  else
    match chooseNext manifest process.state process.running with
    | .error _ => world.ended
    | .ok none => leaveDispatch manifest world process launched
    | .ok (some campaign) =>
        admitChosen manifest world process launched campaign marker survives

def pollStep (world : World) (process : Process) (campaign : Campaign)
    (left : List Campaign) (marker : Bool) (clock : Double) (exit : Exit) :
    World :=
  match afterPoll campaign marker clock exit with
  | none => world.goOn process (.poll left)
  | some status =>
      let state := finish process.state campaign status exit
      (world.write state).goOn
        { process with
          state, running := process.running.filter (·.id != campaign.id) }
        (.poll left)

def drainStep (world : World) (process : Process) (present : Bool) : World :=
  let world := if present then world.note .stopSeen else world
  let drained := process.drained || present
  if drained && process.running.isEmpty then world.ended
  else world.goOn { process with drained } (.dispatch false)

/-- One step of a live scheduler process. -/
def processStep (manifest : Manifest) (world : World) (process : Process) :
    Phase → Input → Option World
  | .top, .cancelMarker present exits =>
      if present then
        some ((world.note .stopSeen).write
          (cancelAll manifest process.state process.running exits)).ended
      else some (world.goOn process (.poll process.running))
  | .poll (campaign :: left), .poll marker clock exit =>
      some (pollStep world process campaign left marker clock exit)
  | .poll [], .drainMarker present => some (drainStep world process present)
  | .dispatch launched, .dispatch marker survives =>
      some (dispatchStep manifest world process launched marker survives)
  | _, .die => some world.ended
  | _, _ => none

/-- The command is run while no scheduler is. -/
def startStep (manifest : Manifest) (world : World) (resume : Bool) : World :=
  match loadState manifest world.checkpoint resume with
  | .error _ => world
  | .ok state =>
      { checkpoint := some state
        process := some
          { state, running := [], drained := false, phase := .top }
        history := world.history ++ [.begun] }

def step (manifest : Manifest) (world : World) (input : Input) :
    Option World :=
  match world.process with
  | some process => processStep manifest world process process.phase input
  | none =>
      match input with
      | .start resume => some (startStep manifest world resume)
      | _ => none

end PpcLab.Scheduler
