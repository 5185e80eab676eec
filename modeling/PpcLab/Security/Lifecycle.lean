import PpcLab.Library.Runs
import PpcLab.Security.Standing

/-!
# The life of a token

Commands that are run one after another.  The verifier accepts what was handed
out and not withdrawn, and a command leaves the other tokens alone.  Rotation
does not look whether the old token is still alive: it hands out a new one for
a token that was revoked long before.
-/

namespace PpcLab.Security

/-- A command with what it draws and reads from the clock. -/
inductive Command where
  | issue (request : Request)
  | revoke (tokenId : Str) (clock : Clock)
  | rotate (tokenId : Str) (clock : Clock) (draws : Draws)

section

variable (python : Python) (derivation : Derivation)

/-- `issue`, and what it did. -/
def performIssue (store : Fields) (request : Request) :
    Fields × List TokenEvent :=
  match issue python derivation store request with
  | .error _ => (store, [])
  | .ok (next, issued) => (next, [.granted issued])

def performRevoke (store : Fields) (tokenId : Str) (clock : Clock) :
    Fields × List TokenEvent :=
  match revoke python store tokenId clock with
  | .error _ => (store, [])
  | .ok update => (update.getD store, [.withdrawn tokenId])

/-- `rotate` reads what it needs of the old token, revokes it, and issues a
new one. -/
def perform (store : Fields) : Command → Fields × List TokenEvent
  | .issue request => performIssue python derivation store request
  | .revoke tokenId clock => performRevoke python store tokenId clock
  | .rotate tokenId clock draws =>
      match rotation python store tokenId draws with
      | .error _ => (store, [])
      | .ok request =>
          let (middle, withdrawn) := performRevoke python store tokenId clock
          if withdrawn.isEmpty then (middle, withdrawn)
          else
            let (next, granted) := performIssue python derivation middle request
            (next, withdrawn ++ granted)

/-- A store and what was done to it. -/
structure Session where
  store : Fields
  log : List TokenEvent

def Session.step (session : Session) (command : Command) : Option Session :=
  let (next, events) := perform python derivation session.store command
  some ⟨next, session.log ++ events⟩

end

def Session.init (now : Str) : Session :=
  ⟨initStore now, []⟩

/-- Identifiers that are drawn have not been handed out before. -/
def Fresh (session : Session) : Command → Prop
  | .issue request => ∀ issued, .granted issued ∈ session.log →
      issued.tokenId ≠ request.draws.tokenId
  | .revoke _ _ => True
  | .rotate _ _ draws => ∀ issued, .granted issued ∈ session.log →
      issued.tokenId ≠ draws.tokenId

/-- A token that is rotated has not been withdrawn. -/
def RotatesLive (session : Session) : Command → Prop
  | .rotate tokenId _ _ => .withdrawn tokenId ∉ session.log
  | _ => True

section

variable (python : Python) (derivation : Derivation)

/-- The verifier accepts the tokens that stand, for their scopes. -/
def AcceptsStanding (session : Session) : Prop :=
  ∀ token scope, Accepts python derivation session.store token scope ↔
    ∃ issued, Stands session.log issued ∧ token = issued.token ∧
      issued.allows scope

/-- Tokens that a command neither hands out nor withdraws are accepted after it
as before. -/
def LeavesOthers (session : Session) (command : Command) : Prop :=
  ∀ token scope,
    (∀ issued,
      .granted issued ∈ (perform python derivation session.store command).2 →
        token ≠ issued.token) →
    (∀ tokenId secret, .withdrawn tokenId ∈
        (perform python derivation session.store command).2 →
      token ≠ tokenId ++ 0x2e :: secret) →
    (Accepts python derivation
        (perform python derivation session.store command).1 token scope ↔
      Accepts python derivation session.store token scope)

/-- A rotation hands out a token for a token that stands; and where it hands out
one, the old token stood until then, and the new one stands in its place with
the same scopes. -/
def Replaces (session : Session) : Command → Prop
  | .rotate tokenId clock draws =>
      let events :=
        (perform python derivation session.store (.rotate tokenId clock draws)).2
      (∀ old, Stands session.log old → old.tokenId = tokenId →
        ∃ issued, .granted issued ∈ events) ∧
      ∀ issued, .granted issued ∈ events →
        ∃ old, Stands session.log old ∧ old.tokenId = tokenId ∧
          issued.scopes = old.scopes ∧
          ∀ other, Stands (session.log ++ events) other ↔
            other = issued ∨ Stands session.log other ∧ other.tokenId ≠ tokenId
  | _ => True

/-- After the command the verifier accepts what stands, the other tokens are
as they were, and a rotation has replaced a token that stood. -/
def Lawful (session : Session) (command : Command) : Prop :=
  (∀ next ∈ session.step python derivation command,
    AcceptsStanding python derivation next) ∧
  LeavesOthers python derivation session command ∧
  Replaces python derivation session command

end

section

variable {python : Python} {derivation : Derivation} {store : Fields}
  {log : List TokenEvent}

theorem fresh_of_records {ledger : Ledger} {tokenId : Str}
    (records : Records log ledger)
    (fresh : ∀ issued, .granted issued ∈ log → issued.tokenId ≠ tokenId) :
    ledger tokenId = none := by
  cases held : ledger tokenId with
  | none => rfl
  | some grant =>
      obtain ⟨issued, member, same⟩ := records.entered tokenId grant held
      exact absurd same (fresh issued member)

/-- The history of a store goes on with what `issue` did. -/
theorem performIssue_keeps {ledger : Ledger} {request : Request}
    (reflects : Reflects python derivation store ledger)
    (records : Records log ledger)
    (fresh : ledger request.draws.tokenId = none) :
    Keeps python derivation
      (performIssue python derivation store request).1
      (log ++ (performIssue python derivation store request).2) := by
  rw [performIssue]
  cases ran : issue python derivation store request with
  | error refusal =>
      dsimp only
      rw [List.append_nil]
      exact ⟨ledger, reflects, records⟩
  | ok outcome =>
      obtain ⟨next, issued⟩ := outcome
      obtain ⟨scopes, digest, _, rfl, kept⟩ := issue_ok reflects ran
      exact ⟨_, kept, records.grant fresh scopes digest⟩

/-- What `revoke` does, seen from the ledger. -/
theorem performRevoke_cases {ledger : Ledger} (tokenId : Str) (clock : Clock)
    (reflects : Reflects python derivation store ledger)
    (records : Records log ledger) :
    (ledger tokenId = none ∧
      performRevoke python store tokenId clock = (store, [])) ∨
    ∃ grant next later, ledger tokenId = some grant ∧
      performRevoke python store tokenId clock =
        (next, [.withdrawn tokenId]) ∧
      Reflects python derivation next later ∧
      Records (log ++ [.withdrawn tokenId]) later ∧
      ∀ other, ledger other = none → later other = none := by
  rw [performRevoke]
  cases held : ledger tokenId with
  | none =>
      obtain ⟨refusal, failed⟩ := revoke_of_none clock reflects held
      left
      rw [failed]
      exact ⟨rfl, rfl⟩
  | some grant =>
      right
      cases alive : grant.live with
      | false =>
          rw [revoke_of_dead clock reflects held alive]
          exact ⟨grant, store, ledger, rfl, rfl, reflects,
            records.withdraw_dead held alive, fun _ absent => absent⟩
      | true =>
          obtain ⟨next, ran, kept⟩ := revoke_of_live clock reflects held alive
          rw [ran]
          refine ⟨grant, next, _, rfl, rfl, kept, records.withdraw held clock, ?_⟩
          intro other absent
          have differ : other ≠ tokenId := by
            rintro rfl
            rw [held] at absent
            cases absent
          rw [Ledger.set_of_ne _ _ differ]
          exact absent

/-- What `rotate` does, seen from the ledger. -/
theorem perform_rotate {ledger : Ledger} {tokenId : Str} {grant : Grant}
    (clock : Clock) (draws : Draws)
    (reflects : Reflects python derivation store ledger)
    (records : Records log ledger) (held : ledger tokenId = some grant)
    (fresh : ledger draws.tokenId = none) :
    ∃ next, perform python derivation store (.rotate tokenId clock draws) =
        (next, [.withdrawn tokenId,
          .granted (issuedTo (again grant tokenId draws) grant.scopes)]) ∧
      Keeps python derivation next (log ++ [.withdrawn tokenId,
        .granted (issuedTo (again grant tokenId draws) grant.scopes)]) := by
  have asked := rotation_of_some draws reflects held
  have genuine := reflects.genuine tokenId grant held
  rcases performRevoke_cases tokenId clock reflects records with
    ⟨absent, _⟩ | ⟨_, middle, later, _, revoked, kept, recorded, others⟩
  · rw [held] at absent
    cases absent
  · have normalAgain : normalizeScopes python
        (again grant tokenId draws).role (again grant tokenId draws).extra =
          .ok grant.scopes := normalizeScopes_again genuine draws
    obtain ⟨next, ran⟩ := exists_issue kept normalAgain
    obtain ⟨scopes, digest, normal, _, keptAgain⟩ := issue_ok kept ran
    rw [normalAgain] at normal
    cases normal
    refine ⟨next, ?_, _, keptAgain, ?_⟩
    · rw [perform, asked]
      dsimp only
      rw [revoked]
      dsimp only
      rw [performIssue, ran]
      rfl
    · have freshAgain : later (again grant tokenId draws).draws.tokenId =
          none := others _ fresh
      have granted := recorded.grant freshAgain grant.scopes digest
      rw [List.append_assoc] at granted
      exact granted

/-- A command carries the history of its store on. -/
theorem perform_keeps {command : Command}
    (keeps : Keeps python derivation store log)
    (fresh : Fresh ⟨store, log⟩ command) :
    Keeps python derivation (perform python derivation store command).1
      (log ++ (perform python derivation store command).2) := by
  obtain ⟨ledger, reflects, records⟩ := keeps
  cases command with
  | issue request =>
      exact performIssue_keeps reflects records (fresh_of_records records fresh)
  | revoke tokenId clock =>
      rw [perform]
      rcases performRevoke_cases tokenId clock reflects records with
        ⟨_, failed⟩ | ⟨_, next, later, _, ran, kept, recorded, _⟩
      · rw [failed, List.append_nil]
        exact ⟨ledger, reflects, records⟩
      · rw [ran]
        exact ⟨later, kept, recorded⟩
  | rotate tokenId clock draws =>
      cases held : ledger tokenId with
      | none =>
          obtain ⟨refusal, failed⟩ := rotation_of_none draws reflects held
          rw [perform, failed, List.append_nil]
          exact ⟨ledger, reflects, records⟩
      | some grant =>
          obtain ⟨next, ran, kept⟩ := perform_rotate clock draws reflects
            records held (fresh_of_records records fresh)
          rw [ran]
          exact kept

theorem leavesOthers_of_keeps {command : Command}
    (separates : SeparatesSecrets derivation)
    (keeps : Keeps python derivation store log)
    (fresh : Fresh ⟨store, log⟩ command) :
    LeavesOthers python derivation ⟨store, log⟩ command := by
  intro token scope notGranted notWithdrawn
  rw [(perform_keeps keeps fresh).accepts_iff separates,
    keeps.accepts_iff separates]
  apply exists_congr
  intro issued
  apply and_congr_left
  intro ⟨same, _⟩
  apply stands_append_iff
  · intro other member equal
    exact notGranted other member (by rw [same, equal])
  · intro tokenId member equal
    apply notWithdrawn tokenId issued.secret member
    rw [same, Issued.token, equal]

/-- A rotation replaces its token exactly when that one has not been
withdrawn. -/
theorem replaces_iff {command : Command}
    (keeps : Keeps python derivation store log)
    (fresh : Fresh ⟨store, log⟩ command) :
    Replaces python derivation ⟨store, log⟩ command ↔
      RotatesLive ⟨store, log⟩ command := by
  obtain ⟨ledger, reflects, records⟩ := keeps
  cases command with
  | issue request => exact Iff.rfl
  | revoke tokenId clock => exact Iff.rfl
  | rotate tokenId clock draws =>
      rw [Replaces, RotatesLive, records.withdrawn]
      dsimp only
      cases held : ledger tokenId with
      | none =>
          obtain ⟨refusal, failed⟩ := rotation_of_none draws reflects held
          rw [perform, failed]
          dsimp only
          apply iff_of_true
          · refine ⟨?_, fun _ impossible => absurd impossible List.not_mem_nil⟩
            intro old stands same
            obtain ⟨grant, there, _⟩ := records.stands old stands
            rw [same, held] at there
            cases there
          · intro ⟨_, impossible, _⟩
            cases impossible
      | some grant =>
          obtain ⟨next, ran, _⟩ := perform_rotate clock draws reflects
            records held (fresh_of_records records fresh)
          rw [ran]
          dsimp only
          have handedOut :
              .granted (issuedTo (again grant tokenId draws) grant.scopes) ∈
                [TokenEvent.withdrawn tokenId,
                  .granted (issuedTo (again grant tokenId draws) grant.scopes)] :=
            List.mem_cons_of_mem _ List.mem_cons_self
          constructor
          · intro ⟨_, replaced⟩ ⟨other, same, dead⟩
            cases same
            obtain ⟨old, stands, equal, _⟩ := replaced _ handedOut
            obtain ⟨live, there, alive, _⟩ := records.stands old stands
            rw [equal, held] at there
            cases there
            rw [dead] at alive
            cases alive
          · intro standing
            have alive : grant.live = true := by
              cases live : grant.live with
              | true => rfl
              | false => exact absurd ⟨grant, rfl, live⟩ standing
            obtain ⟨old, stands, equal⟩ := records.live tokenId grant held alive
            refine ⟨fun _ _ _ => ⟨_, handedOut⟩, ?_⟩
            intro issued member
            simp only [List.mem_cons, reduceCtorEq, TokenEvent.granted.injEq,
              List.not_mem_nil, or_false, false_or] at member
            subst member
            refine ⟨old, stands, equal.tokenId, equal.scopes.symm, ?_⟩
            intro other
            rw [List.append_cons, stands_granted, stands_withdrawn]

theorem lawful_iff {session : Session} {command : Command}
    (separates : SeparatesSecrets derivation)
    (keeps : Keeps python derivation session.store session.log)
    (fresh : Fresh session command) :
    Lawful python derivation session command ↔ RotatesLive session command := by
  have accepts : ∀ next ∈ session.step python derivation command,
      AcceptsStanding python derivation next := by
    intro next stepped
    cases stepped
    exact (perform_keeps keeps fresh).accepts_iff separates
  rw [Lawful, and_iff_right accepts,
    and_iff_right (leavesOthers_of_keeps separates keeps fresh)]
  exact replaces_iff keeps fresh

end

/-- In a run that draws new identifiers every command is lawful exactly when no
rotation is asked for a token that was withdrawn. -/
theorem token_lifecycle (python : Python) {derivation : Derivation}
    (separates : SeparatesSecrets derivation) (now : Str)
    {commands : List Command}
    (fresh : Along (Session.step python derivation) Fresh (.init now)
      commands) :
    Along (Session.step python derivation) (Lawful python derivation)
        (.init now) commands ↔
      Along (Session.step python derivation) RotatesLive (.init now)
        commands := by
  have kept (session : Session) (command : Command) (next : Session)
      (keeps : Keeps python derivation session.store session.log)
      (admitted : Fresh session command)
      (stepped : session.step python derivation command = some next) :
      Keeps python derivation next.store next.log := by
    cases stepped
    exact perform_keeps keeps admitted
  exact along_iff kept
    (fun _ _ keeps admitted => lawful_iff separates keeps admitted)
    (initStore_keeps python derivation now) fresh

/-- A derivation that separates secrets. -/
def plainDerivation : Derivation :=
  fun secret _ _ => secret

theorem plainDerivation_separates : SeparatesSecrets plainDerivation :=
  fun _ _ _ _ same => same

private theorem named_one : str "01" ≠ [] := by
  decide

private theorem plain_one : 0x2e ∉ str "01" := by
  decide

private theorem ascii_one :
    ∀ character ∈ str "one", character.val < 0x80 := by
  decide

private theorem named_two : str "02" ≠ [] := by
  decide

private theorem plain_two : 0x2e ∉ str "02" := by
  decide

private theorem ascii_two :
    ∀ character ∈ str "two", character.val < 0x80 := by
  decide

/-- A first and a second drawing. -/
def firstDraws : Draws :=
  ⟨str "01", str "one", [], str "2026", named_one, plain_one, ascii_one⟩

def secondDraws : Draws :=
  ⟨str "02", str "two", [], str "2026", named_two, plain_two, ascii_two⟩

private theorem dated_year : str "2026" ≠ [] := by
  decide

def someTime : Clock :=
  ⟨str "2026", dated_year⟩

def viewerRequest : Request :=
  ⟨.string (str "viewer"), [], [], firstDraws⟩

/-- A token is issued and revoked, and the revoked token is rotated. -/
def revival : List Command :=
  [.issue viewerRequest, .revoke firstDraws.tokenId someTime,
    .rotate firstDraws.tokenId someTime secondDraws]

/-- A token is issued and rotated, and the new one is revoked. -/
def renewal : List Command :=
  [.issue viewerRequest, .rotate firstDraws.tokenId someTime secondDraws,
    .revoke secondDraws.tokenId someTime]

theorem token_lifecycle_renewal :
    Along (Session.step .ascii plainDerivation)
      (Lawful .ascii plainDerivation) (.init (str "2026")) renewal := by
  have fresh : Along (Session.step .ascii plainDerivation) Fresh
      (.init (str "2026")) renewal := by
    refine ⟨fun _ impossible => absurd impossible List.not_mem_nil, ?_⟩
    rintro first ⟨⟩
    refine ⟨?_, fun _ _ => ⟨trivial, fun _ _ => trivial⟩⟩
    intro issued member
    cases List.mem_singleton.mp member
    decide
  refine (token_lifecycle .ascii plainDerivation_separates _ fresh).mpr
    ⟨trivial, ?_⟩
  rintro first ⟨⟩
  refine ⟨?_, fun _ _ => ⟨trivial, fun _ _ => trivial⟩⟩
  intro member
  cases List.mem_singleton.mp member

/-- The rotation of the revoked token hands out a token that is accepted. -/
theorem rotate_revives :
    ¬Along (Session.step .ascii plainDerivation)
      (Lawful .ascii plainDerivation) (.init (str "2026")) revival := by
  intro lawful
  have unused : Fresh (.init (str "2026")) (.issue viewerRequest) :=
    fun _ impossible => absurd impossible List.not_mem_nil
  have issued := perform_keeps
    (initStore_keeps .ascii plainDerivation (str "2026")) unused
  have revoked := perform_keeps issued
    (show Fresh ⟨_, _⟩ (.revoke firstDraws.tokenId someTime) from trivial)
  have third := ((lawful.2 _ rfl).2 _ rfl).1
  have live := (lawful_iff plainDerivation_separates revoked ?_).mp third
  · exact live (List.mem_cons_of_mem _ List.mem_cons_self)
  · intro other member
    rcases List.mem_cons.mp member with same | late
    · cases same
      decide
    · cases List.mem_singleton.mp late

end PpcLab.Security
