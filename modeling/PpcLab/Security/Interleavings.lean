import PpcLab.Security.Lifecycle

/-!
# Commands at the same time

Any number of commands on one store, which read it and replace it one at a time
in any order.  A command replaces the store by what it computed from the copy
that it read; nothing keeps the others from replacing it in between.  Where
they do not, a withdrawal is permanent and an issued token is accepted.  A
command that replaces nothing, such as the revocation of a token that its copy
shows as revoked, may be late.
-/

namespace PpcLab.Security

/-- Where a command is.  `next` is what a rotation asks for after the old token
was revoked, and `replaced` is the token that it revoked. -/
inductive Phase where
  | rotating (tokenId : Str) (clock : Clock) (draws : Draws)
  | revoking (tokenId : Str) (clock : Clock) (next : Option Request)
  | revokingFrom (copy : Fields) (tokenId : Str) (clock : Clock)
      (next : Option Request)
  | issuing (request : Request) (replaced : Option Str)
  | issuingFrom (copy : Fields) (request : Request) (replaced : Option Str)
  | returned (revoked : Option Str) (issued : Option Issued)
  | failed (refusal : Refusal)

def Command.phase : Command → Phase
  | .issue request => .issuing request none
  | .revoke tokenId clock => .revoking tokenId clock none
  | .rotate tokenId clock draws => .rotating tokenId clock draws

/-- What follows a revocation. -/
def Phase.afterRevoke (tokenId : Str) : Option Request → Phase
  | none => .returned (some tokenId) none
  | some request => .issuing request (some tokenId)

/-- What one step of a command comes to. -/
structure Move where
  phase : Phase
  store : Fields
  events : List TokenEvent

section

variable (python : Python) (derivation : Derivation)

/-- A command reads the store, or replaces it. -/
def Phase.advance (store : Fields) : Phase → Option Move
  | .rotating tokenId clock draws =>
      match rotation python store tokenId draws with
      | .error refusal => some ⟨.failed refusal, store, []⟩
      | .ok request => some ⟨.revoking tokenId clock (some request), store, []⟩
  | .revoking tokenId clock next =>
      some ⟨.revokingFrom store tokenId clock next, store, []⟩
  | .revokingFrom copy tokenId clock next =>
      match revoke python copy tokenId clock with
      | .error refusal => some ⟨.failed refusal, store, []⟩
      | .ok update =>
          some ⟨.afterRevoke tokenId next, update.getD store,
            [.withdrawn tokenId]⟩
  | .issuing request replaced =>
      some ⟨.issuingFrom store request replaced, store, []⟩
  | .issuingFrom copy request replaced =>
      match issue python derivation copy request with
      | .error refusal => some ⟨.failed refusal, store, []⟩
      | .ok (next, issued) =>
          some ⟨.returned replaced (some issued), next, [.granted issued]⟩
  | .returned _ _ | .failed _ => none

/-- The store, the commands on it, and what they did to the tokens. -/
structure System where
  store : Fields
  phases : List Phase
  log : List TokenEvent

inductive Turn where
  | start (command : Command)
  | advance (process : Nat)

def System.step (system : System) : Turn → Option System
  | .start command =>
      some { system with phases := system.phases ++ [command.phase] }
  | .advance process => do
      let phase ← system.phases[process]?
      let move ← phase.advance python derivation system.store
      return ⟨move.store, system.phases.set process move.phase,
        system.log ++ move.events⟩

end

def System.init (now : Str) : System :=
  ⟨initStore now, [], []⟩

section

variable (python : Python) (derivation : Derivation)

/-- A store that is replaced is still the copy that the command computes from,
and an identifier that is handed out is not in use. -/
def Phase.Undisturbed (store : Fields) (log : List TokenEvent) : Phase → Prop
  | .revokingFrom copy tokenId clock _ =>
      ∀ update, revoke python copy tokenId clock = .ok (some update) →
        copy = store
  | .issuingFrom copy request _ =>
      ∀ outcome, issue python derivation copy request = .ok outcome →
        copy = store ∧ ∀ issued, .granted issued ∈ log →
          issued.tokenId ≠ request.draws.tokenId
  | _ => True

def Undisturbed (system : System) : Turn → Prop
  | .start _ => True
  | .advance process => ∀ phase ∈ system.phases[process]?,
      phase.Undisturbed python derivation system.store system.log

end

/-- A token whose revocation or rotation has returned is not accepted, and one
whose issue has returned is accepted until it is withdrawn. -/
structure Permanent (python : Python) (derivation : Derivation)
    (system : System) : Prop where
  revoked : ∀ tokenId issued, .returned (some tokenId) issued ∈ system.phases →
    ∀ secret scope, ¬Accepts python derivation system.store
      (tokenId ++ 0x2e :: secret) scope
  issued : ∀ revoked issued, .returned revoked (some issued) ∈ system.phases →
    .withdrawn issued.tokenId ∉ system.log → ∀ scope, issued.allows scope →
    Accepts python derivation system.store issued.token scope

section

variable (python : Python) (derivation : Derivation)

/-- What a command has done is in the history, and the copy that a revocation
computes from was the store at some time. -/
def Phase.Recorded (log : List TokenEvent) : Phase → Prop
  | .revokingFrom copy _ _ _ =>
      ∃ earlier, earlier ⊆ log ∧ Keeps python derivation copy earlier
  | .issuing _ (some replaced) | .issuingFrom _ _ (some replaced) =>
      .withdrawn replaced ∈ log
  | .returned revoked issued =>
      (∀ tokenId ∈ revoked, .withdrawn tokenId ∈ log) ∧
        ∀ token ∈ issued, .granted token ∈ log
  | _ => True

theorem Phase.Recorded.append {log : List TokenEvent} {phase : Phase}
    (recorded : phase.Recorded python derivation log)
    (events : List TokenEvent) :
    phase.Recorded python derivation (log ++ events) := by
  cases phase with
  | revokingFrom copy tokenId clock next =>
      obtain ⟨earlier, inside, keeps⟩ := recorded
      exact ⟨earlier, List.subset_append_of_subset_left events inside, keeps⟩
  | issuing request replaced =>
      cases replaced with
      | none => trivial
      | some tokenId => exact List.mem_append_left _ recorded
  | issuingFrom copy request replaced =>
      cases replaced with
      | none => trivial
      | some tokenId => exact List.mem_append_left _ recorded
  | returned revoked issued =>
      exact ⟨fun tokenId member => List.mem_append_left _
          (recorded.1 tokenId member),
        fun token member => List.mem_append_left _ (recorded.2 token member)⟩
  | rotating | revoking | failed => trivial

/-- A store that keeps its history, and commands that are in it. -/
structure Consistent (system : System) : Prop where
  keeps : Keeps python derivation system.store system.log
  recorded : ∀ phase ∈ system.phases,
    phase.Recorded python derivation system.log

end

section

variable {python : Python} {derivation : Derivation} {store : Fields}
  {log : List TokenEvent}

/-- A token is withdrawn where its revocation has nothing to replace. -/
private theorem withdrawn_of_unchanged {tokenId : Str} {clock : Clock}
    (keeps : Keeps python derivation store log)
    (ran : revoke python store tokenId clock = .ok none) :
    .withdrawn tokenId ∈ log := by
  obtain ⟨ledger, reflects, records⟩ := keeps
  rw [records.withdrawn]
  cases held : ledger tokenId with
  | none =>
      obtain ⟨refusal, failed⟩ := revoke_of_none clock reflects held
      rw [ran] at failed
      cases failed
  | some grant =>
      refine ⟨grant, rfl, ?_⟩
      cases alive : grant.live with
      | false => rfl
      | true =>
          obtain ⟨next, replaced, _⟩ := revoke_of_live clock reflects held alive
          rw [ran] at replaced
          cases replaced

private theorem keeps_withdrawn {tokenId : Str}
    (keeps : Keeps python derivation store log)
    (withdrawn : .withdrawn tokenId ∈ log) :
    Keeps python derivation store (log ++ [.withdrawn tokenId]) := by
  obtain ⟨ledger, reflects, records⟩ := keeps
  obtain ⟨grant, held, dead⟩ := (records.withdrawn tokenId).mp withdrawn
  exact ⟨ledger, reflects, records.withdraw_dead held dead⟩

/-- A revocation that returns has withdrawn its token, also one that has read a
store which others replaced since. -/
private theorem revoke_keeps {copy : Fields} {tokenId : Str} {clock : Clock}
    {update : Option Fields} (keeps : Keeps python derivation store log)
    (read : ∃ earlier, earlier ⊆ log ∧ Keeps python derivation copy earlier)
    (ran : revoke python copy tokenId clock = .ok update)
    (undisturbed : ∀ next, update = some next → copy = store) :
    Keeps python derivation (update.getD store)
      (log ++ [.withdrawn tokenId]) := by
  cases update with
  | none =>
      obtain ⟨earlier, inside, kept⟩ := read
      exact keeps_withdrawn keeps (inside (withdrawn_of_unchanged kept ran))
  | some next =>
      obtain rfl := undisturbed next rfl
      obtain ⟨ledger, reflects, records⟩ := keeps
      have performed := performRevoke_cases tokenId clock reflects records
      rw [performRevoke, ran] at performed
      rcases performed with ⟨_, impossible⟩ |
        ⟨_, after, later, _, same, kept, recordedLater, _⟩
      · exact absurd (Prod.mk.inj impossible).2 (List.cons_ne_nil _ _)
      · obtain ⟨rfl, _⟩ := Prod.mk.inj same
        exact ⟨later, kept, recordedLater⟩

theorem advance_keeps {phase : Phase} {move : Move}
    (keeps : Keeps python derivation store log)
    (recorded : phase.Recorded python derivation log)
    (undisturbed : phase.Undisturbed python derivation store log)
    (moved : phase.advance python derivation store = some move) :
    Keeps python derivation move.store (log ++ move.events) ∧
      move.phase.Recorded python derivation (log ++ move.events) := by
  have still : Keeps python derivation store (log ++ []) := by
    rw [List.append_nil]
    exact keeps
  cases phase with
  | rotating tokenId clock draws =>
      rw [Phase.advance] at moved
      cases asked : rotation python store tokenId draws with
      | error refusal =>
          rw [asked] at moved
          cases moved
          exact ⟨still, trivial⟩
      | ok request =>
          rw [asked] at moved
          cases moved
          exact ⟨still, trivial⟩
  | revoking tokenId clock next =>
      cases moved
      exact ⟨still, log, List.subset_append_left log [], keeps⟩
  | revokingFrom copy tokenId clock next =>
      rw [Phase.advance] at moved
      cases ran : revoke python copy tokenId clock with
      | error refusal =>
          rw [ran] at moved
          cases moved
          exact ⟨still, trivial⟩
      | ok update =>
          rw [ran] at moved
          cases moved
          refine ⟨revoke_keeps keeps recorded ran ?_, ?_⟩
          · rintro later rfl
            exact undisturbed later ran
          · have member : TokenEvent.withdrawn tokenId ∈
                log ++ [.withdrawn tokenId] := by
              simp
            cases next with
            | none =>
                refine ⟨?_, fun _ impossible => by cases impossible⟩
                intro other same
                cases same
                exact member
            | some request => exact member
  | issuing request replaced =>
      cases moved
      refine ⟨still, ?_⟩
      dsimp only
      rw [List.append_nil]
      cases replaced with
      | none => trivial
      | some tokenId => exact recorded
  | issuingFrom copy request replaced =>
      rw [Phase.advance] at moved
      cases ran : issue python derivation copy request with
      | error refusal =>
          rw [ran] at moved
          cases moved
          exact ⟨still, trivial⟩
      | ok outcome =>
          obtain ⟨rfl, fresh⟩ := undisturbed outcome ran
          obtain ⟨ledger, reflects, records⟩ := keeps
          have performed := performIssue_keeps reflects records
            (fresh_of_records records fresh)
          rw [performIssue, ran] at performed
          rw [ran] at moved
          cases moved
          refine ⟨performed, ?_, ?_⟩
          · intro tokenId same
            cases same
            exact List.mem_append_left _ recorded
          · intro token same
            cases same
            simp
  | returned | failed => cases moved

theorem step_consistent {system next : System} {turn : Turn}
    (consistent : Consistent python derivation system)
    (undisturbed : Undisturbed python derivation system turn)
    (stepped : system.step python derivation turn = some next) :
    Consistent python derivation next := by
  cases turn with
  | start command =>
      cases stepped
      refine ⟨consistent.keeps, ?_⟩
      intro phase member
      rcases List.mem_append.mp member with early | late
      · exact consistent.recorded phase early
      · rw [List.mem_singleton.mp late]
        cases command with
        | issue request => trivial
        | revoke tokenId clock => trivial
        | rotate tokenId clock draws => trivial
  | advance process =>
      obtain ⟨phase, here, stepped⟩ := Option.bind_eq_some_iff.mp stepped
      obtain ⟨move, moved, stepped⟩ := Option.bind_eq_some_iff.mp stepped
      cases stepped
      have known := consistent.recorded phase (List.mem_of_getElem? here)
      obtain ⟨keeps, recorded⟩ := advance_keeps consistent.keeps known
        (undisturbed phase here) moved
      refine ⟨keeps, ?_⟩
      intro other member
      rcases List.mem_or_eq_of_mem_set member with old | rfl
      · exact (consistent.recorded other old).append _ _ move.events
      · exact recorded

/-- What is in the history of a store is permanent. -/
theorem Consistent.permanent {system : System}
    (separates : SeparatesSecrets derivation)
    (consistent : Consistent python derivation system) :
    Permanent python derivation system := by
  obtain ⟨keeps, recorded⟩ := consistent
  constructor
  · intro tokenId issued member secret scope accepted
    have withdrawn := (recorded _ member).1 tokenId rfl
    obtain ⟨token, stands, same, _⟩ :=
      (keeps.accepts_iff separates _ _).mp accepted
    obtain ⟨ledger, _, records⟩ := keeps
    obtain ⟨grant, held, dead⟩ := (records.withdrawn tokenId).mp withdrawn
    obtain ⟨entered, there, equal⟩ := records.entered tokenId grant held
    have plain := records.plain entered there
    rw [equal] at plain
    obtain ⟨rfl, _⟩ := Text.append_cons_injective plain
      (records.plain token stands.mem) same
    obtain ⟨live, alsoHeld, alive, _⟩ := records.stands token stands
    rw [held] at alsoHeld
    cases alsoHeld
    rw [dead] at alive
    cases alive
  · intro revoked issued member standing scope allows
    have granted := (recorded _ member).2 issued rfl
    obtain ⟨before, after, whole⟩ := List.append_of_mem granted
    apply (keeps.accepts_iff separates _ _).mpr
    refine ⟨issued, ⟨before, after, whole, ?_⟩, rfl, allows⟩
    intro later
    apply standing
    rw [whole]
    simp [later]

end

/-- In a run whose replacements are all computed from the store that they
replace, a withdrawal is permanent and an issued token is accepted. -/
theorem revocation_permanent (python : Python) {derivation : Derivation}
    (separates : SeparatesSecrets derivation) (now : Str)
    {turns : List Turn} {system : System}
    (ran : follow (System.step python derivation) (.init now) turns =
      some system)
    (undisturbed : Along (System.step python derivation)
      (Undisturbed python derivation) (.init now) turns) :
    Permanent python derivation system := by
  have start : Consistent python derivation (.init now) := by
    refine ⟨initStore_keeps python derivation now, ?_⟩
    intro phase impossible
    cases impossible
  have consistent := follow_keeps
    (fun _ _ _ kept admitted stepped => step_consistent kept admitted stepped)
    start undisturbed ran
  exact consistent.permanent separates

def secondRequest : Request :=
  ⟨.string (str "viewer"), [], [], secondDraws⟩

/-- A second token is issued from a copy that was read before the first one was
revoked. -/
def straddling : List Turn :=
  [.start (.issue viewerRequest), .advance 0, .advance 0,
    .start (.issue secondRequest), .advance 1,
    .start (.revoke firstDraws.tokenId someTime), .advance 2, .advance 2,
    .advance 1]

/-- The first token is revoked once more from a copy that shows it as revoked,
and a second one is issued in between. -/
def lateRevocation : List Turn :=
  [.start (.issue viewerRequest), .advance 0, .advance 0,
    .start (.revoke firstDraws.tokenId someTime), .advance 1, .advance 1,
    .start (.revoke firstDraws.tokenId someTime), .advance 2,
    .start (.issue secondRequest), .advance 3, .advance 3, .advance 2]

theorem revocation_permanent_late :
    ∃ system, follow (System.step .ascii plainDerivation) (.init (str "2026"))
        lateRevocation = some system ∧
      .returned (some firstDraws.tokenId) none ∈ system.phases ∧
      Permanent .ascii plainDerivation system := by
  have undisturbed : Along (System.step .ascii plainDerivation)
      (Undisturbed .ascii plainDerivation) (.init (str "2026"))
      lateRevocation := by
    refine along_cons rfl trivial (along_cons rfl ?_ (along_cons rfl ?_ ?_))
    · rintro phase ⟨⟩
      trivial
    · rintro phase ⟨⟩ outcome _
      exact ⟨rfl, fun _ impossible => absurd impossible List.not_mem_nil⟩
    refine along_cons rfl trivial (along_cons rfl ?_ (along_cons rfl ?_ ?_))
    · rintro phase ⟨⟩
      trivial
    · rintro phase ⟨⟩ update _
      rfl
    refine along_cons rfl trivial (along_cons rfl ?_ ?_)
    · rintro phase ⟨⟩
      trivial
    refine along_cons rfl trivial (along_cons rfl ?_ (along_cons rfl ?_ ?_))
    · rintro phase ⟨⟩
      trivial
    · rintro phase ⟨⟩ outcome _
      refine ⟨rfl, ?_⟩
      intro issued member
      rcases List.mem_cons.mp member with same | late
      · cases same
        decide
      · cases List.mem_singleton.mp late
    -- the token is revoked already, so nothing replaces the store
    refine along_cons rfl ?_ trivial
    rintro phase ⟨⟩ update replaced
    cases replaced
  exact ⟨_, rfl, List.mem_cons_of_mem _ List.mem_cons_self,
    revocation_permanent .ascii plainDerivation_separates _ rfl undisturbed⟩

/-- The copy brings the first token back. -/
theorem straddling_issue_undoes_revocation :
    ∃ system, follow (System.step .ascii plainDerivation)
        (.init (str "2026")) straddling = some system ∧
      .returned (some firstDraws.tokenId) none ∈ system.phases ∧
      Accepts .ascii plainDerivation system.store
        (firstDraws.tokenId ++ 0x2e :: firstDraws.secret) (str "status:read") := by
  refine ⟨_, rfl, ?_, _, rfl, rfl⟩
  exact List.mem_cons_of_mem _ (List.mem_cons_of_mem _ List.mem_cons_self)

end PpcLab.Security
