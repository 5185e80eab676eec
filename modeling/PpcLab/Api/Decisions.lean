import PpcLab.Security.TornLogs
import PpcLab.Security.Verdicts

/-!
# Authorization of requests

Every request names a credential in its `Authorization` header.  The server
checks it against the store of scoped tokens or against the one token that it
was started with, records the decision in the audit log and goes on only with
an allowed request.

A request is decided when it is allowed exactly for a valid token, when one
record of it is added to the log and when further requests can be recorded
behind it.  The server decides a request where the check of the credential has
an answer and the log is whole.
-/

namespace PpcLab.Api

open Security

/-- Where the server takes its credentials from. -/
inductive Mode where
  | store (file : StoredFile)
  | legacy (token : Str)
  | anonymous
  deriving DecidableEq

/-- The bytes of a header as text. -/
def latin1 (bytes : List Byte) : Str :=
  bytes.map fun byte => CodePoint.ofNat byte.toNat

structure Request where
  method : Str
  /-- The path without a query. -/
  path : Str
  authorization : Option (List Byte)
  client : Option Str
  deriving DecidableEq

def bearer : Str :=
  str "Bearer "

/-- The credential behind `Bearer `. -/
def Request.raw (request : Request) : Option Str :=
  let supplied := (request.authorization.map latin1).getD []
  if bearer.isPrefixOf supplied then some (supplied.drop bearer.length)
  else none

def isAscii (text : Str) : Bool :=
  text.all fun character => character.val < 0x80

/-- `hmac.compare_digest` of two strings, which have to be in ASCII. -/
def compareDigest (first second : Str) : Option Bool :=
  if isAscii first && isAscii second then some (decide (first = second))
  else none

/-- The identifier of the token that a request is allowed by. -/
abbrev Principal :=
  Option Str

variable (python : Python) (derivation : Derivation)

/-- Who a request is from: `some none` for nobody. -/
def principal (mode : Mode) (request : Request) (scope : Str) :
    Option (Option Principal) :=
  match mode with
  | .store file =>
      match request.raw with
      | none | some [] => some none
      | some token =>
          (verifyToken python derivation file token scope).map fun verdict =>
            if verdict.ok then some verdict.tokenId else none
  | .legacy token =>
      match request.raw with
      | none => some none
      | some raw => (compareDigest raw token).map fun same =>
          if same then some (some (str "legacy")) else none
  | .anonymous => some (some (some (str "anonymous-local")))

/-- The event of a decision. -/
def eventOf (request : Request) (scope : Str) (who : Option Principal) :
    Event where
  method := request.method
  path := request.path
  requiredScope := scope
  allowed := who.isSome
  tokenId := who.join
  client := request.client

/-- The log that decisions are recorded in; the file need not be there yet. -/
inductive AuditLog where
  | off
  | file (text : Option Str)
  deriving DecidableEq

/-- `ServerState.audit` -/
def audit (log : AuditLog) (timestamp : Str) (event : Fields) :
    Option AuditLog :=
  match log with
  | .off => some .off
  | .file text =>
      (auditAppend python text timestamp event).map fun next =>
        .file (some next)

/-- `_require_scope`: the decision and the log with its record, unless an
exception is raised. -/
def requireScope (mode : Mode) (log : AuditLog) (timestamp : Str)
    (request : Request) (scope : Str) : Option (Bool × AuditLog) := do
  let who ← principal python derivation mode request scope
  let next ← audit python log timestamp (eventOf request scope who).fields
  return (who.isSome, next)

/-- A request presents what is asked for. -/
def Presents (mode : Mode) (request : Request) (scope : Str) : Prop :=
  match mode with
  | .store file => ∃ token, request.raw = some token ∧
      ValidToken python derivation file token scope
  | .legacy token => request.raw = some token
  | .anonymous => True

/-- The check of the credential has an answer. -/
def Answered (mode : Mode) (request : Request) : Prop :=
  match mode with
  | .store file => ∀ token tokenId secret, request.raw = some token →
      splitToken token = some (tokenId, secret) →
      UsableStore python derivation file tokenId secret
  | .legacy token => ∀ raw, request.raw = some raw → isAscii raw ∧ isAscii token
  | .anonymous => True

/-- A record that was read says what an event says. -/
def Tells (record : Fields) (event : Event) : Prop :=
  ∀ member ∈ event.fields, Json.get record member.1 = readBack member.2

/-- A request is decided rightly, recorded once and stops no other request. -/
def Decided (mode : Mode) (log : Option Str) (timestamp : Str)
    (request : Request) (scope : Str) : Prop :=
  ∃ allowed next,
    requireScope python derivation mode (.file log) timestamp request scope =
      some (allowed, .file (some next)) ∧
    (allowed = true ↔ Presents python derivation mode request scope) ∧
    (∃ event record, event.method = request.method ∧
      event.path = request.path ∧ event.requiredScope = scope ∧
      event.allowed = allowed ∧ event.client = request.client ∧
      Tells record event ∧
      auditRecords python (some next) =
        auditRecords python log ++ [.object record]) ∧
    ∀ (later : Str) (event : Event),
      (auditAppend python (some next) later event.fields).isSome

private theorem small_of_mem_latin1 {bytes : List Byte} :
    ∀ character ∈ latin1 bytes, character.val < 0x800 := by
  intro character member
  obtain ⟨byte, _, rfl⟩ := List.mem_map.mp member
  have bound := byte.isLt
  rw [CodePoint.ofNat, Fin.val_ofNat]
  omega

/-- The credential of a request can be encoded. -/
private theorem utf8_raw {request : Request} {token : Str}
    (presented : request.raw = some token) :
    ∃ bytes, utf8 token = some bytes := by
  apply exists_utf8_of_small
  unfold Request.raw at presented
  dsimp only at presented
  split at presented
  · cases presented
    intro character member
    have supplied := List.mem_of_mem_drop member
    cases header : request.authorization with
    | none =>
        rw [header] at supplied
        cases supplied
    | some bytes =>
        rw [header] at supplied
        exact small_of_mem_latin1 character supplied
  · cases presented

private theorem compareDigest_eq_some {first second : Str} {same : Bool} :
    compareDigest first second = some same ↔
      (isAscii first ∧ isAscii second) ∧ same = decide (first = second) := by
  unfold compareDigest
  split
  · rename_i ascii
    rw [Bool.and_eq_true] at ascii
    rw [and_iff_right ascii, Option.some.injEq, eq_comm]
  · rename_i other
    rw [Bool.and_eq_true] at other
    exact iff_of_false nofun fun both => other both.1

/-- An answer allows what is presented. -/
theorem isSome_of_principal {mode : Mode} {request : Request} {scope : Str}
    {who : Option Principal}
    (answer : principal python derivation mode request scope = some who) :
    who.isSome ↔ Presents python derivation mode request scope := by
  cases mode with
  | store file =>
      unfold principal at answer
      rw [Presents]
      cases presented : request.raw with
      | none =>
          rw [presented] at answer
          cases answer
          simp
      | some token =>
          rw [presented] at answer
          cases token with
          | nil =>
              cases answer
              refine iff_of_false nofun ?_
              rintro ⟨_, same, tokenId, secret, item, parted, _⟩
              cases same
              cases parted
          | cons first token =>
              obtain ⟨verdict, verified, same⟩ :=
                Option.map_eq_some_iff.mp answer
              have valid := ok_verifyToken python derivation verified
              have single : (∃ other, some (first :: token) = some other ∧
                  ValidToken python derivation file other scope) ↔
                  ValidToken python derivation file (first :: token) scope := by
                constructor
                · rintro ⟨_, given, held⟩
                  cases given
                  exact held
                · intro held
                  exact ⟨_, rfl, held⟩
              rw [single, ← valid, ← same]
              cases verdict.ok <;> simp
  | legacy token =>
      unfold principal at answer
      rw [Presents]
      cases presented : request.raw with
      | none =>
          rw [presented] at answer
          cases answer
          simp
      | some raw =>
          rw [presented] at answer
          obtain ⟨same, compared, rfl⟩ := Option.map_eq_some_iff.mp answer
          obtain ⟨_, rfl⟩ := compareDigest_eq_some.mp compared
          by_cases equal : raw = token <;> simp [equal]
  | anonymous =>
      cases answer
      exact iff_of_true rfl trivial

/-- There is an answer where the check of the credential has one. -/
theorem isSome_principal (mode : Mode) (request : Request) (scope : Str) :
    (principal python derivation mode request scope).isSome ↔
      Answered python derivation mode request := by
  cases mode with
  | store file =>
      unfold principal
      rw [Answered]
      cases presented : request.raw with
      | none => exact iff_of_true rfl nofun
      | some token =>
          have single : (∀ other tokenId secret, some token = some other →
              splitToken other = some (tokenId, secret) →
              UsableStore python derivation file tokenId secret) ↔
              ∀ tokenId secret, splitToken token = some (tokenId, secret) →
                UsableStore python derivation file tokenId secret := by
            constructor
            · intro all tokenId secret
              exact all token tokenId secret rfl
            · rintro all _ tokenId secret same
              cases same
              exact all tokenId secret
          obtain ⟨bytes, encoded⟩ := utf8_raw presented
          rw [single]
          cases token with
          | nil => exact iff_of_true rfl nofun
          | cons first token =>
              rw [← isSome_verifyToken python derivation file encoded scope]
              exact iff_of_eq (congrArg (· = true) Option.isSome_map)
  | legacy token =>
      unfold principal
      rw [Answered]
      cases presented : request.raw with
      | none => exact iff_of_true rfl nofun
      | some raw =>
          dsimp only
          rw [Option.isSome_map, Option.isSome_iff_exists]
          constructor
          · rintro ⟨same, compared⟩ _ given
            cases given
            exact (compareDigest_eq_some.mp compared).1
          · intro ascii
            exact ⟨_, compareDigest_eq_some.mpr ⟨ascii raw rfl, rfl⟩⟩
  | anonymous => exact iff_of_true rfl trivial

private theorem tells_recordOf (prev : Str) (seq : Int) (timestamp : Str)
    (event : Event) :
    Tells (readRecord (recordOf prev seq timestamp event)) event := by
  intro member held
  have inRecord : member ∈ recordOf prev seq timestamp event := by
    refine List.mem_append_left _ ?_
    exact List.mem_append_right [_, _, _, _] held
  rw [get_readRecord,
    Json.get_of_mem (nodup_recordOf prev seq timestamp event) inRecord]

private theorem requireScope_eq_some {mode : Mode} {log : Option Str}
    {timestamp : Str} {request : Request} {scope : Str} {allowed : Bool}
    {next : Str}
    (done : requireScope python derivation mode (.file log) timestamp request
      scope = some (allowed, .file (some next))) :
    ∃ who, principal python derivation mode request scope = some who ∧
      allowed = who.isSome ∧
      auditAppend python log timestamp (eventOf request scope who).fields =
        some next := by
  obtain ⟨who, answer, done⟩ := Option.bind_eq_some_iff.mp done
  obtain ⟨final, recorded, done⟩ := Option.bind_eq_some_iff.mp done
  obtain ⟨text, appended, rfl⟩ := Option.map_eq_some_iff.mp recorded
  cases done
  exact ⟨who, answer, rfl, appended⟩

/-- A request is decided where the credential is answered for and the log is
whole, and nowhere else. -/
theorem decided_iff_answered {log : Option Str} (left : Left python log)
    (mode : Mode) (timestamp : Str) (request : Request) (scope : Str) :
    Decided python derivation mode log timestamp request scope ↔
      Answered python derivation mode request ∧ Whole python log := by
  constructor
  · rintro ⟨allowed, next, done, _, _, open_⟩
    obtain ⟨who, answer, _, appended⟩ :=
      requireScope_eq_some python derivation done
    refine ⟨?_, ?_⟩
    · rw [← isSome_principal python derivation mode request scope, answer]
      rfl
    · by_contra torn
      have blocked := auditAppend_eq_none python
        (blocked_of_not_whole python left torn appended) timestamp
        (eventOf request scope who).fields
      have further := open_ timestamp (eventOf request scope who)
      rw [blocked] at further
      cases further
  · rintro ⟨answered, whole⟩
    obtain ⟨records, prev, chain, written⟩ := chain_of_whole python left whole
    rw [← isSome_principal python derivation mode request scope,
      Option.isSome_iff_exists] at answered
    obtain ⟨who, answer⟩ := answered
    have appended := auditAppend_logText python chain written timestamp
      (eventOf request scope who)
    have further := chain.next timestamp (eventOf request scope who)
    refine ⟨who.isSome, logText (records ++ [recordOf prev
        (records.length + 1) timestamp (eventOf request scope who)]), ?_,
      isSome_of_principal python derivation answer,
      ⟨eventOf request scope who, _, rfl, rfl, rfl, rfl, rfl,
        tells_recordOf prev (records.length + 1) timestamp _, ?_⟩, ?_⟩
    · rw [requireScope, answer, Option.bind_eq_bind, Option.bind_some, audit,
        appended]
      rfl
    · rw [auditRecords_logText python further rfl,
        auditRecords_logText python chain written, List.map_append,
        List.map_singleton]
    · intro later event
      rw [auditAppend_logText python further rfl]
      rfl

/-- A request with the right token. -/
private def rightRequest : Request where
  method := str "GET"
  path := str "/v1/health"
  authorization := some ((str "Bearer secret").map asciiByte)
  client := some (str "127.0.0.1")

/-- A request with a byte behind `Bearer ` that is not in ASCII. -/
private def accentedRequest : Request where
  method := str "GET"
  path := str "/v1/health"
  authorization := some ((str "Bearer ").map asciiByte ++ [0xe9])
  client := some (str "127.0.0.1")

/-- A log with nothing but the beginning of a record. -/
private def tornLog : Option Str :=
  some (str "\x7b")

private theorem left_tornLog : Left Python.ascii tornLog := by
  let event : Event :=
    eventOf rightRequest (str "status:read") (some (some (str "legacy")))
  have appended := @auditAppend_logText Python.ascii none [] zeros .start rfl
    (str "2026-01-01T00:00:00Z") event
  obtain ⟨rest, line⟩ := recordLine_eq
    (recordOf zeros 1 (str "2026-01-01T00:00:00Z") event)
  have begins : logText [recordOf zeros 1 (str "2026-01-01T00:00:00Z") event] =
      0x7b :: rest ++ [Json.lineFeed] := by
    rw [logText, List.flatMap_singleton, line]
  refine .appended (str "2026-01-01T00:00:00Z") event .none
    (appended.trans (congrArg some begins)) ?_
  exact ⟨rest ++ [Json.lineFeed], rfl⟩

private theorem not_decided {mode : Mode} {log : Option Str} {request : Request}
    {timestamp scope : Str}
    (raised : requireScope python derivation mode (.file log) timestamp request
      scope = none) :
    ¬Decided python derivation mode log timestamp request scope := by
  rintro ⟨_, _, done, _⟩
  rw [raised] at done
  cases done

theorem undecided_requests :
    Left Python.ascii none ∧
      ¬Decided Python.ascii (fun _ _ _ => []) (.legacy (str "secret")) none
        (str "2026-01-01T00:00:00Z") accentedRequest (str "status:read") ∧
      Left Python.ascii tornLog ∧
      ¬Decided Python.ascii (fun _ _ _ => []) (.legacy (str "secret")) tornLog
        (str "2026-01-01T00:00:00Z") rightRequest (str "status:read") := by
  have unanswered : principal Python.ascii (fun _ _ _ => [])
      (.legacy (str "secret")) accentedRequest (str "status:read") = none := by
    decide
  have blocked : continuation Python.ascii tornLog = none := by
    decide
  refine ⟨.none, not_decided _ _ ?_, left_tornLog, not_decided _ _ ?_⟩
  · rw [requireScope, unanswered]
    rfl
  · rw [requireScope, Option.bind_eq_bind, Option.bind_eq_none_iff]
    intro who _
    rw [audit, auditAppend_eq_none Python.ascii blocked]
    rfl

theorem decided_first_request :
    Decided Python.ascii (fun _ _ _ => []) (.legacy (str "secret")) none
      (str "2026-01-01T00:00:00Z") rightRequest (str "status:read") := by
  have given : rightRequest.raw = some (str "secret") := by
    decide
  have ascii : isAscii (str "secret") := by
    decide
  refine (decided_iff_answered Python.ascii _ .none _ _ _ _).mpr ⟨?_, ?_⟩
  · intro raw presented
    rw [given] at presented
    cases presented
    exact ⟨ascii, ascii⟩
  · exact whole_of_chain Python.ascii .start rfl

end PpcLab.Api
