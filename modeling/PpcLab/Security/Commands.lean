import PpcLab.Explore.Evaluate
import PpcLab.Library.Outcome
import PpcLab.Security.Verdicts

/-!
# Commands on the auth store

The store is the dictionary that its file is read as.  A command reads it,
computes from what it read, and puts a new one in its place; `rotate` does both
twice, first as `revoke` and then as `issue`.  What a command draws at random
and reads from the clock is an argument of it.
-/

namespace PpcLab.Security

open Explore (isAmong sortedSet)

/-- How a command ends without a result. -/
inductive Refusal where
  /-- `SecurityError` -/
  | refused (message : Str)
  /-- Any other exception. -/
  | raised
  deriving DecidableEq

def tokenSchema : Str :=
  str "ppc-lab-auth-token-v1"

def anyScope : Str :=
  str "*"

/-- `ROLES` -/
def roles : List (Str × List Str) :=
  [(str "viewer", [str "status:read", str "evidence:read"]),
    (str "runner", [str "status:read", str "execute:run"]),
    (str "researcher", [str "status:read", str "evidence:read",
      str "execute:run"]),
    (str "admin", [anyScope])]

/-- `KNOWN_SCOPES` -/
def knownScopes : List Str :=
  [str "status:read", str "evidence:read", str "execute:run", anyScope]

/-- `ROLES.get(role or "", set())` -/
def roleScopes (role : Json) : Except Refusal (List Str) :=
  if truthy role then
    match role with
    | .string name => .ok ((roles.lookup name).getD [])
    | .array _ | .object _ => .error .raised
    | _ => .ok []
  else .ok []

section

variable (python : Python)

/-- The scopes that are added, one after the other. -/
def addScopes : List Str → List Json → Except Refusal (List Str)
  | scopes, [] => .ok scopes
  | scopes, scope :: extra =>
      match scope with
      | .string name =>
          if isAmong knownScopes name then addScopes (scopes ++ [name]) extra
          else .error (.refused (str "unknown scope: " ++ name))
      | .array _ | .object _ => .error .raised
      | other =>
          .error (.refused (str "unknown scope: " ++ python.unicode.toStr other))

def normalizeScopes (role : Json) (extra : List Json) :
    Except Refusal (List Str) := do
  let scopes ← roleScopes role
  let scopes ← addScopes python scopes extra
  if scopes.isEmpty then
    throw (.refused (str "at least one role or scope is required"))
  else if isAmong scopes anyScope then return [anyScope]
  else return sortedSet scopes

/-- The dictionary of a store that is one. -/
def loadTokens (store : Fields) : Except Refusal Fields :=
  let schema := Json.get store (str "schema")
  if schema ≠ .string storeSchema then
    .error (.refused (str "unsupported auth store schema: " ++
      python.unicode.toStr schema))
  else
    match Json.get store (str "tokens") with
    | .object tokens => .ok tokens
    | _ => .error (.refused (str "auth store tokens must be an object"))

/-- A store with other tokens. -/
def withTokens (store tokens : Fields) : Fields :=
  Dictionary.assign store (str "tokens", .object tokens)

/-- The record of a token. -/
def heldItem (tokens : Fields) (tokenId : Str) : Except Refusal Fields :=
  match Json.get tokens tokenId with
  | .object item => .ok item
  | _ => .error (.refused (str "unknown token id: " ++ tokenId))

/-- `init_store` -/
def initStore (now : Str) : Fields :=
  [(str "schema", .string storeSchema), (str "security_api", .int 1),
    (str "created_at", .string now), (str "tokens", .object [])]

/-- What `secrets` and the clock return to `issue`.  Identifiers are written
in hexadecimal digits and secrets in the alphabet of URLs. -/
structure Draws where
  tokenId : Str
  secret : Str
  salt : List Byte
  now : Str
  named : tokenId ≠ []
  plain : 0x2e ∉ tokenId
  ascii : ∀ character ∈ secret, character.val < 0x80

/-- The arguments of `issue`. -/
structure Request where
  role : Json
  extra : List Json
  label : Str
  draws : Draws

/-- The token that is shown once. -/
structure Issued where
  tokenId : Str
  secret : Str
  label : Str
  role : Json
  scopes : List Str

def Issued.token (issued : Issued) : Str :=
  issued.tokenId ++ 0x2e :: issued.secret

/-- `label or token_id` -/
def labelOf (label tokenId : Str) : Str :=
  if label.isEmpty then tokenId else label

def tokenRecord (issued : Issued) (salt digest : List Byte)
    (createdAt : Str) : Fields :=
  [(str "schema", .string tokenSchema), (str "label", .string issued.label),
    (str "role", issued.role),
    (str "scopes", .array (issued.scopes.map .string)),
    (str "salt", .string (b64encode salt)),
    (str "digest", .string (b64encode digest)),
    (str "rounds", .int defaultRounds),
    (str "created_at", .string createdAt), (str "revoked_at", .null)]

variable (derivation : Derivation)

/-- The store after a token was issued, and the token. -/
def issue (store : Fields) (request : Request) :
    Except Refusal (Fields × Issued) := do
  let tokens ← loadTokens python store
  let draws := request.draws
  let scopes ← normalizeScopes python request.role request.extra
  match derive derivation draws.secret draws.salt defaultRounds with
  | none => throw .raised
  | some digest =>
      let issued : Issued :=
        ⟨draws.tokenId, draws.secret, labelOf request.label draws.tokenId,
          request.role, scopes⟩
      let record := tokenRecord issued draws.salt digest draws.now
      return (withTokens store
        (Dictionary.assign tokens (draws.tokenId, .object record)), issued)

/-- A reading of the clock. -/
structure Clock where
  now : Str
  positive : now ≠ []

/-- The store that takes the place of the one that was read, if any does. -/
def revoke (store : Fields) (tokenId : Str) (clock : Clock) :
    Except Refusal (Option Fields) := do
  let tokens ← loadTokens python store
  let item ← heldItem tokens tokenId
  if truthy (Json.get item (str "revoked_at")) then return none
  else
    let revoked := Dictionary.assign item (str "revoked_at", .string clock.now)
    return some (withTokens store
      (Dictionary.assign tokens (tokenId, .object revoked)))

/-- `list(value)` -/
def listOf : Json → Except Refusal (List Json)
  | .array items => .ok items
  | .string text => .ok (text.map fun character => .string [character])
  | .object fields => .ok (fields.map fun member => .string member.1)
  | _ => .error .raised

/-- What `rotate` asks `issue` for, from the record of the old token. -/
def rotation (store : Fields) (tokenId : Str) (draws : Draws) :
    Except Refusal Request := do
  let tokens ← loadTokens python store
  let item ← heldItem tokens tokenId
  let scopes ← listOf ((Json.find? item (str "scopes")).getD (.array []))
  let label := Json.get item (str "label")
  return { role := Json.get item (str "role")
           extra := scopes
           label := if truthy label then python.unicode.toStr label else tokenId
           draws := draws }

end

end PpcLab.Security
