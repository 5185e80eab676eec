import PpcLab.Security.Ledger

/-!
# The commands and the ledger

One lemma for each command: what it needs of the ledger, and the ledger of the
store that it leaves.
-/

namespace PpcLab.Security

variable {python : Python} {derivation : Derivation} {store : Fields}
  {ledger : Ledger}

private theorem tokens_ne_schema : str "tokens" ≠ str "schema" := by
  decide

theorem loadTokens_of_reflects
    (reflects : Reflects python derivation store ledger) :
    ∃ tokens, loadTokens python store = .ok tokens ∧
      Json.get store (str "tokens") = .object tokens ∧
      ∀ tokenId, match ledger tokenId with
        | none => Json.get tokens tokenId = .null
        | some grant => ∃ item, Json.get tokens tokenId = .object item ∧
            Describes item grant := by
  obtain ⟨tokens, table, entries⟩ := reflects.tokens
  refine ⟨tokens, ?_, table, entries⟩
  rw [loadTokens, if_neg (not_not.mpr reflects.schema), table]

/-- A store with one more record. -/
theorem reflects_withTokens {tokens item : Fields} {tokenId : Str}
    {grant : Grant} (reflects : Reflects python derivation store ledger)
    (entries : ∀ tokenId, match ledger tokenId with
      | none => Json.get tokens tokenId = .null
      | some grant => ∃ item, Json.get tokens tokenId = .object item ∧
          Describes item grant)
    (describes : Describes item grant)
    (genuine : Genuine python derivation grant) :
    Reflects python derivation
      (withTokens store (Dictionary.assign tokens (tokenId, .object item)))
      (ledger.set tokenId grant) := by
  refine ⟨?_, ⟨Dictionary.assign tokens (tokenId, .object item), ?_, ?_⟩, ?_⟩
  · rw [withTokens, Json.get_assign_of_ne tokens_ne_schema]
    exact reflects.schema
  · exact Json.get_assign_self
  · intro other
    by_cases same : other = tokenId
    · subst same
      rw [Ledger.set_self]
      exact ⟨item, Json.get_assign_self, describes⟩
    · rw [Ledger.set_of_ne _ _ same, Json.get_assign_of_ne (Ne.symm same)]
      exact entries other
  · intro other otherGrant held
    by_cases same : other = tokenId
    · subst same
      rw [Ledger.set_self] at held
      cases held
      exact genuine
    · rw [Ledger.set_of_ne _ _ same] at held
      exact reflects.genuine other otherGrant held

/-- What `issue` writes down of a request. -/
def granted (request : Request) (scopes : List Str) (digest : List Byte) :
    Grant :=
  { secret := request.draws.secret
    salt := request.draws.salt
    digest := digest
    label := labelOf request.label request.draws.tokenId
    role := request.role
    scopes := scopes
    revokedAt := none }

def issuedTo (request : Request) (scopes : List Str) : Issued :=
  ⟨request.draws.tokenId, request.draws.secret,
    labelOf request.label request.draws.tokenId, request.role, scopes⟩

private theorem describes_tokenRecord (request : Request) (scopes : List Str)
    (digest : List Byte) :
    Describes (tokenRecord (issuedTo request scopes) request.draws.salt digest
      request.draws.now) (granted request scopes digest) where
  label := by rfl
  role := by rfl
  scopes := by rfl
  salt := by rfl
  digest := by rfl
  rounds := by rfl
  revoked := by rfl

theorem initStore_reflects (now : Str) :
    Reflects python derivation (initStore now) fun _ => none where
  schema := by rfl
  tokens := ⟨[], by rfl, fun _ => by rfl⟩
  genuine _ _ held := by cases held

theorem issue_ok {request : Request} {next : Fields} {issued : Issued}
    (reflects : Reflects python derivation store ledger)
    (ran : issue python derivation store request = .ok (next, issued)) :
    ∃ scopes digest,
      normalizeScopes python request.role request.extra = .ok scopes ∧
      issued = issuedTo request scopes ∧
      Reflects python derivation next
        (ledger.set request.draws.tokenId (granted request scopes digest)) := by
  obtain ⟨tokens, loaded, _, entries⟩ := loadTokens_of_reflects reflects
  rw [issue, loaded] at ran
  dsimp only [Bind.bind, Except.bind] at ran
  cases normal : normalizeScopes python request.role request.extra with
  | error refusal =>
      rw [normal] at ran
      cases ran
  | ok scopes =>
      rw [normal] at ran
      dsimp only at ran
      cases derived : derive derivation request.draws.secret
          request.draws.salt defaultRounds with
      | none =>
          rw [derived] at ran
          cases ran
      | some digest =>
          rw [derived] at ran
          injection ran with same
          injection same with store' token
          refine ⟨scopes, digest, rfl, token.symm, ?_⟩
          rw [← store']
          apply reflects_withTokens reflects entries
            (describes_tokenRecord request scopes digest)
          obtain ⟨bytes, encoded, kept⟩ := Option.bind_eq_some_iff.mp derived
          split at kept
          · exact ⟨⟨bytes, encoded, Option.some.inj kept⟩,
              normalizeScopes_stable python normal, nofun⟩
          · cases kept

theorem exists_issue {request : Request} {scopes : List Str}
    (reflects : Reflects python derivation store ledger)
    (normal : normalizeScopes python request.role request.extra = .ok scopes) :
    ∃ next, issue python derivation store request =
      .ok (next, issuedTo request scopes) := by
  obtain ⟨tokens, loaded, _, _⟩ := loadTokens_of_reflects reflects
  obtain ⟨bytes, encoded⟩ := exists_utf8_of_small fun character member =>
    lt_trans (request.draws.ascii character member) (by decide)
  have bounds : 1 ≤ defaultRounds ∧ defaultRounds ≤ maxRounds := by
    decide
  have derived : derive derivation request.draws.secret request.draws.salt
      defaultRounds =
        some (derivation bytes request.draws.salt defaultRounds.toNat) := by
    rw [derive, encoded, Option.bind_eq_bind, Option.bind_some, if_pos bounds]
    rfl
  rw [issue, loaded]
  dsimp only [Bind.bind, Except.bind]
  rw [normal]
  dsimp only
  rw [derived]
  exact ⟨_, rfl⟩

/-- The ledger after a grant was revoked. -/
def Grant.revoked (grant : Grant) (clock : Clock) : Grant :=
  { grant with revokedAt := some clock.now }

private theorem heldItem_of_none {tokens : Fields} {tokenId : Str}
    (absent : Json.get tokens tokenId = .null) :
    ∃ refusal, heldItem tokens tokenId = .error refusal := by
  rw [heldItem, absent]
  exact ⟨_, rfl⟩

private theorem heldItem_of_some {tokens item : Fields} {tokenId : Str}
    (found : Json.get tokens tokenId = .object item) :
    heldItem tokens tokenId = .ok item := by
  rw [heldItem, found]

theorem revoke_of_none {tokenId : Str} (clock : Clock)
    (reflects : Reflects python derivation store ledger)
    (absent : ledger tokenId = none) :
    ∃ refusal, revoke python store tokenId clock = .error refusal := by
  obtain ⟨tokens, loaded, _, entries⟩ := loadTokens_of_reflects reflects
  have entry := entries tokenId
  rw [absent] at entry
  obtain ⟨refusal, missing⟩ := heldItem_of_none entry
  rw [revoke, loaded]
  dsimp only [Bind.bind, Except.bind]
  rw [missing]
  exact ⟨refusal, rfl⟩

theorem revoke_of_dead {tokenId : Str} {grant : Grant} (clock : Clock)
    (reflects : Reflects python derivation store ledger)
    (held : ledger tokenId = some grant) (dead : grant.live = false) :
    revoke python store tokenId clock = .ok none := by
  obtain ⟨tokens, loaded, _, entries⟩ := loadTokens_of_reflects reflects
  have entry := entries tokenId
  rw [held] at entry
  obtain ⟨item, found, describes⟩ := entry
  have genuine := reflects.genuine tokenId grant held
  have gone : truthy (Json.get item (str "revoked_at")) = true := by
    rw [describes.revoked, truthy_optional genuine.dated]
    exact Option.isNone_eq_false_iff.mp dead
  rw [revoke, loaded]
  dsimp only [Bind.bind, Except.bind]
  rw [heldItem_of_some found]
  dsimp only
  rw [if_pos gone]
  rfl

private theorem describes_revoked {item : Fields} {grant : Grant}
    (describes : Describes item grant) (clock : Clock) :
    Describes (Dictionary.assign item
      (str "revoked_at", .string clock.now)) (grant.revoked clock) := by
  have others : ∀ key ∈ [str "label", str "role", str "scopes", str "salt",
      str "digest", str "rounds"], str "revoked_at" ≠ key := by
    decide
  refine ⟨?_, ?_, ?_, ?_, ?_, ?_, ?_⟩
  · rw [Json.get_assign_of_ne (others _ (by simp))]
    exact describes.label
  · rw [Json.get_assign_of_ne (others _ (by simp))]
    exact describes.role
  · rw [Json.find?_assign_of_ne (others _ (by simp))]
    exact describes.scopes
  · rw [Json.get_assign_of_ne (others _ (by simp))]
    exact describes.salt
  · rw [Json.get_assign_of_ne (others _ (by simp))]
    exact describes.digest
  · rw [Json.find?_assign_of_ne (others _ (by simp))]
    exact describes.rounds
  · exact Json.get_assign_self

theorem revoke_of_live {tokenId : Str} {grant : Grant} (clock : Clock)
    (reflects : Reflects python derivation store ledger)
    (held : ledger tokenId = some grant) (live : grant.live = true) :
    ∃ next, revoke python store tokenId clock = .ok (some next) ∧
      Reflects python derivation next
        (ledger.set tokenId (grant.revoked clock)) := by
  obtain ⟨tokens, loaded, _, entries⟩ := loadTokens_of_reflects reflects
  have entry := entries tokenId
  rw [held] at entry
  obtain ⟨item, found, describes⟩ := entry
  have genuine := reflects.genuine tokenId grant held
  have going : ¬truthy (Json.get item (str "revoked_at")) = true := by
    rw [describes.revoked, truthy_optional genuine.dated,
      Option.not_isSome_iff_eq_none]
    exact Option.isNone_iff_eq_none.mp live
  have dated : (grant.revoked clock).revokedAt ≠ some [] := by
    intro same
    exact clock.positive (Option.some.inj same)
  rw [revoke, loaded]
  dsimp only [Bind.bind, Except.bind]
  rw [heldItem_of_some found]
  dsimp only
  rw [if_neg going]
  refine ⟨_, rfl, ?_⟩
  exact reflects_withTokens reflects entries (describes_revoked describes clock)
    ⟨genuine.derived, genuine.stable, dated⟩

/-- What `rotate` asks for, from the grant of the old token. -/
def again (grant : Grant) (tokenId : Str) (draws : Draws) : Request :=
  { role := grant.role
    extra := grant.scopes.map .string
    label := labelOf grant.label tokenId
    draws := draws }

theorem rotation_of_none {tokenId : Str} (draws : Draws)
    (reflects : Reflects python derivation store ledger)
    (absent : ledger tokenId = none) :
    ∃ refusal, rotation python store tokenId draws = .error refusal := by
  obtain ⟨tokens, loaded, _, entries⟩ := loadTokens_of_reflects reflects
  have entry := entries tokenId
  rw [absent] at entry
  obtain ⟨refusal, missing⟩ := heldItem_of_none entry
  rw [rotation, loaded]
  dsimp only [Bind.bind, Except.bind]
  rw [missing]
  exact ⟨refusal, rfl⟩

theorem rotation_of_some {tokenId : Str} {grant : Grant} (draws : Draws)
    (reflects : Reflects python derivation store ledger)
    (held : ledger tokenId = some grant) :
    rotation python store tokenId draws = .ok (again grant tokenId draws) := by
  obtain ⟨tokens, loaded, _, entries⟩ := loadTokens_of_reflects reflects
  have entry := entries tokenId
  rw [held] at entry
  obtain ⟨item, found, describes⟩ := entry
  rw [rotation, loaded]
  dsimp only [Bind.bind, Except.bind]
  rw [heldItem_of_some found]
  dsimp only
  rw [describes.scopes, describes.label, describes.role, Option.getD_some,
    listOf]
  have label : (if truthy (.string grant.label) then
      python.unicode.toStr (.string grant.label) else tokenId) =
      labelOf grant.label tokenId := by
    cases grant.label with
    | nil => rfl
    | cons first text => rfl
  dsimp only
  rw [label]
  rfl

/-- The request of a rotation is granted with the scopes of the old token. -/
theorem normalizeScopes_again {tokenId : Str} {grant : Grant}
    (genuine : Genuine python derivation grant) (draws : Draws) :
    normalizeScopes python (again grant tokenId draws).role
      (again grant tokenId draws).extra = .ok grant.scopes :=
  genuine.stable

end PpcLab.Security
