import PpcLab.Security.Commands

/-!
# The ledger of a store

What a store says about its tokens, as a function from identifiers to grants.
The commands are described by what they do to the ledger, and the verifier by
what it finds there.
-/

namespace PpcLab.Security

open Explore (isAmong isAmong_iff sortedSet)

variable (python : Python) (derivation : Derivation)

/-- `verify_token` on the dictionary that the store is read as. -/
def verifyStored (store : Fields) (token required : Str) : Option Verdict :=
  match splitToken token with
  | none => some (refused "malformed-token" none)
  | some (tokenId, secret) =>
      if Json.get store (str "schema") ≠ .string storeSchema then
        some (refused "auth-store-error" none)
      else
        match (Json.get store (str "tokens")).asObject? with
        | none => some (refused "auth-store-error" none)
        | some tokens =>
            match (Json.get tokens tokenId).asObject? with
            | none => some (refused "unknown-token" (some tokenId))
            | some item =>
                if truthy (Json.get item (str "revoked_at")) then
                  some (refused "revoked" (some tokenId))
                else verifySecret python derivation item tokenId secret required

/-- The verifier answers that the token is good for the scope. -/
def Accepts (store : Fields) (token scope : Str) : Prop :=
  ∃ verdict, verifyStored python derivation store token scope = some verdict ∧
    verdict.ok

/-- What a store knows of a token. -/
structure Grant where
  secret : Str
  salt : List Byte
  digest : List Byte
  label : Str
  role : Json
  scopes : List Str
  revokedAt : Option Str

def Grant.live (grant : Grant) : Bool :=
  grant.revokedAt.isNone

def Grant.allows (grant : Grant) (scope : Str) : Prop :=
  anyScope ∈ grant.scopes ∨ scope ∈ grant.scopes

abbrev Ledger :=
  Str → Option Grant

/-- The ledger with one entry replaced. -/
def Ledger.set (ledger : Ledger) (tokenId : Str) (grant : Grant) : Ledger :=
  fun other => if other = tokenId then some grant else ledger other

theorem Ledger.set_self (ledger : Ledger) (tokenId : Str) (grant : Grant) :
    ledger.set tokenId grant tokenId = some grant :=
  if_pos rfl

theorem Ledger.set_of_ne (ledger : Ledger) {tokenId other : Str} (grant : Grant)
    (differ : other ≠ tokenId) :
    ledger.set tokenId grant other = ledger other :=
  if_neg differ

/-- A record holds a grant. -/
structure Describes (item : Fields) (grant : Grant) : Prop where
  label : Json.get item (str "label") = .string grant.label
  role : Json.get item (str "role") = grant.role
  scopes : Json.find? item (str "scopes") =
    some (.array (grant.scopes.map .string))
  salt : Json.get item (str "salt") = .string (b64encode grant.salt)
  digest : Json.get item (str "digest") = .string (b64encode grant.digest)
  rounds : Json.find? item (str "rounds") = some (.int defaultRounds)
  revoked : Json.get item (str "revoked_at") = optional grant.revokedAt

/-- A grant as the commands make them. -/
structure Genuine (grant : Grant) : Prop where
  derived : ∃ bytes, utf8 grant.secret = some bytes ∧
    derivation bytes grant.salt defaultRounds.toNat = grant.digest
  stable : normalizeScopes python grant.role (grant.scopes.map .string) =
    .ok grant.scopes
  dated : grant.revokedAt ≠ some []

/-- A store says what the ledger says. -/
structure Reflects (store : Fields) (ledger : Ledger) : Prop where
  schema : Json.get store (str "schema") = .string storeSchema
  tokens : ∃ tokens, Json.get store (str "tokens") = .object tokens ∧
    ∀ tokenId, match ledger tokenId with
      | none => Json.get tokens tokenId = .null
      | some grant => ∃ item, Json.get tokens tokenId = .object item ∧
          Describes item grant
  genuine : ∀ tokenId grant, ledger tokenId = some grant →
    Genuine python derivation grant

/-- Different secrets have different keys. -/
def SeparatesSecrets : Prop :=
  ∀ first second salt rounds,
    derivation first salt rounds = derivation second salt rounds →
      first = second

private theorem mem_sortedSet {texts : List Str} {text : Str} :
    text ∈ sortedSet texts ↔ text ∈ texts := by
  rw [sortedSet, List.mem_insertionSort, List.mem_dedup]

private theorem notAfter_total :
    Std.Total fun first second : Str => Json.notAfter first second = true := by
  constructor
  intro first second
  rw [Json.notAfter_iff, Json.notAfter_iff]
  exact le_total first second

private theorem notAfter_trans :
    IsTrans Str fun first second => Json.notAfter first second = true := by
  constructor
  intro first second third before after
  rw [Json.notAfter_iff] at before after ⊢
  exact le_trans before after

/-- The order of a set depends on its elements. -/
theorem sortedSet_congr {first second : List Str}
    (same : ∀ text, text ∈ first ↔ text ∈ second) :
    sortedSet first = sortedSet second := by
  have total := notAfter_total
  have transitive := notAfter_trans
  have permuted : first.dedup.Perm second.dedup := by
    rw [List.perm_ext_iff_of_nodup (List.nodup_dedup _) (List.nodup_dedup _)]
    intro text
    rw [List.mem_dedup, List.mem_dedup, same]
  unfold sortedSet
  refine List.Perm.eq_of_pairwise ?_
    (List.pairwise_insertionSort _ _) (List.pairwise_insertionSort _ _)
    ((List.perm_insertionSort _ _).trans
      (permuted.trans (List.perm_insertionSort _ _).symm))
  intro earlier later _ _ before after
  exact le_antisymm ((Json.notAfter_iff _ _).mp before)
    ((Json.notAfter_iff _ _).mp after)

private theorem addScopes_known {scopes names : List Str}
    (known : ∀ name ∈ names, name ∈ knownScopes) :
    addScopes python scopes (names.map .string) = .ok (scopes ++ names) := by
  induction names generalizing scopes with
  | nil =>
      rw [List.append_nil]
      rfl
  | cons name names induction =>
      rw [List.map_cons, addScopes,
        if_pos (isAmong_iff.mpr (known name (by simp))),
        induction fun other member => known other (by simp [member])]
      rw [List.append_assoc]
      rfl

private theorem addScopes_ok {scopes result : List Str} {extra : List Json}
    (added : addScopes python scopes extra = .ok result) :
    ∃ names, result = scopes ++ names ∧ ∀ name ∈ names, name ∈ knownScopes := by
  induction extra generalizing scopes with
  | nil =>
      cases added
      exact ⟨[], (List.append_nil _).symm, by simp⟩
  | cons scope extra induction =>
      cases scope with
      | string name =>
          rw [addScopes] at added
          by_cases known : isAmong knownScopes name = true
          · rw [if_pos known] at added
            obtain ⟨names, rfl, others⟩ := induction added
            refine ⟨name :: names, by simp, ?_⟩
            intro other member
            rcases List.mem_cons.mp member with rfl | member
            · exact isAmong_iff.mp known
            · exact others other member
          · rw [if_neg known] at added
            cases added
      | null | bool _ | int _ | float _ | array _ | object _ => cases added

private theorem known_of_roles :
    ∀ entry ∈ roles, ∀ scope ∈ entry.2, scope ∈ knownScopes := by
  decide

private theorem roleScopes_known {role : Json} {scopes : List Str}
    (found : roleScopes role = .ok scopes) :
    ∀ name ∈ scopes, name ∈ knownScopes := by
  unfold roleScopes at found
  by_cases given : truthy role = true
  · rw [if_pos given] at found
    cases role with
    | string name =>
        injection found with same
        cases listed : roles.lookup name with
        | none =>
            rw [listed] at same
            subst same
            simp
        | some scopes' =>
            rw [listed] at same
            subst same
            obtain ⟨before, after, whole, _⟩ :=
              List.lookup_eq_some_iff.mp listed
            apply known_of_roles (name, scopes')
            rw [whole]
            simp
    | null | bool _ | int _ | float _ =>
        cases found
        simp
    | array _ | object _ => cases found
  · rw [if_neg given] at found
    cases found
    simp

/-- Scopes that were brought into their form keep it. -/
theorem normalizeScopes_stable {role : Json} {extra : List Json}
    {scopes : List Str}
    (normal : normalizeScopes python role extra = .ok scopes) :
    normalizeScopes python role (scopes.map .string) = .ok scopes := by
  obtain ⟨base, found, normal⟩ := Outcome.bind_eq_ok.mp normal
  obtain ⟨all, added, normal⟩ := Outcome.bind_eq_ok.mp normal
  obtain ⟨names, rfl, known⟩ := addScopes_ok python added
  have baseKnown := roleScopes_known found
  rw [normalizeScopes, found]
  dsimp only [Bind.bind, Except.bind]
  by_cases empty : (base ++ names).isEmpty = true
  · rw [if_pos empty] at normal
    cases normal
  · rw [if_neg empty] at normal
    by_cases every : isAmong (base ++ names) anyScope = true
    · rw [if_pos every] at normal
      cases normal
      have one : ∀ name ∈ [anyScope], name ∈ knownScopes := by
        decide
      rw [addScopes_known python one]
      dsimp only
      rw [if_neg (by simp), if_pos (isAmong_iff.mpr (by simp))]
      rfl
    · rw [if_neg every] at normal
      cases normal
      have listed : ∀ name ∈ sortedSet (base ++ names), name ∈ knownScopes := by
        intro name member
        rcases List.mem_append.mp (mem_sortedSet.mp member) with early | late
        · exact baseKnown name early
        · exact known name late
      have same : ∀ text, text ∈ base ++ sortedSet (base ++ names) ↔
          text ∈ base ++ names := by
        intro text
        rw [List.mem_append, mem_sortedSet, List.mem_append]
        tauto
      rw [addScopes_known python listed]
      dsimp only
      have some : ¬(base ++ sortedSet (base ++ names)).isEmpty = true := by
        rw [List.isEmpty_iff] at empty ⊢
        intro none
        apply empty
        apply List.eq_nil_iff_forall_not_mem.mpr
        intro text member
        have there := (same text).mpr member
        rw [none] at there
        cases there
      have never : ¬isAmong (base ++ sortedSet (base ++ names)) anyScope =
          true := by
        rw [isAmong_iff, same, ← isAmong_iff]
        exact every
      rw [if_neg some, if_neg never, sortedSet_congr same]
      rfl

private theorem credential_eq {item : Fields} {grant : Grant}
    (describes : Describes item grant) :
    credential python item =
      some ⟨grant.salt, grant.digest, defaultRounds⟩ := by
  rw [credential, describes.salt, describes.digest, describes.rounds]
  dsimp only [Json.asString?, Option.bind_some]
  rw [b64decode_encode, b64decode_encode]
  rfl

private theorem authorize_eq_some {item : Fields} {grant : Grant}
    (describes : Describes item grant) (tokenId scope : Str) :
    ∃ verdict, authorize item tokenId scope = some verdict ∧
      (verdict.ok ↔ grant.allows scope) := by
  have hashable : (grant.scopes.map Json.string).all isHashable = true := by
    rw [List.all_eq_true]
    intro value member
    obtain ⟨scope, _, rfl⟩ := List.mem_map.mp member
    rfl
  have sortable : isSortable (grant.scopes.map .string) = true := by
    have strings : (grant.scopes.map Json.string).all
        (·.asString?.isSome) = true := by
      rw [List.all_eq_true]
      intro value member
      obtain ⟨scope, _, rfl⟩ := List.mem_map.mp member
      rfl
    rw [isSortable, strings]
    rfl
  have member (name : Str) : Json.string name ∈ grant.scopes.map Json.string ↔
      name ∈ grant.scopes := by
    rw [List.mem_map]
    constructor
    · intro given
      obtain ⟨other, there, same⟩ := given
      rw [← Json.string.inj same]
      exact there
    · intro there
      exact ⟨name, there, rfl⟩
  have set : asSet ((Json.find? item (str "scopes")).getD (.array [])) =
      some (grant.scopes.map .string) := by
    rw [describes.scopes, Option.getD_some, asSet, if_pos hashable]
  rw [authorize, set, Option.bind_eq_bind, Option.bind_some, if_pos sortable]
  refine ⟨_, rfl, ?_⟩
  dsimp only
  rw [decide_eq_true_eq, member, member]
  rfl

/-- The secret of a grant, and no other, is taken for it. -/
theorem verifySecret_iff {item : Fields} {grant : Grant}
    (describes : Describes item grant) (tokenId secret scope : Str) :
    (∃ verdict, verifySecret python derivation item tokenId secret scope =
        some verdict ∧ verdict.ok) ↔
      (∃ bytes, utf8 secret = some bytes ∧
        derivation bytes grant.salt defaultRounds.toNat = grant.digest) ∧
        grant.allows scope := by
  obtain ⟨verdict, authorized, allowed⟩ :=
    authorize_eq_some describes tokenId scope
  have bounds : 1 ≤ defaultRounds ∧ defaultRounds ≤ maxRounds := by
    decide
  rw [verifySecret, credential_eq python describes]
  dsimp only
  rw [derive]
  cases encoded : utf8 secret with
  | none =>
      constructor
      · intro given
        obtain ⟨_, impossible, _⟩ := given
        cases impossible
      · intro given
        obtain ⟨⟨_, impossible, _⟩, _⟩ := given
        cases impossible
  | some bytes =>
      rw [Option.bind_eq_bind, Option.bind_eq_bind, Option.bind_some,
        if_pos bounds, Option.pure_def, Option.bind_some]
      by_cases same :
          derivation bytes grant.salt defaultRounds.toNat = grant.digest
      · rw [if_neg (not_not.mpr same), authorized]
        constructor
        · intro given
          obtain ⟨_, found, ok⟩ := given
          cases found
          exact ⟨⟨bytes, rfl, same⟩, allowed.mp ok⟩
        · intro given
          obtain ⟨_, allows⟩ := given
          exact ⟨verdict, rfl, allowed.mpr allows⟩
      · rw [if_pos same]
        constructor
        · intro given
          obtain ⟨_, found, ok⟩ := given
          cases found
          cases ok
        · intro given
          obtain ⟨⟨other, encodedOther, sameOther⟩, _⟩ := given
          cases encodedOther
          exact absurd sameOther same

theorem truthy_optional {date : Option Str} (dated : date ≠ some []) :
    truthy (optional date) = date.isSome := by
  cases date with
  | none => rfl
  | some text =>
      cases text with
      | nil => exact absurd rfl dated
      | cons first text => rfl

/-- The verifier answers from the ledger. -/
theorem accepts_iff {store : Fields} {ledger : Ledger}
    (separates : SeparatesSecrets derivation)
    (reflects : Reflects python derivation store ledger) (token scope : Str) :
    Accepts python derivation store token scope ↔
      ∃ tokenId grant, splitToken token = some (tokenId, grant.secret) ∧
        ledger tokenId = some grant ∧ grant.live ∧ grant.allows scope := by
  unfold Accepts verifyStored
  cases parts : splitToken token with
  | none =>
      constructor
      · intro given
        obtain ⟨_, same, ok⟩ := given
        cases same
        cases ok
      · intro given
        obtain ⟨_, _, impossible, _⟩ := given
        cases impossible
  | some part =>
      obtain ⟨tokenId, secret⟩ := part
      obtain ⟨tokens, table, entries⟩ := reflects.tokens
      have entry := entries tokenId
      dsimp only
      rw [if_neg (not_not.mpr reflects.schema), table]
      dsimp only [Json.asObject?]
      cases held : ledger tokenId with
      | none =>
          rw [held] at entry
          rw [show Json.get tokens tokenId = .null from entry]
          constructor
          · intro given
            obtain ⟨_, same, ok⟩ := given
            cases same
            cases ok
          · intro given
            obtain ⟨_, grant, same, other, _⟩ := given
            cases same
            rw [held] at other
            cases other
      | some grant =>
          rw [held] at entry
          obtain ⟨item, found, describes⟩ := entry
          have genuine := reflects.genuine tokenId grant held
          rw [found]
          dsimp only
          rw [describes.revoked, truthy_optional genuine.dated]
          have only {claim : Grant → Prop} : (∃ (otherId : Str) (other : Grant),
              some (tokenId, secret) = some (otherId, other.secret) ∧
                ledger otherId = some other ∧ claim other) ↔
              secret = grant.secret ∧ claim grant := by
            constructor
            · intro given
              obtain ⟨_, other, same, there, claimed⟩ := given
              cases same
              rw [held] at there
              cases there
              exact ⟨rfl, claimed⟩
            · intro given
              obtain ⟨same, claimed⟩ := given
              exact ⟨tokenId, grant, by rw [same], held, claimed⟩
          rw [only]
          by_cases revoked : grant.revokedAt.isSome = true
          · rw [if_pos revoked]
            have dead : grant.live = false := by
              rw [Grant.live, Option.isNone_eq_false_iff]
              exact revoked
            rw [dead]
            constructor
            · intro given
              obtain ⟨_, same, ok⟩ := given
              cases same
              cases ok
            · intro given
              obtain ⟨_, impossible, _⟩ := given
              cases impossible
          · rw [if_neg revoked, verifySecret_iff python derivation describes]
            have alive : grant.live = true := by
              rw [Grant.live, Option.isNone_iff_eq_none]
              exact Option.not_isSome_iff_eq_none.mp revoked
            obtain ⟨key, encoded, derived⟩ := genuine.derived
            rw [alive, and_iff_right rfl]
            apply and_congr_left
            intro _
            constructor
            · intro given
              obtain ⟨bytes, encodedSecret, same⟩ := given
              have equal := separates _ _ _ _ (same.trans derived.symm)
              rw [equal] at encodedSecret
              exact utf8_injective encodedSecret encoded
            · intro same
              rw [same]
              exact ⟨key, encoded, derived⟩

end PpcLab.Security
