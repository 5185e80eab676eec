import PpcLab.Security.Tokens

/-!
# Valid tokens

What makes a token valid for a scope, without the steps of the verifier, and
what the verifier needs of the store to have an answer.  Where it answers, it
answers that the token is valid exactly when it is.
-/

namespace PpcLab.Security

variable (python : Python) (derivation : Derivation)

/-- The store keeps a record under an identifier. -/
def Holds (store : StoredFile) (tokenId : Str) (item : Fields) : Prop :=
  ∃ text doc tokens, store = .text text ∧
    python.loads text = some (.object doc) ∧
    Json.get doc (str "schema") = .string storeSchema ∧
    Json.get doc (str "tokens") = .object tokens ∧
    Json.get tokens tokenId = .object item

/-- The key of a record was derived from a secret. -/
def Authentic (item : Fields) (secret : Str) : Prop :=
  ∃ stored bytes, credential python item = some stored ∧
    utf8 secret = some bytes ∧
    derivation bytes stored.salt stored.rounds.toNat = stored.digest

def scopesOf (item : Fields) : Option (List Json) :=
  asSet ((Json.find? item (str "scopes")).getD (.array []))

def Grants (item : Fields) (scope : Str) : Prop :=
  ∃ scopes, scopesOf item = some scopes ∧
    (.string (str "*") ∈ scopes ∨ .string scope ∈ scopes)

def Revoked (item : Fields) : Prop :=
  truthy (Json.get item (str "revoked_at"))

/-- The record of a live token with the right secret grants the scope. -/
def ValidToken (store : StoredFile) (token scope : Str) : Prop :=
  ∃ tokenId secret item, splitToken token = some (tokenId, secret) ∧
    Holds python store tokenId item ∧ ¬Revoked item ∧
    Authentic python derivation item secret ∧ Grants item scope

/-- A record that the verifier has an answer for. -/
structure UsableRecord (item : Fields) (secret : Str) : Prop where
  rounds : ∀ stored, credential python item = some stored →
    1 ≤ stored.rounds ∧ stored.rounds ≤ maxRounds
  scopes : Authentic python derivation item secret →
    ∃ scopes, scopesOf item = some scopes ∧ isSortable scopes

/-- A store that the verifier has an answer from. -/
structure UsableStore (store : StoredFile) (tokenId secret : Str) : Prop where
  decodable : store ≠ .undecodable
  dictionary : ∀ text value, store = .text text →
    python.loads text = some value → ∃ doc, value = .object doc
  record : ∀ item, Holds python store tokenId item → ¬Revoked item →
    UsableRecord python derivation item secret

private theorem authorize_eq (item : Fields) (tokenId required : Str) :
    authorize item tokenId required = (scopesOf item).bind fun scopes =>
      if isSortable scopes then
        some ⟨decide (.string (str "*") ∈ scopes ∨ .string required ∈ scopes),
          str (if decide (.string (str "*") ∈ scopes ∨
            .string required ∈ scopes) then "ok" else "insufficient-scope"),
          some tokenId⟩
      else none :=
  rfl

private theorem ok_authorize {item : Fields} {tokenId required : Str}
    {verdict : Verdict} (answer : authorize item tokenId required = some verdict) :
    verdict.ok ↔ Grants item required := by
  rw [authorize_eq] at answer
  obtain ⟨scopes, found, answer⟩ := Option.bind_eq_some_iff.mp answer
  split at answer
  · cases answer
    rw [decide_eq_true_eq]
    constructor
    · intro granted
      exact ⟨scopes, found, granted⟩
    · rintro ⟨others, same, granted⟩
      rw [found] at same
      cases same
      exact granted
  · cases answer

private theorem isSome_authorize (item : Fields) (tokenId required : Str) :
    (authorize item tokenId required).isSome ↔
      ∃ scopes, scopesOf item = some scopes ∧ isSortable scopes := by
  rw [authorize_eq]
  cases found : scopesOf item with
  | none => simp
  | some scopes =>
      rw [Option.bind_some]
      by_cases sortable : isSortable scopes <;> simp [sortable]

private theorem derive_eq_some {secret : Str} {salt key : List Byte}
    {rounds : Int} (derived : derive derivation secret salt rounds = some key) :
    1 ≤ rounds ∧ rounds ≤ maxRounds ∧ ∃ bytes, utf8 secret = some bytes ∧
      derivation bytes salt rounds.toNat = key := by
  obtain ⟨bytes, encoded, derived⟩ := Option.bind_eq_some_iff.mp derived
  split at derived
  · rename_i bounds
    exact ⟨bounds.1, bounds.2, bytes, encoded, Option.some.inj derived⟩
  · cases derived

private theorem ok_verifySecret {item : Fields}
    {tokenId secret required : Str} {verdict : Verdict}
    (answer : verifySecret python derivation item tokenId secret required =
      some verdict) :
    verdict.ok ↔
      Authentic python derivation item secret ∧ Grants item required := by
  unfold verifySecret at answer
  split at answer
  · rename_i unknown
    cases answer
    constructor
    · nofun
    · rintro ⟨⟨stored, _, known, _⟩, _⟩
      rw [unknown] at known
      cases known
  · rename_i stored known
    obtain ⟨actual, derived, answer⟩ := Option.bind_eq_some_iff.mp answer
    obtain ⟨_, _, bytes, encoded, key⟩ := derive_eq_some derivation derived
    have authentic : Authentic python derivation item secret ↔
        actual = stored.digest := by
      constructor
      · rintro ⟨other, otherBytes, same, sameBytes, matching⟩
        rw [known] at same
        cases same
        rw [encoded] at sameBytes
        cases sameBytes
        rw [← key, matching]
      · intro same
        exact ⟨stored, bytes, known, encoded, key.trans same⟩
    split at answer
    · rename_i differ
      cases answer
      constructor
      · nofun
      · rintro ⟨held, _⟩
        exact absurd (authentic.mp held) differ
    · rename_i same
      rw [ok_authorize answer]
      exact (and_iff_right (authentic.mpr (not_not.mp same))).symm

private theorem isSome_verifySecret {item : Fields} {secret : Str}
    {bytes : List Byte} (encoded : utf8 secret = some bytes)
    (tokenId required : Str) :
    (verifySecret python derivation item tokenId secret required).isSome ↔
      UsableRecord python derivation item secret := by
  unfold verifySecret
  split
  · rename_i unknown
    refine iff_of_true rfl ⟨?_, ?_⟩
    · intro stored known
      rw [unknown] at known
      cases known
    · rintro ⟨stored, _, known, _⟩
      rw [unknown] at known
      cases known
  · rename_i stored known
    rw [derive, encoded, Option.bind_eq_bind, Option.bind_eq_bind,
      Option.bind_some]
    split
    · rename_i bounds
      have authentic : Authentic python derivation item secret ↔
          derivation bytes stored.salt stored.rounds.toNat = stored.digest := by
        constructor
        · rintro ⟨other, otherBytes, same, sameBytes, matching⟩
          rw [known] at same
          cases same
          rw [encoded] at sameBytes
          cases sameBytes
          exact matching
        · intro same
          exact ⟨stored, bytes, known, encoded, same⟩
      have rounds : ∀ other, credential python item = some other →
          1 ≤ other.rounds ∧ other.rounds ≤ maxRounds := by
        intro other same
        rw [known] at same
        cases same
        exact bounds
      rw [Option.pure_def, Option.bind_some]
      split
      · rename_i differ
        exact iff_of_true rfl
          ⟨rounds, fun held => absurd (authentic.mp held) differ⟩
      · rename_i same
        rw [isSome_authorize]
        constructor
        · intro scopes
          exact ⟨rounds, fun _ => scopes⟩
        · intro usable
          exact usable.scopes (authentic.mpr (not_not.mp same))
    · rename_i outside
      refine iff_of_false (by simp) ?_
      intro usable
      exact outside (usable.rounds stored known)

private theorem utf8_secret {token tokenId secret : Str} {bytes : List Byte}
    (parted : splitToken token = some (tokenId, secret))
    (encoded : utf8 token = some bytes) :
    ∃ rest, utf8 secret = some rest := by
  rw [splitToken] at parted
  split at parted
  · cases parted
  · rename_i point rest after
    cases parted
    have whole := List.takeWhile_append_dropWhile (p := (· ≠ 0x2e)) (l := token)
    rw [after] at whole
    rw [← whole] at encoded
    rw [List.append_cons] at encoded
    exact exists_utf8_of_append encoded

private theorem eq_object_of_asObject? {value : Json} {fields : Fields}
    (found : value.asObject? = some fields) : value = .object fields := by
  cases value with
  | object members => exact congrArg _ (Option.some.inj found)
  | _ => cases found

private theorem holds_unique {store : StoredFile} {tokenId : Str}
    {item other : Fields} (holds : Holds python store tokenId item)
    (otherHolds : Holds python store tokenId other) : item = other := by
  obtain ⟨text, doc, tokens, rfl, loaded, _, table, found⟩ := holds
  obtain ⟨_, otherDoc, others, same, otherLoaded, _, otherTable, otherFound⟩ :=
    otherHolds
  cases same
  rw [loaded] at otherLoaded
  cases otherLoaded
  rw [table] at otherTable
  cases otherTable
  rw [found] at otherFound
  exact Json.object.inj otherFound

private theorem object_of_holds {text tokenId : Str} {item : Fields}
    (holds : Holds python (.text text) tokenId item) :
    ∃ doc tokens, python.loads text = some (.object doc) ∧
      Json.get doc (str "schema") = .string storeSchema ∧
      Json.get doc (str "tokens") = .object tokens ∧
      Json.get tokens tokenId = .object item := by
  obtain ⟨_, doc, tokens, same, held⟩ := holds
  cases same
  exact ⟨doc, tokens, held⟩

private theorem loadStore_of_loads {text : Str} {doc : Fields}
    (loaded : python.loads text = some (.object doc)) :
    loadStore python (.text text) =
      if Json.get doc (str "schema") ≠ .string storeSchema then some none
      else some (Json.get doc (str "tokens")).asObject? := by
  rw [loadStore, loaded]
  rfl

/-- A store without a readable dictionary of its own has no answer. -/
theorem loadStore_eq_none (store : StoredFile) :
    loadStore python store = none ↔ ¬(store ≠ .undecodable ∧
      ∀ text value, store = .text text → python.loads text = some value →
        ∃ doc, value = .object doc) := by
  cases store with
  | missing | unreadable =>
      exact iff_of_false nofun fun unusable => unusable ⟨nofun, nofun⟩
  | undecodable => exact iff_of_true rfl fun usable => usable.1 rfl
  | text text =>
      rw [loadStore]
      cases loaded : python.loads text with
      | none =>
          refine iff_of_false nofun fun unusable => unusable ⟨nofun, ?_⟩
          intro other value same found
          cases same
          rw [loaded] at found
          cases found
      | some value =>
          dsimp only
          cases members : value.asObject? with
          | none =>
              refine iff_of_true rfl ?_
              rintro ⟨_, dictionary⟩
              obtain ⟨doc, rfl⟩ := dictionary text value rfl loaded
              cases members
          | some doc =>
              refine iff_of_false ?_ fun unusable => unusable ⟨nofun, ?_⟩
              · rw [Option.bind_eq_bind, Option.bind_some]
                split <;> nofun
              · intro other found same there
                cases same
                rw [loaded] at there
                cases there
                exact ⟨doc, eq_object_of_asObject? members⟩

/-- A store that is read holds what its table holds. -/
private theorem holds_iff {store : StoredFile} {table : Option Fields}
    (read : loadStore python store = some table) (tokenId : Str)
    (item : Fields) :
    Holds python store tokenId item ↔
      ∃ tokens, table = some tokens ∧
        Json.get tokens tokenId = .object item := by
  cases store with
  | missing | unreadable =>
      cases read
      constructor
      · rintro ⟨_, _, _, same, _⟩
        cases same
      · rintro ⟨_, same, _⟩
        cases same
  | undecodable => cases read
  | text text =>
      constructor
      · intro holds
        obtain ⟨doc, tokens, loaded, schema, there, found⟩ :=
          object_of_holds python holds
        rw [loadStore_of_loads python loaded, if_neg (not_not.mpr schema),
          there] at read
        exact ⟨tokens, (Option.some.inj read).symm, found⟩
      · rintro ⟨tokens, rfl, found⟩
        have there := read
        rw [loadStore] at there
        cases loaded : python.loads text with
        | none =>
            rw [loaded] at there
            cases there
        | some value =>
            rw [loaded] at there
            obtain ⟨doc, isObject, _⟩ := Option.bind_eq_some_iff.mp there
            cases eq_object_of_asObject? isObject
            rw [loadStore_of_loads python loaded] at read
            split at read
            · cases read
            · rename_i schema
              exact ⟨text, doc, tokens, rfl, loaded, not_not.mp schema,
                eq_object_of_asObject? (Option.some.inj read), found⟩

/-- An answer says whether the token is valid. -/
theorem ok_verifyToken {store : StoredFile} {token required : Str}
    {verdict : Verdict}
    (answer : verifyToken python derivation store token required =
      some verdict) :
    verdict.ok ↔ ValidToken python derivation store token required := by
  unfold verifyToken at answer
  cases parted : splitToken token with
  | none =>
      rw [parted] at answer
      cases answer
      constructor
      · nofun
      · rintro ⟨tokenId, secret, _, same, _⟩
        rw [parted] at same
        cases same
  | some parts =>
      obtain ⟨tokenId, secret⟩ := parts
      rw [parted] at answer
      have alone (item : Fields) (holds : Holds python store tokenId item) :
          ValidToken python derivation store token required ↔ ¬Revoked item ∧
            Authentic python derivation item secret ∧ Grants item required := by
        constructor
        · rintro ⟨_, _, other, same, otherHolds, live, rest⟩
          rw [parted] at same
          cases same
          cases holds_unique python holds otherHolds
          exact ⟨live, rest⟩
        · rintro ⟨live, rest⟩
          exact ⟨tokenId, secret, item, parted, holds, live, rest⟩
      have nobody (absent : ∀ item, ¬Holds python store tokenId item) :
          ¬ValidToken python derivation store token required := by
        rintro ⟨_, _, item, same, holds, _⟩
        rw [parted] at same
        cases same
        exact absent item holds
      obtain ⟨table, read, answer⟩ := Option.bind_eq_some_iff.mp answer
      have holds := holds_iff python read tokenId
      cases table with
      | none =>
          cases answer
          refine iff_of_false nofun (nobody ?_)
          intro item held
          obtain ⟨_, same, _⟩ := (holds item).mp held
          cases same
      | some tokens =>
          dsimp only at answer
          cases found : (Json.get tokens tokenId).asObject? with
          | none =>
              rw [found] at answer
              cases answer
              refine iff_of_false nofun (nobody ?_)
              intro item held
              obtain ⟨_, same, there⟩ := (holds item).mp held
              cases same
              rw [there] at found
              cases found
          | some item =>
              have held := (holds item).mpr
                ⟨tokens, rfl, eq_object_of_asObject? found⟩
              rw [found] at answer
              dsimp only at answer
              rw [alone item held]
              split at answer
              · rename_i revoked
                cases answer
                exact iff_of_false nofun fun valid => valid.1 revoked
              · rename_i live
                rw [ok_verifySecret python derivation answer]
                exact (and_iff_right live).symm

/-- There is an answer for a token of a usable store. -/
theorem isSome_verifyToken (store : StoredFile) {token : Str} {bytes : List Byte}
    (encoded : utf8 token = some bytes) (required : Str) :
    (verifyToken python derivation store token required).isSome ↔
      ∀ tokenId secret, splitToken token = some (tokenId, secret) →
        UsableStore python derivation store tokenId secret := by
  unfold verifyToken
  cases parted : splitToken token with
  | none => exact iff_of_true rfl nofun
  | some parts =>
      obtain ⟨tokenId, secret⟩ := parts
      dsimp only
      have single : (∀ otherId other,
          some (tokenId, secret) = some (otherId, other) →
            UsableStore python derivation store otherId other) ↔
          UsableStore python derivation store tokenId secret := by
        constructor
        · intro all
          exact all tokenId secret rfl
        · rintro usable _ _ same
          cases same
          exact usable
      rw [single]
      obtain ⟨secretBytes, secretEncoded⟩ := utf8_secret parted encoded
      cases read : loadStore python store with
      | none =>
          refine iff_of_false nofun ?_
          intro usable
          exact (loadStore_eq_none python store).mp read
            ⟨usable.decodable, usable.dictionary⟩
      | some table =>
          have holds := holds_iff python read tokenId
          have readable := not_not.mp <|
            (loadStore_eq_none python store).not.mp (read ▸ nofun)
          rw [Option.bind_eq_bind, Option.bind_some]
          cases table with
          | none =>
              refine iff_of_true rfl ⟨readable.1, readable.2, ?_⟩
              intro item held
              obtain ⟨_, same, _⟩ := (holds item).mp held
              cases same
          | some tokens =>
              dsimp only
              cases found : (Json.get tokens tokenId).asObject? with
              | none =>
                  refine iff_of_true rfl ⟨readable.1, readable.2, ?_⟩
                  intro item held
                  obtain ⟨_, same, there⟩ := (holds item).mp held
                  cases same
                  rw [there] at found
                  cases found
              | some item =>
                  have held := (holds item).mpr
                    ⟨tokens, rfl, eq_object_of_asObject? found⟩
                  dsimp only
                  split
                  · rename_i revoked
                    refine iff_of_true rfl ⟨readable.1, readable.2, ?_⟩
                    intro other otherHeld live
                    cases holds_unique python held otherHeld
                    exact absurd revoked live
                  · rename_i live
                    rw [isSome_verifySecret python derivation secretEncoded]
                    constructor
                    · intro usable
                      refine ⟨readable.1, readable.2, ?_⟩
                      intro other otherHeld _
                      cases holds_unique python held otherHeld
                      exact usable
                    · intro usable
                      exact usable.record item held live

end PpcLab.Security
