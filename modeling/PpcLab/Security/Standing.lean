import PpcLab.Security.Updates

/-!
# Tokens that stand

The history of a store: which tokens were handed out, and which were withdrawn.
A token stands when it was handed out and not withdrawn since.  A store keeps
its history when the verifier accepts the tokens that stand and no others.
-/

namespace PpcLab.Security

/-- What a command did to a token. -/
inductive TokenEvent where
  | granted (issued : Issued)
  | withdrawn (tokenId : Str)

/-- A token was handed out and has not been withdrawn since. -/
def Stands (log : List TokenEvent) (issued : Issued) : Prop :=
  ∃ before after, log = before ++ .granted issued :: after ∧
    .withdrawn issued.tokenId ∉ after

def Issued.allows (issued : Issued) (scope : Str) : Prop :=
  anyScope ∈ issued.scopes ∨ scope ∈ issued.scopes

section Logs

variable {log : List TokenEvent} {issued : Issued}

theorem Stands.mem (stands : Stands log issued) : .granted issued ∈ log := by
  obtain ⟨before, after, rfl, _⟩ := stands
  simp

theorem not_stands_nil (issued : Issued) : ¬Stands [] issued := by
  intro stands
  cases stands.mem

private theorem snoc_eq {α : Type} {log before after : List α} {event mark : α}
    (same : log ++ [event] = before ++ mark :: after) :
    (after = [] ∧ before = log ∧ mark = event) ∨
      ∃ rest, after = rest ++ [event] ∧ log = before ++ mark :: rest := by
  rcases List.eq_nil_or_concat after with rfl | ⟨rest, last, rfl⟩
  · obtain ⟨rfl, ended⟩ := List.append_inj' same rfl
    exact Or.inl ⟨rfl, rfl, (List.cons.inj ended).1.symm⟩
  · rw [List.concat_eq_append, ← List.cons_append, ← List.append_assoc] at same
    obtain ⟨rfl, ended⟩ := List.append_inj' same rfl
    obtain rfl := (List.cons.inj ended).1
    exact Or.inr ⟨rest, List.concat_eq_append, rfl⟩

theorem stands_granted {other : Issued} :
    Stands (log ++ [.granted other]) issued ↔
      issued = other ∨ Stands log issued := by
  constructor
  · intro ⟨before, after, same, kept⟩
    rcases snoc_eq same with ⟨_, _, marked⟩ | ⟨rest, rfl, whole⟩
    · exact Or.inl (TokenEvent.granted.inj marked)
    · refine Or.inr ⟨before, rest, whole, ?_⟩
      intro member
      exact kept (List.mem_append_left _ member)
  · intro known
    rcases known with rfl | ⟨before, after, rfl, kept⟩
    · exact ⟨log, [], rfl, List.not_mem_nil⟩
    · refine ⟨before, after ++ [.granted other], by simp, ?_⟩
      intro member
      rcases List.mem_append.mp member with early | late
      · exact kept early
      · cases List.mem_singleton.mp late

theorem stands_withdrawn {tokenId : Str} :
    Stands (log ++ [.withdrawn tokenId]) issued ↔
      Stands log issued ∧ issued.tokenId ≠ tokenId := by
  constructor
  · intro ⟨before, after, same, kept⟩
    rcases snoc_eq same with ⟨_, _, marked⟩ | ⟨rest, rfl, whole⟩
    · cases marked
    · refine ⟨⟨before, rest, whole, ?_⟩, ?_⟩
      · intro member
        exact kept (List.mem_append_left _ member)
      · intro sameId
        apply kept
        rw [sameId]
        exact List.mem_append_right _ (List.mem_singleton.mpr rfl)
  · intro ⟨⟨before, after, whole, kept⟩, differ⟩
    refine ⟨before, after ++ [.withdrawn tokenId], by simp [whole], ?_⟩
    intro member
    rcases List.mem_append.mp member with early | late
    · exact kept early
    · exact differ (TokenEvent.withdrawn.inj (List.mem_singleton.mp late))

/-- Events about other tokens do not matter to a token. -/
theorem stands_append_iff {events : List TokenEvent}
    (notGranted : ∀ other, .granted other ∈ events → issued ≠ other)
    (notWithdrawn : ∀ tokenId, .withdrawn tokenId ∈ events →
      issued.tokenId ≠ tokenId) :
    Stands (log ++ events) issued ↔ Stands log issued := by
  induction events generalizing log with
  | nil => rw [List.append_nil]
  | cons event events induction =>
      rw [List.append_cons,
        induction (fun other member => notGranted other (by simp [member]))
          (fun tokenId member => notWithdrawn tokenId (by simp [member]))]
      cases event with
      | granted other =>
          have differ := notGranted other (by simp)
          rw [stands_granted, or_iff_right differ]
      | withdrawn tokenId =>
          have differ := notWithdrawn tokenId (by simp)
          rw [stands_withdrawn, and_iff_left differ]

end Logs

/-- A grant of the ledger is what was handed out. -/
structure Matches (grant : Grant) (tokenId : Str) (issued : Issued) : Prop where
  tokenId : issued.tokenId = tokenId
  secret : issued.secret = grant.secret
  scopes : issued.scopes = grant.scopes

/-- A ledger and the history that led to it. -/
structure Records (log : List TokenEvent) (ledger : Ledger) : Prop where
  plain : ∀ issued, .granted issued ∈ log → 0x2e ∉ issued.tokenId
  known : ∀ issued, .granted issued ∈ log → ledger issued.tokenId ≠ none
  entered : ∀ tokenId grant, ledger tokenId = some grant →
    ∃ issued, .granted issued ∈ log ∧ issued.tokenId = tokenId
  live : ∀ tokenId grant, ledger tokenId = some grant → grant.live →
    ∃ issued, Stands log issued ∧ Matches grant tokenId issued
  stands : ∀ issued, Stands log issued → ∃ grant,
    ledger issued.tokenId = some grant ∧ grant.live ∧
      Matches grant issued.tokenId issued
  withdrawn : ∀ tokenId, .withdrawn tokenId ∈ log ↔
    ∃ grant, ledger tokenId = some grant ∧ grant.live = false

section Ledgers

variable {log : List TokenEvent} {ledger : Ledger}

theorem records_nil : Records [] fun _ => none where
  plain _ impossible := by cases impossible
  known _ impossible := by cases impossible
  entered _ _ impossible := by cases impossible
  live _ _ impossible := by cases impossible
  stands issued impossible := absurd impossible (not_stands_nil issued)
  withdrawn tokenId := by
    constructor
    · intro impossible
      cases impossible
    · intro ⟨_, impossible, _⟩
      cases impossible

/-- A token that is handed out under an identifier that is not in use. -/
theorem Records.grant (records : Records log ledger) {request : Request}
    (fresh : ledger request.draws.tokenId = none) (scopes : List Str)
    (digest : List Byte) :
    Records (log ++ [.granted (issuedTo request scopes)])
      (ledger.set request.draws.tokenId (granted request scopes digest)) := by
  have itself : Matches (granted request scopes digest) request.draws.tokenId
      (issuedTo request scopes) := ⟨rfl, rfl, rfl⟩
  refine ⟨?_, ?_, ?_, ?_, ?_, ?_⟩
  · intro issued member
    rcases List.mem_append.mp member with early | late
    · exact records.plain issued early
    · cases List.mem_singleton.mp late
      exact request.draws.plain
  · intro issued member absent
    by_cases same : issued.tokenId = request.draws.tokenId
    · rw [same, Ledger.set_self] at absent
      cases absent
    · rw [Ledger.set_of_ne _ _ same] at absent
      rcases List.mem_append.mp member with early | late
      · exact records.known issued early absent
      · cases List.mem_singleton.mp late
        exact same rfl
  · intro tokenId grant held
    by_cases same : tokenId = request.draws.tokenId
    · exact ⟨issuedTo request scopes, by simp, same.symm⟩
    · rw [Ledger.set_of_ne _ _ same] at held
      obtain ⟨issued, member, equal⟩ := records.entered tokenId grant held
      exact ⟨issued, List.mem_append_left _ member, equal⟩
  · intro tokenId grant held live
    by_cases same : tokenId = request.draws.tokenId
    · subst same
      rw [Ledger.set_self] at held
      cases held
      exact ⟨_, stands_granted.mpr (Or.inl rfl), itself⟩
    · rw [Ledger.set_of_ne _ _ same] at held
      obtain ⟨issued, stands, equal⟩ := records.live tokenId grant held live
      exact ⟨issued, stands_granted.mpr (Or.inr stands), equal⟩
  · intro issued stands
    rcases stands_granted.mp stands with rfl | stands
    · exact ⟨_, Ledger.set_self _ _ _, rfl, itself⟩
    · have differ : issued.tokenId ≠ request.draws.tokenId := by
        intro same
        apply records.known issued stands.mem
        rw [same]
        exact fresh
      rw [Ledger.set_of_ne _ _ differ]
      exact records.stands issued stands
  · intro tokenId
    have old : .withdrawn tokenId ∈
        log ++ [.granted (issuedTo request scopes)] ↔
          TokenEvent.withdrawn tokenId ∈ log := by
      simp
    rw [old, records.withdrawn]
    by_cases same : tokenId = request.draws.tokenId
    · subst same
      rw [Ledger.set_self, fresh]
      constructor
      · intro ⟨_, impossible, _⟩
        cases impossible
      · intro ⟨_, held, dead⟩
        cases held
        cases dead
    · rw [Ledger.set_of_ne _ _ same]

/-- A grant that is revoked. -/
theorem Records.withdraw (records : Records log ledger) {tokenId : Str}
    {grant : Grant} (held : ledger tokenId = some grant) (clock : Clock) :
    Records (log ++ [.withdrawn tokenId])
      (ledger.set tokenId (grant.revoked clock)) := by
  have before {issued : Issued}
      (member : .granted issued ∈ log ++ [.withdrawn tokenId]) :
      .granted issued ∈ log := by
    rcases List.mem_append.mp member with early | late
    · exact early
    · cases List.mem_singleton.mp late
  have after {issued : Issued} (member : .granted issued ∈ log) :
      .granted issued ∈ log ++ [.withdrawn tokenId] :=
    List.mem_append_left _ member
  refine ⟨fun issued member => records.plain issued (before member), ?_, ?_, ?_,
    ?_, ?_⟩
  · intro issued member absent
    by_cases same : issued.tokenId = tokenId
    · rw [same, Ledger.set_self] at absent
      cases absent
    · rw [Ledger.set_of_ne _ _ same] at absent
      exact records.known issued (before member) absent
  · intro other otherGrant heldOther
    by_cases same : other = tokenId
    · obtain ⟨issued, member, equal⟩ := records.entered tokenId grant held
      exact ⟨issued, after member, equal.trans same.symm⟩
    · rw [Ledger.set_of_ne _ _ same] at heldOther
      obtain ⟨issued, member, equal⟩ :=
        records.entered other otherGrant heldOther
      exact ⟨issued, after member, equal⟩
  · intro other otherGrant held live
    by_cases same : other = tokenId
    · subst same
      rw [Ledger.set_self] at held
      cases held
      cases live
    · rw [Ledger.set_of_ne _ _ same] at held
      obtain ⟨issued, stands, equal⟩ :=
        records.live other otherGrant held live
      refine ⟨issued, stands_withdrawn.mpr ⟨stands, ?_⟩, equal⟩
      rw [equal.tokenId]
      exact same
  · intro issued stands
    obtain ⟨stands, differ⟩ := stands_withdrawn.mp stands
    rw [Ledger.set_of_ne _ _ differ]
    exact records.stands issued stands
  · intro other
    by_cases same : other = tokenId
    · subst same
      rw [Ledger.set_self]
      constructor
      · intro _
        exact ⟨_, rfl, rfl⟩
      · intro _
        simp
    · rw [Ledger.set_of_ne _ _ same, ← records.withdrawn]
      simp [same]

/-- A token is withdrawn that does not stand any more. -/
theorem Records.withdraw_dead (records : Records log ledger) {tokenId : Str}
    {grant : Grant} (held : ledger tokenId = some grant)
    (dead : grant.live = false) :
    Records (log ++ [.withdrawn tokenId]) ledger := by
  have before {issued : Issued}
      (member : .granted issued ∈ log ++ [.withdrawn tokenId]) :
      .granted issued ∈ log := by
    rcases List.mem_append.mp member with early | late
    · exact early
    · cases List.mem_singleton.mp late
  refine ⟨fun issued member => records.plain issued (before member),
    fun issued member => records.known issued (before member), ?_, ?_, ?_, ?_⟩
  · intro other otherGrant heldOther
    obtain ⟨issued, member, equal⟩ := records.entered other otherGrant heldOther
    exact ⟨issued, List.mem_append_left _ member, equal⟩
  · intro other otherGrant heldOther live
    obtain ⟨issued, stands, equal⟩ :=
      records.live other otherGrant heldOther live
    refine ⟨issued, stands_withdrawn.mpr ⟨stands, ?_⟩, equal⟩
    intro same
    rw [equal.tokenId] at same
    subst same
    rw [held] at heldOther
    cases heldOther
    rw [dead] at live
    cases live
  · intro issued stands
    exact records.stands issued (stands_withdrawn.mp stands).1
  · intro other
    rw [← records.withdrawn]
    constructor
    · intro member
      rcases List.mem_append.mp member with early | late
      · exact early
      · obtain rfl := TokenEvent.withdrawn.inj (List.mem_singleton.mp late)
        exact (records.withdrawn other).mpr ⟨grant, held, dead⟩
    · intro early
      exact List.mem_append_left _ early

end Ledgers

section Stores

variable (python : Python) (derivation : Derivation)

/-- A store keeps a history: some ledger is behind both. -/
def Keeps (store : Fields) (log : List TokenEvent) : Prop :=
  ∃ ledger, Reflects python derivation store ledger ∧ Records log ledger

theorem initStore_keeps (now : Str) :
    Keeps python derivation (initStore now) [] :=
  ⟨_, initStore_reflects now, records_nil⟩

private theorem splitToken_eq_some {token tokenId secret : Str} :
    splitToken token = some (tokenId, secret) ↔
      token = tokenId ++ 0x2e :: secret ∧ 0x2e ∉ tokenId := by
  constructor
  · intro parted
    rw [splitToken] at parted
    split at parted
    · cases parted
    · rename_i point rest after
      cases parted
      have whole :=
        List.takeWhile_append_dropWhile (p := (· ≠ 0x2e)) (l := token)
      have stopped : point = 0x2e := by
        have head := List.head?_dropWhile_not (fun c => decide (c ≠ 0x2e)) token
        rw [after] at head
        simpa using head
      rw [after, stopped] at whole
      refine ⟨whole.symm, ?_⟩
      intro member
      have differ := List.all_eq_true.mp List.all_takeWhile _ member
      simp at differ
  · intro given
    obtain ⟨same, plain⟩ := given
    have kept : ∀ character ∈ tokenId, decide (character ≠ 0x2e) = true := by
      intro character member
      apply decide_eq_true
      rintro rfl
      exact plain member
    rw [splitToken, same, List.dropWhile_append_of_pos kept,
      List.takeWhile_append_of_pos kept]
    simp

variable {python derivation}

/-- The verifier accepts the tokens that stand. -/
theorem Keeps.accepts_iff {store : Fields} {log : List TokenEvent}
    (separates : SeparatesSecrets derivation)
    (keeps : Keeps python derivation store log) (token scope : Str) :
    Accepts python derivation store token scope ↔
      ∃ issued, Stands log issued ∧ token = issued.token ∧
        issued.allows scope := by
  obtain ⟨ledger, reflects, records⟩ := keeps
  rw [Security.accepts_iff python derivation separates reflects]
  constructor
  · intro ⟨tokenId, grant, parts, held, live, allows⟩
    obtain ⟨issued, stands, equal⟩ := records.live tokenId grant held live
    refine ⟨issued, stands, ?_, ?_⟩
    · rw [Issued.token, equal.tokenId, equal.secret]
      exact (splitToken_eq_some.mp parts).1
    · rw [Issued.allows, equal.scopes]
      exact allows
  · intro ⟨issued, stands, same, allows⟩
    obtain ⟨grant, held, live, equal⟩ := records.stands issued stands
    refine ⟨issued.tokenId, grant, ?_, held, live, ?_⟩
    · apply splitToken_eq_some.mpr
      rw [same, ← equal.secret]
      exact ⟨rfl, records.plain issued stands.mem⟩
    · rw [Grant.allows, ← equal.scopes]
      exact allows

end Stores

end PpcLab.Security
