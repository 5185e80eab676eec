import PpcLab.Evidence.Moves

/-!
# Integrity of the evidence store

Every committed row has its object, whatever call died at whatever point, and
a document that has been ingested once leaves the rows as they are when it is
ingested again.
-/

namespace PpcLab.Evidence

variable {δ : Type} [DecidableEq δ]

section Integrity

variable (sha256 : List Byte → δ)

/-- The object of a row has its hash and its length. -/
def HasObject (objects : Objects δ) (row : Artifact δ) : Prop :=
  ∃ object, objects.lookup row.sha256 = some object ∧
    sha256 object.2.bytes = row.sha256 ∧
    object.2.bytes.length = row.canonicalSize

def Intact (database : Database δ) (objects : Objects δ) : Prop :=
  ∀ row, database.artifacts.lookup row.sha256 = some row →
    HasObject sha256 objects row

/-- Rows are not lost. -/
def Extends (before after : Database δ) : Prop :=
  ∀ digest row, before.artifacts.lookup digest = some row →
    after.artifacts.lookup digest = some row

/-- How far a call is with a document. -/
inductive Stage (committed : Database δ) (objects : Objects δ)
    (session : Session δ) : Prop where
  | settled : Intact sha256 session.database objects →
      (∀ operation ∈ session.pending, operation.Belongs) →
      Stage committed objects session
  | inserts {row : Artifact δ} {canonical : Canonical}
      {rest : List (Operation δ)} :
      session.pending = .insertArtifact row ::
        .writeObject row.sha256 canonical :: rest →
      (∀ operation ∈ rest, operation.Belongs) →
      sha256 canonical.bytes = row.sha256 → canonical.bytes.length = row.canonicalSize →
      session.database.artifacts.lookup row.sha256 = none →
      Intact sha256 session.database objects →
      Stage committed objects session
  | writes {row : Artifact δ} {canonical : Canonical}
      {rest : List (Operation δ)} :
      session.pending = .writeObject row.sha256 canonical :: rest →
      (∀ operation ∈ rest, operation.Belongs) →
      sha256 canonical.bytes = row.sha256 → canonical.bytes.length = row.canonicalSize →
      committed.artifacts.lookup row.sha256 = none →
      session.database.artifacts.lookup row.sha256 = some row →
      (∀ other, session.database.artifacts.lookup other.sha256 = some other →
        other.sha256 ≠ row.sha256 → HasObject sha256 objects other) →
      Stage committed objects session

structure Sound (store : Store δ) : Prop where
  committed : Intact sha256 store.committed store.objects
  onward : ∀ session ∈ store.session,
    Extends store.committed session.database
  stage : ∀ session ∈ store.session,
    Stage sha256 store.committed store.objects session

variable {sha256}

theorem Sound.initialized : Sound sha256 (Store.initialized (δ := δ)) := by
  refine ⟨?_, ?_, ?_⟩
  · intro row found
    cases found
  · intro session running
    cases running
  · intro session running
    cases running

private theorem HasObject.put {objects : Objects δ} {row : Artifact δ}
    (has : HasObject sha256 objects row) {digest : δ} {canonical : Canonical}
    (other : row.sha256 ≠ digest) :
    HasObject sha256 (objects.put (digest, canonical)) row := by
  obtain ⟨object, found, hash, size⟩ := has
  refine ⟨object, ?_, hash, size⟩
  rw [Keyed.lookup_put_of_ne _ other, found]

private theorem hasObject_put {objects : Objects δ} {row : Artifact δ}
    {canonical : Canonical} (hash : sha256 canonical.bytes = row.sha256)
    (size : canonical.bytes.length = row.canonicalSize) :
    HasObject sha256 (objects.put (row.sha256, canonical)) row :=
  ⟨(row.sha256, canonical), Keyed.lookup_put_self _ _, hash, size⟩

private theorem intact_put {committed : Database δ} {objects : Objects δ}
    {digest : δ} {canonical : Canonical}
    (absent : committed.artifacts.lookup digest = none)
    (intact : Intact sha256 committed objects) :
    Intact sha256 committed (objects.put (digest, canonical)) := by
  intro row found
  apply (intact row found).put
  intro same
  rw [same, absent] at found
  cases found

private theorem artifacts_of_belongs {operation : Operation δ}
    (belongs : operation.Belongs) (database : Database δ) :
    (operation.database database).artifacts = database.artifacts := by
  cases operation with
  | insertArtifact row => cases belongs
  | _ => rfl

private theorem objects_of_belongs {operation : Operation δ}
    (belongs : operation.Belongs) (objects : Objects δ) :
    operation.objects objects = objects := by
  cases operation with
  | writeObject digest canonical => cases belongs
  | _ => rfl

/-- The next operation of a call keeps what is committed and the stage. -/
private theorem Stage.perform {committed : Database δ} {objects : Objects δ}
    {session : Session δ} {operation : Operation δ}
    {pending : List (Operation δ)}
    (stage : Stage sha256 committed objects session)
    (intact : Intact sha256 committed objects)
    (onward : Extends committed session.database)
    (next : session.pending = operation :: pending) :
    Intact sha256 committed (operation.objects objects) ∧
      Extends committed (operation.database session.database) ∧
      Stage sha256 committed (operation.objects objects)
        { session with
          pending := pending
          database := operation.database session.database } := by
  cases stage with
  | settled whole belong =>
      rw [next] at belong
      have belongs := belong operation List.mem_cons_self
      have sameRows := artifacts_of_belongs belongs session.database
      rw [objects_of_belongs belongs]
      refine ⟨intact, ?_, .settled ?_ ?_⟩
      · intro digest row found
        rw [sameRows]
        exact onward digest row found
      · intro row found
        rw [sameRows] at found
        exact whole row found
      · intro other member
        exact belong other (List.mem_cons_of_mem _ member)
  | @inserts row canonical rest here belong hash size absent whole =>
      rw [next] at here
      cases here
      have absentBefore : committed.artifacts.lookup row.sha256 = none := by
        cases found : committed.artifacts.lookup row.sha256 with
        | none => rfl
        | some old =>
            have kept := onward _ _ found
            rw [absent] at kept
            cases kept
      refine ⟨intact, ?_, .writes rfl belong hash size absentBefore
        (Keyed.lookup_put_self _ row) ?_⟩
      · intro digest old found
        have different : digest ≠ row.sha256 := by
          intro same
          rw [same, absentBefore] at found
          cases found
        exact (Keyed.lookup_put_of_ne session.database.artifacts
          different).trans (onward digest old found)
      · intro other found different
        have before := (Keyed.lookup_put_of_ne session.database.artifacts
          different).symm.trans found
        exact whole other before
  | @writes row canonical rest here belong hash size absent found others =>
      rw [next] at here
      cases here
      refine ⟨intact_put absent intact, onward, .settled ?_ belong⟩
      intro other held
      by_cases same : other.sha256 = row.sha256
      · have equal : other = row := by
          rw [same] at held
          exact Option.some.inj (held.symm.trans found)
        rw [equal]
        exact hasObject_put hash size
      · exact (others other held same).put same

theorem Sound.step {unicode : Unicode} {store next : Store δ} {event : Event}
    (sound : Sound sha256 store)
    (stepped : step sha256 unicode store event = some next) :
    Sound sha256 next := by
  have idle (store : Store δ) (none : store.session = none)
      (intact : Intact sha256 store.committed store.objects) :
      Sound sha256 store := by
    refine ⟨intact, ?_, ?_⟩
    · intro session running
      rw [none] at running
      cases running
    · intro session running
      rw [none] at running
      cases running
  have busy (store : Store δ) (session : Session δ)
      (running : store.session = some session)
      (intact : Intact sha256 store.committed store.objects)
      (onward : Extends store.committed session.database)
      (stage : Stage sha256 store.committed store.objects session) :
      Sound sha256 store := by
    refine ⟨intact, ?_, ?_⟩
    · intro other same
      rw [running] at same
      cases same
      exact onward
    · intro other same
      rw [running] at same
      cases same
      exact stage
  cases moved_of_step stepped with
  | began none =>
      refine busy _ _ rfl sound.committed (fun _ _ found => found) ?_
      exact .settled sound.committed fun _ none => by cases none
  | ended => exact idle _ rfl sound.committed
  | performed running here =>
      obtain ⟨intact, onward, stage⟩ :=
        (sound.stage _ running).perform sound.committed
          (sound.onward _ running) here
      exact busy _ _ rfl intact onward stage
  | passed running quiet following none =>
      have onward := sound.onward _ running
      refine busy _ _ rfl sound.committed onward ?_
      cases sound.stage _ running with
      | settled whole belong => exact .settled whole belong
      | inserts here => rw [quiet] at here; cases here
      | writes here => rw [quiet] at here; cases here
  | @opened now session file files report operations running quiet following
      evident =>
      have onward := sound.onward _ running
      have whole : Intact sha256 session.database store.objects := by
        cases sound.stage _ running with
        | settled whole belong => exact whole
        | inserts here => rw [quiet] at here; cases here
        | writes here => rw [quiet] at here; cases here
      refine busy _ _ rfl sound.committed onward ?_
      cases evident with
      | known holds present =>
          refine .settled whole ?_
          intro operation member
          rw [List.mem_singleton.mp member]
          exact trivial
      | @fresh canonical row rest holds absent digest size describes =>
          rw [← digest] at absent
          refine .inserts ?_ describes.belongs digest.symm size.symm absent whole
          rw [digest]
  | committed running quiet finished =>
      refine idle _ rfl ?_
      cases sound.stage _ running with
      | settled whole belong => exact whole
      | inserts here => rw [quiet] at here; cases here
      | writes here => rw [quiet] at here; cases here

end Integrity

end PpcLab.Evidence
