import PpcLab.Evidence.Integrity
import PpcLab.Library.Sha256

/-!
# Ingesting again

The documents of a call that has returned its report have their rows, so a
later call finds them there: it adds sources and nothing else.
-/

namespace PpcLab.Evidence

variable {δ : Type} [DecidableEq δ]

section Registers

variable (sha256 : List Byte → δ)

/-- If the file is evidence, its document has a row. -/
def Registered (database : Database δ) (file : File) : Prop :=
  file.document? = none ∨
    ∃ canonical, file.Holds canonical ∧
      (database.artifacts.lookup (sha256 canonical.bytes)).isSome

/-- The row of a document is about to come in. -/
def Coming (pending : List (Operation δ)) (file : File) : Prop :=
  ∃ canonical row, file.Holds canonical ∧ .insertArtifact row ∈ pending ∧
    row.sha256 = sha256 canonical.bytes

structure Registers (store : Store δ) : Prop where
  results : ∀ call report, (call, .ingested report) ∈ store.results →
    ∀ file ∈ call.files, Registered sha256 store.committed file
  grows : ∀ session ∈ store.session, ∀ digest,
    (store.committed.artifacts.lookup digest).isSome →
    (session.database.artifacts.lookup digest).isSome
  session : ∀ session ∈ store.session, ∀ file ∈ session.call.files,
    file ∈ session.files ∨ Registered sha256 session.database file ∨
      Coming sha256 session.pending file

variable {sha256}

theorem Registers.initialized :
    Registers sha256 (Store.initialized (δ := δ)) := by
  refine ⟨?_, ?_, ?_⟩
  · intro call report none
    cases none
  · intro session running
    cases running
  · intro session running
    cases running

private theorem isSome_database (database : Database δ)
    (operation : Operation δ) {digest : δ}
    (present : (database.artifacts.lookup digest).isSome) :
    ((operation.database database).artifacts.lookup digest).isSome := by
  cases operation with
  | insertArtifact row =>
      by_cases same : digest = row.sha256
      · rw [same]
        exact Option.isSome_of_eq_some
          (Keyed.lookup_put_self database.artifacts row)
      · have kept := Keyed.lookup_put_of_ne database.artifacts same
        rw [← kept] at present
        exact present
  | _ => exact present

private theorem Registered.grow {before after : Database δ} {file : File}
    (registered : Registered sha256 before file)
    (grows : ∀ digest, (before.artifacts.lookup digest).isSome →
      (after.artifacts.lookup digest).isSome) :
    Registered sha256 after file := by
  rcases registered with none | ⟨canonical, holds, present⟩
  · exact .inl none
  · exact .inr ⟨canonical, holds, grows _ present⟩

theorem File.Holds.unique {file : File} {first second : Canonical}
    (one : file.Holds first) (other : file.Holds second) : first = second := by
  obtain ⟨document, read, encoded⟩ := one
  obtain ⟨otherDocument, otherRead, otherEncoded⟩ := other
  rw [read] at otherRead
  cases otherRead
  rw [encoded] at otherEncoded
  exact Option.some.inj otherEncoded

theorem Registers.step {unicode : Unicode} {store next : Store δ}
    {event : Event} (registers : Registers sha256 store)
    (stepped : step sha256 unicode store event = some next) :
    Registers sha256 next := by
  cases moved_of_step stepped with
  | @began call idle =>
      refine ⟨registers.results, ?_, ?_⟩
      · intro session running digest present
        cases running
        exact present
      · intro session running file member
        cases running
        exact .inl member
  | ended kept =>
      refine ⟨?_, ?_, ?_⟩
      · intro call report member
        exact registers.results call report (kept call report member)
      · intro session running
        cases running
      · intro session running
        cases running
  | @performed now session operation pending running here =>
      refine ⟨registers.results, ?_, ?_⟩
      · intro other same digest present
        cases same
        exact isSome_database _ _ (registers.grows _ running digest present)
      · intro other same file member
        cases same
        rcases registers.session _ running file member with
          left | registered | ⟨canonical, row, holds, coming, digest⟩
        · exact .inl left
        · exact .inr (.inl (registered.grow fun _ present =>
            isSome_database _ _ present))
        · rw [here] at coming
          rcases List.mem_cons.mp coming with rfl | later
          · refine .inr (.inl (.inr ⟨canonical, holds, ?_⟩))
            rw [← digest]
            exact Option.isSome_of_eq_some
              (Keyed.lookup_put_self session.database.artifacts row)
          · exact .inr (.inr ⟨canonical, row, holds, later, digest⟩)
  | @passed now session file files report running quiet following none =>
      have grows := registers.grows _ running
      refine ⟨registers.results, ?_, ?_⟩
      · intro other same
        cases same
        exact grows
      · intro other same old member
        cases same
        rcases registers.session _ running old member with
          left | registered | coming
        · rw [following] at left
          rcases List.mem_cons.mp left with rfl | later
          · exact .inr (.inl (.inl none))
          · exact .inl later
        · exact .inr (.inl registered)
        · exact .inr (.inr coming)
  | @opened now session file files report operations running quiet following
      evident =>
      have grows := registers.grows _ running
      refine ⟨registers.results, ?_, ?_⟩
      · intro other same
        cases same
        exact grows
      · intro other same old member
        cases same
        rcases registers.session _ running old member with
          left | registered | ⟨_, _, _, coming, _⟩
        · rw [following] at left
          rcases List.mem_cons.mp left with rfl | later
          · cases evident with
            | known holds present =>
                exact .inr (.inl (.inr ⟨_, holds, present⟩))
            | fresh holds absent digest size belong =>
                exact .inr (.inr ⟨_, _, holds, List.mem_cons_self, digest⟩)
          · exact .inl later
        · exact .inr (.inl registered)
        · rw [quiet] at coming
          cases coming
  | @committed now session running quiet finished =>
      refine ⟨?_, ?_, ?_⟩
      · intro call report member file inCall
        rcases List.mem_append.mp member with before | last
        · exact (registers.results call report before file inCall).grow
            (registers.grows _ running)
        · cases List.mem_singleton.mp last
          rcases registers.session _ running file inCall with
            left | registered | ⟨_, _, _, coming, _⟩
          · rw [finished] at left
            cases left
          · exact registered
          · rw [quiet] at coming
            cases coming
      · intro other same
        cases same
      · intro other same
        cases same

end Registers

section Repetition

variable (sha256 : List Byte → δ)

/-- A document that a call which returned its report was given, too. -/
def File.Repeats (results : List (Call × Outcome δ)) (file : File) : Prop :=
  file.document? = none ∨
    ∃ call report, (call, .ingested report) ∈ results ∧
      ∃ old ∈ call.files, ∃ canonical, file.Holds canonical ∧
        old.Holds canonical

def Event.Repeats (results : List (Call × Outcome δ)) : Event → Prop
  | .ingest call => ∀ file ∈ call.files, file.Repeats results
  | .advance _ | .die => True

/-- The call has added no more than sources. -/
structure Same (base : Database δ) (session : Session δ) : Prop where
  artifacts : session.database.artifacts = base.artifacts
  inputs : session.database.inputs = base.inputs
  pending : ∀ operation ∈ session.pending,
    ∃ source, operation = .insertSource source
  files : ∀ file ∈ session.files, Registered sha256 base file

structure Unchanged (base : Database δ) (store : Store δ) : Prop where
  artifacts : store.committed.artifacts = base.artifacts
  inputs : store.committed.inputs = base.inputs
  session : ∀ session ∈ store.session, Same sha256 base session

variable {sha256}

private theorem Unchanged.step {unicode : Unicode} {base : Database δ}
    {store next : Store δ} {event : Event}
    (unchanged : Unchanged sha256 base store)
    (known : ∀ call, event = .ingest call →
      ∀ file ∈ call.files, Registered sha256 base file)
    (stepped : step sha256 unicode store event = some next) :
    Unchanged sha256 base next := by
  cases moved_of_step stepped with
  | @began call idle =>
      refine ⟨unchanged.artifacts, unchanged.inputs, ?_⟩
      intro session running
      cases running
      refine ⟨unchanged.artifacts, unchanged.inputs, ?_, known call rfl⟩
      intro operation none
      cases none
  | ended =>
      refine ⟨unchanged.artifacts, unchanged.inputs, ?_⟩
      intro session running
      cases running
  | @performed now session operation pending running here =>
      have same := unchanged.session _ running
      have listed := same.pending
      rw [here] at listed
      refine ⟨unchanged.artifacts, unchanged.inputs, ?_⟩
      intro other running
      cases running
      obtain ⟨source, rfl⟩ := listed operation List.mem_cons_self
      refine ⟨same.artifacts, same.inputs, ?_, same.files⟩
      intro later member
      exact listed later (List.mem_cons_of_mem _ member)
  | passed running quiet following none =>
      have same := unchanged.session _ running
      have files := same.files
      rw [following] at files
      refine ⟨unchanged.artifacts, unchanged.inputs, ?_⟩
      intro other running
      cases running
      refine ⟨same.artifacts, same.inputs, same.pending, ?_⟩
      intro file member
      exact files file (List.mem_cons_of_mem _ member)
  | @opened now session file files report operations running quiet following
      evident =>
      have same := unchanged.session _ running
      have registered := same.files
      rw [following] at registered
      refine ⟨unchanged.artifacts, unchanged.inputs, ?_⟩
      intro other running
      cases running
      refine ⟨same.artifacts, same.inputs, ?_, ?_⟩
      · cases evident with
        | @known canonical source holds present =>
            intro operation member
            exact ⟨source, List.mem_singleton.mp member⟩
        | fresh holds absent =>
            rcases registered file List.mem_cons_self with
              none | ⟨other, otherHolds, present⟩
            · obtain ⟨document, read, _⟩ := holds
              rw [none] at read
              cases read
            · rw [otherHolds.unique holds, ← same.artifacts, absent] at present
              cases present
      · intro file member
        exact registered file (List.mem_cons_of_mem _ member)
  | committed running quiet finished =>
      have same := unchanged.session _ running
      refine ⟨same.artifacts, same.inputs, ?_⟩
      intro other running
      cases running

private theorem registered_of_repeats {store : Store δ} {file : File}
    (registers : Registers sha256 store)
    (repeats : file.Repeats store.results) :
    Registered sha256 store.committed file := by
  rcases repeats with none | ⟨call, report, returned, old, member, canonical,
    holds, oldHolds⟩
  · exact .inl none
  · rcases registers.results call report returned old member with
      none | ⟨other, otherHolds, present⟩
    · obtain ⟨document, read, _⟩ := oldHolds
      rw [none] at read
      cases read
    · refine .inr ⟨canonical, holds, ?_⟩
      rw [oldHolds.unique otherHolds]
      exact present

/-- Calls with documents that the store has been given before. -/
theorem Registers.unchanged {unicode : Unicode} {store final : Store δ}
    {again : List Event} (registers : Registers sha256 store)
    (idle : store.session = none)
    (repeats : ∀ event ∈ again, event.Repeats store.results)
    (ran : follow (Evidence.step sha256 unicode) store again = some final) :
    Unchanged sha256 store.committed final := by
  have start : Unchanged sha256 store.committed store := by
    refine ⟨rfl, rfl, ?_⟩
    intro session running
    rw [idle] at running
    cases running
  have known : Along (Evidence.step sha256 unicode)
      (fun _ event => ∀ call, event = .ingest call →
        ∀ file ∈ call.files, Registered sha256 store.committed file)
      store again := by
    apply along_of_mem
    intro _ event member call same file inCall
    have repeated := repeats event member
    rw [same] at repeated
    exact registered_of_repeats registers (repeated file inCall)
  exact follow_keeps
    (fun _ _ _ unchanged known stepped => unchanged.step known stepped)
    start known ran

end Repetition

section Histories

variable {sha256 : List Byte → δ} {unicode : Unicode}

private theorem verify_of_sound {store : Store δ}
    (sound : Sound sha256 store) :
    (verify sha256 store).missing = [] ∧
      (verify sha256 store).corrupt = [] := by
  have has (row : Artifact δ) (member : row ∈ store.committed.artifacts.entries) :
      HasObject sha256 store.objects row :=
    sound.committed row (Keyed.lookup_of_mem member)
  refine ⟨?_, ?_⟩
  · refine List.map_eq_nil_iff.mpr (List.filter_eq_nil_iff.mpr ?_)
    intro row member
    obtain ⟨object, found, _⟩ := has row member
    simp [found]
  · refine List.map_eq_nil_iff.mpr (List.filter_eq_nil_iff.mpr ?_)
    intro row member
    obtain ⟨object, found, hash, size⟩ := has row member
    simp [found, hash, size]

private theorem sound_of_history {history : List Event} {store : Store δ}
    (ran : follow (step sha256 unicode) Store.initialized history =
      some store) : Sound sha256 store :=
  follow_preserves (fun _ _ _ sound stepped => sound.step stepped)
    Sound.initialized ran

/-- After every history of calls, each of which can be strict or not and can
die at any point, every committed row has an object with its hash and its
length, the verification finds nothing missing or corrupt, and calls with
documents that were given before change no artifact and no input. -/
theorem committed_rows_have_objects (history : List Event) (store : Store δ)
    (ran : follow (step sha256 unicode) Store.initialized history =
      some store) :
    (∀ row ∈ store.committed.artifacts.entries,
      HasObject sha256 store.objects row) ∧
    (verify sha256 store).ok = true ∧
    (verify sha256 store).missing = [] ∧
    (verify sha256 store).corrupt = [] ∧
    ∀ again final, store.session = none →
      (∀ event ∈ again, event.Repeats store.results) →
      follow (step sha256 unicode) store again = some final →
      final.committed.artifacts = store.committed.artifacts ∧
        final.committed.inputs = store.committed.inputs := by
  have sound := sound_of_history ran
  have registers : Registers sha256 store :=
    follow_preserves (fun _ _ _ registers stepped => registers.step stepped)
      Registers.initialized ran
  obtain ⟨missing, corrupt⟩ := verify_of_sound sound
  refine ⟨?_, ?_, missing, corrupt, ?_⟩
  · intro row member
    exact sound.committed row (Keyed.lookup_of_mem member)
  · have ok : (verify sha256 store).ok =
        ((verify sha256 store).missing.isEmpty &&
          (verify sha256 store).corrupt.isEmpty) := rfl
    rw [ok, missing, corrupt]
    rfl
  · intro again final idle repeats reran
    have unchanged := registers.unchanged idle repeats reran
    exact ⟨unchanged.artifacts, unchanged.inputs⟩

/-- What a history has committed stays as it is, whatever calls come later and
wherever they die, and so does its object. -/
theorem committed_rows_are_kept (history later : List Event)
    {store final : Store δ}
    (ran : follow (step sha256 unicode) Store.initialized history =
      some store)
    (went : follow (step sha256 unicode) store later = some final) :
    ∀ row ∈ store.committed.artifacts.entries,
      row ∈ final.committed.artifacts.entries ∧
        HasObject sha256 final.objects row := by
  have kept (state : Store δ) (event : Event) (next : Store δ)
      (sound : Sound sha256 state)
      (stepped : step sha256 unicode state event = some next) :
      Sound sha256 next ∧ Extends state.committed next.committed := by
    refine ⟨sound.step stepped, ?_⟩
    cases moved_of_step stepped with
    | committed running => exact sound.onward _ running
    | _ => exact fun _ _ found => found
  have extends_ : Extends store.committed final.committed := by
    refine follow_relates (fun _ _ _ found => found) ?_ kept
      (sound_of_history ran) went
    intro first second third one two digest row found
    exact two digest row (one digest row found)
  have sound : Sound sha256 final := by
    have whole := follow_append (step sha256 unicode) .initialized history later
    rw [ran] at whole
    exact sound_of_history (whole.trans went)
  intro row member
  have found := extends_ row.sha256 row (Keyed.lookup_of_mem member)
  exact ⟨Keyed.mem_of_lookup found, sound.committed row found⟩

end Histories

/-- A note, as the file that it is stored in. -/
def note : File where
  path := "note.json"
  content :=
    let value := Json.object
      [("schema", .string "ppc-lab-note-v1"), ("text", .string "pass")]
    .json (value.canonical.getD []) value

def noteDigest : Str :=
  "5fc17c69e0eb71570585c5f4c09d2ef4dc2b4fb55d435f3d5277ffc8826f212f"

/-- A call that dies before it commits, and the same call again. -/
def diesOnce : List Event :=
  .ingest ⟨[note], true⟩ :: List.replicate 3 (.advance "09:00") ++
    .die :: .ingest ⟨[note], true⟩ :: List.replicate 5 (.advance "10:00")

theorem committed_rows_have_objects_diesOnce :
    ∃ store final,
      follow (step Sha256.hexdigest .ascii) Store.initialized diesOnce =
        some store ∧
      store.committed.artifacts.entries.map
        (fun row => (row.canonicalSize, row.firstIngested)) =
        [(43, str "10:00")] ∧
      (verify Sha256.hexdigest store).ok = true ∧
      follow (step Sha256.hexdigest .ascii) store
        (.ingest ⟨[note], false⟩ :: List.replicate 3 (.advance "11:00")) =
        some final ∧
      final.committed.artifacts = store.committed.artifacts := by
  have ran : ((follow (step Sha256.hexdigest .ascii) Store.initialized
      diesOnce).map fun store =>
        (store.committed.artifacts.entries.map
          (fun row => (row.canonicalSize, row.firstIngested)),
          store.session.isNone)) =
      some ([(43, str "10:00")], true) := by
    decide
  have returned : ((follow (step Sha256.hexdigest .ascii)
      Store.initialized diesOnce).map (·.results)) =
      some [(⟨[note], true⟩, .ingested ⟨1, 0, 0, 0, [noteDigest]⟩)] := by
    decide
  have again : ((follow (step Sha256.hexdigest .ascii)
      Store.initialized (diesOnce ++
        (.ingest ⟨[note], false⟩ ::
          List.replicate 3 (.advance "11:00")))).isSome) = true := by
    decide
  obtain ⟨store, reached, seen⟩ := Option.map_eq_some_iff.mp ran
  obtain ⟨rows, idle⟩ := Prod.mk.inj seen
  rw [reached, Option.map_some] at returned
  have results := Option.some.inj returned
  rw [follow_append, reached, Option.bind_some] at again
  obtain ⟨final, reran⟩ := Option.isSome_iff_exists.mp again
  obtain ⟨_, ok, _, _, unchanged⟩ := committed_rows_have_objects diesOnce store
    reached
  refine ⟨store, final, reached, rows, ok, reran, ?_⟩
  have repeats : note.Repeats store.results := by
    have holds : ∃ canonical, note.Holds canonical := by
      have read : (note.document?.bind fun document =>
          Canonical.of? document.value).isSome := by
        decide
      obtain ⟨canonical, found⟩ := Option.isSome_iff_exists.mp read
      exact ⟨canonical, Option.bind_eq_some_iff.mp found⟩
    obtain ⟨canonical, holds⟩ := holds
    refine .inr ⟨⟨[note], true⟩, ⟨1, 0, 0, 0, [noteDigest]⟩, ?_, note,
      List.mem_cons_self, canonical, holds, holds⟩
    rw [results]
    exact List.mem_cons_self
  refine (unchanged _ final (Option.isNone_iff_eq_none.mp idle) ?_ reran).1
  intro event member
  rcases List.mem_cons.mp member with rfl | later
  · intro file inCall
    rw [List.mem_singleton.mp inCall]
    exact repeats
  · rw [List.eq_of_mem_replicate later]
    exact trivial

/-- A call that dies takes nothing back. -/
theorem committed_rows_are_kept_diesOnce :
    ∃ store final,
      follow (step Sha256.hexdigest .ascii) Store.initialized diesOnce =
        some store ∧
      store.committed.artifacts.keys = [noteDigest] ∧
      follow (step Sha256.hexdigest .ascii) store
        [.ingest ⟨[note], false⟩, .advance "11:00", .die] = some final ∧
      ∀ row ∈ store.committed.artifacts.entries,
        row ∈ final.committed.artifacts.entries ∧
          HasObject Sha256.hexdigest final.objects row :=
  ⟨_, _, rfl, rfl, rfl, committed_rows_are_kept diesOnce
    [.ingest ⟨[note], false⟩, .advance "11:00", .die] rfl rfl⟩

end PpcLab.Evidence
