import PpcLab.Triage.Comparison

/-!
# Where traces diverge

A report says where two traces differ first, shows the events there and names a
later place from which they agree.  That place comes from an alignment which may
pair events in front of the first difference.  A report says all this exactly if
the alignment begins with the whole common beginning of the traces.
-/

namespace PpcLab.Triage

open SequenceMatcher

variable {α : Type}

/-- How many elements an alignment begins with alike. -/
def leadingRun (operations : List Opcode) : Nat :=
  match operations.head? with
  | some operation => if operation.tag = .equal then operation.leftEnd else 0
  | none => 0

/-- The first run behind the first operation that is none. -/
def resyncRun (operations : List Opcode) : Option Opcode :=
  (divergence operations).bind fun divergent =>
    runBehind divergent operations

theorem resynchronize_eq (left : List Fields) (operations : List Opcode) :
    resynchronize left operations =
      (resyncRun operations).map (resyncAt left) := by
  rw [resynchronize, resyncRun]
  cases divergence operations <;> rfl

private theorem tag_gap (left right : List α) :
    (Piece.gap left right).tag ≠ .equal := by
  cases left <;> cases right <;> exact nofun

/-- Every run is a part of both sequences. -/
theorem run_of_mem {left right : Nat} {pieces : List (Piece α)} {run : Opcode}
    (member : run ∈ opcodesFrom left right pieces) (isRun : run.tag = .equal) :
    ∃ first second items firsts seconds,
      run.leftStart = left + first ∧ run.leftEnd = run.leftStart + items.length ∧
      run.rightStart = right + second ∧
      run.rightEnd = run.rightStart + items.length ∧
      (lefts pieces).drop first = items ++ firsts ∧
      (rights pieces).drop second = items ++ seconds := by
  induction pieces generalizing left right with
  | nil => cases member
  | cons piece pieces induction =>
      rcases List.mem_cons.mp member with rfl | later
      · cases piece with
        | gap lefts rights => exact absurd isRun (tag_gap lefts rights)
        | run items =>
            exact ⟨0, 0, items, lefts pieces, rights pieces, rfl, rfl, rfl, rfl,
              rfl, rfl⟩
      · obtain ⟨first, second, items, firsts, seconds, atLeft, leftEnd, atRight,
          rightEnd, inLeft, inRight⟩ := induction later
        refine ⟨piece.left.length + first, piece.right.length + second, items,
          firsts, seconds, ?_, leftEnd, ?_, rightEnd, ?_, ?_⟩
        · rw [atLeft, Nat.add_assoc]
        · rw [atRight, Nat.add_assoc]
        · rw [lefts, List.flatMap_cons, List.drop_append, ← inLeft]
          simp [lefts]
        · rw [rights, List.flatMap_cons, List.drop_append, ← inRight]
          simp [rights]

theorem mem_of_resyncRun {operations : List Opcode} {run : Opcode}
    (found : resyncRun operations = some run) :
    run ∈ operations ∧ run.tag = .equal := by
  obtain ⟨divergent, _, behind⟩ := Option.bind_eq_some_iff.mp found
  have isRun := List.find?_some behind
  simp only [Bool.and_eq_true, decide_eq_true_eq] at isRun
  exact ⟨List.mem_of_find?_eq_some behind, isRun.1.1.1⟩

/-- A gap is the first difference, and the run behind it is found. -/
theorem resyncRun_of_gap {place : Nat} {left right : List α}
    {rest : List (Piece α)}
    (alternates : (.gap left right :: rest).IsChain Alternates)
    (proper : ∀ piece ∈ rest, piece.Proper) :
    resyncRun (opcodesFrom place place (.gap left right :: rest)) =
      rest.head?.map fun next =>
        ⟨.equal, place + left.length, place + left.length + next.left.length,
          place + right.length, place + right.length + next.left.length⟩ := by
  have isGap : decide ((Piece.gap left right).tag ≠ .equal) = true :=
    decide_eq_true (tag_gap left right)
  have first : divergence (opcodesFrom place place (.gap left right :: rest)) =
      some ⟨(Piece.gap left right).tag, place, place + left.length, place,
        place + right.length⟩ := by
    rw [divergence, opcodesFrom]
    exact List.find?_cons_of_pos isGap
  rw [resyncRun, first, Option.bind_some, runBehind, opcodesFrom]
  rw [List.find?_cons_of_neg (by simp [tag_gap])]
  cases rest with
  | nil => rfl
  | cons next rest =>
      obtain ⟨beside, _⟩ := List.isChain_cons.mp alternates
      have differ := beside next rfl
      cases next with
      | gap => exact absurd rfl differ
      | run items =>
          have some : 0 < items.length :=
            List.length_pos_of_ne_nil (proper _ List.mem_cons_self)
          rw [opcodesFrom, List.find?_cons_of_pos]
          · rfl
          · simp [Piece.tag, Piece.left, Piece.right, some]

/-- The run behind a gap is not in front of the first difference exactly if the
gap begins there. -/
theorem gap_notBefore [DecidableEq α] {left right : List α}
    (apart : left.Disjoint right) (lefts rights : List α) :
    (commonRun (left ++ lefts) (right ++ rights) ≤ left.length ∧
      commonRun (left ++ lefts) (right ++ rights) ≤ right.length) ↔
    commonRun (left ++ lefts) (right ++ rights) = 0 := by
  constructor
  · intro bounds
    by_cases inLeft : left = []
    · rw [inLeft] at bounds ⊢
      exact Nat.le_zero.mp bounds.1
    · by_cases inRight : right = []
      · rw [inRight] at bounds ⊢
        exact Nat.le_zero.mp bounds.2
      · exact commonRun_gap apart inLeft inRight lefts rights
  · intro none
    rw [none]
    exact ⟨Nat.zero_le _, Nat.zero_le _⟩

/-- An operation in front is skipped when it is a run that begins at the
beginning. -/
theorem resyncRun_cons {size place : Nat} {left right : List α}
    {rest : List (Piece α)} (some : 0 < size) (behind : size ≤ place) :
    resyncRun (⟨.equal, 0, size, 0, size⟩ ::
        opcodesFrom place place (.gap left right :: rest)) =
      resyncRun (opcodesFrom place place (.gap left right :: rest)) := by
  have isGap : decide ((Piece.gap left right).tag ≠ .equal) = true :=
    decide_eq_true (tag_gap left right)
  have first : divergence (opcodesFrom place place (.gap left right :: rest)) =
      Option.some ⟨(Piece.gap left right).tag, place, place + left.length,
        place, place + right.length⟩ := by
    rw [divergence, opcodesFrom]
    exact List.find?_cons_of_pos isGap
  have skipped : divergence (⟨.equal, 0, size, 0, size⟩ ::
      opcodesFrom place place (.gap left right :: rest)) =
      divergence (opcodesFrom place place (.gap left right :: rest)) :=
    List.find?_cons_of_neg (by simp)
  rw [resyncRun, resyncRun, skipped, first, Option.bind_some, Option.bind_some,
    runBehind, List.find?_cons_of_neg]
  · rfl
  · simp
    omega

/-- Behind a place up to which the sequences agree stands a gap. -/
theorem gap_notBefore_iff [DecidableEq α] {place : Nat} {left right : List α}
    {rest : List (Piece α)}
    (alternates : (.gap left right :: rest).IsChain Alternates)
    (proper : ∀ piece ∈ .gap left right :: rest, piece.Proper) :
    (∀ run, resyncRun (opcodesFrom place place (.gap left right :: rest)) =
        some run →
      place + commonRun (left ++ lefts rest) (right ++ rights rest) ≤
          run.leftStart ∧
        place + commonRun (left ++ lefts rest) (right ++ rights rest) ≤
          run.rightStart) ↔
    commonRun (left ++ lefts rest) (right ++ rights rest) = 0 := by
  obtain ⟨apart, others⟩ := List.forall_mem_cons.mp proper
  rw [resyncRun_of_gap alternates others]
  cases rest with
  | nil =>
      have ends : commonRun (left ++ lefts []) (right ++ rights []) = 0 := by
        change commonRun (left ++ []) (right ++ []) = 0
        rw [List.append_nil, List.append_nil]
        exact commonRun_lastGap apart
      constructor
      · intro _
        exact ends
      · intro _ run found
        cases found
  | cons next rest =>
      rw [← gap_notBefore apart]
      constructor
      · intro later
        have bounds := later _ rfl
        dsimp only at bounds
        omega
      · intro bounds run found
        cases found
        dsimp only
        omega

/-- The run from which two sequences agree again is not in front of their first
difference exactly if the alignment begins with all that they begin with. -/
theorem resyncRun_notBefore_iff [DecidableEq α] (left right : List α) :
    (∀ run, resyncRun (opcodes left right) = some run →
      commonRun left right ≤ run.leftStart ∧
        commonRun left right ≤ run.rightStart) ↔
    leadingRun (opcodes left right) = commonRun left right := by
  have aligned := aligned_pieces left right
  rw [opcodes]
  generalize pieces left right = parts at aligned
  obtain ⟨isLeft, isRight, proper, alternates⟩ := aligned
  cases parts with
  | nil =>
      rw [← isLeft, ← isRight]
      constructor
      · intro _
        rfl
      · intro _ run found
        cases found
  | cons part rest =>
      cases part with
      | gap first second =>
          have isGap := tag_gap first second
          have lead : leadingRun (opcodesFrom 0 0 (.gap first second :: rest)) =
              0 := if_neg isGap
          have whole := @gap_notBefore_iff α _ 0 first second rest alternates proper
          rw [Nat.zero_add] at whole
          rw [lead, ← isLeft, ← isRight]
          exact whole.trans eq_comm
      | run items =>
          obtain ⟨nonempty, others⟩ := List.forall_mem_cons.mp proper
          have some : 0 < items.length := List.length_pos_of_ne_nil nonempty
          have lead : leadingRun (opcodesFrom 0 0 (.run items :: rest)) =
              items.length := by
            calc
              _ = 0 + items.length := rfl
              _ = items.length := Nat.zero_add _
          have common : commonRun left right =
              items.length + commonRun (lefts rest) (rights rest) := by
            rw [← isLeft, ← isRight]
            exact commonRun_append items (lefts rest) (rights rest)
          rw [lead, common, left_eq_add]
          cases rest with
          | nil =>
              constructor
              · intro _
                rfl
              · intro _ run found
                cases found
          | cons next rest =>
              obtain ⟨beside, after⟩ := List.isChain_cons.mp alternates
              have differ := beside next rfl
              cases next with
              | run => exact absurd rfl differ
              | gap first second =>
                  have skipped := @resyncRun_cons α items.length
                    items.length first second rest some (Nat.le_refl _)
                  rw [opcodesFrom, Piece.left, Piece.right, Nat.zero_add, Piece.tag,
                    skipped]
                  exact gap_notBefore_iff after others

/-- The length of the longest common beginning. -/
structure IsCommonPrefix (size : Nat) (left right : List α) : Prop where
  insideLeft : size ≤ left.length
  insideRight : size ≤ right.length
  same : left.take size = right.take size
  longest : size = left.length ∨ size = right.length ∨
    left[size]? ≠ right[size]?

theorem isCommonPrefix_commonRun [DecidableEq α] (left right : List α) :
    IsCommonPrefix (commonRun left right) left right where
  insideLeft := (commonRun_le left right).1
  insideRight := (commonRun_le left right).2
  same := take_commonRun left right
  longest := commonRun_maximal left right

/-- From two places the sequences have a run in common. -/
structure SharesRun (leftIndex rightIndex length : Nat) (left right : List α) :
    Prop where
  positive : 0 < length
  insideLeft : leftIndex + length ≤ left.length
  insideRight : rightIndex + length ≤ right.length
  same : (left.drop leftIndex).take length = (right.drop rightIndex).take length

theorem sharesRun_of_resyncRun [DecidableEq α] {left right : List α}
    {run : Opcode} (found : resyncRun (opcodes left right) = some run) :
    SharesRun run.leftStart run.rightStart
      (min (run.leftEnd - run.leftStart) (run.rightEnd - run.rightStart))
      left right := by
  obtain ⟨member, isRun⟩ := mem_of_resyncRun found
  obtain ⟨first, second, items, firsts, seconds, atLeft, leftEnd, atRight,
    rightEnd, inLeft, inRight⟩ := run_of_mem member isRun
  obtain ⟨divergent, _, behind⟩ := Option.bind_eq_some_iff.mp found
  have some := List.find?_some behind
  simp only [Bool.and_eq_true, decide_eq_true_eq] at some
  rw [lefts_pieces] at inLeft
  rw [rights_pieces] at inRight
  have size : min (run.leftEnd - run.leftStart)
      (run.rightEnd - run.rightStart) = items.length := by
    omega
  have leftLength := congrArg List.length inLeft
  have rightLength := congrArg List.length inRight
  rw [List.length_drop, List.length_append] at leftLength rightLength
  rw [size, atLeft, atRight, Nat.zero_add, Nat.zero_add]
  refine ⟨by omega, by omega, by omega, ?_⟩
  rw [inLeft, inRight, List.take_left, List.take_left]

variable {python : Security.Python} {doubles : Doubles}

/-- A report tells where two traces diverge. -/
structure Localizes (python : Security.Python) (left right : List Fields)
    (report : Report) : Prop where
  equal : report.equal = true ↔
    left.map (signature python) = right.map (signature python)
  common : IsCommonPrefix report.commonPrefixEvents
    (left.map (signature python)) (right.map (signature python))
  windowLeft : ∀ event, left[report.commonPrefixEvents]? = some event →
    compactEvent event report.commonPrefixEvents ∈ report.windowLeft
  windowRight : ∀ event, right[report.commonPrefixEvents]? = some event →
    compactEvent event report.commonPrefixEvents ∈ report.windowRight
  resynchronizes : ∀ resync, report.resynchronization = some resync →
    report.commonPrefixEvents ≤ resync.leftIndex ∧
    report.commonPrefixEvents ≤ resync.rightIndex ∧
    SharesRun resync.leftIndex resync.rightIndex resync.length
      (left.map (signature python)) (right.map (signature python))

theorem mem_window {events : List Fields} {event : Fields}
    {start stop index : Nat} (there : events[index]? = some event)
    (from' : start ≤ index) (until' : index < stop) :
    compactEvent event index ∈ window events start stop := by
  refine List.mem_map.mpr ⟨(event, index), ?_, rfl⟩
  rw [List.mem_iff_getElem?]
  refine ⟨index - start, ?_⟩
  rw [List.getElem?_drop, Nat.add_sub_cancel' from',
    List.getElem?_take_of_lt until', List.getElem?_zipIdx, there]
  simp

theorem isSome_uniquePcs {events : List Fields} :
    (uniquePcs doubles events).isSome ↔
      ∀ event ∈ events, isHashable (Json.get event (str "pc")) := by
  rw [uniquePcs]
  split
  · rename_i all
    simpa using all
  · rename_i some
    simpa using some

/-- A report on two traces tells where they diverge exactly if the run from which
they agree again is not in front of their first difference. -/
theorem localizes_reportOf_iff {left right : List Fields} {context : Int}
    {leftPcs rightPcs : Nat} :
    Localizes python left right
      (reportOf python doubles left right context none leftPcs rightPcs) ↔
    ∀ run, resyncRun (opcodes (left.map (signature python))
        (right.map (signature python))) = some run →
      commonRun (left.map (signature python)) (right.map (signature python)) ≤
          run.leftStart ∧
        commonRun (left.map (signature python))
            (right.map (signature python)) ≤ run.rightStart := by
  generalize reported : reportOf python doubles left right context none leftPcs
    rightPcs = report
  have resynced : report.resynchronization =
      (resyncRun (opcodes (left.map (signature python))
        (right.map (signature python)))).map (resyncAt left) := by
    rw [← reported]
    exact resynchronize_eq left _
  have shared : report.commonPrefixEvents =
      commonRun (left.map (signature python))
        (right.map (signature python)) := by
    rw [← reported]
    rfl
  constructor
  · intro localizes run found
    rw [found] at resynced
    obtain ⟨notLeft, notRight, _⟩ := localizes.resynchronizes _ resynced
    rw [shared] at notLeft notRight
    exact ⟨notLeft, notRight⟩
  · intro notBefore
    have bounds : ∀ resync, report.resynchronization = some resync →
        report.commonPrefixEvents ≤ resync.leftIndex ∧
        report.commonPrefixEvents ≤ resync.rightIndex ∧
        SharesRun resync.leftIndex resync.rightIndex resync.length
          (left.map (signature python)) (right.map (signature python)) := by
      intro resync found
      rw [resynced] at found
      obtain ⟨run, isRun, rfl⟩ := Option.map_eq_some_iff.mp found
      obtain ⟨notLeft, notRight⟩ := notBefore run isRun
      rw [shared]
      exact ⟨notLeft, notRight, sharesRun_of_resyncRun isRun⟩
    refine ⟨?_, ?_, ?_, ?_, bounds⟩
    · rw [← reported]
      simp [reportOf, compareSnapshots]
    · rw [shared]
      exact isCommonPrefix_commonRun _ _
    · intro event there
      have inside : report.commonPrefixEvents <
          (report.resynchronization.map (·.leftIndex)).getD
            (report.commonPrefixEvents + 1) + context.toNat + 1 := by
        cases found : report.resynchronization with
        | none =>
            rw [Option.map_none, Option.getD_none]
            omega
        | some resync =>
            have late := (bounds resync found).1
            rw [Option.map_some, Option.getD_some]
            omega
      rw [← reported] at inside there ⊢
      exact mem_window there (Nat.sub_le _ _) inside
    · intro event there
      have inside : report.commonPrefixEvents <
          (report.resynchronization.map (·.rightIndex)).getD
            (report.commonPrefixEvents + 1) + context.toNat + 1 := by
        cases found : report.resynchronization with
        | none =>
            rw [Option.map_none, Option.getD_none]
            omega
        | some resync =>
            have late := (bounds resync found).2.1
            rw [Option.map_some, Option.getD_some]
            omega
      rw [← reported] at inside there ⊢
      exact mem_window there (Nat.sub_le _ _) inside

/-- Two traces whose pcs can be in a set are reported, and the report tells where
they diverge, exactly if the alignment begins with all events that the traces
begin with. -/
theorem localizes_iff (left right : List Fields) (context : Int) :
    (∃ report,
      compareTraces python doubles left right context none = some report ∧
      Localizes python left right report) ↔
    (∀ event ∈ left ++ right, isHashable (Json.get event (str "pc"))) ∧
      leadingRun (opcodes (left.map (signature python))
        (right.map (signature python))) =
      commonRun (left.map (signature python))
        (right.map (signature python)) := by
  rw [List.forall_mem_append, ← @isSome_uniquePcs doubles left,
    ← @isSome_uniquePcs doubles right, ← resyncRun_notBefore_iff]
  constructor
  · rintro ⟨report, reported, localizes⟩
    obtain ⟨leftPcs, isLeft, reported⟩ := Option.bind_eq_some_iff.mp reported
    obtain ⟨rightPcs, isRight, reported⟩ := Option.bind_eq_some_iff.mp reported
    cases reported
    rw [isLeft, isRight]
    exact ⟨⟨rfl, rfl⟩, localizes_reportOf_iff.mp localizes⟩
  · rintro ⟨⟨someLeft, someRight⟩, notBefore⟩
    obtain ⟨leftPcs, isLeft⟩ := Option.isSome_iff_exists.mp someLeft
    obtain ⟨rightPcs, isRight⟩ := Option.isSome_iff_exists.mp someRight
    refine ⟨reportOf python doubles left right context none leftPcs rightPcs,
      ?_, localizes_reportOf_iff.mpr notBefore⟩
    rw [compareTraces, isLeft, isRight]
    rfl

def eventAt (pc : String) : Fields :=
  [(str "pc", .string (str pc)), (str "instruction", .string (str "0x60000000"))]

def once : List Fields :=
  [eventAt "0x00001000", eventAt "0x00001004", eventAt "0x00001008"]

def twice : List Fields :=
  [eventAt "0x00001000", eventAt "0x00002000", eventAt "0x00001000",
    eventAt "0x00001004", eventAt "0x00001008"]

/-- The second trace visits the first event and another one before it does what
the first trace does.  They are said to agree again from the first event on, in
front of the second one, where they differ and which is not shown. -/
theorem agrees_before_divergence :
    ¬ ∃ report, compareTraces .ascii .none once twice 0 none = some report ∧
      Localizes .ascii once twice report := by
  rintro ⟨report, reported, localizes⟩
  have computed : (compareTraces .ascii .none once twice 0 none).map
      (fun report => (report.commonPrefixEvents, report.windowLeft)) =
      some (1, []) := by
    decide +kernel
  rw [reported] at computed
  have parts := Option.some.inj computed
  have shared : report.commonPrefixEvents = 1 := congrArg Prod.fst parts
  have hidden : report.windowLeft = [] := congrArg Prod.snd parts
  have there : once[report.commonPrefixEvents]? =
      some (eventAt "0x00001004") := by
    rw [shared]
    rfl
  have inside := localizes.windowLeft _ there
  rw [hidden] at inside
  cases inside

end PpcLab.Triage
