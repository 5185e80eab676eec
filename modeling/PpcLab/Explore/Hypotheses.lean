import PpcLab.Explore.Readers

/-!
# Promotion of hypotheses

A report lists hypotheses with the indices of the cases that support them, and
it pins every case that was analysed by its digest.  A promotion reads the
exploration again and looks for the supporting cases in two tables, one of the
directory and one of the report; an index that one of them lacks is skipped.
-/

namespace PpcLab.Hypotheses

open Explore (Failure Setting Content Output found? getOr readJson int float
  loadExploration sha256Json)

/-- The elements of a value that is iterated over. -/
def items : Json → Except Failure (List Json)
  | .array items => .ok items
  | .string text => .ok (text.map fun character => .string [character])
  | .object fields => .ok (fields.map fun member => .string member.1)
  | _ => .error .raised

/-- `len(value)` -/
def length (value : Json) : Except Failure Nat := do
  return (← items value).length

/-- `fields[key]` -/
def required (fields : Fields) (key : String) : Except Failure Json :=
  match found? fields key with
  | some value => .ok value
  | none => .error .raised

def isHashable : Json → Bool
  | .array _ | .object _ => false
  | _ => true

/-- `set(values)`, which keeps the first of equal values. -/
def setOf (doubles : Doubles) (values : List Json) : List Json :=
  values.foldl (fun kept value =>
    if doubles.isIn value kept then kept else kept ++ [value]) []

/-- A double is below an integer. -/
def isBelowInteger (bits : Nat) (value : Int) : Bool :=
  match Ieee754.decode Ieee754.binary64 bits with
  | .finite negative significand exponent =>
      decide (Ieee754.signed negative (significand * 2 ^ exponent.toNat) <
        value * 2 ^ (-exponent).toNat)
  | .infinity negative => negative
  | .nan => false

def isAboveInteger (bits : Nat) (value : Int) : Bool :=
  match Ieee754.decode Ieee754.binary64 bits with
  | .finite negative significand exponent =>
      decide (value * 2 ^ (-exponent).toNat <
        Ieee754.signed negative (significand * 2 ^ exponent.toNat))
  | .infinity negative => !negative
  | .nan => false

/-- `first < second` of two texts or two numbers. -/
def isBelow (doubles : Doubles) : Json → Json → Bool
  | .string first, .string second =>
      Json.notAfter first second && first != second
  | .float first, .float second =>
      Ieee754.lt Ieee754.binary64 (doubles.ofLiteral first)
        (doubles.ofLiteral second)
  | .float first, second =>
      ((Json.asInteger? second).map
        (isBelowInteger (doubles.ofLiteral first))).getD false
  | first, .float second =>
      ((Json.asInteger? first).map
        (isAboveInteger (doubles.ofLiteral second))).getD false
  | first, second =>
      match Json.asInteger? first, Json.asInteger? second with
      | some first, some second => decide (first < second)
      | _, _ => false

def isText : Json → Bool
  | .string _ => true
  | _ => false

def isNumber : Json → Bool
  | .bool _ | .int _ | .float _ => true
  | _ => false

/-- `sorted` compares all values or raises. -/
def comparable (values : List Json) : Bool :=
  decide (values.length ≤ 1) || values.all isText || values.all isNumber

/-- `sorted(set(values))` -/
def sortedSet (doubles : Doubles) (values : List Json) :
    Except Failure (List Json) :=
  let kept := setOf doubles values
  if values.all isHashable && comparable kept then
    .ok (kept.insertionSort fun first second => !isBelow doubles second first)
  else .error .raised

/-- `f"{value:.3f}"` -/
def fixed (bits : Nat) : Str :=
  match Ieee754.decode Ieee754.binary64 bits with
  | .nan => str "nan"
  | .infinity negative => if negative then str "-inf" else str "inf"
  | .finite negative significand exponent =>
      let dividend := significand * 1000 * 2 ^ exponent.toNat
      let divisor := 2 ^ (-exponent).toNat
      let kept := dividend / divisor
      let rest := dividend % divisor
      let rounded :=
        if divisor < 2 * rest ∨ (2 * rest = divisor ∧ kept % 2 = 1) then
          kept + 1
        else kept
      (if negative then [0x2d] else []) ++ str (Text.decimal (rounded / 1000)) ++
        0x2e :: Text.padded 3 (rounded % 1000)

def reportSchema : Json :=
  .string (str "ppc-lab-hypothesis-report-v1")

def readReport (report : Content) : Except Failure Fields := do
  match ← readJson report with
  | .object fields =>
      if Json.get fields (str "schema") = reportSchema then return fields
      else throw (.reported (str "hypothesis report schema mismatch"))
  | _ => throw (.reported (str "hypothesis report schema mismatch"))

/-- `lookup` -/
def lookup (report : Fields) (id : Str) : Except Failure Fields := do
  let hypotheses ← items (getOr report "hypotheses" (.array []))
  match (hypotheses.filterMap Json.asObject?).find? fun hypothesis =>
      Json.get hypothesis (str "id") = .string id with
  | some hypothesis => return hypothesis
  | none => throw (.reported (str "hypothesis not found: " ++ id))

/-- What the promotion of a hypothesis looks at. -/
structure Evidence where
  /-- The cases of the directory by their index. -/
  rows : List (Int × Fields)
  /-- The cases of the report by their index. -/
  cases : List (Int × Fields)
  /-- The supporting cases. -/
  values : List Json

/-- What a dictionary of the entries has for a number: the last one. -/
def lastWith (entries : List (Int × Fields)) (number : Int) : Option Fields :=
  (entries.reverse.find? fun entry => entry.1 = number).map (·.2)

section

variable (setting : Setting)

def rowByIndex (row : Fields) : Except Failure (Int × Fields) := do
  return (← int setting (getOr row "index" (.int (-1))), row)

def caseByIndex (case : Fields) : Except Failure (Int × Fields) := do
  return (← int setting (Json.get case (str "index")), case)

/-- The first part of `verify_case_evidence`. -/
def gather (report : Fields) (exploration : Str) (output : Output)
    (hypothesis : Fields) : Except Failure Evidence := do
  let (_, rows) ← loadExploration exploration output
  let rows ← rows.mapM (rowByIndex setting)
  let cases ← items (getOr report "cases" (.array []))
  let cases ← ((cases.filterMap Json.asObject?).filter fun case =>
    (found? case "index").isSome).mapM (caseByIndex setting)
  let listed ← items (getOr hypothesis "supporting_cases" (.array []))
  let values ← sortedSet setting.doubles listed
  return ⟨rows, cases, values⟩

def digest (fields : Fields) : Json :=
  Json.get fields (str "sha256")

/-- The digest of a row that was loaded. -/
def rowDigest (row : Fields) : Json :=
  Json.get row (str "_sha256")

def succeeded (row : Fields) : Bool :=
  Security.truthy (Json.get (Json.dict (Json.get row (str "worker"))) (str "ok"))

structure Verified where
  index : Json
  sha256 : Json
  behavior : Json

def Verified.json (verified : Verified) : Json :=
  .object
    [(str "schema", .string (str "ppc-lab-exploration-case-v1")),
      (str "index", verified.index), (str "sha256", verified.sha256),
      (str "behavior_sha256", verified.behavior)]

/-- A supporting case as the directory and the report have it. -/
def checkCase (index : Json) :
    Option Fields → Option Fields → Except Failure (Option Verified)
  | some row, some expected =>
      if rowDigest row = digest expected then
        .ok (if succeeded row then
          some ⟨index, rowDigest row, Json.get row (str "behavior_sha256")⟩
        else none)
      else .error (.reported (str "case " ++
        setting.python.unicode.toStr index ++
        str " changed since hypothesis analysis"))
  | _, _ => .ok none

/-- One turn of `verify_case_evidence`. -/
def verifyCase (evidence : Evidence) (index : Json) :
    Except Failure (Option Verified) := do
  let number ← int setting index
  checkCase setting index (lastWith evidence.rows number)
    (lastWith evidence.cases number)

/-- `verify_case_evidence` -/
def verifyCaseEvidence (report : Fields) (exploration : Str) (output : Output)
    (hypothesis : Fields) : Except Failure (List Verified) := do
  let evidence ← gather setting report exploration output hypothesis
  return (← evidence.values.mapM (verifyCase setting evidence)).reduceOption

/-- `contradictions / total > 0.75`, unless there are none. -/
def dominated (contradicting supporting : Nat) : Bool :=
  let total := contradicting + supporting
  decide (total ≠ 0) && Ieee754.lt Ieee754.binary64 (Doubles.quotient 3 4)
    (Doubles.quotient contradicting total)

/-- A hypothesis with its promotion policy. -/
structure Promoted where
  id : Str
  subject : Json
  role : Json
  claim : Json
  confidence : Nat
  provenance : Json
  verified : List Verified
  contradicting : Json
  metrics : Json
  experiment : Json
  reportSha : Str
  minConfidence : Nat
  minSupport : Int

def Promoted.fields (promoted : Promoted) : Fields :=
  [(str "schema", .string (str "ppc-lab-hypothesis-v1")),
    (str "id", .string promoted.id), (str "status", .string (str "supported")),
    (str "subject", promoted.subject), (str "role", promoted.role),
    (str "claim", promoted.claim),
    (str "confidence", .float (setting.printed promoted.confidence)),
    (str "input_provenance", promoted.provenance),
    (str "verified_support", .array (promoted.verified.map Verified.json)),
    (str "contradicting_cases", promoted.contradicting),
    (str "metrics", promoted.metrics),
    (str "suggested_experiment", promoted.experiment),
    (str "source_report_sha256", .string promoted.reportSha),
    (str "promotion_policy", .object
      [(str "minimum_confidence",
          .float (setting.printed promoted.minConfidence)),
        (str "minimum_verified_support", .int promoted.minSupport)])]

/-- `--min-confidence` and `--min-support` -/
structure Thresholds where
  confidence : Nat
  support : Int

def promotedAs (report hypothesis : Fields) (id : Str) (confidence : Nat)
    (verified : List Verified) (thresholds : Thresholds)
    (subject role claim : Json) : Promoted where
  id := id
  subject := subject
  role := role
  claim := claim
  confidence := confidence
  provenance := getOr report "input_provenance" (.array [])
  verified := verified
  contradicting := getOr hypothesis "contradicting_cases" (.array [])
  metrics := getOr hypothesis "metrics" (.object [])
  experiment := Json.get hypothesis (str "experiment")
  reportSha := sha256Json (.object report)
  minConfidence := thresholds.confidence
  minSupport := thresholds.support

def described (report hypothesis : Fields) (id : Str) (confidence : Nat)
    (verified : List Verified) (thresholds : Thresholds) :
    Except Failure Promoted := do
  let subject ← required hypothesis "subject"
  let role ← required hypothesis "role"
  let claim ← required hypothesis "claim"
  return promotedAs report hypothesis id confidence verified thresholds subject
    role claim

/-- `promote` -/
def promote (report : Content) (id exploration : Str) (output : Output)
    (thresholds : Thresholds) : Except Failure Promoted := do
  let report ← readReport report
  let hypothesis ← lookup report id
  let confidence ← float setting (getOr hypothesis "confidence" (.int 0))
  let verified ← verifyCaseEvidence setting report exploration output hypothesis
  if Ieee754.lt Ieee754.binary64 confidence thresholds.confidence then
    throw (.reported (str "confidence " ++ fixed confidence ++
      str " is below promotion threshold " ++ fixed thresholds.confidence))
  else if (verified.length : Int) < thresholds.support then
    throw (.reported (str "only " ++ str (Text.decimal verified.length) ++
      str " verified supporting executions; need " ++
      str (Text.signedDecimal thresholds.support)))
  else
    let contradicting ←
      length (getOr hypothesis "contradicting_cases" (.array []))
    let supporting ← length (getOr hypothesis "supporting_cases" (.array []))
    if dominated contradicting supporting then
      throw (.reported (str "contradicting evidence dominates this hypothesis"))
    else described report hypothesis id confidence verified thresholds

end

variable (setting : Setting)

namespace Evidence

variable (evidence : Evidence)

/-- A number is the index of a supporting case. -/
def Listed (number : Int) : Prop :=
  ∃ value ∈ evidence.values, setting.python.numerals.int value = some number

/-- A case of the directory has a digest that the report records for it. -/
def Recorded (number : Int) (row : Fields) : Prop :=
  (number, row) ∈ evidence.rows ∧
    ∃ case, (number, case) ∈ evidence.cases ∧ rowDigest row = digest case

/-- The report records a case, and the directory has each that it records. -/
def Intact (number : Int) : Prop :=
  (∃ case, (number, case) ∈ evidence.cases) ∧
    ∀ case, (number, case) ∈ evidence.cases →
      ∃ row, (number, row) ∈ evidence.rows ∧ rowDigest row = digest case

/-- Different supporting cases that ran successfully. -/
def Ran (numbers : List Int) : Prop :=
  numbers.Nodup ∧ ∀ number ∈ numbers, evidence.Listed setting number ∧
    ∃ row, evidence.Recorded number row ∧ succeeded row

/-- What the promotion of a hypothesis rests on. -/
structure Backs (promoted : Promoted) : Prop where
  intact : ∀ number, evidence.Listed setting number → evidence.Intact number
  enough : ∃ numbers, evidence.Ran setting numbers ∧
    promoted.minSupport ≤ numbers.length
  verified : ∀ entry ∈ promoted.verified, entry.index ∈ evidence.values ∧
    ∃ number row, setting.python.numerals.int entry.index = some number ∧
      evidence.Recorded number row ∧ succeeded row ∧
      entry.sha256 = rowDigest row ∧
      entry.behavior = Json.get row (str "behavior_sha256")

/-- The tables have the same digest for the index of a value. -/
def Unchanged (value : Json) : Prop :=
  ∃ number, setting.python.numerals.int value = some number ∧
    ∀ row case, lastWith evidence.rows number = some row →
      lastWith evidence.cases number = some case → rowDigest row = digest case

/-- A value names a case that ran successfully. -/
def counts (value : Json) : Bool :=
  match setting.python.numerals.int value with
  | none => false
  | some number =>
      (lastWith evidence.cases number).isSome &&
        (lastWith evidence.rows number).any succeeded

/-- No supporting case is missing, every digest that was recorded before the
last one of an index is in the directory, and the values name no more
successful cases than there are. -/
structure Complete : Prop where
  present : ∀ number, evidence.Listed setting number →
    (∃ row, (number, row) ∈ evidence.rows) ∧
      ∃ case, (number, case) ∈ evidence.cases
  superseded : ∀ number, evidence.Listed setting number →
    ∀ case, (number, case) ∈ evidence.cases →
      lastWith evidence.cases number ≠ some case →
      ∃ row, (number, row) ∈ evidence.rows ∧ rowDigest row = digest case
  distinct : ∃ numbers, evidence.Ran setting numbers ∧
    evidence.values.countP (evidence.counts setting) ≤ numbers.length

end Evidence

/-- Nothing but a threshold can stop the promotion of a hypothesis. -/
structure Promotable (hypothesis : Fields) (evidence : Evidence) : Prop where
  confident : ∃ confidence,
    float setting (getOr hypothesis "confidence" (.int 0)) = .ok confidence
  unchanged : ∀ value ∈ evidence.values, evidence.Unchanged setting value
  balanced : ∃ contradicting supporting,
    length (getOr hypothesis "contradicting_cases" (.array [])) =
      .ok contradicting ∧
    length (getOr hypothesis "supporting_cases" (.array [])) = .ok supporting ∧
    dominated contradicting supporting = false
  described : ∀ key ∈ ["subject", "role", "claim"],
    (found? hypothesis key).isSome

/-- A hypothesis of a report with its evidence. -/
def Gathered (report : Content) (id exploration : Str) (output : Output)
    (hypothesis : Fields) (evidence : Evidence) : Prop :=
  ∃ fields, readReport report = .ok fields ∧ lookup fields id = .ok hypothesis ∧
    gather setting fields exploration output hypothesis = .ok evidence

/-- Every promotion that succeeds rests on the whole evidence. -/
def Guarded (report : Content) (id exploration : Str) (output : Output) :
    Prop :=
  ∀ thresholds promoted,
    promote setting report id exploration output thresholds = .ok promoted →
    promoted.minSupport = thresholds.support ∧
      ∃ hypothesis evidence,
        Gathered setting report id exploration output hypothesis evidence ∧
        evidence.Backs setting promoted

variable {setting : Setting} {evidence : Evidence}

theorem lastWith_mem {entries : List (Int × Fields)} {number : Int}
    {fields : Fields} (found : lastWith entries number = some fields) :
    (number, fields) ∈ entries := by
  obtain ⟨entry, isFound, rfl⟩ := Option.map_eq_some_iff.mp found
  have same : entry.1 = number := by
    simpa using List.find?_some isFound
  have member := List.mem_reverse.mp (List.mem_of_find?_eq_some isFound)
  rwa [← same]

theorem lastWith_isSome {entries : List (Int × Fields)} {number : Int}
    {fields : Fields} (member : (number, fields) ∈ entries) :
    (lastWith entries number).isSome := by
  rw [lastWith, Option.isSome_map, List.find?_isSome]
  exact ⟨(number, fields), List.mem_reverse.mpr member, decide_eq_true rfl⟩

/-- What the verification of a value has to say when it does not raise. -/
def outcome (setting : Setting) (evidence : Evidence) (value : Json) :
    Option Verified :=
  match setting.python.numerals.int value with
  | none => none
  | some number =>
      if (lastWith evidence.cases number).isSome then
        (lastWith evidence.rows number).bind fun row =>
          if succeeded row then
            some ⟨value, rowDigest row, Json.get row (str "behavior_sha256")⟩
          else none
      else none

theorem isSome_outcome (value : Json) :
    (outcome setting evidence value).isSome =
      evidence.counts setting value := by
  unfold outcome Evidence.counts
  cases setting.python.numerals.int value with
  | none => rfl
  | some number =>
      dsimp only
      cases (lastWith evidence.cases number).isSome with
      | false => rfl
      | true =>
          cases lastWith evidence.rows number with
          | none => rfl
          | some row =>
              cases ran : succeeded row with
              | false => simp [ran]
              | true => simp [ran]

theorem verifyCase_eq_ok {value : Json} {result : Option Verified} :
    verifyCase setting evidence value = .ok result ↔
      evidence.Unchanged setting value ∧
        outcome setting evidence value = result := by
  unfold verifyCase Evidence.Unchanged outcome int
  cases setting.python.numerals.int value with
  | none =>
      constructor
      · intro ran
        cases ran
      · rintro ⟨⟨number, none, _⟩, _⟩
        cases none
  | some number =>
      simp only [Option.some.injEq, exists_eq_left']
      change checkCase setting value (lastWith evidence.rows number)
        (lastWith evidence.cases number) = .ok result ↔ _
      cases lastWith evidence.rows number with
      | none =>
          cases lastWith evidence.cases number with
          | none => simp [checkCase]
          | some case => simp [checkCase]
      | some row =>
          cases lastWith evidence.cases number with
          | none => simp [checkCase]
          | some case =>
              by_cases same : rowDigest row = digest case
              · simp [checkCase, same]
              · simp [checkCase, same]

theorem mapM_verifyCase_eq_ok {values : List Json}
    {results : List (Option Verified)} :
    values.mapM (verifyCase setting evidence) = .ok results ↔
      (∀ value ∈ values, evidence.Unchanged setting value) ∧
        values.map (outcome setting evidence) = results := by
  induction values generalizing results with
  | nil => simp [pure, Except.pure]
  | cons value values induction =>
      rw [List.mapM_cons, Outcome.bind_eq_ok]
      constructor
      · rintro ⟨first, isFirst, ran⟩
        obtain ⟨rest, others, ran⟩ := Outcome.bind_eq_ok.mp ran
        cases ran
        obtain ⟨unchanged, rfl⟩ := verifyCase_eq_ok.mp isFirst
        obtain ⟨later, rfl⟩ := induction.mp others
        exact ⟨List.forall_mem_cons.mpr ⟨unchanged, later⟩, rfl⟩
      · rintro ⟨unchanged, rfl⟩
        obtain ⟨here, later⟩ := List.forall_mem_cons.mp unchanged
        refine ⟨_, verifyCase_eq_ok.mpr ⟨here, rfl⟩, ?_⟩
        exact Outcome.bind_eq_ok.mpr ⟨_, induction.mpr ⟨later, rfl⟩, rfl⟩

/-- As many cases are verified as values count. -/
theorem length_filterMap_outcome (values : List Json) :
    (values.filterMap (outcome setting evidence)).length =
      values.countP (evidence.counts setting) := by
  induction values with
  | nil => rfl
  | cons value values induction =>
      rw [List.filterMap_cons, List.countP_cons, ← isSome_outcome]
      cases outcome setting evidence value with
      | none => simpa using induction
      | some verified => simpa using induction

/-- A verified case ran successfully and has the digest that is recorded. -/
theorem recorded_of_outcome {value : Json} {verified : Verified}
    (unchanged : evidence.Unchanged setting value)
    (isVerified : outcome setting evidence value = some verified) :
    verified.index = value ∧ ∃ number row,
      setting.python.numerals.int value = some number ∧
      evidence.Recorded number row ∧ succeeded row ∧
      verified.sha256 = rowDigest row ∧
      verified.behavior = Json.get row (str "behavior_sha256") := by
  obtain ⟨number, isNumber, same⟩ := unchanged
  unfold outcome at isVerified
  simp only [isNumber] at isVerified
  split at isVerified
  · rename_i recorded
    obtain ⟨case, isCase⟩ := Option.isSome_iff_exists.mp recorded
    obtain ⟨row, isRow, isVerified⟩ := Option.bind_eq_some_iff.mp isVerified
    split at isVerified
    rotate_left
    · cases isVerified
    rename_i ran
    cases isVerified
    refine ⟨rfl, number, row, isNumber, ⟨lastWith_mem isRow, case, ?_, ?_⟩, ran,
      rfl, rfl⟩
    · exact lastWith_mem isCase
    · exact same row case isRow isCase
  · cases isVerified

/-- The cases that are verified for a hypothesis. -/
def verifiedOf (setting : Setting) (evidence : Evidence) : List Verified :=
  evidence.values.filterMap (outcome setting evidence)

variable {exploration id : Str} {output : Output} {report : Content}
  {fields hypothesis : Fields} {thresholds : Thresholds} {promoted : Promoted}

theorem verifyCaseEvidence_eq_ok {verified : List Verified} :
    verifyCaseEvidence setting fields exploration output hypothesis =
        .ok verified ↔
      ∃ evidence, gather setting fields exploration output hypothesis =
          .ok evidence ∧
        (∀ value ∈ evidence.values, evidence.Unchanged setting value) ∧
        verifiedOf setting evidence = verified := by
  have kept (evidence : Evidence) :
      (evidence.values.map (outcome setting evidence)).reduceOption =
        verifiedOf setting evidence := by
    change List.filterMap id _ = _
    rw [List.filterMap_map]
    rfl
  constructor
  · intro ran
    obtain ⟨evidence, gathered, ran⟩ := Outcome.bind_eq_ok.mp ran
    obtain ⟨results, each, ran⟩ := Outcome.bind_eq_ok.mp ran
    cases ran
    obtain ⟨unchanged, rfl⟩ := mapM_verifyCase_eq_ok.mp each
    exact ⟨evidence, gathered, unchanged, (kept evidence).symm⟩
  · rintro ⟨evidence, gathered, unchanged, rfl⟩
    refine Outcome.bind_eq_ok.mpr ⟨evidence, gathered, ?_⟩
    refine Outcome.bind_eq_ok.mpr
      ⟨_, mapM_verifyCase_eq_ok.mpr ⟨unchanged, rfl⟩, ?_⟩
    exact congrArg Except.ok (kept evidence)

/-- What a promotion passes. -/
structure Passes (setting : Setting) (hypothesis : Fields)
    (evidence : Evidence) (thresholds : Thresholds) (confidence : Nat) :
    Prop where
  isConfidence : float setting (getOr hypothesis "confidence" (.int 0)) =
    .ok confidence
  unchanged : ∀ value ∈ evidence.values, evidence.Unchanged setting value
  confident : Ieee754.lt Ieee754.binary64 confidence thresholds.confidence =
    false
  supported : thresholds.support ≤ (verifiedOf setting evidence).length
  balanced : ∃ contradicting supporting,
    length (getOr hypothesis "contradicting_cases" (.array [])) =
      .ok contradicting ∧
    length (getOr hypothesis "supporting_cases" (.array [])) = .ok supporting ∧
    dominated contradicting supporting = false

theorem promote_eq_ok :
    promote setting report id exploration output thresholds = .ok promoted ↔
      ∃ fields hypothesis evidence confidence,
        readReport report = .ok fields ∧ lookup fields id = .ok hypothesis ∧
        gather setting fields exploration output hypothesis = .ok evidence ∧
        Passes setting hypothesis evidence thresholds confidence ∧
        described fields hypothesis id confidence (verifiedOf setting evidence)
          thresholds = .ok promoted := by
  constructor
  · intro ran
    obtain ⟨fields, isReport, ran⟩ := Outcome.bind_eq_ok.mp ran
    obtain ⟨hypothesis, found, ran⟩ := Outcome.bind_eq_ok.mp ran
    obtain ⟨confidence, isConfidence, ran⟩ := Outcome.bind_eq_ok.mp ran
    obtain ⟨verified, verifies, ran⟩ := Outcome.bind_eq_ok.mp ran
    obtain ⟨evidence, gathered, unchanged, rfl⟩ :=
      verifyCaseEvidence_eq_ok.mp verifies
    split at ran
    · cases ran
    rename_i confident
    split at ran
    · cases ran
    rename_i supported
    obtain ⟨contradicting, against, ran⟩ := Outcome.bind_eq_ok.mp ran
    obtain ⟨supporting, supports, ran⟩ := Outcome.bind_eq_ok.mp ran
    split at ran
    · cases ran
    rename_i balanced
    refine ⟨fields, hypothesis, evidence, confidence, isReport, found, gathered,
      ⟨isConfidence, unchanged, Bool.eq_false_iff.mpr confident,
        Int.not_lt.mp supported, contradicting, supporting, against, supports,
        Bool.eq_false_iff.mpr balanced⟩, ran⟩
  · rintro ⟨fields, hypothesis, evidence, confidence, isReport, found, gathered,
      passes, ran⟩
    obtain ⟨contradicting, supporting, against, supports, balanced⟩ :=
      passes.balanced
    refine Outcome.bind_eq_ok.mpr ⟨fields, isReport, ?_⟩
    refine Outcome.bind_eq_ok.mpr ⟨hypothesis, found, ?_⟩
    refine Outcome.bind_eq_ok.mpr ⟨confidence, passes.isConfidence, ?_⟩
    refine Outcome.bind_eq_ok.mpr ⟨verifiedOf setting evidence,
      verifyCaseEvidence_eq_ok.mpr ⟨evidence, gathered, passes.unchanged, rfl⟩,
      ?_⟩
    rw [if_neg (Bool.eq_false_iff.mp passes.confident),
      if_neg (Int.not_lt.mpr passes.supported)]
    refine Outcome.bind_eq_ok.mpr ⟨contradicting, against, ?_⟩
    refine Outcome.bind_eq_ok.mpr ⟨supporting, supports, ?_⟩
    rw [if_neg (Bool.eq_false_iff.mp balanced)]
    exact ran

theorem described_eq_ok {confidence : Nat} {verified : List Verified}
    (ran : described fields hypothesis id confidence verified thresholds =
      .ok promoted) :
    (∀ key ∈ ["subject", "role", "claim"], (found? hypothesis key).isSome) ∧
      promoted.verified = verified ∧
      promoted.minSupport = thresholds.support := by
  have present {key : String} {value : Json}
      (isValue : required hypothesis key = .ok value) :
      (found? hypothesis key).isSome := by
    unfold required at isValue
    split at isValue
    · rename_i found
      rw [found]
      rfl
    · cases isValue
  obtain ⟨subject, isSubject, ran⟩ := Outcome.bind_eq_ok.mp ran
  obtain ⟨role, isRole, ran⟩ := Outcome.bind_eq_ok.mp ran
  obtain ⟨claim, isClaim, ran⟩ := Outcome.bind_eq_ok.mp ran
  cases ran
  refine ⟨?_, rfl, rfl⟩
  intro key member
  simp only [List.mem_cons, List.not_mem_nil, or_false] at member
  rcases member with rfl | rfl | rfl
  · exact present isSubject
  · exact present isRole
  · exact present isClaim

theorem described_succeeds {confidence : Nat} {verified : List Verified}
    (present : ∀ key ∈ ["subject", "role", "claim"],
      (found? hypothesis key).isSome) :
    ∃ promoted, described fields hypothesis id confidence verified thresholds =
      .ok promoted := by
  have given (key : String) (member : key ∈ ["subject", "role", "claim"]) :
      ∃ value, required hypothesis key = .ok value := by
    obtain ⟨value, found⟩ := Option.isSome_iff_exists.mp (present key member)
    exact ⟨value, by rw [required, found]⟩
  obtain ⟨subject, isSubject⟩ := given "subject" (by decide)
  obtain ⟨role, isRole⟩ := given "role" (by decide)
  obtain ⟨claim, isClaim⟩ := given "claim" (by decide)
  refine ⟨promotedAs fields hypothesis id confidence verified thresholds subject
    role claim, ?_⟩
  refine Outcome.bind_eq_ok.mpr ⟨subject, isSubject, ?_⟩
  refine Outcome.bind_eq_ok.mpr ⟨role, isRole, ?_⟩
  exact Outcome.bind_eq_ok.mpr ⟨claim, isClaim, rfl⟩

theorem promotable_of_passes {confidence : Nat}
    (passes : Passes setting hypothesis evidence thresholds confidence)
    (present : ∀ key ∈ ["subject", "role", "claim"],
      (found? hypothesis key).isSome) :
    Promotable setting hypothesis evidence :=
  ⟨⟨confidence, passes.isConfidence⟩, passes.unchanged, passes.balanced,
    present⟩

/-- The last case of an index has been compared, the others have to be there
anyhow. -/
theorem intact_of_complete (complete : evidence.Complete setting)
    (unchanged : ∀ value ∈ evidence.values, evidence.Unchanged setting value)
    {number : Int} (listed : evidence.Listed setting number) :
    evidence.Intact number := by
  obtain ⟨⟨row, isRow⟩, recorded⟩ := complete.present number listed
  refine ⟨recorded, ?_⟩
  intro case isCase
  by_cases isLast : lastWith evidence.cases number = some case
  · obtain ⟨value, member, isNumber⟩ := listed
    obtain ⟨other, isOther, same⟩ := unchanged value member
    cases isNumber.symm.trans isOther
    obtain ⟨last, found⟩ := Option.isSome_iff_exists.mp (lastWith_isSome isRow)
    exact ⟨last, lastWith_mem found, same last case found isLast⟩
  · exact complete.superseded number listed case isCase isLast

theorem backs_of_complete {confidence : Nat}
    (passes : Passes setting hypothesis evidence thresholds confidence)
    (complete : evidence.Complete setting)
    (isVerified : promoted.verified = verifiedOf setting evidence)
    (isSupport : promoted.minSupport = thresholds.support) :
    evidence.Backs setting promoted := by
  refine ⟨fun _ => intact_of_complete complete passes.unchanged, ?_, ?_⟩
  · obtain ⟨numbers, ran, counted⟩ := complete.distinct
    have supported := passes.supported
    rw [verifiedOf, length_filterMap_outcome] at supported
    refine ⟨numbers, ran, ?_⟩
    rw [isSupport]
    omega
  · intro entry member
    rw [isVerified] at member
    obtain ⟨value, inValues, isEntry⟩ := List.mem_filterMap.mp member
    obtain ⟨rfl, recorded⟩ :=
      recorded_of_outcome (passes.unchanged value inValues) isEntry
    exact ⟨inValues, recorded⟩

/-- Without a threshold in its way a promotion succeeds. -/
theorem promote_of_promotable
    (gathered : Gathered setting report id exploration output hypothesis
      evidence)
    (promotable : Promotable setting hypothesis evidence) :
    ∃ thresholds promoted,
      promote setting report id exploration output thresholds = .ok promoted ∧
      promoted.minSupport = (verifiedOf setting evidence).length := by
  obtain ⟨fields, isReport, found, ran⟩ := gathered
  obtain ⟨confidence, isConfidence⟩ := promotable.confident
  have notBelow : Ieee754.lt Ieee754.binary64 confidence confidence = false := by
    simp [Ieee754.lt]
  have given : ∃ promoted, described fields hypothesis id confidence
      (verifiedOf setting evidence)
      ⟨confidence, (verifiedOf setting evidence).length⟩ = .ok promoted :=
    described_succeeds promotable.described
  obtain ⟨promoted, isPromoted⟩ := given
  refine ⟨_, promoted, promote_eq_ok.mpr ⟨fields, hypothesis, evidence,
    confidence, isReport, found, ran, ?_, isPromoted⟩,
    (described_eq_ok isPromoted).2.2⟩
  exact ⟨isConfidence, promotable.unchanged, notBelow, le_refl _,
    promotable.balanced⟩

theorem gathered_unique {other : Fields} {others : Evidence}
    (first : Gathered setting report id exploration output hypothesis evidence)
    (second : Gathered setting report id exploration output other others) :
    hypothesis = other ∧ evidence = others := by
  obtain ⟨fields, isReport, found, gathered⟩ := first
  obtain ⟨again, isAgain, foundAgain, gatheredAgain⟩ := second
  cases isReport.symm.trans isAgain
  cases found.symm.trans foundAgain
  cases gathered.symm.trans gatheredAgain
  exact ⟨rfl, rfl⟩

theorem complete_of_backs (backs : evidence.Backs setting promoted)
    (all : promoted.minSupport = (verifiedOf setting evidence).length) :
    evidence.Complete setting where
  present number listed := by
    obtain ⟨⟨case, isCase⟩, held⟩ := backs.intact number listed
    obtain ⟨row, isRow, _⟩ := held case isCase
    exact ⟨⟨row, isRow⟩, case, isCase⟩
  superseded number listed case isCase _ :=
    (backs.intact number listed).2 case isCase
  distinct := by
    obtain ⟨numbers, ran, enough⟩ := backs.enough
    rw [all, verifiedOf, length_filterMap_outcome] at enough
    exact ⟨numbers, ran, Int.ofNat_le.mp enough⟩

/-- The promotions of a hypothesis rest on its whole evidence exactly when no
supporting case is missing, no digest has been superseded that the directory
lacks and no two values name one case — or when every promotion is refused. -/
theorem guarded_iff :
    Guarded setting report id exploration output ↔
      ∀ hypothesis evidence,
        Gathered setting report id exploration output hypothesis evidence →
        Promotable setting hypothesis evidence →
        evidence.Complete setting := by
  constructor
  · intro guarded hypothesis evidence gathered promotable
    obtain ⟨thresholds, promoted, ran, all⟩ :=
      promote_of_promotable gathered promotable
    obtain ⟨_, other, others, again, backs⟩ := guarded thresholds promoted ran
    obtain ⟨rfl, rfl⟩ := gathered_unique gathered again
    exact complete_of_backs backs all
  · intro complete thresholds promoted ran
    obtain ⟨fields, hypothesis, evidence, confidence, isReport, found, gathered,
      passes, isPromoted⟩ := promote_eq_ok.mp ran
    obtain ⟨present, isVerified, isSupport⟩ := described_eq_ok isPromoted
    have whole := complete hypothesis evidence ⟨fields, isReport, found, gathered⟩
      (promotable_of_passes passes present)
    exact ⟨isSupport, hypothesis, evidence, ⟨fields, isReport, found, gathered⟩,
      backs_of_complete passes whole isVerified isSupport⟩

private def plainSetting : Setting :=
  ⟨.ascii, .none, fun _ => .zero, fun _ _ => .zero⟩

private def plainRow (index : Int) : Fields :=
  [(str "index", .int index),
    (str "schema", .string (str "ppc-lab-exploration-case-v1")),
    (str "worker", .object [(str "ok", .bool true)])]

/-- The report of an analysis of three cases, all of which support. -/
def threeCases : Content :=
  .json (.object
    [(str "schema", reportSchema),
      (str "cases", .array ([0, 1, 2].map fun index => .object
        [(str "index", .int index),
          (str "sha256", .string (sha256Json (.object (plainRow index))))])),
      (str "hypotheses", .array [.object
        [(str "id", .string (str "hyp-001")), (str "confidence", .int 1),
          (str "subject", .string (str "registers.r3")),
          (str "role", .string (str "scalar-argument")),
          (str "claim", .string (str "r3 matters")),
          (str "supporting_cases", .array [.int 0, .int 1, .int 2])]])])

/-- The exploration after its third case was removed. -/
def twoCases : Output where
  summary := some (.json (.object
    [(str "schema", .string (str "ppc-lab-exploration-summary-v1"))]))
  cases := ⟨[(str "00000.json", .json (.object (plainRow 0))),
    (str "00001.json", .json (.object (plainRow 1)))], by decide⟩

private theorem threeCases_promoted :
    (promote plainSetting threeCases (str "hyp-001") (str "/lab/out") twoCases
      ⟨0, 2⟩).toOption.isSome = true := by
  decide +kernel

private theorem threeCases_gathered :
    (readReport threeCases).toOption.bind (fun fields =>
      (lookup fields (str "hyp-001")).toOption.bind fun hypothesis =>
        (gather plainSetting fields (str "/lab/out") twoCases
          hypothesis).toOption.map fun evidence =>
            (evidence.rows.map (·.1), evidence.values)) =
      some ([0, 1], [.int 0, .int 1, .int 2]) := by
  decide +kernel

/-- A promotion with two of three supporting cases, the third of which is
gone. -/
theorem promotion_without_case :
    ∃ promoted, promote plainSetting threeCases (str "hyp-001")
        (str "/lab/out") twoCases ⟨0, 2⟩ = .ok promoted ∧
      ¬ Guarded plainSetting threeCases (str "hyp-001") (str "/lab/out")
        twoCases := by
  have succeeds := threeCases_promoted
  cases ran : promote plainSetting threeCases (str "hyp-001") (str "/lab/out")
      twoCases ⟨0, 2⟩ with
  | error failure =>
      rw [ran] at succeeds
      cases succeeds
  | ok promoted =>
      refine ⟨promoted, rfl, ?_⟩
      intro guarded
      obtain ⟨_, hypothesis, evidence, ⟨fields, isReport, found, gathered⟩,
        backs⟩ := guarded _ _ ran
      have seen := threeCases_gathered
      simp only [isReport, found, gathered, Except.toOption, Option.bind_some,
        Option.map_some, Option.some.injEq, Prod.mk.injEq] at seen
      obtain ⟨rows, values⟩ := seen
      have listed : evidence.Listed plainSetting 2 :=
        ⟨.int 2, values ▸ by decide, rfl⟩
      obtain ⟨⟨case, isCase⟩, held⟩ := backs.intact 2 listed
      obtain ⟨row, isRow, _⟩ := held case isCase
      have number : (2 : Int) ∈ evidence.rows.map (·.1) :=
        List.mem_map.mpr ⟨_, isRow, rfl⟩
      rw [rows] at number
      exact absurd number (by decide)

end PpcLab.Hypotheses
