import PpcLab.Library.JsonRoundTrip
import PpcLab.Library.PythonText
import PpcLab.Library.Sha256

/-!
# The audit log

A file of JSON records, one on a line.  Every record holds the hash of the
record before it and a hash of its own.  `auditAppend` continues from the last
line; `auditVerify` checks every line against the one before it.
-/

namespace PpcLab.Security

/-- What the interpreter brings along. -/
structure Python where
  unicode : Unicode
  numerals : Numerals
  /-- `float` of the text of a number. -/
  float : Str → FloatLiteral
  readsBack : ∀ text, Json.ReadsBack float (float text)

namespace Python

private theorem readsBack_zero : Json.ReadsBack (fun _ => .zero) .zero := by
  intro rest ends
  have letters : FloatLiteral.zero.text = [0x30, 0x2e, 0x30] := by
    decide
  have zeroDigit : ∀ digit ∈ ([0x30] : Str), Json.isDigit digit := by
    decide
  have digits := Json.takeWhile_digits zeroDigit ends
  have fraction : Json.readFraction (0x2e :: 0x30 :: rest) =
      ([0x2e, 0x30], rest) := by
    rw [List.singleton_append] at digits
    rw [Json.readFraction, digits.1, digits.2]
    rfl
  rw [letters, Json.readScalar]
  simp only [List.cons_append, List.nil_append]
  rw [Json.readConstant_digit _ (by decide), Option.none_or, Json.readNumber,
    if_neg (by decide), Json.readMagnitude, Json.readWhole, if_pos rfl,
    Option.bind_eq_bind, Option.bind_some]
  dsimp only
  rw [fraction]
  dsimp only
  rw [Json.readExponent_of_ends ends]
  rfl

/-- The interpreter for texts in ASCII without floats. -/
def ascii : Python where
  unicode := .ascii
  numerals := .ascii
  float _ := .zero
  readsBack _ := readsBack_zero

variable (python : Python)

def loads (text : Str) : Option Json :=
  Json.loads python.float text

end Python

/-- `bool(value)` -/
def truthy : Json → Bool
  | .null => false
  | .bool value => value
  | .int value => value != 0
  | .float literal =>
      decide (literal.text ≠ str "0.0" ∧ literal.text ≠ str "-0.0")
  | .string text => !text.isEmpty
  | .array items => !items.isEmpty
  | .object fields => !fields.isEmpty

def auditSchema : Str :=
  str "ppc-lab-audit-record-v1"

/-- The hash before the first record. -/
def zeros : Str :=
  List.replicate 64 0x30

def asciiByte (character : CodePoint) : Byte :=
  BitVec.ofNat 8 character.val

/-- `json.dumps(value, sort_keys=True, separators=(",", ":")).encode()` -/
def canonical (value : Json) : List Byte :=
  value.sorted.asciiText.map asciiByte

def hashOf (fields : Fields) : Str :=
  Sha256.hexdigest (canonical (.object fields))

/-- A dictionary without a key. -/
def without (key : Str) (fields : Fields) : Fields :=
  fields.filter fun member => member.1 ≠ key

/-- The event that the API records. -/
structure Event where
  method : Str
  path : Str
  requiredScope : Str
  allowed : Bool
  tokenId : Option Str
  client : Option Str
  deriving DecidableEq

def optional (text : Option Str) : Json :=
  text.elim .null .string

def Event.fields (event : Event) : Fields :=
  [(str "event", .string (str "api.authorization")),
    (str "method", .string event.method),
    (str "path", .string event.path),
    (str "required_scope", .string event.requiredScope),
    (str "allowed", .bool event.allowed),
    (str "token_id", optional event.tokenId),
    (str "client", optional event.client)]

/-- `{"schema": .., "seq": .., "timestamp": .., "prev_hash": .., **event}` -/
def baseRecord (prev : Str) (seq : Int) (timestamp : Str) (event : Fields) :
    Fields :=
  event.foldl Dictionary.assign
    [(str "schema", .string auditSchema), (str "seq", .int seq),
      (str "timestamp", .string timestamp), (str "prev_hash", .string prev)]

def sealed (base : Fields) : Fields :=
  Dictionary.assign base (str "record_hash", .string (hashOf base))

def recordLine (record : Fields) : Str :=
  (Json.object record).sorted.asciiText

variable (python : Python)

/-- The hash and the number of the record after `last`. -/
def continued (last : Fields) : Option (Str × Int) :=
  let prev := (Json.find? last (str "record_hash")).elim []
    python.unicode.toStr
  (python.numerals.int ((Json.find? last (str "seq")).getD (.int 0))).map
    fun seq => (prev, seq + 1)

def continuation (log : Option Str) : Option (Str × Int) :=
  match ((Lines.splitLines (log.getD [])).filter fun line =>
      !Lines.isBlank line).getLast? with
  | none => some (zeros, 1)
  | some line =>
      ((python.loads line).bind Json.asObject?).bind (continued python)

/-- The log after a record was appended; there is none if the last line cannot
be continued. -/
def auditAppend (log : Option Str) (timestamp : Str) (event : Fields) :
    Option Str := do
  let (prev, seq) ← continuation python log
  let record := sealed (baseRecord prev seq timestamp event)
  return log.getD [] ++ (recordLine record ++ [Json.lineFeed])

inductive AuditFault where
  | invalidJson
  | invalidSchema
  | previousHashMismatch
  | recordHashMismatch
  deriving DecidableEq

structure AuditError where
  line : Nat
  fault : AuditFault
  deriving DecidableEq

structure AuditReport where
  records : Nat
  head : Option Str
  errors : List AuditError
  deriving DecidableEq

def AuditReport.ok (report : AuditReport) : Bool :=
  report.errors.isEmpty

/-- What is known after some lines. -/
structure Progress where
  prev : Str
  count : Nat
  errors : List AuditError

def Progress.start : Progress :=
  ⟨zeros, 0, []⟩

/-- The faults of a record after the one with the hash `prev`. -/
def recordFaults (prev : Str) (record : Fields) : List AuditFault :=
  (if Json.get record (str "schema") ≠ .string auditSchema then
    [.invalidSchema] else []) ++
  (if Json.get record (str "prev_hash") ≠ .string prev then
    [.previousHashMismatch] else []) ++
  (if Json.get record (str "record_hash") ≠
      .string (hashOf (without (str "record_hash") record)) then
    [.recordHashMismatch] else [])

/-- `str(stored or "")` -/
def storedHash (record : Fields) : Str :=
  let stored := Json.get record (str "record_hash")
  if truthy stored then python.unicode.toStr stored else []

/-- One line; a record that is no dictionary raises. -/
def verifyLine (progress : Progress) (number : Nat) (line : Str) :
    Option Progress :=
  if Lines.isBlank line then some progress
  else
    match python.loads line with
    | none =>
        some { progress with
          count := progress.count + 1
          errors := progress.errors ++ [⟨number, .invalidJson⟩] }
    | some value => do
        let record ← value.asObject?
        return {
          prev := storedHash python record
          count := progress.count + 1
          errors := progress.errors ++
            (recordFaults progress.prev record).map (AuditError.mk number) }

def verifyLines : Progress → Nat → List Str → Option Progress
  | progress, _, [] => some progress
  | progress, number, line :: lines => do
      let next ← verifyLine python progress number line
      verifyLines next (number + 1) lines

/-- The report on a log; there is none where the verifier raises. -/
def auditVerify : Option Str → Option AuditReport
  | none => some ⟨0, none, []⟩
  | some log =>
      (verifyLines python .start 1 (Lines.splitLines log)).map fun progress =>
        ⟨progress.count, some progress.prev, progress.errors⟩

/-- The records that a log decodes to. -/
def auditRecords (log : Option Str) : List Json :=
  ((Lines.splitLines (log.getD [])).filter fun line =>
    !Lines.isBlank line).filterMap python.loads

end PpcLab.Security
