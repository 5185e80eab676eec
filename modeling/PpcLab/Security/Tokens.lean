import PpcLab.Security.Audit

/-!
# Scoped tokens

A token is an identifier and a secret with a point between them.  The store
keeps for every identifier a salt, the number of rounds and the key that was
derived from the secret.  Where the verifier raises instead of answering, the
model has no verdict.

The encoder of the store, and that its decoder reads what the encoder writes.
-/

namespace PpcLab.Security

/-- `hashlib.pbkdf2_hmac("sha256", secret, salt, rounds, dklen=32)` for a
number of rounds that it takes. -/
abbrev Derivation :=
  List Byte → List Byte → Nat → List Byte

/-- What reading a file brings. -/
inductive StoredFile where
  | missing
  | unreadable
  | undecodable
  | text (text : Str)
  deriving DecidableEq

def storeSchema : Str :=
  str "ppc-lab-auth-store-v1"

def defaultRounds : Int :=
  120000

def base64Digit (character : CodePoint) : Option Nat :=
  let value := character.val
  if 0x41 ≤ value ∧ value ≤ 0x5a then some (value - 0x41)
  else if 0x61 ≤ value ∧ value ≤ 0x7a then some (value - 0x61 + 26)
  else if 0x30 ≤ value ∧ value ≤ 0x39 then some (value - 0x30 + 52)
  else if value = 0x2b then some 62
  else if value = 0x2f then some 63
  else none

/-- The bytes of groups of four digits; the last group may be shorter. -/
def base64Bytes : List Nat → List Byte
  | first :: second :: third :: fourth :: rest =>
      let bits := ((first * 64 + second) * 64 + third) * 64 + fourth
      BitVec.ofNat 8 (bits / 0x10000) :: BitVec.ofNat 8 (bits / 0x100) ::
        BitVec.ofNat 8 bits :: base64Bytes rest
  | [first, second, third] =>
      let bits := (first * 64 + second) * 64 + third
      [BitVec.ofNat 8 (bits / 0x400), BitVec.ofNat 8 (bits / 4)]
  | [first, second] => [BitVec.ofNat 8 ((first * 64 + second) / 16)]
  | _ => []

/-- `base64.b64decode(text, validate=True)` -/
def b64decode (text : Str) : Option (List Byte) := do
  let padding := text.length - (text.takeWhile (· ≠ 0x3d)).length
  let digits ← (text.take (text.length - padding)).mapM base64Digit
  if padding ≤ 2 ∧ (text.drop (text.length - padding)).all (· = 0x3d) ∧
      text.length % 4 = 0 then
    return base64Bytes digits
  else none

variable (python : Python) (derivation : Derivation)

/-- `load_store`: `none` where an attribute of a value that is no dictionary
is asked for, or where the text cannot be decoded; `some none` for the errors
that the verifier handles. -/
def loadStore : StoredFile → Option (Option Fields)
  | .missing | .unreadable => some none
  | .undecodable => none
  | .text text =>
      match python.loads text with
      | none => some none
      | some value => do
          let doc ← value.asObject?
          if Json.get doc (str "schema") ≠ .string storeSchema then
            return none
          else return (Json.get doc (str "tokens")).asObject?

/-- The greatest number of rounds that a key is derived with. -/
def maxRounds : Int :=
  2 ^ 31 - 1

/-- `derive`: no key for a secret that is not encoded or a number of rounds
that is refused. -/
def derive (secret : Str) (salt : List Byte) (rounds : Int) :
    Option (List Byte) := do
  let bytes ← utf8 secret
  if 1 ≤ rounds ∧ rounds ≤ maxRounds then
    return derivation bytes salt rounds.toNat
  else none

/-- What is needed of a token record to verify a secret. -/
structure Credential where
  salt : List Byte
  digest : List Byte
  rounds : Int

def credential (item : Fields) : Option Credential := do
  let salt ← (Json.get item (str "salt")).asString?.bind b64decode
  let digest ← (Json.get item (str "digest")).asString?.bind b64decode
  let rounds ← python.numerals.int
    ((Json.find? item (str "rounds")).getD (.int defaultRounds))
  return ⟨salt, digest, rounds⟩

/-- `hash` is defined for a value. -/
def isHashable : Json → Bool
  | .array _ | .object _ => false
  | _ => true

/-- `set(value)` -/
def asSet : Json → Option (List Json)
  | .array items => if items.all isHashable then some items else none
  | .string text => some (text.map fun character => .string [character])
  | .object fields => some (fields.map fun member => .string member.1)
  | _ => none

def isNumber : Json → Bool
  | .int _ | .bool _ | .float _ => true
  | _ => false

/-- `sorted` does not compare values of different kinds. -/
def isSortable (items : List Json) : Bool :=
  items.all (·.asString?.isSome) || items.all isNumber ||
    items.all (decide <| · = .null)

structure Verdict where
  ok : Bool
  reason : Str
  tokenId : Option Str
  deriving DecidableEq

def refused (reason : String) (tokenId : Option Str) : Verdict :=
  ⟨false, str reason, tokenId⟩

/-- `token.split(".", 1)` -/
def splitToken (token : Str) : Option (Str × Str) :=
  match token.dropWhile (· ≠ 0x2e) with
  | [] => none
  | _ :: secret => some (token.takeWhile (· ≠ 0x2e), secret)

/-- The scopes of a record against the required one. -/
def authorize (item : Fields) (tokenId required : Str) : Option Verdict := do
  let scopes ← asSet ((Json.find? item (str "scopes")).getD (.array []))
  if isSortable scopes then
    let allowed := decide
      (.string (str "*") ∈ scopes ∨ .string required ∈ scopes)
    return ⟨allowed, str (if allowed then "ok" else "insufficient-scope"),
      some tokenId⟩
  else none

/-- A secret against the record of its identifier. -/
def verifySecret (item : Fields) (tokenId secret required : Str) :
    Option Verdict :=
  match credential python item with
  | none => some (refused "invalid-token-record" (some tokenId))
  | some stored => do
      let actual ← derive derivation secret stored.salt stored.rounds
      if actual ≠ stored.digest then
        return refused "invalid-secret" (some tokenId)
      else authorize item tokenId required

def verifyToken (store : StoredFile) (token required : Str) :
    Option Verdict :=
  match splitToken token with
  | none => some (refused "malformed-token" none)
  | some (tokenId, secret) => do
      match ← loadStore python store with
      | none => return refused "auth-store-error" none
      | some tokens =>
          match (Json.get tokens tokenId).asObject? with
          | none => return refused "unknown-token" (some tokenId)
          | some item =>
              if truthy (Json.get item (str "revoked_at")) then
                return refused "revoked" (some tokenId)
              else verifySecret python derivation item tokenId secret required

end PpcLab.Security

namespace PpcLab.Security

/-- The character of a number below 64. -/
def base64Character (digit : Nat) : CodePoint :=
  if digit < 26 then CodePoint.ofNat (0x41 + digit)
  else if digit < 52 then CodePoint.ofNat (0x61 + (digit - 26))
  else if digit < 62 then CodePoint.ofNat (0x30 + (digit - 52))
  else if digit = 62 then CodePoint.ofNat 0x2b
  else CodePoint.ofNat 0x2f

/-- Four digits for three bytes; the last group may be shorter. -/
def base64Digits : List Byte → List Nat
  | first :: second :: third :: rest =>
      first.toNat / 4 :: (first.toNat % 4 * 16 + second.toNat / 16) ::
        (second.toNat % 16 * 4 + third.toNat / 64) :: third.toNat % 64 ::
          base64Digits rest
  | [first, second] =>
      [first.toNat / 4, first.toNat % 4 * 16 + second.toNat / 16,
        second.toNat % 16 * 4]
  | [first] => [first.toNat / 4, first.toNat % 4 * 16]
  | [] => []

/-- `base64.b64encode(bytes).decode()` -/
def b64encode (bytes : List Byte) : Str :=
  let digits := base64Digits bytes
  digits.map base64Character ++
    List.replicate ((4 - digits.length % 4) % 4) 0x3d

private theorem base64Digit_small :
    ∀ digit : Fin 64, base64Digit (base64Character digit.val) =
        some digit.val ∧ base64Character digit.val ≠ 0x3d := by
  decide

theorem base64Digit_character {digit : Nat} (small : digit < 64) :
    base64Digit (base64Character digit) = some digit :=
  (base64Digit_small ⟨digit, small⟩).1

theorem base64Character_ne {digit : Nat} (small : digit < 64) :
    base64Character digit ≠ 0x3d :=
  (base64Digit_small ⟨digit, small⟩).2

private theorem toNat_lt (byte : Byte) : byte.toNat < 256 :=
  byte.isLt

theorem small_of_mem_base64Digits (bytes : List Byte) :
    ∀ digit ∈ base64Digits bytes, digit < 64 := by
  induction bytes using base64Digits.induct with
  | case1 first second third rest induction =>
      have bounds := toNat_lt first
      have bounds' := toNat_lt second
      intro digit member
      simp only [base64Digits, List.mem_cons] at member
      rcases member with rfl | rfl | rfl | rfl | member
      · omega
      · omega
      · omega
      · omega
      · exact induction digit member
  | case2 first second =>
      have bounds := toNat_lt first
      have bounds' := toNat_lt second
      intro digit member
      simp only [base64Digits, List.mem_cons, List.not_mem_nil,
        or_false] at member
      rcases member with rfl | rfl | rfl
      · omega
      · omega
      · omega
  | case3 first =>
      have bounds := toNat_lt first
      intro digit member
      simp only [base64Digits, List.mem_cons, List.not_mem_nil,
        or_false] at member
      rcases member with rfl | rfl
      · omega
      · omega
  | case4 =>
      intro digit member
      cases member

theorem length_base64Digits (bytes : List Byte) :
    (base64Digits bytes).length % 4 ≠ 1 := by
  induction bytes using base64Digits.induct with
  | case1 first second third rest induction =>
      simp only [base64Digits, List.length_cons]
      omega
  | case2 => simp [base64Digits]
  | case3 => simp [base64Digits]
  | case4 => simp [base64Digits]

private theorem byte_eq {byte : Byte} {value : Nat}
    (same : value % 256 = byte.toNat) : BitVec.ofNat 8 value = byte := by
  apply BitVec.eq_of_toNat_eq
  rw [BitVec.toNat_ofNat]
  exact same

theorem base64Bytes_digits (bytes : List Byte) :
    base64Bytes (base64Digits bytes) = bytes := by
  induction bytes using base64Digits.induct with
  | case1 first second third rest induction =>
      have bounds := toNat_lt first
      have bounds' := toNat_lt second
      have bounds'' := toNat_lt third
      rw [base64Digits, base64Bytes, induction]
      rw [byte_eq (show _ % 256 = first.toNat by omega), byte_eq (show _ % 256 = second.toNat by omega),
        byte_eq (show _ % 256 = third.toNat by omega)]
  | case2 first second =>
      have bounds := toNat_lt first
      have bounds' := toNat_lt second
      rw [base64Digits, base64Bytes, byte_eq (show _ % 256 = first.toNat by omega),
        byte_eq (show _ % 256 = second.toNat by omega)]
  | case3 first =>
      have bounds := toNat_lt first
      rw [base64Digits, base64Bytes, byte_eq (show _ % 256 = first.toNat by omega)]
  | case4 => rfl

private theorem mapM_digits {digits : List Nat}
    (small : ∀ digit ∈ digits, digit < 64) :
    (digits.map base64Character).mapM base64Digit = some digits := by
  induction digits with
  | nil => rfl
  | cons digit digits induction =>
      have others := induction fun other member => small other (by simp [member])
      rw [List.map_cons, List.mapM_cons,
        base64Digit_character (small digit (by simp)), others]
      rfl

/-- The decoder reads what the encoder wrote. -/
theorem b64decode_encode (bytes : List Byte) :
    b64decode (b64encode bytes) = some bytes := by
  have small := small_of_mem_base64Digits bytes
  have lengths := length_base64Digits bytes
  have round := base64Bytes_digits bytes
  rw [b64encode]
  generalize base64Digits bytes = digits at small lengths round
  generalize filling : (4 - digits.length % 4) % 4 = count
  have plain : ∀ character ∈ digits.map base64Character,
      decide (character ≠ 0x3d) = true := by
    intro character member
    obtain ⟨digit, there, rfl⟩ := List.mem_map.mp member
    exact decide_eq_true (base64Character_ne (small digit there))
  have before : (digits.map base64Character ++ List.replicate count 0x3d).takeWhile
      (· ≠ 0x3d) = digits.map base64Character := by
    rw [List.takeWhile_append_of_pos plain]
    cases count with
    | zero => simp
    | succ count => simp [List.replicate_succ]
  rw [b64decode, before]
  have whole : (digits.map base64Character ++ List.replicate count 0x3d).length -
      ((digits.map base64Character ++ List.replicate count 0x3d).length -
        (digits.map base64Character).length) =
      (digits.map base64Character).length := by
    rw [List.length_append]
    omega
  have padding : (digits.map base64Character ++
      List.replicate count 0x3d).length - (digits.map base64Character).length =
      count := by
    rw [List.length_append, List.length_replicate]
    omega
  rw [whole, List.take_left, List.drop_left, mapM_digits small, padding]
  have closed : count ≤ 2 ∧ (List.replicate count (0x3d : CodePoint)).all
      (· = 0x3d) ∧
      (digits.map base64Character ++ List.replicate count 0x3d).length % 4 = 0 := by
    refine ⟨by omega, ?_, ?_⟩
    · simp
    · rw [List.length_append, List.length_map, List.length_replicate]
      omega
  rw [Option.bind_eq_bind, Option.bind_some, if_pos closed, round]
  rfl

end PpcLab.Security
