import PpcLab.Explore.Manifest
import PpcLab.Library.Paths

/-!
# Target profiles

A profile describes a target whose binaries stay elsewhere.  Its document is
checked member by member; the errors are in the order in which they are found.
-/

namespace PpcLab.Target

open Explore (Failure getOr isAmong)
open Paths (dot)

def profileSchema : Str :=
  str "ppc-lab-target-profile-v1"

/-- `PROFILE_API_VERSION` -/
def profileApi : Nat :=
  1

def isDigit (character : CodePoint) : Bool :=
  0x30 ≤ character.val && character.val ≤ 0x39

def isLowercase (character : CodePoint) : Bool :=
  0x61 ≤ character.val && character.val ≤ 0x7a

def isUppercase (character : CodePoint) : Bool :=
  0x41 ≤ character.val && character.val ≤ 0x5a

/-- `[a-z0-9][a-z0-9._-]{0,63}` -/
def isId : Str → Bool
  | [] => false
  | first :: others =>
      (isLowercase first || isDigit first) && others.length ≤ 63 &&
        others.all fun character => isLowercase character ||
          isDigit character || isAmong [str ".", str "_", str "-"] [character]

/-- `[A-Z][A-Z0-9_]*` -/
def isVariable : Str → Bool
  | [] => false
  | first :: others =>
      isUppercase first && others.all fun character =>
        isUppercase character || isDigit character || [character] == str "_"

/-- `[0-9a-f]{64}` -/
def isSha256 (text : Str) : Bool :=
  text.length == 64 && text.all fun character => isDigit character ||
    (0x61 ≤ character.val && character.val ≤ 0x66)

/-- `[0-9]+` -/
def isNumber (text : Str) : Bool :=
  !text.isEmpty && text.all isDigit

def numberOf (digits : Str) : Nat :=
  digits.foldl (fun value digit => value * 10 + (digit.val - 0x30)) 0

def semverTuple (value : Str) : Except Failure (Nat × Nat × Nat) :=
  match value.splitOn dot with
  | [major, minor, patch] =>
      if isNumber major && isNumber minor && isNumber patch then
        .ok (numberOf major, numberOf minor, numberOf patch)
      else .error (.reported (str "invalid semantic version: " ++ value))
  | _ => .error (.reported (str "invalid semantic version: " ++ value))

/-- A path that does not leave the directory it is relative to. -/
def safeRel (value : Str) : Except Failure Str :=
  if Paths.isAbsolute value || isAmong (Paths.pureParts value) (str "..") then
    .error (.reported (str "unsafe relative path: " ++ value))
  else .ok (Paths.normalized value)

/-- The message of a check that fails. -/
def refusal {α : Type} (start : Str) : Except Failure α → List Str
  | .ok _ => []
  | .error (.reported message) => [start ++ message]
  | .error _ => [start]

def ensured (passed : Bool) (message : Str) : List Str :=
  if passed then [] else [message]

variable (unicode : Unicode) (doubles : Doubles)

def schemaErrors (doc : Fields) : List Str :=
  ensured (decide (Json.get doc (str "schema") = .string profileSchema))
    (str "schema must be " ++ profileSchema)

def isIdentifier : Json → Bool
  | .string ident => isId ident
  | _ => false

def identErrors (doc : Fields) : List Str :=
  ensured (isIdentifier (Json.get doc (str "id")))
    (str "id must match [a-z0-9][a-z0-9._-]\x7b0,63\x7d")

def isName : Json → Bool
  | .string name => !(unicode.strip name).isEmpty
  | _ => false

def nameErrors (doc : Fields) : List Str :=
  ensured (isName unicode (Json.get doc (str "name")))
    (str "name must be a non-empty string")

def minimumErrors (doc : Fields) : List Str :=
  refusal [] (semverTuple
    (unicode.toStr (getOr doc "minimum_ppc_lab" (.string []))))

def isPowerPc : Json → Bool
  | .object arch =>
      decide (Json.get arch (str "guest") = .string (str "ppc32")) &&
        decide (Json.get arch (str "endian") = .string (str "big"))
  | _ => false

def architectureErrors (doc : Fields) : List Str :=
  ensured (isPowerPc (Json.get doc (str "architecture")))
    (str "architecture must declare guest=ppc32 and endian=big")

/-- `inputs[i]` and what is said about it. -/
def aboutInput (index : Nat) (message : String) : Str :=
  str "inputs[" ++ str (Text.decimal index) ++ str message

/-- The check of an identifier against those that were seen, which the new one
is added to. -/
def inputIdErrors (index : Nat) (seen : List Str) (item : Fields) :
    List Str × List Str :=
  match Json.get item (str "id") with
  | .string iid =>
      if !isId iid then ([aboutInput index "].id is invalid"], seen)
      else if isAmong seen iid then ([str "duplicate input id: " ++ iid], seen)
      else ([], iid :: seen)
  | _ => ([aboutInput index "].id is invalid"], seen)

def isEnv : Json → Bool
  | .string env => isVariable env
  | _ => false

def isDigest : Json → Bool
  | .null => true
  | .string digest => isSha256 digest
  | _ => false

def inputErrors (index : Nat) (item : Fields) : List Str :=
  ensured (isEnv (Json.get item (str "env")))
    (aboutInput index "].env must be an uppercase environment variable") ++
  ensured (isDigest (Json.get item (str "sha256"))) (aboutInput index
    "].sha256 must be null or 64 lowercase hex characters") ++
  ensured (doubles.isIn (Json.get item (str "redistributable"))
    [.bool true, .bool false])
    (aboutInput index "].redistributable must be boolean")

def inputsErrors : (index : Nat) → (seen : List Str) → List Json → List Str
  | _, _, [] => []
  | index, seen, .object item :: inputs =>
      let (errors, seen) := inputIdErrors index seen item
      errors ++ inputErrors doubles index item ++
        inputsErrors (index + 1) seen inputs
  | index, seen, _ :: inputs =>
      aboutInput index "] must be an object" ::
        inputsErrors (index + 1) seen inputs

def allInputErrors (doc : Fields) : List Str :=
  match getOr doc "inputs" (.array []) with
  | .array inputs => inputsErrors doubles 0 [] inputs
  | _ => [str "inputs must be an array"]

def layoutKeys : List Str :=
  [str "scripts", str "reference", str "validation"]

def layoutErrors (doc : Fields) (key : Str) : List Str :=
  match Json.get (Json.dict (Json.get doc (str "layout"))) key with
  | .null => []
  | value =>
      refusal (str "layout." ++ key ++ str ": ") (safeRel (unicode.toStr value))

/-- `validate_doc` without a directory. -/
def documentErrors (doc : Fields) : List Str :=
  schemaErrors doc ++ identErrors doc ++ nameErrors unicode doc ++
    minimumErrors unicode doc ++ architectureErrors doc ++
    allInputErrors doubles doc ++ layoutKeys.flatMap (layoutErrors unicode doc)

section

variable {unicode : Unicode} {doubles : Doubles}

private theorem unless_eq_nil {passed : Bool} {message : Str} :
    ensured passed message = [] ↔ passed = true := by
  cases passed <;> simp [ensured]

/-- A document that passes has an identifier. -/
theorem exists_id {doc : Fields}
    (sound : documentErrors unicode doubles doc = []) :
    ∃ ident, Json.get doc (str "id") = .string ident ∧ isId ident := by
  have named : identErrors doc = [] := by
    simp only [documentErrors, List.append_eq_nil_iff] at sound
    exact sound.1.1.1.1.1.2
  have passed := unless_eq_nil.mp named
  cases held : Json.get doc (str "id") with
  | string ident =>
      rw [held] at passed
      exact ⟨ident, rfl, passed⟩
  | null | bool | int | float | array | object =>
      rw [held] at passed
      cases passed

theorem of_isId {ident : Str} (named : isId ident) {character : CodePoint}
    (listed : character ∈ ident) :
    isLowercase character || isDigit character ||
      isAmong [str ".", str "_", str "-"] [character] := by
  cases ident with
  | nil => cases listed
  | cons first others =>
      simp only [isId, Bool.and_eq_true, List.all_eq_true] at named
      rcases List.mem_cons.mp listed with rfl | later
      · rw [named.1.1]
        rfl
      · exact named.2 character later

/-- A document that passes names the version that it needs. -/
theorem exists_minimum {doc : Fields}
    (sound : documentErrors unicode doubles doc = []) :
    ∃ value, Json.find? doc (str "minimum_ppc_lab") = some value := by
  have versioned : minimumErrors unicode doc = [] := by
    simp only [documentErrors, List.append_eq_nil_iff] at sound
    exact sound.1.1.1.2
  cases held : Json.find? doc (str "minimum_ppc_lab") with
  | some value => exact ⟨value, rfl⟩
  | none =>
      have empty : unicode.toStr (.string []) = [] := rfl
      rw [minimumErrors, getOr, Explore.found?, held, Option.getD_none,
        empty] at versioned
      exact absurd versioned (by decide)

/-- The document of a new profile. -/
def skeleton (ident name description : Str) : Json :=
  .object [(str "schema", .string profileSchema),
    (str "profile_api", .int profileApi), (str "id", .string ident),
    (str "name", .string name), (str "description", .string description),
    (str "minimum_ppc_lab", .string (str "3.1.0")),
    (str "architecture", .object [(str "guest", .string (str "ppc32")),
      (str "endian", .string (str "big"))]),
    (str "inputs", .array [.object [(str "id", .string (str "image")),
      (str "env", .string (str "PPC_LAB_TARGET")),
      (str "required", .bool true), (str "redistributable", .bool false),
      (str "sha256", .null), (str "description", .string
        (str ("External target image; never committed to the profile " ++
          "by default.")))]]),
    (str "entry_points", .array []),
    (str "runtime", .object [(str "personality", .null),
      (str "bindings", .array [])]),
    (str "layout", .object [(str "scripts", .string (str "scripts")),
      (str "reference", .string (str "reference")),
      (str "validation", .string (str "validation"))]),
    (str "redistributable_files", .array []), (str "tags", .array []),
    (str "notes", .array [])]

/-- A new profile passes its own check. -/
theorem skeleton_sound {ident name description : Str} (named : isId ident)
    (visible : (unicode.strip name).isEmpty = false) :
    documentErrors unicode doubles
      (Json.dict (skeleton ident name description)) = [] := by
  have identified : identErrors (Json.dict (skeleton ident name description)) =
      ensured (isId ident)
        (str "id must match [a-z0-9][a-z0-9._-]\x7b0,63\x7d") := by
    rfl
  have called : nameErrors unicode
      (Json.dict (skeleton ident name description)) =
      ensured (!(unicode.strip name).isEmpty)
        (str "name must be a non-empty string") := by
    rfl
  have schema : schemaErrors (Json.dict (skeleton ident name description)) =
      [] := by
    rfl
  have minimum : minimumErrors unicode
      (Json.dict (skeleton ident name description)) = [] := by
    rfl
  have architecture : architectureErrors
      (Json.dict (skeleton ident name description)) = [] := by
    rfl
  have inputs : allInputErrors doubles
      (Json.dict (skeleton ident name description)) = [] := by
    rfl
  have layout : layoutKeys.flatMap (layoutErrors unicode
      (Json.dict (skeleton ident name description))) = [] := by
    rfl
  rw [documentErrors, schema, identified, called, minimum, architecture, inputs,
    layout, named, visible]
  rfl

end

end PpcLab.Target
