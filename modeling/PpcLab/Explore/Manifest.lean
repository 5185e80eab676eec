import PpcLab.Security.Audit

/-!
# Exploration manifests

A manifest names a base job, the axes along which it is varied and a strategy.
A manifest that passes the checks carries what they establish.
-/

namespace PpcLab.Explore

/-- How a tool ends without its result. -/
inductive Failure where
  /-- A message of the tool. -/
  | reported (message : Str)
  /-- A file that the system does not give or that is not JSON. -/
  | unreadable
  /-- Any other exception. -/
  | raised
  deriving DecidableEq

/-- What the interpreter brings along. -/
structure Setting where
  python : Security.Python
  doubles : Doubles
  /-- The text of a double. -/
  printed : Nat → FloatLiteral
  /-- `round(dividend / divisor, 6)` -/
  rate : Nat → Nat → FloatLiteral

def found? (fields : Fields) (key : String) : Option Json :=
  Json.find? fields (str key)

/-- `fields.get(key, default)` -/
def getOr (fields : Fields) (key : String) (default : Json) : Json :=
  (found? fields key).getD default

/-- `text in texts` -/
def isAmong (texts : List Str) (text : Str) : Bool :=
  texts.any (· == text)

theorem isAmong_iff {texts : List Str} {text : Str} :
    isAmong texts text ↔ text ∈ texts := by
  simp [isAmong]

/-- `path.split(".", 1)` of a path with a dot. -/
def splitPath (path : Str) : Str × Str :=
  (path.takeWhile (· ≠ 0x2e), (path.dropWhile (· ≠ 0x2e)).drop 1)

def allowedAxisRoots : List Str :=
  [str "registers", str "float_registers", str "writes_u32", str "writes_f32",
    str "bindings", str "syscall_returns"]

structure Axis where
  path : Str
  values : List Json
  dotted : 0x2e ∈ path
  allowed : isAmong allowedAxisRoots (splitPath path).1
  nonempty : values ≠ []

def indexed (index : Nat) (text : String) : Str :=
  str "axes[" ++ str (Text.decimal index) ++ str text

variable (setting : Setting)

def validateAxis (axis : Json) (index : Nat) : Except Failure Axis :=
  match axis with
  | .object fields =>
      match Json.get fields (str "path") with
      | .string path =>
          if dotted : 0x2e ∈ path then
            if allowed : isAmong allowedAxisRoots (splitPath path).1 then
              match Json.get fields (str "values") with
              | .array (value :: values) =>
                  .ok
                    { path := path
                      values := value :: values
                      dotted := dotted
                      allowed := allowed
                      nonempty := List.cons_ne_nil value values }
              | _ => .error (.reported
                  (indexed index "].values must be a non-empty array"))
            else .error (.reported
              (indexed index "].path cannot mutate structural field " ++
                setting.python.unicode.reprStr path))
          else .error (.reported (indexed index "].path must be FIELD.KEY"))
      | _ => .error (.reported (indexed index "].path must be FIELD.KEY"))
  | _ => .error (.reported (indexed index "] must be an object"))

def validateAxes : Nat → List Json → Except Failure (List Axis)
  | _, [] => .ok []
  | index, axis :: axes => do
      let axis ← validateAxis setting axis index
      let axes ← validateAxes (index + 1) axes
      return axis :: axes

inductive Strategy where
  | guided
  | cartesian
  | adaptive
  deriving DecidableEq

def Strategy.name : Strategy → Str
  | .guided => str "guided"
  | .cartesian => str "cartesian"
  | .adaptive => str "adaptive"

def strategies : List Strategy :=
  [.guided, .cartesian, .adaptive]

/-- When an adaptive search stops early. -/
structure Plateau where
  window : Nat
  rate : Nat
  minCases : Nat
  window_pos : 0 < window
  minCases_pos : 0 < minCases
  rate_ge : Doubles.notAbove 0 rate
  rate_le : Doubles.notAbove rate Doubles.one

structure Manifest where
  baseJob : Fields
  axes : List Axis
  strategy : Strategy
  plateau : Plateau
  maxCases : Nat
  isJob : Json.get baseJob (str "schema") = .string (str "ppc-lab-job-v1")
  axes_ne_nil : axes ≠ []
  distinct : (axes.map (·.path)).Nodup
  maxCases_pos : 1 ≤ maxCases
  maxCases_le : maxCases ≤ 100000

def Manifest.paths (manifest : Manifest) : List Str :=
  manifest.axes.map (·.path)

/-- `int(value)`, which raises when there is none. -/
def int (value : Json) : Except Failure Int :=
  match setting.python.numerals.int value with
  | some number => .ok number
  | none => .error .raised

/-- `float(value)`, which raises when there is none. -/
def float (value : Json) : Except Failure Nat :=
  match setting.doubles.float value with
  | some bits => .ok bits
  | none => .error .raised

/-- `0.125` -/
def eighth : Nat :=
  Doubles.quotient 1 8

/-- The number of a key that may be missing. -/
def intOr (fields : Fields) (key : String) (default : Int) :
    Except Failure Int :=
  match found? fields key with
  | some value => int setting value
  | none => .ok default

def rateOr (fields : Fields) (key : String) (default : Nat) :
    Except Failure Nat :=
  match found? fields key with
  | some value => float setting value
  | none => .ok default

def readPlateau (config : Fields) : Except Failure Plateau := do
  let window ← intOr setting config "plateau_window" 8
  let rate ← rateOr setting config "plateau_novelty_rate" eighth
  let minCases ← intOr setting config "min_cases" (max 8 window)
  if valid : (0 < window.toNat ∧ 0 < minCases.toNat) ∧
      Doubles.notAbove 0 rate ∧ Doubles.notAbove rate Doubles.one then
    return {
      window := window.toNat
      rate := rate
      minCases := minCases.toNat
      window_pos := valid.1.1
      minCases_pos := valid.1.2
      rate_ge := valid.2.1
      rate_le := valid.2.2 }
  else throw (.reported (str ("adaptive plateau_window/min_cases must be " ++
    "positive and novelty rate must be in 0..1")))

def readStrategy (value : Json) : Except Failure Strategy :=
  match strategies.find? fun strategy => decide (value = .string strategy.name) with
  | some strategy => .ok strategy
  | none => .error (.reported
      (str "strategy must be guided, adaptive, or cartesian"))

/-- The table under `adaptive`, which may be null. -/
def adaptiveConfig (manifest : Fields) : Except Failure Fields :=
  match getOr manifest "adaptive" (.object []) with
  | .object config => .ok config
  | .null => .ok []
  | _ => .error (.reported (str "adaptive must be an object"))

def maxCasesMessage : Str :=
  str "max_cases must be an integer in 1..100000"

/-- The checks of `main` before it looks for the files of the job. -/
def validate : Json → Except Failure Manifest
  | .object manifest =>
      if Json.get manifest (str "schema") =
          .string (str "ppc-lab-exploration-v1") then
        match Json.get manifest (str "base_job") with
        | .object baseJob =>
            if isJob : Json.get baseJob (str "schema") =
                .string (str "ppc-lab-job-v1") then
              match Json.get manifest (str "axes") with
              | .array (first :: others) => do
                  let first ← validateAxis setting first 0
                  let others ← validateAxes setting 1 others
                  if distinct : ((first :: others).map (·.path)).Nodup then
                    let strategy ←
                      readStrategy (getOr manifest "strategy" (.string (str "guided")))
                    let config ← adaptiveConfig manifest
                    let plateau ← readPlateau setting config
                    match getOr manifest "max_cases" (.int 64) with
                    | .int maxCases =>
                        if bounds : 1 ≤ maxCases.toNat ∧
                            maxCases.toNat ≤ 100000 then
                          return {
                            baseJob := baseJob
                            axes := first :: others
                            strategy := strategy
                            plateau := plateau
                            maxCases := maxCases.toNat
                            isJob := isJob
                            axes_ne_nil := List.cons_ne_nil first others
                            distinct := distinct
                            maxCases_pos := bounds.1
                            maxCases_le := bounds.2 }
                        else throw (.reported maxCasesMessage)
                    | _ => throw (.reported maxCasesMessage)
                  else throw (.reported (str "axis paths must be unique"))
              | _ => throw (.reported (str "axes must be a non-empty array"))
            else throw (.reported
              (str "base_job must be a ppc-lab-job-v1 object"))
        | _ => throw (.reported (str "base_job must be a ppc-lab-job-v1 object"))
      else throw (.reported
        (str "manifest schema must be ppc-lab-exploration-v1"))
  | _ => throw (.reported (str "manifest schema must be ppc-lab-exploration-v1"))

/-- What the tools ask of the file system. -/
structure Files where
  /-- `resolve(strict=True)` -/
  resolve : Str → Option Str
  isFile : Str → Bool
  size : Str → Nat
  sha256 : Str → Str

def slash : CodePoint := 0x2f

/-- `base / path` -/
def joined (base path : Str) : Str :=
  if path.head? = some slash then path
  else if base.getLast? = some slash then base ++ path
  else base ++ slash :: path

/-- A resolved path is the root or below it. -/
def isInside (root path : Str) : Bool :=
  decide (path = root) || (joined root []).isPrefixOf path

structure Input where
  field : Str
  path : Str
  size : Nat
  sha256 : Str
  deriving DecidableEq

variable (files : Files)

def contained (root path : Str) : Except Failure Str :=
  match files.resolve path with
  | none => .error .unreadable
  | some resolved =>
      if isInside root resolved then
        if files.isFile resolved then .ok resolved
        else .error (.reported (str "input is not a file: " ++ resolved))
      else .error (.reported
        (str "input is outside exploration root: " ++ resolved))

def inputFields : List Str :=
  [str "path", str "data_path"]

def resolveInput (base root : Str) (image : Fields) (field : Str) :
    Except Failure (Option Input) :=
  match Json.get image field with
  | .null => .ok none
  | .string (first :: raw) => do
      let path ← contained files root (joined base (first :: raw))
      return some
        ⟨str "image." ++ field, path, files.size path, files.sha256 path⟩
  | _ => .error (.reported
      (str "base_job.image." ++ field ++ str " must be a non-empty path"))

def resolveInputs (base root : Str) (job : Fields) :
    Except Failure (List Input) :=
  match Json.get job (str "image") with
  | .object image => do
      let inputs ← inputFields.mapM (resolveInput files base root image)
      match inputs.reduceOption with
      | [] => throw (.reported (str "base_job.image.path is required"))
      | inputs => return inputs
  | _ => throw (.reported (str "base_job.image must be an object"))

/-- A field of the image with the resolved path of its file. -/
def absoluteInput (base root : Str) (image : Fields) (field : Str) :
    Except Failure Fields :=
  match Json.get image field with
  | .null => .ok image
  | .string raw => do
      let path ← contained files root (joined base raw)
      return Dictionary.assign image (field, .string path)
  | _ => .error .raised

def absoluteJobInputs (base root : Str) (job : Fields) :
    Except Failure Fields :=
  match getOr job "image" (.object []) with
  | .object image => do
      let image ← inputFields.foldlM (absoluteInput files base root) image
      return if (found? job "image").isSome then
        Dictionary.assign job (str "image", .object image) else job
  | _ => throw .raised

end PpcLab.Explore
