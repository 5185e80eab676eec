import PpcLab.Library.Json
import PpcLab.Library.Word

/-!
# SHA-256

The digest of a byte string and its hexadecimal text.  Words are numbers below
`2 ^ 32`; the schedule of a block is a window of sixteen words that moves on
with every round.
-/

namespace PpcLab.Sha256

def roundConstants : List Nat :=
  [0x428a2f98, 0x71374491, 0xb5c0fbcf, 0xe9b5dba5, 0x3956c25b, 0x59f111f1,
    0x923f82a4, 0xab1c5ed5, 0xd807aa98, 0x12835b01, 0x243185be, 0x550c7dc3,
    0x72be5d74, 0x80deb1fe, 0x9bdc06a7, 0xc19bf174, 0xe49b69c1, 0xefbe4786,
    0x0fc19dc6, 0x240ca1cc, 0x2de92c6f, 0x4a7484aa, 0x5cb0a9dc, 0x76f988da,
    0x983e5152, 0xa831c66d, 0xb00327c8, 0xbf597fc7, 0xc6e00bf3, 0xd5a79147,
    0x06ca6351, 0x14292967, 0x27b70a85, 0x2e1b2138, 0x4d2c6dfc, 0x53380d13,
    0x650a7354, 0x766a0abb, 0x81c2c92e, 0x92722c85, 0xa2bfe8a1, 0xa81a664b,
    0xc24b8b70, 0xc76c51a3, 0xd192e819, 0xd6990624, 0xf40e3585, 0x106aa070,
    0x19a4c116, 0x1e376c08, 0x2748774c, 0x34b0bcb5, 0x391c0cb3, 0x4ed8aa4a,
    0x5b9cca4f, 0x682e6ff3, 0x748f82ee, 0x78a5636f, 0x84c87814, 0x8cc70208,
    0x90befffa, 0xa4506ceb, 0xbef9a3f7, 0xc67178f2]

structure State where
  a : Nat
  b : Nat
  c : Nat
  d : Nat
  e : Nat
  f : Nat
  g : Nat
  h : Nat
  deriving DecidableEq

def State.initial : State :=
  ⟨0x6a09e667, 0xbb67ae85, 0x3c6ef372, 0xa54ff53a, 0x510e527f, 0x9b05688c,
    0x1f83d9ab, 0x5be0cd19⟩

def State.words (state : State) : List Nat :=
  [state.a, state.b, state.c, state.d, state.e, state.f, state.g, state.h]

/-- Addition of words. -/
def wrap (value : Nat) : Nat :=
  value % 0x100000000

def State.add (left right : State) : State :=
  ⟨wrap (left.a + right.a), wrap (left.b + right.b), wrap (left.c + right.c),
    wrap (left.d + right.d), wrap (left.e + right.e), wrap (left.f + right.f),
    wrap (left.g + right.g), wrap (left.h + right.h)⟩

def rotateRight (x count : Nat) : Nat :=
  x >>> count ||| wrap (x <<< (32 - count))

def choose (x y z : Nat) : Nat :=
  (x &&& y) ^^^ ((0xffffffff ^^^ x) &&& z)

def majority (x y z : Nat) : Nat :=
  (x &&& y) ^^^ (x &&& z) ^^^ (y &&& z)

def bigSigma0 (x : Nat) : Nat :=
  rotateRight x 2 ^^^ rotateRight x 13 ^^^ rotateRight x 22

def bigSigma1 (x : Nat) : Nat :=
  rotateRight x 6 ^^^ rotateRight x 11 ^^^ rotateRight x 25

def smallSigma0 (x : Nat) : Nat :=
  rotateRight x 7 ^^^ rotateRight x 18 ^^^ x >>> 3

def smallSigma1 (x : Nat) : Nat :=
  rotateRight x 17 ^^^ rotateRight x 19 ^^^ x >>> 10

def round (state : State) (constant word : Nat) : State :=
  let first := state.h + bigSigma1 state.e + choose state.e state.f state.g +
    constant + word
  let second := bigSigma0 state.a + majority state.a state.b state.c
  ⟨wrap (first + second), state.a, state.b, state.c, wrap (state.d + first),
    state.e, state.f, state.g⟩

/-- The word that follows sixteen words of the schedule. -/
def nextWord (window : List Nat) : Nat :=
  wrap (smallSigma1 (window.getD 14 0) + window.getD 9 0 +
    smallSigma0 (window.getD 1 0) + window.getD 0 0)

/-- Go on with a number that has been computed. -/
def settled {α : Type} (value : Nat) (rest : Nat → α) : α :=
  match value with
  | 0 => rest 0
  | value + 1 => rest (value + 1)

def settledAll {α : Type} : List Nat → (List Nat → α) → α
  | [], rest => rest []
  | word :: words, rest =>
      settled word fun word => settledAll words fun words =>
        rest (word :: words)

@[simp] theorem settled_eq {α : Type} (value : Nat) (rest : Nat → α) :
    settled value rest = rest value := by
  cases value <;> rfl

@[simp] theorem settledAll_eq {α : Type} (words : List Nat)
    (rest : List Nat → α) : settledAll words rest = rest words := by
  induction words generalizing rest with
  | nil => rfl
  | cons word words induction => rw [settledAll, settled_eq, induction]

def rounds : List Nat → List Nat → State → State
  | [], _, state => state
  | constant :: constants, window, state =>
      settled (nextWord window) fun next =>
        rounds constants (window.tail ++ [next])
          (round state constant (window.headD 0))

def compress (state : State) (block : List Nat) : State :=
  settledAll block fun block =>
    state.add (rounds roundConstants block state)

def wordOf (bytes : List Byte) : Nat :=
  bytes.foldl (fun word byte => 0x100 * word + byte.toNat) 0

/-- Pieces of a length, as many as there are at most. -/
def pieces {α : Type} (size : Nat) : Nat → List α → List (List α)
  | 0, _ => []
  | _, [] => []
  | count + 1, items =>
      items.take size :: pieces size count (items.drop size)

def bytesOf (count value : Nat) : List Byte :=
  (List.range count).map fun index =>
    BitVec.ofNat 8 (value / 0x100 ^ (count - 1 - index))

/-- The message, a one bit, zeros and the length in bits. -/
def padded (message : List Byte) : List Byte :=
  let length := message.length
  let zeros := (119 - length % 64) % 64
  message ++ 0x80 :: List.replicate zeros 0 ++ bytesOf 8 (8 * length)

def blocks (message : List Byte) : List (List Nat) :=
  let bytes := padded message
  (pieces 64 bytes.length bytes).map fun block =>
    (pieces 4 16 block).map wordOf

/-- The words of the digest. -/
def digest (message : List Byte) : List Nat :=
  ((blocks message).foldl compress .initial).words

def hexWord (word : Nat) : Str :=
  (List.range 8).map fun index =>
    codePoint (Nat.digitChar (word / 16 ^ (7 - index) % 16))

/-- `hexdigest()` -/
def hexdigest (message : List Byte) : Str :=
  settledAll (digest message) (·.flatMap hexWord)

example : hexdigest [0x61, 0x62, 0x63] = str
    "ba7816bf8f01cfea414140de5dae2223b00361a396177a9cb410ff61f20015ad" := by
  decide

end PpcLab.Sha256
