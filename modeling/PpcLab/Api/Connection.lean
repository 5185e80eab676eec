import PpcLab.Api.Decisions

/-!
# Requests on one connection

The loop of the HTTP server reads the line and the headers of a request, calls
the handler and goes on with the bytes that the handler has left.  Where a body
stays unread these bytes are the body.  The requests that the server reads are
those that were sent as long as every body is read or empty.

A body is read when a `POST` with a valid token has a `Content-Length` that
`int` takes for a number in range.  It is read to its end when that is how long
the body is: the header has plain digits and there is no other one.
-/

namespace PpcLab.Api

open Security
open Numerals (isDigits digitsValue)

inductive Method where
  | get
  | post
  deriving DecidableEq

def Method.name : Method → Str
  | .get => str "GET"
  | .post => str "POST"

/-- What is known of a request when its handler is called. -/
structure Head where
  method : Method
  target : Str
  authorization : Option (List Byte)
  contentLengths : List Str
  transferEncoding : Bool
  /-- The loop goes on after the request. -/
  keepAlive : Bool

structure Server where
  /-- The store may change from one request to the next. -/
  mode : Nat → Mode
  clock : Nat → Str
  client : Option Str
  maxBody : Int
  /-- `urlparse(target).path`, which raises on some targets. -/
  path : Str → Option Str

/-- What the server sends: an error of its own or the answer of an endpoint,
which is given the bytes of the body. -/
inductive Reply where
  | refused (status : Nat)
  | endpoint (path : Str) (body : Option (List Byte))
  deriving DecidableEq

variable (python : Python) (derivation : Derivation) (server : Server)

/-- The most bytes that one call of `read` takes. -/
def maxRead : Int :=
  2 ^ 63 - 1

inductive Body where
  | invalid
  | tooLarge
  | read (length : Nat)
  deriving DecidableEq

/-- `_body`: how much of the stream is read, if anything. -/
def body (head : Head) : Body :=
  match head.contentLengths.head?.bind python.numerals.ofText with
  | none => .invalid
  | some length =>
      if length < 0 ∨ server.maxBody < length ∨ maxRead < length then .tooLarge
      else .read length.toNat

def isEvidence (path : Str) : Bool :=
  (str "/v1/evidence/").isPrefixOf path

def requiredScope (method : Method) (path : Str) : Str :=
  if method = .post ∧ path = str "/v1/run" then str "execute:run"
  else if isEvidence path then str "evidence:read"
  else str "status:read"

/-- The path of a request and the decision about it. -/
def decision (number : Nat) (log : AuditLog) (head : Head) :
    Option (Str × Bool × AuditLog) := do
  let path ← server.path head.target
  let (allowed, next) ← requireScope python derivation (server.mode number) log
    (server.clock number)
    ⟨head.method.name, path, head.authorization, server.client⟩
    (requiredScope head.method path)
  return (path, allowed, next)

/-- The reply to a request that is allowed, and how much of the bytes `rest`
behind its headers is read. -/
def respond (head : Head) (path : Str) (rest : List Byte) : Reply × Nat :=
  match head.method with
  | .get => (.endpoint path none, 0)
  | .post =>
      match body python server head with
      | .invalid => (.refused 400, 0)
      | .tooLarge => (.refused 413, 0)
      | .read length => (.endpoint path (some (rest.take length)), length)

def unauthorized (head : Head) : Reply :=
  .refused (if (head.authorization.getD []).isEmpty then 401 else 403)

/-- `do_GET` and `do_POST`: the reply, the log and how much was read, unless
an exception ends the connection. -/
def handle (number : Nat) (log : AuditLog) (head : Head) (rest : List Byte) :
    Option (Reply × AuditLog × Nat) := do
  let (path, allowed, next) ← decision python derivation server number log head
  if allowed then
    let (reply, length) := respond python server head path rest
    return (reply, next, length)
  else return (unauthorized head, next, 0)

/-- The loop of `http.server`.  A request that it refuses by itself closes the
connection. -/
structure HttpLoop where
  read : List Byte → Option (Head × List Byte)
  shorter : ∀ {stream rest : List Byte} {head : Head},
    read stream = some (head, rest) → rest.length < stream.length

variable (loop : HttpLoop)

/-- Where a request was read and what was sent for it. -/
structure Exchange where
  stream : List Byte
  reply : Option Reply
  deriving DecidableEq

def exchanges (number : Nat) (log : AuditLog) (stream : List Byte) :
    List Exchange :=
  if stream = [] then []
  else
    match _ : loop.read stream with
    | none => [⟨stream, none⟩]
    | some (head, rest) =>
        match handle python derivation server number log head rest with
        | none => [⟨stream, none⟩]
        | some (reply, next, length) =>
            ⟨stream, some reply⟩ ::
              if head.keepAlive then
                exchanges (number + 1) next (rest.drop length)
              else []
termination_by stream.length
decreasing_by
  have shorter := loop.shorter ‹_›
  rw [List.length_drop]
  omega

/-- The length of a body in chunks, if it has an end; the last chunk is there
even where no other one is. -/
structure Chunked where
  extent : List Byte → Option Nat
  positive : ∀ rest, extent rest ≠ some 0

variable (chunked : Chunked)

/-- The length of the body that a request declares, if it declares one. -/
def declared (head : Head) (rest : List Byte) : Option Nat :=
  if head.transferEncoding then chunked.extent rest
  else
    match head.contentLengths with
    | [] => some 0
    | length :: others =>
        if isDigits length ∧ others.all (· = length) then
          some (digitsValue length)
        else none

/-- Where the requests of a stream begin. -/
def requests (stream : List Byte) : List (List Byte) :=
  if stream = [] then []
  else stream ::
    match _ : loop.read stream with
    | none => []
    | some (head, rest) =>
        match declared chunked head rest with
        | none => []
        | some length => requests (rest.drop length)
termination_by stream.length
decreasing_by
  have shorter := loop.shorter ‹_›
  rw [List.length_drop]
  omega

/-- The first `Content-Length` is a number that the server takes. -/
def Sized (head : Head) (length : Nat) : Prop :=
  ∃ text, head.contentLengths.head? = some text ∧
    python.numerals.ofText text = some ↑length ∧
    ↑length ≤ server.maxBody ∧ ↑length ≤ maxRead

/-- A `POST` that comes with a token for its path and with a length. -/
def Accepted (number : Nat) (head : Head) (path : Str) (length : Nat) : Prop :=
  head.method = .post ∧
    Presents python derivation (server.mode number)
      ⟨head.method.name, path, head.authorization, server.client⟩
      (requiredScope head.method path) ∧
    Sized python server head length

/-- The body is as long as plain digits say, and nothing says otherwise. -/
def Plain (head : Head) (length : Str) : Prop :=
  head.transferEncoding = false ∧ head.contentLengths.head? = some length ∧
    isDigits length ∧ ∀ other ∈ head.contentLengths, other = length

/-- The request has no body. -/
def Bodiless (head : Head) : Prop :=
  (head.transferEncoding = false ∧ head.contentLengths = []) ∨
    ∃ length, Plain head length ∧ digitsValue length = 0

/-- Nothing was sent behind the request. -/
def Ends (number : Nat) (head : Head) (path : Str) (rest : List Byte) : Prop :=
  rest = [] ∨ ∃ length,
    Accepted python derivation server number head path length ∧
      rest.length ≤ length

/-- The request has no body or one that is accepted, and whose length is plain
or happens to be that of its chunks. -/
def Framed (number : Nat) (head : Head) (path : Str) (rest : List Byte) :
    Prop :=
  Bodiless head ∨ ∃ length,
    Accepted python derivation server number head path length ∧
      ((∃ text, Plain head text) ∨
        (head.transferEncoding = true ∧ chunked.extent rest = some length))

/-- Every request that was sent is the last one, closes the connection or is
framed.  Where the decision about it raises an exception it is the last one as
well. -/
def InStep (number : Nat) (log : AuditLog) (stream : List Byte) : Prop :=
  match _ : loop.read stream with
  | none => True
  | some (head, rest) =>
      ∀ path allowed next, decision python derivation server number log head =
          some (path, allowed, next) →
        head.keepAlive = true →
        Ends python derivation server number head path rest ∨
          (Framed python derivation server chunked number head path rest ∧
            ∀ length, declared chunked head rest = some length →
              InStep (number + 1) next (rest.drop length))
termination_by stream.length
decreasing_by
  have shorter := loop.shorter ‹_›
  rw [List.length_drop]
  omega

/-- The length of the body that is read, if one is. -/
private def taken (head : Head) (allowed : Bool) : Option Nat :=
  if allowed ∧ head.method = .post then
    match body python server head with
    | .read length => some length
    | _ => none
  else none

private theorem exchanges_of_refused {number : Nat} {log : AuditLog}
    {stream : List Byte} (some : stream ≠ [])
    (refused : loop.read stream = none) :
    exchanges python derivation server loop number log stream =
      [⟨stream, none⟩] := by
  rw [exchanges, if_neg some]
  split
  · rfl
  · rename_i read
    rw [refused] at read
    cases read

private theorem exchanges_of_read {number : Nat} {log : AuditLog}
    {stream rest : List Byte} {head : Head} (some : stream ≠ [])
    (read : loop.read stream = .some (head, rest)) :
    exchanges python derivation server loop number log stream =
      match handle python derivation server number log head rest with
      | none => [⟨stream, none⟩]
      | .some (reply, next, length) =>
          ⟨stream, .some reply⟩ ::
            if head.keepAlive then
              exchanges python derivation server loop (number + 1) next
                (rest.drop length)
            else [] := by
  rw [exchanges, if_neg some]
  split
  · rename_i refused
    rw [read] at refused
    cases refused
  · rename_i same
    rw [read] at same
    cases same
    rfl

private theorem requests_of_refused {stream : List Byte} (some : stream ≠ [])
    (refused : loop.read stream = none) :
    requests loop chunked stream = [stream] := by
  rw [requests, if_neg some]
  split
  · rfl
  · rename_i read
    rw [refused] at read
    cases read

private theorem requests_of_read {stream rest : List Byte} {head : Head}
    (some : stream ≠ []) (read : loop.read stream = .some (head, rest)) :
    requests loop chunked stream = stream ::
      match declared chunked head rest with
      | none => []
      | .some length => requests loop chunked (rest.drop length) := by
  rw [requests, if_neg some]
  split
  · rename_i refused
    rw [read] at refused
    cases refused
  · rename_i same
    rw [read] at same
    cases same
    rfl

private theorem inStep_of_refused {number : Nat} {log : AuditLog}
    {stream : List Byte} (refused : loop.read stream = none) :
    InStep python derivation server loop chunked number log stream := by
  rw [InStep]
  split
  · trivial
  · rename_i read
    rw [refused] at read
    cases read

private theorem inStep_of_read {number : Nat} {log : AuditLog}
    {stream rest : List Byte} {head : Head}
    (read : loop.read stream = some (head, rest)) :
    InStep python derivation server loop chunked number log stream ↔
      ∀ path allowed next, decision python derivation server number log head =
          some (path, allowed, next) →
        head.keepAlive = true →
        Ends python derivation server number head path rest ∨
          (Framed python derivation server chunked number head path rest ∧
            ∀ length, declared chunked head rest = some length →
              InStep python derivation server loop chunked (number + 1) next
                (rest.drop length)) := by
  rw [InStep]
  split
  · rename_i refused
    rw [read] at refused
    cases refused
  · rename_i same
    rw [read] at same
    cases same
    rfl

private theorem read_iff {head : Head} {length : Nat} :
    body python server head = .read length ↔ Sized python server head length := by
  rw [body, Sized]
  cases head.contentLengths.head? with
  | none => exact iff_of_false nofun nofun
  | some text =>
      simp only [Option.bind_some, Option.some.injEq, exists_eq_left']
      cases python.numerals.ofText text with
      | none => exact iff_of_false nofun nofun
      | some value =>
          dsimp only
          split
          · refine iff_of_false nofun ?_
            rintro ⟨same, small, readable⟩
            cases same
            omega
          · rw [Body.read.injEq, Option.some.injEq]
            omega

private theorem taken_eq_some {head : Head} {allowed : Bool} {length : Nat} :
    taken python server head allowed = some length ↔
      allowed = true ∧ head.method = .post ∧
        Sized python server head length := by
  rw [taken, ← read_iff, Option.ite_none_right_eq_some, and_assoc]
  cases body python server head <;> simp

private theorem decided {number : Nat} {log next : AuditLog} {head : Head}
    {path : Str} {allowed : Bool}
    (made : decision python derivation server number log head =
      some (path, allowed, next)) {length : Nat} :
    taken python server head allowed = some length ↔
      Accepted python derivation server number head path length := by
  obtain ⟨_, _, made⟩ := Option.bind_eq_some_iff.mp made
  obtain ⟨⟨_, _⟩, required, made⟩ := Option.bind_eq_some_iff.mp made
  cases made
  obtain ⟨who, answer, required⟩ := Option.bind_eq_some_iff.mp required
  obtain ⟨_, _, required⟩ := Option.bind_eq_some_iff.mp required
  cases required
  rw [taken_eq_some, isSome_of_principal python derivation answer, Accepted]
  exact and_left_comm

private theorem declared_eq_some {head : Head} {rest : List Byte}
    {length : Nat} :
    declared chunked head rest = some length ↔
      (head.transferEncoding = true ∧ chunked.extent rest = some length) ∨
      (head.transferEncoding = false ∧ head.contentLengths = [] ∧
        length = 0) ∨
      ∃ text, Plain head text ∧ digitsValue text = length := by
  unfold declared Plain
  cases head.transferEncoding with
  | true => simp
  | false =>
      cases head.contentLengths with
      | nil => simp [@eq_comm _ 0]
      | cons text others =>
          have alike : (∀ other ∈ text :: others, other = text) ↔
              others.all (· = text) := by
            rw [List.forall_mem_cons, and_iff_right rfl, List.all_eq_true]
            simp only [decide_eq_true_eq]
          dsimp only
          rw [if_neg Bool.false_ne_true, Option.ite_none_right_eq_some,
            or_iff_right (fun chunks => Bool.false_ne_true chunks.1),
            or_iff_right (fun nothing => List.cons_ne_nil _ _ nothing.2.1),
            Option.some.injEq]
          constructor
          · rintro ⟨⟨digits, same⟩, value⟩
            exact ⟨text, ⟨rfl, rfl, digits, alike.mpr same⟩, value⟩
          · rintro ⟨_, ⟨_, first, digits, same⟩, value⟩
            cases first
            exact ⟨⟨digits, alike.mp same⟩, value⟩

/-- A body that is not read has the length that is read of it if there is
none. -/
private theorem declared_zero_iff {head : Head} {rest : List Byte} :
    declared chunked head rest = some 0 ↔ Bodiless head := by
  rw [declared_eq_some, Bodiless, or_iff_right, and_iff_left rfl]
  exact fun chunks => chunked.positive rest chunks.2

/-- A plain length is the one that is read. -/
private theorem digitsValue_of_sized {head : Head} {length : Nat} {text : Str}
    (sized : Sized python server head length) (plain : Plain head text) :
    digitsValue text = length := by
  obtain ⟨_, first, isLength, _⟩ := sized
  obtain ⟨_, same, digits, _⟩ := plain
  rw [same] at first
  cases first
  rw [Numerals.ofText_of_isDigits digits] at isLength
  have same := (Option.ite_none_right_eq_some.mp isLength).2
  exact Int.ofNat.inj (Option.some.inj same)

/-- As much is read as of a body that is taken. -/
private theorem handle_eq (number : Nat) (log : AuditLog) (head : Head)
    (rest : List Byte) :
    handle python derivation server number log head rest =
      (decision python derivation server number log head).map
        fun (path, allowed, next) =>
          (if allowed then (respond python server head path rest).1
            else unauthorized head, next,
            (taken python server head allowed).getD 0) := by
  rw [handle]
  cases decision python derivation server number log head with
  | none => rfl
  | some made =>
      obtain ⟨path, allowed, next⟩ := made
      rw [Option.bind_eq_bind, Option.bind_some, Option.map_some]
      dsimp only
      cases allowed with
      | false => rfl
      | true =>
          rw [taken, respond]
          cases head.method with
          | get => rfl
          | post => cases body python server head <;> rfl

private theorem ends_iff {number : Nat} {log next : AuditLog} {head : Head}
    {path : Str} {allowed : Bool}
    (made : decision python derivation server number log head =
      some (path, allowed, next)) (rest : List Byte) :
    rest.length ≤ (taken python server head allowed).getD 0 ↔
      Ends python derivation server number head path rest := by
  simp only [Ends, ← decided python derivation server made]
  cases taken python server head allowed with
  | none => simp
  | some length =>
      constructor
      · exact fun short => .inr ⟨length, rfl, short⟩
      · rintro (rfl | ⟨_, same, short⟩)
        · exact Nat.zero_le _
        · cases same
          exact short

private theorem framed_iff {number : Nat} {log next : AuditLog} {head : Head}
    {path : Str} {allowed : Bool}
    (made : decision python derivation server number log head =
      some (path, allowed, next)) (rest : List Byte) :
    declared chunked head rest =
        some ((taken python server head allowed).getD 0) ↔
      Framed python derivation server chunked number head path rest := by
  have accepted (length : Nat) :=
    @decided python derivation server number log next head path allowed made
      length
  rw [Framed]
  cases took : taken python server head allowed with
  | none =>
      rw [Option.getD_none, declared_zero_iff, or_iff_left]
      rintro ⟨length, read, _⟩
      rw [← accepted length, took] at read
      cases read
  | some length =>
      have sized := ((accepted length).mp took).2.2
      rw [Option.getD_some, declared_eq_some]
      constructor
      · rintro (chunks | ⟨_, nothing, _⟩ | ⟨text, plain, _⟩)
        · exact .inr ⟨length, (accepted length).mp took, .inr chunks⟩
        · obtain ⟨_, first, _⟩ := sized
          rw [nothing] at first
          cases first
        · exact .inr ⟨length, (accepted length).mp took, .inl ⟨text, plain⟩⟩
      · rintro ((⟨_, nothing⟩ | ⟨text, plain, _⟩) |
          ⟨other, read, ⟨text, plain⟩ | chunks⟩)
        · obtain ⟨_, first, _⟩ := sized
          rw [nothing] at first
          cases first
        · exact .inr (.inr ⟨text, plain, digitsValue_of_sized _ _ sized plain⟩)
        · exact .inr (.inr ⟨text, plain, digitsValue_of_sized _ _ sized plain⟩)
        · rw [← accepted other, took] at read
          cases read
          exact .inl chunks

private theorem nil_of_read_nil : loop.read [] = none := by
  cases read : loop.read [] with
  | none => rfl
  | some found => exact absurd (loop.shorter read) (Nat.not_lt_zero _)

private theorem begin_of_exchanges (number : Nat) (log : AuditLog)
    {stream : List Byte} (some : stream ≠ []) :
    ∃ others, (exchanges python derivation server loop number log stream).map
      (·.stream) = stream :: others := by
  cases read : loop.read stream with
  | none =>
      rw [exchanges_of_refused python derivation server loop some read]
      exact ⟨[], rfl⟩
  | some found =>
      rw [exchanges_of_read python derivation server loop some read]
      cases handle python derivation server number log found.1 found.2 with
      | none => exact ⟨[], rfl⟩
      | some handled => exact ⟨_, rfl⟩

/-- Requests that are read elsewhere are no requests that were sent. -/
private theorem not_prefix_of_drop_ne {number read sent : Nat} {log : AuditLog}
    {rest : List Byte} (differ : sent ≠ read) (inside : read < rest.length) :
    ¬(exchanges python derivation server loop number log (rest.drop read)).map
      (·.stream) <+: requests loop chunked (rest.drop sent) := by
  have nonempty : rest.drop read ≠ [] := by
    intro nothing
    rw [List.drop_eq_nil_iff] at nothing
    omega
  obtain ⟨others, begins⟩ :=
    begin_of_exchanges python derivation server loop number log nonempty
  rw [begins]
  rintro ⟨more, whole⟩
  by_cases nothing : rest.drop sent = []
  · rw [nothing, requests, if_pos rfl] at whole
    cases whole
  · have starts : ∃ later, requests loop chunked (rest.drop sent) =
        rest.drop sent :: later := by
      rw [requests, if_neg nothing]
      exact ⟨_, rfl⟩
    obtain ⟨later, starts⟩ := starts
    rw [starts] at whole
    have same := congrArg List.length (List.cons.inj whole).1
    rw [List.length_drop, List.length_drop] at same
    omega

/-- After a body the connection is in step if as much was read as declared, or
if nothing is left. -/
private theorem prefix_after_body {number length : Nat} {log : AuditLog}
    (head : Head) {rest : List Byte}
    (further : (exchanges python derivation server loop number log
        (rest.drop length)).map (·.stream) <+:
          requests loop chunked (rest.drop length) ↔
        InStep python derivation server loop chunked number log
          (rest.drop length)) :
    ((exchanges python derivation server loop number log
        (rest.drop length)).map (·.stream) <+:
      match declared chunked head rest with
      | none => []
      | some length => requests loop chunked (rest.drop length)) ↔
      rest.length ≤ length ∨ (declared chunked head rest = some length ∧
        InStep python derivation server loop chunked number log
          (rest.drop length)) := by
  by_cases all : rest.length ≤ length
  · rw [List.drop_eq_nil_of_le all, exchanges, if_pos rfl]
    exact iff_of_true List.nil_prefix (.inl all)
  have inside := not_le.mp all
  rw [or_iff_right all]
  cases sent : declared chunked head rest with
  | none =>
      have nonempty : rest.drop length ≠ [] := by
        rw [ne_eq, List.drop_eq_nil_iff]
        exact all
      obtain ⟨others, begins⟩ :=
        begin_of_exchanges python derivation server loop number log nonempty
      refine iff_of_false ?_ nofun
      rw [begins]
      intro starts
      cases List.prefix_nil.mp starts
  | some other =>
      by_cases same : other = length
      · subst same
        rw [and_iff_right rfl]
        exact further
      · refine iff_of_false
          (not_prefix_of_drop_ne python derivation server loop chunked same
            inside) ?_
        rintro ⟨equal, _⟩
        exact same (Option.some.inj equal)

/-- The requests that are read are the ones that were sent, in their order,
as long as the connection is in step. -/
theorem exchanges_prefix_requests (number : Nat) (log : AuditLog)
    (stream : List Byte) :
    (exchanges python derivation server loop number log stream).map
        (·.stream) <+: requests loop chunked stream ↔
      InStep python derivation server loop chunked number log stream := by
  induction length : stream.length using Nat.strong_induction_on
    generalizing number log stream with
  | _ size induction =>
      subst length
      by_cases nothing : stream = []
      · subst nothing
        rw [exchanges, if_pos rfl]
        exact iff_of_true List.nil_prefix (inStep_of_refused python derivation
          server loop chunked (nil_of_read_nil loop))
      cases read : loop.read stream with
      | none =>
          rw [exchanges_of_refused python derivation server loop nothing read,
            requests_of_refused loop chunked nothing read]
          exact iff_of_true (List.prefix_refl _)
            (inStep_of_refused python derivation server loop chunked read)
      | some found =>
          obtain ⟨head, rest⟩ := found
          have shorter := loop.shorter read
          rw [exchanges_of_read python derivation server loop nothing read,
            requests_of_read loop chunked nothing read,
            inStep_of_read python derivation server loop chunked read,
            handle_eq]
          cases made : decision python derivation server number log head with
          | none => exact iff_of_true ⟨_, rfl⟩ nofun
          | some decided =>
              obtain ⟨path, allowed, next⟩ := decided
              rw [Option.map_some]
              dsimp only
              rw [List.map_cons, List.cons_prefix_cons, and_iff_right rfl]
              have step := prefix_after_body python derivation server loop
                chunked head (induction (rest.drop
                    ((taken python server head allowed).getD 0)).length (by
                  rw [List.length_drop]
                  omega) (number + 1) next _ rfl)
              rw [ends_iff python derivation server made] at step
              by_cases open_ : head.keepAlive
              · rw [if_pos open_, step]
                have framed :=
                  framed_iff python derivation server chunked made rest
                constructor
                · rintro goesOn _ _ _ same _
                  cases same
                  refine goesOn.imp id fun inside => ?_
                  refine ⟨framed.mp inside.1, fun length sent => ?_⟩
                  cases inside.1.symm.trans sent
                  exact inside.2
                · intro goesOn
                  refine (goesOn path allowed next rfl open_).imp id
                    fun inside => ?_
                  have sent := framed.mpr inside.1
                  exact ⟨sent, inside.2 _ sent⟩
              · rw [if_neg open_]
                exact iff_of_true List.nil_prefix fun _ _ _ _ goesOn =>
                  absurd goesOn open_

/-- The line and the headers of a request without a token. -/
private def runRequest : List Byte :=
  (str "POST /v1/run HTTP/1.1\r\nContent-Length: 2\r\n\r\n").map asciiByte

private def runHead : Head where
  method := .post
  target := str "/v1/run"
  authorization := none
  contentLengths := [str "2"]
  transferEncoding := false
  keepAlive := true

private def readRun (stream : List Byte) : Option (Head × List Byte) :=
  if runRequest.isPrefixOf stream then
    some (runHead, stream.drop runRequest.length)
  else none

private theorem readRun_shorter {stream rest : List Byte} {head : Head}
    (read : readRun stream = some (head, rest)) :
    rest.length < stream.length := by
  unfold readRun at read
  split at read
  · rename_i begins
    cases read
    have bound := (List.isPrefixOf_iff_prefix.mp begins).length_le
    have some : 0 < runRequest.length := by
      decide
    rw [List.length_drop]
    omega
  · cases read

/-- The loop, as far as this request needs it. -/
private def runLoop : HttpLoop where
  read := readRun
  shorter := readRun_shorter

private def tokenServer : Server where
  mode _ := .legacy (str "secret")
  clock _ := str "2026-01-01T00:00:00Z"
  client := some (str "127.0.0.1")
  maxBody := 2 ^ 20
  path := some

private def runBody : List Byte :=
  (str "\x7b\x7d").map asciiByte

private def noChunks : Chunked where
  extent _ := none
  positive := nofun

theorem body_read_as_request :
    exchanges Python.ascii (fun _ _ _ => []) tokenServer runLoop 0 .off
        (runRequest ++ runBody) =
      [⟨runRequest ++ runBody, some (.refused 401)⟩, ⟨runBody, none⟩] ∧
    requests runLoop noChunks (runRequest ++ runBody) =
      [runRequest ++ runBody] ∧
    ¬(exchanges Python.ascii (fun _ _ _ => []) tokenServer runLoop 0 .off
        (runRequest ++ runBody)).map (·.stream) <+:
      requests runLoop noChunks (runRequest ++ runBody) := by
  have nonempty : runRequest ++ runBody ≠ [] := by
    decide
  have bodyNonempty : runBody ≠ [] := by
    decide
  have read : runLoop.read (runRequest ++ runBody) =
      some (runHead, runBody) := by
    rfl
  have refused : runLoop.read runBody = none := by
    rfl
  have handled : handle Python.ascii (fun _ _ _ => []) tokenServer 0 .off
      runHead runBody = some (.refused 401, .off, 0) := by
    decide
  have sent : declared noChunks runHead runBody = some 2 := by
    decide
  have served : exchanges Python.ascii (fun _ _ _ => []) tokenServer runLoop 0
      .off (runRequest ++ runBody) =
        [⟨runRequest ++ runBody, some (.refused 401)⟩, ⟨runBody, none⟩] := by
    rw [exchanges_of_read _ _ _ _ nonempty read, handled]
    have open_ : runHead.keepAlive = true := rfl
    dsimp only
    rw [if_pos open_, List.drop_zero,
      exchanges_of_refused _ _ _ _ bodyNonempty refused]
  have single : requests runLoop noChunks (runRequest ++ runBody) =
      [runRequest ++ runBody] := by
    rw [requests_of_read _ _ nonempty read, sent]
    dsimp only
    rw [show runBody.drop 2 = [] from rfl, requests, if_pos rfl]
  refine ⟨served, single, ?_⟩
  rw [served, single]
  intro starts
  exact absurd starts.length_le (by decide)

end PpcLab.Api
