import Mathlib.Data.Prod.Lex
import PpcLab.Library.Encoding
import PpcLab.Library.Keyed

/-!
# The knowledge graph

Nodes under their keys, and edges that documents have put between them.  An
edge is known by its two ends, its relation and its document; its ends are
nodes of the graph.

The database selects nodes by their columns, sorts them and cuts the list off
at the limit; the relation is looked at afterwards, node by node.  Values that
the database cannot take raise an exception.
-/

namespace PpcLab.Knowledge

/-- A row of `nodes`. -/
structure Node where
  key : Str
  type : Str
  label : Str
  targetSha256 : Option Str := none
  address : Option Str := none
  metadata : Json := .object []
  deriving DecidableEq

/-- The primary key of a row of `edges`. -/
structure Edge where
  source : Str
  target : Str
  relation : Str
  documentSha256 : Str
  deriving DecidableEq

structure Graph where
  nodes : Keyed Node.key
  edges : List Edge
  distinct : edges.Nodup
  ends : ∀ edge ∈ edges,
    (nodes.lookup edge.source).isSome ∧ (nodes.lookup edge.target).isSome

def percent : CodePoint := 0x25

def anyCharacter : CodePoint := 0x5f

/-- The database compares texts up to the first zero. -/
def terminated (text : Str) : Str :=
  text.takeWhile (· != 0)

/-- The letters of ASCII in one case. -/
def folded (character : CodePoint) : CodePoint :=
  if 0x41 ≤ character.val ∧ character.val ≤ 0x5a then
    CodePoint.ofNat (character.val + 0x20)
  else character

/-- A text matches a pattern of characters. -/
def matchesPattern : (pattern text : Str) → Bool
  | [], text => text.isEmpty
  | wanted :: pattern, text =>
      if wanted = percent then text.tails.any (matchesPattern pattern)
      else
        match text with
        | [] => false
        | character :: text =>
            (wanted == anyCharacter || folded wanted == folded character) &&
              matchesPattern pattern text

/-- `text LIKE pattern` -/
def like (pattern text : Str) : Bool :=
  matchesPattern (terminated pattern) (terminated text)

example : like (str "%Write_") (str "fast rewrites") := by
  decide

namespace Graph

def nodeNotFound (value : Str) : Str :=
  str "node not found: " ++ value

def ambiguous (value : Str) : Str :=
  str "node reference is ambiguous: " ++ value

/-- `resolve_node` -/
def resolveNode (graph : Graph) (value : Str) : Except Str Str :=
  match graph.nodes.lookup value with
  | some node => .ok node.key
  | none =>
      match graph.nodes.keys.filter (like (value ++ [percent])) with
      | [key] => .ok key
      | [] => .error (nodeNotFound value)
      | _ => .error (ambiguous value)

theorem resolveNode_isSome {graph : Graph} {value key : Str}
    (resolved : graph.resolveNode value = .ok key) :
    (graph.nodes.lookup key).isSome := by
  unfold resolveNode at resolved
  cases found : graph.nodes.lookup value with
  | some node =>
      rw [found] at resolved
      cases resolved
      rw [Keyed.key_of_lookup found, found]
      rfl
  | none =>
      rw [found] at resolved
      generalize listed : graph.nodes.keys.filter
        (like (value ++ [percent])) = keys at resolved
      cases keys with
      | nil => cases resolved
      | cons only others =>
          cases others with
          | cons => cases resolved
          | nil =>
              cases resolved
              have member : key ∈ graph.nodes.keys.filter
                  (like (value ++ [percent])) := by
                rw [listed]
                exact List.mem_cons_self
              exact Keyed.mem_keys_iff.mp (List.mem_filter.mp member).1

end Graph

structure Query where
  type : Option Str := none
  label : Option Str := none
  targetSha256 : Option Str := none
  address : Option Str := none
  relation : Option Str := none
  limit : Int := 100

/-- An argument that is there and not empty. -/
def given (argument : Option Str) : Option Str :=
  argument.filter (· != [])

/-- `parse_address` of a text. -/
def parseAddress (numerals : Numerals) (value : Str) : Option Str :=
  (numerals.ofLiteral value).map fun number =>
    str "0x" ++ Unicode.hexDigits 8 (number % 2 ^ 32).toNat

def invalidAddress : Str :=
  str "invalid --address"

def Query.place (query : Query) (numerals : Numerals) :
    Except Str (Option Str) :=
  match given query.address with
  | none => .ok none
  | some text =>
      match parseAddress numerals text with
      | none => .error invalidAddress
      | some address => .ok (some address)

/-- What raises: `KnowledgeError`, `UnicodeEncodeError`, `OverflowError`, and
`OperationalError` for a pattern that is too long. -/
inductive Failure where
  | refused (message : Str)
  | unencodable
  | overflow
  | tooComplex
  deriving DecidableEq

/-- What is known of the database. -/
structure Sqlite where
  /-- The most bytes of a pattern. -/
  maxPattern : Nat
  /-- Some node is compared with a pattern of the query, which depends on the
  order of the comparisons. -/
  compares : Graph → Query → Bool

/-- `ORDER BY node_type,label,node_key` -/
def Node.notAfter (first second : Node) : Bool :=
  if first.type ≠ second.type then Json.notAfter first.type second.type
  else if first.label ≠ second.label then
    Json.notAfter first.label second.label
  else Json.notAfter first.key second.key

/-- The nodes in the order of a query. -/
def Graph.inOrder (graph : Graph) : List Node :=
  graph.nodes.entries.insertionSort fun first second =>
    first.notAfter second

/-- `LIMIT`; a negative one is none. -/
def limited {α : Type} (limit : Int) (rows : List α) : List α :=
  if limit < 0 then rows else rows.take limit.toNat

/-- The `WHERE` clause. -/
def Query.selects (query : Query) (unicode : Unicode) (place : Option Str)
    (node : Node) : Bool :=
  (given query.type).all (· == node.type) &&
    (given query.label).all (fun label =>
      like (percent :: label ++ [percent]) node.label) &&
    (given query.targetSha256).all (fun hash => node.targetSha256.any
      (like (unicode.lower hash ++ [percent]))) &&
    place.all fun address => node.address.any (· == address)

def Edge.touches (edge : Edge) (key : Str) : Bool :=
  edge.source == key || edge.target == key

/-- Some edge of the relation ends at the node. -/
def Graph.hit (graph : Graph) (relation : Str) (node : Node) : Bool :=
  graph.edges.any fun edge =>
    edge.touches node.key && edge.relation == relation

structure Answer where
  count : Nat
  results : List Node
  deriving DecidableEq

def Answer.of (results : List Node) : Answer :=
  ⟨results.length, results⟩

section Query

variable (sqlite : Sqlite) (unicode : Unicode) (numerals : Numerals)
  (graph : Graph) (query : Query)

def Query.patterns : List Str :=
  ((given query.label).map fun label => percent :: label ++ [percent]).toList ++
    ((given query.targetSha256).map fun hash =>
      unicode.lower hash ++ [percent]).toList

/-- The texts that are bound in the `WHERE` clause. -/
def Query.texts (place : Option Str) : List Str :=
  (given query.type).toList ++ query.patterns unicode ++ place.toList

def Query.tooComplex : Bool :=
  sqlite.compares graph query && (query.patterns unicode).any fun pattern =>
    decide (sqlite.maxPattern < ((utf8 pattern).getD []).length)

/-- An integer has sixty-four bits. -/
def isInt64 (value : Int) : Bool :=
  decide (-2 ^ 63 ≤ value ∧ value < 2 ^ 63)

/-- The rows of the statement. -/
def selected (place : Option Str) : Except Failure (List Node) :=
  if (query.texts unicode place).any (!encodes ·) then .error .unencodable
  else if !isInt64 query.limit then .error .overflow
  else if query.tooComplex sqlite unicode graph then .error .tooComplex
  else .ok (limited query.limit
    (graph.inOrder.filter (query.selects unicode place)))

/-- The relation is bound once there is a row. -/
def queryGraph : Except Failure Answer := do
  let place ← (query.place numerals).mapError .refused
  let rows ← selected sqlite unicode graph query place
  match given query.relation with
  | none => return .of rows
  | some relation =>
      if !rows.isEmpty && !encodes relation then .error .unencodable
      else return .of (rows.filter (graph.hit relation))

/-- A node that passes every filter. -/
def Query.wants (place : Option Str) (node : Node) : Bool :=
  query.selects unicode place node &&
    (given query.relation).all fun relation => graph.hit relation node

/-- The first nodes among those that pass every filter. -/
def declaredQuery : Except Failure Answer := do
  let place ← (query.place numerals).mapError .refused
  return .of (limited query.limit
    (graph.inOrder.filter (query.wants unicode graph place)))

/-- The database takes what it is given. -/
def Query.Taken (place : Option Str) : Prop :=
  (∀ text ∈ query.texts unicode place, encodes text) ∧ isInt64 query.limit ∧
    query.tooComplex sqlite unicode graph = false ∧
    ∀ relation, given query.relation = some relation →
      limited query.limit (graph.inOrder.filter (query.selects unicode place)) =
        [] ∨ encodes relation

/-- The limit does not come before the relation: there is no relation or no
limit, no node beyond the limit has the relation, or all nodes before it
have. -/
def Query.Uncut (place : Option Str) : Prop :=
  ∀ relation, given query.relation = some relation → 0 ≤ query.limit →
    let rows := graph.inOrder.filter (query.selects unicode place)
    (∀ node ∈ rows.drop query.limit.toNat, graph.hit relation node = false) ∨
      ∀ node ∈ rows.take query.limit.toNat, graph.hit relation node

def Undisturbed : Prop :=
  ∀ place, query.place numerals = .ok place →
    query.Taken sqlite unicode graph place ∧ query.Uncut unicode graph place

end Query

section Cut

variable {α : Type}

/-- Filtering what is left of a list and cutting off what was filtered are the
same when nothing beyond the cut passes, or everything before it does. -/
theorem filter_take_eq_iff (passes : α → Bool) (count : Nat)
    (rows : List α) :
    (rows.take count).filter passes = (rows.filter passes).take count ↔
      (∀ row ∈ rows.drop count, passes row = false) ∨
        ∀ row ∈ rows.take count, passes row := by
  have parts : rows.filter passes =
      (rows.take count).filter passes ++ (rows.drop count).filter passes := by
    rw [← List.filter_append, List.take_append_drop]
  have short : ((rows.take count).filter passes).length ≤ count :=
    (List.length_filter_le _ _).trans (List.length_take_le _ _)
  rw [parts, List.take_append, List.take_of_length_le short,
    List.self_eq_append_right, List.take_eq_nil_iff, List.filter_eq_nil_iff]
  constructor
  · rintro (full | beyond)
    · right
      rw [← List.length_filter_eq_length_iff]
      have most := List.length_take_le count rows
      have fewer := List.length_filter_le passes (rows.take count)
      omega
    · left
      simpa using beyond
  · rintro (beyond | before)
    · right
      simpa using beyond
    · rw [← List.length_filter_eq_length_iff, List.length_take] at before
      by_cases reached : count ≤ rows.length
      · left
        omega
      · right
        rw [List.drop_eq_nil_of_le (by omega)]
        simp

end Cut

private theorem of_inj {first second : List Node} :
    Answer.of first = Answer.of second ↔ first = second := by
  constructor
  · exact congrArg Answer.results
  · exact congrArg Answer.of

section Answered

variable (sqlite : Sqlite) (unicode : Unicode) (numerals : Numerals)
  (graph : Graph) (query : Query) (place : Option Str)

/-- The answer where nothing raises. -/
private def answered : Answer :=
  let rows := limited query.limit
    (graph.inOrder.filter (query.selects unicode place))
  match given query.relation with
  | none => .of rows
  | some relation => .of (rows.filter (graph.hit relation))

private theorem selected_eq_ok {rows : List Node} :
    selected sqlite unicode graph query place = .ok rows ↔
      ((∀ text ∈ query.texts unicode place, encodes text) ∧
        isInt64 query.limit ∧ query.tooComplex sqlite unicode graph = false) ∧
      limited query.limit (graph.inOrder.filter (query.selects unicode place)) =
        rows := by
  have texts : (query.texts unicode place).any (!encodes ·) = false ↔
      ∀ text ∈ query.texts unicode place, encodes text := by
    simp
  rw [selected, ← texts]
  cases (query.texts unicode place).any (!encodes ·) with
  | true => simp
  | false =>
      cases isInt64 query.limit with
      | false => simp
      | true => cases query.tooComplex sqlite unicode graph <;> simp

private theorem queryGraph_eq_ok (placed : query.place numerals = .ok place)
    {answer : Answer} :
    queryGraph sqlite unicode numerals graph query = .ok answer ↔
      query.Taken sqlite unicode graph place ∧
        answered unicode graph query place = answer := by
  rw [queryGraph, placed, Query.Taken, answered]
  change (selected sqlite unicode graph query place >>= _) = _ ↔ _
  cases rows : selected sqlite unicode graph query place with
  | error failure =>
      refine iff_of_false nofun ?_
      rintro ⟨⟨texts, limit, simple, _⟩, _⟩
      have ran := (selected_eq_ok sqlite unicode graph query place).mpr
        ⟨⟨texts, limit, simple⟩, rfl⟩
      rw [rows] at ran
      cases ran
  | ok rows =>
      obtain ⟨⟨texts, limit, simple⟩, rfl⟩ :=
        (selected_eq_ok sqlite unicode graph query place).mp rows
      rw [and_iff_right texts, and_iff_right limit, and_iff_right simple]
      dsimp only [bind, Except.bind]
      cases given query.relation with
      | none => simp [pure, Except.pure]
      | some relation =>
          dsimp only
          cases encodable : encodes relation with
          | true => simp [encodable, pure, Except.pure]
          | false =>
              generalize limited query.limit
                (graph.inOrder.filter (query.selects unicode place)) = rows
              cases rows <;> simp [encodable, pure, Except.pure]

/-- The answer is the declared one if the limit does not come before the
relation. -/
private theorem answered_eq_iff :
    answered unicode graph query place = .of (limited query.limit
        (graph.inOrder.filter (query.wants unicode graph place))) ↔
      query.Uncut unicode graph place := by
  rw [answered, Query.Uncut]
  cases related : given query.relation with
  | none =>
      have all : query.wants unicode graph place =
          query.selects unicode place := by
        funext node
        simp [Query.wants, related]
      simp [all]
  | some relation =>
      have both : graph.inOrder.filter (query.wants unicode graph place) =
          (graph.inOrder.filter (query.selects unicode place)).filter
            (graph.hit relation) := by
        rw [List.filter_filter]
        congr 1
        funext node
        simp [Query.wants, related, Bool.and_comm]
      dsimp only
      rw [both, of_inj]
      by_cases bounded : query.limit < 0
      · have unbounded : ¬ 0 ≤ query.limit := not_le.mpr bounded
        simp [limited, bounded, unbounded]
      · have positive : 0 ≤ query.limit := not_lt.mp bounded
        have cut := filter_take_eq_iff (graph.hit relation) query.limit.toNat
          (graph.inOrder.filter (query.selects unicode place))
        simp only [limited, bounded, if_false, cut]
        simp [positive]

end Answered

/-- Two functions, the second of which is called. -/
def twoFunctions : Graph where
  nodes := (Keyed.empty.put
    { key := str "function:global:sort"
      type := str "function"
      label := str "sort" }).put
    { key := str "function:global:read"
      type := str "function"
      label := str "read" }
  edges := [⟨str "function:global:sort", str "function:global:sort",
    str "calls", str "00"⟩]
  distinct := List.nodup_singleton _
  ends := by
    intro edge member
    rw [List.mem_singleton.mp member]
    decide

private def someSqlite : Sqlite :=
  ⟨50000, fun graph _ => !graph.nodes.entries.isEmpty⟩

end PpcLab.Knowledge
