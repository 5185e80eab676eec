import PpcLab.Knowledge.Relations

/-!
# Ingestion into the knowledge graph

The tables of a graph, and what a batch of files does to them.  A batch is one
transaction: where a file raises, the tables are what they were before.
-/

namespace PpcLab.Knowledge

open Json

structure DocumentRow where
  sha256 : Str
  schemaName : Str
  canonicalJson : List Byte
  firstIngested : Str
  deriving DecidableEq

structure SourceRow where
  documentSha256 : Str
  sourcePath : Str
  rawSha256 : Str
  rawSize : Nat
  ingestedAt : Str
  deriving DecidableEq

def SourceRow.key (row : SourceRow) : Str × Str × Str :=
  (row.documentSha256, row.sourcePath, row.rawSha256)

structure EdgeRow where
  edge : Edge
  metadata : Json
  deriving DecidableEq

structure Tables where
  documents : Keyed DocumentRow.sha256
  sources : Keyed SourceRow.key
  nodes : Keyed Node.key
  edges : Keyed EdgeRow.edge
  ends : ∀ edge ∈ edges.keys,
    (nodes.lookup edge.source).isSome ∧ (nodes.lookup edge.target).isSome

namespace Tables

def empty : Tables where
  documents := .empty
  sources := .empty
  nodes := .empty
  edges := .empty
  ends _ member := nomatch member

/-- The graph that queries look at. -/
def graph (tables : Tables) : Graph where
  nodes := tables.nodes
  edges := tables.edges.keys
  distinct := tables.edges.nodup
  ends := tables.ends

end Tables

/-- `ON CONFLICT(node_key) DO UPDATE` -/
def Node.merge (old new : Node) : Node :=
  { old with
    label := new.label
    targetSha256 := old.targetSha256.or new.targetSha256
    address := old.address.or new.address
    metadata := if old.metadata = .object [] then new.metadata
      else old.metadata }

/-- The row of a node after `add_node`. -/
def Node.over (nodes : Keyed Node.key) (node : Node) : Node :=
  (nodes.lookup node.key).elim node fun old => old.merge node

private theorem isSome_lookup_put {nodes : Keyed Node.key} {node : Node}
    {key : Str} (found : (nodes.lookup key).isSome) :
    ((nodes.put node).lookup key).isSome := by
  by_cases same : key = node.key
  · subst same
    rw [Keyed.lookup_put_self]
    rfl
  · rw [Keyed.lookup_put_of_ne nodes same]
    exact found

namespace Tables

/-- `add_node` -/
def addNode (tables : Tables) (node : Node) : Tables :=
  { tables with
    nodes := tables.nodes.put (node.over tables.nodes)
    ends := by
      intro edge member
      obtain ⟨source, target⟩ := tables.ends edge member
      exact ⟨isSome_lookup_put source, isSome_lookup_put target⟩ }

/-- What an edge refers to. -/
def Refers (tables : Tables) (edge : Edge) : Prop :=
  (tables.nodes.lookup edge.source).isSome ∧
    (tables.nodes.lookup edge.target).isSome ∧
    (tables.documents.lookup edge.documentSha256).isSome

instance (tables : Tables) (edge : Edge) :
    Decidable (tables.Refers edge) :=
  inferInstanceAs (Decidable (_ ∧ _ ∧ _))

theorem ends_putNew {tables : Tables} {row : EdgeRow}
    (refers : tables.Refers row.edge) :
    ∀ edge ∈ (tables.edges.putNew row).keys,
      (tables.nodes.lookup edge.source).isSome ∧
      (tables.nodes.lookup edge.target).isSome := by
  intro edge member
  rw [Keyed.mem_keys_iff, Keyed.lookup_putNew, Option.isSome_or,
    Bool.or_eq_true] at member
  rcases member with old | new
  · exact tables.ends edge (Keyed.mem_keys_iff.mpr old)
  · split at new
    · next same =>
      rw [← same]
      exact ⟨refers.1, refers.2.1⟩
    · cases new

/-- `add_edge`; a reference to nothing raises. -/
def addEdge (tables : Tables) (row : EdgeRow) : Option Tables :=
  if refers : tables.Refers row.edge then
    some { tables with
      edges := tables.edges.putNew row
      ends := ends_putNew refers }
  else none

def write (tables : Tables) : Write → Option Tables
  | .node node => some (tables.addNode node)
  | .edge edge metadata => tables.addEdge ⟨edge, metadata⟩

def addDocument (tables : Tables) (row : DocumentRow) : Tables :=
  { tables with documents := tables.documents.putNew row }

def addSource (tables : Tables) (row : SourceRow) : Tables :=
  { tables with sources := tables.sources.putNew row }

end Tables

/-- A file; `raw` is nothing where it cannot be read. -/
structure File where
  path : Str
  raw : Option (List Byte)
  deriving DecidableEq

structure Summary where
  added : Nat
  deduplicated : Nat
  skipped : Nat
  relations : List Counter
  deriving DecidableEq

section Ingest

variable (host : Host) (loads : List Byte → Loaded) (forced : Option Str)

/-- `ingest_document`: the tables, whether the document was there already, and
what its relations are counted as. -/
def ingestDocument (now : Str) (tables : Tables) (doc : Fields) (path : Str)
    (raw : List Byte) : Option (Tables × Bool × List Counter) := do
  let blob ← (Json.object doc).canonical
  let digest := host.sha256 blob
  let existed := (tables.documents.lookup digest).isSome
  let tables := tables.addDocument ⟨digest, schemaOf host doc, blob, now⟩
  let tables := tables.addSource
    ⟨digest, path, host.sha256 raw, raw.length, now⟩
  let findings ← documentRelations host doc digest path forced
  let tables ← (findings.flatMap (·.writes)).foldlM Tables.write tables
  return (tables, existed, findings.flatMap (·.counted))

def isPpcLab (doc : Fields) : Bool :=
  (str "ppc-lab-").isPrefixOf
    (host.unicode.toStr ((find? doc "schema").getD (.string [])))

/-- The dictionary that a file is indexed as. -/
inductive Reading where
  | skipped
  | raises
  | document (raw : List Byte) (doc : Fields)

def File.read (file : File) : Reading :=
  match file.raw with
  | none => .skipped
  | some raw =>
      match loads raw with
      | .undecodable => .raises
      | .malformed _ => .skipped
      | .value (.object doc) =>
          if isPpcLab host doc then .document raw doc else .skipped
      | .value _ => .skipped

/-- The summary after a file that is indexed. -/
def Summary.include (summary : Summary) (existed : Bool)
    (counted : List Counter) : Summary :=
  { summary with
    added := summary.added + (!existed).toNat
    deduplicated := summary.deduplicated + existed.toNat
    relations := summary.relations ++ counted }

/-- What `ingest_paths` does with one file; `now` is the time at a path. -/
def ingestFile (now : Str → Str) (state : Tables × Summary) (file : File) :
    Option (Tables × Summary) :=
  let summary := state.2
  match file.read host loads with
  | .raises => none
  | .skipped =>
      some (state.1, { summary with skipped := summary.skipped + 1 })
  | .document raw doc => do
      let (tables, existed, counted) ← ingestDocument host forced
        (now file.path) state.1 doc file.path raw
      return (tables, summary.include existed counted)

/-- `ingest_paths` of what `candidate_files` finds; nothing when it raises,
and then the tables are rolled back. -/
def ingestPaths (now : Str → Str) (tables : Tables) (files : List File) :
    Option (Tables × Summary) :=
  files.foldlM (ingestFile host loads forced now) (tables, ⟨0, 0, 0, []⟩)

end Ingest

end PpcLab.Knowledge
