import PpcLab.Knowledge.Query
import PpcLab.Library.Dictionary
import PpcLab.Library.Layers
import PpcLab.Library.Outcome

/-!
# Routes through the graph

An edge joins its ends in both directions.  The database answers a question for
the edges at a node in an order of its own.

The nodes up to a depth around a node, each with its depth, and the edges the
search has come across.
-/

namespace PpcLab.Knowledge

def Edge.Joins (edge : Edge) (first second : Str) : Prop :=
  edge.source = first ∧ edge.target = second ∨
    edge.source = second ∧ edge.target = first

/-- A route of a number of edges. -/
inductive Route (edges : List Edge) (start : Str) : Nat → Str → Prop where
  | here : Route edges start 0 start
  | on {length : Nat} {node next : Str} {edge : Edge} :
      Route edges start length node → edge ∈ edges → edge.Joins node next →
      Route edges start (length + 1) next

structure AtDistance (edges : List Edge) (start : Str) (distance : Nat)
    (node : Str) : Prop where
  route : Route edges start distance node
  least : ∀ length, Route edges start length node → distance ≤ length

/-- The other end of an edge at a node. -/
def Edge.across (key : Str) (edge : Edge) : Str :=
  if edge.source = key then edge.target else edge.source

/-- The edges of a relation, or all. -/
def wantedBy (relation : Option Str) (edge : Edge) : Bool :=
  (given relation).all (· == edge.relation)

/-- What the database answers when it is asked for the edges at a node. -/
structure Selection (graph : Graph) (wanted : Edge → Bool) where
  rows : Str → List Edge
  selected : ∀ key, (rows key).Perm
    (graph.edges.filter fun edge => edge.touches key && wanted edge)

/-- The answers in the order in which the edges are stored. -/
def Selection.stored (graph : Graph) (wanted : Edge → Bool) :
    Selection graph wanted where
  rows key := graph.edges.filter fun edge => edge.touches key && wanted edge
  selected _ := .refl _

/-- A row of `nodes`, which every key has that a row of `edges` names. -/
def nodeRow (graph : Graph) (key : Str) : Except Str Node :=
  match graph.nodes.lookup key with
  | some node => .ok node
  | none => .error (str "'NoneType' object is not subscriptable")

theorem touches_iff {edge : Edge} {key : Str} :
    edge.touches key ↔ edge.source = key ∨ edge.target = key := by
  simp [Edge.touches]

theorem joins_across {edge : Edge} {key : Str} (touches : edge.touches key) :
    edge.Joins key (edge.across key) := by
  unfold Edge.across
  split
  · rename_i same
    exact .inl ⟨same, rfl⟩
  · rename_i different
    rcases touches_iff.mp touches with same | same
    · exact absurd same different
    · exact .inr ⟨rfl, same⟩

theorem Edge.Joins.touches {edge : Edge} {first second : Str}
    (joins : edge.Joins first second) : edge.touches first := by
  rw [touches_iff]
  rcases joins with ⟨same, _⟩ | ⟨_, same⟩
  · exact .inl same
  · exact .inr same

theorem Edge.Joins.across {edge : Edge} {first second : Str}
    (joins : edge.Joins first second) : edge.across first = second := by
  unfold Edge.across
  rcases joins with ⟨rfl, rfl⟩ | ⟨rfl, rfl⟩
  · rw [if_pos rfl]
  · split
    · rename_i same
      exact same.symm
    · rfl

namespace Selection

variable {graph : Graph} {wanted : Edge → Bool}
  (selection : Selection graph wanted)

def network : Network Str Edge where
  rows := selection.rows
  across := fun key edge => edge.across key

theorem mem_rows {key : Str} {edge : Edge} :
    edge ∈ selection.rows key ↔
      edge ∈ graph.edges ∧ edge.touches key ∧ wanted edge := by
  rw [(selection.selected key).mem_iff, List.mem_filter, Bool.and_eq_true]

theorem walk_iff {start node : Str} {length : Nat} :
    selection.network.Walk start length node ↔
      Route (graph.edges.filter wanted) start length node := by
  constructor
  · intro walk
    induction walk with
    | here => exact .here
    | @on length node row walk listed induction =>
        obtain ⟨stored, touches, isWanted⟩ := selection.mem_rows.mp listed
        exact .on induction (List.mem_filter.mpr ⟨stored, isWanted⟩)
          (joins_across touches)
  · intro route
    induction route with
    | here => exact .here
    | @on length node next edge route member joins induction =>
        obtain ⟨stored, isWanted⟩ := List.mem_filter.mp member
        have listed : edge ∈ selection.network.rows node :=
          selection.mem_rows.mpr ⟨stored, joins.touches, isWanted⟩
        have reached := Network.Walk.on induction listed
        rw [show selection.network.across node edge = next from joins.across]
          at reached
        exact reached

theorem isDistance_iff {start node : Str} {distance : Nat} :
    selection.network.IsDistance start distance node ↔
      AtDistance (graph.edges.filter wanted) start distance node := by
  constructor
  · intro known
    exact ⟨selection.walk_iff.mp known.walk, fun length route =>
      known.least length (selection.walk_iff.mpr route)⟩
  · intro known
    exact ⟨selection.walk_iff.mpr known.route, fun length walk =>
      known.least length (selection.walk_iff.mp walk)⟩

/-- A search that begins at a node of the graph stays in it. -/
theorem among_begin {start : Str} (there : (graph.nodes.lookup start).isSome) :
    selection.network.Among graph.nodes.keys (Network.begin start) := by
  constructor
  · intro visit member
    rw [List.mem_singleton.mp member]
    exact Keyed.mem_keys_iff.mpr there
  · intro node _ row listed
    obtain ⟨stored, _, _⟩ := selection.mem_rows.mp listed
    obtain ⟨source, target⟩ := graph.ends row stored
    apply Keyed.mem_keys_iff.mpr
    change (graph.nodes.lookup (row.across node)).isSome
    unfold Edge.across
    split
    · exact target
    · exact source

end Selection

structure RelatedSearch where
  seen : List (Str × Nat)
  queue : List Str
  edges : List Edge

/-- One row at the node `cur` of depth `d`. -/
def relatedRow (cur : Str) (d : Nat) (search : RelatedSearch) (row : Edge) :
    RelatedSearch :=
  let nxt := row.across cur
  let edges := search.edges ++ [row]
  if (search.seen.lookup nxt).isSome then { search with edges }
  else
    { seen := search.seen ++ [(nxt, d + 1)]
      queue := search.queue ++ [nxt]
      edges }

def relatedNode (rows : Str → List Edge) (depth : Nat)
    (search : RelatedSearch) (cur : Str) : RelatedSearch :=
  let d := (search.seen.lookup cur).getD 0
  if depth ≤ d then search
  else (rows cur).foldl (relatedRow cur d) search

def relatedLoop (rows : Str → List Edge) (depth : Nat) :
    (fuel : Nat) → RelatedSearch → RelatedSearch
  | 0, search => search
  | fuel + 1, search =>
      match search.queue with
      | [] => search
      | cur :: queue =>
          relatedLoop rows depth fuel
            (relatedNode rows depth { search with queue } cur)

structure RelatedDocument where
  start : Str
  depth : Nat
  nodes : List (Node × Nat)
  edges : List Edge
  deriving DecidableEq

/-- The order of `(depth, key)`. -/
def nearer (first second : Str × Nat) : Bool :=
  first.2 < second.2 ||
    first.2 == second.2 && Json.notAfter first.1 second.1

/-- A row of `nodes` with its depth. -/
def depthRow (graph : Graph) (entry : Str × Nat) : Except Str (Node × Nat) :=
  (nodeRow graph entry.1).map fun node => (node, entry.2)

/-- `related_graph`; no node is taken from the queue twice. -/
def relatedGraph (graph : Graph) {relation : Option Str}
    (selection : Selection graph (wantedBy relation)) (ref : Str)
    (depth : Nat) : Except Str RelatedDocument := do
  let start ← graph.resolveNode ref
  let search := relatedLoop selection.rows depth graph.nodes.keys.length
    ⟨[(start, 0)], [start], []⟩
  let nodes ← (search.seen.insertionSort fun first second =>
      nearer first second).mapM (depthRow graph)
  return ⟨start, depth, nodes, search.edges.eraseDups⟩

/-- What the document is to hold. -/
structure IsRelated (graph : Graph) (relation : Option Str) (start : Str)
    (depth : Nat) (document : RelatedDocument) : Prop where
  begins : document.start = start
  reaches : document.depth = depth
  nodes : ∀ node distance, (node, distance) ∈ document.nodes ↔
    graph.nodes.lookup node.key = some node ∧ distance ≤ depth ∧
      AtDistance (graph.edges.filter (wantedBy relation)) start distance
        node.key
  edges : ∀ edge, edge ∈ document.edges ↔
    edge ∈ graph.edges ∧ wantedBy relation edge ∧
      ∃ key distance, edge.touches key ∧ distance < depth ∧
        AtDistance (graph.edges.filter (wantedBy relation)) start distance key
  nodesOnce : document.nodes.Nodup
  edgesOnce : document.edges.Nodup

section Layers

variable {graph : Graph} {wanted : Edge → Bool}
  (selection : Selection graph wanted) (depth : Nat)

/-- The visits whose rows were asked for. -/
def asked (search : Network.Search Str Edge) : List Edge :=
  (search.done.filter fun visit => decide (visit.depth < depth)).flatMap
    fun visit => selection.rows visit.node

/-- The tables that stand for a search in layers. -/
def related (search : Network.Search Str Edge) : RelatedSearch where
  seen := search.visits.map fun visit => (visit.node, visit.depth)
  queue := search.queue.map Network.Visit.node
  edges := asked selection depth search

private theorem lookup_seen {search : Network.Search Str Edge}
    (nodup : (search.visits.map Network.Visit.node).Nodup)
    {visit : Network.Visit Str Edge} (visited : visit ∈ search.visits) :
    (related selection depth search).seen.lookup visit.node =
      some visit.depth := by
  refine Dictionary.lookup_of_mem ?_ (List.mem_map_of_mem visited)
  unfold related
  rw [List.map_map]
  exact nodup

/-- The rows at a node one after the other. -/
private theorem foldl_relatedRow (cur : Str) (d : Nat) (rows : List Edge)
    (search : RelatedSearch) :
    rows.foldl (relatedRow cur d) search =
      let fresh := Network.freshRows (Edge.across cur)
        (search.seen.map Prod.fst) rows
      ⟨search.seen ++ fresh.map fun row => (row.across cur, d + 1),
        search.queue ++ fresh.map (Edge.across cur),
        search.edges ++ rows⟩ := by
  induction rows generalizing search with
  | nil => simp [Network.freshRows]
  | cons row rows induction =>
      rw [List.foldl_cons, induction]
      by_cases known : row.across cur ∈ search.seen.map Prod.fst
      · have next : relatedRow cur d search row =
            { search with edges := search.edges ++ [row] } :=
          if_pos (Dictionary.lookup_isSome_iff.mpr known)
        rw [next, Network.freshRows_of_known known, List.append_assoc]
        rfl
      · have next : relatedRow cur d search row =
            ⟨search.seen ++ [(row.across cur, d + 1)],
              search.queue ++ [row.across cur], search.edges ++ [row]⟩ :=
          if_neg (mt Dictionary.lookup_isSome_iff.mp known)
        have same : ∀ node,
            node ∈ (search.seen ++ [(row.across cur, d + 1)]).map Prod.fst ↔
              node ∈ row.across cur :: search.seen.map Prod.fst := by
          intro node
          rw [List.map_append, List.mem_append, List.mem_cons, or_comm]
          simp only [List.map_cons, List.map_nil, List.mem_singleton]
        rw [next, Network.freshRows_of_new known,
          Network.freshRows_congr same]
        simp only [List.map_cons, List.append_assoc, List.singleton_append]

private theorem related_expand {search : Network.Search Str Edge}
    {visit : Network.Visit Str Edge}
    {queue : List (Network.Visit Str Edge)}
    (waits : search.queue = visit :: queue) :
    related selection depth
        (selection.network.expand depth search visit queue) =
      let fresh := selection.network.follows depth search visit
      ⟨(search.visits ++ fresh).map fun visit => (visit.node, visit.depth),
        (queue ++ fresh).map Network.Visit.node,
        asked selection depth search ++
          if depth ≤ visit.depth then [] else selection.rows visit.node⟩ := by
  have visits : (selection.network.expand depth search visit queue).visits =
      search.visits ++ selection.network.follows depth search visit :=
    Network.visits_expand waits
  have rows : asked selection depth
      (selection.network.expand depth search visit queue) =
      asked selection depth search ++
        if depth ≤ visit.depth then [] else selection.rows visit.node := by
    rw [Network.expand_eq]
    unfold asked
    rw [List.filter_append, List.flatMap_append]
    by_cases beyond : depth ≤ visit.depth
    · have outside : decide (visit.depth < depth) = false :=
        decide_eq_false (Nat.not_lt.mpr beyond)
      simp [outside, beyond]
    · have inside : decide (visit.depth < depth) = true :=
        decide_eq_true (Nat.lt_of_not_le beyond)
      simp [inside, beyond]
  unfold related
  rw [visits, rows, Network.expand_eq]

/-- The tables after a node stand for the search after it. -/
private theorem relatedNode_eq {start : Str}
    {search : Network.Search Str Edge} {visit : Network.Visit Str Edge}
    {queue : List (Network.Visit Str Edge)}
    (layered : selection.network.Layered depth start search)
    (waits : search.queue = visit :: queue) :
    relatedNode selection.rows depth
        { related selection depth search with
          queue := queue.map Network.Visit.node } visit.node =
      related selection depth
        (selection.network.expand depth search visit queue) := by
  have held : visit ∈ search.visits := by
    rw [Network.Search.visits, waits]
    simp
  have found := lookup_seen selection depth layered.nodup held
  have keys : (related selection depth search).seen.map Prod.fst =
      search.visits.map Network.Visit.node := by
    unfold related
    rw [List.map_map]
    rfl
  rw [related_expand selection depth waits]
  unfold relatedNode
  simp only [found, Option.getD_some]
  by_cases beyond : depth ≤ visit.depth
  · rw [if_pos beyond, if_pos beyond, Network.follows, if_pos beyond]
    simp [related]
  · rw [if_neg beyond, if_neg beyond, foldl_relatedRow, Network.follows,
      if_neg beyond]
    simp only [keys, Network.discovers, List.map_append, List.map_map]
    rfl

/-- The tables at the end stand for the search at its end. -/
theorem relatedLoop_eq {start : Str} (fuel : Nat)
    {search : Network.Search Str Edge}
    (layered : selection.network.Layered depth start search) :
    relatedLoop selection.rows depth fuel (related selection depth search) =
      related selection depth
        (selection.network.run depth (fun _ => false) fuel search) := by
  induction fuel generalizing search with
  | zero => rfl
  | succ fuel induction =>
      unfold relatedLoop Network.run
      cases waits : search.queue with
      | nil =>
          have empty : (related selection depth search).queue = [] := by
            simp [related, waits]
          rw [empty]
      | cons visit queue =>
          have next : (related selection depth search).queue =
              visit.node :: queue.map Network.Visit.node := by
            simp [related, waits]
          rw [next]
          simp only [Bool.false_eq_true, if_false]
          rw [relatedNode_eq selection depth layered waits]
          exact induction (layered.expand waits)

end Layers

private theorem nodup_eraseDups (edges : List Edge) : edges.eraseDups.Nodup := by
  induction length : edges.length using Nat.strongRecOn generalizing edges with
  | ind count induction =>
      cases edges with
      | nil => exact List.nodup_nil
      | cons edge edges =>
          rw [List.eraseDups_cons, List.nodup_cons]
          constructor
          · intro member
            rw [List.mem_eraseDups, List.mem_filter] at member
            simp at member
          · apply induction _ _ _ rfl
            rw [← length]
            exact Nat.lt_succ_of_le (List.length_filter_le _ _)

section Document

variable {graph : Graph}

/-- The nodes that are returned are the rows of the keys, in their order. -/
private theorem mem_rows_iff {entries : List (Str × Nat)}
    {rows : List (Node × Nat)}
    (paired : List.Forall₂ (fun entry row =>
      graph.nodes.lookup entry.1 = some row.1 ∧ entry.2 = row.2) entries rows)
    {node : Node} {distance : Nat} :
    (node, distance) ∈ rows ↔
      graph.nodes.lookup node.key = some node ∧
        (node.key, distance) ∈ entries := by
  induction paired with
  | nil => simp
  | @cons entry row entries rows related _ induction =>
      rw [List.mem_cons, List.mem_cons, induction]
      constructor
      · rintro (rfl | ⟨stored, later⟩)
        · have key := Keyed.key_of_lookup related.1
          refine ⟨key ▸ related.1, .inl ?_⟩
          exact Prod.ext key related.2.symm
        · exact ⟨stored, .inr later⟩
      · rintro ⟨stored, rfl | later⟩
        · left
          exact Prod.ext (Option.some.inj (stored.symm.trans related.1))
            related.2
        · exact .inr ⟨stored, later⟩

private theorem nodup_rows {entries : List (Str × Nat)}
    {rows : List (Node × Nat)}
    (paired : List.Forall₂ (fun entry row =>
      graph.nodes.lookup entry.1 = some row.1 ∧ entry.2 = row.2) entries rows)
    (nodup : entries.Nodup) : rows.Nodup := by
  induction paired with
  | nil => exact List.nodup_nil
  | @cons entry row entries rows related rest induction =>
      obtain ⟨absent, nodup⟩ := List.nodup_cons.mp nodup
      refine List.nodup_cons.mpr ⟨?_, induction nodup⟩
      intro member
      apply absent
      have known := ((mem_rows_iff rest).mp member).2
      rw [Keyed.key_of_lookup related.1, ← related.2] at known
      exact known

/-- Whatever order the database answers in, the nodes around a node are those
within the depth, each with its distance, and the edges those at a node before
the depth. -/
theorem relatedGraph_isRelated {relation : Option Str}
    (selection : Selection graph (wantedBy relation)) {ref start : Str}
    (depth : Nat) (resolved : graph.resolveNode ref = .ok start) :
    ∃ document, relatedGraph graph selection ref depth = .ok document ∧
      IsRelated graph relation start depth document := by
  let fuel := graph.nodes.keys.length
  let search := selection.network.run depth (fun _ => false) fuel
    (Network.begin start)
  have begins : selection.network.Layered depth start (Network.begin start) :=
    Network.layered_begin start
  have layered : selection.network.Layered depth start search :=
    begins.run fuel
  have starts := selection.among_begin (Graph.resolveNode_isSome resolved)
  have among : selection.network.Among graph.nodes.keys search :=
    starts.run fuel
  have ended : search.queue = [] := by
    have ends : search.queue = [] ∨ false = true :=
      Network.run_ends fuel begins starts (Nat.le_add_right _ _)
    exact ends.resolve_right Bool.false_ne_true
  have visits : search.visits = search.done := by
    rw [Network.Search.visits, ended, List.append_nil]
  let tables := related selection depth search
  let entries := tables.seen.insertionSort fun first second =>
    nearer first second
  have permuted : entries.Perm tables.seen := List.perm_insertionSort _ _
  have mem_entries {key : Str} {distance : Nat} :
      (key, distance) ∈ entries ↔ distance ≤ depth ∧
        AtDistance (graph.edges.filter (wantedBy relation)) start distance
          key := by
    rw [permuted.mem_iff, ← selection.isDistance_iff, and_comm,
      ← layered.exists_visit_iff ended]
    simp [tables, related]
  have nodup : entries.Nodup := by
    rw [permuted.nodup_iff]
    apply List.Nodup.of_map Prod.fst
    simp only [tables, related, List.map_map]
    exact layered.nodup
  have stored : ∀ entry ∈ entries, ∃ row : Node × Nat,
      depthRow graph entry = .ok row ∧
      graph.nodes.lookup entry.1 = some row.1 ∧ entry.2 = row.2 := by
    intro entry member
    rw [permuted.mem_iff] at member
    obtain ⟨visit, visited, rfl⟩ := List.mem_map.mp member
    obtain ⟨node, found⟩ := Option.isSome_iff_exists.mp
      (Keyed.mem_keys_iff.mp (among.inside visit visited))
    refine ⟨(node, visit.depth), ?_, found, rfl⟩
    simp only [depthRow, nodeRow, found]
    rfl
  obtain ⟨rows, listed, paired⟩ := Outcome.mapM_forall₂ stored
  refine ⟨⟨start, depth, rows, tables.edges.eraseDups⟩, ?_, ?_⟩
  · have loop : relatedLoop selection.rows depth graph.nodes.keys.length
        ⟨[(start, 0)], [start], []⟩ = tables :=
      relatedLoop_eq selection depth fuel begins
    refine Outcome.bind_eq_ok.mpr ⟨start, resolved, ?_⟩
    simp only [loop]
    exact Outcome.bind_eq_ok.mpr ⟨rows, listed, rfl⟩
  · refine ⟨rfl, rfl, ?_, ?_, nodup_rows paired nodup, nodup_eraseDups _⟩
    · intro node distance
      rw [mem_rows_iff paired, mem_entries]
    · intro edge
      have isAsked : edge ∈ tables.edges ↔ ∃ visit ∈ search.done,
          visit.depth < depth ∧ edge ∈ selection.rows visit.node := by
        simp [tables, related, asked, and_assoc]
      rw [List.mem_eraseDups, isAsked, ← visits]
      constructor
      · intro known
        obtain ⟨visit, visited, before, listed⟩ := known
        obtain ⟨isStored, touches, wanted⟩ := selection.mem_rows.mp listed
        exact ⟨isStored, wanted, visit.node, visit.depth, touches, before,
          selection.isDistance_iff.mp (layered.isDistance visited)⟩
      · intro known
        obtain ⟨isStored, wanted, key, distance, touches, before, near⟩ :=
          known
        obtain ⟨visit, visited, rfl, rfl⟩ :=
          (layered.exists_visit_iff ended).mpr
            ⟨selection.isDistance_iff.mpr near, Nat.le_of_lt before⟩
        exact ⟨visit, visited, before,
          selection.mem_rows.mpr ⟨isStored, touches, wanted⟩⟩

end Document

end PpcLab.Knowledge
