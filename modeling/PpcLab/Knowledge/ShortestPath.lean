import PpcLab.Knowledge.Related

/-!
# The shortest path between two nodes

The search stops when it has found the node it looks for.  The path is read off
the table of predecessors, from its end to its start.
-/

namespace PpcLab.Knowledge

structure PathSearch where
  prev : List (Str × Option Str)
  prevEdge : List (Str × Edge)
  queue : List Str

/-- The number of steps back to the start. -/
def chainDepth (prev : List (Str × Option Str)) : (fuel : Nat) → Str → Nat
  | 0, _ => 0
  | fuel + 1, p =>
      match (prev.lookup p).join with
      | none => 0
      | some before => chainDepth prev fuel before + 1

/-- One row at the node `cur`. -/
def pathRow (cur : Str) (search : PathSearch) (row : Edge) : PathSearch :=
  let nxt := row.across cur
  if (search.prev.lookup nxt).isSome then search
  else
    { prev := search.prev ++ [(nxt, some cur)]
      prevEdge := search.prevEdge ++ [(nxt, row)]
      queue := search.queue ++ [nxt] }

def pathNode (rows : Str → List Edge) (maxDepth : Nat) (search : PathSearch)
    (cur : Str) : PathSearch :=
  if maxDepth ≤ chainDepth search.prev search.prev.length cur then search
  else (rows cur).foldl (pathRow cur) search

def pathLoop (rows : Str → List Edge) (maxDepth : Nat) (dst : Str) :
    (fuel : Nat) → PathSearch → PathSearch
  | 0, search => search
  | fuel + 1, search =>
      match search.queue with
      | [] => search
      | cur :: queue =>
          if (search.prev.lookup dst).isSome then search
          else
            pathLoop rows maxDepth dst fuel
              (pathNode rows maxDepth { search with queue } cur)

structure PathDocument where
  found : Bool
  source : Str
  target : Str
  nodes : List Node
  edges : List Edge
  deriving DecidableEq

/-- The keys and the edges from a node back to the start. -/
def walkBack (search : PathSearch) : (fuel : Nat) → Str → List Str × List Edge
  | 0, _ => ([], [])
  | fuel + 1, cur =>
      let (chain, edgeChain) :=
        match (search.prev.lookup cur).join with
        | none => ([], [])
        | some before => walkBack search fuel before
      (cur :: chain, (search.prevEdge.lookup cur).toList ++ edgeChain)

/-- `shortest_path`; no node is taken from the queue twice. -/
def shortestPath (graph : Graph) (selection : Selection graph (wantedBy none))
    (srcRef dstRef : Str) (maxDepth : Nat) : Except Str PathDocument := do
  let src ← graph.resolveNode srcRef
  let dst ← graph.resolveNode dstRef
  let search := pathLoop selection.rows maxDepth dst graph.nodes.keys.length
    ⟨[(src, none)], [], [src]⟩
  if (search.prev.lookup dst).isSome then
    let (chain, edgeChain) := walkBack search search.prev.length dst
    let nodes ← chain.reverse.mapM (nodeRow graph)
    return ⟨true, src, dst, nodes, edgeChain.reverse⟩
  else return ⟨false, src, dst, [], []⟩

/-- Edges that join the nodes of a list one after the other. -/
inductive Trail (edges : List Edge) : List Str → List Edge → Prop where
  | one (key : Str) : Trail edges [key] []
  | step {first second : Str} {keys : List Str} {edge : Edge}
      {rest : List Edge} :
      edge ∈ edges → edge.Joins first second →
      Trail edges (second :: keys) rest →
      Trail edges (first :: second :: keys) (edge :: rest)

structure IsShortest (graph : Graph) (src dst : Str) (maxDepth : Nat)
    (document : PathDocument) : Prop where
  source : document.source = src
  target : document.target = dst
  found : document.found ↔
    ∃ length ≤ maxDepth, Route graph.edges src length dst
  empty : document.found = false →
    document.nodes = [] ∧ document.edges = []
  stored : ∀ node ∈ document.nodes,
    graph.nodes.lookup node.key = some node
  ends : document.found →
    (document.nodes.map Node.key).head? = some src ∧
      (document.nodes.map Node.key).getLast? = some dst
  trail : document.found →
    Trail graph.edges (document.nodes.map Node.key) document.edges
  shortest : document.found →
    AtDistance graph.edges src document.edges.length dst

section Trails

variable {edges : List Edge} {keys : List Str} {rest : List Edge}

theorem Edge.Joins.symm {edge : Edge} {first second : Str}
    (joins : edge.Joins first second) : edge.Joins second first :=
  Or.symm joins

private theorem Trail.snoc {edge : Edge} {last next : Str}
    (trail : Trail edges keys rest) (ends : keys.getLast? = some last)
    (listed : edge ∈ edges) (joins : edge.Joins last next) :
    Trail edges (keys ++ [next]) (rest ++ [edge]) := by
  induction trail with
  | one key =>
      cases ends
      exact .step listed joins (.one next)
  | @step first second keys other rest member joined _ induction =>
      rw [List.getLast?_cons_cons] at ends
      exact .step member joined (induction ends)

/-- A trail can be followed from its end. -/
theorem Trail.reverse (trail : Trail edges keys rest) :
    Trail edges keys.reverse rest.reverse := by
  induction trail with
  | one key => exact .one key
  | @step first second keys edge rest listed joins _ induction =>
      have ends : (second :: keys).reverse.getLast? = some second := by
        rw [List.getLast?_reverse]
        rfl
      have back := Trail.snoc induction ends listed joins.symm
      rw [← List.reverse_cons, ← List.reverse_cons] at back
      exact back

end Trails

section Layers

variable {graph : Graph} {wanted : Edge → Bool}
  (selection : Selection graph wanted) (maxDepth : Nat)

/-- The tables that stand for a search in layers. -/
def pathTables (search : Network.Search Str Edge) : PathSearch where
  prev := search.visits.map fun visit =>
    (visit.node, visit.parent.map Prod.fst)
  prevEdge := search.visits.filterMap fun visit =>
    visit.parent.map fun parent => (visit.node, parent.2)
  queue := search.queue.map Network.Visit.node

section Lookup

variable {search : Network.Search Str Edge}

private theorem keys_prev :
    (pathTables search).prev.map Prod.fst =
      search.visits.map Network.Visit.node := by
  unfold pathTables
  rw [List.map_map]
  rfl

private theorem keys_prevEdge :
    ((pathTables search).prevEdge.map Prod.fst).Sublist
      (search.visits.map Network.Visit.node) := by
  unfold pathTables
  induction search.visits with
  | nil => exact List.Sublist.slnil
  | cons visit visits induction =>
      cases found : visit.parent with
      | none =>
          rw [List.filterMap_cons_none (by rw [found]; rfl)]
          exact induction.trans (List.sublist_cons_self _ _)
      | some parent =>
          rw [List.filterMap_cons_some (by rw [found]; rfl)]
          exact induction.cons_cons _

variable {visit : Network.Visit Str Edge}

private theorem lookup_prev
    (nodup : (search.visits.map Network.Visit.node).Nodup)
    (visited : visit ∈ search.visits) :
    ((pathTables search).prev.lookup visit.node).join =
      visit.parent.map Prod.fst := by
  have found : (pathTables search).prev.lookup visit.node =
      some (visit.parent.map Prod.fst) :=
    Dictionary.lookup_of_mem (keys_prev ▸ nodup)
      (List.mem_map_of_mem visited)
  rw [found]
  rfl

private theorem lookup_prevEdge
    (nodup : (search.visits.map Network.Visit.node).Nodup)
    (visited : visit ∈ search.visits) :
    (pathTables search).prevEdge.lookup visit.node =
      visit.parent.map Prod.snd := by
  cases found : visit.parent with
  | none =>
      rw [Option.map_none, Dictionary.lookup_eq_none_iff]
      intro member
      obtain ⟨entry, listed, same⟩ := List.mem_map.mp member
      obtain ⟨other, known, isEntry⟩ := List.mem_filterMap.mp listed
      obtain ⟨parent, isParent, rfl⟩ := Option.map_eq_some_iff.mp isEntry
      have equal := List.inj_on_of_nodup_map nodup known visited same
      rw [equal, found] at isParent
      cases isParent
  | some parent =>
      apply Dictionary.lookup_of_mem (keys_prevEdge.nodup nodup)
      apply List.mem_filterMap.mpr
      exact ⟨visit, visited, by rw [found]; rfl⟩

end Lookup

section Chain

variable {start : Str} {search : Network.Search Str Edge}
  (layered : selection.network.Layered maxDepth start search)

include layered

private theorem chainDepth_eq (fuel : Nat) :
    ∀ visit ∈ search.visits, visit.depth ≤ fuel →
      chainDepth (pathTables search).prev fuel visit.node = visit.depth := by
  induction fuel with
  | zero =>
      intro visit visited shallow
      exact (Nat.le_zero.mp shallow).symm
  | succ fuel induction =>
      intro visit visited shallow
      have found := lookup_prev layered.nodup visited
      unfold chainDepth
      rw [found]
      rcases layered.found visit visited with rfl | ⟨before, row, known, _,
        rfl⟩
      · rfl
      · exact congrArg (· + 1)
          (induction before known (Nat.le_of_succ_le_succ shallow))

/-- What is read off the tables from a visited node back to the start. -/
private theorem walkBack_eq (fuel : Nat) :
    ∀ visit ∈ search.visits, visit.depth < fuel →
      ∃ chain edgeChain,
        walkBack (pathTables search) fuel visit.node = (chain, edgeChain) ∧
        chain.head? = some visit.node ∧ chain.getLast? = some start ∧
        edgeChain.length = visit.depth ∧
        (∀ key ∈ chain, key ∈ search.visits.map Network.Visit.node) ∧
        Trail graph.edges chain edgeChain := by
  induction fuel with
  | zero =>
      intro visit visited below
      cases below
  | succ fuel induction =>
      intro visit visited below
      have found := lookup_prev layered.nodup visited
      have foundEdge := lookup_prevEdge layered.nodup visited
      have mine := List.mem_map_of_mem (f := Network.Visit.node) visited
      unfold walkBack
      rw [found, foundEdge]
      rcases layered.found visit visited with rfl | ⟨before, row, known, listed,
        rfl⟩
      · refine ⟨[start], [], rfl, rfl, rfl, rfl, ?_, .one start⟩
        intro key member
        rw [List.mem_singleton.mp member]
        exact mine
      · obtain ⟨chain, edgeChain, back, first, last, length, inside, trail⟩ :=
          induction before known (Nat.lt_of_succ_lt_succ below)
        obtain ⟨stored, touches, _⟩ := selection.mem_rows.mp listed
        refine ⟨_ :: chain, row :: edgeChain, ?_, rfl, ?_, ?_, ?_, ?_⟩
        · simp only [Option.map_some, back]
          rfl
        · rw [List.getLast?_cons, last]
          rfl
        · rw [List.length_cons, length]
        · intro key member
          rcases List.mem_cons.mp member with rfl | later
          · exact mine
          · exact inside key later
        · cases chain with
          | nil => cases first
          | cons head chain =>
              cases first
              exact .step stored (joins_across touches).symm trail

end Chain

/-- The rows at a node one after the other. -/
private theorem foldl_pathRow (cur : Str) (rows : List Edge)
    (search : PathSearch) :
    rows.foldl (pathRow cur) search =
      let fresh := Network.freshRows (Edge.across cur)
        (search.prev.map Prod.fst) rows
      ⟨search.prev ++ fresh.map fun row => (row.across cur, some cur),
        search.prevEdge ++ fresh.map fun row => (row.across cur, row),
        search.queue ++ fresh.map (Edge.across cur)⟩ := by
  induction rows generalizing search with
  | nil => simp [Network.freshRows]
  | cons row rows induction =>
      rw [List.foldl_cons, induction]
      by_cases known : row.across cur ∈ search.prev.map Prod.fst
      · have next : pathRow cur search row = search :=
          if_pos (Dictionary.lookup_isSome_iff.mpr known)
        rw [next, Network.freshRows_of_known known]
      · have next : pathRow cur search row =
            ⟨search.prev ++ [(row.across cur, some cur)],
              search.prevEdge ++ [(row.across cur, row)],
              search.queue ++ [row.across cur]⟩ :=
          if_neg (mt Dictionary.lookup_isSome_iff.mp known)
        have same : ∀ node,
            node ∈ (search.prev ++ [(row.across cur, some cur)]).map
                Prod.fst ↔
              node ∈ row.across cur :: search.prev.map Prod.fst := by
          intro node
          rw [List.map_append, List.mem_append, List.mem_cons, or_comm]
          simp only [List.map_cons, List.map_nil, List.mem_singleton]
        rw [next, Network.freshRows_of_new known,
          Network.freshRows_congr same]
        simp only [List.map_cons, List.append_assoc, List.singleton_append]

/-- The tables after a node stand for the search after it. -/
private theorem pathNode_eq {start : Str}
    {search : Network.Search Str Edge} {visit : Network.Visit Str Edge}
    {queue : List (Network.Visit Str Edge)}
    (layered : selection.network.Layered maxDepth start search)
    (waits : search.queue = visit :: queue) :
    pathNode selection.rows maxDepth
        { pathTables search with
          queue := queue.map Network.Visit.node } visit.node =
      pathTables (selection.network.expand maxDepth search visit queue) := by
  have held : visit ∈ search.visits := by
    rw [Network.Search.visits, waits]
    simp
  have depth : chainDepth (pathTables search).prev
      (pathTables search).prev.length visit.node = visit.depth := by
    apply chainDepth_eq selection maxDepth layered _ visit held
    have below := layered.depth_lt_length held
    simp only [pathTables, List.length_map]
    exact Nat.le_of_lt below
  have visits : (selection.network.expand maxDepth search visit queue).visits =
      search.visits ++ selection.network.follows maxDepth search visit :=
    Network.visits_expand waits
  have after : pathTables
      (selection.network.expand maxDepth search visit queue) =
      let fresh := selection.network.follows maxDepth search visit
      ⟨(search.visits ++ fresh).map fun visit =>
          (visit.node, visit.parent.map Prod.fst),
        (search.visits ++ fresh).filterMap fun visit =>
          visit.parent.map fun parent => (visit.node, parent.2),
        (queue ++ fresh).map Network.Visit.node⟩ := by
    unfold pathTables
    rw [visits, Network.expand_eq]
  rw [after]
  unfold pathNode
  simp only [depth]
  by_cases beyond : maxDepth ≤ visit.depth
  · rw [if_pos beyond, Network.follows, if_pos beyond]
    simp [pathTables]
  · rw [if_neg beyond, foldl_pathRow, Network.follows, if_neg beyond]
    simp only [keys_prev, Network.discovers, List.map_append,
      List.filterMap_append, List.map_map, List.filterMap_map]
    congr 1
    simp [pathTables]
    rfl

/-- The search has found the node it looks for. -/
def reaches (dst : Str) (search : Network.Search Str Edge) : Bool :=
  (search.visits.map Network.Visit.node).contains dst

private theorem lookup_dst {dst : Str} {search : Network.Search Str Edge} :
    ((pathTables search).prev.lookup dst).isSome = reaches dst search := by
  rw [Bool.eq_iff_iff, Dictionary.lookup_isSome_iff, keys_prev, reaches,
    List.contains_iff_mem]

/-- The tables at the end stand for the search at its end. -/
theorem pathLoop_eq {start dst : Str} (fuel : Nat)
    {search : Network.Search Str Edge}
    (layered : selection.network.Layered maxDepth start search) :
    pathLoop selection.rows maxDepth dst fuel (pathTables search) =
      pathTables (selection.network.run maxDepth (reaches dst) fuel
        search) := by
  induction fuel generalizing search with
  | zero => rfl
  | succ fuel induction =>
      unfold pathLoop Network.run
      cases waits : search.queue with
      | nil =>
          have empty : (pathTables search).queue = [] := by
            simp [pathTables, waits]
          rw [empty]
      | cons visit queue =>
          have next : (pathTables search).queue =
              visit.node :: queue.map Network.Visit.node := by
            simp [pathTables, waits]
          rw [next]
          simp only [lookup_dst]
          by_cases stops : reaches dst search = true
          · rw [if_pos stops, if_pos stops]
          · rw [if_neg stops, if_neg stops,
              pathNode_eq selection maxDepth layered waits]
            exact induction (layered.expand waits)

end Layers

private theorem filter_wantedBy_none (edges : List Edge) :
    edges.filter (wantedBy none) = edges :=
  List.filter_eq_self.mpr fun _ _ => rfl

section Document

variable {graph : Graph}

private theorem keys_of_rows {keys : List Str} {rows : List Node}
    (paired : List.Forall₂ (fun key row => graph.nodes.lookup key = some row)
      keys rows) :
    rows.map Node.key = keys ∧
      ∀ row ∈ rows, graph.nodes.lookup row.key = some row := by
  induction paired with
  | nil => exact ⟨rfl, by simp⟩
  | @cons key row keys rows related _ induction =>
      have same := Keyed.key_of_lookup related
      refine ⟨by rw [List.map_cons, same, induction.1], ?_⟩
      intro other member
      rcases List.mem_cons.mp member with rfl | later
      · rw [same]
        exact related
      · exact induction.2 other later

/-- Whatever order the database answers in, a path is found exactly when there
is one within the bound, and it is a shortest one. -/
theorem shortestPath_isShortest (selection : Selection graph (wantedBy none))
    {srcRef dstRef src dst : Str} (maxDepth : Nat)
    (resolvedSrc : graph.resolveNode srcRef = .ok src)
    (resolvedDst : graph.resolveNode dstRef = .ok dst) :
    ∃ document,
      shortestPath graph selection srcRef dstRef maxDepth = .ok document ∧
        IsShortest graph src dst maxDepth document := by
  let fuel := graph.nodes.keys.length
  let search := selection.network.run maxDepth (reaches dst) fuel
    (Network.begin src)
  have begins : selection.network.Layered maxDepth src (Network.begin src) :=
    Network.layered_begin src
  have layered : selection.network.Layered maxDepth src search :=
    begins.run fuel
  have starts := selection.among_begin (Graph.resolveNode_isSome resolvedSrc)
  have among : selection.network.Among graph.nodes.keys search :=
    starts.run fuel
  have ends : search.queue = [] ∨ reaches dst search :=
    Network.run_ends fuel begins starts (Nat.le_add_right _ _)
  have distances {distance : Nat} :
      selection.network.IsDistance src distance dst ↔
        AtDistance graph.edges src distance dst := by
    rw [selection.isDistance_iff, filter_wantedBy_none]
  have reached : reaches dst search ↔
      ∃ length ≤ maxDepth, Route graph.edges src length dst := by
    constructor
    · intro found
      rw [reaches, List.contains_iff_mem, List.mem_map] at found
      obtain ⟨visit, visited, rfl⟩ := found
      exact ⟨visit.depth, layered.bounded visit visited,
        (distances.mp (layered.isDistance visited)).route⟩
    · intro known
      obtain ⟨length, within, route⟩ := known
      rcases ends with ended | found
      · have walk : selection.network.Walk src length dst := by
          rw [selection.walk_iff, filter_wantedBy_none]
          exact route
        obtain ⟨visit, visited, same⟩ :=
          layered.visited_of_walk ended walk within
        rw [reaches, List.contains_iff_mem, List.mem_map]
        exact ⟨visit, visited, same⟩
      · exact found
  have loop : pathLoop selection.rows maxDepth dst graph.nodes.keys.length
      ⟨[(src, none)], [], [src]⟩ = pathTables search :=
    pathLoop_eq selection maxDepth fuel begins
  have unfolded : shortestPath graph selection srcRef dstRef maxDepth =
      if reaches dst search then do
        let nodes ← (walkBack (pathTables search)
          (pathTables search).prev.length dst).1.reverse.mapM (nodeRow graph)
        return ⟨true, src, dst, nodes, (walkBack (pathTables search)
          (pathTables search).prev.length dst).2.reverse⟩
      else .ok ⟨false, src, dst, [], []⟩ := by
    unfold shortestPath
    rw [resolvedSrc, resolvedDst]
    change (if ((pathLoop selection.rows maxDepth dst graph.nodes.keys.length
      ⟨[(src, none)], [], [src]⟩).prev.lookup dst).isSome then _ else _) = _
    rw [loop, lookup_dst]
    rfl
  by_cases found : reaches dst search = true
  · have visitedDst := found
    rw [reaches, List.contains_iff_mem, List.mem_map] at visitedDst
    obtain ⟨visit, visited, same⟩ := visitedDst
    have below : visit.depth < (pathTables search).prev.length := by
      simp only [pathTables, List.length_map]
      exact layered.depth_lt_length visited
    obtain ⟨chain, edgeChain, back, first, last, length, inside, trail⟩ :=
      walkBack_eq selection maxDepth layered _ visit visited below
    rw [same] at back first
    have rowsFound : ∀ key ∈ chain.reverse, ∃ row,
        nodeRow graph key = .ok row ∧ graph.nodes.lookup key = some row := by
      intro key member
      obtain ⟨other, known, rfl⟩ :=
        List.mem_map.mp (inside key (List.mem_reverse.mp member))
      obtain ⟨row, isRow⟩ := Option.isSome_iff_exists.mp
        (Keyed.mem_keys_iff.mp (among.inside other known))
      exact ⟨row, by rw [nodeRow, isRow], isRow⟩
    obtain ⟨rows, listed, paired⟩ := Outcome.mapM_forall₂ rowsFound
    obtain ⟨keys, stored⟩ := keys_of_rows paired
    refine ⟨⟨true, src, dst, rows, edgeChain.reverse⟩, ?_, ?_⟩
    · rw [unfolded, if_pos found, back]
      exact Outcome.bind_eq_ok.mpr ⟨rows, listed, rfl⟩
    · refine ⟨rfl, rfl, ?_, ?_, stored, ?_, ?_, ?_⟩
      · rw [← reached]
        simp [found]
      · intro absent
        cases absent
      · intro _
        rw [keys, List.head?_reverse, List.getLast?_reverse]
        exact ⟨last, first⟩
      · intro _
        rw [keys]
        exact trail.reverse
      · intro _
        have near := layered.isDistance visited
        rw [same, distances] at near
        rw [List.length_reverse, length]
        exact near
  · refine ⟨⟨false, src, dst, [], []⟩, ?_, ?_⟩
    · rw [unfolded, if_neg found]
    · refine ⟨rfl, rfl, ?_, fun _ => ⟨rfl, rfl⟩, ?_, ?_, ?_, ?_⟩
      · rw [← reached]
        simp [found]
      · intro node member
        cases member
      all_goals
        intro isFound
        cases isFound

end Document

/-- Both searches, in any graph, from any node, with any bound and in whatever
order the database answers: the neighbourhood holds the nodes within the bound
with their distances and the edges at those before it, and a path is found
exactly when there is one within the bound, and is then a shortest one. -/
theorem graph_search_correct (graph : Graph) :
    (∀ (relation : Option Str) (selection : Selection graph
        (wantedBy relation)) (ref start : Str) (depth : Nat),
      graph.resolveNode ref = .ok start →
      ∃ document, relatedGraph graph selection ref depth = .ok document ∧
        IsRelated graph relation start depth document) ∧
    ∀ (selection : Selection graph (wantedBy none))
        (srcRef dstRef src dst : Str) (maxDepth : Nat),
      graph.resolveNode srcRef = .ok src →
      graph.resolveNode dstRef = .ok dst →
      ∃ document,
        shortestPath graph selection srcRef dstRef maxDepth = .ok document ∧
          IsShortest graph src dst maxDepth document :=
  ⟨fun _ selection _ _ depth resolved =>
      relatedGraph_isRelated selection depth resolved,
    fun selection _ _ _ _ maxDepth resolvedSrc resolvedDst =>
      shortestPath_isShortest selection maxDepth resolvedSrc resolvedDst⟩

/-- Four nodes; the last one has an edge to itself only. -/
def fourNodes : Graph where
  nodes := [str "a", str "b", str "c", str "d"].foldl (fun nodes key =>
    nodes.put { key, type := str "function", label := key }) .empty
  edges :=
    [⟨str "a", str "b", str "calls", str "00"⟩,
      ⟨str "a", str "b", str "calls", str "01"⟩,
      ⟨str "c", str "b", str "reads", str "00"⟩,
      ⟨str "d", str "d", str "calls", str "00"⟩]
  distinct := by decide
  ends := by decide

/-- Three nodes are around the first, and the third is two edges away. -/
theorem graph_search_correct_fourNodes :
    (∃ document,
      relatedGraph fourNodes (.stored _ (wantedBy none)) (str "a") 2 =
        .ok document ∧
      document.nodes.map (fun row => (row.1.label, row.2)) =
        [(str "a", 0), (str "b", 1), (str "c", 2)] ∧
      IsRelated fourNodes none (str "a") 2 document) ∧
    ∃ document,
      shortestPath fourNodes (.stored _ (wantedBy none)) (str "a") (str "c")
          2 = .ok document ∧
      document.edges =
        [⟨str "a", str "b", str "calls", str "00"⟩,
          ⟨str "c", str "b", str "reads", str "00"⟩] ∧
      IsShortest fourNodes (str "a") (str "c") 2 document := by
  have both := graph_search_correct fourNodes
  constructor
  · obtain ⟨document, listed, related⟩ := both.1 none (.stored _ _) (str "a")
      (str "a") 2 (by decide)
    refine ⟨document, listed, ?_, related⟩
    cases listed
    decide
  · obtain ⟨document, listed, shortest⟩ := both.2 (.stored _ _) (str "a")
      (str "c") (str "a") (str "c") 2 (by decide) (by decide)
    refine ⟨document, listed, ?_, shortest⟩
    cases listed
    decide

end PpcLab.Knowledge
