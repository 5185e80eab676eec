import Mathlib.Data.List.Nodup
import Mathlib.Data.List.Pairwise
import Mathlib.Data.List.Perm.Subperm

/-!
# Search in layers

A breadth-first search with a bound on the depth.  Every node it has visited
was visited at its distance from the start, whether or not the search has come
to an end; once its queue is empty it has visited every node within the bound.
-/

namespace PpcLab

/-- The rows at a node, and the node on the other side of a row. -/
structure Network (κ ε : Type) where
  rows : κ → List ε
  across : κ → ε → κ

namespace Network

variable {κ ε : Type}

inductive Walk (network : Network κ ε) (start : κ) : Nat → κ → Prop where
  | here : Walk network start 0 start
  | on {length : Nat} {node : κ} {row : ε} :
      Walk network start length node → row ∈ network.rows node →
      Walk network start (length + 1) (network.across node row)

structure IsDistance (network : Network κ ε) (start : κ) (distance : Nat)
    (node : κ) : Prop where
  walk : Walk network start distance node
  least : ∀ length, Walk network start length node → distance ≤ length

theorem IsDistance.unique {network : Network κ ε} {start node : κ}
    {first second : Nat} (one : network.IsDistance start first node)
    (other : network.IsDistance start second node) : first = second :=
  Nat.le_antisymm (one.least _ other.walk) (other.least _ one.walk)

/-- A visited node, its depth, and the node and the row it was found from. -/
structure Visit (κ ε : Type) where
  node : κ
  depth : Nat
  parent : Option (κ × ε)

/-- What was taken from the queue, and the queue. -/
structure Search (κ ε : Type) where
  done : List (Visit κ ε)
  queue : List (Visit κ ε)

/-- Everything visited, in the order in which it was found. -/
def Search.visits (search : Search κ ε) : List (Visit κ ε) :=
  search.done ++ search.queue

def begin (start : κ) : Search κ ε :=
  ⟨[], [⟨start, 0, none⟩]⟩

variable [DecidableEq κ]

/-- The rows that lead to nodes that are not known yet, one for each node. -/
def freshRows (across : ε → κ) : (known : List κ) → List ε → List ε
  | _, [] => []
  | known, row :: rows =>
      if across row ∈ known then freshRows across known rows
      else row :: freshRows across (across row :: known) rows

variable (network : Network κ ε) (bound : Nat)

/-- The visits that a visit leads to. -/
def discovers (known : List κ) (visit : Visit κ ε) : List (Visit κ ε) :=
  (freshRows (network.across visit.node) known (network.rows visit.node)).map
    fun row => ⟨network.across visit.node row, visit.depth + 1,
      some (visit.node, row)⟩

/-- A visit is taken from the queue. -/
def expand (search : Search κ ε) (visit : Visit κ ε)
    (queue : List (Visit κ ε)) : Search κ ε :=
  ⟨search.done ++ [visit],
    if bound ≤ visit.depth then queue
    else queue ++
      network.discovers (search.visits.map Visit.node) visit⟩

/-- The search goes on until the queue is empty or `stop` holds. -/
def run (stop : Search κ ε → Bool) : (fuel : Nat) → Search κ ε → Search κ ε
  | 0, search => search
  | fuel + 1, search =>
      match search.queue with
      | [] => search
      | visit :: queue =>
          if stop search then search
          else run stop fuel (network.expand bound search visit queue)

section Fresh

variable {across : ε → κ} {known : List κ} {rows : List ε}

theorem freshRows_of_known {row : ε} (held : across row ∈ known) :
    freshRows across known (row :: rows) = freshRows across known rows :=
  if_pos held

theorem freshRows_of_new {row : ε} (absent : across row ∉ known) :
    freshRows across known (row :: rows) =
      row :: freshRows across (across row :: known) rows :=
  if_neg absent

theorem mem_of_mem_freshRows {row : ε}
    (member : row ∈ freshRows across known rows) :
    row ∈ rows ∧ across row ∉ known := by
  induction rows generalizing known with
  | nil => cases member
  | cons head rows induction =>
      unfold freshRows at member
      split at member
      · obtain ⟨listed, absent⟩ := induction member
        exact ⟨List.mem_cons_of_mem _ listed, absent⟩
      · rename_i absent
        rcases List.mem_cons.mp member with rfl | later
        · exact ⟨List.mem_cons_self, absent⟩
        · obtain ⟨listed, missing⟩ := induction later
          exact ⟨List.mem_cons_of_mem _ listed,
            fun held => missing (List.mem_cons_of_mem _ held)⟩

theorem nodup_map_freshRows :
    ((freshRows across known rows).map across).Nodup := by
  induction rows generalizing known with
  | nil => exact List.nodup_nil
  | cons head rows induction =>
      unfold freshRows
      split
      · exact induction
      · rw [List.map_cons, List.nodup_cons]
        refine ⟨?_, induction⟩
        intro member
        obtain ⟨row, listed, same⟩ := List.mem_map.mp member
        apply (mem_of_mem_freshRows listed).2
        rw [same]
        exact List.mem_cons_self

theorem known_or_fresh {row : ε} (member : row ∈ rows) :
    across row ∈ known ∨
      ∃ fresh ∈ freshRows across known rows, across fresh = across row := by
  induction rows generalizing known with
  | nil => cases member
  | cons head rows induction =>
      unfold freshRows
      split
      · rename_i held
        rcases List.mem_cons.mp member with rfl | later
        · exact .inl held
        · exact induction later
      · rcases List.mem_cons.mp member with rfl | later
        · exact .inr ⟨row, List.mem_cons_self, rfl⟩
        · have rest : across row ∈ across head :: known ∨
              ∃ fresh ∈ freshRows across (across head :: known) rows,
                across fresh = across row := induction later
          rcases rest with held | ⟨fresh, listed, same⟩
          · rcases List.mem_cons.mp held with same | held
            · exact .inr ⟨head, List.mem_cons_self, same.symm⟩
            · exact .inl held
          · exact .inr ⟨fresh, List.mem_cons_of_mem _ listed, same⟩

/-- Only what is known matters, not in which order. -/
theorem freshRows_congr {other : List κ}
    (same : ∀ node, node ∈ known ↔ node ∈ other) :
    freshRows across known rows = freshRows across other rows := by
  induction rows generalizing known other with
  | nil => rfl
  | cons head rows induction =>
      unfold freshRows
      rw [induction same]
      have more : ∀ node, node ∈ across head :: known ↔
          node ∈ across head :: other := by
        intro node
        rw [List.mem_cons, List.mem_cons, same]
      rw [induction more]
      simp only [same]

end Fresh

/-- How a visit was found. -/
def FoundFrom (start : κ) (visits : List (Visit κ ε)) (visit : Visit κ ε) :
    Prop :=
  visit = ⟨start, 0, none⟩ ∨
    ∃ before row, before ∈ visits ∧ row ∈ network.rows before.node ∧
      visit = ⟨network.across before.node row, before.depth + 1,
        some (before.node, row)⟩

structure Layered (start : κ) (search : Search κ ε) : Prop where
  started : (⟨start, 0, none⟩ : Visit κ ε) ∈ search.visits
  nodup : (search.visits.map Visit.node).Nodup
  ordered : search.visits.Pairwise fun first second =>
    first.depth ≤ second.depth
  span : ∀ visit ∈ search.visits, ∀ waiting ∈ search.queue,
    visit.depth ≤ waiting.depth + 1
  bounded : ∀ visit ∈ search.visits, visit.depth ≤ bound
  found : ∀ visit ∈ search.visits,
    network.FoundFrom start search.visits visit
  expanded : ∀ visit ∈ search.done, visit.depth < bound →
    ∀ row ∈ network.rows visit.node, ∃ later ∈ search.visits,
      later.node = network.across visit.node row ∧
        later.depth ≤ visit.depth + 1

variable {network bound}

omit [DecidableEq κ] in
theorem layered_begin (start : κ) :
    network.Layered bound start (begin start) := by
  refine ⟨List.mem_singleton_self _, List.nodup_singleton _,
    List.pairwise_singleton _ _, ?_, ?_, ?_, ?_⟩
  · intro visit member waiting waits
    rw [List.mem_singleton.mp member]
    exact Nat.zero_le _
  · intro visit member
    rw [List.mem_singleton.mp member]
    exact Nat.zero_le _
  · intro visit member
    exact .inl (List.mem_singleton.mp member)
  · intro visit member
    cases member

omit [DecidableEq κ] in
private theorem FoundFrom.mono {start : κ} {visits later : List (Visit κ ε)}
    {visit : Visit κ ε} (found : network.FoundFrom start visits visit)
    (more : ∀ visit ∈ visits, visit ∈ later) :
    network.FoundFrom start later visit := by
  rcases found with first | ⟨before, row, member, listed, same⟩
  · exact .inl first
  · exact .inr ⟨before, row, more before member, listed, same⟩

section Step

variable {start : κ} {search : Search κ ε} {visit : Visit κ ε}
  {queue : List (Visit κ ε)}

private theorem mem_discovers {known : List κ} {later : Visit κ ε}
    (member : later ∈ network.discovers known visit) :
    later.node ∉ known ∧ later.depth = visit.depth + 1 ∧
      ∃ row ∈ network.rows visit.node, later =
        ⟨network.across visit.node row, visit.depth + 1,
          some (visit.node, row)⟩ := by
  obtain ⟨row, fresh, rfl⟩ := List.mem_map.mp member
  obtain ⟨listed, absent⟩ := mem_of_mem_freshRows fresh
  exact ⟨absent, rfl, row, listed, rfl⟩

/-- What comes into the queue behind a visit. -/
def follows (network : Network κ ε) (bound : Nat) (search : Search κ ε)
    (visit : Visit κ ε) : List (Visit κ ε) :=
  if bound ≤ visit.depth then []
  else network.discovers (search.visits.map Visit.node) visit

theorem expand_eq :
    network.expand bound search visit queue =
      ⟨search.done ++ [visit],
        queue ++ network.follows bound search visit⟩ := by
  unfold expand follows
  split
  · rw [List.append_nil]
  · rfl

theorem visits_expand (waits : search.queue = visit :: queue) :
    (network.expand bound search visit queue).visits =
      search.visits ++ network.follows bound search visit := by
  rw [expand_eq, Search.visits, Search.visits, waits]
  simp

private theorem mem_follows {later : Visit κ ε}
    (member : later ∈ network.follows bound search visit) :
    visit.depth < bound ∧ later.node ∉ search.visits.map Visit.node ∧
      later.depth = visit.depth + 1 ∧
      ∃ row ∈ network.rows visit.node, later =
        ⟨network.across visit.node row, visit.depth + 1,
          some (visit.node, row)⟩ := by
  unfold follows at member
  split at member
  · cases member
  · rename_i within
    exact ⟨Nat.lt_of_not_le within, mem_discovers member⟩

/-- Every row of an expanded node leads to a visit. -/
private theorem visited_across (within : visit.depth < bound) {row : ε}
    (listed : row ∈ network.rows visit.node) :
    (∃ before ∈ search.visits,
        before.node = network.across visit.node row) ∨
      ∃ later ∈ network.follows bound search visit,
        later.node = network.across visit.node row := by
  let known := search.visits.map Visit.node
  have either : network.across visit.node row ∈ known ∨
      ∃ fresh ∈ freshRows (network.across visit.node) known
          (network.rows visit.node),
        network.across visit.node fresh = network.across visit.node row :=
    known_or_fresh listed
  rcases either with known | ⟨fresh, isFresh, same⟩
  · left
    exact List.mem_map.mp known
  · right
    unfold follows
    rw [if_neg (Nat.not_le.mpr within)]
    exact ⟨_, List.mem_map_of_mem isFresh, same⟩

/-- One node is taken from the queue. -/
theorem Layered.expand (layered : network.Layered bound start search)
    (waits : search.queue = visit :: queue) :
    network.Layered bound start
      (network.expand bound search visit queue) := by
  have visits : (network.expand bound search visit queue).visits =
      search.visits ++ network.follows bound search visit :=
    visits_expand waits
  have waiting : (network.expand bound search visit queue).queue =
      queue ++ network.follows bound search visit := by rw [expand_eq]
  have finished : (network.expand bound search visit queue).done =
      search.done ++ [visit] := by rw [expand_eq]
  have held : visit ∈ search.visits := by
    rw [Search.visits, waits]
    simp
  have near : ∀ other ∈ search.visits, other.depth ≤ visit.depth + 1 := by
    intro other member
    apply layered.span other member visit
    rw [waits]
    exact List.mem_cons_self
  have behind : ∀ other ∈ queue, visit.depth ≤ other.depth := by
    have ordered := layered.ordered
    rw [Search.visits, waits, List.pairwise_append] at ordered
    exact fun other member => List.rel_of_pairwise_cons ordered.2.1 member
  have waitsStill : ∀ other ∈ queue, other ∈ search.queue := by
    intro other member
    rw [waits]
    exact List.mem_cons_of_mem _ member
  refine ⟨?_, ?_, ?_, ?_, ?_, ?_, ?_⟩
  · rw [visits]
    exact List.mem_append_left _ layered.started
  · rw [visits, List.map_append, List.nodup_append]
    refine ⟨layered.nodup, ?_, ?_⟩
    · unfold follows discovers
      split
      · exact List.nodup_nil
      · rw [List.map_map]
        exact nodup_map_freshRows
    · intro node old other new same
      obtain ⟨later, member, rfl⟩ := List.mem_map.mp new
      exact (mem_follows member).2.1 (same ▸ old)
  · rw [visits, List.pairwise_append]
    refine ⟨layered.ordered, ?_, ?_⟩
    · apply List.pairwise_of_forall_mem_list
      intro first member second otherMember
      exact Nat.le_of_eq ((mem_follows member).2.2.1.trans
        (mem_follows otherMember).2.2.1.symm)
    · intro first member second otherMember
      rw [(mem_follows otherMember).2.2.1]
      exact near first member
  · rw [visits, waiting]
    intro other member next waitsNext
    have least : visit.depth ≤ next.depth := by
      rcases List.mem_append.mp waitsNext with old | new
      · exact behind next old
      · rw [(mem_follows new).2.2.1]
        exact Nat.le_succ _
    rcases List.mem_append.mp member with old | new
    · exact Nat.le_trans (near other old) (Nat.succ_le_succ least)
    · rw [(mem_follows new).2.2.1]
      exact Nat.succ_le_succ least
  · rw [visits]
    intro other member
    rcases List.mem_append.mp member with old | new
    · exact layered.bounded other old
    · rw [(mem_follows new).2.2.1]
      exact (mem_follows new).1
  · rw [visits]
    intro other member
    rcases List.mem_append.mp member with old | new
    · exact (layered.found other old).mono fun _ known =>
        List.mem_append_left _ known
    · obtain ⟨_, _, _, row, listed, same⟩ := mem_follows new
      exact .inr ⟨visit, row, List.mem_append_left _ held, listed, same⟩
  · rw [visits, finished]
    intro other member within row listed
    rcases List.mem_append.mp member with old | new
    · obtain ⟨later, known, same, shallow⟩ :=
        layered.expanded other old within row listed
      exact ⟨later, List.mem_append_left _ known, same, shallow⟩
    · rw [List.mem_singleton] at new
      subst new
      have reached : (∃ before ∈ search.visits,
            before.node = network.across other.node row) ∨
          ∃ later ∈ network.follows bound search other,
            later.node = network.across other.node row :=
        visited_across within listed
      rcases reached with ⟨before, known, same⟩ | ⟨later, isNew, same⟩
      · exact ⟨before, List.mem_append_left _ known, same, near before known⟩
      · exact ⟨later, List.mem_append_right _ isNew, same,
          Nat.le_of_eq (mem_follows isNew).2.2.1⟩

end Step

section Run

variable {start : κ} {stop : Search κ ε → Bool}

theorem Layered.run (fuel : Nat) {search : Search κ ε}
    (layered : network.Layered bound start search) :
    network.Layered bound start (network.run bound stop fuel search) := by
  induction fuel generalizing search with
  | zero => exact layered
  | succ fuel induction =>
      unfold Network.run
      split
      · exact layered
      · rename_i visit queue waits
        split
        · exact layered
        · exact induction (layered.expand waits)

/-- The nodes a search can come to. -/
structure Among (network : Network κ ε) (nodes : List κ)
    (search : Search κ ε) : Prop where
  inside : ∀ visit ∈ search.visits, visit.node ∈ nodes
  closed : ∀ node ∈ nodes, ∀ row ∈ network.rows node,
    network.across node row ∈ nodes

theorem Among.expand {nodes : List κ} {search : Search κ ε}
    {visit : Visit κ ε} {queue : List (Visit κ ε)}
    (among : network.Among nodes search)
    (waits : search.queue = visit :: queue) :
    network.Among nodes (network.expand bound search visit queue) := by
  refine ⟨?_, among.closed⟩
  rw [visits_expand waits]
  intro other member
  rcases List.mem_append.mp member with old | new
  · exact among.inside other old
  · obtain ⟨_, _, _, row, listed, same⟩ := mem_follows new
    rw [same]
    refine among.closed visit.node (among.inside visit ?_) row listed
    rw [Search.visits, waits]
    simp

theorem Among.run {nodes : List κ} (fuel : Nat) {search : Search κ ε}
    (among : network.Among nodes search) :
    network.Among nodes (network.run bound stop fuel search) := by
  induction fuel generalizing search with
  | zero => exact among
  | succ fuel induction =>
      unfold Network.run
      split
      · exact among
      · rename_i visit queue waits
        split
        · exact among
        · exact induction (among.expand waits)

/-- A search that may take as many nodes from its queue as there are comes to
an end: its queue is empty, or it was to stop. -/
theorem run_ends {nodes : List κ} (fuel : Nat) {search : Search κ ε}
    (layered : network.Layered bound start search)
    (among : network.Among nodes search)
    (enough : nodes.length ≤ fuel + search.done.length) :
    (network.run bound stop fuel search).queue = [] ∨
      stop (network.run bound stop fuel search) := by
  have fits {search : Search κ ε}
      (layered : network.Layered bound start search)
      (among : network.Among nodes search) :
      search.done.length + search.queue.length ≤ nodes.length := by
    have inside : search.visits.map Visit.node ⊆ nodes := by
      intro node member
      obtain ⟨visit, held, rfl⟩ := List.mem_map.mp member
      exact among.inside visit held
    have shorter := (List.subperm_of_subset layered.nodup inside).length_le
    simpa [Search.visits] using shorter
  induction fuel generalizing search with
  | zero =>
      left
      have most := fits layered among
      apply List.eq_nil_of_length_eq_zero
      change search.queue.length = 0
      omega
  | succ fuel induction =>
      unfold Network.run
      split
      · rename_i waits
        exact .inl waits
      · rename_i visit queue waits
        split
        · rename_i stops
          exact .inr stops
        · apply induction (layered.expand waits) (among.expand waits)
          have longer : (network.expand bound search visit queue).done.length =
              search.done.length + 1 := by
            rw [expand_eq, List.length_append, List.length_singleton]
          omega

end Run

namespace Layered

variable {start : κ} {search : Search κ ε}

omit [DecidableEq κ] in
private theorem walk (layered : network.Layered bound start search)
    (depth : Nat) : ∀ visit ∈ search.visits, visit.depth = depth →
      network.Walk start depth visit.node := by
  induction depth with
  | zero =>
      intro visit member shallow
      rcases layered.found visit member with rfl | ⟨before, row, _, _, same⟩
      · exact .here
      · rw [same] at shallow
        cases shallow
  | succ depth induction =>
      intro visit member deep
      rcases layered.found visit member with rfl | ⟨before, row, known, listed,
        same⟩
      · cases deep
      · rw [same] at deep ⊢
        exact .on (induction before known (Nat.succ.inj deep)) listed

omit [DecidableEq κ] in
/-- What a walk within the bound leads to is visited, or something before it is
still in the queue. -/
private theorem visited_or_waits (layered : network.Layered bound start search)
    {length : Nat} {node : κ} (walk : network.Walk start length node)
    (within : length ≤ bound) :
    (∃ visit ∈ search.visits, visit.node = node ∧ visit.depth ≤ length) ∨
      ∃ waiting ∈ search.queue, waiting.depth < length := by
  induction walk with
  | here => exact .inl ⟨_, layered.started, rfl, Nat.le_refl _⟩
  | @on length node row walk listed induction =>
      rcases induction (Nat.le_of_succ_le within) with
        ⟨visit, known, rfl, shallow⟩ | ⟨waiting, waits, before⟩
      · rcases List.mem_append.mp known with isDone | waits
        · obtain ⟨later, visited, same, depth⟩ := layered.expanded visit isDone
            (Nat.lt_of_le_of_lt shallow within) row listed
          exact .inl ⟨later, visited, same,
            Nat.le_trans depth (Nat.succ_le_succ shallow)⟩
        · exact .inr ⟨visit, waits, Nat.lt_succ_of_le shallow⟩
      · exact .inr ⟨waiting, waits, Nat.lt_succ_of_lt before⟩

omit [DecidableEq κ] in
theorem visit_unique (layered : network.Layered bound start search)
    {first second : Visit κ ε} (one : first ∈ search.visits)
    (other : second ∈ search.visits) (same : first.node = second.node) :
    first = second :=
  List.inj_on_of_nodup_map layered.nodup one other same

omit [DecidableEq κ] in
private theorem exists_depth (layered : network.Layered bound start search)
    (depth : Nat) : ∀ visit ∈ search.visits, visit.depth = depth →
      ∀ less ≤ depth, ∃ other ∈ search.visits, other.depth = less := by
  induction depth with
  | zero =>
      intro visit visited shallow less below
      exact ⟨visit, visited, shallow.trans (Nat.le_zero.mp below).symm⟩
  | succ depth induction =>
      intro visit visited deep less below
      rcases Nat.le_succ_iff.mp below with earlier | rfl
      · rcases layered.found visit visited with rfl | ⟨before, row, known, _,
          same⟩
        · cases deep
        · rw [same] at deep
          exact induction before known (Nat.succ.inj deep) less earlier
      · exact ⟨visit, visited, deep⟩

omit [DecidableEq κ] in
/-- No visit is deeper than there are others. -/
theorem depth_lt_length (layered : network.Layered bound start search)
    {visit : Visit κ ε} (visited : visit ∈ search.visits) :
    visit.depth < search.visits.length := by
  have all : List.range (visit.depth + 1) ⊆
      search.visits.map Visit.depth := by
    intro less member
    obtain ⟨other, known, same⟩ := layered.exists_depth visit.depth visit
      visited rfl less (Nat.le_of_lt_succ (List.mem_range.mp member))
    exact List.mem_map.mpr ⟨other, known, same⟩
  have shorter := (List.subperm_of_subset List.nodup_range all).length_le
  rw [List.length_range, List.length_map] at shorter
  exact shorter

omit [DecidableEq κ] in
/-- A node is visited at its distance. -/
theorem isDistance (layered : network.Layered bound start search)
    {visit : Visit κ ε} (visited : visit ∈ search.visits) :
    network.IsDistance start visit.depth visit.node := by
  refine ⟨layered.walk visit.depth visit visited rfl, ?_⟩
  intro length walk
  by_contra longer
  have shorter := Nat.lt_of_not_le longer
  have within := Nat.le_trans (Nat.le_of_lt shorter)
    (layered.bounded visit visited)
  rcases layered.visited_or_waits walk within with
    ⟨other, known, same, shallow⟩ | ⟨waiting, waits, before⟩
  · rw [layered.visit_unique known visited same] at shallow
    exact longer shallow
  · have near := layered.span visit visited waiting waits
    omega

omit [DecidableEq κ] in
/-- At the end of a search the nodes within the bound are visited. -/
theorem visited_of_walk (layered : network.Layered bound start search)
    (ended : search.queue = []) {length : Nat} {node : κ}
    (walk : network.Walk start length node) (within : length ≤ bound) :
    ∃ visit ∈ search.visits, visit.node = node := by
  rcases layered.visited_or_waits walk within with
    ⟨visit, visited, same, _⟩ | ⟨waiting, waits, _⟩
  · exact ⟨visit, visited, same⟩
  · rw [ended] at waits
    cases waits

omit [DecidableEq κ] in
theorem exists_visit_iff (layered : network.Layered bound start search)
    (ended : search.queue = []) {depth : Nat} {node : κ} :
    (∃ visit ∈ search.visits, visit.node = node ∧ visit.depth = depth) ↔
      network.IsDistance start depth node ∧ depth ≤ bound := by
  constructor
  · intro known
    obtain ⟨visit, visited, rfl, rfl⟩ := known
    exact ⟨layered.isDistance visited, layered.bounded visit visited⟩
  · intro known
    obtain ⟨distance, within⟩ := known
    obtain ⟨visit, visited, same⟩ :=
      layered.visited_of_walk ended distance.walk within
    refine ⟨visit, visited, same, ?_⟩
    have other := layered.isDistance visited
    rw [same] at other
    exact other.unique distance

end Layered

end Network

end PpcLab
