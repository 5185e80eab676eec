import Mathlib.Data.List.Basic
import Mathlib.Data.List.Chain

/-!
# Aligned sequences

The alignment of two sequences by their longest common run, and by the longest
common runs of what stands before and behind it.  Between the runs are gaps, in
which the two sequences have nothing in common.
-/

namespace PpcLab.SequenceMatcher

variable {α : Type}

section

variable [DecidableEq α]

/-- How many elements two lists begin with alike. -/
def commonRun : List α → List α → Nat
  | first :: firsts, second :: seconds =>
      if first = second then commonRun firsts seconds + 1 else 0
  | _, _ => 0

theorem take_commonRun (first second : List α) :
    first.take (commonRun first second) =
      second.take (commonRun first second) := by
  induction first generalizing second with
  | nil => cases second <;> rfl
  | cons head tail induction =>
      cases second with
      | nil => rfl
      | cons other others =>
          rw [commonRun]
          split
          · rename_i same
            rw [List.take_succ_cons, List.take_succ_cons, same, induction]
          · rfl

theorem commonRun_le (first second : List α) :
    commonRun first second ≤ first.length ∧
      commonRun first second ≤ second.length := by
  induction first generalizing second with
  | nil => cases second <;> exact ⟨Nat.zero_le _, Nat.zero_le _⟩
  | cons head tail induction =>
      cases second with
      | nil => exact ⟨Nat.zero_le _, Nat.zero_le _⟩
      | cons other others =>
          have bounds := induction others
          rw [commonRun]
          split
          · exact ⟨Nat.succ_le_succ bounds.1, Nat.succ_le_succ bounds.2⟩
          · exact ⟨Nat.zero_le _, Nat.zero_le _⟩

theorem commonRun_append (shared first second : List α) :
    commonRun (shared ++ first) (shared ++ second) =
      shared.length + commonRun first second := by
  induction shared with
  | nil => exact (Nat.zero_add _).symm
  | cons head shared induction =>
      rw [List.cons_append, List.cons_append, commonRun, if_pos rfl, induction,
        List.length_cons]
      omega

theorem commonRun_of_head_ne {first second : α} (differ : first ≠ second)
    (firsts seconds : List α) :
    commonRun (first :: firsts) (second :: seconds) = 0 := by
  rw [commonRun, if_neg differ]

/-- Behind the common run the lists differ, or one of them ends. -/
theorem commonRun_maximal (first second : List α) :
    commonRun first second = first.length ∨
      commonRun first second = second.length ∨
      first[commonRun first second]? ≠ second[commonRun first second]? := by
  induction first generalizing second with
  | nil => cases second <;> exact .inl rfl
  | cons head tail induction =>
      cases second with
      | nil => exact .inr (.inl rfl)
      | cons other others =>
          rw [commonRun]
          split
          · rcases induction others with whole | whole | differ
            · exact .inl (congrArg Nat.succ whole)
            · exact .inr (.inl (congrArg Nat.succ whole))
            · refine .inr (.inr ?_)
              rw [List.getElem?_cons_succ, List.getElem?_cons_succ]
              exact differ
          · rename_i differ
            refine .inr (.inr ?_)
            rw [List.getElem?_cons_zero, List.getElem?_cons_zero]
            exact fun same => differ (Option.some.inj same)

/-- A run of `size` elements at a place of each sequence. -/
structure Match where
  left : Nat
  right : Nat
  size : Nat
  deriving DecidableEq

/-- The first one of the longer ones. -/
def longer (best other : Match) : Match :=
  if best.size < other.size then other else best

/-- All common runs, in the order of their places. -/
def commonRuns (left right : List α) : List Match :=
  (List.range left.length).flatMap fun i =>
    (List.range right.length).map fun j =>
      ⟨i, j, commonRun (left.drop i) (right.drop j)⟩

/-- `find_longest_match` -/
def longestMatch (left right : List α) : Match :=
  (commonRuns left right).foldl longer ⟨0, 0, 0⟩

omit [DecidableEq α] in
theorem foldl_longer (matches' : List Match) (start : Match) :
    (matches'.foldl longer start = start ∨
        matches'.foldl longer start ∈ matches') ∧
      start.size ≤ (matches'.foldl longer start).size ∧
      ∀ other ∈ matches', other.size ≤ (matches'.foldl longer start).size := by
  induction matches' generalizing start with
  | nil => exact ⟨.inl rfl, Nat.le_refl _, nofun⟩
  | cons first rest induction =>
      obtain ⟨from', least, most⟩ := induction (longer start first)
      have both : start.size ≤ (longer start first).size ∧
          first.size ≤ (longer start first).size := by
        rw [longer]
        split <;> omega
      rw [List.foldl_cons]
      refine ⟨?_, Nat.le_trans both.1 least, ?_⟩
      · rcases from' with same | member
        · rw [same, longer]
          split
          · exact .inr List.mem_cons_self
          · exact .inl rfl
        · exact .inr (List.mem_cons_of_mem _ member)
      · intro other member
        rcases List.mem_cons.mp member with rfl | later
        · exact Nat.le_trans both.2 least
        · exact most other later

theorem longestMatch_size (left right : List α) :
    (longestMatch left right).size = 0 ∨
      (longestMatch left right).size =
        commonRun (left.drop (longestMatch left right).left)
          (right.drop (longestMatch left right).right) := by
  rcases (foldl_longer (commonRuns left right) ⟨0, 0, 0⟩).1 with same | member
  · exact .inl (congrArg Match.size same)
  · right
    obtain ⟨i, _, inner⟩ := List.mem_flatMap.mp member
    obtain ⟨j, _, same⟩ := List.mem_map.mp inner
    rw [longestMatch, ← same]

theorem longestMatch_left_lt {left right : List α}
    (some : (longestMatch left right).size ≠ 0) :
    (longestMatch left right).left < left.length := by
  rcases (foldl_longer (commonRuns left right) ⟨0, 0, 0⟩).1 with same | member
  · exact absurd (congrArg Match.size same) some
  · obtain ⟨i, inside, inner⟩ := List.mem_flatMap.mp member
    obtain ⟨j, _, same⟩ := List.mem_map.mp inner
    rw [longestMatch, ← same]
    exact List.mem_range.mp inside

/-- Without a common run the sequences have nothing in common. -/
theorem disjoint_of_longestMatch {left right : List α}
    (none : (longestMatch left right).size = 0) : left.Disjoint right := by
  intro item inLeft inRight
  obtain ⟨i, insideLeft, isLeft⟩ := List.getElem_of_mem inLeft
  obtain ⟨j, insideRight, isRight⟩ := List.getElem_of_mem inRight
  have candidate : (⟨i, j, commonRun (left.drop i) (right.drop j)⟩ : Match) ∈
      commonRuns left right :=
    List.mem_flatMap.mpr ⟨i, List.mem_range.mpr insideLeft,
      List.mem_map.mpr ⟨j, List.mem_range.mpr insideRight, rfl⟩⟩
  have notLonger : commonRun (left.drop i) (right.drop j) ≤
      (longestMatch left right).size :=
    (foldl_longer (commonRuns left right) ⟨0, 0, 0⟩).2.2 _ candidate
  have positive : 0 < commonRun (left.drop i) (right.drop j) := by
    rw [List.drop_eq_getElem_cons insideLeft,
      List.drop_eq_getElem_cons insideRight, isLeft, isRight, commonRun,
      if_pos rfl]
    exact Nat.succ_pos _
  rw [none] at notLonger
  exact absurd (Nat.le_zero.mp notLonger) (Nat.ne_of_gt positive)

end

/-- A part of an alignment: what only one of the sequences has, or a run. -/
inductive Piece (α : Type) where
  | gap (left right : List α)
  | run (items : List α)
  deriving DecidableEq

namespace Piece

def left : Piece α → List α
  | gap left _ => left
  | run items => items

def right : Piece α → List α
  | gap _ right => right
  | run items => items

def isRun : Piece α → Bool
  | gap _ _ => false
  | run _ => true

end Piece

def lefts (pieces : List (Piece α)) : List α :=
  pieces.flatMap Piece.left

def rights (pieces : List (Piece α)) : List α :=
  pieces.flatMap Piece.right

/-- The alignment by longest runs, for sequences that are not longer than the
fuel. -/
def align [DecidableEq α] : (fuel : Nat) → List α → List α → List (Piece α)
  | 0, left, right => [.gap left right]
  | fuel + 1, left, right =>
      let longest := longestMatch left right
      if longest.size = 0 then [.gap left right]
      else
        align fuel (left.take longest.left) (right.take longest.right) ++
          .run ((left.drop longest.left).take longest.size) ::
          align fuel (left.drop (longest.left + longest.size))
            (right.drop (longest.right + longest.size))

/-- A piece before others: an empty gap is none, and a run before a run is part
of it. -/
def before : Piece α → List (Piece α) → List (Piece α)
  | .gap [] [], pieces => pieces
  | .gap left right, pieces => .gap left right :: pieces
  | .run items, .run others :: pieces => .run (items ++ others) :: pieces
  | .run items, pieces => .run items :: pieces

def merge (pieces : List (Piece α)) : List (Piece α) :=
  pieces.foldr before []

def pieces [DecidableEq α] (left right : List α) : List (Piece α) :=
  merge (align left.length left right)

inductive Tag where
  | replace
  | delete
  | insert
  | equal
  deriving DecidableEq

structure Opcode where
  tag : Tag
  leftStart : Nat
  leftEnd : Nat
  rightStart : Nat
  rightEnd : Nat
  deriving DecidableEq

namespace Piece

def tag : Piece α → Tag
  | run _ => .equal
  | gap _ [] => .delete
  | gap [] _ => .insert
  | gap _ _ => .replace

end Piece

/-- The operations for pieces behind two places. -/
def opcodesFrom : (left right : Nat) → List (Piece α) → List Opcode
  | _, _, [] => []
  | left, right, piece :: pieces =>
      ⟨piece.tag, left, left + piece.left.length, right,
        right + piece.right.length⟩ ::
      opcodesFrom (left + piece.left.length) (right + piece.right.length)
        pieces

/-- `get_opcodes` -/
def opcodes [DecidableEq α] (left right : List α) : List Opcode :=
  opcodesFrom 0 0 (pieces left right)

theorem lefts_before (piece : Piece α) (pieces : List (Piece α)) :
    lefts (before piece pieces) = piece.left ++ lefts pieces := by
  unfold before
  split
  · rfl
  · rfl
  · simp [lefts, Piece.left]
  · rfl

theorem rights_before (piece : Piece α) (pieces : List (Piece α)) :
    rights (before piece pieces) = piece.right ++ rights pieces := by
  unfold before
  split
  · rfl
  · rfl
  · simp [rights, Piece.right]
  · rfl

theorem lefts_merge (pieces : List (Piece α)) :
    lefts (merge pieces) = lefts pieces := by
  induction pieces with
  | nil => rfl
  | cons piece pieces induction =>
      refine (lefts_before piece (merge pieces)).trans ?_
      rw [induction]
      rfl

theorem rights_merge (pieces : List (Piece α)) :
    rights (merge pieces) = rights pieces := by
  induction pieces with
  | nil => rfl
  | cons piece pieces induction =>
      refine (rights_before piece (merge pieces)).trans ?_
      rw [induction]
      rfl

private theorem split_at (items : List α) (place size : Nat) :
    items.take place ++ ((items.drop place).take size ++
      items.drop (place + size)) = items := by
  rw [← List.drop_drop, List.take_append_drop, List.take_append_drop]

section

variable [DecidableEq α] {left right : List α}

private theorem run_of_longestMatch
    (some : (longestMatch left right).size ≠ 0) :
    (left.drop (longestMatch left right).left).take
        (longestMatch left right).size =
      (right.drop (longestMatch left right).right).take
        (longestMatch left right).size := by
  have size := (longestMatch_size left right).resolve_left some
  rw [size]
  exact take_commonRun _ _

theorem lefts_align (fuel : Nat) (left right : List α) :
    lefts (align fuel left right) = left := by
  induction fuel generalizing left right with
  | zero => simp [align, lefts, Piece.left]
  | succ fuel induction =>
      rw [align]
      split
      · simp [lefts, Piece.left]
      · unfold lefts at induction ⊢
        rw [List.flatMap_append, List.flatMap_cons, induction, induction]
        exact split_at _ _ _

theorem rights_align (fuel : Nat) (left right : List α) :
    rights (align fuel left right) = right := by
  induction fuel generalizing left right with
  | zero => simp [align, rights, Piece.right]
  | succ fuel induction =>
      rw [align]
      split
      · simp [rights, Piece.right]
      · rename_i some
        unfold rights at induction ⊢
        rw [List.flatMap_append, List.flatMap_cons, induction, induction,
          Piece.right, run_of_longestMatch some]
        exact split_at _ _ _

theorem lefts_pieces (left right : List α) :
    lefts (pieces left right) = left :=
  (lefts_merge _).trans (lefts_align _ left right)

theorem rights_pieces (left right : List α) :
    rights (pieces left right) = right :=
  (rights_merge _).trans (rights_align _ left right)

end

/-- What stands in a gap has nothing in common, and a run is not empty. -/
def Piece.Proper : Piece α → Prop
  | .gap left right => left.Disjoint right
  | .run items => items ≠ []

def Alternates (piece other : Piece α) : Prop :=
  piece.isRun ≠ other.isRun

/-- Of two neighbours one is a run. -/
def Sparse (piece other : Piece α) : Prop :=
  piece.isRun ∨ other.isRun

theorem proper_align [DecidableEq α] {fuel : Nat} {left right : List α}
    (enough : left.length ≤ fuel) {piece : Piece α}
    (member : piece ∈ align fuel left right) : piece.Proper := by
  induction fuel generalizing left right with
  | zero =>
      rw [List.mem_singleton.mp member,
        List.length_eq_zero_iff.mp (Nat.le_zero.mp enough)]
      exact List.disjoint_nil_left right
  | succ fuel induction =>
      rw [align] at member
      split at member
      · rename_i none
        rw [List.mem_singleton.mp member]
        exact disjoint_of_longestMatch none
      · rename_i some
        rcases List.mem_append.mp member with former | rest
        · refine induction ?_ former
          have before := longestMatch_left_lt some
          rw [List.length_take]
          omega
        · rcases List.mem_cons.mp rest with rfl | later
          · have size := (longestMatch_size left right).resolve_left some
            have fits := (commonRun_le
              (left.drop (longestMatch left right).left)
              (right.drop (longestMatch left right).right)).1
            intro empty
            have length := congrArg List.length empty
            rw [List.length_take, List.length_nil] at length
            omega
          · refine induction ?_ later
            rw [List.length_drop]
            omega

theorem sparse_align [DecidableEq α] (fuel : Nat) (left right : List α) :
    (align fuel left right).IsChain Sparse := by
  induction fuel generalizing left right with
  | zero => exact List.isChain_singleton _
  | succ fuel induction =>
      rw [align]
      split
      · exact List.isChain_singleton _
      · refine List.isChain_append.mpr ⟨induction _ _, ?_, ?_⟩
        · exact List.isChain_cons.mpr
            ⟨fun _ _ => .inl rfl, induction _ _⟩
        · intro piece _ other first
          cases first
          exact .inr rfl

private theorem forall_before {holds : Piece α → Prop} {piece : Piece α}
    {pieces : List (Piece α)} (first : holds piece)
    (joined : ∀ items others, holds (.run items) →
      holds (.run (items ++ others)))
    (rest : ∀ other ∈ pieces, holds other) :
    ∀ other ∈ before piece pieces, holds other := by
  unfold before
  split
  · exact rest
  · exact List.forall_mem_cons.mpr ⟨first, rest⟩
  · exact List.forall_mem_cons.mpr
      ⟨joined _ _ first, (List.forall_mem_cons.mp rest).2⟩
  · exact List.forall_mem_cons.mpr ⟨first, rest⟩

theorem proper_merge {pieces : List (Piece α)}
    (proper : ∀ piece ∈ pieces, piece.Proper) :
    ∀ piece ∈ merge pieces, piece.Proper := by
  induction pieces with
  | nil => exact proper
  | cons piece pieces induction =>
      obtain ⟨first, rest⟩ := List.forall_mem_cons.mp proper
      refine forall_before first ?_ (induction rest)
      intro items others nonempty
      exact List.append_ne_nil_of_left_ne_nil nonempty others

/-- Merging makes runs and gaps alternate, and keeps a run at the front. -/
theorem alternates_merge {pieces : List (Piece α)}
    (sparse : pieces.IsChain Sparse) :
    (merge pieces).IsChain Alternates ∧
      ∀ piece ∈ pieces.head?, piece.isRun →
        ∀ other ∈ (merge pieces).head?, other.isRun := by
  induction pieces with
  | nil => exact ⟨List.IsChain.nil, nofun⟩
  | cons piece pieces induction =>
      obtain ⟨beside, rest⟩ := List.isChain_cons.mp sparse
      obtain ⟨alternates, front⟩ := induction rest
      change (before piece (merge pieces)).IsChain Alternates ∧
        ∀ first ∈ some piece, first.isRun →
          ∀ other ∈ (before piece (merge pieces)).head?, other.isRun
      unfold before
      split
      · refine ⟨alternates, ?_⟩
        intro first here isRun
        cases here
        cases isRun
      · rename_i left right notEmpty
        refine ⟨List.isChain_cons.mpr ⟨?_, alternates⟩, ?_⟩
        · intro other first
          cases pieces with
          | nil => cases first
          | cons next pieces =>
              have nextRun : next.isRun :=
                (beside next rfl).resolve_left (fun run => nomatch run)
              have isRun := front next rfl nextRun other first
              rw [Alternates, isRun]
              exact Bool.false_ne_true
        · intro first here isRun
          cases here
          cases isRun
      · rename_i items others rest' same
        rw [same] at alternates
        refine ⟨?_, fun _ _ _ other first => by cases first; rfl⟩
        obtain ⟨next, after⟩ := List.isChain_cons.mp alternates
        exact List.isChain_cons.mpr ⟨next, after⟩
      · rename_i items notRun
        refine ⟨List.isChain_cons.mpr ⟨?_, alternates⟩,
          fun _ _ _ other first => by cases first; rfl⟩
        intro other first
        cases other with
        | gap left right => exact Bool.false_ne_true.symm
        | run others =>
            obtain ⟨tail, isTail⟩ := List.head?_eq_some_iff.mp first
            exact absurd isTail (notRun others tail)

/-- What an alignment of two sequences is. -/
structure Aligned (left right : List α) (pieces : List (Piece α)) : Prop where
  lefts : lefts pieces = left
  rights : rights pieces = right
  proper : ∀ piece ∈ pieces, piece.Proper
  alternates : pieces.IsChain Alternates

theorem aligned_pieces [DecidableEq α] (left right : List α) :
    Aligned left right (pieces left right) where
  lefts := lefts_pieces left right
  rights := rights_pieces left right
  proper := proper_merge fun _ => proper_align (Nat.le_refl _)
  alternates := (alternates_merge (sparse_align _ left right)).1

/-- Where both sides of a gap go on, the sequences differ at once. -/
theorem commonRun_gap [DecidableEq α] {left right : List α}
    (apart : left.Disjoint right) (inLeft : left ≠ []) (inRight : right ≠ [])
    (lefts rights : List α) : commonRun (left ++ lefts) (right ++ rights) = 0 := by
  obtain ⟨first, firsts, rfl⟩ := List.exists_cons_of_ne_nil inLeft
  obtain ⟨second, seconds, rfl⟩ := List.exists_cons_of_ne_nil inRight
  refine commonRun_of_head_ne ?_ _ _
  intro same
  exact apart List.mem_cons_self (same ▸ List.mem_cons_self)

/-- A last gap begins where the sequences differ or one of them ends. -/
theorem commonRun_lastGap [DecidableEq α] {left right : List α}
    (apart : left.Disjoint right) : commonRun left right = 0 := by
  cases left with
  | nil => rfl
  | cons first firsts =>
      cases right with
      | nil => rfl
      | cons second seconds =>
          have run := commonRun_gap apart (List.cons_ne_nil first firsts)
            (List.cons_ne_nil second seconds) [] []
          rwa [List.append_nil, List.append_nil] at run

example : opcodes [1, 2, 3] [1, 9, 1, 2, 3] =
    [⟨.insert, 0, 0, 0, 2⟩, ⟨.equal, 0, 3, 2, 5⟩] := by
  decide

end PpcLab.SequenceMatcher
