import Mathlib.Algebra.Ring.Nat
import Mathlib.Data.List.Basic

/-!
# Laying items out behind a cursor

Items are placed one after the other: the cursor is rounded up to the next
item's alignment, the item is put there, and the cursor moves to its end.  A
cursor held in a bounded word wraps to zero when it reaches the limit.  The
bounded layout then keeps the order of the unbounded one exactly as long as no
item starts at the limit.
-/

namespace PpcLab.CursorLayout

structure Item where
  size : Nat
  alignment : Nat
  deriving DecidableEq, Repr

/-- The least multiple of the alignment that is not below the value. -/
def roundUp (value alignment : Nat) : Nat :=
  (value + alignment - 1) / alignment * alignment

theorem dvd_roundUp (value alignment : Nat) :
    alignment ∣ roundUp value alignment :=
  Nat.dvd_mul_left _ _

theorem le_roundUp (value : Nat) {alignment : Nat}
    (positive : 0 < alignment) : value ≤ roundUp value alignment := by
  have whole := Nat.div_add_mod (value + alignment - 1) alignment
  have rest := Nat.mod_lt (value + alignment - 1) positive
  rw [Nat.mul_comm] at whole
  unfold roundUp
  omega

theorem roundUp_le {value alignment limit : Nat} (positive : 0 < alignment)
    (below : value ≤ limit) (divides : alignment ∣ limit) :
    roundUp value alignment ≤ limit := by
  obtain ⟨multiple, rfl⟩ := divides
  have bound : (value + alignment - 1) / alignment ≤ multiple := by
    apply Nat.le_of_lt_succ
    rw [Nat.div_lt_iff_lt_mul positive, Nat.succ_mul, Nat.mul_comm multiple]
    omega
  calc
    roundUp value alignment ≤ multiple * alignment :=
      Nat.mul_le_mul_right alignment bound
    _ = alignment * multiple := Nat.mul_comm _ _

theorem roundUp_of_dvd {value alignment : Nat} (positive : 0 < alignment)
    (divides : alignment ∣ value) : roundUp value alignment = value :=
  Nat.le_antisymm (roundUp_le positive (Nat.le_refl value) divides)
    (le_roundUp value positive)

/-- The starts of the items when the cursor is not bounded. -/
def starts : Nat → List Item → List Nat
  | _, [] => []
  | cursor, item :: items =>
      let start := roundUp cursor item.alignment
      start :: starts (start + item.size) items

/-- The starts of the items when the cursor is kept below a limit. -/
def boundedStarts (limit : Nat) : Nat → List Item → List Nat
  | _, [] => []
  | cursor, item :: items =>
      let start := roundUp cursor item.alignment % limit
      start :: boundedStarts limit ((start + item.size) % limit) items

/-- Each start is aligned, not below the end of the item before it, and leaves
room for the item below the limit. -/
def InOrder (limit : Nat) : Nat → List Item → List Nat → Prop
  | _, [], [] => True
  | lower, item :: items, start :: rest =>
      lower ≤ start ∧ item.alignment ∣ start ∧ start + item.size ≤ limit ∧
        InOrder limit (start + item.size) items rest
  | _, _, _ => False

/-- Each item ends at the limit or below it. -/
def Ends (limit : Nat) : List Item → List Nat → Prop
  | [], [] => True
  | item :: items, start :: rest =>
      start + item.size ≤ limit ∧ Ends limit items rest
  | _, _ => False

/-- What a layout takes for granted about the items it places. -/
structure Placeable (limit : Nat) (item : Item) : Prop where
  nonempty : 0 < item.size
  positive : 0 < item.alignment
  divides : item.alignment ∣ limit

/-- The first start reaches the limit only when it is the limit. -/
private theorem first_start {limit cursor : Nat} {item : Item}
    (placeable : Placeable limit item) (below : cursor ≤ limit) :
    cursor ≤ roundUp cursor item.alignment ∧
      roundUp cursor item.alignment ≤ limit :=
  ⟨le_roundUp cursor placeable.positive,
    roundUp_le placeable.positive below placeable.divides⟩

/-- Wrapping the cursor first does not change where the item goes. -/
private theorem roundUp_mod {limit cursor : Nat} {item : Item}
    (placeable : Placeable limit item) (below : cursor ≤ limit) :
    roundUp (cursor % limit) item.alignment % limit =
      roundUp cursor item.alignment % limit := by
  rcases Nat.lt_or_eq_of_le below with inside | atLimit
  · rw [Nat.mod_eq_of_lt inside]
  · rw [atLimit, Nat.mod_self,
      roundUp_of_dvd placeable.positive (Nat.dvd_zero _),
      roundUp_of_dvd placeable.positive placeable.divides, Nat.zero_mod,
      Nat.mod_self]

/-- A bounded layout whose items all end in bounds is in order exactly when the
unbounded layout starts every item below the limit. -/
theorem inOrder_iff {limit : Nat} {items : List Item}
    (placeable : ∀ item ∈ items, Placeable limit item) {cursor : Nat}
    (below : cursor ≤ limit)
    (bounded : Ends limit items
      (boundedStarts limit (cursor % limit) items)) :
    InOrder limit cursor items
        (boundedStarts limit (cursor % limit) items) ↔
      ∀ start ∈ starts cursor items, start < limit := by
  induction items generalizing cursor with
  | nil => simp [InOrder, boundedStarts, starts]
  | cons item items induction =>
      have first := placeable item List.mem_cons_self
      obtain ⟨atLeast, atMost⟩ := first_start first below
      have later : ∀ item ∈ items, Placeable limit item :=
        fun item member => placeable item (List.mem_cons_of_mem _ member)
      simp only [boundedStarts, starts, InOrder, Ends, roundUp_mod first below,
        List.forall_mem_cons] at bounded ⊢
      rcases Nat.lt_or_eq_of_le atMost with inside | reached
      · rw [Nat.mod_eq_of_lt inside] at bounded ⊢
        rw [induction later bounded.1 bounded.2]
        constructor
        · rintro ⟨_, _, _, rest⟩
          exact ⟨inside, rest⟩
        · rintro ⟨_, rest⟩
          exact ⟨atLeast, dvd_roundUp _ _, bounded.1, rest⟩
      · constructor
        · rintro ⟨lower, _, fits, _⟩
          rw [reached, Nat.mod_self] at lower fits
          have atZero : cursor = 0 := Nat.le_zero.mp lower
          rw [atZero, roundUp_of_dvd first.positive (Nat.dvd_zero _)] at reached
          have := first.nonempty
          omega
        · rintro ⟨inside, _⟩
          omega

/-- A layout in order fits, and nothing that does not fit is in order. -/
theorem ends_starts_iff {limit : Nat} {items : List Item}
    (placeable : ∀ item ∈ items, Placeable limit item) {cursor : Nat}
    (below : cursor ≤ limit)
    (bounded : Ends limit items
      (boundedStarts limit (cursor % limit) items)) :
    Ends limit items (starts cursor items) ↔
      ∀ start ∈ starts cursor items, start < limit := by
  induction items generalizing cursor with
  | nil => simp [Ends, starts]
  | cons item items induction =>
      have first := placeable item List.mem_cons_self
      obtain ⟨atLeast, atMost⟩ := first_start first below
      have later : ∀ item ∈ items, Placeable limit item :=
        fun item member => placeable item (List.mem_cons_of_mem _ member)
      simp only [boundedStarts, starts, Ends, roundUp_mod first below,
        List.forall_mem_cons] at bounded ⊢
      rcases Nat.lt_or_eq_of_le atMost with inside | reached
      · rw [Nat.mod_eq_of_lt inside] at bounded
        rw [induction later bounded.1 bounded.2]
        constructor
        · rintro ⟨_, rest⟩
          exact ⟨inside, rest⟩
        · rintro ⟨_, rest⟩
          exact ⟨bounded.1, rest⟩
      · have := first.nonempty
        constructor
        · rintro ⟨fits, _⟩
          omega
        · rintro ⟨inside, _⟩
          omega

section Tables

variable {Entry : Type} (isPlaced : Entry → Bool) (item : Entry → Item)
  (address : Entry → Nat) (limit : Nat)

/-- A table before and after its placed entries got their addresses. -/
inductive LaidOut : Nat → List Entry → List Entry → Prop where
  | nil (cursor : Nat) : LaidOut cursor [] []
  | skip {cursor : Nat} {entry : Entry} {before after : List Entry}
      (absent : isPlaced entry = false)
      (rest : LaidOut cursor before after) :
      LaidOut cursor (entry :: before) (entry :: after)
  | place {cursor : Nat} {old new : Entry} {before after : List Entry}
      (present : isPlaced old = true)
      (stillPresent : isPlaced new = true)
      (placeable : Placeable limit (item old))
      (start : address new = roundUp cursor (item old).alignment % limit)
      (fits : address new + (item old).size ≤ limit)
      (rest : LaidOut ((address new + (item old).size) % limit) before
        after) :
      LaidOut cursor (old :: before) (new :: after)

/-- The items of the placed entries. -/
def items (entries : List Entry) : List Item :=
  (entries.filter isPlaced).map item

/-- The addresses of the placed entries. -/
def addresses (entries : List Entry) : List Nat :=
  (entries.filter isPlaced).map address

variable {isPlaced item address limit}

theorem LaidOut.spec {cursor : Nat} {before after : List Entry}
    (laidOut : LaidOut isPlaced item address limit cursor before after) :
    (∀ placed ∈ items isPlaced item before, Placeable limit placed) ∧
      addresses isPlaced address after =
        boundedStarts limit cursor (items isPlaced item before) ∧
      Ends limit (items isPlaced item before)
        (addresses isPlaced address after) := by
  induction laidOut with
  | nil => simp [items, addresses, boundedStarts, Ends]
  | skip absent _ induction =>
      simp only [items, addresses, List.filter_cons, absent] at induction ⊢
      exact induction
  | place present stillPresent placeable start fits _ induction =>
      obtain ⟨later, same, ends⟩ := induction
      simp only [items, addresses, List.filter_cons, present, stillPresent,
        if_true, List.map_cons, List.forall_mem_cons, boundedStarts,
        Ends] at later same ends ⊢
      refine ⟨⟨placeable, later⟩, ?_, fits, ends⟩
      rw [← start, same]

/-- Every placed entry is in order, and the table as a whole fits. -/
def WellPlaced (isPlaced : Entry → Bool) (item : Entry → Item)
    (address : Entry → Nat) (limit base : Nat)
    (before after : List Entry) : Prop :=
  InOrder limit base (items isPlaced item before)
      (addresses isPlaced address after) ∧
    Ends limit (items isPlaced item before)
      (starts base (items isPlaced item before))

/-- No placed entry starts at the limit when the cursor is not bounded. -/
def StaysBelow (isPlaced : Entry → Bool) (item : Entry → Item)
    (limit base : Nat) (entries : List Entry) : Prop :=
  ∀ start ∈ starts base (items isPlaced item entries), start < limit

theorem LaidOut.wellPlaced_iff {base : Nat} {before after : List Entry}
    (inside : base < limit)
    (laidOut : LaidOut isPlaced item address limit base before after) :
    WellPlaced isPlaced item address limit base before after ↔
      StaysBelow isPlaced item limit base before := by
  obtain ⟨placeable, same, ends⟩ := laidOut.spec
  have wrapped : base % limit = base := Nat.mod_eq_of_lt inside
  have bounded : Ends limit (items isPlaced item before)
      (boundedStarts limit (base % limit) (items isPlaced item before)) := by
    rw [wrapped, ← same]
    exact ends
  have ordered := inOrder_iff placeable (Nat.le_of_lt inside) bounded
  have fitted := ends_starts_iff placeable (Nat.le_of_lt inside) bounded
  rw [wrapped] at ordered
  unfold WellPlaced StaysBelow
  rw [same, ordered, fitted, and_self]

end Tables

end PpcLab.CursorLayout
