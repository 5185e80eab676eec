import Mathlib.Data.List.Induction
import Mathlib.Tactic.Linarith
import Mathlib.Tactic.Ring
import PpcLab.Library.Json
import PpcLab.Library.Text

/-!
# Padded numbers

Decimal numbers that are padded with zeros.  Numbers that fit into the width
have texts of one length, and the texts stand in the order of the numbers.
-/

namespace PpcLab.Text

/-- The digits of a number after as many zeros as the width asks for. -/
def padded (width value : Nat) : Str :=
  let digits := Nat.toDigits 10 value
  (List.replicate (width - digits.length) '0' ++ digits).map codePoint

variable {width first second : Nat}

private def IsDigits (digits : List Char) : Prop :=
  ∀ digit ∈ digits, ∃ value < 10, digit = Nat.digitChar value

private def paddedDigits (width value : Nat) : List Char :=
  let digits := Nat.toDigits 10 value
  List.replicate (width - digits.length) '0' ++ digits

private theorem isDigits_toDigits (value : Nat) :
    IsDigits (Nat.toDigits 10 value) := by
  induction value using Nat.strongRecOn with
  | ind value induction =>
      intro digit member
      rw [Nat.toDigits_eq_if (by omega)] at member
      split at member
      · rename_i small
        exact ⟨value, small, List.mem_singleton.mp member⟩
      · rcases List.mem_append.mp member with before | last
        · exact induction _ (by omega) digit before
        · exact ⟨value % 10, by omega, List.mem_singleton.mp last⟩

private theorem isDigits_padded (width value : Nat) :
    IsDigits (paddedDigits width value) := by
  intro digit member
  rcases List.mem_append.mp member with zero | digits
  · exact ⟨0, by omega, (List.mem_replicate.mp zero).2⟩
  · exact isDigits_toDigits value digit digits

private theorem length_paddedDigits {value : Nat} (positive : 0 < width)
    (fits : value < 10 ^ width) : (paddedDigits width value).length = width := by
  have short := (Nat.length_toDigits_le_iff (by omega) positive).mpr fits
  rw [paddedDigits, List.length_append, List.length_replicate]
  omega

private theorem readDigits_padded (width value : Nat) :
    readDigits 10 (paddedDigits width value) = value := by
  rw [paddedDigits, readDigits_replicate_zero,
    readDigits_toDigits (by omega) (by omega)]

private theorem readDigits_cons (digit : Char) (digits : List Char) :
    readDigits 10 (digit :: digits) =
      digitValue digit * 10 ^ digits.length + readDigits 10 digits := by
  induction digits using List.reverseRecOn with
  | nil => simp [readDigits]
  | append_singleton digits last induction =>
      rw [← List.cons_append, readDigits_append_singleton, induction,
        readDigits_append_singleton, List.length_append, List.length_singleton,
        Nat.pow_succ]
      ring

private theorem readDigits_lt {digits : List Char} (valid : IsDigits digits) :
    readDigits 10 digits < 10 ^ digits.length := by
  induction digits with
  | nil => simp [readDigits]
  | cons digit digits induction =>
      obtain ⟨value, small, rfl⟩ := valid digit (by simp)
      have rest := induction fun other member => valid other (by simp [member])
      have whole : (value + 1) * 10 ^ digits.length ≤ 10 * 10 ^ digits.length :=
        Nat.mul_le_mul_right _ small
      rw [readDigits_cons, digitValue_digitChar (by omega), List.length_cons,
        Nat.pow_succ]
      linarith

private theorem codePoint_lt {first second : Nat} (small : second < 10)
    (less : first < second) :
    codePoint (Nat.digitChar first) < codePoint (Nat.digitChar second) := by
  have all : ∀ second : Fin 10, ∀ first : Fin 10, first < second →
      (codePoint (Nat.digitChar first)).val <
        (codePoint (Nat.digitChar second)).val := by
    decide
  exact all ⟨second, small⟩ ⟨first, by omega⟩ less

private theorem lt_of_readDigits_lt {first second : List Char} {rest other : Str}
    (lengths : first.length = second.length) (digits : IsDigits first)
    (otherDigits : IsDigits second)
    (less : readDigits 10 first < readDigits 10 second) :
    first.map codePoint ++ rest < second.map codePoint ++ other := by
  induction first generalizing second with
  | nil =>
      rw [List.eq_nil_of_length_eq_zero lengths.symm] at less
      exact absurd less (lt_irrefl _)
  | cons head first induction =>
      cases second with
      | nil => simp at lengths
      | cons otherHead second =>
          have shorter : first.length = second.length := Nat.succ.inj lengths
          obtain ⟨value, small, rfl⟩ := digits head (by simp)
          obtain ⟨otherValue, otherSmall, rfl⟩ := otherDigits otherHead (by simp)
          have tail : IsDigits first := fun digit member =>
            digits digit (by simp [member])
          have otherTail : IsDigits second := fun digit member =>
            otherDigits digit (by simp [member])
          rw [readDigits_cons, readDigits_cons, shorter,
            digitValue_digitChar (by omega), digitValue_digitChar (by omega)]
            at less
          simp only [List.map_cons, List.cons_append]
          rw [List.cons_lt_cons_iff]
          rcases lt_trichotomy value otherValue with before | rfl | behind
          · exact .inl (codePoint_lt otherSmall before)
          · exact .inr ⟨rfl, induction shorter tail otherTail (by omega)⟩
          · have bound := readDigits_lt otherTail
            have whole : (otherValue + 1) * 10 ^ second.length ≤
                value * 10 ^ second.length := Nat.mul_le_mul_right _ behind
            rw [Nat.add_mul] at whole
            omega

/-- Numbers that fit stand in their order, whatever follows them. -/
theorem padded_lt (positive : 0 < width) (fits : second < 10 ^ width)
    (less : first < second) (rest other : Str) :
    padded width first ++ rest < padded width second ++ other := by
  refine lt_of_readDigits_lt ?_ (isDigits_padded width first)
    (isDigits_padded width second) ?_
  · exact (length_paddedDigits positive (less.trans fits)).trans
      (length_paddedDigits positive fits).symm
  · have reads := readDigits_padded width first
    have otherReads := readDigits_padded width second
    rw [paddedDigits] at reads otherReads
    omega

end PpcLab.Text
