import PpcLab.Library.JsonText

/-!
# Relative paths

A path below a directory as the list of its components, the text it is written
as, and the suffix of its last component.  The text determines the path.
-/

namespace PpcLab.Paths

def slash : CodePoint := 0x2f

def dot : CodePoint := 0x2e

/-- `as_posix()` -/
def posix (parts : List Str) : Str :=
  [slash].intercalate parts

/-- A name of a file or a folder. -/
structure IsComponent (part : Str) : Prop where
  nonempty : part ≠ []
  noSlash : slash ∉ part
  noNull : 0 ∉ part
  notHere : part ≠ [dot]
  notParent : part ≠ [dot, dot]

instance (part : Str) : Decidable (IsComponent part) :=
  decidable_of_iff (part ≠ [] ∧ slash ∉ part ∧ 0 ∉ part ∧ part ≠ [dot] ∧
    part ≠ [dot, dot])
    ⟨fun ⟨nonempty, noSlash, noNull, notHere, notParent⟩ =>
      ⟨nonempty, noSlash, noNull, notHere, notParent⟩,
      fun component => ⟨component.nonempty, component.noSlash,
        component.noNull, component.notHere, component.notParent⟩⟩

/-- `name.suffix`: from the last dot on, unless that begins or ends the name. -/
def suffixOfName (name : Str) : Str :=
  let extension := (name.reverse.takeWhile (· ≠ dot)).reverse
  if extension.length + 1 < name.length ∧ extension ≠ [] then dot :: extension
  else []

/-- The components of a path as it is written, without its root. -/
def pureParts (text : Str) : List Str :=
  (text.splitOn slash).filter fun part => !part.isEmpty && part != [dot]

def isAbsolute (text : Str) : Bool :=
  text.head? == some slash

/-- `as_posix()` of a relative path as it is written. -/
def normalized (text : Str) : Str :=
  if (pureParts text).isEmpty then [dot] else posix (pureParts text)

example : suffixOfName (str "a.tar.gz") = str ".gz" := by
  decide

example : suffixOfName (str ".bin") = [] := by
  decide

theorem posix_cons (part : Str) {parts : List Str} (more : parts ≠ []) :
    posix (part :: parts) = part ++ slash :: posix parts := by
  cases parts with
  | nil => exact absurd rfl more
  | cons next parts => simp [posix, List.intercalate]

theorem posix_singleton (part : Str) : posix [part] = part := by
  simp [posix, List.intercalate]

theorem posix_ne_nil {part : Str} (component : IsComponent part)
    (parts : List Str) : posix (part :: parts) ≠ [] := by
  cases parts with
  | nil =>
      rw [posix_singleton]
      exact component.nonempty
  | cons next parts =>
      rw [posix_cons part (List.cons_ne_nil _ _)]
      simp

private theorem not_mem_of_singleton {part : Str} {parts : List Str}
    (component : IsComponent part) (more : parts ≠ []) (next : Str) :
    part ≠ posix (next :: parts) := by
  intro same
  apply component.noSlash
  rw [same, posix_cons next more]
  simp

/-- The text of a path determines its components. -/
theorem posix_injective {left right : List Str}
    (leftParts : ∀ part ∈ left, IsComponent part)
    (rightParts : ∀ part ∈ right, IsComponent part)
    (same : posix left = posix right) : left = right := by
  induction left generalizing right with
  | nil =>
      cases right with
      | nil => rfl
      | cons part right =>
          have component := rightParts part List.mem_cons_self
          exact absurd same.symm (posix_ne_nil component right)
  | cons part left induction =>
      have component := leftParts part (by simp)
      cases right with
      | nil =>
          exact absurd same (posix_ne_nil component left)
      | cons other right =>
          have otherComponent := rightParts other (by simp)
          cases left with
          | nil =>
              rw [posix_singleton] at same
              cases right with
              | nil =>
                  rw [posix_singleton] at same
                  rw [same]
              | cons next right =>
                  exact absurd same
                    (not_mem_of_singleton component (List.cons_ne_nil _ _) _)
          | cons next left =>
              cases right with
              | nil =>
                  rw [posix_singleton] at same
                  exact absurd same.symm (not_mem_of_singleton otherComponent
                    (List.cons_ne_nil _ _) _)
              | cons next' right =>
                  rw [posix_cons part (List.cons_ne_nil _ _),
                    posix_cons other (List.cons_ne_nil _ _)] at same
                  obtain ⟨rfl, rest⟩ := Text.append_cons_injective
                    component.noSlash otherComponent.noSlash same
                  rw [induction
                    (fun part member => leftParts part (by simp [member]))
                    (fun part member => rightParts part (by simp [member]))
                    rest]

/-- The parts of a text between slashes have no slash in them. -/
theorem mem_splitOn {text part : Str} (listed : part ∈ text.splitOn slash) :
    slash ∉ part ∧ ∀ character ∈ part, character ∈ text := by
  induction text generalizing part with
  | nil =>
      rw [List.splitOn_nil, List.mem_singleton] at listed
      subst listed
      simp
  | cons first text induction =>
      rw [List.splitOn, List.splitOnP_cons_eq_if_modifyHead] at listed
      split at listed
      · rcases List.mem_cons.mp listed with rfl | later
        · simp
        · obtain ⟨noSlash, inside⟩ := induction later
          exact ⟨noSlash, fun character member =>
            List.mem_cons_of_mem _ (inside character member)⟩
      · rename_i other
        obtain ⟨head, parts, split⟩ := List.exists_cons_of_ne_nil
          (List.splitOnP_ne_nil (· == slash) text)
        have among : ∀ part ∈ head :: parts, part ∈ text.splitOn slash := by
          intro part member
          rw [List.splitOn, split]
          exact member
        rw [split, List.modifyHead_cons] at listed
        rcases List.mem_cons.mp listed with rfl | later
        · obtain ⟨noSlash, inside⟩ := induction (among head (by simp))
          constructor
          · intro member
            rcases List.mem_cons.mp member with same | within
            · exact other (beq_iff_eq.mpr same.symm)
            · exact noSlash within
          · intro character member
            rcases List.mem_cons.mp member with rfl | within
            · exact List.mem_cons_self
            · exact List.mem_cons_of_mem _ (inside character within)
        · obtain ⟨noSlash, inside⟩ := induction
            (among part (List.mem_cons_of_mem _ later))
          exact ⟨noSlash, fun character member =>
            List.mem_cons_of_mem _ (inside character member)⟩

end PpcLab.Paths

namespace PpcLab

/-- A path below a directory, which is not the directory itself. -/
structure Relative where
  parts : List Str
  nonempty : parts ≠ []
  components : ∀ part ∈ parts, Paths.IsComponent part

namespace Relative

theorem ext {left right : Relative} (same : left.parts = right.parts) :
    left = right := by
  cases left
  cases right
  cases same
  rfl

instance : DecidableEq Relative := fun left right =>
  decidable_of_iff (left.parts = right.parts)
    ⟨ext, fun same => congrArg parts same⟩

/-- A path of components that are ones. -/
def ofParts? (parts : List Str) : Option Relative :=
  if valid : parts ≠ [] ∧ ∀ part ∈ parts, Paths.IsComponent part then
    some ⟨parts, valid.1, valid.2⟩
  else none

theorem ofParts?_eq_some {parts : List Str} {path : Relative} :
    ofParts? parts = some path ↔ path.parts = parts := by
  rw [ofParts?]
  constructor
  · intro same
    split at same
    · cases same
      rfl
    · cases same
  · rintro rfl
    rw [dif_pos ⟨path.nonempty, path.components⟩]

/-- `as_posix()` -/
def posix (path : Relative) : Str :=
  Paths.posix path.parts

/-- `name` -/
def name (path : Relative) : Str :=
  path.parts.getLast path.nonempty

/-- `suffix` -/
def suffix (path : Relative) : Str :=
  Paths.suffixOfName path.name

theorem pureParts_posix (path : Relative) :
    Paths.pureParts path.posix = path.parts := by
  have split : path.posix.splitOn Paths.slash = path.parts :=
    List.splitOn_intercalate _
      (fun part member => (path.components part member).noSlash) path.nonempty
  rw [Paths.pureParts, split, List.filter_eq_self]
  intro part member
  have component := path.components part member
  simp [component.nonempty, component.notHere]

theorem normalized_posix (path : Relative) :
    Paths.normalized path.posix = path.posix := by
  rw [Paths.normalized, pureParts_posix]
  simp [path.nonempty, posix]

theorem isAbsolute_posix (path : Relative) :
    Paths.isAbsolute path.posix = false := by
  obtain ⟨parts, nonempty, components⟩ := path
  cases parts with
  | nil => exact absurd rfl nonempty
  | cons part parts =>
      have component := components part List.mem_cons_self
      obtain ⟨first, others, same⟩ := List.exists_cons_of_ne_nil
        component.nonempty
      have start : (Paths.posix (part :: parts)).head? = some first := by
        cases parts with
        | nil => rw [Paths.posix_singleton, same, List.head?_cons]
        | cons next parts =>
            rw [Paths.posix_cons part (List.cons_ne_nil _ _), same,
              List.cons_append, List.head?_cons]
      have differ : first ≠ Paths.slash := by
        rintro rfl
        exact component.noSlash (same ▸ List.mem_cons_self)
      rw [Paths.isAbsolute, posix]
      dsimp only
      rw [start]
      simpa using differ

theorem getLast?_posix (path : Relative) :
    path.posix.getLast? ≠ some Paths.slash := by
  obtain ⟨parts, nonempty, components⟩ := path
  rw [posix]
  dsimp only
  induction parts with
  | nil => exact absurd rfl nonempty
  | cons part parts induction =>
      have component := components part List.mem_cons_self
      cases parts with
      | nil =>
          rw [Paths.posix_singleton]
          intro last
          exact component.noSlash (List.mem_of_getLast? last)
      | cons next parts =>
          rw [Paths.posix_cons part (List.cons_ne_nil _ _)]
          have rest := Paths.posix_ne_nil (components next (by simp)) parts
          rw [List.getLast?_append_of_ne_nil _ (List.cons_ne_nil _ _),
            List.getLast?_cons_of_ne_nil rest]
          exact induction (List.cons_ne_nil _ _) (fun other member =>
            components other (List.mem_cons_of_mem _ member))

theorem posix_injective : Function.Injective posix := by
  intro left right same
  exact ext (Paths.posix_injective left.components right.components same)

/-- A text that is written as a path is, and does not lead upwards, is that of a
path, unless it is the one for the folder itself. -/
theorem exists_posix_eq {text : Str} (noNull : 0 ∉ text)
    (normal : Paths.normalized text = text)
    (noParent : [Paths.dot, Paths.dot] ∉ Paths.pureParts text) :
    text = [Paths.dot] ∨ ∃ path : Relative, path.posix = text := by
  by_cases none : (Paths.pureParts text).isEmpty
  · rw [Paths.normalized, if_pos none] at normal
    exact .inl normal.symm
  · rw [Paths.normalized, if_neg none] at normal
    have components : ∀ part ∈ Paths.pureParts text,
        Paths.IsComponent part := by
      intro part listed
      obtain ⟨among, kept⟩ := List.mem_filter.mp listed
      obtain ⟨noSlash, inside⟩ := Paths.mem_splitOn among
      simp only [Bool.and_eq_true, Bool.not_eq_true', List.isEmpty_eq_false_iff,
        bne_iff_ne] at kept
      exact ⟨kept.1, noSlash, fun null => noNull (inside 0 null), kept.2,
        fun same => noParent (same ▸ listed)⟩
    refine .inr ⟨⟨Paths.pureParts text, ?_, components⟩, normal⟩
    simpa using none
end Relative

end PpcLab
