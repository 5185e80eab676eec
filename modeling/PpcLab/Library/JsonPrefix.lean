import PpcLab.Library.JsonRoundTrip

/-!
# Beginnings of JSON texts

A value that was read to its end is read in the same way in front of anything.
So a text that was cut short inside of an object is not read at all, nor are
two texts of objects on one line.
-/

namespace PpcLab.Json

variable (float : Str → FloatLiteral)

private theorem skipped_append {text rest : Str} {next : CodePoint}
    (visible : skipped text = next :: rest) (extra : Str) :
    skipped (text ++ extra) = next :: (rest ++ extra) := by
  induction text with
  | nil => cases visible
  | cons head text induction =>
      rw [skipped, List.dropWhile_cons] at visible
      rw [List.cons_append, skipped, List.dropWhile_cons]
      split
      · rename_i space
        rw [if_pos space] at visible
        exact induction visible
      · rename_i space
        rw [if_neg space] at visible
        cases visible
        rfl

private theorem readUnits_quote (text : Str) :
    readUnits (doubleQuote :: text) = some ([], text) := by
  rw [readUnits.eq_def]
  rfl

private theorem readUnits_digits (first second third fourth : CodePoint)
    (text : Str) :
    readUnits (backslash :: 0x75 :: first :: second :: third :: fourth ::
      text) = (hexadecimal [first, second, third, fourth]).bind fun unit =>
        (readUnits text).map fun (units, rest) =>
          (CodePoint.ofNat unit :: units, rest) := by
  rw [readUnits.eq_def]
  dsimp only
  rw [if_neg (by decide), if_pos rfl, if_pos rfl]
  cases hexadecimal [first, second, third, fourth] with
  | none => rfl
  | some unit => cases readUnits text <;> rfl

private theorem readUnits_letter {letter : CodePoint} (text : Str)
    (short : letter ≠ 0x75) :
    readUnits (backslash :: letter :: text) =
      (shortForms.lookup letter).bind fun plain =>
        (readUnits text).map fun (units, rest) => (plain :: units, rest) := by
  rw [readUnits.eq_def]
  dsimp only
  rw [if_neg (by decide), if_pos rfl, if_neg short]
  cases shortForms.lookup letter with
  | none => rfl
  | some plain => cases readUnits text <;> rfl

private theorem readUnits_append {text units rest : Str}
    (read : readUnits text = some (units, rest)) (extra : Str) :
    readUnits (text ++ extra) = some (units, rest ++ extra) := by
  have onto {text : Str} {unit : CodePoint} {units rest : Str}
      (induction : ∀ {units rest}, readUnits text = some (units, rest) →
        readUnits (text ++ extra) = some (units, rest ++ extra))
      (read : ((readUnits text).map fun (units, rest) =>
        (unit :: units, rest)) = some (units, rest)) :
      ((readUnits (text ++ extra)).map fun (units, rest) =>
        (unit :: units, rest)) = some (units, rest ++ extra) := by
    obtain ⟨⟨more, tail⟩, found, same⟩ := Option.map_eq_some_iff.mp read
    cases same
    rw [induction found]
    rfl
  induction text using readUnits.induct generalizing units rest with
  | case1 => cases read
  | case2 text =>
      rw [readUnits_quote] at read
      cases read
      rw [List.cons_append, readUnits_quote]
  | case3 _ =>
      rw [readUnits.eq_def] at read
      cases read
  | case4 first second third fourth text _ induction =>
      simp only [List.cons_append]
      rw [readUnits_digits] at read ⊢
      obtain ⟨unit, digits, read⟩ := Option.bind_eq_some_iff.mp read
      rw [digits, Option.bind_some]
      exact onto induction read
  | case5 text short _ =>
      rw [readUnits.eq_def] at read
      dsimp only at read
      rw [if_neg (by decide), if_pos rfl, if_pos rfl] at read
      split at read
      · exact absurd rfl (short _ _ _ _ _)
      · cases read
  | case6 letter text short _ induction =>
      simp only [List.cons_append]
      rw [readUnits_letter _ short] at read ⊢
      obtain ⟨plain, form, read⟩ := Option.bind_eq_some_iff.mp read
      rw [form, Option.bind_some]
      exact onto induction read
  | case7 character text notQuote notBackslash control =>
      rw [readUnits.eq_def] at read
      dsimp only at read
      rw [if_neg notQuote, if_neg notBackslash, if_pos control] at read
      cases read
  | case8 character text notQuote notBackslash visible induction =>
      rw [List.cons_append, readUnits_plain _ (Nat.not_lt.mp visible) notQuote
        notBackslash]
      rw [readUnits_plain _ (Nat.not_lt.mp visible) notQuote notBackslash]
        at read
      exact onto induction read

private theorem readString_append {text value rest : Str}
    (read : readString text = some (value, rest)) (extra : Str) :
    readString (text ++ extra) = some (value, rest ++ extra) := by
  obtain ⟨⟨units, tail⟩, found, same⟩ := Option.map_eq_some_iff.mp read
  cases same
  rw [readString, readUnits_append found]
  rfl

/-- A number ends before what remains of a text. -/
private def Stops (rest : Str) : Prop :=
  rest ≠ [] ∧ Ends rest

private theorem takeWhile_append {text : Str}
    (more : text.dropWhile isDigit ≠ []) (extra : Str) :
    (text ++ extra).takeWhile isDigit = text.takeWhile isDigit ∧
      (text ++ extra).dropWhile isDigit =
        text.dropWhile isDigit ++ extra := by
  induction text with
  | nil => exact absurd rfl more
  | cons head text induction =>
      rw [List.dropWhile_cons] at more
      rw [List.cons_append]
      cases digit : isDigit head with
      | true =>
          rw [digit, if_pos rfl] at more
          obtain ⟨taken, dropped⟩ := induction more
          simp [digit, taken, dropped]
      | false => simp [digit]

private theorem readExponent_append {text exponent rest : Str}
    (read : readExponent text = (exponent, rest)) (stops : Stops rest)
    (extra : Str) :
    readExponent (text ++ extra) = (exponent, rest ++ extra) := by
  cases text with
  | nil =>
      cases read
      exact absurd rfl stops.1
  | cons mark text =>
      unfold readExponent at read ⊢
      dsimp only [List.cons_append] at read ⊢
      by_cases isMark : mark = 0x65 ∨ mark = 0x45
      · split at read
        · rename_i both
          cases read
          have digitsMore : (readSign text).2 ≠ [] := by
            intro none
            rw [none] at stops
            exact stops.1 rfl
          have signed : readSign (text ++ extra) =
              ((readSign text).1, (readSign text).2 ++ extra) := by
            cases text with
            | nil => exact absurd rfl digitsMore
            | cons sign text =>
                rw [List.cons_append, readSign, readSign]
                split <;> rfl
          obtain ⟨taken, dropped⟩ := takeWhile_append stops.1 extra
          rw [signed]
          dsimp only
          rw [taken, dropped, if_pos both]
        · cases read
          have marks := (stops.2 mark rfl).2.2
          exact absurd isMark (by
            rintro (e | e)
            · exact marks.1 e
            · exact marks.2 e)
      · rw [if_neg fun both => isMark both.1] at read ⊢
        cases read
        rfl

private theorem readFraction_append {text fraction rest : Str}
    (read : readFraction text = (fraction, rest)) (more : rest ≠ [])
    (noDot : rest.head? ≠ some 0x2e) (extra : Str) :
    readFraction (text ++ extra) = (fraction, rest ++ extra) := by
  cases text with
  | nil =>
      cases read
      exact absurd rfl more
  | cons dot text =>
      rw [List.cons_append]
      unfold readFraction at read ⊢
      dsimp only at read ⊢
      by_cases isDot : dot = 0x2e
      · split at read
        · rename_i both
          cases read
          obtain ⟨taken, dropped⟩ := takeWhile_append more extra
          rw [taken, dropped, if_pos both]
        · cases read
          exact absurd (congrArg some isDot) noDot
      · rw [if_neg fun both => isDot both.1] at read ⊢
        cases read
        rfl

private theorem readWhole_append {text whole rest : Str}
    (read : readWhole text = some (whole, rest)) (more : rest ≠ [])
    (extra : Str) :
    readWhole (text ++ extra) = some (whole, rest ++ extra) := by
  cases text with
  | nil => cases read
  | cons digit text =>
      rw [List.cons_append]
      unfold readWhole at read ⊢
      dsimp only at read ⊢
      split at read
      · rename_i zero
        cases read
        rw [if_pos zero]
      · rename_i notZero
        split at read
        · rename_i isNumber
          cases read
          obtain ⟨taken, dropped⟩ := takeWhile_append more extra
          rw [if_neg notZero, if_pos isNumber, taken, dropped]
        · cases read

/-- What stands before an exponent does not end in a point. -/
private theorem readExponent_rest {text exponent rest : Str}
    (read : readExponent text = (exponent, rest)) (stops : Stops rest) :
    text ≠ [] ∧ text.head? ≠ some 0x2e := by
  cases text with
  | nil =>
      cases read
      exact absurd rfl stops.1
  | cons mark text =>
      refine ⟨List.cons_ne_nil _ _, ?_⟩
      intro isDot
      cases Option.some.inj isDot
      unfold readExponent at read
      dsimp only at read
      rw [if_neg fun both => absurd both.1 (by decide)] at read
      cases read
      exact (stops.2 0x2e rfl).2.1 rfl

private theorem readFraction_ne_nil {text fraction rest : Str}
    (read : readFraction text = (fraction, rest)) (more : rest ≠ []) :
    text ≠ [] := by
  rintro rfl
  cases read
  exact more rfl

private theorem readMagnitude_append {sign text rest : Str} {value : Json}
    (read : readMagnitude float sign text = some (value, rest))
    (stops : Stops rest) (extra : Str) :
    readMagnitude float sign (text ++ extra) =
      some (value, rest ++ extra) := by
  obtain ⟨⟨whole, afterWhole⟩, wholeRead, read⟩ :=
    Option.bind_eq_some_iff.mp read
  dsimp only at read
  cases fractionRead : readFraction afterWhole with
  | mk fraction afterFraction =>
      rw [fractionRead] at read
      dsimp only at read
      cases exponentRead : readExponent afterFraction with
      | mk exponent afterExponent =>
          rw [exponentRead] at read
          dsimp only at read
          have last : afterExponent = rest := by
            split at read
            · cases read
              rfl
            · cases read
              rfl
          subst last
          obtain ⟨more, noDot⟩ := readExponent_rest exponentRead stops
          have some := readFraction_ne_nil fractionRead more
          rw [readMagnitude, readWhole_append wholeRead some,
            Option.bind_eq_bind, Option.bind_some]
          dsimp only
          rw [readFraction_append fractionRead more noDot]
          dsimp only
          rw [readExponent_append exponentRead stops]
          dsimp only
          split at read
          · rename_i none
            cases read
            rw [if_pos none]
            rfl
          · rename_i float
            cases read
            rw [if_neg float]
            rfl

private theorem digit_of_readMagnitude {sign text rest : Str} {value : Json}
    (read : readMagnitude float sign text = some (value, rest)) :
    ∃ digit tail, text = digit :: tail ∧ isDigit digit := by
  obtain ⟨⟨whole, afterWhole⟩, wholeRead, _⟩ := Option.bind_eq_some_iff.mp read
  cases text with
  | nil => cases wholeRead
  | cons digit tail =>
      refine ⟨digit, tail, rfl, ?_⟩
      unfold readWhole at wholeRead
      dsimp only at wholeRead
      split at wholeRead
      · rename_i zero
        rw [zero]
        decide
      · split at wholeRead
        · assumption
        · cases wholeRead

private theorem eq_append_of_after {word : String} {text rest : Str}
    (found : after word text = some rest) : text = str word ++ rest := by
  unfold after at found
  split at found
  · rename_i isPrefix
    obtain ⟨tail, same⟩ := List.isPrefixOf_iff_prefix.mp isPrefix
    cases found
    rw [← same, List.drop_left]
  · cases found

private theorem readScalar_append {text rest : Str} {value : Json}
    (read : readScalar float text = some (value, rest)) (stops : Stops rest)
    (extra : Str) :
    readScalar float (text ++ extra) = some (value, rest ++ extra) := by
  rcases Option.or_eq_some_iff.mp read with constant | ⟨none, number⟩
  · obtain ⟨entry, member, found⟩ := List.exists_of_findSome?_eq_some constant
    obtain ⟨tail, there, same⟩ := Option.map_eq_some_iff.mp found
    cases same
    rw [eq_append_of_after there, List.append_assoc, readScalar,
      readConstant_of_mem member]
    rfl
  · cases text with
    | nil => cases number
    | cons head text =>
        unfold readNumber at number
        dsimp only at number
        rw [List.cons_append, readScalar, readNumber]
        split at number
        · rename_i minus
          obtain ⟨digit, tail, rfl, isNumber⟩ :=
            digit_of_readMagnitude float number
          have later := readMagnitude_append float number stops extra
          rw [minus, List.cons_append] at later
          rw [minus, List.cons_append, readConstant_minus _ isNumber,
            Option.none_or, if_pos rfl, later]
        · rename_i notMinus
          obtain ⟨digit, tail, same, isNumber⟩ :=
            digit_of_readMagnitude float number
          cases same
          rw [readConstant_digit _ isNumber, Option.none_or, if_neg notMinus]
          exact readMagnitude_append float number stops extra

/-- A value ends before what remains, or has an end of its own. -/
private def Closed (value : Json) (rest : Str) : Prop :=
  value.isScalar → Stops rest

/-- What a mark is behind, a number is not. -/
private theorem stops_of_skipped {rest tail : Str} {mark : CodePoint}
    (visible : skipped rest = mark :: tail)
    (isMark : mark = 0x5d ∨ mark = 0x2c ∨ mark = 0x7d) : Stops rest := by
  cases rest with
  | nil => cases visible
  | cons head rest =>
      refine ⟨List.cons_ne_nil _ _, ?_⟩
      rintro character ⟨⟩
      rw [skipped, List.dropWhile_cons] at visible
      split at visible
      · rename_i space
        have spaces : ∀ character ∈ str " \t\n\r", isDigit character = false ∧
            character ≠ 0x2e ∧ character ≠ 0x65 ∧ character ≠ 0x45 := by
          decide
        exact spaces head (of_decide_eq_true space)
      · cases visible
        rcases isMark with rfl | rfl | rfl
        all_goals decide

mutual

private theorem readValue_append :
    (fuel : Nat) → {text rest : Str} → {value : Json} →
    readValue float fuel text = some (value, rest) → Closed value rest →
    {other : Nat} → fuel ≤ other → (extra : Str) →
    readValue float other (text ++ extra) = some (value, rest ++ extra)
  | 0, _, _, _, read, _, _, _, _ => by
      cases read
  | _ + 1, [], _, _, read, _, _, _, _ => by
      cases read
  | fuel + 1, first :: text, rest, value, read, closed, other, more, extra => by
      obtain ⟨other, rfl⟩ := Nat.exists_eq_add_of_le' (show 1 ≤ other by omega)
      have enough : fuel ≤ other := by
        omega
      rw [readValue] at read
      rw [List.cons_append, readValue]
      split at read
      · rename_i quote
        obtain ⟨⟨string, tail⟩, found, same⟩ := Option.map_eq_some_iff.mp read
        cases same
        rw [if_pos quote, readString_append found]
        rfl
      rename_i notQuote
      split at read
      · rename_i bracket
        rw [if_neg notQuote, if_pos bracket]
        cases visible : skipped text with
        | nil =>
            rw [visible] at read
            cases read
        | cons next tail =>
            rw [visible] at read
            rw [skipped_append visible]
            dsimp only at read ⊢
            split at read
            · rename_i close
              cases read
              rw [if_pos close]
            · rename_i another
              obtain ⟨⟨items, tail⟩, found, same⟩ :=
                Option.map_eq_some_iff.mp read
              cases same
              have later := readItems_append fuel found enough extra
              rw [List.cons_append] at later
              rw [if_neg another, later]
              rfl
      rename_i notBracket
      split at read
      · rename_i brace
        rw [if_neg notQuote, if_neg notBracket, if_pos brace]
        cases visible : skipped text with
        | nil =>
            rw [visible] at read
            cases read
        | cons next tail =>
            rw [visible] at read
            rw [skipped_append visible]
            dsimp only at read ⊢
            split at read
            · rename_i close
              cases read
              rw [if_pos close]
            · rename_i another
              obtain ⟨⟨members, tail⟩, found, same⟩ :=
                Option.map_eq_some_iff.mp read
              cases same
              have later := readMembers_append fuel found enough extra
              rw [List.cons_append] at later
              rw [if_neg another, later]
              rfl
      · rename_i notBrace
        rw [if_neg notQuote, if_neg notBracket, if_neg notBrace]
        have scalar : value.isScalar := by
          rcases Option.or_eq_some_iff.mp read with constant | ⟨_, number⟩
          · obtain ⟨entry, member, found⟩ :=
              List.exists_of_findSome?_eq_some constant
            obtain ⟨tail, there, same⟩ := Option.map_eq_some_iff.mp found
            cases same
            have all : ∀ entry ∈ constants, entry.2.isScalar := by
              decide
            exact all entry member
          · unfold readNumber at number
            dsimp only at number
            split at number
            all_goals
              obtain ⟨⟨whole, tail⟩, _, number⟩ :=
                Option.bind_eq_some_iff.mp number
              dsimp only at number
              split at number
              all_goals
                cases number
                rfl
        have later := readScalar_append float read (closed scalar) extra
        rw [List.cons_append] at later
        exact later

private theorem readItems_append :
    (fuel : Nat) → {text rest : Str} → {items : List Json} →
    readItems float fuel text = some (items, rest) →
    {other : Nat} → fuel ≤ other → (extra : Str) →
    readItems float other (text ++ extra) = some (items, rest ++ extra)
  | 0, _, _, _, read, _, _, _ => by
      cases read
  | fuel + 1, text, rest, items, read, other, more, extra => by
      obtain ⟨other, rfl⟩ := Nat.exists_eq_add_of_le' (show 1 ≤ other by omega)
      have enough : fuel ≤ other := by
        omega
      rw [readItems] at read
      obtain ⟨⟨item, tail⟩, found, read⟩ := Option.bind_eq_some_iff.mp read
      dsimp only at read
      cases visible : skipped tail with
      | nil =>
          rw [visible] at read
          cases read
      | cons mark after =>
          rw [visible] at read
          dsimp only at read
          have marks : mark = 0x5d ∨ mark = 0x2c := by
            split at read
            · rename_i close
              exact .inl close
            · split at read
              · rename_i comma
                exact .inr comma
              · cases read
          have stops := stops_of_skipped visible
            (marks.elim .inl fun comma => .inr (.inl comma))
          rw [readItems, readValue_append fuel found (fun _ => stops) enough
            extra, Option.bind_eq_bind, Option.bind_some]
          dsimp only
          rw [skipped_append visible]
          dsimp only
          split at read
          · rename_i close
            cases read
            rw [if_pos close]
            rfl
          · rename_i another
            split at read
            · rename_i comma
              obtain ⟨⟨others, tail⟩, later, read⟩ :=
                Option.bind_eq_some_iff.mp read
              cases read
              have nonempty : skipped after ≠ [] := by
                intro none
                rw [none] at later
                cases fuel with
                | zero => cases later
                | succ fuel =>
                    rw [readItems] at later
                    obtain ⟨_, impossible, _⟩ :=
                      Option.bind_eq_some_iff.mp later
                    cases fuel <;> cases impossible
              obtain ⟨next, rest, begins⟩ :=
                List.exists_cons_of_ne_nil nonempty
              have others := readItems_append fuel later enough extra
              rw [begins, List.cons_append] at others
              rw [if_neg another, if_pos comma, skipped_append begins, others]
              rfl
            · cases read

private theorem readMembers_append :
    (fuel : Nat) → {text rest : Str} → {members : Fields} →
    readMembers float fuel text = some (members, rest) →
    {other : Nat} → fuel ≤ other → (extra : Str) →
    readMembers float other (text ++ extra) = some (members, rest ++ extra)
  | 0, _, _, _, read, _, _, _ => by
      cases read
  | _ + 1, [], _, _, read, _, _, _ => by
      cases read
  | fuel + 1, quote :: text, rest, members, read, other, more, extra => by
      obtain ⟨other, rfl⟩ := Nat.exists_eq_add_of_le' (show 1 ≤ other by omega)
      have enough : fuel ≤ other := by
        omega
      rw [readMembers] at read
      split at read
      swap
      · cases read
      rename_i isQuote
      obtain ⟨⟨key, tail⟩, keyRead, read⟩ := Option.bind_eq_some_iff.mp read
      dsimp only at read
      cases colonVisible : skipped tail with
      | nil =>
          rw [colonVisible] at read
          cases read
      | cons colon tail =>
          rw [colonVisible] at read
          dsimp only at read
          split at read
          swap
          · cases read
          rename_i isColon
          obtain ⟨⟨value, afterValue⟩, found, read⟩ :=
            Option.bind_eq_some_iff.mp read
          dsimp only at read
          cases visible : skipped afterValue with
          | nil =>
              rw [visible] at read
              cases read
          | cons mark after =>
              rw [visible] at read
              dsimp only at read
              have marks : mark = 0x7d ∨ mark = 0x2c := by
                split at read
                · rename_i close
                  exact .inl close
                · split at read
                  · rename_i comma
                    exact .inr comma
                  · cases read
              have stops := stops_of_skipped visible
                (.inr (marks.elim .inr .inl))
              have begun : skipped tail ≠ [] := by
                intro none
                rw [none] at found
                cases fuel <;> cases found
              obtain ⟨start, rest', begins⟩ :=
                List.exists_cons_of_ne_nil begun
              have valueRead :=
                readValue_append fuel found (fun _ => stops) enough extra
              rw [begins, List.cons_append] at valueRead
              rw [List.cons_append, readMembers, if_pos isQuote,
                readString_append keyRead, Option.bind_eq_bind,
                Option.bind_some]
              dsimp only
              rw [skipped_append colonVisible]
              dsimp only
              rw [if_pos isColon, skipped_append begins, valueRead,
                Option.bind_eq_bind, Option.bind_some]
              dsimp only
              rw [skipped_append visible]
              dsimp only
              split at read
              · rename_i close
                cases read
                rw [if_pos close]
                rfl
              · rename_i another
                split at read
                · rename_i comma
                  obtain ⟨⟨others, tail⟩, later, read⟩ :=
                    Option.bind_eq_some_iff.mp read
                  cases read
                  have nonempty : skipped after ≠ [] := by
                    intro none
                    rw [none] at later
                    cases fuel <;> cases later
                  obtain ⟨next, rest, begins⟩ :=
                    List.exists_cons_of_ne_nil nonempty
                  have others := readMembers_append fuel later enough extra
                  rw [begins, List.cons_append] at others
                  rw [if_neg another, if_pos comma, skipped_append begins,
                    others]
                  rfl
                · cases read

end

private theorem isScalar_of_readValue {fuel : Nat} {text rest : Str}
    {value : Json}
    (read : readValue float fuel (0x7b :: text) = some (value, rest)) :
    value.isScalar = false := by
  cases fuel with
  | zero => cases read
  | succ fuel =>
      rw [readValue, if_neg (by decide), if_neg (by decide), if_pos rfl] at read
      cases visible : skipped text with
      | nil =>
          rw [visible] at read
          cases read
      | cons next tail =>
          rw [visible] at read
          dsimp only at read
          split at read
          · cases read
            rfl
          · obtain ⟨⟨members, tail⟩, _, same⟩ := Option.map_eq_some_iff.mp read
            cases same
            rfl

private theorem closed_of_composite {value : Json}
    (composite : value.isScalar = false) (rest : Str) : Closed value rest := by
  intro scalar
  rw [composite] at scalar
  cases scalar

namespace Spelling

variable (spelling : Spelling)

private theorem readValue_whole {value : Json}
    (readable : Readable float value) :
    readValue float (2 * (spelling.text value).length) (spelling.text value) =
      some (value, []) := by
  have ends : Ends [] := nofun
  have read := spelling.readValue_text float value readable
    (Nat.le_refl (2 * (spelling.text value).length)) ends
  rw [List.append_nil] at read
  exact read

/-- The text of an object that was cut short is not read. -/
theorem loads_of_cut {value : Json} (readable : Readable float value)
    {start extra : Str} (whole : spelling.text value = 0x7b :: start ++ extra)
    (cut : extra ≠ []) : loads float (0x7b :: start) = none := by
  by_contra loaded
  obtain ⟨early, loaded⟩ := Option.ne_none_iff_exists'.mp loaded
  obtain ⟨⟨found, rest⟩, read, _⟩ := Option.bind_eq_some_iff.mp loaded
  rw [skipped_cons _ (by decide)] at read
  have composite := isScalar_of_readValue float read
  have lengths : (0x7b :: start).length ≤ (spelling.text value).length := by
    rw [whole, List.length_append]
    exact Nat.le_add_right _ _
  have longer := readValue_append float _ read
    (closed_of_composite composite rest) (Nat.mul_le_mul_left 2 lengths) extra
  rw [← whole, spelling.readValue_whole float readable] at longer
  have nothing := (Prod.ext_iff.mp (Option.some.inj longer)).2
  exact cut (List.append_eq_nil_iff.mp nothing.symm).2

/-- Nothing may stand behind the text of an object. -/
theorem loads_of_joined {fields : Fields}
    (readable : Readable float (.object fields)) {more : Str}
    (visible : skipped more ≠ []) :
    loads float (spelling.text (.object fields) ++ more) = none := by
  have begins := spelling.text_object fields
  have lengths : (spelling.text (.object fields)).length ≤
      (spelling.text (.object fields) ++ more).length := by
    rw [List.length_append]
    exact Nat.le_add_right _ _
  have read := readValue_append float _
    (spelling.readValue_whole float readable) (closed_of_composite rfl [])
    (Nat.mul_le_mul_left 2 lengths) more
  have start : skipped (spelling.text (.object fields) ++ more) =
      spelling.text (.object fields) ++ more := by
    rw [begins, List.cons_append]
    exact skipped_cons _ (by decide)
  rw [loads, start, read]
  dsimp only [Option.bind_eq_bind, Option.bind_some]
  rw [List.nil_append, if_neg (by simpa [List.isEmpty_iff] using visible)]

end Spelling

end PpcLab.Json
