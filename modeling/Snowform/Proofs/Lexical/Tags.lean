import Snowform.Proofs.Lexical.Spelling

/-!
# Words in dollar markers

A masked script shows the tags of its dollar markers.  A word is found in a
marker when it is all of the tag, and nowhere else in it.
-/

namespace Snowform.Lexical

open Text

theorem isWord_of_isTagCharacter {character : Char}
    (tagged : isTagCharacter character = true) : isWord character = true := by
  have bounds := toNat_of_isTagCharacter tagged
  rw [isWord, if_pos (by omega)]
  exact tagged

/-! ## Tags -/

theorem isUnspelled_dollar : IsUnspelled '$' :=
  isUnspelled_of_toUpper rfl (by decide) rfl

/-- A keyword does not reach over the end of a tag. -/
theorem keyword?_tag {word : Text} (capital : IsCapital word) (tag : Text)
    (rest : List Cell) :
    keyword? word (tag.map .plain ++ .plain '$' :: rest) =
      (keyword? word tag).map fun left : Text =>
        left.map .plain ++ .plain '$' :: rest := by
  induction word generalizing tag with
  | nil => rfl
  | cons letter letters ih =>
      rw [IsCapital, List.forall_mem_cons] at capital
      cases tag with
      | nil => exact if_neg (ne_true_of_eq_false
          (isUnspelled_dollar _ capital.1))
      | cons character others =>
          have step : ∀ {β γ : Type} {test : Prop} [Decidable test]
              {first : Option β} {second : Option γ} (change : γ → β),
              first = second.map change →
                (if test then first else none) =
                  (if test then second else none).map change := by
            intro β γ test _ first second change same
            split
            · exact same
            · rfl
          exact step _ (ih capital.2 others)

/-- What a keyword leaves of a text ends the text. -/
theorem mem_of_keyword? {word text left : Text}
    (found : keyword? word text = some left) {character : Char}
    (member : character ∈ left) : character ∈ text := by
  induction word generalizing text with
  | nil =>
      cases found
      exact member
  | cons letter letters ih =>
      cases text with
      | nil => cases found
      | cons first others =>
          rw [keyword?] at found
          split at found
          next => exact List.mem_cons_of_mem _ (ih found)
          next => cases found

section

variable {word tag : Text} (capital : IsCapital word) {letter : Char}
  (starts : word.head? = some letter)
  (tagged : ∀ character ∈ tag, isTagCharacter character = true)

include capital

section

include tagged

/-- A word that a tag starts with is not found there, unless it is the tag. -/
theorem wholeWord?_tag (other : keyword? word tag ≠ some [])
    (behind rest : List Cell) :
    wholeWord? word behind (tag.map .plain ++ .plain '$' :: rest) = none := by
  rw [wholeWord?, keyword?_tag capital]
  split
  next =>
    cases found : keyword? word tag with
    | none => rfl
    | some left =>
        cases left with
        | nil => exact absurd found other
        | cons character others =>
            have known := mem_of_keyword? found List.mem_cons_self
            have goesOn : startsWith isWord
                ((character :: others).map Cell.plain ++ .plain '$' :: rest) =
                  true :=
              isWord_of_isTagCharacter (tagged character known)
            exact if_pos goesOn
  next => rfl

end

include starts

theorem lacks_dollar (behind rest : List Cell) :
    Lacks word rest behind [.plain '$'] :=
  lacks_of_quiet starts (List.forall_mem_singleton.mpr
    (isUnspelled_dollar letter (capital letter (List.mem_of_mem_head? starts))))
    behind

include tagged

/-- What ends a marker lacks every word that is not its tag. -/
theorem lacks_tag (other : keyword? word tag ≠ some [])
    (behind rest : List Cell) :
    Lacks word rest behind ((tag ++ ['$']).map .plain) := by
  have name : Lacks word ([.plain '$'] ++ rest) behind
      (tag.map Cell.plain) := by
    have none := wholeWord?_tag capital tagged other behind rest
    cases tag with
    | nil => trivial
    | cons character others =>
        rw [List.forall_mem_cons] at tagged
        refine ⟨none, lacks_of_words (fun cell member => ?_)
          (isWord_of_isTagCharacter tagged.1)⟩
        obtain ⟨next, known, rfl⟩ := List.mem_map.mp member
        exact isWord_of_isTagCharacter (tagged.2 next known)
  rw [List.map_append]
  exact name.append (lacks_dollar capital starts _ rest)

/-- A marker lacks every word that is not its tag. -/
theorem lacks_marker (other : keyword? word tag ≠ some [])
    (behind rest : List Cell) :
    Lacks word rest behind ((Mode.dollarQuote tag).opening.map .plain) :=
  (lacks_dollar capital starts behind _).append
    (lacks_tag capital starts tagged other _ rest)

/-- A word is found in a marker if it is the tag. -/
theorem wholeWord?_of_tag (same : keyword? word tag = some [])
    {behind : List Cell} (apart : startsWith isWord behind = false)
    (rest : List Cell) :
    wholeWord? word behind (tag.map .plain ++ .plain '$' :: rest) =
      some (.plain '$' :: rest) := by
  have nonempty : ∃ first others, tag = first :: others := by
    cases tag with
    | nil =>
        cases word with
        | nil => cases starts
        | cons first letters => cases same
    | cons first others => exact ⟨first, others, rfl⟩
  have boundary : isBoundary behind
      (tag.map Cell.plain ++ .plain '$' :: rest) = true := by
    obtain ⟨first, others, rfl⟩ := nonempty
    rw [isBoundary, apart]
    exact congrArg (false != ·)
      (isWord_of_isTagCharacter (tagged first List.mem_cons_self))
  have ends : startsWith isWord (Cell.plain '$' :: rest) = false := rfl
  rw [wholeWord?, if_pos boundary, keyword?_tag capital, same]
  exact if_neg (ne_true_of_eq_false ends)

end

end Snowform.Lexical
