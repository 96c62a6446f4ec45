import Snowform.Hcl.Escapes
import Mathlib.Algebra.Ring.Parity

/-!
# Escapes are a code

The escapes are put in one after the other, each over all that is written
before.  No pass is for what an earlier one has written, so that together they
write character by character: a text is written as its parts are, one reader
takes all escapes back, and a quote with as many backslashes in front of it as
make pairs is never part of a written text.
-/

namespace Snowform

open Text

/-! ## Passes -/

/-- A pass for one character goes character by character. -/
theorem Text.replaceAll_singleton (character : Char)
    (replacement text : Text) :
    replaceAll [character] replacement text = text.flatMap fun other =>
      if other = character then replacement else [other] := by
  rw [replaceAll]
  induction text with
  | nil => rfl
  | cons first others ih =>
      rw [List.flatMap_cons, ← ih, replaceFrom]
      by_cases same : first = character
      · rw [if_pos same, same]
        simp
      · rw [if_neg same]
        simp [Ne.symm same]

namespace Hcl

/-- A character as it is written with the escapes of a table. -/
def escapeWith (table : List (Char × Char)) (character : Char) : Text :=
  match table.lookup character with
  | some letter => ['\\', letter]
  | none => [character]

/-- No pass is for what an earlier one has written. -/
abbrev PassesApart (table : List (Char × Char)) : Prop :=
  table.Pairwise fun earlier later =>
    later.1 ≠ '\\' ∧ later.1 ≠ earlier.2

section

variable {table : List (Char × Char)}

theorem lookup_eq_none {character : Char} :
    table.lookup character = none ↔ character ∉ table.map Prod.fst := by
  rw [List.lookup_eq_none_iff, List.mem_map, not_exists]
  refine forall_congr' fun escape => ?_
  rw [bne_iff_ne, not_and]
  exact imp_congr_right fun _ => ne_comm

theorem escapeInPasses_cons (first : Char × Char)
    (others : List (Char × Char)) (text : Text) :
    escapeInPasses (first :: others) text =
      escapeInPasses others (replaceAll [first.1] ['\\', first.2] text) :=
  rfl

theorem escapeInPasses_append (table : List (Char × Char))
    (first second : Text) :
    escapeInPasses table (first ++ second) =
      escapeInPasses table first ++ escapeInPasses table second := by
  induction table generalizing first second with
  | nil => rfl
  | cons escape others ih =>
      simp only [escapeInPasses_cons, replaceAll_singleton,
        List.flatMap_append, ih]

/-- A text without the characters of a table is written as it is. -/
theorem escapeInPasses_eq_self {text : Text}
    (without : ∀ escape ∈ table, escape.1 ∉ text) :
    escapeInPasses table text = text := by
  induction table with
  | nil => rfl
  | cons escape others ih =>
      rw [List.forall_mem_cons] at without
      have unchanged : replaceAll [escape.1] ['\\', escape.2] text = text := by
        rw [replaceAll_singleton]
        calc (text.flatMap fun other =>
              if other = escape.1 then ['\\', escape.2] else [other])
            = text.flatMap fun other => [other] := by
              apply List.flatMap_congr
              intro other member
              have differs : other ≠ escape.1 := by
                rintro rfl
                exact without.1 member
              exact if_neg differs
          _ = text := List.flatMap_singleton' text
      rw [escapeInPasses_cons, unchanged, ih without.2]

theorem escapeInPasses_singleton (apart : PassesApart table)
    (character : Char) :
    escapeInPasses table [character] = escapeWith table character := by
  induction table with
  | nil => rfl
  | cons escape others ih =>
      obtain ⟨key, letter⟩ := escape
      obtain ⟨later, apart⟩ := List.pairwise_cons.mp apart
      rw [escapeInPasses_cons, replaceAll_singleton, List.flatMap_singleton,
        escapeWith, List.lookup_cons]
      by_cases same : character = key
      · rw [if_pos same, same, beq_self_eq_true]
        -- What this pass has written is left alone by the later ones.
        refine escapeInPasses_eq_self fun escape member => ?_
        have other := later escape member
        simp [other]
      · rw [if_neg same, beq_eq_false_iff_ne.mpr same, ih apart, escapeWith]

/-- Passes that are apart are one pass over the characters. -/
theorem escapeInPasses_eq_flatMap (apart : PassesApart table) (text : Text) :
    escapeInPasses table text = text.flatMap (escapeWith table) := by
  induction text with
  | nil => exact escapeInPasses_eq_self fun _ _ => List.not_mem_nil
  | cons character others ih =>
      rw [← List.singleton_append, escapeInPasses_append,
        escapeInPasses_singleton apart, ih]
      rfl

end

/-! ## Written characters -/

theorem escapeWith_escapes (character : Char) :
    escapeWith escapes character = escapeCharacter character := by
  unfold escapeCharacter
  split
  iterate 8 rfl
  next =>
    have unknown : character ∉ escapes.map Prod.fst := by
      simp only [escapes, List.map_cons, List.map_nil, List.mem_cons,
        List.not_mem_nil, or_false, not_or]
      refine ⟨?_, ?_, ?_, ?_, ?_, ?_, ?_, ?_⟩ <;> assumption
    rw [escapeWith, lookup_eq_none.mpr unknown]

/-- The eight passes write every character as if it stood alone. -/
theorem escapeInPasses_escapes (value : Text) :
    escapeInPasses escapes value = escape value := by
  rw [escapeInPasses_eq_flatMap (by decide), escape]
  exact List.flatMap_congr fun character _ => escapeWith_escapes character

/-- A character is written with the letter that tells it, or as it stands. -/
theorem escapeCharacter_forms (character : Char) :
    (∃ letter, escapeCharacter character = ['\\', letter] ∧
        (character, letter) ∈ escapes) ∨
      (escapeCharacter character = [character] ∧
        character ∉ escapes.map Prod.fst) := by
  rw [← escapeWith_escapes, escapeWith]
  cases found : escapes.lookup character with
  | some letter =>
      obtain ⟨before, after, parts, -⟩ := List.lookup_eq_some_iff.mp found
      have known : (character, letter) ∈ escapes := by
        rw [parts]
        exact List.mem_append_right before List.mem_cons_self
      exact .inl ⟨letter, rfl, known⟩
  | none => exact .inr ⟨rfl, lookup_eq_none.mp found⟩

/-- All escapes are taken back by one reader. -/
theorem decoded?_escape (value : Text) :
    decoded? (escape value) = some value := by
  have reads : ∀ escape ∈ escapes,
      (escapes.map Prod.swap).lookup escape.2 = some escape.1 := by decide
  induction value with
  | nil => rfl
  | cons character others ih =>
      rw [escape, List.flatMap_cons, ← escape]
      rcases escapeCharacter_forms character with
        ⟨letter, written, known⟩ | ⟨written, plain⟩
      · have read := reads _ known
        dsimp only at read
        rw [written, List.cons_append, List.singleton_append, decoded?, read,
          ih]
        rfl
      · have noBackslash : character ≠ '\\' := by
          rintro rfl
          exact plain (by decide)
        rw [written, List.singleton_append, decoded?, ih]
        · rfl
        · exact noBackslash

/-- What would break the line is not written as it stands. -/
theorem not_mem_escape {character : Char}
    (breaks : character ∈ (['\n', '\r', '\t', '\x00'] : Text))
    (value : Text) : character ∉ escape value := by
  have letters : ∀ escape ∈ escapes,
      escape.2 ∉ (['\n', '\r', '\t', '\x00'] : Text) := by decide
  have listed : (['\n', '\r', '\t', '\x00'] : Text) ⊆ escapes.map Prod.fst := by
    decide
  intro member
  obtain ⟨source, -, inside⟩ := List.mem_flatMap.mp member
  rcases escapeCharacter_forms source with
    ⟨letter, written, known⟩ | ⟨written, plain⟩
  · rw [written, List.mem_cons, List.mem_singleton] at inside
    rcases inside with rfl | rfl
    · exact absurd breaks (by decide)
    · exact letters _ known breaks
  · rw [written, List.mem_singleton] at inside
    exact plain (inside ▸ listed breaks)

/-! ## Backslashes in front of a place -/

theorem finalBackslashes_concat (text : Text) (last : Char) :
    finalBackslashes (text ++ [last]) =
      if last = '\\' then finalBackslashes text + 1 else 0 := by
  rw [finalBackslashes, List.rtakeWhile_concat]
  by_cases same : last = '\\'
  · simp [same, finalBackslashes]
  · simp [same]

/-- Backslashes that a written text ends with belong together in pairs. -/
theorem even_finalBackslashes_escape (value : Text) :
    Even (finalBackslashes (escape value)) := by
  induction value using List.reverseRecOn with
  | nil => exact Even.zero
  | append_singleton front last ih =>
      rw [escape, List.flatMap_append, List.flatMap_singleton, ← escape]
      rcases escapeCharacter_forms last with
        ⟨letter, written, -⟩ | ⟨written, plain⟩
      · rw [written, List.append_cons, finalBackslashes_concat,
          finalBackslashes_concat, if_pos rfl]
        split
        · exact ih.add_one.add_one
        · exact Even.zero
      · have noBackslash : last ≠ '\\' := by
          rintro rfl
          exact plain (by decide)
        rw [written, finalBackslashes_concat, if_neg noBackslash]
        exact Even.zero

/-- A quote or dollar sign is only written as the letter of an escape. -/
theorem unit_eq_singleton_of_mark {mark last : Char} {unit after : Text}
    (isMark : mark ∈ (['"', '\'', '$'] : Text))
    (parts : escapeCharacter last = unit ++ mark :: after) :
    unit = ['\\'] := by
  rcases escapeCharacter_forms last with
    ⟨letter, written, -⟩ | ⟨written, plain⟩
  · rw [written] at parts
    rcases List.cons_eq_append_iff.mp parts with
      ⟨-, starts⟩ | ⟨further, rfl, behind⟩
    · rw [(List.cons.inj starts).1] at isMark
      exact absurd isMark (by decide)
    · simp only [List.singleton_eq_append_iff, List.cons_ne_nil, and_false,
        or_false] at behind
      rw [behind.1]
  · have listed : (['"', '\'', '$'] : Text) ⊆ escapes.map Prod.fst := by decide
    rw [written] at parts
    simp only [List.singleton_eq_append_iff, List.cons_ne_nil, and_false,
      or_false] at parts
    rw [(List.cons.inj parts.2).1] at isMark
    exact absurd (listed isMark) plain

/-- A quote or dollar sign of a written text has a backslash of its own. -/
theorem odd_finalBackslashes {value before after : Text} {mark : Char}
    (isMark : mark ∈ (['"', '\'', '$'] : Text))
    (parts : escape value = before ++ mark :: after) :
    Odd (finalBackslashes before) := by
  induction value using List.reverseRecOn generalizing after with
  | nil => exact absurd parts.symm (by simp [escape])
  | append_singleton front last ih =>
      rw [escape, List.flatMap_append, List.flatMap_singleton, ← escape]
        at parts
      have ofLast : ∀ unit : Text, before = escape front ++ unit →
          escapeCharacter last = unit ++ mark :: after →
          Odd (finalBackslashes before) := by
        intro unit whole written
        rw [whole, unit_eq_singleton_of_mark isMark written,
          finalBackslashes_concat, if_pos rfl]
        exact (even_finalBackslashes_escape front).add_one
      -- The mark is written for the last character or for one before it.
      rcases List.append_eq_append_iff.mp parts with
        ⟨unit, whole, written⟩ | ⟨rest, whole, written⟩
      · exact ofLast unit whole written
      · cases rest with
        | nil =>
            rw [List.append_nil] at whole
            exact ofLast [] (by rw [List.append_nil, whole]) written.symm
        | cons first others =>
            rw [← (List.cons.inj written).1] at whole
            exact ih whole

/--
Escapes are a code for characters: a value is written as its parts are, one
reader takes all escapes back, and nothing that would break the line stands
in a written value.  Behind its opening quote the first quote with an even
number of backslashes in front of it is the one that closes it.
-/
theorem escapeInPasses_is_code (value more rest : Text) :
    escapeInPasses escapes value = escape value ∧
      escapeInPasses escapes (value ++ more) =
        escapeInPasses escapes value ++ escapeInPasses escapes more ∧
      decoded? (escapeInPasses escapes value) = some value ∧
      (∀ character ∈ escapeInPasses escapes value,
        character ∉ (['\n', '\r', '\t', '\x00'] : Text)) ∧
      (∀ before mark after,
        escapeInPasses escapes value = before ++ mark :: after →
        mark ∈ (['"', '\'', '$'] : Text) → Odd (finalBackslashes before)) ∧
      Even (finalBackslashes (escapeInPasses escapes value)) ∧
      ∀ before after, quoted value ++ rest = '"' :: (before ++ '"' :: after) →
        Even (finalBackslashes before) →
        escapeInPasses escapes value <+: before := by
  refine ⟨escapeInPasses_escapes value,
    escapeInPasses_append escapes value more, ?_⟩
  rw [escapeInPasses_escapes]
  refine ⟨decoded?_escape value, ?_, ?_, even_finalBackslashes_escape value, ?_⟩
  · intro character member breaks
    exact not_mem_escape breaks value member
  · intro before mark after parts isMark
    exact odd_finalBackslashes isMark parts
  · intro before after parts even
    rw [quoted, List.cons_append, List.cons_append, List.append_assoc,
      List.singleton_append, List.cons.injEq] at parts
    rcases List.append_eq_append_iff.mp parts.2 with
      ⟨further, rfl, -⟩ | ⟨inside, whole, written⟩
    · exact List.prefix_append (escape value) further
    · cases inside with
      | nil =>
          rw [List.append_nil] at whole
          exact whole ▸ List.prefix_rfl
      | cons first others =>
          rw [← (List.cons.inj written).1] at whole
          have odd := odd_finalBackslashes (by decide) whole
          exact absurd even (Nat.not_even_iff_odd.mpr odd)

/-- A backslash in front of a quote, in a list with a further value. -/
theorem escapeInPasses_is_code_backslash :
    let value : Text := "a\\\""
    let rest : Text := ", \"b\"]"
    let before : Text := "a\\\\\\\""
    (escapeInPasses escapes value = "a\\\\\\".toList ++ '"' :: [] ∧
      '"' ∈ (['"', '\'', '$'] : Text) ∧
      Odd (finalBackslashes "a\\\\\\".toList)) ∧
    quoted value ++ rest = '"' :: (before ++ '"' :: rest) ∧
      Even (finalBackslashes before) ∧
      escapeInPasses escapes value <+: before := by
  intro value rest before
  obtain ⟨-, -, -, -, odd, -, closes⟩ := escapeInPasses_is_code value [] rest
  have written : escapeInPasses escapes value =
      "a\\\\\\".toList ++ '"' :: [] := by decide
  have isMark : '"' ∈ (['"', '\'', '$'] : Text) := by decide
  have even : Even (finalBackslashes before) := by decide
  have parts : quoted value ++ rest = '"' :: (before ++ '"' :: rest) := by
    decide
  exact ⟨⟨written, isMark, odd _ _ _ written isMark⟩, parts, even,
    closes before rest parts even⟩

end Hcl

end Snowform
