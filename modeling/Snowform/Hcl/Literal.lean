import Snowform.Hcl.Template

/-!
# Literals of the configuration language

The configuration language reads a value between double quotes.  A backslash
starts one of few escapes.  A dollar or percent sign in front of a brace opens
a template, and then the text is no literal any more, unless the sign is
doubled.  A literal does not go beyond its line.

This is the language that values are written in; how they are written is told
with quoted values.
-/

namespace Snowform.Hcl

open Text

/-! ## Escapes -/

/-- Letters behind a backslash with the characters they stand for. -/
def escapeLetters : List (Char × Char) :=
  [('n', '\n'), ('r', '\r'), ('t', '\t'), ('"', '"'), ('\\', '\\')]

/-- Letters behind a backslash with the number of digits of a code. -/
def codeLetters : List (Char × Nat) :=
  [('u', 4), ('U', 8)]

def hexValue? (digit : Char) : Option Nat :=
  if digit.isDigit then
    some (digit.toNat - '0'.toNat)
  else if 'A' ≤ digit.toUpper ∧ digit.toUpper ≤ 'F' then
    some (digit.toUpper.toNat - 'A'.toNat + 10)
  else
    none

/-- The number that hexadecimal digits spell behind a number. -/
def hexNumber? (number : Nat) : Text → Option Nat
  | [] => some number
  | digit :: digits =>
      hexValue? digit >>= fun value => hexNumber? (16 * number + value) digits

/-- The character that a number of hexadecimal digits stand for. -/
def readCode? (count : Nat) (text : Text) : Option (Char × Text) := do
  let code ← hexNumber? 0 (text.take count)
  if count ≤ text.length ∧ code.isValidChar then
    some (Char.ofNat code, text.drop count)
  else
    none

/-- The character that an escape stands for, read behind its backslash. -/
def readEscape? : Text → Option (Char × Text)
  | [] => none
  | letter :: rest =>
      match escapeLetters.lookup letter with
      | some character => some (character, rest)
      | none => codeLetters.lookup letter >>= fun count => readCode? count rest

theorem length_le_of_readEscape? {text after : Text} {character : Char}
    (found : readEscape? text = some (character, after)) :
    after.length ≤ text.length := by
  cases text with
  | nil => cases found
  | cons letter rest =>
      rw [readEscape?] at found
      split at found
      next =>
        cases found
        exact Nat.le_succ _
      next =>
        obtain ⟨count, -, read⟩ := Option.bind_eq_some_iff.mp found
        obtain ⟨code, -, cut⟩ := Option.bind_eq_some_iff.mp read
        split at cut
        · cases cut
          exact Nat.le_succ_of_le (List.drop_sublist count rest).length_le
        · cases cut

/-! ## Literals -/

/-- Whether a text starts with an expression or a directive. -/
def opensTemplate (text : Text) : Bool :=
  expressionOpening.isPrefixOf text || directiveOpening.isPrefixOf text

/--
What the first character, escape or doubled opening of a literal stands for,
and what follows it.
-/
def readUnit? : Text → Option (Text × Text)
  | [] => none
  | character :: rest =>
      if character = '\\' then
        (readEscape? rest).map fun (value, after) => ([value], after)
      else if character = '\n' ∨ character = '\r' then
        none
      else if opensTemplate (character :: rest) then
        none
      else if rest.head? = some character ∧ opensTemplate rest then
        some (rest.take 2, rest.drop 2)
      else
        some ([character], rest)

/-- A unit takes at least one character, so that reading a literal ends. -/
theorem length_lt_of_readUnit? {text value after : Text}
    (found : readUnit? text = some (value, after)) :
    after.length < text.length := by
  cases text with
  | nil => cases found
  | cons character rest =>
      have whole : rest.length < (character :: rest).length :=
        Nat.lt_succ_self rest.length
      rw [readUnit?] at found
      split at found
      next =>
        obtain ⟨escape, read, same⟩ := Option.map_eq_some_iff.mp found
        cases same
        exact Nat.lt_of_le_of_lt (length_le_of_readEscape? read) whole
      next =>
        repeat' split at found
        all_goals cases found
        · exact Nat.lt_of_le_of_lt (List.drop_sublist 2 rest).length_le whole
        · exact whole

/--
The value of a literal whose opening quote has been read, and what follows
its closing quote.
-/
def readLiteral? : Text → Option (Text × Text)
  | [] => none
  | character :: others =>
      if character = '"' then
        some ([], others)
      else
        match _ : readUnit? (character :: others) with
        | none => none
        | some (value, after) =>
            (readLiteral? after).map fun (values, rest) =>
              (value ++ values, rest)
termination_by text => text.length
decreasing_by exact length_lt_of_readUnit? ‹_›

/-- A closing quote ends a literal. -/
theorem readLiteral?_quote (rest : Text) :
    readLiteral? ('"' :: rest) = some ([], rest) := by
  rw [readLiteral?, if_pos rfl]

/-- A literal is read unit by unit. -/
theorem readLiteral?_of_unit {text value after : Text}
    (inside : text.head? ≠ some '"')
    (unit : readUnit? text = some (value, after)) :
    readLiteral? text = (readLiteral? after).map fun (values, rest) =>
      (value ++ values, rest) := by
  cases text with
  | nil => cases unit
  | cons character others =>
      have noQuote : character ≠ '"' := fun same => inside (same ▸ rfl)
      rw [readLiteral?, if_neg noQuote]
      split
      next noUnit => cases noUnit.symm.trans unit
      next found =>
        cases found.symm.trans unit
        rfl

/-- A literal with something that is no unit is not read. -/
theorem readLiteral?_eq_none {text : Text} (inside : text.head? ≠ some '"')
    (noUnit : readUnit? text = none) : readLiteral? text = none := by
  cases text with
  | nil => rw [readLiteral?]
  | cons character others =>
      have noQuote : character ≠ '"' := fun same => inside (same ▸ rfl)
      rw [readLiteral?, if_neg noQuote]
      split
      next => rfl
      next found => cases noUnit.symm.trans found

theorem length_lt_of_readLiteral? {text value after : Text}
    (found : readLiteral? text = some (value, after)) :
    after.length < text.length := by
  by_cases quote : text.head? = some '"'
  · obtain ⟨rest, rfl⟩ := List.head?_eq_some_iff.mp quote
    rw [readLiteral?_quote] at found
    cases found
    exact Nat.lt_succ_self _
  · cases unit : readUnit? text with
    | none => cases (readLiteral?_eq_none quote unit).symm.trans found
    | some first =>
        rw [readLiteral?_of_unit quote unit] at found
        obtain ⟨read, later, same⟩ := Option.map_eq_some_iff.mp found
        cases same
        have shorter := length_lt_of_readUnit? unit
        exact Nat.lt_trans (length_lt_of_readLiteral? later) shorter
termination_by text.length

theorem length_le_of_dropStart? {pattern text after : Text}
    (cut : dropStart? pattern text = some after) :
    after.length ≤ text.length := by
  rw [dropStart?] at cut
  split at cut
  · cases cut
    exact (List.drop_sublist _ text).length_le
  · cases cut

/-- The value of a literal at the start of a text, and what follows it. -/
def readQuoted? (text : Text) : Option (Text × Text) :=
  dropStart? ['"'] text >>= readLiteral?

theorem length_lt_of_readQuoted? {text value after : Text}
    (found : readQuoted? text = some (value, after)) :
    after.length < text.length := by
  obtain ⟨inside, cut, read⟩ := Option.bind_eq_some_iff.mp found
  exact Nat.lt_of_lt_of_le (length_lt_of_readLiteral? read)
    (length_le_of_dropStart? cut)

/-- The value of a text that is a literal. -/
def literal? (text : Text) : Option Text :=
  (readQuoted? text).bind fun (value, rest) =>
    if rest.isEmpty then some value else none

/-! ## Lists -/

/-- The values of literals with commas between them, and what follows them. -/
def readLiterals? (text : Text) : Option (List Text × Text) :=
  match _ : readQuoted? text with
  | none => none
  | some (value, after) =>
      match _ : dropStart? ", " after with
      | none => some ([value], after)
      | some others =>
          (readLiterals? others).map fun (values, rest) =>
            (value :: values, rest)
termination_by text.length
decreasing_by
  have less := length_lt_of_readQuoted? ‹readQuoted? text = _›
  exact Nat.lt_of_le_of_lt (length_le_of_dropStart? ‹_›) less

/-- The values of a text that is a list of literals. -/
def literals? (text : Text) : Option (List Text) :=
  (dropStart? ['['] text >>= dropEnd? [']']).bind fun inside =>
    if inside.isEmpty then some [] else
      (readLiterals? inside).bind fun (values, rest) =>
        if rest.isEmpty then some values else none

end Snowform.Hcl
