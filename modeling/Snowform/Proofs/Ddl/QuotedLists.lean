import Snowform.Ddl.Procedure
import Snowform.Ddl.Table
import Snowform.Proofs.Ddl.Nesting
import Snowform.Proofs.Ddl.QuotedNames
import Snowform.Proofs.Lexical.Parentheses
import Snowform.Proofs.Lexical.Phrases

/-!
# Lists of quoted names

Entries of a list are found again when none of them has a comma that
separates.  Commas between quotes and in parentheses do not, so that quoted
names are found again whatever characters they have.
-/

namespace Snowform

open Text Lexical

/-! ## Entries without separating commas -/

/-- A text that leaves nothing open and has no separating comma at a depth. -/
abbrev IsUndivided (depth : Int) (text : Text) : Prop :=
  IsWhole Nesting.separates Nesting.advance ⟨none, depth⟩ text

section

variable {depth : Int}

/-- Characters that mean nothing to a list. -/
theorem isUndivided_of_isWithout {text : Text}
    (plain : IsWithout ['\'', '"', '(', ')', ','] text) :
    IsUndivided depth text := by
  refine isWhole_of_forall fun character member => ?_
  have other := plain character member
  simp only [List.mem_cons, List.not_mem_nil, or_false, not_or] at other
  refine ⟨separates_of_ne other.2.2.2.2 _, ?_⟩
  simp [Nesting.advance, other]

/-- What stands between quotes is not divided, if its quotes are doubled. -/
theorem isUndivided_twice {quote : Char} (isQuote : IsQuote quote)
    (text : Text) :
    IsUndivided depth (quote :: (twice quote text ++ [quote])) := by
  have quoteJoins : ∀ nesting : Nesting, nesting.separates quote = false := by
    rcases isQuote with rfl | rfl <;> exact separates_of_ne (by decide)
  have opens := Nesting.advance_opening isQuote depth
  have closes := Nesting.advance_closing quote depth
  have inside : ∀ rest : Text,
      pieces Nesting.separates Nesting.advance ⟨some quote, depth⟩
          (twice quote text ++ quote :: rest) =
        (twice quote text ++ [quote]).foldr consFirst
          (pieces Nesting.separates Nesting.advance ⟨none, depth⟩ rest) := by
    intro rest
    induction text with
    | nil =>
        rw [← closes]
        exact pieces_cons (quoteJoins _) rest
    | cons character others ih =>
        by_cases same : character = quote
        · rw [same, twice_cons_quote, List.cons_append, List.cons_append,
            pieces_cons (quoteJoins _), pieces_cons (quoteJoins _), closes,
            opens, ih]
          rfl
        · rw [twice_cons same, List.cons_append, pieces_cons rfl,
            Nesting.advance_quoted same, ih]
          rfl
  intro rest
  rw [List.cons_append, List.append_assoc, List.singleton_append,
    pieces_cons (quoteJoins _), List.foldr_cons, opens, inside]

/-- No comma of a quoted name divides a list. -/
theorem isUndivided_quotedName (name : Text) :
    IsUndivided depth (quotedName name) :=
  isUndivided_twice (.inr rfl) name

/-- In parentheses commas separate nothing. -/
theorem isUndivided_of_ne_zero (inside : depth ≠ 0) {text : Text}
    (plain : IsWithout ['\'', '"', '(', ')'] text) :
    IsUndivided depth text := by
  refine isWhole_of_forall fun character member => ?_
  have other := plain character member
  simp only [List.mem_cons, List.not_mem_nil, or_false, not_or] at other
  refine ⟨?_, by simp [Nesting.advance, other]⟩
  rw [Nesting.separates, beq_eq_false_iff_ne.mpr inside, Bool.and_false,
    Bool.false_and]

/-- No comma between names divides a list from inside of its parentheses. -/
theorem isUndivided_listed (inside : depth ≠ 0) (names : List Text) :
    IsUndivided depth (listed [] names) := by
  have comma : IsUndivided depth ", " :=
    isUndivided_of_ne_zero inside (by decide)
  refine intercalate_induction isWhole_nil
    (fun _ _ first second => first.append second) comma ?_
  intro entry member
  obtain ⟨name, -, rfl⟩ := List.mem_map.mp member
  rw [List.append_nil]
  exact isUndivided_quotedName name

/-- Parentheses keep what is undivided one level deeper. -/
theorem isUndivided_parenthesised {text : Text}
    (undivided : IsUndivided (depth + 1) text) :
    IsUndivided depth ('(' :: (text ++ [')'])) := by
  have opens : ∀ nesting : Nesting, nesting.separates '(' = false :=
    separates_of_ne (by decide)
  have closes : ∀ nesting : Nesting, nesting.separates ')' = false :=
    separates_of_ne (by decide)
  have outside : Nesting.advance ⟨none, depth + 1⟩ ')' = ⟨none, depth⟩ := by
    simp [Nesting.advance]
  intro rest
  rw [List.cons_append, List.append_assoc, pieces_cons (opens _),
    List.foldr_cons, List.foldr_append]
  change consFirst '(' (pieces Nesting.separates Nesting.advance
    ⟨none, depth + 1⟩ _) = _
  rw [undivided, List.singleton_append, pieces_cons (closes _), outside]
  rfl

end

/-- A trimmed text that no comma divides. -/
structure IsEntry (entry : Text) : Prop where
  undivided : IsUndivided 0 entry
  trims : trim entry = entry
  nonempty : entry ≠ []

/-- Entries that no comma divides are the entries of their list. -/
theorem splitCommas_intercalate {entries : List Text}
    (all : ∀ entry ∈ entries, IsEntry entry) :
    splitCommas ((", " : Text).intercalate entries) = entries := by
  cases empty : entries with
  | nil => rfl
  | cons first others =>
      have nonempty : entries ≠ [] := empty ▸ List.cons_ne_nil first others
      have parts : (pieces Nesting.separates Nesting.advance {}
          ((", " : Text).intercalate entries)).map trim = entries :=
        map_trim_pieces_intercalate ⟨rfl, rfl⟩ ⟨rfl, rfl⟩ nonempty
          fun entry member => ⟨(all entry member).undivided,
            (all entry member).trims⟩
      rw [splitCommas, ← empty, parts, List.filter_eq_self]
      intro entry member
      rw [Bool.not_eq_true', List.isEmpty_eq_false_iff]
      exact (all entry member).nonempty

/-! ## Quoted names with code behind them -/

/-- Code that may stand behind a quoted name in an entry of a list. -/
structure IsTrailing (after : Text) : Prop where
  plain : IsWithout ['\'', '"', '(', ')', ',', ';', '-', '/', '$'] after
  ends : ∀ last ∈ after.getLast?, isBlank last = false

section

variable {after : Text} (trailing : IsTrailing after)

include trailing

theorem IsTrailing.still : IsStill after :=
  trailing.plain.mono (by decide)

omit trailing in
theorem trim_quotedName_append_of_ends (name : Text)
    (ends : ∀ last ∈ after.getLast?, isBlank last = false) :
    trim (quotedName name ++ after) = quotedName name ++ after := by
  refine trim_eq_self ?_ ?_
  · intro character first
    cases first
    decide
  · intro character last
    rw [Option.mem_def, List.getLast?_append] at last
    cases final : after.getLast? with
    | none =>
        rw [final, Option.none_or, getLast?_quotedName] at last
        cases last
        decide
    | some ending =>
        rw [final, Option.some_or] at last
        cases last
        exact ends character final

/-- A quoted name with trailing code has no blanks around it. -/
theorem trim_quotedName_append (name : Text) :
    trim (quotedName name ++ after) = quotedName name ++ after :=
  trim_quotedName_append_of_ends name trailing.ends

/-- A quoted name with trailing code stands in a list as one entry. -/
theorem isEntry_named (name : Text) : IsEntry (quotedName name ++ after) where
  undivided := (isUndivided_quotedName name).append
    (isUndivided_of_isWithout (trailing.plain.mono (by decide)))
  trims := trim_quotedName_append trailing name
  nonempty := List.append_ne_nil_of_left_ne_nil (List.cons_ne_nil _ _) _

/-- A list of quoted names is cut into exactly these names. -/
theorem splitCommas_listed (names : List Text) :
    splitCommas (listed after names) =
      names.map fun name => quotedName name ++ after :=
  splitCommas_intercalate
    (List.forall_mem_map.mpr fun name _ => isEntry_named trailing name)

omit trailing in
/-- A quoted name is the identifier that an entry starts with. -/
theorem leadingIdentifier_quotedName_append (name : Text)
    (single : after.head? ≠ some '"') :
    leadingIdentifier (quotedName name ++ after) = (quotedName name, after) := by
  have quoted : quotedRest '"' (doubled name ++ '"' :: after) =
      doubled name ++ ['"'] :=
    quotedRest_doubled_append name single
  have start : trimStart (quotedName name ++ after) =
      '"' :: (doubled name ++ '"' :: after) := by
    rw [quotedName, List.cons_append, List.append_assoc]
    rfl
  have whole : doubled name ++ '"' :: after = doubled name ++ ['"'] ++ after := by
    rw [List.append_assoc, List.singleton_append]
  have rest : (doubled name ++ '"' :: after).drop
      (doubled name ++ ['"']).length = after := by
    rw [whole, List.drop_left]
  rw [leadingIdentifier, start]
  simp only [quoted, rest, quotedName]

theorem leadingIdentifier_quotedName (name : Text) :
    leadingIdentifier (quotedName name ++ after) = (quotedName name, after) :=
  leadingIdentifier_quotedName_append name trailing.still.quiet.head_ne

end

/-! ## Names of lists -/

theorem isTrailing_nil : IsTrailing [] where
  plain := by decide
  ends := fun last final => nomatch final

/-- The blank and the type that are written behind a name. -/
def typed : Text := " INT"

theorem isTrailing_typed : IsTrailing typed where
  plain := by decide
  ends := by
    rintro last ⟨⟩
    decide

/-- Names hold no comments, even where they look like them. -/
theorem stripComments_listed {after : Text} (trailing : IsTrailing after)
    (names : List Text) : stripComments (listed after names) =
      listed after names :=
  (isPart_listed trailing.still names).isPhrase.stripComments_eq

section

variable {names : List Text} (filled : ∀ name ∈ names, name ≠ [])

include filled

/-- No name of the list is empty. -/
theorem filter_names : (names.filter fun name => !name.isEmpty) = names := by
  rw [List.filter_eq_self]
  intro name member
  rw [Bool.not_eq_true', List.isEmpty_eq_false_iff]
  exact filled name member

/-- A list of quoted names is read back. -/
theorem identifierList_listed : identifierList (listed [] names) = names := by
  have read : (names.map fun name => quotedName name ++ []).map unquote =
      names := by
    simp [Function.comp_def, unquote_quotedName]
  rw [identifierList, splitCommas_listed isTrailing_nil, read,
    filter_names filled]

/-- The columns of a view are read back. -/
theorem columnNames_listed : View.columnNames (listed [] names) = names := by
  have read : (names.map fun name => quotedName name ++ []).map
      (fun entry => unquote (leadingIdentifier entry).1) = names := by
    simp [Function.comp_def, leadingIdentifier_quotedName isTrailing_nil,
      unquote_quotedName, -List.append_nil]
  rw [View.columnNames, stripComments_listed isTrailing_nil,
    splitCommas_listed isTrailing_nil, read, filter_names filled]

end

/-! ## Entries with a type -/

/-- The column that a name with the type behind it declares. -/
def typedColumn (name : Text) : Column where
  name := name
  dataType := "INT"

/-- A typed column is read back from its entry. -/
theorem read?_typed (name : Text) :
    Column.read? (quotedName name ++ typed) =
      .ok (some { column := typedColumn name }) := by
  have words : Column.entryWords (quotedName name ++ typed) =
      [quotedName name, "INT".toList] := by
    unfold Column.entryWords
    rw [trim_quotedName_append isTrailing_typed,
      leadingIdentifier_quotedName isTrailing_typed]
    rfl
  have read : Column.read? (quotedName name ++ typed) =
      .ok (some { column := typedColumn (unquote (quotedName name)) }) := by
    rw [Column.read?, words]
    rfl
  rw [read, unquote_quotedName]

/-- The parameter that a name with the type behind it declares. -/
def typedParameter (name : Text) : Parameter where
  name := name
  dataType := "INT"

/-- Typed parameters are read back in their order. -/
theorem readParameters_listed (names : List Text) :
    Procedure.readParameters (listed typed names) =
      names.map typedParameter := by
  have read : ∀ name : Text,
      Procedure.readParameter (quotedName name ++ typed) =
        typedParameter name := by
    intro name
    have spelled : Procedure.readParameter (quotedName name ++ typed) =
        typedParameter (unquote (quotedName name)) := by
      rw [Procedure.readParameter,
        leadingIdentifier_quotedName isTrailing_typed]
      rfl
    rw [spelled, unquote_quotedName]
  rw [Procedure.readParameters, stripComments_listed isTrailing_typed,
    splitCommas_listed isTrailing_typed, List.map_map]
  exact List.map_congr_left fun name _ => read name

end Snowform
