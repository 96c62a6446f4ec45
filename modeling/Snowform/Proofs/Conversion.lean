import Snowform.Conversion
import Snowform.Proofs.Ddl.Counting
import Snowform.Proofs.Hcl.Heredoc
import Snowform.Proofs.Lexical.Tiling
import Snowform.Proofs.Text.Searching

/-!
# Conversions go through

A conversion gives a result for every script without a long s, and the only
fault that another script can meet lies in a column list, at a reference that
a long s introduces.

What is cut out of a text on the way lies in place, differences do not go
below zero, and counters of 32 bits do not overflow.
-/

namespace Snowform

open Text Lexical Terraform Hcl

/-! ## Where scripts break -/

theorem Script.exists_broken_of_ofStatements {list : List Statement}
    {fault : Fault} (broken : ofStatements list = .error fault) :
    ∃ statement ∈ list, ofStatement statement = .error fault := by
  induction list with
  | nil => cases broken
  | cons statement others ih =>
      rw [ofStatements] at broken
      rcases bind_eq_error_iff.mp broken with here | ⟨first, -, broken⟩
      · exact ⟨statement, List.mem_cons_self, here⟩
      · rcases bind_eq_error_iff.mp broken with later | ⟨second, -, broken⟩
        · obtain ⟨other, member, fails⟩ := ih later
          exact ⟨other, List.mem_cons_of_mem statement member, fails⟩
        · cases broken

/-- A script breaks only at a table, at an entry that a long s spoils. -/
theorem Script.hasLongReference_of_read {script : Text} {fault : Fault}
    (broken : Script.read script = .error fault) :
    ∃ statement ∈ statements script,
      DdlObject.kindOf? statement.text = some .table ∧
        Table.HasLongReference statement.text := by
  obtain ⟨statement, member, fails⟩ := exists_broken_of_ofStatements broken
  rw [ofStatement] at fails
  split at fails
  next => cases fails
  next object kind =>
    split at fails
    next => cases fails
    next => cases fails
    next fault read =>
      obtain ⟨rfl, long⟩ := DdlObject.hasLongReference_of_read read
      exact ⟨statement, member, kind, long⟩

/-! ## Ranges -/

/-- What is cut out of texts is in place, and no difference is below zero. -/
structure StaysInRange (script : Text) : Prop where
  regions : ∀ span ∈ spans script,
    slice? span.start span.stop script = some span.region.text
  places : ∀ placed ∈ placedStatements script,
    slice? placed.start placed.stop script = some placed.text
  /-- Reading characters behind cells fails exactly where slicing does. -/
  faults : ∀ statement before part after text, part ≠ [] →
    cells statement = before ++ (part ++ after) →
      (sourceOf part = .ok text ↔
        slice? (shownBytes before) (shownBytes before + shownBytes part)
          statement = some text)
  /-- What readers take from a statement is in place. -/
  parts : ∀ statement ∈ statements script, ∀ object part,
    Sliced statement.text object part → InPlace statement.text part
  /-- The text behind a reference is the end of the text it is read from. -/
  references : ∀ text target rest,
    readReferences? text = .ok (some (target, rest)) → rest <:+ text
  /-- A reference does not leave more words than there were. -/
  words : ∀ text list target rest, list <:+: words text →
    readReferences? ([' '].intercalate list) = .ok (some (target, rest)) →
      (Text.words rest).length ≤ list.length
  /-- The number of open parentheses does not go below zero. -/
  parentheses : ∀ rest : Text,
    countedClosing? none 0 ('(' :: rest) =
      some ((parenthesised? ('(' :: rest)).map fun parts =>
        ('(' :: parts.1, parts.2))
  /-- The indentation that is cut off a line is inside its blanks. -/
  lines : ∀ body, ∀ line ∈ bodyLines body, isBlankLine line = false →
    commonIndentation (bodyLines body) ≤ indentation line ∧
      indentation line + byteSize (trimStart line) = byteSize line
  /-- The text in front of a mention is cut off in place. -/
  mentions : ∀ keywords text, ∀ found ∈ occurrences (anyMention? keywords) text,
    slice? 0 (byteSize found.1.reverse) text = some found.1.reverse
  /-- The last parts of a name are as many as those of the reference. -/
  suffixes : ∀ reference known : NormalName,
    reference.parts.isSuffixOf known.parts = true ↔
      reference.parts.length ≤ known.parts.length ∧
        known.parts.drop (known.parts.length - reference.parts.length) =
          reference.parts

theorem staysInRange (script : Text) : StaysInRange script where
  regions := (tiles_spans script).slices
  places := fun placed => slice?_of_mem_placedStatements
  faults := fun statement before part after text nonempty parts =>
    sourceOf_eq_ok_iff_slice? nonempty parts text
  parts := fun statement member object part sliced => sliced.inPlace
  references := fun text target rest => suffix_of_readReferences?
  words := fun text list target rest => length_words_of_readReferences?
  parentheses := fun rest => countedClosing?_of_opening rfl rest
  lines := fun body line member visible =>
    ⟨commonIndentation_le member visible, indentation_add_trimStart line⟩
  mentions := by
    intro keywords text found member
    obtain ⟨after, -, -, whole⟩ := exists_of_mem_occurrences member
    have slice := slice?_byteSize [] found.1.reverse after
    rwa [List.nil_append, byteSize_nil, Nat.zero_add, whole] at slice
  suffixes := by
    intro reference known
    rw [List.isSuffixOf_iff_suffix]
    constructor
    · intro suffix
      exact ⟨suffix.length_le, (List.suffix_iff_eq_drop.mp suffix).symm⟩
    · rintro ⟨-, same⟩
      exact List.suffix_iff_eq_drop.mpr same.symm

/-- A conversion that neither cuts a character nor overflows a counter. -/
structure GoesThrough (policy : Policy) (script : Text) : Prop where
  converts : ∃ conversion, Conversion.ofScript policy script = .ok conversion
  /-- The keyword of every reference can be cut off. -/
  references : ∀ text, Derived script text →
    ∃ answer, readReferences? text = .ok answer
  /-- Parentheses of derived texts are counted in range, at every place. -/
  counters : ∀ text, Derived script text →
    FitsCounter (parenthesisBalance text) ∧
      FitsCounter (text.foldl Nesting.advance {}).depth
  /-- The numbers that are tried for a name are in range, up to the next. -/
  numbers : ∀ statement ∈ statements script, ∀ name written contents,
    Table.HasList statement.text name written →
    Table.Contents.read name.name written = .ok contents →
    ∀ (used : List Text) stem,
      used.length < contents.constraints.length →
        FitsCounter (freshNumber (used.filterMap (dropStart? stem)) + 1)

theorem fitsCounter_freshNumber {script : Text} {statement : Statement}
    {name : QualifiedName} {written : Text} {contents : Table.Contents}
    (short : byteSize script < 2 ^ 31)
    (member : statement ∈ statements script)
    (list : Table.HasList statement.text name written)
    (read : Table.Contents.read name.name written = .ok contents)
    {used : List Text} (earlier : used.length < contents.constraints.length)
    (stem : Text) :
    FitsCounter (freshNumber (used.filterMap (dropStart? stem)) + 1) := by
  have number := freshNumber_le used stem
  have constraints := Table.Contents.length_constraints_of_read read
  have room := list.length_add_two_le
  have inside := byteSize_le_of_isInfix (infix_of_mem_statements member)
  constructor <;> omega

namespace Conversion

/-- A conversion breaks only where its script is read. -/
theorem read_of_ofScript {policy : Policy} {script : Text} {fault : Fault}
    (broken : ofScript policy script = .error fault) :
    Script.read script = .error fault := by
  rw [ofScript] at broken
  rcases bind_eq_error_iff.mp broken with here | ⟨read, -, broken⟩
  · exact here
  · cases broken

/--
A script without a long s is converted, and no other script can meet a fault
but at a reference that a long s introduces in a column list; there is such a
script.  Whatever the script, all cuts are in place.
-/
theorem goes_through_without_long_s (policy : Policy) (script : Text)
    (short : byteSize script < 2 ^ 31) (plain : 'ſ' ∉ script) :
    GoesThrough policy script ∧
      (∀ other, StaysInRange other ∧
        ∀ fault, ofScript policy other = .error fault →
          ∃ statement ∈ statements other,
            DdlObject.kindOf? statement.text = some .table ∧
              Table.HasLongReference statement.text) ∧
      ∃ other fault, ofScript policy other = .error fault := by
  refine ⟨?_, ?_, ?_⟩
  · exact {
      converts := by
        cases result : ofScript policy script with
        | ok conversion => exact ⟨conversion, rfl⟩
        | error fault =>
            obtain ⟨statement, member, -, long⟩ :=
              Script.hasLongReference_of_read (read_of_ofScript result)
            exact absurd long
              (not_hasLongReference_of_mem_statements member plain)
      references := fun text derived => derived.exists_readReferences? plain
      counters := fun text derived => derived.fitsCounter short
      numbers := fun statement member name written contents list read used stem
        earlier => fitsCounter_freshNumber short member list read earlier stem }
  · intro other
    exact ⟨staysInRange other, fun fault broken =>
      Script.hasLongReference_of_read (read_of_ofScript broken)⟩
  · refine ⟨"CREATE TABLE t (FOREIGN KEY (a) REFERENCEſ t)".toList,
      .splitCharacter, ?_⟩
    have broken : Script.read
        "CREATE TABLE t (FOREIGN KEY (a) REFERENCEſ t)".toList =
          .error .splitCharacter := by
      decide +kernel
    rw [ofScript, broken]
    rfl

/-- A script with umlauts, a comment clause and a reference goes through. -/
theorem goes_through_with_reference :
    byteSize "CREATE TABLE ä (a INT REFERENCES t (b)) COMMENT = 'ö'".toList <
        2 ^ 31 ∧
      'ſ' ∉ "CREATE TABLE ä (a INT REFERENCES t (b)) COMMENT = 'ö'".toList ∧
      GoesThrough {}
        "CREATE TABLE ä (a INT REFERENCES t (b)) COMMENT = 'ö'".toList := by
  have short : byteSize
      "CREATE TABLE ä (a INT REFERENCES t (b)) COMMENT = 'ö'".toList <
        2 ^ 31 := by
    decide
  have plain : 'ſ' ∉
      "CREATE TABLE ä (a INT REFERENCES t (b)) COMMENT = 'ö'".toList := by
    decide
  exact ⟨short, plain, (goes_through_without_long_s {} _ short plain).1⟩

end Conversion

end Snowform
