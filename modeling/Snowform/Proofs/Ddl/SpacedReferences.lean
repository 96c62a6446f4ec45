import Snowform.Proofs.Ddl.SpacedConstraints

/-!
# References with gaps

A reference is read alike at every width of its gaps: the table, the columns
and what follows are the same marks.  The keyword is cut off by its bytes, but
it is spelled with letters only, so the cut does not depend on a gap.
-/

namespace Snowform

open Text Lexical

/-! ## Spellings -/

/-- No gap spells a letter of a keyword. -/
theorem exists_letters_of_spelling {word : Text}
    (capitals : word.all Char.isUpper = true) {spelling : List Mark}
    (spelled : List.Forall₂ (fun letter mark =>
      isKeywordLetter letter (shown mark) = true) word spelling) :
    ∃ text : Text, spelling = text.map .letter ∧ text.length = word.length := by
  induction spelled with
  | nil => exact ⟨[], rfl, rfl⟩
  | @cons letter mark letters marks same others ih =>
      rw [List.all_cons, Bool.and_eq_true] at capitals
      obtain ⟨text, rfl, size⟩ := ih capitals.2
      cases mark with
      | letter character =>
          exact ⟨character :: text, rfl, congrArg (· + 1) size⟩
      | gap narrow wide =>
          rw [isKeywordLetter_of_isBlank capitals.1
            (isBlank_shown_gap narrow wide)] at same
          cases same

/-! ## The referenced table -/

theorem any_rendered {test : Char → Bool} (even : IsEven test) (width : Width)
    (marks : List Mark) :
    (rendered width marks).any test = marks.any (shows test) := by
  induction marks with
  | nil => rfl
  | cons mark rest ih =>
      cases mark with
      | letter character => rw [rendered_letter, List.any_cons, ih]; rfl
      | gap narrow wide =>
          obtain ⟨blanks, renders⟩ := exists_rendered_gap width narrow wide
          have known : blanks.text.any test = test ' ' := by
            obtain ⟨first, others, same⟩ :=
              List.exists_cons_of_ne_nil blanks.nonempty
            have all := blanks.all_eq even
            rw [Bool.eq_iff_iff, List.any_eq_true]
            constructor
            · rintro ⟨character, member, holds⟩
              rw [← all character member]
              exact holds
            · intro holds
              refine ⟨first, same ▸ List.mem_cons_self, ?_⟩
              rw [all first (same ▸ List.mem_cons_self)]
              exact holds
          rw [renders, List.any_append, ih, known]
          rfl

theorem contains_rendered {character : Char}
    (visible : isBlank character = false) (width : Width) (marks : List Mark) :
    (rendered width marks).contains character =
      marks.any (shows (· == character)) := by
  rw [← any_rendered (isEven_beq visible) width, List.contains_eq_any_beq]
  congr 1
  funext other
  exact Bool.beq_comm

/-- Blanks inside of a quoted name belong to the name. -/
theorem afterTarget_quoted_blanks {blanks : Text}
    (blank : ∀ character ∈ blanks, isBlank character = true) (rest : Text) :
    afterTarget .quoted (blanks ++ rest) = afterTarget .quoted rest := by
  induction blanks with
  | nil => rfl
  | cons character others ih =>
      rw [List.forall_mem_cons] at blank
      have other : character ≠ '"' := by
        rintro rfl
        cases blank.1
      rw [List.cons_append, afterTarget]
      rw [if_neg other, ih blank.2]

/-- Outside of quotes a blank ends the referenced table. -/
theorem afterTarget_blank {state : TargetState} (outside : state ≠ .quoted)
    {text : Text} (starts : ∀ character ∈ text.head?, isBlank character = true) :
    afterTarget state text = text := by
  cases text with
  | nil => rfl
  | cons character rest =>
      have ends : endsBareName character = true := by
        rw [endsBareName, starts character rfl]
        rfl
      cases state with
      | quoted => exact absurd rfl outside
      | bare => simp [afterTarget, ends]
      | fresh => simp [afterTarget, ends]

/-- The name of a table ends at the same mark in any width. -/
theorem exists_afterTarget (state : TargetState) (marks : List Mark) :
    ∃ rest, rest <:+ marks ∧ ∀ width,
      afterTarget state (rendered width marks) = rendered width rest := by
  induction marks generalizing state with
  | nil => exact ⟨[], List.suffix_rfl, fun _ => rfl⟩
  | cons mark others ih =>
      have later : ∀ next, (∀ width, afterTarget state
          (rendered width (mark :: others)) =
            afterTarget next (rendered width others)) →
          ∃ rest, rest <:+ mark :: others ∧ ∀ width,
            afterTarget state (rendered width (mark :: others)) =
              rendered width rest := by
        intro next goesOn
        obtain ⟨rest, suffix, known⟩ := ih next
        exact ⟨rest, suffix.trans (List.suffix_cons mark others),
          fun width => (goesOn width).trans (known width)⟩
      have stays : (∀ width, afterTarget state
          (rendered width (mark :: others)) =
            rendered width (mark :: others)) →
          ∃ rest, rest <:+ mark :: others ∧ ∀ width,
            afterTarget state (rendered width (mark :: others)) =
              rendered width rest :=
        fun same => ⟨_, List.suffix_rfl, same⟩
      cases mark with
      | gap narrow wide =>
          by_cases quoted : state = .quoted
          · subst quoted
            refine later .quoted fun width => ?_
            obtain ⟨blanks, renders⟩ := exists_rendered_gap width narrow wide
            rw [renders, afterTarget_quoted_blanks blanks.blank]
          · exact stays fun width => afterTarget_blank quoted
              (StartsWithGap.isBlank_head width
                (show StartsWithGap (.gap narrow wide :: others) from trivial))
      | letter character =>
          simp only [rendered_letter] at later stays ⊢
          cases state with
          | quoted => exact later _ fun width => rfl
          | bare =>
              by_cases ends : endsBareName character = true
              · exact stays fun width => by simp [afterTarget, ends]
              · exact later .bare fun width => by simp [afterTarget, ends]
          | fresh =>
              by_cases ends : endsBareName character = true
              · exact stays fun width => by simp [afterTarget, ends]
              · by_cases opens : character = '"' ∧
                    others.any (shows (· == '"')) = true
                · refine later .quoted fun width => ?_
                  rw [← contains_rendered (by decide) width] at opens
                  rw [afterTarget]
                  rw [if_neg ends, if_pos opens]
                · refine later .bare fun width => ?_
                  rw [← contains_rendered (by decide) width] at opens
                  rw [afterTarget]
                  rw [if_neg ends, if_neg opens]

/-! ## References -/

/-- The marks of a reference: the table, its columns and what follows. -/
structure ReferenceMarks where
  table : List Mark
  columns : List Mark
  rest : List Mark

/-- What is read of a reference whose gaps have a width. -/
def ReferenceMarks.read (width : Width) (parts : ReferenceMarks) :
    ForeignKeyTarget × Text :=
  (⟨QualifiedName.ofText (rendered width parts.table),
      identifierList (rendered width parts.columns)⟩,
    rendered width parts.rest)

/-- The names of a reference are written inside of some marks. -/
def ReferenceMarks.Inside (marks : List Mark) (parts : ReferenceMarks) : Prop :=
  parts.table <:+: marks ∧ parts.columns <:+: marks

/-- The end of marks is as long as the marks only if it is all of them. -/
theorem length_rendered_eq_iff {rest marks : List Mark} (width : Width)
    (suffix : rest <:+ marks) :
    (rendered width rest).length = (rendered width marks).length ↔
      rest = marks := by
  obtain ⟨before, rfl⟩ := suffix
  rw [rendered_append, List.length_append]
  constructor
  · intro same
    have empty : rendered width before = [] :=
      List.eq_nil_of_length_eq_zero (by omega)
    rw [(rendered_eq_nil_iff width).mp empty, List.nil_append]
  · intro same
    have empty : before = [] := by
      have sizes := congrArg List.length same
      rw [List.length_append] at sizes
      exact List.eq_nil_of_length_eq_zero (by omega)
    rw [empty]
    simp

theorem infix_of_parenthesised? {list inside tail : List Mark}
    (found : parenthesised? list = some (inside, tail)) :
    inside <:+: list := by
  obtain ⟨first, last, rfl, -, -⟩ := exists_parentheses found
  exact ⟨[first], last :: tail, by simp⟩

/-- What is read of a reference once its table has been cut out. -/
def readColumns? (table after : Text) : Option (ForeignKeyTarget × Text) :=
  if startsWith (· == '(') (skipBlanks after) then
    (parenthesised? (skipBlanks after)).map fun parts =>
      (⟨QualifiedName.ofText (trim table), identifierList parts.1⟩, parts.2)
  else
    some (⟨QualifiedName.ofText (trim table), []⟩, after)

/-- Without its keyword there is no reference. -/
theorem readReferences?_of_absent {text : Text}
    (absent : keyword? "REFERENCES" (skipBlanks text) >>= blanks? = none) :
    readReferences? text = .ok none := by
  rw [readReferences?]
  dsimp only
  rw [absent]

/-- Without the name of a table there is no reference. -/
theorem readReferences?_of_nameless {text target : Text}
    (found : keyword? "REFERENCES" (skipBlanks text) >>= blanks? = some target)
    (nameless : (afterTarget .fresh target).length = target.length) :
    readReferences? text = .ok none := by
  rw [readReferences?]
  dsimp only
  rw [found]
  dsimp only
  rw [if_pos nameless]

/-- A reference has the text of its table and the columns behind it. -/
theorem readReferences?_of_named {text target : Text}
    (found : keyword? "REFERENCES" (skipBlanks text) >>= blanks? = some target)
    (named : (afterTarget .fresh target).length ≠ target.length) :
    readReferences? text =
      (dropBytes? referencesWidth
        (upTo (skipBlanks text) (afterTarget .fresh target))).elim
          (.error .splitCharacter)
          fun written => .ok (readColumns? written (afterTarget .fresh target)) := by
  rw [readReferences?]
  dsimp only
  rw [found]
  dsimp only
  rw [if_neg named]
  cases dropBytes? referencesWidth
    (upTo (skipBlanks text) (afterTarget .fresh target)) with
  | none => rfl
  | some written =>
      dsimp only [Option.elim_some]
      rw [readColumns?]
      split <;> rfl

/-- The columns of a reference are the same marks in any width. -/
theorem exists_readColumns? {table after marks : List Mark}
    (tableInside : table <:+: marks) (afterInside : after <:+ marks) :
    ∃ answer : Option ReferenceMarks,
      (∀ parts ∈ answer, parts.Inside marks) ∧
      ∀ width, readColumns? (rendered width table) (rendered width after) =
        answer.map (ReferenceMarks.read width) := by
  have named : trimMarks table <:+: marks :=
    (isInfix_trimMarks table).trans tableInside
  by_cases opens : startsWith (· == '(') (skipBlanks after) = true
  · refine ⟨(parenthesised? (skipBlanks after)).map fun parts =>
      ⟨trimMarks table, parts.1, parts.2⟩, ?_, ?_⟩
    · intro parts member
      obtain ⟨⟨inside, tail⟩, list, rfl⟩ := Option.map_eq_some_iff.mp member
      exact ⟨named, (infix_of_parenthesised? list).trans
        ((skipBlanks_suffix after).trans afterInside).isInfix⟩
    · intro width
      rw [readColumns?, skipBlanks_rendered,
        startsWith_rendered (isEven_beq (by decide)), if_pos opens,
        parenthesised?_rendered, trim_rendered, Option.map_map, Option.map_map]
      rfl
  · refine ⟨some ⟨trimMarks table, [], after⟩, ?_, ?_⟩
    · rintro parts ⟨⟩
      exact ⟨named, List.nil_infix⟩
    · intro width
      rw [readColumns?, skipBlanks_rendered,
        startsWith_rendered (isEven_beq (by decide)), if_neg opens,
        trim_rendered]
      rfl

/-! ### Behind the keyword -/

section

variable {marks gap table after : List Mark} {letters : Text}
  (start : skipBlanks marks = letters.map .letter ++ (gap ++ (table ++ after)))
  (found : ∀ width, (keyword? "REFERENCES" (skipBlanks (rendered width marks))
    >>= blanks?) = some (rendered width (table ++ after)))
  (known : ∀ width, afterTarget .fresh (rendered width (table ++ after)) =
    rendered width after)
  (named : after ≠ table ++ after)
  (long : referencesWidth ≤ byteSize letters)

include start found known named long

/-- The keyword is cut off of its letters, at every width of the gaps. -/
theorem readReferences?_rendered (width : Width) :
    readReferences? (rendered width marks) =
      (dropBytes? referencesWidth letters).elim (.error .splitCharacter)
        fun left => .ok (readColumns? (left ++ rendered width (gap ++ table))
          (rendered width after)) := by
  have goesOn : (afterTarget .fresh
      (rendered width (table ++ after))).length ≠
        (rendered width (table ++ after)).length := by
    rw [known]
    exact fun same => named
      ((length_rendered_eq_iff width (List.suffix_append table after)).mp same)
  have written : upTo (skipBlanks (rendered width marks))
      (rendered width after) = letters ++ rendered width (gap ++ table) := by
    rw [skipBlanks_rendered, start]
    simp only [rendered_append, rendered_letters]
    rw [← List.append_assoc, ← List.append_assoc, upTo_append,
      List.append_assoc]
  rw [readReferences?_of_named (found width) goesOn, known, written,
    dropBytes?_append long]
  cases dropBytes? referencesWidth letters <;> rfl

/-- A reference with a table is read from the same marks in any width. -/
theorem exists_readReferences?_of_named :
    ∃ answer : Except Fault (Option ReferenceMarks),
      (∀ parts, answer = .ok (some parts) → parts.Inside marks) ∧
      ∀ width, readReferences? (rendered width marks) =
        answer.map (Option.map (ReferenceMarks.read width)) := by
  have read := readReferences?_rendered start found known named long
  cases cut : dropBytes? referencesWidth letters with
  | none =>
      rw [cut] at read
      exact ⟨.error .splitCharacter, by simp, read⟩
  | some left =>
      rw [cut] at read
      have tableInside : left.map .letter ++ (gap ++ table) <:+: marks := by
        obtain ⟨skipped, rfl⟩ := dropBytes?_suffix cut
        refine List.IsInfix.trans ?_ (skipBlanks_suffix marks).isInfix
        rw [start]
        exact ⟨skipped.map .letter, after, by simp⟩
      have afterInside : after <:+ marks := by
        refine List.IsSuffix.trans ?_ (skipBlanks_suffix marks)
        rw [start]
        exact ⟨letters.map .letter ++ (gap ++ table), by simp⟩
      obtain ⟨answer, within, columns⟩ :=
        exists_readColumns? tableInside afterInside
      refine ⟨.ok answer, ?_, fun width => ?_⟩
      · rintro parts ⟨⟩
        exact within parts rfl
      · have here := columns width
        rw [rendered_append, rendered_letters] at here
        exact (read width).trans (congrArg Except.ok here)

end

/-- What is read behind the keyword of a reference. -/
theorem exists_readReferences? (marks : List Mark) :
    ∃ answer : Except Fault (Option ReferenceMarks),
      (∀ parts, answer = .ok (some parts) → parts.Inside marks) ∧
      ∀ width, readReferences? (rendered width marks) =
        answer.map (Option.map (ReferenceMarks.read width)) := by
  have capitals : ("REFERENCES" : Text).all Char.isUpper = true := by decide
  have found : ∀ width,
      (keyword? "REFERENCES" (skipBlanks (rendered width marks)) >>= blanks?) =
        (keyword? "REFERENCES" (skipBlanks marks) >>= blanks?).map
          (rendered width) := by
    intro width
    rw [skipBlanks_rendered, keyword?_rendered width capitals]
    exact bind_map_eq_map_bind (blanks?_rendered width)
  cases named : keyword? "REFERENCES" (skipBlanks marks) >>= blanks? with
  | none =>
      rw [named] at found
      exact ⟨.ok none, by simp, fun width =>
        readReferences?_of_absent (found width)⟩
  | some target =>
      obtain ⟨behind, word, blanks⟩ := Option.bind_eq_some_iff.mp named
      obtain ⟨spelling, start, spelled⟩ := exists_spelling word
      obtain ⟨letters, rfl, size⟩ := exists_letters_of_spelling capitals spelled
      obtain ⟨gap, rfl⟩ := suffix_of_blanks? blanks
      obtain ⟨after, ⟨table, rfl⟩, known⟩ := exists_afterTarget .fresh target
      rw [named] at found
      by_cases nameless : after = table ++ after
      · refine ⟨.ok none, by simp, fun width => ?_⟩
        exact readReferences?_of_nameless (found width) (by
          rw [known, ← nameless])
      · exact exists_readReferences?_of_named start found known nameless
          (size.symm.le.trans (length_le_byteSize letters))

end Snowform
