import Snowform.Proofs.Ddl.Slices
import Snowform.Proofs.Lexical.MaskedBytes
import Snowform.Proofs.Lexical.Partition
import Snowform.Proofs.Text.Words
import Mathlib.Algebra.Group.Int.Defs
import Mathlib.Algebra.Group.Nat.Defs

/-!
# Texts that are derived from a script

What the readers count in is derived from the script: a masked statement, a
part of a statement without its comments, parts of such texts, and words of
them that are joined again.  None of these texts is longer than the script,
so no counter that goes one up or down at a character leaves its range while
the script is shorter than the range.

Nothing of this adds a character, apart from the fills of masked statements.
-/

namespace Snowform

open Text Lexical

/-! ## Statements -/

/-- A statement is a part of its script. -/
theorem infix_of_mem_statements {script : Text} {statement : Statement}
    (member : statement ∈ statements script) : statement.text <:+: script := by
  rw [← map_toStatement_placedStatements] at member
  obtain ⟨placed, here, rfl⟩ := List.mem_map.mp member
  obtain ⟨before, after, parts, -⟩ :=
    exists_parts_of_slice? (slice?_of_mem_placedStatements here)
  exact ⟨before, after, by rw [List.append_assoc, ← parts]⟩

/-- The source of a part in place is a part of the statement. -/
theorem InPlace.isInfix {statement written : Text} {part : List Cell}
    (inPlace : InPlace statement part) (source : sourceOf part = .ok written) :
    written <:+: statement := by
  obtain ⟨before, after, text, -, read, slice⟩ := inPlace
  rw [source] at read
  cases read
  obtain ⟨front, back, parts, -⟩ := exists_parts_of_slice? slice
  exact ⟨front, back, by rw [List.append_assoc, ← parts]⟩

/-! ## Without comments -/

/--
A region gets no longer without comments, since a comment has a character for
its blank.
-/
theorem length_withoutComment {region : Region} (nonempty : region.text ≠ []) :
    region.withoutComment.length ≤ region.text.length := by
  rw [Region.withoutComment]
  split
  · exact Nat.zero_le _
  · exact List.length_pos_iff.mpr nonempty
  · exact Nat.le_refl _

/-- A text gets no longer without comments. -/
theorem length_stripComments (text : Text) :
    (stripComments text).length ≤ text.length := by
  have shorter : ∀ regions : List Region,
      (∀ region ∈ regions, region.text ≠ []) →
        (regions.flatMap Region.withoutComment).length ≤
          (textOf regions).length := by
    intro regions nonempty
    induction regions with
    | nil => exact Nat.le_refl 0
    | cons region others ih =>
        rw [List.forall_mem_cons] at nonempty
        rw [List.flatMap_cons, textOf_cons, List.length_append,
          List.length_append]
        exact Nat.add_le_add (length_withoutComment nonempty.1)
          (ih nonempty.2)
  have known := shorter (lexemes text) fun region member =>
    (isLexeme_of_mem_lexemes member).1
  rwa [textOf_lexemes] at known

/-- Removing comments adds blanks only. -/
theorem mem_stripComments {text : Text} {character : Char}
    (member : character ∈ stripComments text) :
    character ∈ text ∨ character = ' ' := by
  obtain ⟨region, inside, member⟩ := List.mem_flatMap.mp member
  have kept : region.text ⊆ text := by
    intro other here
    rw [← textOf_lexemes text]
    exact List.mem_flatMap.mpr ⟨region, inside, here⟩
  rw [Region.withoutComment] at member
  split at member
  · cases member
  · exact Or.inr (List.mem_singleton.mp member)
  · exact Or.inl (kept member)

/-! ## Entries -/

/-- An entry is a part of its list. -/
theorem infix_of_mem_splitCommas {text entry : Text}
    (member : entry ∈ splitCommas text) : entry <:+: text := by
  obtain ⟨piece, known, rfl⟩ := List.mem_map.mp (List.mem_of_mem_filter member)
  refine List.IsInfix.trans ?_ (infix_of_mem_pieces _ _ known)
  exact ⟨leadingBlanks piece, trailingBlanks piece, by
    rw [List.append_assoc, leading_trim_trailing]⟩

/-- Entries with a separator behind each are no longer than their list. -/
theorem spread_splitCommas (text : Text) :
    spread (splitCommas text) ≤ text.length + 1 := by
  have trimmed : ∀ list : List Text, spread (list.map trim) ≤ spread list := by
    intro list
    induction list with
    | nil => exact Nat.le_refl 0
    | cons first others ih =>
        have parts := congrArg List.length (leading_trim_trailing first)
        rw [List.length_append, List.length_append] at parts
        rw [List.map_cons, spread_cons, spread_cons]
        omega
  have fewer : spread (splitCommas text) ≤ _ :=
    spread_le_of_sublist List.filter_sublist
  exact (fewer.trans (trimmed _)).trans_eq
    (spread_pieces _ _ ({} : Nesting) text)

/-! ## Derived texts -/

/-- The texts that the readers derive from a script. -/
inductive Derived (script : Text) : Text → Prop where
  | masked {statement : Statement} (member : statement ∈ statements script) :
      Derived script (mask statement.text)
  | list {statement : Statement} {object : ObjectKind} {part : List Cell}
      {written : Text} (member : statement ∈ statements script)
      (sliced : Sliced statement.text object part)
      (source : sourceOf part = .ok written) :
      Derived script (stripComments written)
  | inside {text part : Text} (derived : Derived script text)
      (inside : part <:+: text) : Derived script part
  | joined {text : Text} {list : List Text} (derived : Derived script text)
      (some : list <:+: words text) : Derived script ([' '].intercalate list)

theorem byteSize_le_of_isInfix {part text : Text} (inside : part <:+: text) :
    byteSize part ≤ byteSize text := by
  obtain ⟨before, after, rfl⟩ := inside
  rw [byteSize_append, byteSize_append]
  omega

/-- A derived text is no longer than the script. -/
theorem Derived.length_le {script text : Text}
    (derived : Derived script text) : text.length ≤ byteSize script := by
  induction derived with
  | @masked statement member =>
      calc (mask statement.text).length
          ≤ byteSize (mask statement.text) := length_le_byteSize _
        _ = byteSize statement.text := byteSize_mask statement.text
        _ ≤ byteSize script :=
            byteSize_le_of_isInfix (infix_of_mem_statements member)
  | @list statement object part written member sliced source =>
      have inside := (sliced.inPlace.isInfix source).trans
        (infix_of_mem_statements member)
      exact ((length_stripComments written).trans
        (length_le_byteSize written)).trans (byteSize_le_of_isInfix inside)
  | inside derived inside ih => exact inside.length_le.trans ih
  | joined derived some ih =>
      exact (length_intercalate_words some.sublist).trans ih

/-! ## Counters -/

/-- The numbers that a counter of 32 bits with a sign can hold. -/
def FitsCounter (value : Int) : Prop :=
  -2 ^ 31 ≤ value ∧ value < 2 ^ 31

/-- What is bounded by the size of a short text fits into a counter. -/
theorem fitsCounter_of_natAbs_le {value : Int} {size : Nat}
    (bounded : value.natAbs ≤ size) (short : size < 2 ^ 31) :
    FitsCounter value := by
  constructor <;> omega

/-- A text has no more parentheses than characters. -/
theorem natAbs_parenthesisBalance {α : Type} [Shown α] (list : List α) :
    (parenthesisBalance list).natAbs ≤ list.length := by
  have opening := List.countP_le_length (p := shows (· == '(')) (l := list)
  have closing := List.countP_le_length (p := shows (· == ')')) (l := list)
  rw [parenthesisBalance]
  omega

/-- One character changes the depth by one at most. -/
theorem natAbs_advance (nesting : Nesting) (character : Char) :
    ((nesting.advance character).depth - nesting.depth).natAbs ≤ 1 := by
  rw [Nesting.advance]
  split
  · split <;> simp
  · split_ifs <;> simp only [Int.sub_self] <;> omega

/-- A text changes the depth by the number of its characters at most. -/
theorem natAbs_foldl_advance (nesting : Nesting) (text : Text) :
    ((text.foldl Nesting.advance nesting).depth - nesting.depth).natAbs ≤
      text.length := by
  induction text generalizing nesting with
  | nil => simp
  | cons character rest ih =>
      have here := natAbs_advance nesting character
      have later := ih (nesting.advance character)
      rw [List.foldl_cons, List.length_cons]
      omega

/-- Neither counter leaves its range at any place of a derived text. -/
theorem Derived.fitsCounter {script text : Text}
    (derived : Derived script text) (short : byteSize script < 2 ^ 31) :
    FitsCounter (parenthesisBalance text) ∧
      FitsCounter (text.foldl Nesting.advance {}).depth := by
  have size := derived.length_le
  have depth := natAbs_foldl_advance {} text
  refine ⟨fitsCounter_of_natAbs_le
    ((natAbs_parenthesisBalance text).trans size) short, ?_⟩
  apply fitsCounter_of_natAbs_le _ short
  change ((text.foldl Nesting.advance {}).depth - 0).natAbs ≤ _ at depth
  omega

/-! ## Characters -/

/-- A derived text has no characters but those of the script, and fills. -/
theorem Derived.mem_or_isFill {script text : Text}
    (derived : Derived script text) {character : Char}
    (member : character ∈ text) :
    character ∈ script ∨ isFill character = true := by
  induction derived generalizing character with
  | @masked statement known =>
      obtain ⟨cell, inside, rfl⟩ := List.mem_map.mp member
      have shown := (whole_cells statement.text).mem_or_isFill
        (source?_cells statement.text) inside
      exact shown.imp_left fun here =>
        (infix_of_mem_statements known).subset here
  | @list statement object part written known sliced source =>
      have inside := (sliced.inPlace.isInfix source).trans
        (infix_of_mem_statements known)
      rcases mem_stripComments member with here | rfl
      · exact Or.inl (inside.subset here)
      · exact Or.inr (by decide)
  | inside derived inside ih => exact ih (inside.subset member)
  | joined derived some ih =>
      rcases mem_intercalate member with blank | ⟨word, known, here⟩
      · obtain rfl := List.mem_singleton.mp blank
        exact Or.inr (by decide)
      · exact ih (mem_of_mem_words (some.subset known) here)

/-- A long reference has a long s. -/
theorem HasLongReference.mem {text : Text} (long : HasLongReference text) :
    'ſ' ∈ text := by
  obtain ⟨tail, suffix, rest, found⟩ := long
  have inside := (leaves_skipBlanks tail).suffix.trans suffix
  exact inside.subset
    ((leaves_of_keyword? (by decide) found).suffix.subset List.mem_cons_self)

/-- A text that is derived from a script without a long s has no reference
that one introduces. -/
theorem Derived.not_hasLongReference {script text : Text}
    (derived : Derived script text) (plain : 'ſ' ∉ script) :
    ¬ HasLongReference text := by
  intro long
  rcases derived.mem_or_isFill long.mem with here | fill
  · exact plain here
  · cases fill

/-- Without a long s no statement has a long reference. -/
theorem not_hasLongReference_of_mem_statements {script : Text}
    {statement : Statement} (member : statement ∈ statements script)
    (plain : 'ſ' ∉ script) : ¬ Table.HasLongReference statement.text := by
  rintro ⟨name, written, ⟨inside, tail, listed, source⟩, entry, known, long⟩
  have derived : Derived script entry :=
    .inside (.list member (.columns listed) source)
      (infix_of_mem_splitCommas known)
  exact derived.not_hasLongReference plain long

/-- Every reference of a derived text is cut off behind its keyword. -/
theorem Derived.exists_readReferences? {script text : Text}
    (derived : Derived script text) (plain : 'ſ' ∉ script) :
    ∃ answer, readReferences? text = .ok answer := by
  cases read : readReferences? text with
  | ok answer => exact ⟨answer, rfl⟩
  | error fault =>
      exact absurd ⟨text, List.suffix_rfl,
        startsLongReference_of_readReferences? read⟩
        (derived.not_hasLongReference plain)

end Snowform
