import Snowform.Proofs.Terraform.Identifiers
import Snowform.Proofs.Terraform.Wordwise
import Mathlib.Data.List.Infix

/-!
# Suffixes in names and in bodies

The name of a schema loses the first suffix listed that it ends in.  A body
that mentions the schema loses the longest one.  The two agree where the first
one listed is the longest one, and they agree on all schemas if no suffix is
listed before a longer one that ends in it.
-/

namespace Snowform.Terraform

open Text Lexical Hcl

/-! ## ASCII words -/

/-- The names of schemas that need no quotes. -/
def IsSchemaName (schema : Text) : Prop :=
  IsToken schema ∧ schema.head?.any Char.isDigit = false

/-- What is told apart from a schema by an underscore. -/
def IsEnvironmentSuffix (suffix : Text) : Prop :=
  IsToken suffix ∧ suffix.head? = some '_'

instance (schema : Text) : Decidable (IsSchemaName schema) :=
  inferInstanceAs (Decidable (_ ∧ _))

instance (suffix : Text) : Decidable (IsEnvironmentSuffix suffix) :=
  inferInstanceAs (Decidable (_ ∧ _))

theorem IsEnvironmentSuffix.isSchemaName {suffix : Text}
    (isSuffix : IsEnvironmentSuffix suffix) : IsSchemaName suffix := by
  refine ⟨isSuffix.1, ?_⟩
  rw [isSuffix.2]
  rfl

/-- A stem of a schema could be a schema. -/
theorem IsSchemaName.of_append {stem ending : Text}
    (isName : IsSchemaName (stem ++ ending)) (nonempty : stem ≠ []) :
    IsSchemaName stem := by
  refine ⟨⟨nonempty, fun character member =>
    isName.1.2 character (List.mem_append_left ending member)⟩, ?_⟩
  obtain ⟨first, others, rfl⟩ := List.exists_cons_of_ne_nil nonempty
  exact isName.2

/-- The cases of a word character of ASCII. -/
theorem cases_of_isAsciiWord {character : Char}
    (word : isAsciiWord character = true) :
    fold character = character.toLower ∧
      character.toLower.toUpper = character.toUpper ∧
      character.toUpper.toLower = character.toLower ∧
      identifierCharacter character = character.toUpper ∧
      character.toUpper.isDigit = character.isDigit := by
  exact ascii_induction (motive := fun character =>
    isAsciiWord character = true →
      fold character = character.toLower ∧
        character.toLower.toUpper = character.toUpper ∧
        character.toUpper.toLower = character.toLower ∧
        identifierCharacter character = character.toUpper ∧
        character.toUpper.isDigit = character.isDigit)
    (by set_option maxRecDepth 4000 in decide) (toNat_of_isAsciiWord word).2
    word

/-- ASCII words are spelled alike if their capitals are the same. -/
theorem sameSpelling_iff_asciiUpper {first second : Text}
    (firstWord : ∀ character ∈ first, isAsciiWord character = true)
    (secondWord : ∀ character ∈ second, isAsciiWord character = true) :
    sameSpelling first second = true ↔
      asciiUpper first = asciiUpper second := by
  have folded : ∀ {text : Text},
      (∀ character ∈ text, isAsciiWord character = true) →
        text.map fold = (asciiUpper text).map Char.toLower ∧
          asciiUpper text = (text.map fold).map Char.toUpper := by
    intro text words
    rw [asciiUpper, List.map_map, List.map_map]
    constructor
    · refine List.map_congr_left fun character member => ?_
      obtain ⟨lower, -, back, -, -⟩ := cases_of_isAsciiWord (words character member)
      rw [lower, ← back]
      rfl
    · refine List.map_congr_left fun character member => ?_
      obtain ⟨lower, upper, -, -, -⟩ := cases_of_isAsciiWord (words character member)
      rw [Function.comp_apply, lower, upper]
  rw [sameSpelling, beq_iff_eq]
  constructor
  · intro same
    rw [(folded firstWord).2, (folded secondWord).2, same]
  · intro same
    rw [(folded firstWord).1, (folded secondWord).1, same]

theorem identifier_eq_asciiUpper {schema : Text}
    (isName : IsSchemaName schema) : identifier schema = asciiUpper schema := by
  have capitals : schema.map identifierCharacter = asciiUpper schema :=
    List.map_congr_left fun character member =>
      (cases_of_isAsciiWord (isName.1.2 character member)).2.2.2.1
  have noDigit : (asciiUpper schema).head?.any Char.isDigit = false := by
    obtain ⟨first, others, rfl⟩ := List.exists_cons_of_ne_nil isName.1.1
    have word := isName.1.2 first List.mem_cons_self
    exact (cases_of_isAsciiWord word).2.2.2.2.trans isName.2
  rw [identifier, capitals, noDigit]
  rfl

/-! ## Ends of a schema -/

/-- Whether a schema ends in a suffix in any case and is more than that. -/
def endsSchema (schema suffix : Text) : Bool :=
  (asciiUpper suffix).isSuffixOf (asciiUpper schema) &&
    suffix.length < schema.length

/-- A schema in capitals without what a suffix takes away. -/
def capitalsWithout (suffix schema : Text) : Text :=
  (asciiUpper schema).take (schema.length - suffix.length)

theorem length_asciiUpper (text : Text) :
    (asciiUpper text).length = text.length :=
  List.length_map _

theorem length_of_asciiUpper {first second : Text}
    (same : asciiUpper first = asciiUpper second) :
    first.length = second.length := by
  rw [← length_asciiUpper first, same, length_asciiUpper]

/-- The end of a schema that a suffix is, in the spelling of the schema. -/
theorem endsSchema_iff {schema suffix : Text} :
    endsSchema schema suffix = true ↔
      ∃ stem ending, schema = stem ++ ending ∧ stem ≠ [] ∧
        asciiUpper suffix = asciiUpper ending := by
  rw [endsSchema, Bool.and_eq_true, List.isSuffixOf_iff_suffix,
    decide_eq_true_iff]
  constructor
  · rintro ⟨⟨front, capitals⟩, shorter⟩
    obtain ⟨stem, ending, rfl, -, same⟩ :=
      List.map_eq_append_iff.mp capitals.symm
    refine ⟨stem, ending, rfl, ?_, same.symm⟩
    rintro rfl
    exact Nat.ne_of_lt shorter (length_of_asciiUpper same.symm)
  · rintro ⟨stem, ending, rfl, nonempty, same⟩
    have sizes := length_of_asciiUpper same
    have positive := List.length_pos_iff.mpr nonempty
    refine ⟨⟨asciiUpper stem, ?_⟩, ?_⟩
    · rw [same, asciiUpper, asciiUpper, asciiUpper, List.map_append]
    · rw [List.length_append]
      omega

/-- What is left of the identifier of a schema without one suffix. -/
theorem dropSuffix?_eq {suffix schema : Text}
    (isSuffix : IsEnvironmentSuffix suffix) (isName : IsSchemaName schema) :
    (dropEnd? (identifier suffix) (identifier schema)).filter
        (!·.isEmpty) =
      if endsSchema schema suffix then
        some (capitalsWithout suffix schema)
      else
        none := by
  rw [identifier_eq_asciiUpper isSuffix.isSchemaName,
    identifier_eq_asciiUpper isName, dropEnd?, endsSchema, capitalsWithout,
    length_asciiUpper, length_asciiUpper]
  cases (asciiUpper suffix).isSuffixOf (asciiUpper schema) with
  | false => rfl
  | true =>
      have left : (!((asciiUpper schema).take
          (schema.length - suffix.length)).isEmpty) =
          decide (suffix.length < schema.length) := by
        rw [Bool.eq_iff_iff, Bool.not_eq_true', List.isEmpty_eq_false_iff,
          decide_eq_true_iff, ← List.length_pos_iff, List.length_take,
          length_asciiUpper]
        omega
      rw [if_pos rfl, Bool.true_and, Option.filter_some, left]

/-- The name of a schema loses the first suffix listed that it ends in. -/
theorem schemaIdentifier_eq {suffixes : List Text}
    (shapes : ∀ suffix ∈ suffixes, IsEnvironmentSuffix suffix)
    {schema : Text} (isName : IsSchemaName schema) :
    schemaIdentifier suffixes schema =
      ((suffixes.find? (endsSchema schema)).map fun suffix =>
        capitalsWithout suffix schema).getD (asciiUpper schema) := by
  have firstFound : (suffixes.findSome? fun suffix =>
      (dropEnd? (identifier suffix) (identifier schema)).filter
        (!·.isEmpty)) =
      (suffixes.find? (endsSchema schema)).map fun suffix =>
        capitalsWithout suffix schema := by
    induction suffixes with
    | nil => rfl
    | cons suffix others ih =>
        rw [List.forall_mem_cons] at shapes
        rw [List.findSome?_cons, List.find?_cons,
          dropSuffix?_eq shapes.1 isName]
        cases endsSchema schema suffix with
        | true => rfl
        | false => exact ih shapes.2
  rw [schemaIdentifier, firstFound, identifier_eq_asciiUpper isName]

/-! ## Suffixes of a mentioned schema -/

/-- Stems depend on which suffixes there are, and on nothing else. -/
theorem shortestStem?_congr {first second : List Text}
    (same : ∀ word, isAnyOf first word = isAnyOf second word) (word : Text) :
    shortestStem? first word = shortestStem? second word := by
  induction word with
  | nil => rfl
  | cons character rest ih => rw [shortestStem?, shortestStem?, ih, same]

/-- A stem is found in front of the longest suffix that a word ends in. -/
theorem shortestStem?_eq_some {suffixes : List Text} {word stem : Text}
    (found : shortestStem? suffixes word = some stem) :
    (∃ ending, word = stem ++ ending ∧ stem ≠ [] ∧
      isAnyOf suffixes ending = true) ∧
      ∀ start ending, word = start ++ ending → start ≠ [] →
        isAnyOf suffixes ending = true → stem.length ≤ start.length := by
  induction word generalizing stem with
  | nil => cases found
  | cons character rest ih =>
      rw [shortestStem?] at found
      split_ifs at found with folds ends
      · cases found
        refine ⟨⟨rest, rfl, List.cons_ne_nil _ _, ends⟩, ?_⟩
        intro start ending _ nonempty _
        exact List.length_pos_iff.mpr nonempty
      · obtain ⟨others, later, rfl⟩ := Option.map_eq_some_iff.mp found
        obtain ⟨⟨ending, rfl, -, isSuffix⟩, shortest⟩ := ih later
        refine ⟨⟨ending, rfl, List.cons_ne_nil _ _, isSuffix⟩, ?_⟩
        intro start other cut nonempty isOther
        obtain ⟨first, inside, rfl⟩ := List.exists_cons_of_ne_nil nonempty
        obtain ⟨rfl, tail⟩ := List.cons.inj cut
        have further : inside ≠ [] := by
          rintro rfl
          rw [tail] at ends
          exact ends isOther
        exact Nat.succ_le_succ (shortest inside other tail further isOther)

theorem shortestStem?_eq_none {suffixes : List Text} {word : Text}
    (all : ∀ character ∈ word, isAsciiWord character = true)
    (nothing : shortestStem? suffixes word = none) {start ending : Text}
    (cut : word = start ++ ending) (nonempty : start ≠ []) :
    isAnyOf suffixes ending = false := by
  induction word generalizing start with
  | nil => exact absurd (List.append_eq_nil_iff.mp cut.symm).1 nonempty
  | cons character rest ih =>
      rw [List.forall_mem_cons] at all
      have folds : isAsciiWord (fold character) = true := by
        rw [(cases_of_isAsciiWord all.1).1, isAsciiWord_toLower]
        exact all.1
      rw [shortestStem?, if_pos folds] at nothing
      split_ifs at nothing with ends
      obtain ⟨first, inside, rfl⟩ := List.exists_cons_of_ne_nil nonempty
      obtain ⟨rfl, tail⟩ := List.cons.inj cut
      cases inside with
      | nil =>
          have same : rest = ending := tail
          rw [← same]
          exact Bool.eq_false_iff.mpr ends
      | cons second others =>
          exact ih all.2 (Option.map_eq_none_iff.mp nothing) tail
            (List.cons_ne_nil _ _)

section

variable {suffixes : List Text}
  (shapes : ∀ suffix ∈ suffixes, IsEnvironmentSuffix suffix)

include shapes

/-- The ends of a schema that are suffixes in any case. -/
theorem isAnyOf_ending_iff {stem ending : Text}
    (isName : IsSchemaName (stem ++ ending)) (nonempty : stem ≠ []) :
    isAnyOf suffixes ending = true ↔
      ∃ suffix ∈ suffixes, endsSchema (stem ++ ending) suffix = true ∧
        suffix.length = ending.length := by
  have word : ∀ character ∈ ending, isAsciiWord character = true :=
    fun character member => isName.1.2 character
      (List.mem_append_right stem member)
  rw [isAnyOf, List.any_eq_true]
  refine exists_congr fun suffix => and_congr_right fun member => ?_
  rw [sameSpelling_iff_asciiUpper (shapes suffix member).1.2 word,
    endsSchema_iff]
  constructor
  · intro same
    exact ⟨⟨stem, ending, rfl, nonempty, same⟩, length_of_asciiUpper same⟩
  · rintro ⟨⟨start, other, cut, -, same⟩, size⟩
    have sizes := size.symm.trans (length_of_asciiUpper same)
    rw [same, (List.append_inj' cut sizes).2]

/-- A suffix that a schema ends in is met at its end. -/
theorem exists_ending_of_endsSchema {schema suffix : Text}
    (isName : IsSchemaName schema) (member : suffix ∈ suffixes)
    (ends : endsSchema schema suffix = true) :
    ∃ stem ending, schema = stem ++ ending ∧ stem ≠ [] ∧
      isAnyOf suffixes ending = true ∧ suffix.length = ending.length := by
  obtain ⟨stem, ending, rfl, nonempty, same⟩ := endsSchema_iff.mp ends
  have size := length_of_asciiUpper same
  exact ⟨stem, ending, rfl, nonempty,
    (isAnyOf_ending_iff shapes isName nonempty).mpr
      ⟨suffix, member, ends, size⟩, size⟩

/-- What a body with nothing but a word in it becomes. -/
theorem apply_word {schema : Text} (isWordText : IsWordText schema) :
    (Substitution.ofTokens [] suffixes).apply schema =
      (shortestStem? suffixes schema).getD schema := by
  have endings : ∀ suffix ∈ suffixes, IsWordText suffix :=
    fun suffix member => (shapes suffix member).1.isWordText
  have noName : ∀ word, databaseWord? [] word = none := fun _ => rfl
  have ends : startsWith isWord ([] : Text) = false := rfl
  have undoubled : doubleOpenings schema = schema := by
    have whole := doubleOpenings_word isWordText.2 []
    rwa [List.append_nil, doubleOpenings, List.append_nil] at whole
  have word := exchangeWords_word (fun word =>
    (shortestStem? (orderedTokens suffixes) word).getD word) isWordText ends
  rw [exchangeWords_nil, List.append_nil, List.append_nil] at word
  rw [apply_eq_exchangeWords (List.forall_mem_nil _) endings, undoubled]
  simp only [noName, Option.getD_none, exchangeWords_self]
  rw [word, shortestStem?_congr
    (isAnyOf_orderedTokens_of_isWordText endings)]

/-! ## Where the two agree -/

/--
The name of a schema and its mention in a body agree exactly if the first
suffix listed that the schema ends in is the longest one.
-/
theorem identifier_apply_eq_iff {schema : Text} (isName : IsSchemaName schema) :
    identifier ((Substitution.ofTokens [] suffixes).apply schema) =
        schemaIdentifier suffixes schema ↔
      ∀ first, suffixes.find? (endsSchema schema) = some first →
        ∀ other ∈ suffixes, endsSchema schema other = true →
          other.length ≤ first.length := by
  rw [apply_word shapes isName.1.isWordText, schemaIdentifier_eq shapes isName]
  cases stemFound : shortestStem? suffixes schema with
  | none =>
      have noEnd : ∀ suffix ∈ suffixes, ¬ endsSchema schema suffix = true := by
        intro suffix member ends
        obtain ⟨stem, ending, cut, nonempty, isSuffix, -⟩ :=
          exists_ending_of_endsSchema shapes isName member ends
        have noSuffix := shortestStem?_eq_none isName.1.2 stemFound cut nonempty
        cases noSuffix.symm.trans isSuffix
      rw [List.find?_eq_none.mpr noEnd, Option.getD_none, Option.map_none,
        Option.getD_none, identifier_eq_asciiUpper isName]
      refine iff_of_true rfl ?_
      intro first found
      cases found
  | some stem =>
      obtain ⟨⟨ending, rfl, nonempty, isSuffix⟩, shortest⟩ :=
        shortestStem?_eq_some stemFound
      have longest : ∀ other ∈ suffixes,
          endsSchema (stem ++ ending) other = true →
            other.length ≤ ending.length := by
        intro other member ends
        obtain ⟨start, behind, cut, nonempty, isSuffix, size⟩ :=
          exists_ending_of_endsSchema shapes isName member ends
        have bound := shortest start behind cut nonempty isSuffix
        have sizes := congrArg List.length cut
        rw [List.length_append, List.length_append] at sizes
        omega
      obtain ⟨reached, member, ends, size⟩ :=
        (isAnyOf_ending_iff shapes isName nonempty).mp isSuffix
      cases found : suffixes.find? (endsSchema (stem ++ ending)) with
      | none =>
          exact absurd ends (List.find?_eq_none.mp found reached member)
      | some first =>
          have bound := longest first (List.mem_of_find?_eq_some found)
            (List.find?_some found)
          have sizes : (stem ++ ending).length = stem.length + ending.length :=
            List.length_append
          have front : asciiUpper stem =
              (asciiUpper (stem ++ ending)).take stem.length := by
            rw [← length_asciiUpper stem, asciiUpper, asciiUpper,
              List.map_append, List.take_left]
          rw [Option.getD_some, Option.map_some, Option.getD_some,
            identifier_eq_asciiUpper (isName.of_append nonempty), front,
            capitalsWithout, List.take_eq_take_iff, length_asciiUpper]
          constructor
          · intro same suffix isFirst other isOther otherEnds
            cases isFirst
            have otherBound := longest other isOther otherEnds
            omega
          · intro isLongest
            have reachedBound := isLongest first rfl reached member ends
            omega

end

/-! ## Lists on which the two agree -/

/-- Whether every suffix is listed before the shorter ones that it ends in. -/
def ListsLongerFirst (suffixes : List Text) : Prop :=
  ∀ shorter ∈ suffixes, ∀ longer ∈ suffixes, shorter <:+ longer →
    suffixes.idxOf longer ≤ suffixes.idxOf shorter

instance (suffixes : List Text) : Decidable (ListsLongerFirst suffixes) :=
  inferInstanceAs (Decidable (∀ shorter ∈ suffixes, _))

theorem isSuffix_of_endsSchema {schema suffix : Text}
    (ends : endsSchema schema suffix = true) :
    asciiUpper suffix <:+ asciiUpper schema ∧
      suffix.length < schema.length := by
  rwa [endsSchema, Bool.and_eq_true, List.isSuffixOf_iff_suffix,
    decide_eq_true_iff] at ends

/-- The first suffix that a schema ends in is listed before all others. -/
theorem idxOf_le_of_find? {schema first other : Text} {suffixes : List Text}
    (found : suffixes.find? (endsSchema schema) = some first)
    (member : other ∈ suffixes) (ends : endsSchema schema other = true) :
    (suffixes.map asciiUpper).idxOf (asciiUpper first) ≤
      (suffixes.map asciiUpper).idxOf (asciiUpper other) := by
  induction suffixes with
  | nil => cases found
  | cons suffix others ih =>
      rw [List.find?_cons] at found
      cases here : endsSchema schema suffix with
      | true =>
          rw [here] at found
          cases found
          rw [List.map_cons, List.idxOf_cons_self]
          exact Nat.zero_le _
      | false =>
          rw [here] at found
          have differs : ∀ {text : Text}, endsSchema schema text = true →
              asciiUpper suffix ≠ asciiUpper text := by
            intro text textEnds same
            rw [endsSchema, same, length_of_asciiUpper same, ← endsSchema]
              at here
            cases here.symm.trans textEnds
          have later : other ∈ others := by
            refine (List.mem_cons.mp member).resolve_left ?_
            rintro rfl
            exact differs ends rfl
          rw [List.map_cons, List.idxOf_cons_ne _ (differs ends),
            List.idxOf_cons_ne _ (differs (List.find?_some found))]
          exact Nat.succ_le_succ (ih found later)

/-- A letter in front of a suffix is a schema that ends in the suffix. -/
theorem isSchemaName_cons {suffix : Text}
    (isSuffix : IsEnvironmentSuffix suffix) :
    IsSchemaName ('X' :: suffix) := by
  have word : isAsciiWord 'X' = true := by decide
  exact ⟨⟨List.cons_ne_nil _ _, List.forall_mem_cons.mpr
    ⟨word, isSuffix.1.2⟩⟩, rfl⟩

section

variable {suffixes : List Text}
  (shapes : ∀ suffix ∈ suffixes, IsEnvironmentSuffix suffix)

include shapes

theorem first_longest_iff_listsLongerFirst :
    (∀ schema, IsSchemaName schema →
      ∀ first, suffixes.find? (endsSchema schema) = some first →
        ∀ other ∈ suffixes, endsSchema schema other = true →
          other.length ≤ first.length) ↔
      ListsLongerFirst (suffixes.map asciiUpper) := by
  constructor
  · -- A longer suffix behind a letter tells that it is listed first.
    intro firstLongest shorter shorterMember longer longerMember isSuffix
    obtain ⟨short, shortMember, rfl⟩ := List.mem_map.mp shorterMember
    obtain ⟨long, longMember, rfl⟩ := List.mem_map.mp longerMember
    have whole : asciiUpper long <:+ asciiUpper ('X' :: long) :=
      List.suffix_cons _ _
    have longEnds : endsSchema ('X' :: long) long = true := by
      rw [endsSchema, Bool.and_eq_true, List.isSuffixOf_iff_suffix,
        decide_eq_true_iff]
      exact ⟨whole, Nat.lt_succ_self _⟩
    have shortEnds : endsSchema ('X' :: long) short = true := by
      have sizes := isSuffix.length_le
      rw [length_asciiUpper, length_asciiUpper] at sizes
      rw [endsSchema, Bool.and_eq_true, List.isSuffixOf_iff_suffix,
        decide_eq_true_iff]
      exact ⟨isSuffix.trans whole, Nat.lt_succ_of_le sizes⟩
    cases found : suffixes.find? (endsSchema ('X' :: long)) with
    | none =>
        exact absurd longEnds (List.find?_eq_none.mp found long longMember)
    | some first =>
        have bound := firstLongest _ (isSchemaName_cons (shapes long longMember))
          first found long longMember longEnds
        obtain ⟨firstSuffix, firstBound⟩ :=
          isSuffix_of_endsSchema (List.find?_some found)
        have size : first.length = long.length :=
          Nat.le_antisymm (Nat.le_of_lt_succ firstBound) bound
        have same : asciiUpper first = asciiUpper long := by
          rw [← length_asciiUpper first, ← length_asciiUpper long] at size
          exact (List.suffix_of_suffix_length_le firstSuffix whole
            size.le).eq_of_length size
        rw [← same]
        exact idxOf_le_of_find? found shortMember shortEnds
  · intro longerFirst schema _ first found other member ends
    by_contra longer
    have firstEnds := isSuffix_of_endsSchema (List.find?_some found)
    have otherEnds := isSuffix_of_endsSchema ends
    have firstMember :=
      List.mem_map_of_mem (f := asciiUpper) (List.mem_of_find?_eq_some found)
    have otherMember := List.mem_map_of_mem (f := asciiUpper) member
    have isSuffix : asciiUpper first <:+ asciiUpper other := by
      refine List.suffix_of_suffix_length_le firstEnds.1 otherEnds.1 ?_
      rw [length_asciiUpper, length_asciiUpper]
      omega
    have same := (List.idxOf_inj firstMember).mp (Nat.le_antisymm
      (idxOf_le_of_find? found member ends)
      (longerFirst _ firstMember _ otherMember isSuffix))
    exact longer (length_of_asciiUpper same).ge

/--
For suffixes and schemas of ASCII word characters, the name of a schema and
its mention in a body lose the same suffix exactly if the first one listed
that the schema ends in is the longest.  They do so for all schemas exactly if
every suffix is listed before the shorter ones that it ends in, where case
does not matter.
-/
theorem suffixes_stripped_alike_iff :
    (∀ schema, IsSchemaName schema →
      (identifier ((Substitution.ofTokens [] suffixes).apply schema) =
          schemaIdentifier suffixes schema ↔
        ∀ first, suffixes.find? (endsSchema schema) = some first →
          ∀ other ∈ suffixes, endsSchema schema other = true →
            other.length ≤ first.length)) ∧
      ((∀ schema, IsSchemaName schema →
          identifier ((Substitution.ofTokens [] suffixes).apply schema) =
            schemaIdentifier suffixes schema) ↔
        ListsLongerFirst (suffixes.map asciiUpper)) := by
  have pointwise := fun schema (isName : IsSchemaName schema) =>
    identifier_apply_eq_iff shapes isName
  refine ⟨pointwise, ?_⟩
  rw [← first_longest_iff_listsLongerFirst shapes]
  exact forall₂_congr pointwise

end

/-- Suffixes in different cases, the longer one first, and a schema of them. -/
theorem suffixes_stripped_alike_iff_old_sandbox :
    let suffixes : List Text := ["_old_Sandbox".toList, "_SANDBOX".toList]
    let schema : Text := "rdv_OLD_sandbox"
    (∀ suffix ∈ suffixes, IsEnvironmentSuffix suffix) ∧
      IsSchemaName schema ∧
      identifier ((Substitution.ofTokens [] suffixes).apply schema) =
        schemaIdentifier suffixes schema ∧
      schemaIdentifier suffixes schema = "RDV".toList := by
  intro suffixes schema
  have shapes : ∀ suffix ∈ suffixes, IsEnvironmentSuffix suffix := by decide
  have isName : IsSchemaName schema := by decide
  have longerFirst : ListsLongerFirst (suffixes.map asciiUpper) := by decide
  exact ⟨shapes, isName,
    (suffixes_stripped_alike_iff shapes).2.mpr longerFirst schema isName,
    by decide +kernel⟩

/--
A shorter suffix that is listed first, and a suffix with a letter beyond
ASCII: the name of the schema and its mention lose different suffixes.
-/
theorem suffixes_stripped_apart :
    let shorterFirst : List Text := ["_B".toList, "_A_B".toList]
    let longS : List Text := ["_ſ".toList]
    (∀ suffix ∈ shorterFirst, IsEnvironmentSuffix suffix) ∧
      IsSchemaName "X_A_B".toList ∧
      identifier ((Substitution.ofTokens [] shorterFirst).apply "X_A_B") =
        "X".toList ∧
      schemaIdentifier shorterFirst "X_A_B" = "X_A".toList ∧
      IsSchemaName "X_S".toList ∧
      identifier ((Substitution.ofTokens [] longS).apply "X_S") =
        "X".toList ∧
      schemaIdentifier longS "X_S" = "X_S".toList := by
  decide +kernel

end Snowform.Terraform
