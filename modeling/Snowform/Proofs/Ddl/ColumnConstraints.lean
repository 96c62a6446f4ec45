import Snowform.Proofs.Ddl.QuotedReferences
import Snowform.Proofs.Ddl.UnbrokenNames

/-!
# Constraints on one column

A constraint on one column may be written behind the column or as an entry of
its own.  An entry is read as it is written.  What stands behind a column is
cut into words and joined again with single blanks, so that both forms say the
same exactly if no name has blanks that this changes.
-/

namespace Snowform

open Text Lexical

/-! ## Words behind a text -/

/-- Words, each with a blank in front of it. -/
def spaced (list : List Text) : Text :=
  list.flatMap fun word => ' ' :: word

section

variable {list : List Text} (all : ∀ word ∈ list, IsWord word)

include all

/-- Flags behind a text are its last words. -/
theorem words_append_spaced (text : Text) :
    words (text ++ spaced list) = words text ++ list := by
  induction list generalizing text with
  | nil => simp [spaced]
  | cons word others ih =>
      rw [List.forall_mem_cons] at all
      have next : text ++ spaced (word :: others) =
          (text ++ ' ' :: word) ++ spaced others := by
        simp [spaced]
      rw [next, ih all.2, words_append_blank (by decide),
        words_of_isWord all.1, List.append_assoc, List.singleton_append]

/-- Flags are read as their words. -/
theorem words_spaced : words (spaced list) = list :=
  words_append_spaced all []

/-- Flags stand one blank apart. -/
theorem respaced_spaced : respaced (spaced list) = spaced list := by
  induction list with
  | nil => rfl
  | cons word others ih =>
      rw [List.forall_mem_cons] at all
      have next : spaced (word :: others) = ' ' :: (word ++ spaced others) :=
        rfl
      obtain ⟨first, rest, parts⟩ := List.exists_cons_of_ne_nil all.1.1
      have visible : isBlank first = false :=
        all.1.2 first (parts ▸ List.mem_cons_self)
      rw [next]
      nth_rewrite 1 [parts]
      rw [List.cons_append, respaced_cons_blank (by decide) visible,
        ← List.cons_append, ← parts, respaced_append_of_visible all.1.2,
        ih all.2]

theorem visible_append_spaced {text : Text}
    (ends : ∀ last ∈ text.getLast?, isBlank last = false) :
    ∀ last ∈ (text ++ spaced list).getLast?, isBlank last = false := by
  induction list generalizing text with
  | nil => simpa [spaced] using ends
  | cons word others ih =>
      rw [List.forall_mem_cons] at all
      have next : text ++ spaced (word :: others) =
          (text ++ ' ' :: word) ++ spaced others := by
        simp [spaced]
      rw [next]
      refine ih all.2 fun last final => ?_
      have known := List.getLast?_eq_some_getLast all.1.1
      rw [List.getLast?_append_cons, List.getLast?_cons, known] at final
      cases final
      exact all.1.2 _ (List.getLast_mem all.1.1)

end

/-! ## Flags -/

namespace ConstraintFlags

theorem readAll_cons (flags : ConstraintFlags) (word : Text)
    (others : List Text) :
    flags.readAll (word :: others) =
      match flags.read? word others.head? with
      | some (changed, true) => changed.readAll others.tail
      | some (changed, false) => changed.readAll others
      | none => flags.readAll others := by
  cases others with
  | nil =>
      simp only [readAll, List.head?_nil, List.tail_nil]
      cases flags.read? word none with
      | none => rfl
      | some parts =>
          obtain ⟨changed, both⟩ := parts
          cases both <;> rfl
  | cons next rest => rfl

end ConstraintFlags

/-- The words that start options other than flags. -/
def optionWords : List Text :=
  ["NULL", "DEFAULT", "COMMENT", "COLLATE", "CONSTRAINT", "PRIMARY", "UNIQUE",
    "REFERENCES"]

/-- A word such as `RELY` or `NOT`, which starts no option but a flag. -/
structure IsFlagWord (word : Text) : Prop where
  isWord : IsWord word
  other : asciiUpper word ∉ optionWords

namespace Column.Progress

/-- Flag words are read as flags of the last constraint. -/
theorem readOption_flag {word : Text} (flag : IsFlagWord word)
    {others : List Text} (next : ∀ word ∈ others.head?, IsFlagWord word)
    (progress : Progress) :
    progress.readOption word others = .ok (progress.readOther word others) := by
  have other := flag.other
  have notNull : others.head?.map asciiUpper ≠ some "NULL" := by
    cases others with
    | nil => exact nofun
    | cons second rest =>
        intro same
        have absent := (next second rfl).other
        rw [Option.some.inj same] at absent
        exact absent (by decide)
  simp only [optionWords, List.mem_cons, List.not_mem_nil, or_false,
    not_or] at other
  rw [readOption]
  simp only [other, notNull, false_and, and_false, if_false]

/-- One option is read and then the others. -/
theorem readOptions_of_readOption {progress changed : Progress} {word : Text}
    {others : List Text} {used : Nat}
    (read : progress.readOption word others = .ok (changed, used)) :
    progress.readOptions 0 (word :: others) =
      changed.readOptions used others := by
  rw [readOptions, read]
  rfl

/-- Words that an option has used are passed over. -/
theorem readOptions_used (progress : Progress) (used rest : List Text) :
    progress.readOptions used.length (used ++ rest) =
      progress.readOptions 0 rest := by
  induction used with
  | nil => rfl
  | cons word others ih => exact ih

/-- A word behind a constraint is read as its flags are read elsewhere. -/
theorem exists_readOther {progress : Progress} {last : DraftConstraint}
    (single : progress.entry.constraints = [last]) (word : Text)
    (others : List Text) :
    ∃ changed flags used, progress.readOther word others = (changed, used) ∧
      changed.entry.constraints = [{ last with flags := flags }] ∧
      flags.readAll (others.drop used) =
        last.flags.readAll (word :: others) := by
  rw [ConstraintFlags.readAll_cons]
  cases read : last.flags.read? word others.head? with
  | none =>
      have skips : progress.readFlag? word others.head? = none := by
        rw [readFlag?, single]
        exact Option.map_eq_none_iff.mpr read
      refine ⟨{ progress with
        entry := { progress.entry with
          skipped := progress.entry.skipped ++ [word] } }, last.flags, 0, ?_,
        single, rfl⟩
      rw [readOther, skips]
  | some parts =>
      obtain ⟨flags, both⟩ := parts
      have found : progress.readFlag? word others.head? =
          some ({ progress with
            entry := { progress.entry with
              constraints := [{ last with flags := flags }] } }, both) := by
        rw [readFlag?, single]
        exact congrArg (Option.map _) read
      refine ⟨_, flags, if both then 1 else 0, by rw [readOther, found], rfl, ?_⟩
      cases both with
      | true => rw [if_pos rfl, List.drop_one]
      | false => rw [if_neg Bool.false_ne_true, List.drop_zero]

/-- Flag words behind a constraint become its flags. -/
theorem exists_readOptions_flags {list : List Text}
    (all : ∀ word ∈ list, IsFlagWord word) {progress : Progress}
    {last : DraftConstraint} (single : progress.entry.constraints = [last])
    (used : Nat) :
    ∃ changed, progress.readOptions used list = .ok changed ∧
      changed.entry.constraints =
        [{ last with flags := last.flags.readAll (list.drop used) }] := by
  induction list generalizing progress last used with
  | nil => exact ⟨progress, rfl, by rw [single, List.drop_nil]; rfl⟩
  | cons word others ih =>
      rw [List.forall_mem_cons] at all
      cases used with
      | succ used => exact ih all.2 single used
      | zero =>
          have next : ∀ word ∈ others.head?, IsFlagWord word :=
            fun second head => all.2 second (List.mem_of_mem_head? head)
          obtain ⟨changed, flags, used, read, kept, same⟩ :=
            exists_readOther single word others
          obtain ⟨result, options, constraints⟩ := ih all.2 kept used
          refine ⟨result, ?_, ?_⟩
          · have option := readOption_flag all.1 next progress
            rw [read] at option
            rw [readOptions_of_readOption option, options]
          · rw [constraints, same, List.drop_zero]

end Column.Progress

/-! ## Both forms of a constraint -/

/-- What a constraint may say of one column. -/
inductive ColumnClaim where
  | primaryKey
  | unique
  | references (target : ForeignKeyTarget)

namespace ColumnClaim

def kind : ColumnClaim → ConstraintKind
  | .primaryKey => .primaryKey
  | .unique => .unique
  | .references _ => .foreignKey

def target? : ColumnClaim → Option ForeignKeyTarget
  | .primaryKey => none
  | .unique => none
  | .references target => some target

/-- The claim behind its column. -/
def asOption : ColumnClaim → Text
  | .primaryKey => "PRIMARY KEY"
  | .unique => "UNIQUE"
  | .references target => reference target.written

/-- What stands behind the column in an entry. -/
def ending : ColumnClaim → Text
  | .primaryKey => []
  | .unique => []
  | .references target => ' ' :: reference target.written

/-- The claim as an entry that names its column. -/
def asEntry (claim : ColumnClaim) (column : Text) : Text :=
  claim.kind.keyword ++ ' ' :: '(' :: (listed [] [column] ++ ')' ::
    claim.ending)

end ColumnClaim

/-- A constraint on one column, with the words that follow it. -/
structure ColumnConstraint where
  column : Text
  name : Option Text
  claim : ColumnClaim
  flags : List Text

namespace ColumnConstraint

/-- The clause that names a constraint. -/
def naming : Option Text → Text
  | none => []
  | some name => ("CONSTRAINT" : Text) ++ ' ' :: (quotedName name ++ [' '])

/-- The column with the constraint behind it. -/
def asColumn (constraint : ColumnConstraint) : Text :=
  quotedName constraint.column ++ (typed ++ ' ' ::
    (naming constraint.name ++
      (constraint.claim.asOption ++ spaced constraint.flags)))

/-- The constraint as an entry of its own. -/
def asEntry (constraint : ColumnConstraint) : Text :=
  naming constraint.name ++
    (constraint.claim.asEntry constraint.column ++ spaced constraint.flags)

/-- What both forms say. -/
def draft (constraint : ColumnConstraint) : DraftConstraint where
  kind := constraint.claim.kind
  columns := [constraint.column]
  flags := ({} : ConstraintFlags).readAll constraint.flags
  references := constraint.claim.target?
  name := constraint.name

structure IsProper (constraint : ColumnConstraint) : Prop where
  column : constraint.column ≠ []
  named : ∀ name ∈ constraint.name, name ≠ []
  legible : ∀ target ∈ constraint.claim.target?, target.IsLegible
  flags : ∀ word ∈ constraint.flags, IsFlagWord word

end ColumnConstraint

/-! ## Entries -/

/-- A quoted name ends at the first quote that is not doubled. -/
theorem afterQuotedName?_doubled {begun : Bool} {name : Text}
    (some : begun = true ∨ name ≠ []) (rest : Text) :
    afterQuotedName? begun (doubled name ++ '"' :: ' ' :: rest) =
      .some (' ' :: rest) := by
  induction name generalizing begun with
  | nil =>
      rcases some with rfl | nonempty
      · rfl
      · exact absurd rfl nonempty
  | cons character others ih =>
      have later : afterQuotedName? true (doubled others ++ '"' :: ' ' :: rest) =
          .some (' ' :: rest) := ih (.inl rfl)
      by_cases quote : character = '"'
      · rw [quote, doubled_cons_quote, List.cons_append, List.cons_append,
          afterQuotedName?, if_pos rfl, if_pos rfl, later]
      · obtain ⟨next, behind, parts⟩ : ∃ next behind,
            doubled others ++ '"' :: ' ' :: rest = next :: behind := by
          cases doubled others <;> exact ⟨_, _, rfl⟩
        rw [parts] at later
        rw [doubled_cons quote, List.cons_append, parts, afterQuotedName?,
          if_neg quote, later]

namespace ColumnConstraint

theorem naming_append (name rest : Text) :
    naming (some name) ++ rest =
      ("CONSTRAINT" : Text) ++ ' ' :: (quotedName name ++ ' ' :: rest) :=
  (List.append_assoc ("CONSTRAINT" : Text) _ rest).trans
    (congrArg (fun text => ("CONSTRAINT" : Text) ++ ' ' :: text)
      (List.append_assoc (quotedName name) [' '] rest))

/-- The name of a constraint is read back from its clause. -/
theorem readConstraintName_naming {name : Text} (nonempty : name ≠ [])
    {first : Char} (visible : isBlank first = false) (rest : Text) :
    readConstraintName (naming (some name) ++ first :: rest) =
      (some name, first :: rest) := by
  have named : (keyword? "CONSTRAINT" (("CONSTRAINT" : Text) ++
      ' ' :: (quotedName name ++ ' ' :: first :: rest)) >>= blanks?) =
        some (quotedName name ++ ' ' :: first :: rest) :=
    keyword?_blanks?_append (by decide) (by decide) _
  have after : afterConstraintName?
      (quotedName name ++ ' ' :: first :: rest) =
        some (' ' :: first :: rest) := by
    have quoted : afterQuotedName? false
        (doubled name ++ '"' :: ' ' :: first :: rest) =
          some (' ' :: first :: rest) :=
      afterQuotedName?_doubled (.inr nonempty) _
    rw [quotedName, List.cons_append, List.append_assoc, List.singleton_append,
      afterConstraintName?]
    dsimp only
    rw [quoted, Option.some_or]
  rw [naming_append, readConstraintName, named]
  dsimp only
  rw [after]
  dsimp only
  rw [upTo_append, unquote_quotedName, skipBlanks_cons_blank (by decide),
    skipBlanks_cons_visible visible]

/-- The kind of a constraint is read from its keyword. -/
theorem readConstraintKind?_keyword (claim : ColumnClaim) (inside : Text) :
    readConstraintKind? (claim.kind.keyword ++ ' ' :: '(' :: inside) =
      some (claim.kind, '(' :: inside) := by
  cases claim <;> rfl

theorem asEntry_append (claim : ColumnClaim) (column rest : Text) :
    claim.asEntry column ++ rest =
      claim.kind.keyword ++ ' ' :: '(' ::
        (listed [] [column] ++ ')' :: (claim.ending ++ rest)) :=
  (List.append_assoc claim.kind.keyword _ rest).trans
    (congrArg (fun text => claim.kind.keyword ++ ' ' :: '(' :: text)
      (List.append_assoc (listed [] [column]) _ rest))

/-- The list of an entry is found, with what stands behind it. -/
theorem readConstraintKind?_asEntry (claim : ColumnClaim)
    (column rest : Text) :
    (do
      let (kind, list) ← readConstraintKind? (claim.asEntry column ++ rest)
      let (inside, tail) ← parenthesised? list
      return (ConstraintTerms.ofList kind inside, tail)) =
      some (ConstraintTerms.ofList claim.kind (listed [] [column]),
        claim.ending ++ rest) := by
  have balanced : IsBalanced (listed [] [column]) :=
    isBalanced_listed (List.forall_mem_nil _) _
  have parts : parenthesised?
      ('(' :: (listed [] [column] ++ ')' :: (claim.ending ++ rest))) =
        some (listed [] [column], claim.ending ++ rest) :=
    balanced.parenthesised?_eq rfl rfl _
  rw [asEntry_append, readConstraintKind?_keyword]
  exact congrArg (fun found => found >>= fun (inside, tail) =>
    some (ConstraintTerms.ofList claim.kind inside, tail)) parts

theorem getLast?_asEntry (claim : ColumnClaim) (column : Text) :
    (claim.asEntry column).getLast? = some ')' := by
  have behind : (')' :: claim.ending).getLast? = some ')' := by
    cases claim with
    | primaryKey => rfl
    | unique => rfl
    | references target =>
        rw [ColumnClaim.ending, List.getLast?_cons_cons, List.getLast?_cons,
          getLast?_reference target.getLast?_written]
        rfl
  rw [ColumnClaim.asEntry, List.getLast?_append_cons, List.getLast?_cons_cons,
    ← List.cons_append, List.getLast?_append_cons, behind]

theorem exists_asEntry_eq_cons (claim : ColumnClaim) (column rest : Text) :
    ∃ first others, isBlank first = false ∧
      claim.asEntry column ++ rest = first :: others := by
  cases claim <;> exact ⟨_, _, by decide, rfl⟩

theorem ofList_kind (claim : ColumnClaim) (inside : Text) :
    ConstraintTerms.ofList claim.kind inside =
      { kind := claim.kind, columns := identifierList inside } := by
  cases claim <;> rfl

section

variable {constraint : ColumnConstraint} (proper : constraint.IsProper)

include proper

/-- A constraint as an entry has no blanks around it. -/
theorem trim_asEntry : trim constraint.asEntry = constraint.asEntry := by
  have last : ∀ last ∈ constraint.asEntry.getLast?, isBlank last = false := by
    have closing : ∀ last ∈ (naming constraint.name ++
        constraint.claim.asEntry constraint.column).getLast?,
          isBlank last = false := by
      rw [List.getLast?_append, getLast?_asEntry]
      rintro last ⟨⟩
      decide
    rw [asEntry, ← List.append_assoc]
    exact visible_append_spaced
      (fun word member => (proper.flags word member).isWord) closing
  refine trim_eq_self ?_ last
  obtain ⟨first, others, visible, starts⟩ := exists_asEntry_eq_cons
    constraint.claim constraint.column (spaced constraint.flags)
  rw [asEntry, starts]
  cases constraint.name with
  | none =>
      rintro character ⟨⟩
      exact visible
  | some name =>
      rintro character ⟨⟩
      decide

/-- An entry starts with the name of its constraint. -/
theorem readConstraintName_asEntry :
    readConstraintName constraint.asEntry =
      (constraint.name, constraint.claim.asEntry constraint.column ++
        spaced constraint.flags) := by
  obtain ⟨first, others, visible, starts⟩ := exists_asEntry_eq_cons
    constraint.claim constraint.column (spaced constraint.flags)
  rw [asEntry]
  cases known : constraint.name with
  | none => cases constraint.claim <;> rfl
  | some name =>
      rw [starts]
      exact readConstraintName_naming (proper.named name known) visible others

/-- An entry of its own says what its constraint says. -/
theorem readConstraint?_asEntry :
    readConstraint? constraint.asEntry = .ok (some constraint.draft) := by
  have flags := words_spaced
    fun word member => (proper.flags word member).isWord
  have column : identifierList (listed [] [constraint.column]) =
      [constraint.column] :=
    identifierList_listed (List.forall_mem_singleton.mpr proper.column)
  rw [readConstraint?, trim_asEntry proper, readConstraintName_asEntry proper]
  dsimp only
  rw [readConstraintKind?_asEntry, ofList_kind, column]
  obtain ⟨written, name, claim, following⟩ := constraint
  dsimp only at flags ⊢
  cases claim with
  | primaryKey =>
      rw [if_neg (by decide), ColumnClaim.ending, List.nil_append, flags]
      rfl
  | unique =>
      rw [if_neg (by decide), ColumnClaim.ending, List.nil_append, flags]
      rfl
  | references target =>
      rw [if_pos (by rfl), ColumnClaim.ending, List.cons_append,
        readReferences?_cons_blank, reference_append,
        readReferences?_written (proper.legible target rfl)]
      exact congrArg (fun list => Except.ok (some
        ({ kind := .foreignKey
           columns := [written]
           flags := ({} : ConstraintFlags).readAll list
           references := some target
           name := name } : DraftConstraint))) flags

end

end ColumnConstraint

/-! ## Columns -/

/-- An unbroken name in quotes is one word. -/
theorem isWord_quotedName {name : Text} (unbroken : IsUnbroken name) :
    IsWord (quotedName name) := by
  have quote : isBlank '"' = false := by decide
  refine ⟨List.cons_ne_nil _ _, ?_⟩
  exact List.forall_mem_cons.mpr ⟨quote, List.forall_mem_append.mpr
    ⟨fun character member => unbroken character (mem_doubled.mp member),
      List.forall_mem_singleton.mpr quote⟩⟩

theorem words_reference (target : Text) :
    words (reference target) = ("REFERENCES" : Text) :: words target := by
  have keyword : words ("REFERENCES" : Text) = [("REFERENCES" : Text)] := by
    decide
  have parts : words (reference target) =
      words ("REFERENCES" : Text) ++ words target :=
    words_append_blank (by decide) _ _
  rw [keyword] at parts
  exact parts

/-- The words of a reference, in single blanks. -/
theorem intercalate_reference (target : ForeignKeyTarget) {flags : List Text}
    (all : ∀ word ∈ flags, IsWord word) :
    [' '].intercalate (("REFERENCES" : Text) :: (words target.written ++ flags)) =
      reference (target.respaced.written ++ spaced flags) := by
  have parts := words_reference (target.written ++ spaced flags)
  rw [words_append_spaced all] at parts
  have ends : ∀ last ∈ (reference (target.written ++ spaced flags)).getLast?,
      isBlank last = false := by
    rw [← reference_append]
    refine visible_append_spaced all ?_
    rw [getLast?_reference target.getLast?_written]
    rintro last ⟨⟩
    decide
  obtain ⟨text, starts⟩ := target.exists_written_eq_cons
  have single : respaced (reference (target.written ++ spaced flags)) =
      reference (target.respaced.written ++ spaced flags) := by
    have quote : isBlank '"' = false := by decide
    have behind := target.respaced_written_append (spaced flags)
    rw [respaced_spaced all, starts, List.cons_append] at behind
    rw [starts, List.cons_append, respaced_reference quote, behind]
  rw [← parts, ← single]
  exact intercalate_words ends

/-- A reference behind a column is read with the words that it takes. -/
theorem readOption_references {joined rest : Text} {others : List Text}
    {target : ForeignKeyTarget}
    (joins : [' '].intercalate (("REFERENCES" : Text) :: others) = joined)
    (read : readReferences? joined = .ok (some (target, rest)))
    (progress : Column.Progress) :
    progress.readOption "REFERENCES" others =
      .ok (progress.addConstraint .foreignKey (some target),
        others.length - (words rest).length) := by
  change readReferences? ([' '].intercalate (("REFERENCES" : Text) :: others))
    >>= _ = _
  rw [joins, read]
  rfl

namespace ColumnClaim

def respaced : ColumnClaim → ColumnClaim
  | .primaryKey => .primaryKey
  | .unique => .unique
  | .references target => .references target.respaced

theorem target?_respaced (claim : ColumnClaim) :
    claim.respaced.target? = claim.target?.map ForeignKeyTarget.respaced := by
  cases claim <;> rfl

theorem kind_respaced (claim : ColumnClaim) :
    claim.respaced.kind = claim.kind := by
  cases claim <;> rfl

/-- A claim behind a column is added to it, in single blanks. -/
theorem readOptions_asOption {claim : ColumnClaim}
    (legible : ∀ target ∈ claim.target?, target.IsLegible)
    {flags : List Text} (all : ∀ word ∈ flags, IsWord word)
    (progress : Column.Progress) :
    progress.readOptions 0 (words (claim.asOption ++ spaced flags)) =
      (progress.addConstraint claim.kind claim.respaced.target?).readOptions 0
        flags := by
  rw [words_append_spaced all]
  cases claim with
  | primaryKey => rfl
  | unique => rfl
  | references target =>
      have read := readReferences?_written (legible target rfl).respaced
        (spaced flags)
      have option := readOption_references (intercalate_reference target all)
        read progress
      rw [words_spaced all, List.length_append, Nat.add_sub_cancel] at option
      have whole : (ColumnClaim.references target).asOption =
          reference target.written := rfl
      rw [whole, words_reference, List.cons_append,
        Column.Progress.readOptions_of_readOption option,
        Column.Progress.readOptions_used]
      rfl

end ColumnClaim

namespace ColumnConstraint

def respaced (constraint : ColumnConstraint) : ColumnConstraint :=
  { constraint with claim := constraint.claim.respaced }

/--
Making blanks alike changes nothing of a constraint but what it references.
-/
theorem draft_respaced (constraint : ColumnConstraint) :
    constraint.respaced.draft =
      { constraint.draft with
        references :=
          constraint.claim.target?.map ForeignKeyTarget.respaced } := by
  have kind : constraint.respaced.claim.kind = constraint.claim.kind :=
    constraint.claim.kind_respaced
  rw [draft, kind, draft, ← ColumnClaim.target?_respaced]
  rfl

/--
A constraint is the same with its blanks made alike if and only if its target
is.
-/
theorem draft_respaced_eq_iff (constraint : ColumnConstraint) :
    constraint.respaced.draft = constraint.draft ↔
      ∀ target ∈ constraint.claim.target?, target.respaced = target := by
  have references : constraint.draft.references = constraint.claim.target? :=
    rfl
  rw [draft_respaced]
  constructor
  · intro same target known
    have targets := congrArg
      (fun draft => draft.toConstraintTerms.references) same
    dsimp only at targets
    rw [references, known] at targets
    exact Option.some.inj targets
  · intro all
    cases known : constraint.claim.target? with
    | none =>
        rw [known] at references
        rw [Option.map_none, ← references]
    | some target =>
        rw [known] at references
        rw [Option.map_some, all target known, ← references]

/-- The name of a constraint is kept for the option behind it. -/
theorem readOptions_naming {name : Option Text}
    (unbroken : ∀ text ∈ name, IsUnbroken text)
    (entry : ColumnEntry) (rest : Text) :
    Column.Progress.readOptions ⟨entry, none⟩ 0 (words (naming name ++ rest)) =
      Column.Progress.readOptions ⟨entry, name⟩ 0 (words rest) := by
  cases name with
  | none => rfl
  | some name =>
      have named := words_of_isWord (isWord_quotedName (unbroken name rfl))
      have words : words (naming (some name) ++ rest) =
          ("CONSTRAINT" : Text) :: quotedName name :: words rest := by
        rw [naming_append, words_append_blank (by decide),
          words_append_blank (by decide), named]
        rfl
      have read : Column.Progress.readOptions ⟨entry, none⟩ 0
          (("CONSTRAINT" : Text) :: quotedName name :: Text.words rest) =
            Column.Progress.readOptions
              ⟨entry, some (unquote (quotedName name))⟩ 0 (Text.words rest) :=
        rfl
      rw [words, read, unquote_quotedName]

/-- The words that a constraint behind a column may start with. -/
theorem exists_words_eq_cons (name : Option Text) (claim : ColumnClaim)
    {flags : List Text} (all : ∀ word ∈ flags, IsWord word) :
    ∃ word others, words (naming name ++ (claim.asOption ++ spaced flags)) =
        word :: others ∧
      word ∈ (["CONSTRAINT", "PRIMARY", "UNIQUE", "REFERENCES"] : List Text) := by
  cases name with
  | some name =>
      rw [naming_append, words_append_blank (by decide)]
      exact ⟨"CONSTRAINT", _, rfl, by decide⟩
  | none =>
      have parts : words (naming none ++ (claim.asOption ++ spaced flags)) =
          words claim.asOption ++ flags := words_append_spaced all _
      rw [parts]
      cases claim with
      | primaryKey => exact ⟨"PRIMARY", _, rfl, by decide⟩
      | unique => exact ⟨"UNIQUE", _, rfl, by decide⟩
      | references target =>
          have whole : (ColumnClaim.references target).asOption =
              reference target.written := rfl
          rw [whole, words_reference]
          exact ⟨"REFERENCES", _, rfl, by decide⟩

/-- A type of one word ends in front of an option. -/
theorem readType_typed {word : Text} (others : List Text)
    (starts : word ∈
      (["CONSTRAINT", "PRIMARY", "UNIQUE", "REFERENCES"] : List Text)) :
    Column.readType "INT" (word :: others) =
      (("INT" : Text), word :: others) := by
  simp only [List.mem_cons, List.not_mem_nil, or_false] at starts
  rcases starts with rfl | rfl | rfl | rfl <;> rfl

/-- A column starts with its name, and the words behind it are its options. -/
theorem entryWords_quotedName_append (name : Text) {after : Text}
    (single : after.head? ≠ some '"')
    (ends : ∀ last ∈ after.getLast?, isBlank last = false) :
    Column.entryWords (quotedName name ++ after) =
      quotedName name :: words after := by
  rw [Column.entryWords, trim_quotedName_append_of_ends name ends,
    leadingIdentifier_quotedName_append name single]
  rfl

theorem visible_asOption (claim : ColumnClaim) {flags : List Text}
    (all : ∀ word ∈ flags, IsWord word) (before : Text) :
    ∀ last ∈ (before ++ (claim.asOption ++ spaced flags)).getLast?,
      isBlank last = false := by
  obtain ⟨final, ends, visible⟩ : ∃ final,
      claim.asOption.getLast? = some final ∧ isBlank final = false := by
    cases claim with
    | primaryKey => exact ⟨'Y', rfl, by decide⟩
    | unique => exact ⟨'E', rfl, by decide⟩
    | references target =>
        exact ⟨')', getLast?_reference target.getLast?_written, by decide⟩
  rw [← List.append_assoc]
  refine visible_append_spaced all ?_
  rw [List.getLast?_append, ends]
  rintro last ⟨⟩
  exact visible

section

variable {constraint : ColumnConstraint} (proper : constraint.IsProper)

include proper

/-- A constraint in a column stands behind the name and the type. -/
theorem entryWords_asColumn :
    Column.entryWords constraint.asColumn =
      quotedName constraint.column :: ("INT" : Text) ::
        words (naming constraint.name ++
          (constraint.claim.asOption ++ spaced constraint.flags)) := by
  have typeWords : words typed = [("INT" : Text)] := by decide
  have ends := visible_asOption constraint.claim
    (fun word member => (proper.flags word member).isWord)
    (typed ++ ' ' :: naming constraint.name)
  rw [List.append_assoc] at ends
  have blank : isBlank ' ' = true := by decide
  have parts := words_append_blank blank typed
    (naming constraint.name ++
      (constraint.claim.asOption ++ spaced constraint.flags))
  rw [typeWords] at parts
  have single : (typed ++ (' ' :: naming constraint.name ++
      (constraint.claim.asOption ++ spaced constraint.flags))).head? ≠
        some '"' :=
    show some ' ' ≠ some '"' by decide
  exact (entryWords_quotedName_append constraint.column single ends).trans
    (congrArg (List.cons _) parts)

/--
A column with a constraint behind it says what the constraint says, in single
blanks, if no blank is in the name of the constraint.
-/
theorem exists_read?_asColumn
    (unbroken : ∀ name ∈ constraint.name, IsUnbroken name) :
    ∃ entry, Column.read? constraint.asColumn = .ok (some entry) ∧
      entry.constraints = [constraint.respaced.draft] := by
  have all : ∀ word ∈ constraint.flags, IsWord word :=
    fun word member => (proper.flags word member).isWord
  obtain ⟨word, others, parts, starts⟩ := exists_words_eq_cons constraint.name
    constraint.claim all
  let column : Column := { name := constraint.column, dataType := "INT" }
  have named := readOptions_naming unbroken ⟨column, [], []⟩
    (constraint.claim.asOption ++ spaced constraint.flags)
  have claimed := ColumnClaim.readOptions_asOption proper.legible all
    ⟨⟨column, [], []⟩, constraint.name⟩
  let added := Column.Progress.addConstraint
    ⟨⟨column, [], []⟩, constraint.name⟩ constraint.claim.kind
    constraint.claim.respaced.target?
  have single : added.entry.constraints =
      [{ kind := constraint.claim.kind
         columns := [constraint.column]
         references := constraint.claim.respaced.target?
         name := constraint.name }] := rfl
  obtain ⟨progress, read, constraints⟩ :=
    Column.Progress.exists_readOptions_flags proper.flags single 0
  refine ⟨progress.entry, ?_, ?_⟩
  · rw [Column.read?, entryWords_asColumn proper, parts]
    dsimp only
    rw [readType_typed others starts, unquote_quotedName]
    dsimp only
    rw [← parts, named, claimed, read]
    rfl
  · rw [constraints, List.drop_zero, draft_respaced,
      ← ColumnClaim.target?_respaced]
    rfl

end

/-! ## Both forms -/

/-- A constraint whose names are not changed behind a column. -/
structure IsSteady (constraint : ColumnConstraint) : Prop where
  name : ∀ name ∈ constraint.name, IsUnbroken name
  target : ∀ target ∈ constraint.claim.target?, target.respaced = target

/--
A constraint is read alike behind its column and as an entry of its own
exactly if its name has no blank and the names of its reference have single
spaces at most.
-/
theorem read_alike_iff_isSteady {constraint : ColumnConstraint}
    (proper : constraint.IsProper) :
    readConstraint? constraint.asEntry = .ok (some constraint.draft) ∧
      ((∃ entry, Column.read? constraint.asColumn = .ok (some entry) ∧
        entry.constraints = [constraint.draft]) ↔ constraint.IsSteady) := by
  refine ⟨readConstraint?_asEntry proper, ?_, ?_⟩
  · rintro ⟨entry, read, single⟩
    have unbroken : ∀ name ∈ constraint.name, IsUnbroken name := by
      have all := Column.isUnbroken_of_read? read
      rw [single, List.forall_mem_singleton] at all
      exact all
    obtain ⟨other, same, constraints⟩ := exists_read?_asColumn proper unbroken
    rw [read] at same
    cases same
    rw [single] at constraints
    exact ⟨unbroken, constraint.draft_respaced_eq_iff.mp
      (List.singleton_inj.mp constraints).symm⟩
  · intro steady
    obtain ⟨entry, read, constraints⟩ :=
      exists_read?_asColumn proper steady.name
    rw [constraint.draft_respaced_eq_iff.mpr steady.target] at constraints
    exact ⟨entry, read, constraints⟩

/-- A foreign key with marks of every kind in its names, and with flags. -/
def markedReference : ColumnConstraint where
  column := "a \"b"
  name := some "K(1)\""
  claim := .references
    { table := { database := some "d b", schema := some "s", name := "t.u" }
      columns := ["x, y", "z)"] }
  flags := ["NOT", "deferrable", "INITIALLY", "deferred", "rely", "NOVALIDATE"]

/--
A reference whose names hold blanks, quotes and commas may be written either
way.
-/
theorem isProper_markedReference : markedReference.IsProper where
  column := by decide
  named := by
    rintro name ⟨⟩
    decide
  legible := by
    rintro target ⟨⟩
    exact ⟨fun _ => rfl, by decide, by decide⟩
  flags := by
    have all : ∀ word ∈ markedReference.flags,
        (word ≠ [] ∧ word.any isBlank = false) ∧
          asciiUpper word ∉ optionWords := by decide
    exact fun word member => ⟨⟨(all word member).1.1,
      visible_of_any (all word member).1.2⟩, (all word member).2⟩

/-- The same draft is read from the entry and from the column. -/
theorem read_alike_markedReference :
    readConstraint? markedReference.asEntry =
        .ok (some markedReference.draft) ∧
      ∃ entry, Column.read? markedReference.asColumn = .ok (some entry) ∧
        entry.constraints = [markedReference.draft] := by
  have steady : markedReference.IsSteady := by
    refine ⟨?_, ?_⟩
    · rintro name ⟨⟩
      exact visible_of_any (by decide)
    · rintro target ⟨⟩
      decide
  have told := read_alike_iff_isSteady isProper_markedReference
  exact ⟨told.1, told.2.mpr steady⟩

/-- A primary key whose name has a blank. -/
def spacedKey : ColumnConstraint where
  column := "id"
  name := some "My PK"
  claim := .primaryKey
  flags := []

/-- Behind its column a name ends at its first blank. -/
theorem spacedKey_loses_its_name :
    readConstraint? spacedKey.asEntry = .ok (some spacedKey.draft) ∧
      ∃ entry, Column.read? spacedKey.asColumn = .ok (some entry) ∧
        entry.constraints = [{ spacedKey.draft with name := some "My" }] := by
  refine ⟨by decide +kernel, _, rfl, by decide +kernel⟩

end ColumnConstraint

end Snowform
