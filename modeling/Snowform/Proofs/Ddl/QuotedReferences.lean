import Snowform.Proofs.Ddl.QuotedLists
import Snowform.Proofs.Ddl.References
import Snowform.Proofs.Text.Respacing

/-!
# References that are written with quotes

The table of a reference is up to three quoted names with dots between them,
and its columns are a list of quoted names in parentheses.  The scan for the
end of the table passes over the first name whatever it is; a name behind a
dot counts as one without quotes and ends at a blank or a parenthesis.
-/

namespace Snowform

open Text Lexical

/-! ## Keywords -/

/-- A word in capitals is recognised as itself. -/
theorem keyword?_self_append {word : Text}
    (capitals : word.map Char.toUpper = word) (rest : Text) :
    keyword? word (word ++ rest) = some rest := by
  induction word with
  | nil => rfl
  | cons letter letters ih =>
      rw [List.map_cons, List.cons.injEq] at capitals
      have same : isKeywordLetter letter letter = true := by
        rw [isKeywordLetter, capitals.1, beq_self_eq_true]
        rfl
      rw [List.cons_append, keyword?]
      exact (if_pos same).trans (ih capitals.2)

/-- A keyword is read with the blank behind it. -/
theorem keyword?_blanks?_append {word : Text}
    (capitals : word.map Char.toUpper = word) {first : Char}
    (visible : isBlank first = false) (rest : Text) :
    (keyword? word (word ++ ' ' :: first :: rest) >>= blanks?) =
      some (first :: rest) := by
  have blank : isBlank ' ' = true := by decide
  rw [keyword?_self_append capitals, Option.bind_eq_bind, Option.bind_some]
  refine (if_pos blank).trans (congrArg some ?_)
  rw [skipBlanks_cons_blank blank, skipBlanks_cons_visible visible]

/-! ## Joined names -/

theorem listed_eq (names : List Text) :
    listed [] names = (", " : Text).intercalate (names.map quotedName) := by
  rw [listed]
  simp

/-- Blanks may be made alike before or after a name is quoted. -/
theorem respaced_quotedName_append (name rest : Text) :
    respaced (quotedName name ++ rest) =
      quotedName (respaced name) ++ respaced rest := by
  have quote : isBlank '"' = false := by decide
  have inside : respaced (doubled name) = doubled (respaced name) := by
    induction name with
    | nil => rfl
    | cons character others ih =>
        by_cases same : character = '"'
        · rw [same, doubled_cons_quote, respaced_cons_visible quote,
            respaced_cons_visible quote, respaced_cons_visible quote, ih]
          rfl
        · have head : (doubled others).head? = others.head? := by
            cases others with
            | nil => rfl
            | cons second more =>
                by_cases double : second = '"'
                · rw [double]
                  rfl
                · rw [doubled_cons double]
                  rfl
          rw [doubled_cons same, respaced, respaced, head, ih]
          split
          · split
            · rfl
            · rw [doubled_cons (by decide)]
          · rw [doubled_cons same]
  rw [quotedName, List.cons_append, List.append_assoc, List.singleton_append,
    respaced_cons_visible quote, respaced_append_cons quote, inside, quotedName,
    List.cons_append, List.append_assoc, List.singleton_append]

/-- Names are respaced one by one if what stands between them stays. -/
theorem respaced_intercalate {separator : Text}
    (stays : ∀ text, respaced (separator ++ '"' :: text) =
      separator ++ respaced ('"' :: text)) (names : List Text) (rest : Text) :
    respaced (separator.intercalate (names.map quotedName) ++ rest) =
      separator.intercalate ((names.map respaced).map quotedName) ++
        respaced rest := by
  induction names with
  | nil => rfl
  | cons first others ih =>
      cases others with
      | nil =>
          rw [List.map_singleton, List.map_singleton, List.map_singleton,
            List.intercalate_singleton, List.intercalate_singleton,
            respaced_quotedName_append]
      | cons second more =>
          obtain ⟨text, starts⟩ : ∃ text,
              separator.intercalate ((second :: more).map quotedName) ++ rest =
                '"' :: text := by
            cases more <;> exact ⟨_, rfl⟩
          rw [starts] at ih
          rw [List.map_cons, List.map_cons, List.intercalate_cons_cons,
            ← List.map_cons, List.append_assoc, List.append_assoc, starts,
            respaced_quotedName_append, stays, ih]
          simp only [List.map_cons, List.intercalate_cons_cons,
            List.append_assoc]

/-- Names that are joined end in the quote of the last one. -/
theorem getLast?_intercalate (separator first : Text) (others : List Text) :
    (separator.intercalate ((first :: others).map quotedName)).getLast? =
      some '"' := by
  induction others generalizing first with
  | nil =>
      rw [List.map_singleton, List.intercalate_singleton, getLast?_quotedName]
  | cons second rest ih =>
      rw [List.map_cons, List.map_cons, List.intercalate_cons_cons,
        ← List.map_cons, List.getLast?_append, ih, Option.some_or]

/-! ## Qualified names -/

namespace QualifiedName

/-- The parts that are there, database first. -/
def parts (name : QualifiedName) : List Text :=
  name.database.toList ++ (name.schema.toList ++ [name.name])

/-- The parts between double quotes, with dots between them. -/
def quoted (name : QualifiedName) : Text :=
  ['.'].intercalate (name.parts.map quotedName)

/-- The name with single blanks in its parts. -/
def respaced (name : QualifiedName) : QualifiedName where
  database := name.database.map Text.respaced
  schema := name.schema.map Text.respaced
  name := Text.respaced name.name

theorem parts_respaced (name : QualifiedName) :
    name.respaced.parts = name.parts.map Text.respaced := by
  obtain ⟨database, schema, last⟩ := name
  cases database <;> cases schema <;> rfl

theorem respaced_quoted_append (name : QualifiedName) (rest : Text) :
    Text.respaced (name.quoted ++ rest) =
      name.respaced.quoted ++ Text.respaced rest := by
  rw [quoted, respaced_intercalate _ name.parts rest, quoted, parts_respaced]
  exact fun text => respaced_cons_visible (by decide) _

/-- Quoted parts with dots between them are cut at these dots. -/
theorem dotted_intercalate (first : Text) (others : List Text) :
    dotted (['.'].intercalate ((first :: others).map quotedName)) =
      (first :: others).map quotedName := by
  change pieces dotSeparates quoteAdvances false _ = _
  induction others generalizing first with
  | nil =>
      have alone := pieces_quotedName first []
      rw [List.append_nil, pieces, foldr_consFirst, List.append_nil] at alone
      rw [List.map_singleton, List.intercalate_singleton, alone]
  | cons second rest ih =>
      have dot : pieces dotSeparates quoteAdvances false
          ('.' :: ['.'].intercalate ((second :: rest).map quotedName)) =
            [] :: (second :: rest).map quotedName :=
        congrArg (List.cons []) (ih second)
      rw [List.map_cons, List.map_cons, List.intercalate_cons_cons,
        List.append_assoc, List.singleton_append, pieces_quotedName,
        ← List.map_cons, dot, foldr_consFirst, List.append_nil]

theorem exists_parts_eq_cons (name : QualifiedName) :
    ∃ first others, name.parts = first :: others := by
  obtain ⟨database, schema, last⟩ := name
  cases database <;> cases schema <;> exact ⟨_, _, rfl⟩

theorem exists_quoted_eq_cons (name : QualifiedName) :
    ∃ text, name.quoted = '"' :: text := by
  obtain ⟨first, others, all⟩ := name.exists_parts_eq_cons
  rw [quoted, all]
  cases others <;> exact ⟨_, rfl⟩

theorem trim_intercalate_quotedName (first : Text) (others : List Text) :
    trim (['.'].intercalate ((first :: others).map quotedName)) =
      ['.'].intercalate ((first :: others).map quotedName) := by
  have starts : (['.'].intercalate
      ((first :: others).map quotedName)).head? = some '"' := by
    cases others <;> rfl
  exact trim_of_ends starts (getLast?_intercalate ['.'] first others)
    (by decide)

/-- A quoted name of several parts has no blanks around it. -/
theorem trim_quoted (name : QualifiedName) :
    trim name.quoted = name.quoted := by
  obtain ⟨first, others, all⟩ := name.exists_parts_eq_cons
  rw [quoted, all, trim_intercalate_quotedName]

/-- A name whose database is given has a schema, too. -/
def IsRegular (name : QualifiedName) : Prop :=
  name.database.isSome → name.schema.isSome

/-- A name that is written with quotes is read back. -/
theorem ofText_quoted {name : QualifiedName} (regular : name.IsRegular) :
    ofText name.quoted = name := by
  obtain ⟨first, others, all⟩ := name.exists_parts_eq_cons
  have cut : (dotted name.quoted).map unquote = name.parts := by
    rw [quoted, all, dotted_intercalate, List.map_map]
    simp [Function.comp_def, unquote_quotedName]
  rw [ofText, trim_quoted, cut]
  obtain ⟨database, schema, last⟩ := name
  cases database <;> cases schema
  · rfl
  · rfl
  · exact absurd (regular rfl) Bool.false_ne_true
  · rfl

end QualifiedName

/-! ## The end of a referenced table -/

/-- A quoted part ends at the first quote that is not doubled. -/
theorem afterTarget_doubled (name rest : Text) :
    afterTarget .quoted (doubled name ++ '"' :: rest) =
      afterTarget .fresh rest := by
  induction name with
  | nil => rfl
  | cons character others ih =>
      by_cases quote : character = '"'
      · have closed : (doubled others ++ '"' :: rest).contains '"' = true := by
          simp
        have blank : endsBareName '"' = false := by decide
        rw [quote, doubled_cons_quote, List.cons_append, List.cons_append,
          afterTarget, if_pos rfl, afterTarget, blank,
          if_neg Bool.false_ne_true, if_pos ⟨rfl, closed⟩, ih]
      · rw [doubled_cons quote, List.cons_append, afterTarget, if_neg quote, ih]

/-- A quoted name is passed over, whatever is in it. -/
theorem afterTarget_quotedName (name rest : Text) :
    afterTarget .fresh (quotedName name ++ rest) = afterTarget .fresh rest := by
  have closed : (doubled name ++ '"' :: rest).contains '"' = true := by simp
  have blank : endsBareName '"' = false := by decide
  rw [quotedName, List.cons_append, List.append_assoc, List.singleton_append,
    afterTarget, blank, if_neg Bool.false_ne_true, if_pos ⟨rfl, closed⟩,
    afterTarget_doubled]

/-- A text in which no name without quotes ends. -/
def IsBare (text : Text) : Prop :=
  ∀ character ∈ text, endsBareName character = false

instance (text : Text) : Decidable (IsBare text) :=
  List.decidableBAll _ text

theorem IsBare.append {first second : Text} (firstBare : IsBare first)
    (secondBare : IsBare second) : IsBare (first ++ second) :=
  List.forall_mem_append.mpr ⟨firstBare, secondBare⟩

/-- A bare text stays bare in quotes. -/
theorem IsBare.quotedName {name : Text} (bare : IsBare name) :
    IsBare (quotedName name) := by
  have quote : endsBareName '"' = false := by decide
  refine List.forall_mem_cons.mpr ⟨quote, List.forall_mem_append.mpr
    ⟨fun character member => bare character (mem_doubled.mp member),
      List.forall_mem_singleton.mpr quote⟩⟩

/-- A bare text ends at the first character that ends names. -/
theorem afterTarget_bare {text : Text} (bare : IsBare text) {character : Char}
    (ends : endsBareName character = true) (rest : Text) :
    afterTarget .bare (text ++ character :: rest) = character :: rest := by
  induction text with
  | nil => rw [List.nil_append, afterTarget, if_pos ends]
  | cons first others ih =>
      have parts := List.forall_mem_cons.mp bare
      rw [List.cons_append, afterTarget, parts.1, if_neg Bool.false_ne_true,
        ih parts.2]

/--
The end of a table is found if its parts behind a dot are bare: they are read
as if they had no quotes.
-/
theorem afterTarget_quoted {name : QualifiedName}
    (bare : ∀ part ∈ name.parts.tail, IsBare part) (rest : Text) :
    afterTarget .fresh (name.quoted ++ ' ' :: rest) = ' ' :: rest := by
  have ends : afterTarget .fresh (' ' :: rest) = ' ' :: rest := by
    rw [afterTarget, if_pos (by decide)]
  rw [QualifiedName.quoted]
  cases all : name.parts with
  | nil => exact ends
  | cons first others =>
      rw [all, List.tail_cons] at bare
      cases others with
      | nil =>
          rw [List.map_singleton, List.intercalate_singleton,
            afterTarget_quotedName, ends]
      | cons second more =>
          have behind : IsBare
              (['.'].intercalate ((second :: more).map quotedName)) := by
            refine intercalate_induction (List.forall_mem_nil _)
              (fun _ _ => IsBare.append) (by decide) ?_
            intro text member
            obtain ⟨part, known, rfl⟩ := List.mem_map.mp member
            exact (bare part known).quotedName
          rw [List.map_cons, List.map_cons, List.intercalate_cons_cons,
            ← List.map_cons, List.append_assoc, List.append_assoc,
            afterTarget_quotedName]
          exact afterTarget_bare behind (by decide) rest

/-! ## References -/

namespace ForeignKeyTarget

/-- A target as it is written behind the keyword of a reference. -/
def written (target : ForeignKeyTarget) : Text :=
  target.table.quoted ++ ' ' :: '(' :: (listed [] target.columns ++ [')'])

theorem exists_written_eq_cons (target : ForeignKeyTarget) :
    ∃ text, target.written = '"' :: text := by
  obtain ⟨text, starts⟩ := target.table.exists_quoted_eq_cons
  rw [written, starts]
  exact ⟨_, rfl⟩

theorem getLast?_written (target : ForeignKeyTarget) :
    target.written.getLast? = some ')' := by
  have whole : target.written =
      (target.table.quoted ++ ' ' :: '(' :: listed [] target.columns) ++
        [')'] := by
    simp [written]
  rw [whole, List.getLast?_concat]

/-- The target with single blanks in its names. -/
def respaced (target : ForeignKeyTarget) : ForeignKeyTarget where
  table := target.table.respaced
  columns := target.columns.map Text.respaced

/-- A target that can be written so that it is read back. -/
structure IsLegible (target : ForeignKeyTarget) : Prop where
  regular : target.table.IsRegular
  bare : ∀ part ∈ target.table.parts.tail, IsBare part
  filled : ∀ column ∈ target.columns, column ≠ []

/-- Blanks may be made alike before or after a target is written. -/
theorem respaced_written_append (target : ForeignKeyTarget) (rest : Text) :
    Text.respaced (target.written ++ rest) =
      target.respaced.written ++ Text.respaced rest := by
  have comma : ∀ text, Text.respaced ((", " : Text) ++ '"' :: text) =
      (", " : Text) ++ Text.respaced ('"' :: text) := by
    intro text
    exact (respaced_cons_visible (by decide) _).trans
      (congrArg (List.cons ',') (respaced_cons_blank (by decide) (by decide) _))
  have opening : isBlank '(' = false := by decide
  rw [written, List.append_assoc, QualifiedName.respaced_quoted_append,
    List.cons_append, List.cons_append, List.append_assoc,
    respaced_cons_blank (by decide) opening, respaced_cons_visible opening,
    listed_eq, respaced_intercalate comma, List.singleton_append,
    respaced_cons_visible (by decide), written, listed_eq]
  simp only [respaced, List.append_assoc, List.cons_append, List.nil_append]

/-- A legible target stays legible when its blanks are made alike. -/
theorem IsLegible.respaced {target : ForeignKeyTarget}
    (legible : target.IsLegible) : target.respaced.IsLegible where
  regular := by
    have regular := legible.regular
    rw [QualifiedName.IsRegular] at regular ⊢
    simpa only [ForeignKeyTarget.respaced, QualifiedName.respaced,
      Option.isSome_map] using regular
  bare := by
    have bare : ∀ part ∈ target.table.parts.tail,
        IsBare (Text.respaced part) := by
      intro part member
      have whole := legible.bare part member
      rwa [respaced_of_visible fun character inside =>
        (Bool.or_eq_false_iff.mp (whole character inside)).1]
    rw [ForeignKeyTarget.respaced, QualifiedName.parts_respaced,
      ← List.map_tail]
    exact List.forall_mem_map.mpr bare
  filled := by
    rw [ForeignKeyTarget.respaced]
    exact List.forall_mem_map.mpr fun column member =>
      respaced_ne_nil (legible.filled column member)

end ForeignKeyTarget

/-- A reference to a target, behind which a text follows. -/
def reference (target : Text) : Text :=
  ("REFERENCES" : Text) ++ ' ' :: target

theorem reference_append (target rest : Text) :
    reference target ++ rest = reference (target ++ rest) :=
  List.append_assoc ("REFERENCES" : Text) (' ' :: target) rest

/-- Blanks may be made alike before or after a reference is written. -/
theorem respaced_reference {first : Char} (visible : isBlank first = false)
    (rest : Text) : respaced (reference (first :: rest)) =
      reference (respaced (first :: rest)) := by
  have keyword : ∀ character ∈ ("REFERENCES" : Text),
      isBlank character = false := visible_of_any (by decide)
  exact (respaced_append_of_visible keyword _).trans
    (congrArg (fun text => ("REFERENCES" : Text) ++ text)
      (respaced_cons_blank (by decide) visible rest))

theorem getLast?_reference {target : Text} {last : Char}
    (ends : target.getLast? = some last) :
    (reference target).getLast? = some last := by
  have behind : (' ' :: target).getLast? = some last := by
    rw [List.getLast?_cons, ends]
    rfl
  exact (List.getLast?_append_cons ("REFERENCES" : Text) ' ' target).trans
    behind

/-- What is read of a reference, given where its table ends. -/
theorem readReferences?_of_table {first : Char} {table behind : Text}
    (visible : isBlank first = false)
    (ends : afterTarget .fresh (first :: table ++ behind) = behind) :
    readReferences? (reference (first :: table ++ behind)) =
      if startsWith (· == '(') (skipBlanks behind) then
        .ok ((parenthesised? (skipBlanks behind)).map fun parts =>
          (⟨QualifiedName.ofText (trim (first :: table)),
            identifierList parts.1⟩, parts.2))
      else
        .ok (some (⟨QualifiedName.ofText (trim (first :: table)), []⟩,
          behind)) := by
  have start : skipBlanks (reference (first :: table ++ behind)) =
      reference (first :: table ++ behind) :=
    skipBlanks_cons_visible (by decide) _
  have found : (keyword? "REFERENCES" (reference (first :: table ++ behind)) >>=
      blanks?) = some (first :: table ++ behind) :=
    keyword?_blanks?_append (by decide) visible _
  have longer : behind.length ≠ (first :: table ++ behind).length := by
    rw [List.length_append, List.length_cons]
    omega
  have cut : dropBytes? referencesWidth
      (upTo (reference (first :: table ++ behind)) behind) =
        some (' ' :: first :: table) := by
    have whole : reference (first :: table ++ behind) =
        (("REFERENCES" : Text) ++ ' ' :: first :: table) ++ behind :=
      (List.append_assoc ("REFERENCES" : Text) (' ' :: first :: table)
        behind).symm
    have width : byteSize ("REFERENCES" : Text) = referencesWidth := by decide
    rw [whole, upTo_append, ← width, dropBytes?_byteSize]
  rw [readReferences?]
  dsimp only
  rw [start, found]
  dsimp only
  rw [ends, if_neg longer, cut]
  dsimp only
  rw [trim_cons_blank]

/-- What is read of a reference, given where its table and its list end. -/
theorem readReferences?_of_ends {first : Char} {table behind inside rest : Text}
    (visible : isBlank first = false)
    (ends : afterTarget .fresh (first :: table ++ behind) = behind)
    (list : parenthesised? (skipBlanks behind) = some (inside, rest)) :
    readReferences? (reference (first :: table ++ behind)) =
      .ok (some (⟨QualifiedName.ofText (trim (first :: table)),
        identifierList inside⟩, rest)) := by
  have opens : startsWith (· == '(') (skipBlanks behind) = true := by
    cases equal : skipBlanks behind with
    | nil =>
        rw [equal] at list
        cases list
    | cons character others =>
        rw [equal] at list
        by_cases opening : character = '('
        · rw [opening]
          rfl
        · have none : character? '(' (character :: others) = none :=
            if_neg opening
          rw [parenthesised?, none] at list
          cases list
  rw [readReferences?_of_table visible ends, if_pos opens, list]
  rfl

/-- A blank in front of a reference does not matter. -/
theorem readReferences?_cons_blank (text : Text) :
    readReferences? (' ' :: text) = readReferences? text := by
  rw [readReferences?, readReferences?, skipBlanks_cons_blank (by decide)]

/-- A reference is read back, whatever follows it. -/
theorem readReferences?_written {target : ForeignKeyTarget}
    (legible : target.IsLegible) (rest : Text) :
    readReferences? (reference (target.written ++ rest)) =
      .ok (some (target, rest)) := by
  obtain ⟨table, columns⟩ := target
  let list : Text := '(' :: (listed [] columns ++ ')' :: rest)
  have whole : (ForeignKeyTarget.written ⟨table, columns⟩) ++ rest =
      table.quoted ++ ' ' :: list := by
    simp [ForeignKeyTarget.written, list]
  obtain ⟨text, starts⟩ := table.exists_quoted_eq_cons
  have after := afterTarget_quoted legible.bare list
  have balanced : IsBalanced (listed [] columns) :=
    isBalanced_listed (List.forall_mem_nil _) columns
  have inside : parenthesised? (skipBlanks (' ' :: list)) =
      some (listed [] columns, rest) := by
    have parts : parenthesised? list = some (listed [] columns, rest) :=
      balanced.parenthesised?_eq rfl rfl rest
    rw [skipBlanks_cons_blank (by decide), skipBlanks_cons_visible (by decide),
      parts]
  have names : identifierList (listed [] columns) = columns :=
    identifierList_listed legible.filled
  rw [starts] at after
  rw [whole, starts, readReferences?_of_ends (by decide) after inside, ← starts,
    QualifiedName.trim_quoted, QualifiedName.ofText_quoted legible.regular,
    names]

end Snowform
