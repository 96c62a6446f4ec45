import Snowform.Proofs.Terraform.Wordwise

/-!
# References as parts of a template

A body with the names of databases exchanged is a template.  Signs of the body
itself open nothing in it, since they are doubled.  The reference that stands
for a name is evaluated unless a dollar sign stands in front of the name:
together they are read as a doubled sign then.

The parts of the template are told word by word from the body, and both facts
are read off from them.
-/

namespace Snowform

open Text Lexical Hcl

/-! ## Words and what is between them -/

/--
What is made of the words of a text and of the characters between them, in
order.  A word is told whether a dollar sign stands in front of it.
-/
def Text.gatherWords {β : Type} (atWord : Bool → Text → List β)
    (between : Char → List β) (dollar : Bool) : Text → List β
  | [] => []
  | character :: rest =>
      if isWord character then
        atWord dollar (character :: rest.takeWhile isWord) ++
          gatherWords atWord between false (rest.dropWhile isWord)
      else
        between character ++
          gatherWords atWord between (character == '$') rest
termination_by text => text.length
decreasing_by
  · exact Nat.lt_succ_of_le (List.dropWhile_suffix isWord).length_le
  · exact Nat.lt_succ_self rest.length

namespace Text

section

variable {β : Type} (atWord : Bool → Text → List β) (between : Char → List β)
  (dollar : Bool)

theorem gatherWords_nil : gatherWords atWord between dollar [] = [] := by
  rw [gatherWords]

theorem gatherWords_cons {character : Char}
    (other : isWord character = false) (rest : Text) :
    gatherWords atWord between dollar (character :: rest) =
      between character ++
        gatherWords atWord between (character == '$') rest := by
  rw [gatherWords, if_neg (Bool.eq_false_iff.mp other)]

theorem gatherWords_word {word : Text} (isWordText : IsWordText word)
    {rest : Text} (ends : startsWith isWord rest = false) :
    gatherWords atWord between dollar (word ++ rest) =
      atWord dollar word ++ gatherWords atWord between false rest := by
  obtain ⟨first, others, rfl, starts, taken, dropped⟩ :=
    isWordText.exists_cons ends
  rw [List.cons_append, gatherWords, if_pos starts, taken, dropped]

end

end Text

namespace Terraform

/-! ## Names in a body -/

/-- The name of a database in a body. -/
structure NamedDatabase where
  /-- Whether a dollar sign stands directly in front of the name. -/
  behindDollar : Bool
  /-- The name as it is spelled in the body. -/
  spelling : Text
  deriving DecidableEq

/-- The name that a word of a body is, if it is one of a database. -/
def namedDatabase (databases : List Text) (dollar : Bool) (word : Text) :
    List NamedDatabase :=
  if isAnyOf databases word then [⟨dollar, word⟩] else []

/-- The names in a body behind a dollar sign or behind something else. -/
def namedDatabasesFrom (databases : List Text) (dollar : Bool) (body : Text) :
    List NamedDatabase :=
  gatherWords (namedDatabase databases) (fun _ => []) dollar body

/-- The words of a body that name one of some databases, in order. -/
def namedDatabases (databases : List Text) (body : Text) :
    List NamedDatabase :=
  namedDatabasesFrom databases false body

/-! ## Parts of a body -/

/-- What the reference is spelled behind its dollar sign. -/
def bracedReference : Text := '\x7b' :: databaseReference ++ ['\x7d']

/--
The parts that a word of a body becomes.  Behind a dollar sign the reference
is not evaluated: its own dollar sign is read together with that one.
-/
def wordParts (databases : List Text) (dollar : Bool) (word : Text) :
    List TemplatePart :=
  if isAnyOf databases word then
    if dollar then bracedReference.map .literal
    else [.live '$' databaseReference]
  else
    word.map .literal

/-- The parts of a body behind a dollar sign or behind something else. -/
def bodyParts (databases : List Text) (dollar : Bool) (body : Text) :
    List TemplatePart :=
  gatherWords (wordParts databases) (fun character => [.literal character])
    dollar body

/-- A body with signs doubled and the names of databases exchanged. -/
def withReferences (databases : List Text) (body : Text) : Text :=
  exchangeWords (fun word => (databaseWord? databases word).getD word)
    (doubleOpenings body)

section

variable {databases : List Text}

theorem apply_eq_withReferences
    (tokens : ∀ database ∈ databases, IsWordText database) (body : Text) :
    (Substitution.ofTokens databases []).apply body =
      withReferences databases body := by
  have noSuffix : orderedTokens [] = [] := by decide
  rw [apply_eq_exchangeWords tokens (List.forall_mem_nil _), noSuffix,
    withReferences]
  simp only [shortestStem?_nil, Option.getD_none, exchangeWords_self]

/-! ## Bodies character by character -/

theorem withReferences_nil (databases : List Text) :
    withReferences databases [] = [] :=
  exchangeWords_nil _

theorem withReferences_cons {character : Char}
    (other : isWord character = false) (rest : Text) :
    withReferences databases (character :: rest) =
      if isSign character ∧ rest.head? = some '\x7b' then
        character :: character :: withReferences databases rest
      else
        character :: withReferences databases rest := by
  rw [withReferences, doubleOpenings_cons]
  split_ifs with opens
  · rw [exchangeWords_cons _ other, exchangeWords_cons _ other,
      withReferences]
  · rw [exchangeWords_cons _ other, withReferences]

theorem withReferences_word {word : Text} (isWordText : IsWordText word)
    {rest : Text} (ends : startsWith isWord rest = false) :
    withReferences databases (word ++ rest) =
      (databaseWord? databases word).getD word ++
        withReferences databases rest := by
  have later : startsWith isWord (doubleOpenings rest) = false :=
    (startsWith_doubleOpenings rest).trans ends
  rw [withReferences, doubleOpenings_word isWordText.2,
    exchangeWords_word _ isWordText later, withReferences]

/-- A word becomes what starts with a dollar sign or with a word character. -/
theorem head?_withReferences_word (databases : List Text) {word : Text}
    (isWordText : IsWordText word) {rest : Text}
    (ends : startsWith isWord rest = false) :
    (withReferences databases (word ++ rest)).head? = some '$' ∨
      ∃ character, isWord character = true ∧
        (withReferences databases (word ++ rest)).head? = some character := by
  rw [withReferences_word isWordText ends, databaseWord?]
  split_ifs
  · exact .inl rfl
  · obtain ⟨first, others, rfl⟩ := List.exists_cons_of_ne_nil isWordText.1
    exact .inr ⟨first, isWordText.2 first List.mem_cons_self, rfl⟩

/-- No brace is put in front of a body. -/
theorem head?_of_head?_withReferences {body : Text}
    (brace : (withReferences databases body).head? = some '\x7b') :
    body.head? = some '\x7b' := by
  induction body using wordInduction with
  | nil => rwa [withReferences_nil] at brace
  | between character rest other _ =>
      rw [withReferences_cons other] at brace
      split at brace <;> exact brace
  | word word rest isWordText ends _ =>
      rcases head?_withReferences_word databases isWordText ends
        with dollar | ⟨first, isFirst, starts⟩
      · cases dollar.symm.trans brace
      · cases starts.symm.trans brace
        exact absurd isFirst (by decide)

/-- Signs of a body open nothing: only a reference does. -/
theorem starts_of_opensTemplate {body : Text}
    (opens : opensTemplate (withReferences databases body) = true) :
    startsWith isWord body = true ∧
      (withReferences databases body).head? = some '$' := by
  induction body using wordInduction with
  | nil =>
      rw [withReferences_nil] at opens
      cases opens
  | between character rest other _ =>
      rw [withReferences_cons other] at opens
      split at opens
      next doubled =>
        -- What is doubled is a sign, and no brace.
        obtain ⟨sign, brace⟩ := (opensTemplate_cons _ _).mp opens
        rw [Option.some.inj brace] at sign
        exact absurd sign (by decide)
      next single =>
        obtain ⟨sign, brace⟩ := (opensTemplate_cons _ _).mp opens
        exact absurd ⟨sign, head?_of_head?_withReferences brace⟩ single
  | word word rest isWordText ends _ =>
      obtain ⟨character, others, written⟩ :
          ∃ character others, withReferences databases (word ++ rest) =
            character :: others := by
        cases written : withReferences databases (word ++ rest) with
        | nil =>
            rw [written] at opens
            cases opens
        | cons character others => exact ⟨character, others, rfl⟩
      rw [written] at opens ⊢
      have sign := ((opensTemplate_cons _ _).mp opens).1
      refine ⟨startsWith_word isWordText rest, ?_⟩
      rcases head?_withReferences_word databases isWordText ends
        with dollar | ⟨first, isFirst, starts⟩
      · rwa [written] at dollar
      · rw [written, List.head?_cons] at starts
        rw [Option.some.inj starts] at sign
        exact absurd sign (not_isSign_of_isWord isFirst)

/-! ## The parts that a body becomes -/

theorem bodyParts_cons {character : Char} (dollar : Bool)
    (other : isWord character = false) (rest : Text) :
    bodyParts databases dollar (character :: rest) =
      .literal character :: bodyParts databases (character == '$') rest :=
  gatherWords_cons _ _ dollar other rest

theorem bodyParts_word (dollar : Bool) {word : Text}
    (isWordText : IsWordText word) {rest : Text}
    (ends : startsWith isWord rest = false) :
    bodyParts databases dollar (word ++ rest) =
      wordParts databases dollar word ++ bodyParts databases false rest :=
  gatherWords_word _ _ dollar isWordText ends

theorem bodyParts_nil (databases : List Text) (dollar : Bool) :
    bodyParts databases dollar [] = [] :=
  gatherWords_nil _ _ dollar

/-- A dollar sign tells nothing about what is no word. -/
theorem bodyParts_of_startsWith {body : Text}
    (noWord : startsWith isWord body = false) (dollar : Bool) :
    bodyParts databases dollar body = bodyParts databases false body := by
  cases body with
  | nil => rw [bodyParts_nil, bodyParts_nil]
  | cons character rest =>
      have other : isWord character = false := noWord
      rw [bodyParts_cons dollar other, bodyParts_cons false other]

/-- What a word becomes, with what follows it. -/
theorem templateParts_word (databases : List Text) {word : Text}
    (isWordText : IsWordText word) (rest : Text) :
    templateParts ((databaseWord? databases word).getD word ++ rest) =
      wordParts databases false word ++ templateParts rest := by
  rw [databaseWord?, wordParts]
  by_cases named : isAnyOf databases word = true
  · have noBrace : '\x7d' ∉ databaseReference := by decide
    rw [if_pos named, if_pos named]
    exact templateParts_expression noBrace rest
  · have noSigns : ∀ character ∈ word, ¬ isSign character :=
      fun character member =>
        not_isSign_of_isWord (isWordText.2 character member)
    rw [if_neg named, if_neg named]
    exact templateParts_append_plain noSigns rest

/-- What a word becomes behind a dollar sign, with what follows it. -/
theorem templateParts_dollar_word {word : Text}
    (isWordText : IsWordText word) (rest : Text) :
    templateParts ('$' :: ((databaseWord? databases word).getD word ++ rest)) =
      .literal '$' :: (wordParts databases true word ++ templateParts rest) := by
  by_cases named : isAnyOf databases word = true
  · -- The two dollar signs are read together.
    have noSigns : ∀ character ∈ databaseReference ++ ['\x7d'],
        ¬ isSign character := by
      rintro character member (rfl | rfl)
      · exact absurd member (by decide)
      · exact absurd member (by decide)
    have doubled := templateParts_doubled (.inl rfl)
      (databaseReference ++ ['\x7d'] ++ rest)
    rw [templateParts_append_plain noSigns] at doubled
    rw [databaseWord?, wordParts, if_pos named, if_pos named]
    exact doubled
  · have words := templateParts_word databases isWordText rest
    rw [databaseWord?, wordParts, if_neg named, if_neg named] at *
    obtain ⟨first, others, rfl⟩ := List.exists_cons_of_ne_nil isWordText.1
    have isFirst := isWordText.2 first List.mem_cons_self
    rw [← words]
    apply templateParts_single
    · intro brace
      cases Option.some.inj brace
      exact absurd isFirst (by decide)
    · intro behind starts
      cases (List.cons.inj starts).1
      exact absurd isFirst (by decide)

/-- A character that is neither doubled nor in front of a reference. -/
theorem templateParts_apart {character : Char} {body : Text}
    (noBrace : isSign character → body.head? ≠ some '\x7b')
    (apart : startsWith isWord body = false ∨ character ≠ '$') :
    templateParts (character :: withReferences databases body) =
      .literal character :: templateParts (withReferences databases body) := by
  by_cases sign : isSign character
  · refine templateParts_single
      (fun brace => noBrace sign (head?_of_head?_withReferences brace)) ?_
    intro others same brace
    have opens := (opensTemplate_cons character others).mpr ⟨sign, brace⟩
    rw [← same] at opens
    obtain ⟨starts, dollar⟩ := starts_of_opensTemplate opens
    rw [same, List.head?_cons, Option.some_inj] at dollar
    rcases apart with noWord | other
    · cases noWord.symm.trans starts
    · exact other dollar
  · exact templateParts_plain sign _

/--
The parts of a template are told from the body it was made of, and so they
are behind a dollar sign that opens nothing.
-/
theorem templateParts_withReferences (body : Text) :
    templateParts (withReferences databases body) =
        bodyParts databases false body ∧
      (body.head? ≠ some '\x7b' →
        templateParts ('$' :: withReferences databases body) =
          .literal '$' :: bodyParts databases true body) := by
  have behindDollar : ∀ {body : Text}, startsWith isWord body = false →
      templateParts (withReferences databases body) =
        bodyParts databases false body →
      body.head? ≠ some '\x7b' →
        templateParts ('$' :: withReferences databases body) =
          .literal '$' :: bodyParts databases true body := by
    intro body noWord parts noBrace
    rw [templateParts_apart (fun _ => noBrace) (.inl noWord), parts,
      bodyParts_of_startsWith noWord true]
  induction body using wordInduction with
  | nil =>
      have parts : templateParts (withReferences databases []) =
          bodyParts databases false [] := by
        rw [withReferences_nil, templateParts_nil, bodyParts_nil]
      exact ⟨parts, behindDollar rfl parts⟩
  | between character rest other ih =>
      have parts : templateParts (withReferences databases (character :: rest)) =
          bodyParts databases false (character :: rest) := by
        rw [withReferences_cons other, bodyParts_cons false other]
        split_ifs with opens
        · -- The sign is doubled, and the brace stands for itself.
          obtain ⟨sign, brace⟩ := opens
          obtain ⟨others, rfl⟩ := List.head?_eq_some_iff.mp brace
          have noWord : isWord '\x7b' = false := by decide
          have noStart : startsWith isWord ('\x7b' :: others) = false := noWord
          have noSign : ¬ isSign '\x7b' := by decide
          have braced : withReferences databases ('\x7b' :: others) =
              '\x7b' :: withReferences databases others := by
            rw [withReferences_cons noWord, if_neg fun both => noSign both.1]
          rw [bodyParts_of_startsWith noStart, ← ih.1, braced,
            templateParts_doubled sign, templateParts_plain noSign]
        · have noBrace : isSign character → rest.head? ≠ some '\x7b' :=
            fun sign brace => opens ⟨sign, brace⟩
          by_cases dollar : character = '$'
          · subst dollar
            exact ih.2 (noBrace (.inl rfl))
          · rw [templateParts_apart noBrace (.inr dollar), ih.1,
              beq_eq_false_iff_ne.mpr dollar]
      exact ⟨parts, behindDollar other parts⟩
  | word word rest isWordText ends ih =>
      rw [withReferences_word isWordText ends,
        templateParts_word databases isWordText,
        templateParts_dollar_word isWordText, bodyParts_word _ isWordText ends,
        bodyParts_word _ isWordText ends, ih.1]
      exact ⟨rfl, fun _ => rfl⟩

/-! ## What is evaluated, and what was there -/

theorem live_literals (text : Text) :
    (text.map TemplatePart.literal).filterMap TemplatePart.live? = [] := by
  rw [List.filterMap_map, List.filterMap_eq_nil_iff]
  exact fun _ _ => rfl

theorem namedDatabasesFrom_nil (databases : List Text) (dollar : Bool) :
    namedDatabasesFrom databases dollar [] = [] :=
  gatherWords_nil _ _ dollar

theorem namedDatabasesFrom_cons {character : Char} (dollar : Bool)
    (other : isWord character = false) (rest : Text) :
    namedDatabasesFrom databases dollar (character :: rest) =
      namedDatabasesFrom databases (character == '$') rest :=
  gatherWords_cons _ _ dollar other rest

theorem namedDatabasesFrom_word (dollar : Bool) {word : Text}
    (isWordText : IsWordText word) {rest : Text}
    (ends : startsWith isWord rest = false) :
    namedDatabasesFrom databases dollar (word ++ rest) =
      namedDatabase databases dollar word ++
        namedDatabasesFrom databases false rest :=
  gatherWords_word _ _ dollar isWordText ends

/-- A reference is evaluated for every name that is behind no dollar sign. -/
theorem live_bodyParts (dollar : Bool) (body : Text) :
    (bodyParts databases dollar body).filterMap TemplatePart.live? =
      ((namedDatabasesFrom databases dollar body).filter
        fun name => !name.behindDollar).map fun _ =>
          ('$', databaseReference) := by
  induction body using wordInduction generalizing dollar with
  | nil =>
      rw [bodyParts_nil, namedDatabasesFrom_nil]
      rfl
  | between character rest other ih =>
      rw [bodyParts_cons dollar other, namedDatabasesFrom_cons dollar other]
      exact ih _
  | word word rest isWordText ends ih =>
      rw [bodyParts_word dollar isWordText ends,
        namedDatabasesFrom_word dollar isWordText ends,
        List.filterMap_append, List.filter_append, List.map_append, ih,
        wordParts, namedDatabase]
      congr 1
      by_cases named : isAnyOf databases word = true
      · rw [if_pos named, if_pos named]
        cases dollar with
        | true => exact live_literals bracedReference
        | false => rfl
      · rw [if_neg named, if_neg named]
        exact live_literals word

/-- Where no name is behind a dollar sign, putting the names back restores. -/
theorem restore_bodyParts (dollar : Bool) (body : Text)
    (apart : ∀ name ∈ namedDatabasesFrom databases dollar body,
      name.behindDollar = false) :
    restore ((namedDatabasesFrom databases dollar body).map
      NamedDatabase.spelling) (bodyParts databases dollar body) = some body := by
  induction body using wordInduction generalizing dollar with
  | nil =>
      rw [bodyParts_nil, namedDatabasesFrom_nil]
      rfl
  | between character rest other ih =>
      rw [namedDatabasesFrom_cons dollar other] at apart ⊢
      rw [bodyParts_cons dollar other, restore, ih _ apart]
      rfl
  | word word rest isWordText ends ih =>
      rw [namedDatabasesFrom_word dollar isWordText ends,
        List.forall_mem_append] at apart
      rw [namedDatabasesFrom_word dollar isWordText ends,
        bodyParts_word dollar isWordText ends, List.map_append, wordParts]
      by_cases named : isAnyOf databases word = true
      · have found : namedDatabase databases dollar word = [⟨dollar, word⟩] :=
          if_pos named
        have noDollar : dollar = false :=
          apart.1 ⟨dollar, word⟩ (found ▸ List.mem_singleton_self _)
        rw [found, if_pos named, noDollar, if_neg Bool.false_ne_true]
        exact congrArg (Option.map (word ++ ·)) (ih false apart.2)
      · have nothing : namedDatabase databases dollar word = [] :=
          if_neg named
        rw [nothing, if_neg named, List.map_nil, List.nil_append,
          restore_append_literals, ih false apart.2]
        rfl

end

/-! ## References in a template -/

/--
For databases that are words, what is evaluated in a substituted body is the
reference, once for every name of a database in the body that is not directly
behind a dollar sign.  The spellings of the names restore the body exactly if
there is no other name.
-/
theorem references_live_unless_behind_dollar {databases : List Text}
    (tokens : ∀ database ∈ databases, IsWordText database) (body : Text) :
    let parts :=
      templateParts ((Substitution.ofTokens databases []).apply body)
    let named := namedDatabases databases body
    parts.filterMap TemplatePart.live? =
        (named.filter fun name => !name.behindDollar).map (fun _ =>
          ('$', databaseReference)) ∧
      (restore (named.map NamedDatabase.spelling) parts = some body ↔
        ∀ name ∈ named, name.behindDollar = false) := by
  intro parts named
  have told : parts = bodyParts databases false body :=
    (congrArg templateParts (apply_eq_withReferences tokens body)).trans
      (templateParts_withReferences body).1
  have live : parts.filterMap TemplatePart.live? =
      (named.filter fun name => !name.behindDollar).map fun _ =>
        ('$', databaseReference) :=
    told ▸ live_bodyParts false body
  refine ⟨live, fun restored => ?_, fun apart => ?_⟩
  · -- Every name is put back for a part, so every name has one.
    have many := length_eq_of_restore restored
    rw [live, List.length_map, List.length_map,
      List.length_filter_eq_length_iff] at many
    intro name member
    rw [← Bool.not_eq_true']
    exact many name member
  · rw [told]
    exact restore_bodyParts false body apart

/-- Names in another case, one behind a dollar sign, and signs of the body. -/
theorem references_live_in_string :
    let databases : List Text := ["DB".toList, "été".toList]
    let body : Text := "`$\x7bx\x7d`; FROM db.S, $Db, \x7bÉTÉ\x7d %%\x7bDBS"
    let parts :=
      templateParts ((Substitution.ofTokens databases []).apply body)
    (∀ database ∈ databases, IsWordText database) ∧
      namedDatabases databases body =
        [⟨false, "db".toList⟩, ⟨true, "Db".toList⟩, ⟨false, "ÉTÉ".toList⟩] ∧
      parts.filterMap TemplatePart.live? =
        [('$', databaseReference), ('$', databaseReference)] ∧
      restore ["db".toList, "Db".toList, "ÉTÉ".toList] parts ≠ some body := by
  intro databases body parts
  have tokens : ∀ database ∈ databases, IsWordText database := by decide
  have named : namedDatabases databases body =
      [⟨false, "db".toList⟩, ⟨true, "Db".toList⟩, ⟨false, "ÉTÉ".toList⟩] := by
    decide +kernel
  obtain ⟨live, restored⟩ := references_live_unless_behind_dollar tokens body
  rw [named] at live restored
  exact ⟨tokens, named, live, fun whole => by simpa using restored.mp whole⟩

/-- The reference is not evaluated in front of which a dollar sign stands. -/
theorem reference_behind_dollar :
    let databases : List Text := ["DB".toList]
    let body : Text := "$DB"
    let written := (Substitution.ofTokens databases []).apply body
    written = ("$$\x7blocal.databases[var.DATABASE]\x7d" : Text) ∧
      (templateParts written).filterMap TemplatePart.live? = [] ∧
      namedDatabases databases body = [⟨true, "DB".toList⟩] ∧
      restore ["DB".toList] (templateParts written) ≠ some body := by
  decide +kernel

end Terraform

end Snowform
