import Snowform.Proofs.Hcl.TemplateParts
import Snowform.Proofs.Terraform.Substitution
import Snowform.Proofs.Text.Folding
import Snowform.Proofs.Text.Trimming
import Snowform.Proofs.Text.Wordwise

/-!
# Substitutions word by word

A substitution searches three times: for signs that would open a template,
for names of databases, and for suffixes.  Tokens of ASCII word characters
are met by whole words only, so the second and the third search exchange
words.  Together they do what is told for each word alone.
-/

namespace Snowform.Terraform

open Text Lexical Hcl

/-! ## Templates -/

theorem replaceFrom_eq (pattern replacement : Text) (skip : Nat)
    (text : Text) :
    replaceFrom pattern replacement skip text =
      replaceFrom pattern replacement 0 (text.drop skip) := by
  induction text generalizing skip with
  | nil => rw [List.drop_nil, replaceFrom, replaceFrom]
  | cons character rest ih =>
      cases skip with
      | zero => rfl
      | succ remaining => exact ih remaining

/-- Double a sign wherever a brace stands behind it. -/
def doubleSign (sign : Char) (text : Text) : Text :=
  replaceAll [sign, '\x7b'] [sign, sign, '\x7b'] text

/-- Doubling a sign goes from one character to the next. -/
theorem doubleSign_cons {sign : Char} (noBrace : sign ≠ '\x7b')
    (character : Char) (rest : Text) :
    doubleSign sign (character :: rest) =
      if character = sign ∧ rest.head? = some '\x7b' then
        character :: character :: doubleSign sign rest
      else
        character :: doubleSign sign rest := by
  rw [doubleSign, replaceAll, replaceFrom]
  split_ifs with starts opens opens
  · -- The brace is not the sign, so nothing starts there.
    obtain ⟨rfl, brace⟩ := opens
    obtain ⟨others, rfl⟩ : ∃ others, rest = '\x7b' :: others := by
      cases rest with
      | nil => cases brace
      | cons second others => exact ⟨others, by rw [Option.some.inj brace]⟩
    have passed : doubleSign character ('\x7b' :: others) =
        '\x7b' :: doubleSign character others := by
      rw [doubleSign, replaceAll, replaceFrom, if_neg]
      · rfl
      · rw [isPrefixOf_opening]
        exact fun same => noBrace same.1.symm
    rw [passed, replaceFrom_eq]
    rfl
  · exact absurd (isPrefixOf_opening.mp starts) opens
  · exact absurd (isPrefixOf_opening.mpr opens) starts
  · rfl

theorem head?_doubleSign {sign : Char} (noBrace : sign ≠ '\x7b')
    (text : Text) : (doubleSign sign text).head? = text.head? := by
  cases text with
  | nil => rfl
  | cons character rest =>
      rw [doubleSign_cons noBrace]
      split_ifs <;> rfl

/-- The two signs do not meet, so they can be doubled together. -/
theorem escapeTemplate_eq (text : Text) :
    escapeTemplate text = doubleOpenings text := by
  have dollar : '$' ≠ '\x7b' := by decide
  have percent : '%' ≠ '\x7b' := by decide
  change doubleSign '%' (doubleSign '$' text) = _
  induction text with
  | nil => rfl
  | cons character rest ih =>
      rw [doubleSign_cons dollar, doubleOpenings]
      by_cases opens : rest.head? = some '\x7b'
      · by_cases isDollar : character = '$'
        · subst isDollar
          have other : '$' ≠ '%' := by decide
          rw [if_pos ⟨rfl, opens⟩, if_pos ⟨.inl rfl, opens⟩,
            doubleSign_cons percent, if_neg fun both => other both.1,
            doubleSign_cons percent, if_neg fun both => other both.1, ih]
        · rw [if_neg fun both => isDollar both.1, doubleSign_cons percent,
            head?_doubleSign dollar, ih]
          simp only [isDollar, false_or]
      · rw [if_neg fun both => opens both.2, if_neg fun both => opens both.2,
          doubleSign_cons percent, head?_doubleSign dollar,
          if_neg fun both => opens both.2, ih]

theorem startsWith_doubleOpenings (text : Text) :
    startsWith isWord (doubleOpenings text) = startsWith isWord text := by
  cases text with
  | nil => rfl
  | cons character rest =>
      rw [doubleOpenings]
      split_ifs <;> rfl

theorem doubleOpenings_cons (character : Char) (rest : Text) :
    doubleOpenings (character :: rest) =
      if isSign character ∧ rest.head? = some '\x7b' then
        character :: character :: doubleOpenings rest
      else
        character :: doubleOpenings rest := by
  rw [doubleOpenings]
  exact if_congr Iff.rfl rfl rfl

/-- A word has no sign in it, so nothing in it is doubled. -/
theorem doubleOpenings_word {word : Text}
    (all : ∀ character ∈ word, isWord character = true) (rest : Text) :
    doubleOpenings (word ++ rest) = word ++ doubleOpenings rest := by
  induction word with
  | nil => rfl
  | cons character others ih =>
      rw [List.forall_mem_cons] at all
      have noSign : ¬ isSign character := not_isSign_of_isWord all.1
      rw [List.cons_append, doubleOpenings_cons,
        if_neg fun both => noSign both.1, ih all.2, List.cons_append]

/-! ## Tokens -/

/-- A text of ASCII word characters. -/
def IsToken (token : Text) : Prop :=
  token ≠ [] ∧ ∀ character ∈ token, isAsciiWord character = true

instance (token : Text) : Decidable (IsToken token) :=
  decidable_of_iff (token ≠ [] ∧ token.all isAsciiWord = true)
    (and_congr_right fun _ => List.all_eq_true)

theorem IsToken.isWordText {token : Text} (isToken : IsToken token) :
    IsWordText token :=
  ⟨isToken.1, fun character member =>
    isWord_of_isAsciiWord (isToken.2 character member)⟩

theorem sameSpelling_cons (letter character : Char) (letters rest : Text) :
    sameSpelling (letter :: letters) (character :: rest) =
      (sameLetter letter character && sameSpelling letters rest) := by
  rw [Bool.eq_iff_iff, Bool.and_eq_true, sameSpelling, sameSpelling,
    sameLetter, beq_iff_eq, beq_iff_eq, beq_iff_eq, List.map_cons,
    List.map_cons, List.cons_eq_cons]

/-- Inside a word, the end of a token is met where the word ends. -/
theorem token?_end_eq {behind : Text}
    (begun : startsWith isWord behind = true) (ahead : Text) :
    token? [] behind ahead =
      if sameSpelling [] (ahead.takeWhile isWord) = true then
        some (ahead.dropWhile isWord)
      else
        none := by
  rw [token?, isBoundary, begun]
  cases ahead with
  | nil => rfl
  | cons character rest =>
      rw [startsWith_isWord_cons]
      cases word : isWord character with
      | true =>
          rw [List.takeWhile_cons_of_pos word]
          rfl
      | false =>
          have other := Bool.eq_false_iff.mp word
          rw [List.takeWhile_cons_of_neg other,
            List.dropWhile_cons_of_neg other]
          rfl

/-- A token is met by what is left of a word, as a whole. -/
theorem token?_eq {letters : Text}
    (all : ∀ letter ∈ letters, isWord letter = true) {behind : Text}
    (begun : letters = [] → startsWith isWord behind = true) (ahead : Text) :
    token? letters behind ahead =
      if sameSpelling letters (ahead.takeWhile isWord) = true then
        some (ahead.dropWhile isWord)
      else
        none := by
  induction letters generalizing behind ahead with
  | nil => exact token?_end_eq (begun rfl) ahead
  | cons letter others ih =>
      rw [List.forall_mem_cons] at all
      cases ahead with
      | nil => rfl
      | cons character rest =>
          rw [token?]
          by_cases same : sameLetter letter character = true
          · have word := isWord_of_sameLetter all.1 same
            rw [if_pos same, List.takeWhile_cons_of_pos word,
              List.dropWhile_cons_of_pos word, sameSpelling_cons, same,
              Bool.true_and]
            have begun : startsWith isWord (character :: behind) = true :=
              word
            exact ih all.2 (fun _ => begun) rest
          · rw [if_neg same, if_neg]
            cases word : isWord character with
            | true =>
                rw [List.takeWhile_cons_of_pos word, sameSpelling_cons,
                  Bool.and_eq_true]
                exact fun both => same both.1
            | false =>
                rw [List.takeWhile_cons_of_neg (Bool.eq_false_iff.mp word)]
                exact fun nothing => by cases nothing

theorem token?_nil_eq {token : Text} (isWordText : IsWordText token)
    (text : Text) :
    token? token [] text =
      if sameSpelling token (text.takeWhile isWord) = true then
        some (text.dropWhile isWord)
      else
        none :=
  token?_eq isWordText.2 (fun empty => absurd empty isWordText.1) text

/--
A list of tokens recognises the first word of a text if it spells one of them.
-/
theorem anyToken?_eq {tokens : List Text}
    (all : ∀ token ∈ tokens, IsWordText token) (text : Text) :
    anyToken? tokens text =
      if (tokens.any fun token =>
          sameSpelling token (text.takeWhile isWord)) = true then
        some (text.dropWhile isWord)
      else
        none := by
  induction tokens with
  | nil => rfl
  | cons token others ih =>
      rw [List.forall_mem_cons] at all
      rw [anyToken?, List.findSome?_cons, token?_nil_eq all.1, List.any_cons,
        ← anyToken?, ih all.2]
      by_cases same : sameSpelling token (text.takeWhile isWord) = true
      · rw [if_pos same, same, Bool.true_or, if_pos rfl]
      · rw [if_neg same, Bool.eq_false_iff.mpr same, Bool.false_or]

theorem takeWhile_eq_nil {text : Text}
    (noWord : startsWith isWord text = false) : text.takeWhile isWord = [] := by
  cases text with
  | nil => rfl
  | cons character rest =>
      exact List.takeWhile_cons_of_neg (Bool.eq_false_iff.mp noWord)

/-! ## Names of databases -/

/-- Whether a word is one of some tokens, in any case. -/
def isAnyOf (tokens : List Text) (word : Text) : Bool :=
  tokens.any fun token => sameSpelling token word

theorem not_isAnyOf_nil {tokens : List Text}
    (all : ∀ token ∈ tokens, IsWordText token) :
    isAnyOf tokens [] = false := by
  rw [isAnyOf, List.any_eq_false]
  intro token member same
  exact (all token member).1 (List.map_eq_nil_iff.mp (beq_iff_eq.mp same))

/-- The expression that a word becomes if it is one of some tokens. -/
def databaseWord? (tokens : List Text) (word : Text) : Option Text :=
  if isAnyOf tokens word then
    some (templateExpression databaseReference)
  else
    none

theorem meetsWords_database?_of_isWordText {tokens : List Text}
    (all : ∀ token ∈ tokens, IsWordText token) :
    MeetsWords (database? tokens) (databaseWord? tokens) := by
  intro behind ahead
  rw [database?, isBoundary, anyToken?_eq all, databaseWord?, ← isAnyOf]
  cases ahead_word : startsWith isWord ahead with
  | true =>
      cases startsWith isWord behind with
      | true => rfl
      | false =>
          cases isAnyOf tokens (ahead.takeWhile isWord) <;> rfl
  | false =>
      rw [takeWhile_eq_nil ahead_word, not_isAnyOf_nil all]
      cases startsWith isWord behind <;> rfl

/-- Databases are recognised word by word. -/
theorem meetsWords_database? {tokens : List Text}
    (all : ∀ token ∈ tokens, IsToken token) :
    MeetsWords (database? tokens) (databaseWord? tokens) :=
  meetsWords_database?_of_isWordText fun token member =>
    (all token member).isWordText

/-! ## Suffixes -/

theorem length_of_sameSpelling {first second : Text}
    (same : sameSpelling first second = true) :
    first.length = second.length := by
  have lengths := congrArg List.length (beq_iff_eq.mp same)
  rwa [List.length_map, List.length_map] at lengths

/--
The stem of a word is what stands in front of its suffix, one ASCII character
of a word or more.
-/
theorem stemOf?_eq_some_iff {suffix word stem : Text} :
    stemOf? suffix word = some stem ↔
      ∃ ending, word = stem ++ ending ∧ stem ≠ [] ∧
        (∀ character ∈ stem, isAsciiWord (fold character) = true) ∧
        sameSpelling suffix ending = true := by
  constructor
  · intro found
    rw [stemOf?] at found
    split at found
    next holds =>
      cases found
      simp only [Bool.and_eq_true, Bool.not_eq_true', List.isEmpty_eq_false_iff,
        List.all_eq_true] at holds
      exact ⟨_, (List.take_append_drop _ word).symm, holds.1.1, holds.1.2,
        holds.2⟩
    next => cases found
  · rintro ⟨ending, rfl, nonempty, folded, same⟩
    have size : (stem ++ ending).length - suffix.length = stem.length := by
      rw [List.length_append, length_of_sameSpelling same,
        Nat.add_sub_cancel]
    rw [stemOf?]
    simp only [size, List.take_left, List.drop_left]
    apply if_pos
    rw [List.isEmpty_eq_false_iff.mpr nonempty, List.all_eq_true.mpr folded,
      same]
    rfl

theorem stemOf?_nil (suffix : Text) : stemOf? suffix [] = none := by
  apply Option.eq_none_iff_forall_ne_some.mpr
  intro stem found
  obtain ⟨ending, cut, nonempty, -⟩ := stemOf?_eq_some_iff.mp found
  exact nonempty (List.append_eq_nil_iff.mp cut.symm).1

/-- Either the suffix follows right away, or the stem goes on. -/
theorem stemOf?_cons (suffix : Text) (character : Char) (word : Text) :
    stemOf? suffix (character :: word) =
      if isAsciiWord (fold character) = true then
        if sameSpelling suffix word = true then
          some [character]
        else
          (stemOf? suffix word).map (character :: ·)
      else
        none := by
  split_ifs with folds same
  · exact stemOf?_eq_some_iff.mpr
      ⟨word, rfl, List.cons_ne_nil _ _, by simpa using folds, same⟩
  · apply Option.ext
    intro stem
    rw [Option.map_eq_some_iff]
    constructor
    · intro found
      obtain ⟨ending, cut, nonempty, folded, ends⟩ :=
        stemOf?_eq_some_iff.mp found
      obtain ⟨first, others, rfl⟩ := List.exists_cons_of_ne_nil nonempty
      obtain ⟨rfl, rfl⟩ := List.cons.inj cut
      have further : others ≠ [] := by
        rintro rfl
        exact same ends
      exact ⟨others, stemOf?_eq_some_iff.mpr ⟨ending, rfl, further,
        (List.forall_mem_cons.mp folded).2, ends⟩, rfl⟩
    · rintro ⟨others, found, rfl⟩
      obtain ⟨ending, rfl, -, folded, ends⟩ := stemOf?_eq_some_iff.mp found
      exact stemOf?_eq_some_iff.mpr ⟨ending, rfl, List.cons_ne_nil _ _,
        List.forall_mem_cons.mpr ⟨folds, folded⟩, ends⟩
  · apply Option.eq_none_iff_forall_ne_some.mpr
    intro stem found
    obtain ⟨ending, cut, nonempty, folded, -⟩ := stemOf?_eq_some_iff.mp found
    obtain ⟨first, others, rfl⟩ := List.exists_cons_of_ne_nil nonempty
    obtain ⟨rfl, -⟩ := List.cons.inj cut
    exact folds (folded character List.mem_cons_self)

/-- The shortest start of a word that one of some suffixes ends. -/
def shortestStem? (suffixes : List Text) : Text → Option Text
  | [] => none
  | character :: word =>
      if isAsciiWord (fold character) = true then
        if isAnyOf suffixes word = true then
          some [character]
        else
          (shortestStem? suffixes word).map (character :: ·)
      else
        none

theorem shortestStem?_nil (word : Text) : shortestStem? [] word = none := by
  induction word with
  | nil => rfl
  | cons character rest ih =>
      have noneOf : ¬ isAnyOf [] rest = true := Bool.false_ne_true
      rw [shortestStem?, if_neg noneOf, ih, Option.map_none, ite_self]

/-- The shortest stem is the only one, if there is one suffix. -/
theorem shortestStem?_singleton (suffix word : Text) :
    shortestStem? [suffix] word = stemOf? suffix word := by
  induction word with
  | nil => rw [shortestStem?, stemOf?_nil]
  | cons character rest ih =>
      rw [shortestStem?, stemOf?_cons, isAnyOf, List.any_cons, List.any_nil,
        Bool.or_false, ih]

/-- A suffix is searched for in words, and ends them. -/
theorem stem?_eq {suffixes : List Text}
    (all : ∀ suffix ∈ suffixes, IsWordText suffix) (text : Text) :
    stem? suffixes text =
      (shortestStem? suffixes (text.takeWhile isWord)).map fun stem =>
        (stem, text.dropWhile isWord) := by
  induction text with
  | nil => rfl
  | cons character rest ih =>
      rw [stem?, isStemCharacter_eq, anyToken?_eq all, ← isAnyOf]
      by_cases folds : isAsciiWord (fold character) = true
      · have word := isWord_of_fold folds
        rw [List.takeWhile_cons_of_pos word, List.dropWhile_cons_of_pos word,
          shortestStem?, if_pos folds, if_pos folds]
        split_ifs with same
        · rfl
        · rw [ih, Option.map_map, Option.map_map]
          rfl
      · rw [if_neg folds]
        cases word : isWord character with
        | true =>
            rw [List.takeWhile_cons_of_pos word, shortestStem?, if_neg folds,
              Option.map_none]
        | false =>
            rw [List.takeWhile_cons_of_neg (Bool.eq_false_iff.mp word)]
            rfl

theorem meetsWords_suffixed?_of_isWordText {suffixes : List Text}
    (all : ∀ suffix ∈ suffixes, IsWordText suffix) :
    MeetsWords (suffixed? suffixes) (shortestStem? suffixes) := by
  intro behind ahead
  rw [suffixed?, isBoundary, stem?_eq all]
  cases ahead_word : startsWith isWord ahead with
  | true => cases startsWith isWord behind <;> rfl
  | false =>
      rw [takeWhile_eq_nil ahead_word]
      cases startsWith isWord behind <;> rfl

/-- A suffix is recognised word by word. -/
theorem meetsWords_suffixed? {suffix : Text} (isToken : IsToken suffix) :
    MeetsWords (suffixed? [suffix]) (stemOf? suffix) := by
  have alone : ∀ token ∈ [suffix], IsWordText token :=
    List.forall_mem_singleton.mpr isToken.isWordText
  rw [← funext (shortestStem?_singleton suffix)]
  exact meetsWords_suffixed?_of_isWordText alone

/-! ## Bodies -/

theorem trim_of_isWordText {token : Text} (isWordText : IsWordText token) :
    trim token = token := by
  have notBlank : ∀ character ∈ token, isBlank character = false :=
    fun character member => not_isBlank_of_isWord (isWordText.2 character member)
  exact trim_eq_self
    (fun character first => notBlank character (List.mem_of_mem_head? first))
    (fun character last => notBlank character (List.mem_of_mem_getLast? last))

theorem mem_orderedTokens_of_isWordText {tokens : List Text}
    (all : ∀ token ∈ tokens, IsWordText token) {token : Text} :
    token ∈ orderedTokens tokens ↔ token ∈ tokens := by
  have trimmed : tokens.map trim = tokens := by
    calc
      tokens.map trim = tokens.map id :=
        List.map_congr_left fun token member =>
          trim_of_isWordText (all token member)
      _ = tokens := List.map_id tokens
  rw [orderedTokens, mem_ordered, trimmed, List.mem_filter]
  refine and_iff_left_of_imp fun member => ?_
  rw [Bool.not_eq_true', List.isEmpty_eq_false_iff]
  exact (all token member).1

theorem mem_orderedTokens {tokens : List Text}
    (all : ∀ token ∈ tokens, IsToken token) {token : Text} :
    token ∈ orderedTokens tokens ↔ token ∈ tokens :=
  mem_orderedTokens_of_isWordText fun token member =>
    (all token member).isWordText

/-- The order in which tokens are tried does not matter for whole words. -/
theorem isAnyOf_orderedTokens_of_isWordText {tokens : List Text}
    (all : ∀ token ∈ tokens, IsWordText token) (word : Text) :
    isAnyOf (orderedTokens tokens) word = isAnyOf tokens word := by
  rw [Bool.eq_iff_iff, isAnyOf, isAnyOf, List.any_eq_true, List.any_eq_true]
  simp only [mem_orderedTokens_of_isWordText all]

/-- Whether a word is one of the tokens does not depend on their order. -/
theorem isAnyOf_orderedTokens {tokens : List Text}
    (all : ∀ token ∈ tokens, IsToken token) (word : Text) :
    isAnyOf (orderedTokens tokens) word = isAnyOf tokens word :=
  isAnyOf_orderedTokens_of_isWordText
    (fun token member => (all token member).isWordText) word

/-- Names of databases are exchanged word by word, and then suffixes are. -/
theorem apply_eq_exchangeWords {databases suffixes : List Text}
    (names : ∀ database ∈ databases, IsWordText database)
    (endings : ∀ suffix ∈ suffixes, IsWordText suffix) (body : Text) :
    (Substitution.ofTokens databases suffixes).apply body =
      exchangeWords
        (fun word => (shortestStem? (orderedTokens suffixes) word).getD word)
        (exchangeWords (fun word => (databaseWord? databases word).getD word)
          (doubleOpenings body)) := by
  have orderedNames : ∀ token ∈ orderedTokens databases, IsWordText token :=
    fun token member =>
      names token ((mem_orderedTokens_of_isWordText names).mp member)
  have orderedEndings : ∀ token ∈ orderedTokens suffixes, IsWordText token :=
    fun token member =>
      endings token ((mem_orderedTokens_of_isWordText endings).mp member)
  rw [Substitution.apply, Substitution.ofTokens, escapeTemplate_eq,
    (meetsWords_database?_of_isWordText orderedNames).substitute_eq,
    (meetsWords_suffixed?_of_isWordText orderedEndings).substitute_eq]
  simp only [databaseWord?, isAnyOf_orderedTokens_of_isWordText names]

/-- The suffix of environments that schemas lose unless told otherwise. -/
def usualSuffix : Text := "_SANDBOX"

theorem isToken_usualSuffix : IsToken usualSuffix := by
  decide

/-- No word of the expression for the database has the suffix. -/
theorem exchangeWords_databaseReference :
    exchangeWords (fun word => (stemOf? usualSuffix word).getD word)
        (templateExpression databaseReference) =
      templateExpression databaseReference := by
  decide +kernel

/--
A substitution for databases and the usual suffix exchanges the words of a
body, each of them once, and doubles signs that would open a template.
-/
theorem apply_eq_rewriteBody {databases : List Text}
    (tokens : ∀ database ∈ databases, IsToken database) (body : Text) :
    (Substitution.ofTokens databases [usualSuffix]).apply body =
      rewriteBody databases usualSuffix body := by
  have ordered : ∀ token ∈ orderedTokens databases, IsToken token :=
    fun token member => tokens token ((mem_orderedTokens tokens).mp member)
  have suffixes : orderedTokens [usualSuffix] = [usualSuffix] := by
    set_option maxRecDepth 4000 in decide
  rw [Substitution.apply, Substitution.ofTokens, escapeTemplate_eq,
    (meetsWords_database? ordered).substitute_eq, suffixes,
    (meetsWords_suffixed? isToken_usualSuffix).substitute_eq,
    exchangeWords_exchangeWords, rewriteBody]
  apply exchangeWords_congr
  intro word isWordText
  rw [rewriteWord, databaseWord?, isAnyOf_orderedTokens tokens, isAnyOf]
  split_ifs with named
  · exact exchangeWords_databaseReference
  · have ends : startsWith isWord ([] : Text) = false := rfl
    have whole := exchangeWords_word
      (fun word => (stemOf? usualSuffix word).getD word) isWordText ends
    rwa [exchangeWords_nil, List.append_nil, List.append_nil] at whole

/--
Names that start alike, a suffix written with a long s, a suffix written
twice, a sign that would open a template, and words that only contain a name.
-/
theorem apply_eq_rewriteBody_overlapping :
    let databases : List Text := ["PROD_DB".toList, "prod".toList]
    let body : Text :=
      "FROM Prod.RDV_ſandbox.T, PROD_DB.d_sandbox_SANDBOX.$\x7bx, éPROD"
    (∀ database ∈ databases, IsToken database) ∧
      (Substitution.ofTokens databases [usualSuffix]).apply body =
        rewriteBody databases usualSuffix body ∧
      rewriteBody databases usualSuffix body =
        ("FROM $\x7blocal.databases[var.DATABASE]\x7d.RDV.T, " : Text) ++
          ("$\x7blocal.databases[var.DATABASE]\x7d.d_sandbox." : Text) ++
          ("$$\x7bx, éPROD" : Text) := by
  intro databases body
  have tokens : ∀ database ∈ databases, IsToken database := by decide
  exact ⟨tokens, apply_eq_rewriteBody tokens body, by decide +kernel⟩

end Snowform.Terraform
