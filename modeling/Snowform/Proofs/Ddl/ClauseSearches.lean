import Snowform.Proofs.Ddl.WrittenClauses

/-!
# Searches for clauses

Each search for a clause goes by a keyword, and passes over whatever does not
have it for a word.  The return type is read up to the end of its list.  A
language that is named where a parenthesis is open is overlooked, and whether a
word `AS` says whose rights are used is told by the word in front of it.
-/

namespace Snowform

open Text Lexical

/-! ## Blanks -/

theorem isStill_of_isBlankText {text : Text} (blank : IsBlankText text) :
    IsStill text := by
  have visible : ∀ special ∈ ['\'', '"', '-', '/', '$', ';'],
      isBlank special = false :=
    List.all_iff_forall_prop.mp (by decide)
  intro character member special
  exact absurd ((visible character special).symm.trans
    (blank character member)) (by decide)

theorem startsWith_isWord_of_isBlank {α : Type} [Shown α] {list : List α}
    (blank : startsWith isBlank list = true) :
    startsWith isWord list = false := by
  cases list with
  | nil => rfl
  | cons element others =>
      exact Bool.eq_false_iff.mpr fun word => absurd
        (blank.symm.trans (not_isBlank_of_isWord word)) (by decide)

theorem startsWith_gap {gap : Text} (nonempty : gap ≠ [])
    (blank : IsBlankText gap) (rest : List Cell) :
    startsWith isBlank (gap.map Cell.plain ++ rest) = true := by
  obtain ⟨first, others, rfl⟩ := List.exists_cons_of_ne_nil nonempty
  exact blank first List.mem_cons_self

theorem parenthesisBalance_blanks {gap : Text} (blank : IsBlankText gap) :
    parenthesisBalance (gap.map Cell.plain) = 0 :=
  parenthesisBalance_of_blanks (List.forall_mem_map.mpr blank)

theorem lacks_blanks {keyword : Text} (capital : IsCapital keyword)
    (nonempty : keyword ≠ []) {gap : Text} (blank : IsBlankText gap)
    (rest behind : List Cell) :
    Lacks keyword rest behind (gap.map .plain) := by
  obtain ⟨letter, letters, rfl⟩ := List.exists_cons_of_ne_nil nonempty
  refine lacks_of_quiet rfl (List.forall_mem_map.mpr ?_) behind
  exact fun character member => isKeywordLetter_of_isBlank
    (capital letter List.mem_cons_self) (blank character member)

theorem skipBlanks_blanks {gap : Text} (blank : IsBlankText gap) :
    skipBlanks (gap.map Cell.plain) = [] :=
  List.dropWhile_eq_nil_iff.mpr (List.forall_mem_map.mpr blank)

/-! ## Searches that a keyword starts -/

section

variable {α : Type} [Shown α]

theorem skipBlanks_of_isWord {list : List α}
    (word : startsWith isWord list = true) : skipBlanks list = list := by
  cases list with
  | nil => rfl
  | cons element others =>
      exact List.dropWhile_cons_of_neg
        (ne_true_of_eq_false (not_isBlank_of_isWord word))

theorem blanks?_of_isWord {list : List α}
    (word : startsWith isWord list = true) : blanks? list = none := by
  cases list with
  | nil => cases word
  | cons element others =>
      exact if_neg (ne_true_of_eq_false (not_isBlank_of_isWord word))

theorem keyedBy_commentClause? :
    KeyedBy "COMMENT" (commentClause? : Recogniser α (List α)) := by
  refine fun behind ahead absent => clause?_eq_none ?_ absent
  intro rest word
  have noSign : character? '=' rest = none := by
    cases rest with
    | nil => cases word
    | cons element others =>
        refine if_neg fun same => ?_
        have known : isWord (shown element) = true := word
        rw [same] at known
        cases known
  beta_reduce
  rw [skipBlanks_of_isWord word, noSign]
  rfl

theorem Procedure.keyedBy_returns? :
    KeyedBy "RETURNS" (returns? : Recogniser α Unit) := by
  refine fun behind ahead absent => clause?_eq_none ?_ absent
  intro rest word
  beta_reduce
  rw [blanks?_of_isWord word]
  rfl

theorem Procedure.keyedBy_language? :
    KeyedBy "LANGUAGE" (language? : Recogniser α Text) := by
  refine fun behind ahead absent => clause?_eq_none ?_ absent
  intro rest word
  beta_reduce
  rw [blanks?_of_isWord word]
  rfl

end

/-! ## The return type -/

namespace Procedure

/-- What goes on in the word of a return type goes on in any word. -/
theorem isWord_of_continuesTypeWord {character : Char}
    (goesOn : continuesTypeWord character = true) :
    isWord character = true := by
  simp only [continuesTypeWord, startsTypeWord, Bool.or_eq_true,
    beq_iff_eq] at goesOn
  rcases goesOn with ((((letter | rfl) | rfl) | rfl) | digit)
  · exact isWord_of_isAsciiWord (by simp [isAsciiWord, Char.isAlphanum, letter])
  · decide
  · decide +kernel
  · decide +kernel
  · exact isWord_of_isAsciiWord (by simp [isAsciiWord, Char.isAlphanum, digit])

end Procedure

section

variable {word : Text} (identifier : IsIdentifier word)

include identifier

theorem IsIdentifier.continuesTypeWord : ∀ character ∈ word,
    Procedure.continuesTypeWord character = true := by
  intro character member
  have ascii := identifier.ascii character member
  simp only [isAsciiWord, Char.isAlphanum, Bool.or_eq_true] at ascii
  rcases ascii with (letter | digit) | line
  · simp [Procedure.continuesTypeWord, Procedure.startsTypeWord, letter]
  · simp [Procedure.continuesTypeWord, digit]
  · simp [Procedure.continuesTypeWord, Procedure.startsTypeWord, line]

/-- A word starts as a return type does. -/
theorem IsIdentifier.startsWith_cells (rest : List Cell) :
    startsWith Procedure.startsTypeWord (word.map Cell.plain ++ rest) = true ∧
      startsWith isWord (word.map Cell.plain ++ rest) = true := by
  have starts := identifier.starts
  cases word with
  | nil => cases starts
  | cons first others =>
      have noDigit : first.isDigit = false := by simpa using starts
      have goesOn := identifier.continuesTypeWord first List.mem_cons_self
      refine ⟨?_, Procedure.isWord_of_continuesTypeWord goesOn⟩
      rw [Procedure.continuesTypeWord, noDigit, Bool.or_false] at goesOn
      exact goesOn

/-- Reading a word leaves what stands behind it. -/
theorem IsIdentifier.dropWhile_cells {rest : List Cell}
    (ends : startsWith isWord rest = false) :
    (word.map Cell.plain ++ rest).dropWhile
      (shows Procedure.continuesTypeWord) = rest := by
  have goesOn : ∀ cell ∈ word.map Cell.plain,
      Procedure.continuesTypeWord (shown cell) = true :=
    List.forall_mem_map.mpr identifier.continuesTypeWord
  refine (while_stopped _ goesOn ?_).2
  cases rest with
  | nil => rfl
  | cons cell others =>
      exact Bool.eq_false_iff.mpr fun word => absurd (ends.symm.trans
        (Procedure.isWord_of_continuesTypeWord word)) (by decide)

end

namespace Procedure

variable {front typed behind before : List Cell}
  (found : findFirst returns? [] (front ++ (typed ++ behind)) =
    some (before, (), typed ++ behind))

include found

/-- A return type ends with its word if no parenthesis opens behind it. -/
theorem returnType?_of_unopened
    (left : (typed ++ behind).dropWhile (shows continuesTypeWord) = behind)
    (unopened : startsWith (· == '(') (skipBlanks behind) = false) :
    returnType? (front ++ (typed ++ behind)) (front ++ (typed ++ behind)) =
      some typed := by
  rw [returnType?, found]
  dsimp only [Option.bind_eq_bind, Option.bind_some]
  rw [left, unopened, if_neg Bool.false_ne_true, upTo_append]
  rfl

/-- A return type goes up to the end of the list that opens behind its word. -/
theorem returnType?_of_opened {inside rest : List Cell}
    (left : skipBlanks
      ((typed ++ behind).dropWhile (shows continuesTypeWord)) = behind)
    (opens : startsWith (· == '(') behind = true)
    (closed : parenthesised? behind = some (inside, rest)) :
    returnType? (front ++ (typed ++ behind)) (front ++ (typed ++ behind)) =
      some (upTo (typed ++ behind) rest) := by
  have start : (front ++ (typed ++ behind)).drop
      ((front ++ (typed ++ behind)).length - (typed ++ behind).length) =
        typed ++ behind := by
    rw [List.length_append, Nat.add_sub_cancel, List.drop_left]
  have list : (front ++ (typed ++ behind)).drop
      ((front ++ (typed ++ behind)).length - behind.length) = behind := by
    rw [← List.append_assoc, List.length_append, Nat.add_sub_cancel,
      List.drop_left]
  rw [returnType?, found]
  dsimp only [Option.bind_eq_bind, Option.bind_some]
  rw [left, if_pos opens, start, list, closed]
  rfl

end Procedure

namespace WrittenReturn

variable (returned : WrittenReturn)

/-- A return type is read up to its end. -/
theorem returnType?_of_found {front before rest : List Cell}
    (found : findFirst Procedure.returns? []
      (front ++ (returned.text.map .plain ++ rest)) =
        some (before, (), returned.text.map .plain ++ rest))
    (ends : startsWith isWord rest = false)
    (unopened : startsWith (· == '(') (skipBlanks rest) = false) :
    Procedure.returnType? (front ++ (returned.text.map .plain ++ rest))
        (front ++ (returned.text.map .plain ++ rest)) =
      some (returned.text.map .plain) := by
  have left {behind : List Cell} (apart : startsWith isWord behind = false) :=
    returned.isIdentifier.dropWhile_cells apart
  cases list : returned.list with
  | none =>
      have whole : returned.text = returned.word := by
        rw [WrittenReturn.text, list]
        exact List.append_nil _
      rw [whole] at found ⊢
      exact Procedure.returnType?_of_unopened found (left ends) unopened
  | some parts =>
      obtain ⟨blanks, inside⟩ := parts
      obtain ⟨blank, types⟩ := returned.isList _ list
      have whole : returned.text.map Cell.plain ++ rest =
          (returned.word.map .plain ++ blanks.map .plain) ++
            .plain '(' :: (inside.map .plain ++ .plain ')' :: rest) := by
        rw [WrittenReturn.text, list]
        simp [listText]
      have visible : isBlank (shown (Cell.plain '(')) = false := by decide
      have noWord : startsWith isWord (blanks.map .plain ++
          Cell.plain '(' :: (inside.map .plain ++ .plain ')' :: rest)) =
            false := by
        cases blanks with
        | nil => rfl
        | cons first others =>
            exact startsWith_isWord_of_isBlank (blank first List.mem_cons_self)
      have same := upTo_append (returned.text.map Cell.plain) rest
      rw [whole] at found same ⊢
      rw [Procedure.returnType?_of_opened found _ rfl
        (types.isBalanced.parenthesised?_eq rfl rfl rest), same]
      rw [List.append_assoc, left noWord, skipBlanks_append visible,
        skipBlanks_blanks blank]
      rfl

end WrittenReturn

/-- The type stands behind the keyword. -/
theorem WrittenReturn.returns?_text (returned : WrittenReturn)
    {behind : List Cell} (apart : startsWith isWord behind = false)
    (rest : List Cell) :
    Procedure.returns? behind (("RETURNS " : Text).map .plain ++
        (returned.text.map .plain ++ rest)) =
      some ((), returned.text.map .plain ++ rest) := by
  obtain ⟨goesOn, isWord⟩ := returned.isIdentifier.startsWith_cells
    ((listText returned.list).map .plain ++ rest)
  rw [← List.append_assoc, ← List.map_append, ← WrittenReturn.text]
    at goesOn isWord
  have boundary : isBoundary behind (("RETURNS " : Text).map .plain ++
      (returned.text.map .plain ++ rest)) = true := by
    rw [isBoundary, apart]
    rfl
  have keyword : keyword? "RETURNS" (("RETURNS " : Text).map Cell.plain ++
      (returned.text.map .plain ++ rest)) =
        some (.plain ' ' :: (returned.text.map .plain ++ rest)) := rfl
  have blanks : blanks? (Cell.plain ' ' ::
      (returned.text.map .plain ++ rest)) =
        some (returned.text.map .plain ++ rest) :=
    congrArg some (skipBlanks_of_isWord isWord)
  unfold Procedure.returns?
  simp only [boundary, if_true, keyword, Option.bind_eq_bind,
    Option.bind_some, blanks, goesOn]

/-! ## The language -/

theorem WrittenClauses.language?_text (written : WrittenClauses)
    {behind : List Cell} (apart : startsWith isWord behind = false)
    {rest : List Cell} (ends : startsWith isWord rest = false) :
    Procedure.language? behind (("LANGUAGE " : Text).map .plain ++
        (written.language.map .plain ++ rest)) =
      some (written.language, rest) := by
  have words : ∀ cell ∈ written.language.map Cell.plain,
      isWord (shown cell) = true :=
    List.forall_mem_map.mpr written.isLanguage.isWordText.2
  obtain ⟨taken, left⟩ := while_stopped isWord words ends
  have starts := (written.isLanguage.startsWith_cells rest).2
  have boundary : isBoundary behind (("LANGUAGE " : Text).map .plain ++
      (written.language.map .plain ++ rest)) = true := by
    rw [isBoundary, apart]
    rfl
  have keyword : keyword? "LANGUAGE" (("LANGUAGE " : Text).map Cell.plain ++
      (written.language.map .plain ++ rest)) =
        some (.plain ' ' :: (written.language.map .plain ++ rest)) := rfl
  have blanks : blanks? (Cell.plain ' ' ::
      (written.language.map .plain ++ rest)) =
        some (written.language.map .plain ++ rest) :=
    congrArg some (skipBlanks_of_isWord starts)
  have same : (written.language.map Cell.plain).map shown =
      written.language := by
    rw [List.map_map]
    exact List.map_id _
  unfold Procedure.language?
  simp only [boundary, if_true, keyword, Option.bind_eq_bind,
    Option.bind_some, blanks, starts, taken, left, same]

namespace Procedure

/-- Whether a clause stands outside of parentheses. -/
def isOutside (clause : List Cell × Text) : Bool :=
  parenthesisBalance clause.1 == 0

theorem languageOf_eq (header : List Cell) :
    languageOf header =
      (((occurrences language? header).find? isOutside).map Prod.snd).getD
        defaultLanguage :=
  rfl

/-- The clause of a language has words and blanks only. -/
theorem exists_covered_of_language? {behind list after : List Cell}
    {word : Text} (found : language? behind list = some (word, after)) :
    ∃ covered, list = covered ++ after ∧ ∀ cell ∈ covered,
      isWord (shown cell) = true ∨ isBlank (shown cell) = true := by
  obtain ⟨rest, keyword, here⟩ := exists_keyword_of_clause? found
  obtain ⟨letters, rfl, words⟩ :=
    exists_letters_of_keyword? (by decide) keyword
  obtain ⟨start, blanks, here⟩ := Option.bind_eq_some_iff.mp here
  rw [blanks?] at blanks
  split at blanks
  next =>
    cases blanks
    split at here
    next =>
      cases here
      refine ⟨letters ++ (rest.takeWhile (shows isBlank) ++
        (skipBlanks rest).takeWhile (shows isWord)), ?_, ?_⟩
      · rw [List.append_assoc, List.append_assoc,
          List.takeWhile_append_dropWhile, skipBlanks,
          List.takeWhile_append_dropWhile]
      · rw [List.forall_mem_append, List.forall_mem_append]
        exact ⟨fun cell member => .inl (words cell member),
          fun cell member =>
            .inr (List.mem_takeWhile_imp (p := shows isBlank) member),
          fun cell member =>
            .inl (List.mem_takeWhile_imp (p := shows isWord) member)⟩
    next => cases here
  next => cases blanks

/-- A clause does not go on behind a mark. -/
theorem length_le_of_language? {behind front rest after : List Cell}
    {mark : Cell} (noWord : isWord (shown mark) = false)
    (visible : isBlank (shown mark) = false) {word : Text}
    (found : language? behind (front ++ mark :: rest) = some (word, after)) :
    (mark :: rest).length ≤ after.length := by
  obtain ⟨covered, parts, known⟩ := exists_covered_of_language? found
  rcases List.append_eq_append_iff.mp parts with
    ⟨others, rfl, same⟩ | ⟨others, rfl, same⟩
  · cases others with
    | nil => exact (congrArg List.length same).le
    | cons first others =>
        obtain ⟨rfl, -⟩ := List.cons.inj same
        rcases known _ (List.mem_append_right _ List.mem_cons_self) with
          word | blank
        · exact absurd (noWord.symm.trans word) (by decide)
        · exact absurd (visible.symm.trans blank) (by decide)
  · rw [same, List.length_append]
    exact Nat.le_add_left _ _

section

variable {mark : Cell} (noWord : isWord (shown mark) = false)
  (visible : isBlank (shown mark) = false)

include noWord visible

theorem overlooks_cons {behind others : List Cell}
    (inside : 0 < parenthesisBalance behind) (element : Cell)
    (rest : List Cell)
    (later : Overlooks language? isOutside (mark :: rest) (element :: behind)
      others) :
    Overlooks language? isOutside (mark :: rest) behind
      (element :: others) := by
  refine ⟨fun word after found => ⟨beq_false_of_ne ?_, ?_⟩, later⟩
  · exact fun closed => absurd (closed ▸ inside) (Int.lt_irrefl 0)
  · rw [← List.cons_append] at found
    exact length_le_of_language? noWord visible found

/-- No language is named where a parenthesis is open. -/
theorem overlooks_of_isTypeList {text : Text} (types : IsTypeList text)
    {behind : List Cell} (inside : 0 < parenthesisBalance behind)
    (rest : List Cell) :
    Overlooks language? isOutside (mark :: rest) behind
      (text.map .plain) := by
  induction types generalizing mark rest behind with
  | nil => trivial
  | @plain character others listed types ih =>
      refine overlooks_cons noWord visible inside _ _
        (ih noWord visible ?_ rest)
      rw [parenthesisBalance_cons, parenthesisBalance_of_listed listed,
        Int.zero_add]
      exact inside
  | @list within others types behindIt ihWithin ihBehind =>
      have parts : ('(' :: (within ++ ')' :: others)).map Cell.plain =
          .plain '(' :: (within.map .plain ++
            .plain ')' :: others.map .plain) := by
        simp only [List.map_cons, List.map_append]
      have opening : parenthesisBalance [Cell.plain '('] = 1 := rfl
      have closing : parenthesisBalance [Cell.plain ')'] = -1 := rfl
      have opened : 0 < parenthesisBalance (.plain '(' :: behind) := by
        rw [parenthesisBalance_cons, opening]
        omega
      have balanced : parenthesisBalance ((within.map Cell.plain).reverse ++
          .plain '(' :: behind) = 1 + parenthesisBalance behind := by
        rw [parenthesisBalance_append, parenthesisBalance_reverse,
          types.parenthesisBalance_eq, parenthesisBalance_cons, opening,
          Int.zero_add]
      have closed : isWord (shown (Cell.plain ')')) = false := by decide
      rw [parts]
      refine overlooks_cons noWord visible inside _ _
        (Overlooks.append (ihWithin closed (by decide) opened _) ?_)
      refine overlooks_cons noWord visible ?_ _ _
        (ihBehind noWord visible ?_ rest)
      · rw [balanced]
        omega
      · rw [parenthesisBalance_cons, balanced, closing]
        omega

end

end Procedure

namespace WrittenReturn

variable (returned : WrittenReturn)

/-- No language is named in the list behind the word of a return type. -/
theorem overlooks_listText {behind : List Cell}
    (closed : parenthesisBalance behind = 0) (rest : List Cell) :
    Overlooks Procedure.language? Procedure.isOutside rest behind
      ((listText returned.list).map .plain) := by
  have capital : IsCapital "LANGUAGE" := by decide
  cases list : returned.list with
  | none => trivial
  | some parts =>
      obtain ⟨blank, types⟩ := returned.isList parts list
      obtain ⟨blanks, inside⟩ := parts
      have spread : (listText (some (blanks, inside))).map Cell.plain =
          blanks.map .plain ++
            ([.plain '('] ++ (inside.map .plain ++ [.plain ')'])) := by
        simp [listText]
      have mark : ∀ mark : Cell, mark ∈ [Cell.plain '(', .plain ')'] →
          ∀ rest behind, Overlooks Procedure.language? Procedure.isOutside rest
            behind [mark] := by
        intro mark known rest behind
        refine Procedure.keyedBy_language?.overlooks _
          (lacks_of_quiet rfl ?_ behind)
        rw [List.forall_mem_singleton]
        revert mark
        exact List.all_iff_forall_prop.mp (by decide)
      have opened : 0 < parenthesisBalance ([Cell.plain '('].reverse ++
          ((blanks.map .plain).reverse ++ behind)) := by
        have opening : parenthesisBalance [Cell.plain '('].reverse = 1 := rfl
        rw [parenthesisBalance_append, parenthesisBalance_append,
          parenthesisBalance_reverse (blanks.map Cell.plain),
          parenthesisBalance_blanks blank, closed, opening]
        decide
      have noWord : isWord (shown (Cell.plain ')')) = false := by decide
      rw [spread]
      refine Overlooks.append (Procedure.keyedBy_language?.overlooks _
        (lacks_blanks capital (by decide) blank _ _)) (Overlooks.append
          (mark _ (by decide) _ _) (Overlooks.append ?_
            (mark _ (by decide) _ _)))
      exact Procedure.overlooks_of_isTypeList noWord (by decide) types opened _

end WrittenReturn

namespace WrittenClauses

variable (written : WrittenClauses)

/-- No other clause names a language outside of parentheses. -/
theorem overlooks_clause {kind : ClauseKind} (other : kind ≠ .language)
    {behind rest : List Cell} (ends : startsWith isWord rest = false)
    (closed : parenthesisBalance behind = 0) :
    Overlooks Procedure.language? Procedure.isOutside rest behind
      (cells (written.clause kind)) := by
  have capital : IsCapital "LANGUAGE" := by decide
  have overlooks : ("LANGUAGE" : Text) ∉ kind.keywords →
      (∀ word ∈ written.freeWords kind, asciiUpper word ≠ "LANGUAGE") →
        Overlooks Procedure.language? Procedure.isOutside rest behind
          (cells (written.clause kind)) := fun apart free =>
    Procedure.keyedBy_language?.overlooks _
      (written.lacks_clause capital (by decide) apart free ends behind)
  cases kind with
  | language => exact absurd rfl other
  | comment => exact overlooks (by decide) nofun
  | executes =>
      refine overlooks (by decide) ?_
      rw [freeWords, List.forall_mem_singleton]
      cases written.mode <;> decide
  | returns =>
      have word := written.returned.isIdentifier
      have parts : cells (written.clause .returns) =
          ("RETURNS " ++ written.returned.word).map .plain ++
            (WrittenReturn.listText written.returned.list).map .plain := by
        rw [written.cells_clause (by decide), ← List.map_append,
          List.append_assoc]
        rfl
      have words : ∀ word ∈ spelled ("RETURNS " ++ written.returned.word),
          keyword? "LANGUAGE" word ≠ some [] := by
        have spelling : spelled ("RETURNS " ++ written.returned.word) =
            ("RETURNS" : Text) :: spelled written.returned.word :=
          spelled_keyword "RETURNS" (by decide) written.returned.word
        rw [spelling, word.spelled_eq, List.forall_mem_cons,
          List.forall_mem_singleton]
        exact ⟨by decide, fun whole => written.outside
          (asciiUpper_of_keyword? word.ascii whole)⟩
      rw [parts]
      refine Overlooks.append (Procedure.keyedBy_language?.overlooks _
        (lacks_code capital (by decide) words
          (written.returned.startsWith_cells_listText ends) _))
        (written.returned.overlooks_listText ?_ _)
      have keyword : IsTypeList ("RETURNS " ++ written.returned.word) :=
        .plain_append (List.all_eq_true.mp (by decide)) word.isTypeList
      rw [parenthesisBalance_append, parenthesisBalance_reverse,
        keyword.parenthesisBalance_eq, closed]
      rfl

end WrittenClauses

/-! ## Words in front of `AS` -/

namespace Procedure

section

variable {front : List Cell} {gap : Text} (blank : IsBlankText gap)

include blank

theorem skipBlanks_reverse {first : Cell} {others : List Cell}
    (visible : isBlank (shown first) = false) :
    skipBlanks ((gap.map Cell.plain).reverse ++ first :: others) =
      first :: others := by
  have reversed : IsBlankText gap.reverse := fun character member =>
    blank character (List.mem_reverse.mp member)
  rw [skipBlanks_append visible, ← List.map_reverse, skipBlanks_blanks reversed]
  rfl

/-- No other word than `EXECUTE` makes `AS` name whose rights are used. -/
theorem followsExecute_word {word : Text} (identifier : IsIdentifier word)
    (other : asciiUpper word ≠ "EXECUTE")
    (apart : startsWith isWord front.reverse = false) :
    followsExecute (front ++ (word.map Cell.plain ++
      gap.map Cell.plain)).reverse = false := by
  have reversed : (front ++ (word.map Cell.plain ++
      gap.map Cell.plain)).reverse = (gap.map Cell.plain).reverse ++
        (word.reverse.map Cell.plain ++ front.reverse) := by
    simp only [List.reverse_append, List.append_assoc, List.map_reverse]
  have skipped : skipBlanks ((gap.map Cell.plain).reverse ++
      (word.reverse.map Cell.plain ++ front.reverse)) =
        word.reverse.map .plain ++ front.reverse := by
    obtain ⟨last, others, same⟩ := List.exists_cons_of_ne_nil
      (List.reverse_ne_nil_iff.mpr identifier.isWordText.1)
    have isWord := identifier.isWordText.2 last
      (List.mem_reverse.mp (same ▸ List.mem_cons_self))
    rw [same]
    exact skipBlanks_reverse blank (not_isBlank_of_isWord isWord)
  have ascii : ∀ character ∈ word.reverse, isAsciiWord character = true :=
    fun character member =>
      identifier.ascii character (List.mem_reverse.mp member)
  have visible : (word.reverse.map Cell.plain ++ front.reverse).map shown =
      word.reverse ++ front.reverse.map shown := by
    rw [List.map_append, List.map_map]
    exact congrArg (· ++ _) (List.map_id _)
  rw [reversed, followsExecute, skipped]
  split
  next before found =>
    have seen := keyword?_map_shown "ETUCEXE"
      (word.reverse.map Cell.plain ++ front.reverse)
    rw [found, visible] at seen
    obtain ⟨others, whole, same⟩ := keyword?_word (by decide)
      (by rwa [startsWith_map_shown]) seen
    cases others with
    | nil =>
        have upper := asciiUpper_of_keyword? ascii whole
        rw [asciiUpper, List.map_reverse, List.reverse_eq_iff] at upper
        exact absurd upper other
    | cons character others =>
        have suffix := (leaves_of_keyword?
          (show IsCapital "ETUCEXE" by decide).isLoud whole).suffix
        rw [← startsWith_map_shown, same]
        exact congrArg not (ascii character
          (suffix.subset List.mem_cons_self))
  next => rfl

theorem followsExecute_mark {mark : Cell}
    (visible : isBlank (shown mark) = false)
    (unspelled : IsUnspelled (shown mark)) :
    followsExecute (front ++ mark :: gap.map Cell.plain).reverse = false := by
  have reversed : (front ++ mark :: gap.map Cell.plain).reverse =
      (gap.map Cell.plain).reverse ++ mark :: front.reverse := by
    simp only [List.reverse_append, List.reverse_cons, List.append_assoc,
      List.singleton_append]
  have none : keyword? "ETUCEXE" (mark :: front.reverse) = none :=
    if_neg (Bool.eq_false_iff.mp (unspelled 'E' (by decide)))
  rw [reversed, followsExecute, skipBlanks_reverse blank visible, none]

end

theorem followsExecute_execute {front : List Cell}
    (apart : startsWith isWord front.reverse = false) :
    followsExecute (front ++ ("EXECUTE " : Text).map Cell.plain).reverse =
      true := by
  have reversed : (front ++ ("EXECUTE " : Text).map Cell.plain).reverse =
      (" ETUCEXE" : Text).map .plain ++ front.reverse := List.reverse_append
  have found : keyword? "ETUCEXE" (skipBlanks
      ((" ETUCEXE" : Text).map Cell.plain ++ front.reverse)) =
        some front.reverse := rfl
  rw [reversed, followsExecute, found]
  cases before : front.reverse with
  | nil => rfl
  | cons cell others =>
      rw [before] at apart
      have noAscii : isAsciiWord (shown cell) = false :=
        Bool.eq_false_iff.mpr fun ascii => absurd
          (apart.symm.trans (isWord_of_isAsciiWord ascii)) (by decide)
      exact congrArg not noAscii

end Procedure

namespace WrittenClauses

variable (written : WrittenClauses)

/-- No clause ends in the word `EXECUTE`. -/
theorem followsExecute_clause (kind : ClauseKind) {gap : Text}
    (blank : IsBlankText gap) (front : List Cell) :
    Procedure.followsExecute (front ++ (cells (written.clause kind) ++
      gap.map Cell.plain)).reverse = false := by
  rcases written.endsClause_clause kind with
    ⟨keywords, word, identifier, free, parts⟩ | ⟨code, mark, known, parts⟩
  · have spread : front ++ ((keywords.map Cell.plain ++
        Cell.plain ' ' :: word.map Cell.plain) ++ gap.map Cell.plain) =
          (front ++ (keywords.map Cell.plain ++ [Cell.plain ' '])) ++
            (word.map Cell.plain ++ gap.map Cell.plain) := by
      simp only [List.append_assoc, List.cons_append, List.nil_append]
    have apart : startsWith isWord (front ++
        (keywords.map Cell.plain ++ [Cell.plain ' '])).reverse = false := by
      rw [← List.append_assoc, List.reverse_concat]
      rfl
    have other : asciiUpper word ≠ "EXECUTE" := by
      intro same
      rw [same] at free
      exact free (by decide)
    rw [parts, spread]
    exact Procedure.followsExecute_word blank identifier other apart
  · have marks : ∀ mark ∈ ['\'', ')'], isBlank mark = false ∧
        mark.toUpper = mark ∧ mark.toNat < 128 ∧ mark.isUpper = false :=
      List.all_iff_forall_prop.mp (by decide)
    obtain ⟨visible, upper, ascii, noCapital⟩ := marks mark known
    have spread : front ++ ((code ++ [.plain mark]) ++ gap.map Cell.plain) =
        (front ++ code) ++ .plain mark :: gap.map .plain := by
      simp only [List.append_assoc, List.singleton_append]
    rw [parts, spread]
    exact Procedure.followsExecute_mark blank visible
      (isUnspelled_of_toUpper upper ascii noCapital)

/-- The word in front of a blank says whose rights are used. -/
theorem readExecuteAs_mode {rest : List Cell}
    (blank : startsWith isBlank rest = true) :
    Procedure.readExecuteAs
      (.plain ' ' :: (written.mode.keyword.map .plain ++ rest)) =
        written.mode := by
  have visible : ∀ cell ∈ written.mode.keyword.map Cell.plain,
      (!isBlank (shown cell)) = true := by
    cases written.mode <;> decide
  have stops : startsWith (fun shown => !isBlank shown) rest = false := by
    cases rest with
    | nil => rfl
    | cons cell others => exact congrArg not blank
  have skipped : skipBlanks (Cell.plain ' ' ::
      (written.mode.keyword.map .plain ++ rest)) =
        written.mode.keyword.map .plain ++ rest := by
    cases written.mode <;> rfl
  have bare : ∀ cell ∈ (skipBlanks (Cell.plain ' ' ::
      (written.mode.keyword.map .plain ++ rest))).head?, shown cell ≠ '"' := by
    rw [skipped]
    cases written.mode <;>
      · rintro _ ⟨⟩
        decide
  rw [Procedure.readExecuteAs, Procedure.leadingIdentifier_map_shown bare,
    skipped, (while_stopped (fun shown => !isBlank shown) visible stops).1]
  cases written.mode <;> rfl

end WrittenClauses

end Snowform
