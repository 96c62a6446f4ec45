import Snowform.Ddl.Procedure
import Snowform.Ddl.Table
import Snowform.Proofs.Text.Trimming

/-!
# Recognisers read what is shown

A recogniser looks only at the characters that the elements of a list show.
So it finds in a list what it finds in the text that the list shows, and
leaves there what it leaves here, as it is shown.
-/

namespace Snowform

open Text Lexical

variable {α : Type} [Shown α]

/-- The text that a list shows. -/
def shownText (list : List α) : Text :=
  list.map shown

@[simp]
theorem shownText_nil : shownText ([] : List α) = [] := rfl

@[simp]
theorem shownText_cons (element : α) (rest : List α) :
    shownText (element :: rest) = shown element :: shownText rest := rfl

@[simp]
theorem length_shownText (list : List α) :
    (shownText list).length = list.length :=
  List.length_map _

theorem drop_shownText (count : Nat) (list : List α) :
    (shownText list).drop count = shownText (list.drop count) :=
  List.map_drop.symm

theorem take_shownText (count : Nat) (list : List α) :
    (shownText list).take count = shownText (list.take count) :=
  List.map_take.symm

@[simp]
theorem shown_char (character : Char) : shown character = character := rfl

/-- Steps that agree on what is seen agree together. -/
theorem bind_map_eq_map_bind {β γ δ ε : Type} {first : Option β}
    {form : β → γ} {seen : γ → Option δ} {next : β → Option ε} {last : ε → δ}
    (alike : ∀ value, seen (form value) = (next value).map last) :
    first.map form >>= seen = (first >>= next).map last := by
  cases first with
  | none => rfl
  | some value => exact alike value

namespace Lexical

theorem dropWhile_shownText (test : Char → Bool) (list : List α) :
    (shownText list).dropWhile (shows test) =
      shownText (list.dropWhile (shows test)) :=
  List.dropWhile_map

theorem takeWhile_shownText (test : Char → Bool) (list : List α) :
    (shownText list).takeWhile (shows test) =
      shownText (list.takeWhile (shows test)) :=
  List.takeWhile_map

/-- What lies in front of a place is shown alike on both sides. -/
theorem upTo_shownText (list after : List α) :
    upTo (shownText list) (shownText after) = shownText (upTo list after) := by
  rw [upTo, upTo, length_shownText, length_shownText, take_shownText]

@[simp]
theorem startsWith_shownText (test : Char → Bool) (list : List α) :
    startsWith test (shownText list) = startsWith test list := by
  cases list <;> rfl

@[simp]
theorem isBoundary_shownText (behind ahead : List α) :
    isBoundary (shownText behind) (shownText ahead) =
      isBoundary behind ahead := by
  rw [isBoundary, isBoundary, startsWith_shownText, startsWith_shownText]

/-! ## Keywords and blanks -/

/-- Blanks are seen as blanks, so the same ones are skipped. -/
theorem skipBlanks_shownText (list : List α) :
    skipBlanks (shownText list) = shownText (skipBlanks list) :=
  dropWhile_shownText isBlank list

/-- A keyword is recognised by what is shown. -/
theorem keyword?_shownText (word : Text) (list : List α) :
    keyword? word (shownText list) = (keyword? word list).map shownText := by
  induction word generalizing list with
  | nil => rfl
  | cons letter letters ih =>
      cases list with
      | nil => rfl
      | cons element rest =>
          rw [shownText_cons, keyword?, keyword?, shown_char, ih]
          split <;> rfl

theorem character?_shownText (expected : Char) (list : List α) :
    character? expected (shownText list) =
      (character? expected list).map shownText := by
  cases list with
  | nil => rfl
  | cons element rest =>
      rw [shownText_cons, character?, character?, shown_char]
      split <;> rfl

theorem blanks?_shownText (list : List α) :
    blanks? (shownText list) = (blanks? list).map shownText := by
  rw [blanks?, blanks?, startsWith_shownText, skipBlanks_shownText]
  split <;> rfl

/-- A phrase is recognised word by word in what is shown. -/
theorem phrase?_shownText (phrase : List Text) (list : List α) :
    phrase? phrase (shownText list) = (phrase? phrase list).map shownText := by
  induction phrase generalizing list with
  | nil => rfl
  | cons word others ih =>
      rw [phrase?, phrase?, keyword?_shownText,
        bind_map_eq_map_bind blanks?_shownText]
      exact bind_map_eq_map_bind ih

theorem optionalPhrase_shownText (phrase : List Text) (list : List α) :
    optionalPhrase phrase (shownText list) =
      (optionalPhrase phrase list).map id shownText := by
  rw [optionalPhrase, optionalPhrase, phrase?_shownText]
  cases phrase? phrase list <;> rfl

/-- Whether a word stands alone is told from what is shown around it. -/
theorem wholeWord?_shownText (word : Text) (behind ahead : List α) :
    wholeWord? word (shownText behind) (shownText ahead) =
      (wholeWord? word behind ahead).map shownText := by
  rw [wholeWord?, wholeWord?, isBoundary_shownText, keyword?_shownText]
  split
  · cases keyword? word ahead with
    | none => rfl
    | some rest =>
        simp only [Option.map_some, startsWith_shownText]
        split <;> rfl
  · rfl

/-! ## Parentheses -/

/-- Parentheses close at the same place of what is shown. -/
theorem closing?_shownText (quote : Option Char) (depth : Nat)
    (list : List α) :
    closing? quote depth (shownText list) =
      (closing? quote depth list).map (Prod.map shownText shownText) := by
  induction list generalizing quote depth with
  | nil => rfl
  | cons element rest ih =>
      rw [shownText_cons, closing?.eq_def, closing?.eq_def]
      have keep : ∀ parts : Option (List α × List α),
          (parts.map (Prod.map shownText shownText)).map
              (fun parts => (shown element :: parts.1, parts.2)) =
            (parts.map fun parts => (element :: parts.1, parts.2)).map
              (Prod.map shownText shownText) := by
        intro parts
        cases parts <;> rfl
      simp only [shown_char, ih, keep]
      cases quote with
      | some mark =>
          simp only
          split <;> rfl
      | none =>
          simp only
          split
          · rfl
          · split
            · rfl
            · split
              · cases depth <;> rfl
              · rfl

/-- The inside of parentheses and the rest behind it are found alike. -/
theorem parenthesised?_shownText (list : List α) :
    parenthesised? (shownText list) =
      (parenthesised? list).map (Prod.map shownText shownText) := by
  rw [parenthesised?, parenthesised?, character?_shownText]
  exact bind_map_eq_map_bind (closing?_shownText none 0)

/-- Parentheses are counted in what is shown. -/
theorem parenthesisBalance_shownText (list : List α) :
    parenthesisBalance (shownText list) = parenthesisBalance list := by
  simp only [parenthesisBalance, shownText, List.countP_map]
  rfl

/-! ## Searching -/

/--
A recogniser of texts finds the shown form of what a recogniser of lists
finds, where the lists show the texts.
-/
def Shows {β γ : Type} (form : β → γ) (recognise : Recogniser α β)
    (seen : Recogniser Char γ) : Prop :=
  ∀ behind ahead, seen (shownText behind) (shownText ahead) =
    (recognise behind ahead).map (Prod.map form shownText)

/--
The first place where something is recognised is the same in what is shown, if
the recogniser goes by what is shown.
-/
theorem findFirst_shownText {β γ : Type} {form : β → γ}
    {recognise : Recogniser α β} {seen : Recogniser Char γ}
    (alike : Shows form recognise seen) (behind list : List α) :
    findFirst seen (shownText behind) (shownText list) =
      (findFirst recognise behind list).map
        (Prod.map shownText (Prod.map form shownText)) := by
  induction list generalizing behind with
  | nil => rfl
  | cons element rest ih =>
      rw [findFirst, shownText_cons, findFirst, ← shownText_cons, alike,
        ← shownText_cons, ih]
      cases recognise behind (element :: rest) <;> rfl

/-- All places where something is recognised are found in what is shown. -/
theorem occurrences_shownText {β γ : Type} {form : β → γ}
    {recognise : Recogniser α β} {seen : Recogniser Char γ}
    (alike : Shows form recognise seen) (list : List α) :
    occurrences seen (shownText list) =
      (occurrences recognise list).map (Prod.map shownText form) := by
  have step : ∀ (skip : Nat) (behind list : List α),
      occurrencesFrom seen skip (shownText behind) (shownText list) =
        (occurrencesFrom recognise skip behind list).map
          (Prod.map shownText form) := by
    intro skip behind list
    induction list generalizing skip behind with
    | nil => rfl
    | cons element rest ih =>
        cases skip with
        | succ skip => exact ih skip (element :: behind)
        | zero =>
            rw [occurrencesFrom, shownText_cons, occurrencesFrom,
              ← shownText_cons, alike, ← shownText_cons]
            cases recognise behind (element :: rest) with
            | none => exact ih 0 (element :: behind)
            | some parts =>
                simp only [Option.map_some, Prod.map, length_shownText, ih,
                  List.map_cons]
  exact step 0 [] list

end Lexical

/-! ## Heads of statements -/

/-- The words in front of the kind of an object are read from what is shown. -/
theorem beforeKind?_shownText (object : ObjectKind) (list : List α) :
    beforeKind? object (shownText list) =
      (beforeKind? object list).map (Prod.map id shownText) := by
  rw [beforeKind?, beforeKind?, skipBlanks_shownText, phrase?_shownText]
  apply bind_map_eq_map_bind
  intro start
  rw [optionalPhrase_shownText]
  cases object with
  | view =>
      simp only [Prod.map, optionalPhrase_shownText]
      rfl
  | table => rfl
  | procedure => rfl

/-- The head of a statement is read from what is shown. -/
theorem readHead?_shownText (object : ObjectKind) (list : List α) :
    readHead? object (shownText list) =
      (readHead? object list).map (Prod.map id shownText) := by
  rw [readHead?, readHead?, beforeKind?_shownText]
  apply bind_map_eq_map_bind
  intro parts
  simp only [Prod.map, phrase?_shownText]
  apply bind_map_eq_map_bind
  intro rest
  rw [optionalPhrase_shownText]
  rfl

/-! ## Clauses -/

/-- A clause that a keyword at a word boundary starts. -/
theorem clause?_shownText {β γ : Type} {last : β → γ} {word : Text}
    {next : List α → Option β} {seen : Text → Option γ}
    (alike : ∀ rest, seen (shownText rest) = (next rest).map last)
    (behind ahead : List α) :
    (if isBoundary (shownText behind) (shownText ahead) then
      keyword? word (shownText ahead) >>= seen else none >>= seen) =
        (if isBoundary behind ahead then
          keyword? word ahead >>= next else none >>= next).map last := by
  rw [isBoundary_shownText, keyword?_shownText]
  split
  · exact bind_map_eq_map_bind alike
  · rfl

/-- A comment clause is found by what is shown, and its text starts there. -/
theorem commentClause?_shows :
    Shows shownText (commentClause? : Recogniser α (List α))
      commentClause? := by
  intro behind ahead
  apply clause?_shownText
  intro keyword
  beta_reduce
  rw [skipBlanks_shownText, character?_shownText]
  apply bind_map_eq_map_bind
  intro equals
  rw [skipBlanks_shownText, character?_shownText]
  apply bind_map_eq_map_bind
  intro inside
  simp only [dropWhile_shownText, character?_shownText]
  cases character? '\'' (inside.dropWhile (shows (· != '\''))) with
  | none =>
      simp only [Option.map_none, Option.getD_none, upTo_shownText]
      rfl
  | some after =>
      simp only [Option.map_some, Option.getD_some, upTo_shownText]
      rfl

theorem asKeyword?_shows :
    Shows id (asKeyword? : Recogniser α Unit) asKeyword? := by
  intro behind ahead
  rw [asKeyword?, asKeyword?, wholeWord?_shownText]
  cases wholeWord? "AS" behind ahead <;> rfl

namespace Procedure

theorem followsExecute_shownText (behind : List α) :
    followsExecute (shownText behind) = followsExecute behind := by
  rw [followsExecute, followsExecute, skipBlanks_shownText,
    keyword?_shownText]
  cases keyword? "ETUCEXE" (skipBlanks behind) with
  | none => rfl
  | some before => simp only [Option.map_some, startsWith_shownText]

/-- Whose rights a procedure uses is read from what is shown. -/
theorem readExecuteAs_shownText (list : List α) :
    readExecuteAs (shownText list) = readExecuteAs list := by
  have shownTwice : (shownText list).map shown = list.map shown :=
    List.map_id _
  rw [readExecuteAs, readExecuteAs, shownTwice]

/-- The body of a procedure starts at the same place of what is shown. -/
theorem findBody?_shownText (mode : Option ExecuteAs) (behind list : List α) :
    findBody? mode (shownText behind) (shownText list) =
      (findBody? mode behind list).map
        (Prod.map id (Prod.map id shownText)) := by
  induction list generalizing mode behind with
  | nil => rfl
  | cons element rest ih =>
      rw [findBody?, shownText_cons, findBody?, ← shownText_cons,
        wholeWord?_shownText, ← shownText_cons]
      cases wholeWord? "AS" behind (element :: rest) with
      | none => exact ih mode (element :: behind)
      | some after =>
          simp only [Option.map_some, followsExecute_shownText,
            readExecuteAs_shownText, length_shownText]
          split
          · exact ih _ (element :: behind)
          · rfl

theorem returns?_shows :
    Shows id (returns? : Recogniser α Unit) returns? := by
  intro behind ahead
  apply clause?_shownText
  intro keyword
  beta_reduce
  rw [blanks?_shownText]
  apply bind_map_eq_map_bind
  intro word
  rw [startsWith_shownText]
  split <;> rfl

theorem language?_shows :
    Shows id (language? : Recogniser α Text) language? := by
  intro behind ahead
  apply clause?_shownText
  intro keyword
  beta_reduce
  rw [blanks?_shownText]
  apply bind_map_eq_map_bind
  intro word
  rw [startsWith_shownText]
  split
  · simp only [dropWhile_shownText, takeWhile_shownText]
    change some ((shownText _).map id, _) = _
    rw [List.map_id]
    rfl
  · rfl

/--
The type that a procedure returns ends at the same place of what is shown.
-/
theorem returnType?_shownText (header text : List α) :
    returnType? (shownText header) (shownText text) =
      (returnType? header text).map shownText := by
  have first := findFirst_shownText returns?_shows [] header
  rw [returnType?, returnType?]
  rw [shownText_nil] at first
  rw [first]
  apply bind_map_eq_map_bind
  intro parts
  simp only [Prod.map, length_shownText, drop_shownText, dropWhile_shownText,
    skipBlanks_shownText, startsWith_shownText, parenthesised?_shownText]
  split
  · apply bind_map_eq_map_bind
    intro closed
    simp only [Prod.map, upTo_shownText]
    rfl
  · simp only [upTo_shownText]
    rfl

/-- The language of a procedure is read from what is shown. -/
theorem languageOf_shownText (header : List α) :
    languageOf (shownText header) = languageOf header := by
  rw [languageOf, languageOf, occurrences_shownText language?_shows,
    List.find?_map]
  have balance : ((fun clause : Text × Text =>
      parenthesisBalance clause.1 == 0) ∘ Prod.map shownText id) =
        fun clause : List α × Text => parenthesisBalance clause.1 == 0 := by
    funext clause
    exact congrArg (· == (0 : Int)) (parenthesisBalance_shownText clause.1)
  rw [balance]
  cases (occurrences language? header).find? fun clause =>
      parenthesisBalance clause.1 == 0 with
  | none => rfl
  | some clause => rfl

end Procedure

theorem dropFinalBlanks_shownText (list : List α) :
    dropFinalBlanks (shownText list) = shownText (dropFinalBlanks list) := by
  rw [dropFinalBlanks, dropFinalBlanks, shownText, dropEndWhile_map]
  rfl

end Snowform
