import Mathlib.Data.Bool.AllAny
import Snowform.Proofs.Ddl.BodyLiterals
import Snowform.Proofs.Ddl.ProcedureHeaders
import Snowform.Proofs.Text.Folding

/-!
# Procedures and how their bodies are written

A procedure is the same whether its body stands between dollar markers or is a
string.  What stands in front of the body must be closed and end in a blank,
and no other word `AS` may be seen behind the parameters but those of
`EXECUTE AS`.

A dollar marker in front of the body shows its tag.  So the body starts inside
of a literal that is tagged `AS`.
-/

namespace Snowform

open Text Lexical

namespace Procedure

/-! ## Statements up to their bodies -/

/-- What can stand in front of the word `AS` that introduces a body. -/
structure IsHeader (header : Text) : Prop where
  closed : IsClosed header
  ends : EndsInBlank header
  executes : ∀ name inside tail, Listed header name inside tail →
    OnlyExecutes [] tail

/--
What can follow the word `AS` up to the end of a statement: no parenthesis is
seen in it, and what is seen last is no blank.
-/
structure Follows (written : Text) : Prop where
  starts : startsWith isBlank written = true
  quiet : ∀ cell ∈ cells written, shown cell ≠ '(' ∧ shown cell ≠ ')'
  ends : ∃ last ∈ (cells written).getLast?, isBlank (shown last) = false

/-- A word `AS` and what is written behind it. -/
def introduced (written : Text) : List Cell :=
  .plain 'A' :: .plain 'S' :: cells written

/-- What introduces no body. -/
def IsWordless (list : List Cell) : Prop :=
  ∀ mode behind, findBody? mode behind list = none

section

variable {written : Text} (follows : Follows written)

include follows

/-- The blank behind the word is seen. -/
theorem Follows.exists_cells :
    ∃ blank others, written = blank :: others ∧ isBlank blank = true ∧
      cells written = .plain blank :: cells others ∧
      lexemesFrom 0 true written = lexemes written := by
  have starts := follows.starts
  cases written with
  | nil => cases starts
  | cons blank others =>
      have isBlank : isBlank blank = true := starts
      have neutral := isNeutral_of_isBlank isBlank
      refine ⟨blank, others, rfl, isBlank, ?_, ?_⟩
      · rw [cells, lexemes, lexemesFrom_neutral neutral]
        rfl
      · rw [lexemes, lexemesFrom_neutral neutral, lexemesFrom_neutral neutral]

theorem Follows.startsWith_cells (test : Char → Bool)
    (fails : ∀ character, isBlank character = true → test character = false) :
    startsWith test (cells written) = false := by
  obtain ⟨blank, others, -, isBlank, masked, -⟩ := follows.exists_cells
  rw [masked]
  exact fails blank isBlank

theorem Follows.cells_word : cells ("AS" ++ written) = introduced written := by
  obtain ⟨-, -, -, -, -, alike⟩ := follows.exists_cells
  have quiet : IsQuiet "AS" := by decide
  have name : nameBehind false "AS" = true := by decide
  rw [cells, lexemes, lexemesFrom_quiet quiet, name, alike,
    List.flatMap_append, cells_codeRegions]
  rfl

theorem IsHeader.cells_append {header : Text} (isHeader : IsHeader header) :
    cells (header ++ ("AS" ++ written)) =
      cells header ++ introduced written := by
  rw [(isHeader.closed.cells_append isHeader.ends).2, follows.cells_word]

theorem Follows.readSource_dropFinalBlanks :
    readSource (dropFinalBlanks (cells written)) = .ok written := by
  obtain ⟨last, isLast, visible⟩ := follows.ends
  have kept : dropFinalBlanks (cells written) = cells written := by
    obtain ⟨front, parts⟩ := List.getLast?_eq_some_iff.mp isLast
    rw [parts, dropFinalBlanks, dropEndWhile_concat, if_neg]
    rw [shows, visible]
    exact Bool.false_ne_true
  rw [kept, readSource, sourceOf_eq_ok_iff.mpr (source?_cells written)]
  rfl

theorem Follows.unclosed : ∀ cell ∈ introduced written, shown cell ≠ ')' := by
  rw [introduced]
  simp only [List.forall_mem_cons]
  exact ⟨by decide, by decide, fun cell member =>
    (follows.quiet cell member).2⟩

end

theorem not_startsWith_isWord_reverse {list : List Cell}
    (ends : EndsInBlank list) : startsWith isWord list.reverse = false := by
  rw [Bool.eq_false_iff, startsWith, List.head?_reverse]
  intro word
  obtain ⟨last, isLast, isWord⟩ := (Option.any_eq_true _ _).mp word
  have blank := ends last isLast
  rw [not_isBlank_of_isWord isWord] at blank
  cases blank

/-- A body is found behind a header, unless `EXECUTE` stands before it. -/
theorem findBody?_header {tail : List Cell} (ends : EndsInBlank tail)
    (only : OnlyExecutes [] tail) :
    ∃ mode, ∀ {written}, Follows written →
      (followsExecute tail.reverse = true → IsWordless (cells written)) →
      findBody? none [] (tail ++ introduced written) =
        if followsExecute tail.reverse then
          none
        else
          some (mode, tail.length, cells written) := by
  have starts : shown (Cell.plain 'A') = 'A' := rfl
  have noWord : ∀ character, isBlank character = true →
      isWord character = false := by
    intro character blank
    rw [Bool.eq_false_iff]
    intro word
    rw [not_isBlank_of_isWord word] at blank
    cases blank
  obtain ⟨mode, found⟩ := exists_findBody?_append starts ends only none
  refine ⟨mode, fun {written} follows wordless => ?_⟩
  rw [introduced, found, List.append_nil,
    findBody?_as mode (not_startsWith_isWord_reverse ends)
      (follows.startsWith_cells isWord noWord), List.length_reverse]
  split
  next executes => exact wordless executes _ _
  next => rfl

/-! ## Two statements that differ in their bodies -/

/-- The name of a procedure, and what follows it from the parameters on. -/
def readList (start : List Cell) : Reading (QualifiedName × List Cell) := do
  let (name, rest) ← readName .procedure start
  let list := rest.dropWhile (shows (· != '('))
  if list.isEmpty then
    Reading.reject .missingParameterList
  else
    return (name, list)

/-- What is read from the parameters on. -/
def readClauses (name : QualifiedName) (list : List Cell) :
    Reading Procedure := do
  let (inside, tail) ← Reading.require
    (.unbalancedParentheses .parameters) (parenthesised? list)
  let parameters := readParameters (← readSource inside)
  let (mode, before, body) ← Reading.require
    (.missingBody .procedure) (findBody? none [] tail)
  let header := tail.take before
  let returnType ← (returnType? header tail).mapM readSource
  let written ← readSource (dropFinalBlanks body)
  return {
    name := name
    parameters := parameters
    returnType := returnType
    body := stripDelimiters (trim written)
    comment := ← Reading.ofFault (findComment header)
    language := languageOf header
    executeAs := mode }

theorem read_eq (statement : Text) :
    read statement = (do
      let (_, start) ← Reading.require (.missingName .procedure)
        (readHead? .procedure (cells statement))
      let (name, list) ← readList start
      readClauses name list) := by
  rw [read]
  cases Reading.require (.missingName .procedure)
      (readHead? .procedure (cells statement)) with
  | error failure => rfl
  | ok found =>
      obtain ⟨flags, start⟩ := found
      dsimp only [readList, bind, Except.bind]
      cases readName .procedure start with
      | error failure => rfl
      | ok named =>
          dsimp only
          split <;> rfl

section

variable {written : Text} (follows : Follows written)

include follows

/-- The parameters stand in the header, or there are none. -/
theorem Follows.dropWhile_append (list : List Cell) :
    (list ++ introduced written).dropWhile (shows (· != '(')) =
      if (list.dropWhile (shows (· != '('))).isEmpty then
        []
      else
        list.dropWhile (shows (· != '(')) ++ introduced written := by
  have none : (introduced written).dropWhile (shows (· != '(')) = [] := by
    rw [introduced, List.dropWhile_eq_nil_iff]
    simp only [List.forall_mem_cons]
    refine ⟨rfl, rfl, fun cell member => ?_⟩
    rw [shows, bne_iff_ne]
    exact (follows.quiet cell member).1
  rw [List.dropWhile_append, none]

/-- Behind a head without a name the word is taken for the name. -/
theorem Follows.readName_introduced {start : List Cell}
    (nameless : skipBlanks start = []) :
    readName .procedure (start ++ introduced written) =
      .ok ({ name := "AS" }, cells written) := by
  obtain ⟨blank, others, -, isBlank, masked, -⟩ := follows.exists_cells
  have visible : Snowform.Text.isBlank (shown (Cell.plain 'A')) = false := by
    decide
  have stops : ¬ shows (fun shown => !endsName shown) (Cell.plain blank) =
      true := by
    change ¬ (!endsName blank) = true
    simp [endsName_of_isBlank isBlank]
  have name : (introduced written).takeWhile
      (shows fun shown => !endsName shown) = [.plain 'A', .plain 'S'] := by
    rw [introduced, masked, List.takeWhile_cons_of_pos rfl,
      List.takeWhile_cons_of_pos rfl, List.takeWhile_cons_of_neg stops]
  have behind : (introduced written).dropWhile
      (shows fun shown => !endsName shown) = cells written := by
    rw [introduced, masked, List.dropWhile_cons_of_pos rfl,
      List.dropWhile_cons_of_pos rfl, List.dropWhile_cons_of_neg stops]
  rw [readName_eq, nameCells, introduced, skipBlanks_append visible, nameless,
    List.nil_append, ← introduced, name, behind]
  rfl

theorem Follows.readList_append {start : List Cell}
    (ends : EndsInBlank start) :
    readList (start ++ introduced written) =
      if skipBlanks start = [] then
        Reading.reject .missingParameterList
      else
        (readList start).map (Prod.map id (· ++ introduced written)) := by
  split
  next nameless =>
    have behind : (cells written).dropWhile (shows (· != '(')) = [] := by
      rw [List.dropWhile_eq_nil_iff]
      intro cell member
      rw [shows, bne_iff_ne]
      exact (follows.quiet cell member).1
    rw [readList, follows.readName_introduced nameless]
    dsimp only [bind, Except.bind]
    rw [behind]
    rfl
  next nonempty =>
    obtain ⟨cell, member, blank⟩ := (ends.of_suffix
      (leaves_skipBlanks start).suffix).exists_isBlank nonempty
    have named : readName .procedure (start ++ introduced written) =
        (readName .procedure start).map
          (Prod.map id (· ++ introduced written)) :=
      readName_append ⟨cell, member, endsName_of_isBlank blank⟩ .procedure _
    rw [readList, readList, named]
    cases readName .procedure start with
    | error failure => rfl
    | ok found =>
        dsimp only [Except.map, bind, Except.bind, Prod.map, id]
        rw [follows.dropWhile_append]
        split
        next => rfl
        next more =>
          rw [if_neg (by simp [introduced])]
          rfl

end

/-- Two procedures that are what stands between two words and a body. -/
def SameBut (first second : Text) (procedure other : Procedure) : Prop :=
  procedure = { other with body := stripDelimiters (trim first) } ∧
    other.body = stripDelimiters (trim second)

/-- Two statements differ in their bodies only, as far as they are read. -/
theorem readClauses_alike {first second : Text} (one : Follows first)
    (two : Follows second) (name : QualifiedName) {list : List Cell}
    (ends : EndsInBlank list)
    (behind : ∀ inside tail, parenthesised? list = some (inside, tail) →
      OnlyExecutes [] tail ∧ (followsExecute tail.reverse = true →
        IsWordless (cells first) ∧ IsWordless (cells second))) :
    Agree (SameBut first second)
      (readClauses name (list ++ introduced first))
      (readClauses name (list ++ introduced second)) := by
  rw [readClauses, readClauses,
    parenthesised?_append one.unclosed rfl,
    parenthesised?_append two.unclosed rfl]
  cases parts : parenthesised? list with
  | none => exact .failed _
  | some found =>
      obtain ⟨inside, tail⟩ := found
      obtain ⟨only, wordless⟩ := behind inside tail parts
      have endsTail := ends.of_suffix
        (leaves_tail_of_parenthesised? parts).suffix
      obtain ⟨mode, body⟩ := findBody?_header endsTail only
      rw [Option.map_some, Option.map_some]
      dsimp only [Reading.require, Prod.map, id, bind, Except.bind]
      cases readSource inside with
      | error failure => exact .failed failure
      | ok parameters =>
          dsimp only
          rw [body one fun executes => (wordless executes).1,
            body two fun executes => (wordless executes).2]
          cases followsExecute tail.reverse with
          | true => exact .failed _
          | false =>
              simp only [Bool.false_eq_true, if_false, List.take_left,
                returnType?_append one.unclosed rfl,
                returnType?_append two.unclosed rfl,
                one.readSource_dropFinalBlanks, two.readSource_dropFinalBlanks]
              cases (returnType? tail tail).mapM readSource with
              | error failure => exact .failed failure
              | ok returnType =>
                  cases Reading.ofFault (findComment tail) with
                  | error failure => exact .failed failure
                  | ok comment => exact .read ⟨rfl, rfl⟩

theorem exists_name_of_readList {start list : List Cell} {name : QualifiedName}
    (read : readList start = .ok (name, list)) :
    ∃ rest, readName .procedure start = .ok (name, rest) ∧
      list = rest.dropWhile (shows (· != '(')) := by
  obtain ⟨⟨called, rest⟩, named, listed⟩ := bind_eq_ok_iff.mp read
  dsimp only at listed
  split at listed
  next => cases listed
  next =>
    cases listed
    exact ⟨rest, named, rfl⟩

/-- Procedures that differ in what follows their header are read alike. -/
theorem statements_read_alike {header first second : Text}
    (isHeader : IsHeader header) (one : Follows first) (two : Follows second)
    (wordless : ∀ name inside tail, Listed header name inside tail →
      followsExecute tail.reverse = true →
        IsWordless (cells first) ∧ IsWordless (cells second)) :
    Agree (SameBut first second)
      (read (header ++ ("AS" ++ first)))
      (read (header ++ ("AS" ++ second))) := by
  have ends := (isHeader.closed.cells_append isHeader.ends).1
  have stands : StandsBehind (cells header) (Cell.plain 'A') := .word rfl ends
  have heads : ∀ {written}, Follows written →
      Reading.require (.missingName .procedure)
        (readHead? .procedure (cells (header ++ ("AS" ++ written)))) =
          (Reading.require (.missingName .procedure)
            (readHead? .procedure (cells header))).map
              (Prod.map id (· ++ introduced written)) := by
    intro written follows
    rw [isHeader.cells_append follows, ← Reading.require_map]
    exact congrArg _ (readHead?_append stands _ .procedure)
  rw [read_eq, read_eq, heads one, heads two]
  cases head : Reading.require (.missingName .procedure)
      (readHead? .procedure (cells header)) with
  | error failure => exact .failed failure
  | ok found =>
      obtain ⟨flags, start⟩ := found
      rw [Reading.require_eq_ok_iff] at head
      have endsStart := ends.of_suffix (leaves_of_readHead? head).suffix
      dsimp only [Except.map, bind, Except.bind, Prod.map, id]
      rw [one.readList_append endsStart, two.readList_append endsStart]
      by_cases nameless : skipBlanks start = []
      · rw [if_pos nameless, if_pos nameless]
        exact .failed _
      · rw [if_neg nameless, if_neg nameless]
        cases list : readList start with
        | error failure => exact .failed failure
        | ok found =>
            obtain ⟨name, list⟩ := found
            obtain ⟨rest, named, rfl⟩ := exists_name_of_readList list
            have endsList := (endsStart.of_suffix
              (leaves_of_readName named).suffix).of_suffix
                (leaves_dropWhile (· != '(') rest).suffix
            refine readClauses_alike one two name endsList ?_
            intro inside tail parts
            have listed : Listed header name inside tail :=
              ⟨start, rest, ⟨flags, head, named⟩, parts⟩
            exact ⟨isHeader.executes name inside tail listed,
              wordless name inside tail listed⟩

/-! ### Bodies behind one blank -/

/-- What is read as a body wherever it stands. -/
structure Delimits (written body : Text) : Prop where
  quiet : ∀ cell ∈ cells written, shown cell ≠ '(' ∧ shown cell ≠ ')'
  ends : ∃ last ∈ (cells written).getLast?, isBlank (shown last) = false
  inside : stripDelimiters (trim written) = trim body

theorem cells_cons_blank (written : Text) :
    cells (' ' :: written) = .plain ' ' :: cells written := by
  have neutral : isNeutral ' ' = true := by decide
  rw [cells, lexemes, lexemesFrom_neutral neutral]
  rfl

theorem Delimits.follows {written body : Text}
    (delimits : Delimits written body) : Follows (' ' :: written) where
  starts := rfl
  quiet := by
    rw [cells_cons_blank, List.forall_mem_cons]
    exact ⟨by decide, delimits.quiet⟩
  ends := by
    obtain ⟨last, isLast, visible⟩ := delimits.ends
    rw [cells_cons_blank]
    exact ⟨last, List.mem_getLast?_cons isLast, visible⟩

theorem IsWordless.cons_blank {written : Text}
    (wordless : IsWordless (cells written)) :
    IsWordless (cells (' ' :: written)) := by
  have quiet : ∀ cell ∈ [Cell.plain ' '],
      isKeywordLetter 'A' (shown cell) = false := by
    decide
  intro mode behind
  rw [cells_cons_blank, ← List.singleton_append, findBody?_pass quiet]
  exact wordless mode _

/-- Procedures that differ in how their body is written are read alike. -/
theorem bodies_read_alike {header first second body : Text}
    (isHeader : IsHeader header) (one : Delimits first body)
    (two : Delimits second body)
    (wordless : ∀ name inside tail, Listed header name inside tail →
      followsExecute tail.reverse = true →
        IsWordless (cells first) ∧ IsWordless (cells second)) :
    Agree (fun procedure other =>
        procedure = other ∧ other.body = trim body)
      (read (header ++ ("AS " ++ first)))
      (read (header ++ ("AS " ++ second))) := by
  have alike := statements_read_alike isHeader one.follows two.follows
    fun name inside tail listed executes =>
      (wordless name inside tail listed executes).imp
        IsWordless.cons_blank IsWordless.cons_blank
  have blank : ∀ written, ("AS " : Text) ++ written = "AS" ++ ' ' :: written :=
    fun _ => rfl
  rw [blank, blank]
  revert alike
  generalize read (header ++ ("AS" ++ ' ' :: first)) = procedure
  generalize read (header ++ ("AS" ++ ' ' :: second)) = other
  rintro (⟨failure⟩ | ⟨rfl, same⟩)
  · exact .failed failure
  · rw [trim_cons_blank, two.inside] at same
    refine .read ⟨?_, same⟩
    rw [trim_cons_blank, one.inside, ← same]

/-- Only a missing body is missed behind the parameters. -/
theorem findBody?_eq_none_of_readClauses {name : QualifiedName}
    {list inside tail : List Cell}
    (parts : parenthesised? list = some (inside, tail))
    (lacking : readClauses name list =
      .error (.rejected (.missingBody .procedure))) :
    findBody? none [] tail = none := by
  rw [readClauses, parts] at lacking
  rcases bind_eq_error_iff.mp lacking with missing | ⟨_, same, lacking⟩
  · cases missing
  cases same
  rcases bind_eq_error_iff.mp lacking with source | ⟨_, -, lacking⟩
  · exact absurd source Reading.ofFault_ne_rejected
  rcases bind_eq_error_iff.mp lacking with
    missing | ⟨⟨_, before, _⟩, -, lacking⟩
  · cases found : findBody? none [] tail with
    | none => rfl
    | some body =>
        rw [found] at missing
        cases missing
  exfalso
  rcases bind_eq_error_iff.mp lacking with typed | ⟨_, -, lacking⟩
  · cases returned : returnType? (tail.take before) tail with
    | none =>
        rw [returned] at typed
        cases typed
    | some type =>
        rw [returned, Option.mapM_some] at typed
        exact Reading.ofFault_ne_rejected (map_eq_error_iff.mp typed)
  rcases bind_eq_error_iff.mp lacking with source | ⟨_, -, lacking⟩
  · exact absurd source Reading.ofFault_ne_rejected
  rcases bind_eq_error_iff.mp lacking with comment | ⟨_, -, lacking⟩
  · exact absurd comment Reading.ofFault_ne_rejected
  · cases lacking

/-- What only lacks a body is the header of a procedure. -/
theorem IsHeader.of_read {header : Text} (closed : IsClosed header)
    (ends : EndsInBlank header)
    (lacking : read header = .error (.rejected (.missingBody .procedure))) :
    IsHeader header := by
  refine ⟨closed, ends, ?_⟩
  rintro name inside tail ⟨start, rest, ⟨flags, head, named⟩, parts⟩
  have nonempty : ¬ (rest.dropWhile (shows (· != '('))).isEmpty = true := by
    intro empty
    rw [List.isEmpty_iff.mp empty] at parts
    cases parts
  have listed : readList start =
      .ok (name, rest.dropWhile (shows (· != '('))) := by
    rw [readList, named]
    exact if_neg nonempty
  rw [read_eq, Reading.require_eq_ok_iff.mpr head] at lacking
  dsimp only [bind, Except.bind] at lacking
  rw [listed] at lacking
  exact .of_findBody? (findBody?_eq_none_of_readClauses parts lacking)

/-! ## Strings and dollar literals -/

theorem delimits_stringLiteral (body : Text) :
    Delimits (stringLiteral body) body where
  quiet := by
    intro cell member
    have others : ∀ character ∈ ['\'', '_', '\n'],
        character ≠ '(' ∧ character ≠ ')' :=
      List.all_iff_forall_prop.mp (by decide)
    exact others _ (shown_of_mem_stringLiteral member)
  ends := by
    rw [cells_stringLiteral, ← List.cons_append, List.getLast?_concat]
    exact ⟨_, rfl, by decide⟩
  inside := by
    rw [trim_of_ends (head?_stringLiteral body) (getLast?_stringLiteral body)
      (by decide), stripDelimiters_stringLiteral]

theorem isWordless_stringLiteral (body : Text) :
    IsWordless (cells (stringLiteral body)) := by
  have others : ∀ character ∈ ['\'', '_', '\n'],
      isKeywordLetter 'A' character = false :=
    List.all_iff_forall_prop.mp (by decide)
  have quiet : ∀ cell ∈ cells (stringLiteral body),
      isKeywordLetter 'A' (shown cell) = false :=
    fun cell member => others _ (shown_of_mem_stringLiteral member)
  intro mode behind
  have passed := findBody?_pass quiet mode behind []
  rw [List.append_nil] at passed
  exact passed

section

variable {tag body : Text} (tagged : IsTag tag)
  (free : ¬ (Mode.dollarQuote tag).opening <:+: body)

include tagged free

/-- A masked dollar literal shows its markers, the fill and line feeds. -/
theorem shown_of_mem_dollarLiteral {cell : Cell}
    (member : cell ∈ cells (dollarLiteral tag body)) :
    shown cell ∈ tag ∨ shown cell ∈ ['$', '_', '\n'] := by
  obtain ⟨front, rest, ending, parts⟩ :=
    exists_cells_dollarLiteral tagged free
  have marker : ∀ character ∈ (Mode.dollarQuote tag).opening,
      character ∈ tag ∨ character ∈ ['$', '_', '\n'] := by
    intro character known
    rcases (by simpa [Mode.opening] using known :
      character = '$' ∨ character ∈ tag ∨ character = '$') with
        rfl | inside | rfl
    · exact .inr (by decide)
    · exact .inl inside
    · exact .inr (by decide)
  have behind : ∀ character ∈ rest,
      character ∈ tag ∨ character ∈ ['$', '_', '\n'] := by
    intro character known
    apply marker
    rcases ending with rfl | rfl
    · cases known
    · exact List.mem_cons_of_mem _ known
  rw [parts, List.mem_append, List.mem_append] at member
  rcases member with opening | inside | closing
  · obtain ⟨character, known, rfl⟩ := List.mem_map.mp opening
    exact marker character known
  · refine .inr ?_
    exact forall_shown_of_veil (· ∈ ['$', '_', '\n']) (by decide) (by decide)
      _ inside
  · obtain ⟨character, known, rfl⟩ := List.mem_map.mp closing
    exact (List.mem_append.mp known).elim (marker character) (behind character)

theorem delimits_dollarLiteral : Delimits (dollarLiteral tag body) body where
  quiet := by
    intro cell member
    have others : ∀ character ∈ ['$', '_', '\n'],
        character ≠ '(' ∧ character ≠ ')' :=
      List.all_iff_forall_prop.mp (by decide)
    rcases shown_of_mem_dollarLiteral tagged free member with inside | known
    · have tagCharacter := tagged _ inside
      constructor <;>
        · intro same
          rw [same] at tagCharacter
          cases tagCharacter
    · exact others _ known
  ends := by
    obtain ⟨front, rest, ending, parts⟩ :=
      exists_cells_dollarLiteral tagged free
    have last : ∃ shorter, (Mode.dollarQuote tag).opening ++ rest =
        shorter ++ ['$'] := by
      rcases ending with rfl | rfl
      · exact ⟨'$' :: tag, List.append_nil _⟩
      · exact ⟨_, (List.append_assoc _ _ _).symm⟩
    obtain ⟨shorter, same⟩ := last
    refine ⟨.plain '$', ?_, by decide⟩
    rw [parts, same, List.map_append, ← List.append_assoc, ← List.append_assoc]
    exact List.getLast?_concat
  inside := by
    have dollar : isBlank '$' = false := by decide
    rw [trim_of_ends rfl (getLast?_dollarLiteral tag body) ⟨dollar, dollar⟩,
      stripDelimiters_dollarLiteral tagged]

theorem isWordless_dollarLiteral (other : keyword? "AS" tag ≠ some []) :
    IsWordless (cells (dollarLiteral tag body)) := by
  obtain ⟨front, rest, ending, parts⟩ :=
    exists_cells_dollarLiteral tagged free
  have capital : IsCapital "AS" := by decide
  have hidden : ∀ cell ∈ front.flatMap (veil '_'),
      isKeywordLetter 'A' (shown cell) = false := by
    intro cell member
    rcases shown_of_mem_veil member with same | ⟨same, -⟩ <;> rw [same] <;>
      decide
  have lacksRest : ∀ behind, Lacks "AS" [] behind (rest.map Cell.plain) := by
    intro behind
    rcases ending with rfl | rfl
    · trivial
    · exact lacks_tag capital rfl tagged other behind []
  intro mode behind
  rw [parts, List.map_append,
    findBody?_of_lacks (lacks_marker capital rfl tagged other _ _),
    findBody?_pass hidden,
    findBody?_of_lacks (lacks_marker capital rfl tagged other _ _),
    ← List.append_nil (rest.map Cell.plain), findBody?_of_lacks (lacksRest _)]
  rfl

/-! ## The same body -/

/--
A procedure is the same whether its body is a dollar literal or a string, and
its body is the text of that without blanks around it.
-/
theorem read_dollarLiteral_eq {header : Text} (isHeader : IsHeader header)
    (apart : ∀ name inside tail, Listed header name inside tail →
      followsExecute tail.reverse = true → keyword? "AS" tag ≠ some []) :
    read (header ++ ("AS " ++ dollarLiteral tag body)) =
        read (header ++ ("AS " ++ stringLiteral body)) ∧
      ∀ procedure, read (header ++ ("AS " ++ stringLiteral body)) =
        .ok procedure → procedure.body = trim body := by
  have alike := bodies_read_alike isHeader (delimits_dollarLiteral tagged free)
    (delimits_stringLiteral body) fun name inside tail listed executes =>
      ⟨isWordless_dollarLiteral tagged free
        (apart name inside tail listed executes),
        isWordless_stringLiteral body⟩
  revert alike
  generalize read (header ++ ("AS " ++ dollarLiteral tag body)) = first
  generalize read (header ++ ("AS " ++ stringLiteral body)) = second
  rintro (⟨failure⟩ | ⟨rfl, same⟩)
  · exact ⟨rfl, nofun⟩
  · refine ⟨rfl, ?_⟩
    rintro procedure ⟨⟩
    exact same

end

/-- A header in which the word stands in a string, a comment and a clause. -/
def wordyHeader : Text :=
  "CREATE PROCEDURE p(a INT) COMMENT = 'AS' EXECUTE AS OWNER -- AS\n"

/-- A body with a quote, a parenthesis and most of a marker at its end. -/
def wordyBody : Text := " it's AS (1) $js"

theorem isHeader_wordyHeader : IsHeader wordyHeader := by
  have lacking : (read wordyHeader).map (·.body) =
      .error (.rejected (.missingBody .procedure)) := by
    decide +kernel
  exact .of_read (by decide +kernel) (by decide +kernel)
    (map_eq_error_iff.mp lacking)

/-- A body with a quote is read alike between dollar quotes and as a string. -/
theorem read_dollarLiteral_eq_wordyBody :
    IsHeader wordyHeader ∧ IsTag "js" ∧
      ¬ (Mode.dollarQuote "js").opening <:+: wordyBody ∧
      (∀ name inside tail, Listed wordyHeader name inside tail →
        followsExecute tail.reverse = true →
          keyword? "AS" ("js" : Text) ≠ some []) ∧
      read (wordyHeader ++ ("AS " ++ dollarLiteral "js" wordyBody)) =
        read (wordyHeader ++ ("AS " ++ stringLiteral wordyBody)) ∧
      ∀ procedure, read (wordyHeader ++ ("AS " ++ stringLiteral wordyBody)) =
        .ok procedure → procedure.body = trim wordyBody := by
  have isHeader := isHeader_wordyHeader
  have tagged : IsTag "js" := List.all_eq_true.mp (by decide)
  have free : ¬ (Mode.dollarQuote "js").opening <:+: wordyBody := by
    decide +kernel
  have apart : ∀ name inside tail, Listed wordyHeader name inside tail →
      followsExecute tail.reverse = true →
        keyword? "AS" ("js" : Text) ≠ some [] :=
    fun _ _ _ _ _ => by decide
  exact ⟨isHeader, tagged, free, apart,
    read_dollarLiteral_eq tagged free isHeader apart⟩

/-- A header with a comment that is tagged by the word. -/
def taggedHeader : Text :=
  "CREATE PROCEDURE p() RETURNS INT COMMENT = $AS$x$AS$ "

/-- The body starts inside of the comment. -/
theorem taggedHeader_hides_body :
    (read (taggedHeader ++ ("AS " ++ dollarLiteral [] "b"))).map (·.body) =
        .ok "$x$AS$ AS $$b$$" ∧
      (read (taggedHeader ++ ("AS " ++ stringLiteral "b"))).map (·.body) =
        .ok "$x$AS$ AS 'b'" := by
  decide +kernel

end Procedure

end Snowform
