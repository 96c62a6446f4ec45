import Snowform.Proofs.Ddl.ProcedureBodies
import Snowform.Proofs.Lexical.Parting

/-!
# Procedures up to their parameters

A text that names a procedure and lists its parameters is read alike whatever
is written behind the list.  The parenthesis that closes the list stands in
code, so that what follows is masked alone, and no reader of the name or of the
parameters goes further.
-/

namespace Snowform

open Text Lexical

namespace Lexical

/-- What follows a mark that a masked script ends in is masked alone. -/
theorem cells_append_of_mark {script : Text} {before : List Cell} {cell : Cell}
    (mark : isMark (shown cell) = true)
    (parts : cells script = before ++ [cell]) (rest : Text) :
    cells (script ++ rest) = cells script ++ cells rest := by
  obtain ⟨neutral, -, noFeed⟩ := isMark_iff.mp mark
  obtain ⟨first, second, cut, -, gone⟩ := exists_lexemes_of_mark mark parts
  have nothing : second = [] := by
    have source := source?_regions second
    rw [gone] at source
    refine eq_nil_of_textOf_eq_nil ?_ (Option.some.inj source).symm
    intro region member
    refine (isLexeme_of_mem_lexemesFrom false script region ?_).1
    rw [← lexemes, cut]
    exact List.mem_append_right _ (List.mem_cons_of_mem _ member)
  subst nothing
  have whole : script = textOf first ++ [shown cell] := by
    rw [← textOf_lexemes script, cut, textOf_append]
    rfl
  have settled : Settled false (textOf first) := by
    have same := cut
    rw [whole] at same
    exact settled_of_boundary neutral noFeed same
  have regions : ∀ rest, lexemes (script ++ rest) =
      lexemes (textOf first) ++ ⟨.code, [shown cell]⟩ :: lexemes rest := by
    intro rest
    rw [whole, List.append_assoc, List.singleton_append, lexemes,
      settled _ (StartsNeutral.of_cons neutral rest)]
    exact congrArg _ (lexemesFrom_neutral neutral _ rest)
  have alone := regions []
  rw [List.append_nil] at alone
  rw [cells, cells, cells, regions, alone, List.flatMap_append,
    List.flatMap_append, List.append_assoc]
  rfl

end Lexical

namespace Procedure

/-! ## Behind the parameters -/

/-- What is read behind the parameters. -/
def readBehind (name : QualifiedName) (parameters : List Parameter)
    (tail : List Cell) : Reading Procedure := do
  let (mode, before, body) ← Reading.require
    (.missingBody .procedure) (findBody? none [] tail)
  let header := tail.take before
  let returnType ← (returnType? header tail).mapM readSource
  let written ← readSource (dropFinalBlanks body)
  return {
    name := name
    parameters := parameters
    returnType := returnType
    body := stripDelimiters (trim written)
    comment := ← Reading.ofFault (findComment header)
    language := languageOf header
    executeAs := mode }

theorem readClauses_eq (name : QualifiedName) (list : List Cell) :
    readClauses name list = (do
      let (inside, tail) ← Reading.require
        (.unbalancedParentheses .parameters) (parenthesised? list)
      readBehind name (readParameters (← readSource inside)) tail) :=
  rfl

theorem read_of_listed {statement : Text} {name : QualifiedName}
    {inside tail : List Cell} {written : Text}
    (listed : Listed statement name inside tail)
    (source : sourceOf inside = .ok written) :
    read statement = readBehind name (readParameters written) tail := by
  obtain ⟨start, rest, ⟨flags, head, named⟩, list⟩ := listed
  have nonempty : ¬ (rest.dropWhile (shows (· != '('))).isEmpty = true := by
    intro empty
    rw [List.isEmpty_iff.mp empty] at list
    cases list
  have found : readList start =
      .ok (name, rest.dropWhile (shows (· != '('))) := by
    rw [readList, named]
    exact if_neg nonempty
  rw [read_eq, Reading.require_eq_ok_iff.mpr head]
  dsimp only [bind, Except.bind]
  rw [found]
  dsimp only
  have inParentheses : readSource inside = .ok written :=
    Reading.ofFault_eq_ok_iff.mpr source
  rw [readClauses_eq, list]
  dsimp only [Reading.require, bind, Except.bind]
  rw [inParentheses]

/-! ## Texts that end in their parameters -/

/-- What is listed does not depend on what follows the list. -/
theorem Listed.append {statement : Text} {name : QualifiedName}
    {inside : List Cell} (listed : Listed statement name inside [])
    (more : Text) : Listed (statement ++ more) name inside (cells more) := by
  obtain ⟨start, rest, ⟨flags, head, named⟩, list⟩ := listed
  obtain ⟨opening, closing, parts, opens, closes⟩ := exists_parentheses list
  have suffixName : rest <:+ skipBlanks start := by
    rw [rest_of_readName named]
    exact List.dropWhile_suffix _
  have openingRest : opening ∈ rest := by
    apply (List.dropWhile_suffix (shows (· != '('))).subset
    rw [parts]
    exact List.mem_cons_self
  have closingStart : [closing] <:+ start := by
    have inList : [closing] <:+ rest.dropWhile (shows (· != '(')) := by
      rw [parts]
      exact (List.suffix_append inside _).trans (List.suffix_cons opening _)
    exact ((inList.trans (List.dropWhile_suffix _)).trans suffixName).trans
      (leaves_skipBlanks start).suffix
  have headBehind : readHead? .procedure (cells statement ++ cells more) =
      some (flags, start ++ cells more) :=
    readHead?_append_of_some head closingStart (by rw [closes]; decide)
      (by rw [closes]; exact isUnspelled_of_toUpper rfl (by decide) rfl) _
  have nameBehind : readName .procedure (start ++ cells more) =
      .ok (name, rest ++ cells more) := by
    have ended : ∃ cell ∈ skipBlanks start, endsName (shown cell) = true :=
      ⟨opening, suffixName.subset openingRest, by rw [opens]; decide⟩
    rw [readName_append ended, named]
    rfl
  have listBehind : parenthesised? ((rest ++ cells more).dropWhile
      (shows (· != '('))) = some (inside, cells more) := by
    have stops : ∃ cell ∈ rest, (shown cell != '(') = false :=
      ⟨opening, openingRest, by rw [opens]; decide⟩
    rw [(while_append (· != '(') stops (cells more)).2]
    exact parenthesised?_append_of_some list (cells more)
  obtain ⟨before, whole⟩ :=
    closingStart.trans (leaves_of_readHead? head).suffix
  have mark : isMark (shown closing) = true := by
    rw [closes]
    decide
  rw [← cells_append_of_mark mark whole.symm] at headBehind
  exact ⟨_, _, ⟨flags, headBehind, nameBehind⟩, listBehind⟩

/-- A text that names a procedure and ends behind its parameters. -/
def Declares (head : Text) (name : QualifiedName)
    (parameters : List Parameter) : Prop :=
  ∃ inside written, Listed head name inside [] ∧
    sourceOf inside = .ok written ∧ readParameters written = parameters

/-- What is written behind the parameters is read alone. -/
theorem Declares.read_append {head : Text} {name : QualifiedName}
    {parameters : List Parameter} (declares : Declares head name parameters)
    (more : Text) :
    read (head ++ more) = readBehind name parameters (cells more) := by
  obtain ⟨inside, written, listed, source, rfl⟩ := declares
  exact read_of_listed (listed.append more) source

end Procedure

end Snowform
