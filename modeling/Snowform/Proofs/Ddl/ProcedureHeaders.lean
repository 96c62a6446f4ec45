import Snowform.Proofs.Ddl.Slices
import Snowform.Proofs.Ddl.SpacedColumns
import Snowform.Proofs.Lexical.Tags

/-!
# Procedures up to their bodies

What a procedure says in front of its body is read alike whatever the body is,
if it ends in a blank.  No clause reaches further, and the first word `AS`
behind it that is not part of `EXECUTE AS` introduces the body.
-/

namespace Snowform

open Text Lexical

/-- A name is read alike whatever follows the character that ends it. -/
theorem readName_append {list : List Cell}
    (ended : ∃ cell ∈ skipBlanks list, endsName (shown cell) = true)
    (object : ObjectKind) (behind : List Cell) :
    readName object (list ++ behind) =
      (readName object list).map (Prod.map id (· ++ behind)) := by
  have nonempty : ¬ (skipBlanks list).isEmpty = true := by
    obtain ⟨cell, member, -⟩ := ended
    rw [List.isEmpty_iff]
    exact List.ne_nil_of_mem member
  have start : skipBlanks (list ++ behind) = skipBlanks list ++ behind := by
    rw [skipBlanks, List.dropWhile_append]
    exact if_neg nonempty
  have stops : ∃ cell ∈ skipBlanks list, (!endsName (shown cell)) = false := by
    obtain ⟨cell, member, ends⟩ := ended
    exact ⟨cell, member, by rw [ends]; rfl⟩
  obtain ⟨taken, left⟩ := while_append
    (fun shown => !endsName shown) stops behind
  have same : nameCells (list ++ behind) = nameCells list := by
    rw [nameCells, start, taken, nameCells]
  rw [readName_eq, readName_eq, same, start, left]
  split
  · rfl
  · cases readSource (nameCells list) with
    | error failure => rfl
    | ok text =>
        dsimp only [bind, Except.bind]
        split <;> rfl

theorem endsName_of_isBlank {character : Char}
    (blank : isBlank character = true) : endsName character = true := by
  simp [endsName, blank]

section

variable {first : Cell} (starts : shown first = 'A') (others : List Cell)

include starts

namespace Procedure

omit starts in
theorem trimStart_map_shown (list : List Cell) :
    trimStart (list.map shown) = (skipBlanks list).map shown :=
  List.dropWhile_map

omit starts in
theorem leadingIdentifier_map_shown {list : List Cell}
    (bare : ∀ element ∈ (skipBlanks list).head?, shown element ≠ '"') :
    (leadingIdentifier (list.map shown)).1 =
      ((skipBlanks list).takeWhile
        (shows fun shown => !isBlank shown)).map shown := by
  have noQuote : (trimStart (list.map shown)).head? ≠ some '"' := by
    rw [trimStart_map_shown, List.head?_map]
    intro same
    obtain ⟨element, isHead, quote⟩ := Option.map_eq_some_iff.mp same
    exact bare element isHead quote
  rw [leadingIdentifier_of_head_ne noQuote, List.span_eq_takeWhile_dropWhile,
    trimStart_map_shown, List.takeWhile_map]
  rfl

omit starts in
/-- No other word than `OWNER` names the owner. -/
theorem readExecuteAs_of_head {list : List Cell}
    (other : ∀ element ∈ (skipBlanks list).head?,
      (shown element).toUpper ≠ 'O') : readExecuteAs list = .caller := by
  have trimmed := trimStart_map_shown list
  rw [readExecuteAs, if_neg]
  intro same
  cases visible : skipBlanks list with
  | nil =>
      rw [visible] at trimmed
      rw [leadingIdentifier, trimmed] at same
      cases same
  | cons element rest =>
      rw [visible] at other trimmed
      by_cases quote : shown element = '"'
      · rw [List.map_cons, quote] at trimmed
        rw [leadingIdentifier_of_quote trimmed] at same
        cases same
      · have bare : ∀ element ∈ (skipBlanks list).head?,
            shown element ≠ '"' := by
          simpa [visible] using quote
        rw [leadingIdentifier_map_shown bare, visible, List.takeWhile_cons]
          at same
        split at same
        · exact other element rfl (List.cons.inj same).1
        · cases same

/-- Whose rights are named does not depend on what follows the blank. -/
theorem readExecuteAs_append {list : List Cell} (ends : EndsInBlank list) :
    readExecuteAs (list ++ first :: others) = readExecuteAs list := by
  have visibleFirst : isBlank (shown first) = false := by
    rw [starts]
    decide
  have behind := skipBlanks_append visibleFirst others list
  cases visible : skipBlanks list with
  | nil =>
      rw [visible] at behind
      rw [readExecuteAs_of_head, readExecuteAs_of_head]
      · simp [visible]
      · simp [behind, starts]
  | cons element rest =>
      by_cases quote : shown element = '"'
      · rw [visible] at behind
        rw [readExecuteAs_of_head, readExecuteAs_of_head]
        · simp [visible, quote]
        · simp [behind, quote]
      · have nonempty : skipBlanks list ≠ [] := by simp [visible]
        obtain ⟨cell, member, blank⟩ := (ends.of_suffix
          (leaves_skipBlanks list).suffix).exists_isBlank nonempty
        have stops : ∃ cell ∈ skipBlanks list,
            (!isBlank (shown cell)) = false :=
          ⟨cell, member, by rw [blank]; rfl⟩
        obtain ⟨taken, -⟩ := while_append
          (fun shown => !isBlank shown) stops (first :: others)
        rw [readExecuteAs, readExecuteAs, leadingIdentifier_map_shown,
          leadingIdentifier_map_shown, behind, taken]
        · simpa [visible] using quote
        · simpa [behind, visible] using quote

/-! ## The word that introduces the body -/

omit starts in
/-- Wherever `AS` is seen as a word, it belongs to `EXECUTE AS`. -/
def OnlyExecutes (behind list : List Cell) : Prop :=
  ∀ before after, list = before ++ after →
    (wholeWord? "AS" (before.reverse ++ behind) after).isSome = true →
      followsExecute (before.reverse ++ behind) = true

omit starts in
theorem OnlyExecutes.tail {behind rest : List Cell} {element : Cell}
    (only : OnlyExecutes behind (element :: rest)) :
    OnlyExecutes (element :: behind) rest := by
  intro before after parts found
  have shifted : (element :: before).reverse ++ behind =
      before.reverse ++ element :: behind := by
    rw [List.reverse_cons, List.append_assoc, List.singleton_append]
  rw [← shifted] at found ⊢
  exact only _ after (by rw [parts, List.cons_append]) found

omit starts in
/-- All words belong to `EXECUTE AS` if no body is found. -/
theorem OnlyExecutes.of_findBody? {mode : Option ExecuteAs}
    {behind list : List Cell} (none : findBody? mode behind list = none) :
    OnlyExecutes behind list := by
  induction list generalizing mode behind with
  | nil =>
      intro before after parts found
      obtain ⟨rfl, rfl⟩ := List.append_eq_nil_iff.mp parts.symm
      rw [wholeWord?] at found
      split at found <;> cases found
  | cons element rest ih =>
      rw [findBody?] at none
      intro before after parts found
      cases before with
      | nil =>
          rw [List.nil_append] at parts
          rw [← parts, List.reverse_nil, List.nil_append] at found
          rw [List.reverse_nil, List.nil_append]
          obtain ⟨behindWord, here⟩ := Option.isSome_iff_exists.mp found
          rw [here] at none
          dsimp only at none
          split at none
          next executes => exact executes
          next => cases none
      | cons first front =>
          obtain ⟨rfl, rfl⟩ := List.cons.inj parts
          rw [List.reverse_cons, List.append_assoc] at found ⊢
          split at none
          next => exact ih none front after rfl found
          next =>
            split at none
            next => exact ih none front after rfl found
            next => cases none

/-- A search for the body passes over words that belong to `EXECUTE AS`. -/
theorem exists_findBody?_append {behind list : List Cell}
    (ends : EndsInBlank list) (only : OnlyExecutes behind list)
    (mode : Option ExecuteAs) :
    ∃ later, ∀ others, findBody? mode behind (list ++ first :: others) =
      findBody? later (list.reverse ++ behind) (first :: others) := by
  induction list generalizing behind mode with
  | nil => exact ⟨mode, fun _ => rfl⟩
  | cons element rest ih =>
      have endsRest := ends.of_suffix (List.suffix_cons element rest)
      have word : ∀ others,
          wholeWord? "AS" behind (element :: rest ++ first :: others) =
            (wholeWord? "AS" behind (element :: rest)).map
              (· ++ first :: others) := fun others =>
        wholeWord?_append (by decide) ends (List.cons_ne_nil _ _) _
      have shifted : (element :: rest).reverse ++ behind =
          rest.reverse ++ element :: behind := by
        rw [List.reverse_cons, List.append_assoc, List.singleton_append]
      cases here : wholeWord? "AS" behind (element :: rest) with
      | none =>
          obtain ⟨later, same⟩ := ih endsRest only.tail mode
          refine ⟨later, fun others => ?_⟩
          have nowhere := word others
          rw [here, List.cons_append] at nowhere
          rw [List.cons_append, findBody?, nowhere, shifted]
          exact same others
      | some after =>
          have executes := only [] (element :: rest) rfl (by
            rw [List.reverse_nil, List.nil_append, here]
            rfl)
          have endsAfter := ends.of_suffix
            (leaves_of_wholeWord? (by decide) here).suffix
          obtain ⟨later, same⟩ :=
            ih endsRest only.tail (some (readExecuteAs after))
          refine ⟨later, fun others => ?_⟩
          have found := word others
          rw [here, List.cons_append] at found
          have execute : followsExecute behind = true := executes
          rw [List.cons_append, findBody?, found, shifted]
          dsimp only [Option.map_some]
          rw [if_pos execute, readExecuteAs_append starts others endsAfter]
          exact same others

end Procedure

end

namespace Procedure

/-- A search for a body passes over what lacks the word. -/
theorem findBody?_of_lacks {passed behind rest : List Cell}
    (lacks : Lacks "AS" rest behind passed) (mode : Option ExecuteAs) :
    findBody? mode behind (passed ++ rest) =
      findBody? mode (passed.reverse ++ behind) rest := by
  induction passed generalizing behind with
  | nil => rfl
  | cons cell others ih =>
      rw [List.cons_append, findBody?, lacks.1, List.reverse_cons,
        List.append_assoc]
      exact ih lacks.2

/-- Whatever does not start with an A is passed over. -/
theorem findBody?_pass {passed : List Cell}
    (other : ∀ cell ∈ passed, isKeywordLetter 'A' (shown cell) = false)
    (mode : Option ExecuteAs) (behind rest : List Cell) :
    findBody? mode behind (passed ++ rest) =
      findBody? mode (passed.reverse ++ behind) rest :=
  findBody?_of_lacks (lacks_of_quiet rfl other behind) mode

/-- The word `AS` introduces a body, unless it belongs to `EXECUTE AS`. -/
theorem findBody?_as {behind : List Cell} (mode : Option ExecuteAs)
    (ends : startsWith isWord behind = false) {others : List Cell}
    (apart : startsWith isWord others = false) :
    findBody? mode behind (.plain 'A' :: .plain 'S' :: others) =
      if followsExecute behind then
        findBody? (some (readExecuteAs others))
          (.plain 'S' :: .plain 'A' :: behind) others
      else
        some (mode, behind.length, others) := by
  have boundary : isBoundary behind (.plain 'A' :: .plain 'S' :: others) =
      true := by
    rw [isBoundary, ends]
    rfl
  have keyword : keyword? "AS" (.plain 'A' :: .plain 'S' :: others) =
      some others := rfl
  have word : wholeWord? "AS" behind (.plain 'A' :: .plain 'S' :: others) =
      some others := by
    rw [wholeWord?, if_pos boundary, keyword]
    exact if_neg (ne_true_of_eq_false apart)
  have quiet : ∀ cell ∈ [Cell.plain 'S'],
      isKeywordLetter 'A' (shown cell) = false := by
    decide
  rw [findBody?, word]
  dsimp only
  split
  · exact findBody?_pass quiet _ _ others
  · rfl

/-- The return type stands in the header, or in its parentheses. -/
theorem returnType?_append {behind : List Cell}
    (unclosed : ∀ cell ∈ behind, shown cell ≠ ')')
    (unopened : startsWith (· == '(') behind = false) (header : List Cell) :
    returnType? header (header ++ behind) = returnType? header header := by
  rw [returnType?, returnType?]
  cases found : findFirst returns? [] header with
  | none => rfl
  | some clause =>
      obtain ⟨before, _, word⟩ := clause
      have leaves := leaves_of_findFirst_returns? found
      have after := leaves_dropWhile continuesTypeWord word
      have list := leaves.trans (after.trans (leaves_skipBlanks _))
      have alone := leaves.drop_append []
      have listAlone := list.drop_append []
      rw [List.append_nil, List.append_nil] at alone listAlone
      simp only [Option.bind_eq_bind, Option.bind_some, leaves.drop_append,
        list.drop_append, alone, listAlone]
      split
      next =>
        rw [parenthesised?_append unclosed unopened]
        cases closed : parenthesised? (skipBlanks
            (word.dropWhile (shows continuesTypeWord))) with
        | none => rfl
        | some parts =>
            have suffix := (after.trans ((leaves_skipBlanks _).trans
              (leaves_tail_of_parenthesised? closed))).suffix
            simp only [Option.map_some, Option.bind_some, Prod.map, id]
            rw [upTo_append_append suffix]
      next => rfl

end Procedure

end Snowform
