import Mathlib.Data.List.Nodup
import Snowform.Proofs.Ddl.ClauseSearches
import Snowform.Proofs.Ddl.DeclaredProcedures

/-!
# Clauses in any order

The clauses of a procedure are read alike in every order.  Four searches go
over all of them, one for each clause, and every search passes over the clauses
that it is not for.

The search for the body meets the word `AS` of `EXECUTE AS` first, and then the
one in front of the body.  The search for the language overlooks what stands in
parentheses.
-/

namespace Snowform

open Text Lexical

/-! ## Layouts -/

namespace WrittenClauses

variable (written : WrittenClauses)

/-- Clauses with blanks behind each of them. -/
def partsText (parts : List (ClauseKind × Text)) : Text :=
  parts.flatMap fun part => written.clause part.1 ++ part.2

/-- What a masked statement shows of clauses. -/
def partsCells (parts : List (ClauseKind × Text)) : List Cell :=
  parts.flatMap fun part =>
    cells (written.clause part.1) ++ part.2.map .plain

/-- Each clause has blanks behind it. -/
def Spaced (parts : List (ClauseKind × Text)) : Prop :=
  ∀ part ∈ parts, part.2 ≠ [] ∧ IsBlankText part.2

instance (parts : List (ClauseKind × Text)) : Decidable (Spaced parts) :=
  List.decidableBAll _ parts

variable {parts : List (ClauseKind × Text)} (spaced : Spaced parts)

include spaced

theorem isPart_partsText : IsPart (written.partsText parts) := by
  induction parts with
  | nil => exact isPart_nil
  | cons part others ih =>
      rw [Spaced, List.forall_mem_cons] at spaced
      have gap := isStill_of_isBlankText spaced.1.2
      have bare : StartsBare (written.partsText others) := by
        cases others with
        | nil => exact ⟨nofun, nofun⟩
        | cons next more =>
            rw [partsText, List.flatMap_cons, List.append_assoc]
            exact written.startsBare_clause next.1 _
      exact ((written.isPart_clause part.1).append (isPart_code gap)
        gap.startsBare).append (ih spaced.2) bare

theorem cells_partsText_append {rest : Text} (phrase : IsPhrase rest)
    (bare : StartsBare rest) :
    cells (written.partsText parts ++ rest) =
      written.partsCells parts ++ cells rest := by
  induction parts with
  | nil => rfl
  | cons part others ih =>
      rw [Spaced, List.forall_mem_cons] at spaced
      have gap := isStill_of_isBlankText spaced.1.2
      have behind := (written.isPart_partsText spaced.2).isPhrase_append rest
        phrase bare
      have spread : written.partsText (part :: others) ++ rest =
          written.clause part.1 ++
            (part.2 ++ (written.partsText others ++ rest)) := by
        simp only [partsText, List.flatMap_cons, List.append_assoc]
      have bareGap : StartsBare
          (part.2 ++ (written.partsText others ++ rest)) := by
        obtain ⟨first, more, same⟩ := List.exists_cons_of_ne_nil spaced.1.1
        have known := gap.startsBare
        rw [same] at known ⊢
        exact known
      rw [spread, (written.isPart_clause part.1).cells_append _
        (isPhrase_code_append behind gap) bareGap,
        cells_code_append behind gap, ih spaced.2]
      simp only [partsCells, List.flatMap_cons, List.append_assoc]

theorem endsInBlank_partsCells : EndsInBlank (written.partsCells parts) := by
  induction parts using List.reverseRecOn with
  | nil => exact nofun
  | append_singleton others part ih =>
      obtain ⟨nonempty, blank⟩ := spaced part (by simp)
      intro last isLast
      have whole : written.partsCells (others ++ [part]) =
          (written.partsCells others ++ cells (written.clause part.1)) ++
            part.2.map .plain := by
        simp [partsCells]
      have same : (part.2.map Cell.plain).getLast? = some last := by
        rw [whole, List.getLast?_append_of_ne_nil _ (by simpa using nonempty)]
          at isLast
        exact isLast
      obtain ⟨character, member, rfl⟩ :=
        List.mem_map.mp (List.mem_of_getLast? same)
      exact blank character member

theorem parenthesisBalance_partsCells :
    parenthesisBalance (written.partsCells parts) = 0 := by
  induction parts with
  | nil => rfl
  | cons part others ih =>
      rw [Spaced, List.forall_mem_cons] at spaced
      rw [partsCells, List.flatMap_cons, parenthesisBalance_append,
        parenthesisBalance_append, written.parenthesisBalance_clause,
        parenthesisBalance_blanks spaced.1.2, ← partsCells, ih spaced.2]
      rfl

/--
What holds of the clauses one by one, where nothing but blanks follows and no
parenthesis is open, and of blanks, holds of clauses with blanks behind them.
-/
theorem passes_partsCells {passes : List Cell → List Cell → List Cell → Prop}
    (nil : ∀ rest behind, passes rest behind [])
    (append : ∀ {rest behind first second : List Cell},
      passes (second ++ rest) behind first →
        passes rest (first.reverse ++ behind) second →
          passes rest behind (first ++ second))
    (blanks : ∀ {gap : Text}, IsBlankText gap → ∀ rest behind,
      passes rest behind (gap.map .plain))
    (clauses : ∀ part ∈ parts, ∀ {rest behind : List Cell},
      startsWith isWord rest = false → parenthesisBalance behind = 0 →
        passes rest behind (cells (written.clause part.1)))
    {behind : List Cell} (closed : parenthesisBalance behind = 0)
    (rest : List Cell) : passes rest behind (written.partsCells parts) := by
  induction parts generalizing behind with
  | nil => exact nil rest behind
  | cons part others ih =>
      rw [Spaced, List.forall_mem_cons] at spaced
      rw [List.forall_mem_cons] at clauses
      obtain ⟨nonempty, blank⟩ := spaced.1
      have starts := startsWith_isWord_of_isBlank
        (startsWith_gap nonempty blank (written.partsCells others ++ rest))
      have parted : written.partsCells (part :: others) =
          cells (written.clause part.1) ++
            (part.2.map .plain ++ written.partsCells others) := by
        simp only [partsCells, List.flatMap_cons, List.append_assoc]
      rw [parted]
      refine append ?_ (append (blanks blank _ _) (ih spaced.2 clauses.2 ?_))
      · rw [List.append_assoc]
        exact clauses.1 starts closed
      · simp [parenthesisBalance_blanks blank,
          written.parenthesisBalance_clause, closed]

end WrittenClauses

/-- An order of the clauses, with blanks around all of them. -/
structure ClauseLayout where
  lead : Text
  parts : List (ClauseKind × Text)
  blank : IsBlankText lead
  spaced : WrittenClauses.Spaced parts
  complete : (parts.map Prod.fst).Perm
    [.returns, .language, .comment, .executes]

namespace ClauseLayout

variable (layout : ClauseLayout) (written : WrittenClauses)

/-- The clauses as they are written in their order. -/
def text : Text :=
  layout.lead ++ written.partsText layout.parts

/-- A clause, and what stands around it. -/
structure StandsAt (kind : ClauseKind) (before : List (ClauseKind × Text))
    (gap : Text) (after : List (ClauseKind × Text)) : Prop where
  parts : layout.parts = before ++ (kind, gap) :: after
  others : ∀ part ∈ before ++ after, part.1 ≠ kind

/-- Every clause stands somewhere, and only there. -/
theorem exists_standsAt (kind : ClauseKind) :
    ∃ before gap after, layout.StandsAt kind before gap after := by
  have member : kind ∈ layout.parts.map Prod.fst := by
    rw [layout.complete.mem_iff]
    cases kind <;> decide
  have distinct : (layout.parts.map Prod.fst).Nodup :=
    layout.complete.nodup_iff.mpr (by decide)
  obtain ⟨⟨named, gap⟩, inside, rfl⟩ := List.mem_map.mp member
  obtain ⟨before, after, parts⟩ := List.append_of_mem inside
  rw [parts, List.map_append, List.map_cons, List.nodup_middle,
    ← List.map_append, List.nodup_cons] at distinct
  exact ⟨before, gap, after, parts, fun part member same =>
    distinct.1 (same ▸ List.mem_map_of_mem member)⟩

/-- What a masked statement shows of clauses behind the first blanks. -/
def frontCells (before : List (ClauseKind × Text)) : List Cell :=
  layout.lead.map .plain ++ written.partsCells before

theorem endsInBlank_frontCells {before : List (ClauseKind × Text)}
    (spaced : WrittenClauses.Spaced before) :
    EndsInBlank (layout.frontCells written before) := by
  have lead : EndsInBlank (layout.lead.map Cell.plain) := by
    intro last isLast
    obtain ⟨character, member, rfl⟩ :=
      List.mem_map.mp (List.mem_of_getLast? isLast)
    exact layout.blank character member
  exact lead.append (written.endsInBlank_partsCells spaced)

namespace StandsAt

variable {layout written} {kind : ClauseKind}
  {before after : List (ClauseKind × Text)} {gap : Text}
  (stands : layout.StandsAt kind before gap after)

include stands

theorem spaced : WrittenClauses.Spaced before ∧
    (gap ≠ [] ∧ IsBlankText gap) ∧
    WrittenClauses.Spaced after := by
  have spaced := layout.spaced
  rw [stands.parts, WrittenClauses.Spaced, List.forall_mem_append,
    List.forall_mem_cons] at spaced
  exact spaced

theorem frontCells_eq :
    layout.frontCells written layout.parts =
      layout.frontCells written before ++ (cells (written.clause kind) ++
        (gap.map .plain ++ written.partsCells after)) := by
  simp only [frontCells, WrittenClauses.partsCells, stands.parts,
    List.flatMap_append, List.flatMap_cons, List.append_assoc]

theorem startsWith_reverse (written : WrittenClauses) :
    startsWith isWord (layout.frontCells written before).reverse = false :=
  Procedure.not_startsWith_isWord_reverse
    (layout.endsInBlank_frontCells written stands.spaced.1)

theorem parenthesisBalance_frontCells :
    parenthesisBalance (layout.frontCells written before) = 0 := by
  rw [frontCells, parenthesisBalance_append,
    parenthesisBalance_blanks layout.blank,
    written.parenthesisBalance_partsCells stands.spaced.1]
  rfl

/-- What holds of blanks and of all clauses but one holds of its front. -/
theorem passes_frontCells
    {passes : List Cell → List Cell → List Cell → Prop}
    (nil : ∀ rest behind, passes rest behind [])
    (append : ∀ {rest behind first second : List Cell},
      passes (second ++ rest) behind first →
        passes rest (first.reverse ++ behind) second →
          passes rest behind (first ++ second))
    (blanks : ∀ {gap : Text}, IsBlankText gap → ∀ rest behind,
      passes rest behind (gap.map .plain))
    (clauses : ∀ other, other ≠ kind → ∀ {rest behind : List Cell},
      startsWith isWord rest = false → parenthesisBalance behind = 0 →
        passes rest behind (cells (written.clause other)))
    (rest : List Cell) :
    passes rest [] (layout.frontCells written before) := by
  refine append (blanks layout.blank _ _) ?_
  refine written.passes_partsCells stands.spaced.1 nil append blanks
    (fun part member => clauses part.1
      (stands.others part (List.mem_append_left _ member))) ?_ rest
  rw [List.append_nil, parenthesisBalance_reverse]
  exact parenthesisBalance_blanks layout.blank

/-- A search for a reserved keyword passes over all clauses up to its own. -/
theorem lacks_frontCells {keyword : Text} (reserved : keyword ∈ reservedWords)
    (own : keyword ∈ kind.keywords) (rest : List Cell) :
    Lacks keyword rest [] (layout.frontCells written before) := by
  have words : ∀ word ∈ reservedWords, IsCapital word ∧ word ≠ [] := by
    decide
  obtain ⟨capital, nonempty⟩ := words keyword reserved
  exact stands.passes_frontCells (fun _ _ => trivial) Lacks.append
    (fun blank => lacks_blanks capital nonempty blank)
    (fun other apart _ _ ends _ => written.lacks_clause capital nonempty
      (ClauseKind.not_mem_keywords apart own)
      (fun _ member => written.asciiUpper_ne_of_mem_freeWords member reserved)
      ends _) rest

end StandsAt

/-! ## The comment -/

theorem findComment_frontCells :
    findComment (layout.frontCells written layout.parts) =
      .ok (some written.comment) := by
  obtain ⟨before, gap, after, stands⟩ := layout.exists_standsAt .comment
  have clause : cells (written.clause .comment) =
      cells (commentText written.comment) := rfl
  apply findComment_of_found
  rw [stands.frontCells_eq, clause, keyedBy_commentClause?.findFirst_append
    (stands.lacks_frontCells (by decide) (by decide) _), List.append_nil]
  exact findFirst_of_some (cells_commentText_append_ne_nil _ _)
    (commentClause?_commentText _ (stands.startsWith_reverse written) _)

end ClauseLayout

/-! ## The return type -/

/-- No parenthesis opens in front of a clause. -/
theorem WrittenClauses.unopened_partsCells (written : WrittenClauses)
    {gap : Text} (blank : IsBlankText gap)
    (parts : List (ClauseKind × Text)) :
    startsWith (· == '(') (skipBlanks (gap.map Cell.plain ++
      written.partsCells parts)) = false := by
  cases parts with
  | nil =>
      rw [partsCells, List.flatMap_nil, List.append_nil,
        skipBlanks_blanks blank]
      rfl
  | cons part others =>
      obtain ⟨behind, starts⟩ := written.exists_cells_clause part.1
      have visible : isBlank (shown (Cell.plain part.1.initial)) = false := by
        cases part.1 <;> decide
      rw [partsCells, List.flatMap_cons, starts, List.cons_append,
        List.cons_append, skipBlanks_append visible, skipBlanks_blanks blank]
      cases part.1 <;> rfl

theorem ClauseLayout.returnType?_frontCells (layout : ClauseLayout)
    (written : WrittenClauses) :
    Procedure.returnType? (layout.frontCells written layout.parts)
        (layout.frontCells written layout.parts) =
      some (written.returned.text.map .plain) := by
  obtain ⟨before, gap, after, stands⟩ := layout.exists_standsAt .returns
  obtain ⟨nonempty, blank⟩ := stands.spaced.2.1
  have code : ClauseKind.returns ≠ .comment := by decide
  have clause : cells (written.clause .returns) =
      ("RETURNS " : Text).map .plain ++
        written.returned.text.map .plain := by
    rw [written.cells_clause code]
    exact List.map_append
  have starts := stands.startsWith_reverse written
  have ends := startsWith_isWord_of_isBlank
    (startsWith_gap nonempty blank (written.partsCells after))
  have parts : layout.frontCells written layout.parts =
      (layout.frontCells written before ++ ("RETURNS " : Text).map .plain) ++
        (written.returned.text.map .plain ++
          (gap.map .plain ++ written.partsCells after)) := by
    rw [stands.frontCells_eq, clause]
    simp only [List.append_assoc]
  have found : findFirst Procedure.returns? []
      (layout.frontCells written layout.parts) =
        some ((layout.frontCells written before).reverse, (),
          written.returned.text.map .plain ++
            (gap.map .plain ++ written.partsCells after)) := by
    rw [parts, List.append_assoc, Procedure.keyedBy_returns?.findFirst_append
      (stands.lacks_frontCells (by decide) (by decide) _), List.append_nil]
    exact findFirst_of_some (List.append_ne_nil_of_left_ne_nil (by decide) _)
      (written.returned.returns?_text starts _)
  rw [parts] at found ⊢
  exact written.returned.returnType?_of_found found ends
    (written.unopened_partsCells blank after)

/-! ## The language -/

theorem ClauseLayout.languageOf_frontCells (layout : ClauseLayout)
    (written : WrittenClauses) :
    Procedure.languageOf (layout.frontCells written layout.parts) =
      written.language := by
  obtain ⟨before, gap, after, stands⟩ := layout.exists_standsAt .language
  have capital : IsCapital "LANGUAGE" := by decide
  have overlooks : ∀ rest, Overlooks Procedure.language? Procedure.isOutside
      rest [] (layout.frontCells written before) :=
    stands.passes_frontCells (fun _ _ => trivial) Overlooks.append
      (fun blank rest behind => Procedure.keyedBy_language?.overlooks _
        (lacks_blanks capital (by decide) blank rest behind))
      (fun other apart _ _ ends closed =>
        written.overlooks_clause apart ends closed)
  have code : ClauseKind.language ≠ .comment := by decide
  have clause : cells (written.clause .language) =
      ("LANGUAGE " : Text).map .plain ++ written.language.map .plain := by
    rw [written.cells_clause code]
    exact List.map_append
  have ends := startsWith_isWord_of_isBlank (startsWith_gap
    stands.spaced.2.1.1 stands.spaced.2.1.2 (written.partsCells after))
  have here := written.language?_text (stands.startsWith_reverse written) ends
  have outside : Procedure.isOutside
      ((layout.frontCells written before).reverse, written.language) =
        true := by
    rw [Procedure.isOutside, parenthesisBalance_reverse,
      stands.parenthesisBalance_frontCells]
    rfl
  rw [← List.append_nil (layout.frontCells written before).reverse]
    at here outside
  rw [stands.frontCells_eq, clause, List.append_assoc, Procedure.languageOf_eq,
    occurrences, (overlooks _).find?_eq (List.append_ne_nil_of_left_ne_nil
      (by decide) _) here outside (Nat.zero_le _)]
  rfl

/-! ## The body -/

namespace WrittenClauses

variable (written : WrittenClauses)

/-- What is seen between the words `AS`. -/
def modeCells (gap : Text) (after : List (ClauseKind × Text)) : List Cell :=
  .plain ' ' :: (written.mode.keyword.map .plain ++
    (gap.map .plain ++ written.partsCells after))

/-- No other word `AS` is seen behind whose rights are used. -/
theorem lacks_modeCells {gap : Text} (nonempty : gap ≠ [])
    (blank : IsBlankText gap) {after : List (ClauseKind × Text)}
    (spaced : Spaced after) (others : ∀ part ∈ after, part.1 ≠ .executes)
    {behind : List Cell} (closed : parenthesisBalance behind = 0)
    (rest : List Cell) :
    Lacks "AS" rest behind (written.modeCells gap after) := by
  have capital : IsCapital "AS" := by decide
  have words : ∀ word ∈ spelled (' ' :: written.mode.keyword),
      keyword? "AS" word ≠ some [] := by
    cases written.mode <;> decide
  have balanced : parenthesisBalance
      ((' ' :: written.mode.keyword).map Cell.plain) = 0 := by
    cases written.mode <;> rfl
  have parts : written.modeCells gap after =
      (' ' :: written.mode.keyword).map .plain ++
        (gap.map .plain ++ written.partsCells after) := rfl
  rw [parts]
  refine (lacks_code capital (by decide) words ?_ _).append
    ((lacks_blanks capital (by decide) blank _ _).append
      (written.passes_partsCells spaced (fun _ _ => trivial) Lacks.append
        (fun blank => lacks_blanks capital (by decide) blank) ?_ ?_ rest))
  · rw [List.append_assoc]
    exact startsWith_isWord_of_isBlank (startsWith_gap nonempty blank _)
  · intro part member rest behind ends _
    exact written.lacks_clause capital (by decide)
      (ClauseKind.not_mem_keywords (others part member) (by decide))
      (fun _ free =>
        written.asciiUpper_ne_of_mem_freeWords free (by decide)) ends behind
  · rw [parenthesisBalance_append, parenthesisBalance_append,
      parenthesisBalance_reverse, parenthesisBalance_reverse,
      parenthesisBalance_blanks blank, balanced, closed]
    rfl

end WrittenClauses

namespace ClauseLayout

variable (layout : ClauseLayout) (written : WrittenClauses)

/-- The last clause has blanks behind it. -/
theorem exists_last : ∃ before kind gap, IsBlankText gap ∧
    layout.frontCells written layout.parts =
      layout.frontCells written before ++
        (cells (written.clause kind) ++ gap.map .plain) := by
  have nonempty : layout.parts ≠ [] := by
    intro nothing
    have complete := layout.complete
    rw [nothing] at complete
    cases complete.symm.eq_nil
  obtain ⟨before, ⟨kind, gap⟩, parts⟩ :=
    (List.eq_nil_or_concat layout.parts).resolve_left nonempty
  have spaced := layout.spaced (kind, gap) (by simp [parts])
  refine ⟨before, kind, gap, spaced.2, ?_⟩
  simp [frontCells, WrittenClauses.partsCells, parts]

/-- The last clause does not end in `EXECUTE`. -/
theorem followsExecute_frontCells : Procedure.followsExecute
    (layout.frontCells written layout.parts).reverse = false := by
  obtain ⟨before, kind, gap, blank, parts⟩ := layout.exists_last written
  rw [parts]
  exact written.followsExecute_clause kind blank _

/-- What is seen up to the word `AS` behind which it is said whose rights. -/
def executeCells (before : List (ClauseKind × Text)) : List Cell :=
  layout.frontCells written before ++ ("EXECUTE " : Text).map .plain

namespace StandsAt

variable {layout} {before after : List (ClauseKind × Text)} {gap : Text}
  (stands : layout.StandsAt .executes before gap after)

include stands

theorem frontCells_eq_executeCells :
    layout.frontCells written layout.parts =
      layout.executeCells written before ++
        .plain 'A' :: .plain 'S' :: written.modeCells gap after := by
  have masked := written.cells_clause
    (show ClauseKind.executes ≠ .comment by decide)
  have clause : (written.clause .executes).map Cell.plain =
      ("EXECUTE " : Text).map .plain ++ .plain 'A' :: .plain 'S' ::
        .plain ' ' :: written.mode.keyword.map .plain := rfl
  rw [stands.frontCells_eq, masked, clause, WrittenClauses.modeCells,
    executeCells]
  simp only [List.append_assoc, List.cons_append]

theorem parenthesisBalance_executeCells :
    parenthesisBalance (Cell.plain 'S' :: Cell.plain 'A' ::
      (layout.executeCells written before).reverse) = 0 := by
  have word : parenthesisBalance [Cell.plain 'S', .plain 'A'] = 0 := rfl
  have execute : parenthesisBalance
      (("EXECUTE " : Text).map Cell.plain) = 0 := rfl
  rw [executeCells, ← List.nil_append (List.reverse _), ← List.cons_append,
    ← List.cons_append, parenthesisBalance_append,
    parenthesisBalance_reverse, parenthesisBalance_append,
    stands.parenthesisBalance_frontCells, word, execute]
  rfl

/-- The first word `AS` says whose rights are used and ends no search. -/
theorem findBody?_executeCells {rest : List Cell}
    (mode : Procedure.readExecuteAs rest = written.mode)
    (apart : startsWith isWord rest = false) :
    Procedure.findBody? none [] (layout.executeCells written before ++
        .plain 'A' :: .plain 'S' :: rest) =
      Procedure.findBody? (some written.mode) (.plain 'S' :: .plain 'A' ::
        (layout.executeCells written before).reverse) rest := by
  have quiet : ∀ cell ∈ ("EXECUTE " : Text).map Cell.plain,
      isKeywordLetter 'A' (shown cell) = false := by
    decide
  have executes : Procedure.followsExecute
      (layout.executeCells written before).reverse = true :=
    Procedure.followsExecute_execute (stands.startsWith_reverse written)
  have blank : startsWith isWord
      (layout.executeCells written before).reverse = false := by
    rw [executeCells, List.reverse_append]
    rfl
  have passed : Lacks "AS" (("EXECUTE " : Text).map .plain ++
      .plain 'A' :: .plain 'S' :: rest) []
      (layout.frontCells written before) :=
    stands.lacks_frontCells (by decide) (by decide) _
  rw [executeCells, List.append_assoc, Procedure.findBody?_of_lacks passed,
    List.append_nil, Procedure.findBody?_pass quiet, ← List.reverse_append,
    ← executeCells, Procedure.findBody?_as none blank apart, if_pos executes,
    mode]

end StandsAt

/-- The word that introduces the body is the last one. -/
theorem findBody?_frontCells {others : List Cell}
    (ends : startsWith isWord others = false) :
    Procedure.findBody? none [] (layout.frontCells written layout.parts ++
        .plain 'A' :: .plain 'S' :: others) =
      some (some written.mode, (layout.frontCells written layout.parts).length,
        others) := by
  obtain ⟨before, gap, after, stands⟩ := layout.exists_standsAt .executes
  obtain ⟨-, ⟨nonempty, blank⟩, spaced⟩ := stands.spaced
  have parts := stands.frontCells_eq_executeCells written
  have mode : Procedure.readExecuteAs (written.modeCells gap after ++
      .plain 'A' :: .plain 'S' :: others) = written.mode := by
    rw [WrittenClauses.modeCells, List.cons_append, List.append_assoc,
      List.append_assoc]
    exact written.readExecuteAs_mode (startsWith_gap nonempty blank _)
  have lacks := written.lacks_modeCells nonempty blank spaced
    (fun part member => stands.others part (List.mem_append_right _ member))
    (stands.parenthesisBalance_executeCells written)
    (.plain 'A' :: .plain 'S' :: others)
  have whole : layout.frontCells written layout.parts ++
      .plain 'A' :: .plain 'S' :: others =
        layout.executeCells written before ++ .plain 'A' :: .plain 'S' ::
          (written.modeCells gap after ++ .plain 'A' :: .plain 'S' :: others) := by
    rw [parts]
    simp only [List.append_assoc, List.cons_append]
  have behind : (written.modeCells gap after).reverse ++ .plain 'S' ::
      .plain 'A' :: (layout.executeCells written before).reverse =
        (layout.frontCells written layout.parts).reverse := by
    rw [parts]
    simp only [List.reverse_append, List.reverse_cons, List.append_assoc,
      List.cons_append, List.nil_append]
  have final := layout.followsExecute_frontCells written
  have blankFinal := Procedure.not_startsWith_isWord_reverse
    (layout.endsInBlank_frontCells written layout.spaced)
  rw [whole, stands.findBody?_executeCells written mode rfl,
    Procedure.findBody?_of_lacks lacks, behind,
    Procedure.findBody?_as _ blankFinal ends, if_neg (by rw [final]; decide),
    List.length_reverse]

end ClauseLayout

/-! ## The statement -/

namespace Procedure

theorem cells_clauses (layout : ClauseLayout) (written : WrittenClauses)
    {body : Text} (free : ¬ (Mode.dollarQuote []).opening <:+: body) :
    cells (layout.text written ++ ("AS " ++ dollarLiteral [] body)) =
      layout.frontCells written layout.parts ++
        introduced (' ' :: dollarLiteral [] body) := by
  have tagged : IsTag [] := List.forall_mem_nil _
  have word : IsStill "AS" := by decide
  have phrase : IsPhrase ("AS" ++ ' ' :: dollarLiteral [] body) :=
    isPhrase_code_append (isPhrase_cons_dollarLiteral tagged free) word
  have bare : StartsBare ("AS" ++ ' ' :: dollarLiteral [] body) :=
    show some 'A' ≠ some '\'' ∧ some 'A' ≠ some '"' by decide
  have follows := (delimits_dollarLiteral tagged free).follows
  have spread : ("AS " : Text) ++ dollarLiteral [] body =
      "AS" ++ ' ' :: dollarLiteral [] body := rfl
  rw [spread, ClauseLayout.text, List.append_assoc,
    cells_code_append ((written.isPart_partsText layout.spaced).isPhrase_append
      _ phrase bare) (isStill_of_isBlankText layout.blank),
    written.cells_partsText_append layout.spaced phrase bare,
    follows.cells_word, ClauseLayout.frontCells, List.append_assoc]

/--
The clauses of a procedure are read alike in every order: the return type as
it is written, the language, the comment, whose rights are used and the body
without blanks around it.
-/
theorem clauses_read_in_every_order {head : Text} {name : QualifiedName}
    {parameters : List Parameter} (declares : Declares head name parameters)
    (written : WrittenClauses) (layout : ClauseLayout) {body : Text}
    (free : ¬ (Mode.dollarQuote []).opening <:+: body) :
    read (head ++ (layout.text written ++
        ("AS " ++ dollarLiteral [] body))) = .ok {
      name := name
      parameters := parameters
      returnType := some written.returned.text
      body := trim body
      comment := some written.comment
      language := written.language
      executeAs := some written.mode } := by
  have delimits := delimits_dollarLiteral
    (show IsTag [] from List.forall_mem_nil _) free
  have follows := delimits.follows
  have apart : startsWith isWord (cells (' ' :: dollarLiteral [] body)) =
      false := by
    rw [cells_cons_blank]
    rfl
  have body := layout.findBody?_frontCells written apart
  have returned : readSource (written.returned.text.map .plain) =
      .ok written.returned.text := by
    have still := written.returned.isTypeList_text.isStill
    rw [← cells_code still, readSource, sourceOf_cells]
    rfl
  rw [declares.read_append, cells_clauses layout written free, readBehind,
    introduced, body]
  simp only [Reading.require, bind, Except.bind, List.take_left]
  rw [← introduced, returnType?_append follows.unclosed rfl,
    layout.returnType?_frontCells, layout.findComment_frontCells,
    layout.languageOf_frontCells, follows.readSource_dropFinalBlanks]
  simp only [Option.mapM_some, returned, trim_cons_blank, delimits.inside]
  rfl

/-- A text that declares a procedure with a list in its parameters. -/
def listedHead : Text :=
  "CREATE PROCEDURE s.p(a NUMBER(3, 0))"

def listedParameters : List Parameter :=
  [{ name := "a", dataType := "NUMBER(3, 0)" }]

theorem declares_listedHead :
    Declares listedHead { schema := some "s", name := "p" }
      listedParameters := by
  refine ⟨("a NUMBER(3, 0)" : Text).map .plain,
    "a NUMBER(3, 0)",
    ⟨("s.p(a NUMBER(3, 0))" : Text).map .plain,
      ("(a NUMBER(3, 0))" : Text).map .plain,
      ⟨{}, ?_, ?_⟩, ?_⟩, ?_, ?_⟩
  · have still : IsStill listedHead := by decide
    rw [cells_code still]
    rfl
  · rfl
  · rfl
  · rfl
  · rfl

/-- A table with a column that is called by a keyword. -/
def listedReturn : WrittenReturn where
  word := "TABLE"
  list := some (" ", "language NUMBER(10, 2), b INT")
  isIdentifier := by decide
  isList := by
    rintro _ ⟨⟩
    refine ⟨by decide, ?_⟩
    have word : ∀ character ∈ ("language NUMBER" : Text),
        isListCharacter character = true :=
      List.all_eq_true.mp (by decide)
    have size : ∀ character ∈ ("10, 2" : Text),
        isListCharacter character = true :=
      List.all_eq_true.mp (by decide)
    have behind : ∀ character ∈ (", b INT" : Text),
        isListCharacter character = true :=
      List.all_eq_true.mp (by decide)
    exact .plain_append word
      (.list (.plain_append size .nil) (.plain_append behind .nil))

/-- A comment with the words of all other clauses. -/
def listedClauses : WrittenClauses where
  returned := listedReturn
  language := "PYTHON"
  comment := "it's LANGUAGE SQL (RETURNS INT EXECUTE AS OWNER AS $$x$$"
  mode := .caller
  isLanguage := by decide
  unreserved := by decide
  outside := by decide

/--
An order of the clauses: whose rights are used, the comment, the return type
and the language.
-/
def reversedLayout : ClauseLayout where
  lead := "\n"
  parts := [(.executes, " "), (.comment, "\n"), (.returns, " "),
    (.language, "\n  ")]
  blank := by decide
  spaced := by decide
  complete := by decide

/-- A body with keywords and all of a marker but its last character. -/
def listedBody : Text := "\nRETURNS 1 LANGUAGE SQL AS $"

/--
Clauses in another order, with line feeds between them and keywords in the
body.
-/
theorem clauses_read_in_every_order_reversed :
    Declares listedHead { schema := some "s", name := "p" }
        listedParameters ∧
      ¬ (Mode.dollarQuote []).opening <:+: listedBody ∧
      read (listedHead ++ (reversedLayout.text listedClauses ++
          ("AS " ++ dollarLiteral [] listedBody))) = .ok {
        name := { schema := some "s", name := "p" }
        parameters := listedParameters
        returnType := some listedClauses.returned.text
        body := trim listedBody
        comment := some listedClauses.comment
        language := "PYTHON"
        executeAs := some .caller } := by
  have declares := declares_listedHead
  have free : ¬ (Mode.dollarQuote []).opening <:+: listedBody := by
    decide +kernel
  exact ⟨declares, free, clauses_read_in_every_order declares listedClauses
    reversedLayout free⟩

end Procedure

end Snowform
