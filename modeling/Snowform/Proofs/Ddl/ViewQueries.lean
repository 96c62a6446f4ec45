import Snowform.Proofs.Ddl.IntroducingWords
import Snowform.Proofs.Ddl.Slices
import Snowform.Proofs.Lexical.Standing

/-!
# Queries of views

The query of a view is all of its statement behind the word that introduces
it, without the blanks in front and without the comments and blanks behind.
That word is the first word `AS` of code behind the name and the column list,
unless the tag of a dollar literal in front of it reads `AS`: then the query
starts in the literal.

If every literal of the statement is closed, the semicolon that ends the query
is one of code, and the query is a single statement.
-/

namespace Snowform

open Text Lexical

namespace View

/-- The masked statement behind the name and the column list of a view. -/
def behindList (statement : Text) : Reading (List Cell) := do
  let (_, start) ←
    Reading.require (.missingName .view) (readHead? .view (cells statement))
  let (_, rest) ← readName .view start
  let (_, tail) ← readColumns rest
  return tail

/-- The text behind the first word `AS` of code that follows the list. -/
def codeBody (statement : Text) : Reading Text := do
  let following ← readSource (← behindList statement)
  let place := statement.length - following.length
  let (_, _, body) ← Reading.require (.missingBody .view)
    (findFirst asKeyword? [] ((painted (lexemes statement)).drop place))
  return body.map Prod.fst

/--
A text that starts inside a dollar literal with the tag `AS`, in front of the
first word `AS` of code.
-/
def StartsInTag (statement rest : Text) : Prop :=
  ∃ before literal after part inside,
    lexemes statement = before ++ literal :: after ∧
    literal.IsTaggedBy "AS" ∧ part ≠ [] ∧
    literal.text = part ++ '$' :: inside ∧
    rest = '$' :: (inside ++ textOf after) ∧
    ∀ body, codeBody statement = .ok body → body <:+ textOf after

/-! ## The introducing word -/

section

variable {statement : Text} {start tail before body : List Cell}

theorem Introduced.behindList_eq
    (introduced : Introduced statement start tail before body) :
    behindList statement = .ok tail := by
  obtain ⟨name, rest, columns, ⟨flags, head, named⟩, read, -⟩ := introduced
  exact bind_eq_ok_iff.mpr ⟨_, Reading.require_eq_ok_iff.mpr head,
    bind_eq_ok_iff.mpr ⟨_, named, bind_eq_ok_iff.mpr ⟨_, read, rfl⟩⟩⟩

theorem codeBody_eq_ok_iff {following : Text}
    (known : behindList statement = .ok tail)
    (source : source? tail = some following) (rest : Text) :
    codeBody statement = .ok rest ↔
      ∃ front body, findFirst asKeyword? []
        ((painted (lexemes statement)).drop
          (statement.length - following.length)) = some (front, (), body) ∧
        body.map Prod.fst = rest := by
  have read : readSource tail = .ok following := by
    rw [readSource, sourceOf_eq_ok_iff.mpr source]
    rfl
  rw [codeBody, known]
  change (readSource tail >>= _) = _ ↔ _
  rw [read]
  change (Reading.require _ _ >>= _) = _ ↔ _
  rw [bind_eq_ok_iff]
  constructor
  · rintro ⟨⟨front, _, body⟩, found, same⟩
    cases same
    exact ⟨front, body, Reading.require_eq_ok_iff.mp found, rfl⟩
  · rintro ⟨front, body, found, rfl⟩
    exact ⟨_, Reading.require_eq_ok_iff.mpr found, rfl⟩

theorem Introduced.leaves_tail
    (introduced : Introduced statement start tail before body) :
    Leaves (cells statement) tail := by
  obtain ⟨name, rest, columns, named, read, -⟩ := introduced
  exact (named.leaves.1.trans named.leaves.2).trans (leaves_of_readColumns read)

/-- Behind the list the word is found alike in the mask and in the code. -/
theorem Introduced.wordFound
    (introduced : Introduced statement start tail before body)
    {following : Text} (source : source? tail = some following) :
    WordFound (lexemes statement) (some (before, (), body))
      (findFirst asKeyword? [] ((painted (lexemes statement)).drop
        (statement.length - following.length))) := by
  obtain ⟨name, rest, columns, named, read, found⟩ := introduced
  have leaves := named.leaves.1.trans named.leaves.2
  rw [← found]
  rw [readColumns] at read
  dsimp only at read
  split at read
  next =>
    obtain ⟨⟨inside, behind⟩, closed, read⟩ := bind_eq_ok_iff.mp read
    obtain ⟨text, -, read⟩ := bind_eq_ok_iff.mp read
    cases read
    obtain ⟨before, parts, -⟩ := leaves.trans (leaves_skipBlanks rest)
    obtain ⟨first, middle, last, whole, -, rfl⟩ :=
      exists_lexemes_of_parenthesised? parts
        (Reading.require_eq_ok_iff.mp closed)
    rw [source?_regions] at source
    cases source
    have cut : lexemes statement =
        (first ++ ⟨.code, ['(']⟩ :: (middle ++ [⟨.code, [')']⟩])) ++ last := by
      rw [whole]
      simp
    exact wordFound_of_regions cut
  next =>
    cases read
    obtain ⟨flags, head, named⟩ := named
    exact wordFound_of_endsName leaves source (endsName_of_readName named)

/-- What follows the word is the body in the code, or it starts in a tag. -/
theorem Introduced.codeBody_or_tag
    (introduced : Introduced statement start tail before body) {rest : Text}
    (source : source? body = some rest) :
    (codeBody statement = .ok rest ∧
      ∃ front behind, lexemes statement = front ++ behind ∧
        behind.flatMap Region.cells = body) ∨
      StartsInTag statement rest := by
  obtain ⟨following, sourceTail, -⟩ :=
    ((whole_cells statement).of_leaves introduced.leaves_tail).exists_source
  have word := introduced.wordFound sourceTail
  have inCode := codeBody_eq_ok_iff introduced.behindList_eq sourceTail
  generalize findFirst asKeyword? [] ((painted (lexemes statement)).drop
    (statement.length - following.length)) = found at word inCode
  cases word with
  | inCode done parts =>
      rw [source?_regions] at source
      cases source
      exact .inl ⟨(inCode _).mpr ⟨_, _, rfl, map_fst_painted _⟩, _, _, parts,
        rfl⟩
  | @inTag _ _ done after literal part inside parts tagged nonempty cut later =>
      have whole := Whole.region literal
      rw [cut] at whole
      obtain ⟨wholePart, wholeInside⟩ := whole.of_append nofun
      obtain ⟨partText, sourcePart, -⟩ := wholePart.exists_source
      obtain ⟨text, sourceText, -⟩ := wholeInside.exists_source
      obtain ⟨insideText, -, rfl⟩ := Option.map_eq_some_iff.mp
        ((source?_plain '$' inside).symm.trans sourceText)
      have regionText := source?_region literal
      rw [cut, source?_append sourcePart sourceText] at regionText
      rw [← List.cons_append,
        source?_append sourceText (source?_regions after)] at source
      cases source
      refine .inr ⟨done, literal, after, partText, insideText, parts, tagged,
        wholePart.ne_nil_of_source nonempty sourcePart,
        (Option.some.inj regionText).symm, rfl, fun text ok => ?_⟩
      obtain ⟨front, body, found, rfl⟩ := (inCode text).mp ok
      rw [← map_fst_painted]
      exact (later _ found).map Prod.fst

end

/-! ## The end of the query -/

/-- Final blanks of a masked script are left out with their regions. -/
theorem regions_of_dropFinalBlanks {script : Text}
    {earlier body : List Cell} (parts : cells script = earlier ++ body)
    (nonempty : dropFinalBlanks body ≠ []) :
    ∃ blanks, body = dropFinalBlanks body ++ blanks ∧
      ((∃ kept others, lexemes script = kept ++ others ∧
        kept.flatMap Region.cells = earlier ++ dropFinalBlanks body ∧
        (∀ last ∈ (kept.flatMap Region.cells).getLast?,
          isBlank (shown last) = false) ∧
        others.flatMap Region.cells = blanks ∧
        ∀ region ∈ others, region.IsTrivial) ∨
      (∃ done literal, lexemes script = done ++ [literal] ∧
        IsOpenLiteral literal ∧ ∀ cell ∈ blanks, cell = .plain '\n')) := by
  rw [dropFinalBlanks, dropEndWhile_eq_rdropWhile] at nonempty ⊢
  have whole := List.rdropWhile_append_rtakeWhile
    (p := shows isBlank) (l := body)
  have visible : ∀ last ∈ (earlier ++ body.rdropWhile
      (shows isBlank)).getLast?, isBlank (shown last) = false := by
    intro last isLast
    have seen := List.rdropWhile_last_not (shows isBlank) body nonempty
    rw [List.getLast?_append_of_ne_nil _ nonempty,
      List.getLast?_eq_some_getLast nonempty] at isLast
    cases isLast
    exact Bool.eq_false_iff.mpr seen
  have blank : ∀ cell ∈ body.rtakeWhile (shows isBlank),
      isBlank (shown cell) = true :=
    fun cell member => List.mem_rtakeWhile_imp (p := shows isBlank) member
  refine ⟨body.rtakeWhile (shows isBlank), whole.symm, ?_⟩
  rw [← whole, ← List.append_assoc] at parts
  rcases regions_of_final_blanks parts visible blank with
    ⟨kept, others, cut, shownKept, shownOthers, trivial⟩ | unclosed
  · rw [← shownKept] at visible
    exact .inl ⟨kept, others, cut, shownKept, visible, shownOthers, trivial⟩
  · exact .inr unclosed

/-- What is left out behind a query are comments and blanks. -/
theorem exists_trivia {script : Text} {earlier body : List Cell}
    (parts : cells script = earlier ++ body)
    (nonempty : dropFinalBlanks body ≠ []) :
    ∃ blanks ending, body = dropFinalBlanks body ++ blanks ∧
      source? blanks = some ending ∧ IsTrivia ending := by
  obtain ⟨blanks, whole, closed | unclosed⟩ :=
    regions_of_dropFinalBlanks parts nonempty
  · obtain ⟨kept, others, cut, -, -, rfl, trivial⟩ := closed
    exact ⟨_, _, whole, source?_regions others, isTrivia_textOf cut trivial⟩
  · obtain ⟨done, literal, -, -, feeds⟩ := unclosed
    have same := List.eq_replicate_of_mem feeds
    refine ⟨blanks, List.replicate blanks.length '\n', whole, ?_,
      isTrivia_of_blanks fun character member => ?_⟩
    · conv_lhs => rw [same, ← List.map_replicate]
      exact source?_map_plain _
    · rw [List.eq_of_mem_replicate member]
      decide

/-- The query of a statement that closes its literals stands alone. -/
theorem query_stands_alone {script statement written : Text} {line : Nat}
    (member : ⟨line, statement⟩ ∈ statements script)
    (closes : ClosesLiterals statement) {front behind : List Region}
    (parts : lexemes statement = front ++ behind)
    (nonempty : dropFinalBlanks (behind.flatMap Region.cells) ≠ [])
    (source : source? (dropFinalBlanks (behind.flatMap Region.cells)) =
      some written)
    (noDollar : written.head? ≠ some '$') :
    (trim written).getLast? ≠ some ';' ∧ IsClosed (trim written) ∧
      statements (trim written ++ [';']) = [⟨1, trim written⟩] := by
  have masked : cells statement =
      front.flatMap Region.cells ++ behind.flatMap Region.cells := by
    rw [cells, parts, List.flatMap_append]
  obtain ⟨blanks, -, closed | unclosed⟩ :=
    regions_of_dropFinalBlanks masked nonempty
  · obtain ⟨kept, others, cut, shownKept, visible, -⟩ := closed
    have noComment : ∀ last ∈ kept.getLast?, last.kind.isComment = false := by
      intro last isLast
      have known := List.mem_append_left others (List.mem_of_mem_getLast? isLast)
      rw [← cut] at known
      exact not_isComment_of_visible (isLexeme_of_mem_lexemes known).1
        (visible_of_getLast? isLast visible)
    obtain ⟨more, goesOn, followed⟩ := closes.exists_behind cut noComment
    rcases List.append_eq_append_iff.mp (parts.symm.trans cut) with
      ⟨between, rfl, -⟩ | ⟨between, rfl, -⟩
    · rw [List.flatMap_append] at shownKept visible
      have shownQuery := List.append_cancel_left shownKept
      rw [shownQuery, List.getLast?_append_of_ne_nil _ nonempty,
        ← shownQuery] at visible
      rw [← shownQuery] at nonempty source
      rw [source?_regions] at source
      cases source
      rw [List.append_assoc] at followed
      refine stands_alone followed goesOn noDollar visible ?_ ?_
      · intro region known
        apply not_endsStatement_of_mem_statements member
        rw [cut]
        exact List.mem_append_left _ (List.mem_append_right _ known)
      · rintro rfl
        exact nonempty rfl
    · -- The query would stand in front of the word.
      rw [List.flatMap_append, List.append_assoc] at shownKept
      have nothing := List.append_right_eq_self.mp shownKept.symm
      exact absurd (List.append_eq_nil_iff.mp nothing).2 nonempty
  · obtain ⟨done, literal, cut, openLiteral, -⟩ := unclosed
    exact absurd openLiteral (closes.not_isOpenLiteral cut)

theorem exists_introduced {statement : Text} {view : View}
    (result : read statement = .ok view) :
    ∃ start tail before body written,
      Introduced statement start tail before body ∧
      source? (dropFinalBlanks body) = some written ∧
      trim written ≠ [] ∧ view.query = terminated (trim written) := by
  rw [read, bind_eq_ok_iff] at result
  obtain ⟨⟨flags, start⟩, head, result⟩ := result
  rw [bind_eq_ok_iff] at result
  obtain ⟨⟨name, rest⟩, named, result⟩ := result
  rw [bind_eq_ok_iff] at result
  obtain ⟨⟨columns, tail⟩, listed, result⟩ := result
  rw [bind_eq_ok_iff] at result
  obtain ⟨⟨before, _, body⟩, found, result⟩ := result
  rw [bind_eq_ok_iff] at result
  obtain ⟨written, source, result⟩ := result
  dsimp only at result
  split at result
  next => cases result
  next visible =>
    obtain ⟨comment, -, result⟩ := bind_eq_ok_iff.mp result
    cases result
    refine ⟨start, tail, before, body, written,
      ⟨name, rest, columns, ⟨flags, Reading.require_eq_ok_iff.mp head, named⟩,
        listed, Reading.require_eq_ok_iff.mp found⟩, ?_, ?_, rfl⟩
    · exact sourceOf_eq_ok_iff.mp (Reading.ofFault_eq_ok_iff.mp source)
    · exact fun empty => visible (List.isEmpty_iff.mpr empty)

/--
A view that is read has the query that follows the word `AS`, with a semicolon
if it has none.  Only blanks in front of it are left out, and comments and
blanks behind it.  If the statement closes its literals, and no dollar sign
follows the word, the query is a single statement.
-/
theorem query_of_read {statement : Text} {view : View}
    (result : read statement = .ok view) :
    ∃ rest blanks query ending,
      (codeBody statement = .ok rest ∨ StartsInTag statement rest) ∧
      rest = blanks ++ (query ++ ending) ∧
      (∀ character ∈ blanks, isBlank character = true) ∧
      query ≠ [] ∧ trim query = query ∧ IsTrivia ending ∧
      view.query = (if query.getLast? = some ';' then query
        else query ++ [';']) ∧
      ∀ {script : Text} {line : Nat}, ⟨line, statement⟩ ∈ statements script →
        ClosesLiterals statement → rest.head? ≠ some '$' →
        view.query = query ++ [';'] ∧ IsClosed query ∧
          statements view.query = [⟨1, query⟩] := by
  obtain ⟨start, tail, before, body, written, introduced, source, query_ne_nil,
    ended⟩ := exists_introduced result
  have nonempty : dropFinalBlanks body ≠ [] := by
    intro empty
    rw [empty] at source
    cases source
    exact query_ne_nil rfl
  obtain ⟨earlier, parts, -⟩ := introduced.leaves.2
  obtain ⟨blanks, ending, whole, sourceBlanks, trivia⟩ :=
    exists_trivia parts nonempty
  have sourceBody : source? body = some (written ++ ending) := by
    rw [whole]
    exact source?_append source sourceBlanks
  have cut := leading_trim_trailing written
  refine ⟨written ++ ending, leadingBlanks written, trim written,
    trailingBlanks written ++ ending,
    (introduced.codeBody_or_tag sourceBody).imp_left And.left, ?_,
    fun character => isBlank_of_mem_leadingBlanks, query_ne_nil,
    trim_trim written, trivia.blanks_append
      fun character => isBlank_of_mem_trailingBlanks, ended, ?_⟩
  · conv_lhs => rw [← cut]
    simp only [List.append_assoc]
  · intro script line member closes noDollar
    have starts : written.head? ≠ some '$' := by
      cases written with
      | nil => exact nofun
      | cons first others => exact noDollar
    rcases introduced.codeBody_or_tag sourceBody with
      ⟨-, front, behind, regions, rfl⟩ |
      ⟨_, _, _, _, _, -, -, -, -, inTag, -⟩
    · obtain ⟨last, closed, single⟩ :=
        query_stands_alone member closes regions nonempty source starts
      rw [ended, terminated, if_neg last]
      exact ⟨rfl, closed, single⟩
    · rw [inTag] at noDollar
      exact absurd rfl noDollar

/-- A view with the word and semicolons in literals, and with comments. -/
def listedView : Text :=
  "CREATE SECURE VIEW v (\"AS\", b) COMMENT = 'AS' AS
    SELECT 'a;' /* AS */ FROM t -- end"

/-- The query lies behind the word of code and in front of the last comment. -/
theorem query_of_read_listedView :
    let view : View := {
      name := ⟨none, none, "v"⟩
      columns := some ["AS", "b"]
      query := "SELECT 'a;' /* AS */ FROM t;"
      comment := some "AS"
      secure := true }
    read listedView = .ok view ∧
      ⟨1, listedView⟩ ∈ statements (listedView ++ "\n;") ∧
      ClosesLiterals listedView ∧
      ∃ rest blanks query ending,
        codeBody listedView = .ok rest ∧ rest.head? ≠ some '$' ∧
        rest = blanks ++ (query ++ ending) ∧
        (∀ character ∈ blanks, isBlank character = true) ∧
        IsTrivia ending ∧ view.query = query ++ [';'] ∧ IsClosed query ∧
        statements view.query = [⟨1, query⟩] := by
  intro view
  have readView : read listedView = .ok view := by decide +kernel
  have member : ⟨1, listedView⟩ ∈ statements (listedView ++ "\n;") := by
    decide +kernel
  have closes : ClosesLiterals listedView := by decide +kernel
  have noMarkers : ∀ region ∈ lexemes listedView,
      region.kind ≠ .dollarQuote := by decide +kernel
  obtain ⟨rest, blanks, query, ending, place, parts, blank, -, -, trivia, -,
    single⟩ := query_of_read readView
  rcases place with inCode | ⟨_, literal, _, _, _, cut, ⟨_, dollar, -⟩, -⟩
  · have noDollar : ∀ rest, codeBody listedView = .ok rest →
        rest.head? ≠ some '$' := by
      have known : codeBody listedView =
          .ok "\n    SELECT 'a;' /* AS */ FROM t -- end" := by
        decide +kernel
      rintro rest same
      cases known.symm.trans same
      decide
    have starts := noDollar rest inCode
    exact ⟨readView, member, closes, rest, blanks, query, ending, inCode, starts,
      parts, blank, trivia, single member closes starts⟩
  · have known : literal ∈ lexemes listedView := by
      rw [cut]
      simp
    exact absurd dollar (noMarkers literal known)

/-- A view with a comment that is tagged by the word. -/
def taggedView : Text :=
  "CREATE VIEW v COMMENT = $AS$x$AS$ AS SELECT 1"

/-- The query starts inside of the comment. -/
theorem taggedView_hides_query :
    codeBody taggedView = .ok " SELECT 1" ∧
      (read taggedView).map (·.query) = .ok "$x$AS$ AS SELECT 1;" := by
  decide +kernel

end View

end Snowform
