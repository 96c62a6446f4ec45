import Snowform.Proofs.Ddl.Lookalikes
import Snowform.Proofs.Ddl.QuotedReferences
import Snowform.Proofs.Lexical.Fronts
import Snowform.Proofs.Text.Words

/-!
# Qualified names between double quotes

A name of up to three parts, each between double quotes and with its quotes
doubled, is read back from a statement with every part as it is, and reading
ends behind the last quote.  A part may hold dots, parentheses, semicolons,
quotes, what opens comments, and blanks.  Only a line feed ends the name where
it stands: the masked statement shows line feeds wherever they are, and a
name ends at the first blank that is shown.
-/

namespace Snowform

open Text Lexical

/-! ## Regions of a name -/

/-- The regions of quoted names and of the dots between them. -/
def dottedRegions (parts : List Text) : List Region :=
  [(⟨.code, ['.']⟩ : Region)].intercalate
    (parts.map fun part => [quotedRegion part])

/-- Quoted names with dots between them are found again in front of a rest. -/
theorem lexemesFrom_intercalate_quotedName (first : Text) (others : List Text)
    {rest : Text} (single : rest.head? ≠ some '"') (afterName : Bool) :
    lexemesFrom 0 afterName
        (['.'].intercalate ((first :: others).map quotedName) ++ rest) =
      dottedRegions (first :: others) ++ lexemes rest := by
  induction others generalizing first afterName with
  | nil =>
      rw [dottedRegions, List.map_singleton, List.map_singleton,
        List.intercalate_singleton, List.intercalate_singleton]
      exact lexemesFrom_quotedName afterName first single
  | cons second further ih =>
      have dot : isNeutral '.' = true := by decide
      have behind := ih second false
      rw [dottedRegions, List.map_cons, List.map_cons] at behind ⊢
      rw [List.map_cons, List.map_cons, List.intercalate_cons_cons,
        List.intercalate_cons_cons, List.append_assoc, List.append_assoc,
        List.singleton_append, List.cons_append,
        lexemesFrom_quotedName _ _ (by simp), lexemesFrom_neutral dot,
        lexemes, behind]
      rfl

theorem mem_dottedRegions {parts : List Text} {region : Region}
    (member : region ∈ dottedRegions parts) :
    region = ⟨.code, ['.']⟩ ∨ ∃ part ∈ parts, region = quotedRegion part := by
  rcases mem_intercalate member with dot | ⟨regions, known, inside⟩
  · exact .inl (List.mem_singleton.mp dot)
  · obtain ⟨part, listed, rfl⟩ := List.mem_map.mp known
    exact .inr ⟨part, listed, List.mem_singleton.mp inside⟩

theorem quotedRegion_mem_dottedRegions {parts : List Text} {part : Text}
    (member : part ∈ parts) : quotedRegion part ∈ dottedRegions parts := by
  rw [dottedRegions]
  induction parts with
  | nil => cases member
  | cons first others ih =>
      cases others with
      | nil =>
          rw [List.mem_singleton.mp member, List.map_singleton,
            List.intercalate_singleton]
          exact List.mem_cons_self
      | cons next further =>
          rw [List.map_cons, List.map_cons, List.intercalate_cons_cons]
          rcases List.mem_cons.mp member with rfl | later
          · simp
          · exact List.mem_append_right _ (ih later)

namespace QualifiedName

theorem lexemesFrom_quoted_append (name : QualifiedName) {rest : Text}
    (single : rest.head? ≠ some '"') (afterName : Bool) :
    lexemesFrom 0 afterName (name.quoted ++ rest) =
      dottedRegions name.parts ++ lexemes rest := by
  obtain ⟨first, others, all⟩ := name.exists_parts_eq_cons
  rw [quoted, all]
  exact lexemesFrom_intercalate_quotedName first others single afterName

theorem lexemes_quoted (name : QualifiedName) :
    lexemes name.quoted = dottedRegions name.parts := by
  have alone := name.lexemesFrom_quoted_append
    (nofun : ([] : Text).head? ≠ some '"') false
  rw [List.append_nil] at alone
  exact alone.trans (List.append_nil _)

/-- A quoted name and what follows it are masked apart from each other. -/
theorem cells_quoted_append (name : QualifiedName) {rest : Text}
    (single : rest.head? ≠ some '"') :
    cells (name.quoted ++ rest) = cells name.quoted ++ cells rest := by
  rw [cells, lexemes, name.lexemesFrom_quoted_append single,
    List.flatMap_append, ← lexemes_quoted]
  rfl

/-- The cells of a quoted name start with its first quote. -/
theorem exists_cells_quoted (name : QualifiedName) :
    ∃ others, cells name.quoted = .plain '"' :: others := by
  obtain ⟨first, others, all⟩ := name.exists_parts_eq_cons
  rw [cells, lexemes_quoted, all, dottedRegions, List.map_cons]
  cases others with
  | nil =>
      rw [List.map_nil, List.intercalate_singleton, List.flatMap_cons,
        cells_quotedRegion]
      exact ⟨_, rfl⟩
  | cons second further =>
      rw [List.map_cons, List.intercalate_cons_cons, List.append_assoc,
        List.singleton_append, List.flatMap_cons, cells_quotedRegion]
      exact ⟨_, rfl⟩

/-- Nothing that a masked name without line feeds shows ends a name. -/
theorem endsName_of_mem_cells_quoted {name : QualifiedName}
    (noFeed : ∀ part ∈ name.parts, '\n' ∉ part) {cell : Cell}
    (member : cell ∈ cells name.quoted) : endsName (shown cell) = false := by
  rw [cells, lexemes_quoted] at member
  obtain ⟨region, known, inside⟩ := List.mem_flatMap.mp member
  rcases mem_dottedRegions known with rfl | ⟨part, written, rfl⟩
  · rw [List.mem_singleton.mp inside]
    decide
  · rcases shown_of_mem_cells (noFeed part written) inside with same | same <;>
      rw [same] <;> decide

/-- A line feed of a quoted name is shown where the name is masked. -/
theorem feed_mem_cells_quoted {name : QualifiedName} {part : Text}
    (known : part ∈ name.parts) (feed : '\n' ∈ part) :
    Cell.plain '\n' ∈ cells name.quoted := by
  rw [cells, lexemes_quoted]
  refine List.mem_flatMap.mpr
    ⟨quotedRegion part, quotedRegion_mem_dottedRegions known, ?_⟩
  rw [cells_quotedRegion]
  refine List.mem_cons_of_mem _ (List.mem_append_left _ ?_)
  exact List.mem_flatMap.mpr
    ⟨'\n', mem_doubled.mpr feed, List.mem_singleton.mpr rfl⟩

end QualifiedName

/-! ## Reading names -/

/-- From an offset on the masked text shows nothing but blanks. -/
def Lexical.BlankFrom (start : Nat) (text : Text) : Prop :=
  ∃ passed skipped, cells text = passed ++ skipped ∧
    shownBytes passed = start ∧ ∀ cell ∈ skipped, isBlank (shown cell) = true

/-- What ends a name does not double its last quote, and is shown. -/
theorem endsName_behind {rest : Text}
    (ends : rest = [] ∨ startsWith endsName rest = true) :
    rest.head? ≠ some '"' ∧
      ∀ cell ∈ (cells rest).head?, endsName (shown cell) = true := by
  rcases ends with rfl | ends
  · exact ⟨nofun, nofun⟩
  · obtain ⟨first, others, rfl⟩ : ∃ first others, rest = first :: others := by
      cases rest with
      | nil => cases ends
      | cons first others => exact ⟨first, others, rfl⟩
    have closes : endsName first = true := ends
    have neutral : isNeutral first = true := by
      have cases : isBlank first = true ∨ first = '(' ∨ first = ';' := by
        simpa [endsName, or_assoc] using closes
      rcases cases with blank | rfl | rfl
      · exact isNeutral_of_isBlank blank
      · decide
      · decide
    refine ⟨?_, ?_⟩
    · rintro ⟨⟩
      cases closes
    · rw [cells, lexemes, lexemesFrom_neutral neutral]
      rintro cell ⟨⟩
      exact closes

theorem skipBlanks_quoted (name : QualifiedName) {skipped : List Cell}
    (blank : ∀ cell ∈ skipped, isBlank (shown cell) = true)
    (behind : List Cell) :
    skipBlanks (skipped ++ (cells name.quoted ++ behind)) =
      cells name.quoted ++ behind := by
  obtain ⟨others, starts⟩ := name.exists_cells_quoted
  have skips : ∀ cell ∈ skipped, shows isBlank cell = true := blank
  rw [skipBlanks, List.dropWhile_append_of_pos skips, starts]
  rfl

/-- A quoted name is read where it stands, up to what ends it. -/
theorem readName_quoted (object : ObjectKind) {name : QualifiedName}
    (regular : name.IsRegular) (nonempty : name.name ≠ [])
    (noFeed : ∀ part ∈ name.parts, '\n' ∉ part)
    {skipped behind : List Cell}
    (blank : ∀ cell ∈ skipped, isBlank (shown cell) = true)
    (stops : ∀ cell ∈ behind.head?, endsName (shown cell) = true) :
    readName object (skipped ++ (cells name.quoted ++ behind)) =
      .ok (name, behind) := by
  have start := skipBlanks_quoted name blank behind
  have goes : ∀ cell ∈ cells name.quoted,
      shows (fun shown => !endsName shown) cell = true := by
    intro cell member
    rw [shows, QualifiedName.endsName_of_mem_cells_quoted noFeed member]
    rfl
  have stopped : behind.takeWhile (shows fun shown => !endsName shown) = [] ∧
      behind.dropWhile (shows fun shown => !endsName shown) = behind := by
    cases behind with
    | nil => exact ⟨rfl, rfl⟩
    | cons cell others =>
        have closes : shows (fun shown => !endsName shown) cell = false := by
          rw [shows, stops cell rfl]
          rfl
        exact ⟨List.takeWhile_cons_of_neg (by simp [closes]),
          List.dropWhile_cons_of_neg (by simp [closes])⟩
  have taken : nameCells (skipped ++ (cells name.quoted ++ behind)) =
      cells name.quoted := by
    rw [nameCells, start, List.takeWhile_append_of_pos goes, stopped.1,
      List.append_nil]
  have dropped : (cells name.quoted ++ behind).dropWhile
      (shows fun shown => !endsName shown) = behind := by
    rw [List.dropWhile_append_of_pos goes, stopped.2]
  have source : readSource (cells name.quoted) = .ok name.quoted := by
    rw [readSource, sourceOf, source?_cells]
    rfl
  have filled : (cells name.quoted).isEmpty = false := by
    obtain ⟨others, starts⟩ := name.exists_cells_quoted
    rw [starts]
    rfl
  have named : name.name.isEmpty = false :=
    List.isEmpty_eq_false_iff.mpr nonempty
  rw [readName_eq, taken, filled, source, start, dropped]
  simp only [bind, Except.bind, QualifiedName.ofText_quoted regular, named]
  rfl

/-- A list that is cut at an element still has what follows it. -/
theorem suffix_dropWhile {α : Type} {test : α → Bool} {element : α}
    (stops : test element = false) (front back : List α) :
    element :: back <:+ (front ++ element :: back).dropWhile test := by
  rw [List.dropWhile_append, List.dropWhile_cons_of_neg (by simp [stops])]
  split
  · exact List.suffix_rfl
  · exact List.suffix_append _ _

theorem shownBytes_le_of_suffix {list rest : List Cell}
    (suffix : rest <:+ list) : shownBytes rest ≤ shownBytes list := by
  obtain ⟨front, rfl⟩ := suffix
  rw [shownBytes, shownBytes, coveredSize_append]
  omega

theorem shownBytes_cells (script : Text) :
    shownBytes (cells script) = byteSize script :=
  shownBytes_eq_byteSize (whole_cells script) (source?_cells script)

/-- A name with a line feed leaves more than what follows the name. -/
theorem shownBytes_lt_of_feed {object : ObjectKind} {name found : QualifiedName}
    {part : Text} (known : part ∈ name.parts) (feed : '\n' ∈ part)
    {skipped behind left : List Cell}
    (blank : ∀ cell ∈ skipped, isBlank (shown cell) = true)
    (read : readName object (skipped ++ (cells name.quoted ++ behind)) =
      .ok (found, left)) :
    shownBytes behind < shownBytes left := by
  have same := rest_of_readName read
  rw [skipBlanks_quoted name blank] at same
  obtain ⟨front, back, split⟩ := List.append_of_mem
    (QualifiedName.feed_mem_cells_quoted known feed)
  have stops : shows (fun shown => !endsName shown) (Cell.plain '\n') =
      false := by decide
  have more := suffix_dropWhile stops front (back ++ behind)
  rw [← List.cons_append, ← List.append_assoc, ← split, ← same] at more
  have large := shownBytes_le_of_suffix more
  have width : Cell.width (.plain '\n') = 1 := by decide
  rw [List.cons_append, shownBytes, coveredSize_cons, coveredSize_append,
    width, ← shownBytes, ← shownBytes] at large
  omega

/-- Reading from an offset on is reading the cells behind it. -/
theorem readNameAt_eq (object : ObjectKind) {statement : Text}
    {passed list : List Cell} (parts : cells statement = passed ++ list) :
    readNameAt object statement (shownBytes passed) =
      (do
        let (name, rest) ← readName object list
        return (name, byteSize statement - shownBytes rest)) := by
  have cut := cutAt?_coveredSize Cell.width_pos passed list
  rw [← parts] at cut
  rw [readNameAt, shownBytes, cut, ← shownBytes_cells statement]

/--
A name of one to three parts between double quotes that stands behind a blank
of code is read back, up to the end of its last quote, exactly if no part of
it has a line feed.
-/
theorem readNameAt_quoted_iff (object : ObjectKind) {before rest : Text}
    {start : Nat} {name : QualifiedName} (regular : name.IsRegular)
    (nonempty : name.name ≠ []) (closed : IsClosed before)
    (behindBlank : EndsInBlank before) (blanks : BlankFrom start before)
    (ends : rest = [] ∨ startsWith endsName rest = true) :
    readNameAt object (before ++ (name.quoted ++ rest)) start =
        .ok (name, byteSize (before ++ name.quoted)) ↔
      ∀ part ∈ name.parts, '\n' ∉ part := by
  obtain ⟨passed, skipped, parts, rfl, blank⟩ := blanks
  obtain ⟨single, stops⟩ := endsName_behind ends
  have masked : cells (before ++ (name.quoted ++ rest)) =
      passed ++ (skipped ++ (cells name.quoted ++ cells rest)) := by
    rw [(closed.cells_append behindBlank).2, parts, List.append_assoc]
    congr 2
    exact name.cells_quoted_append single
  have sizeRest := shownBytes_cells rest
  rw [readNameAt_eq object masked]
  simp only [byteSize_append]
  constructor
  · intro read part known feed
    obtain ⟨⟨found, left⟩, named, same⟩ := bind_eq_ok_iff.mp read
    have stop := congrArg Prod.snd (Except.ok.inj same)
    have longer := shownBytes_lt_of_feed known feed blank named
    have wide : 0 < byteSize name.quoted := by
      obtain ⟨text, starts⟩ := name.exists_quoted_eq_cons
      exact byteSize_pos (starts ▸ List.cons_ne_nil _ _)
    dsimp only at stop
    omega
  · intro noFeed
    rw [readName_quoted object regular nonempty noFeed blank stops]
    refine congrArg Except.ok (Prod.ext rfl ?_)
    dsimp only
    omega

/-- A name of three parts that show everything that a name may hold. -/
theorem readNameAt_quoted_iff_threeParts :
    let name : QualifiedName :=
      { database := some "a.b\t(\u00a0", schema := some "\"\"; '$$",
        name := "/* -- \r\u2028" }
    let before : Text := "CREATE TABLE /* \" */ "
    let rest : Text := "(id INT)"
    (name.IsRegular ∧ name.name ≠ [] ∧ IsClosed before ∧
      EndsInBlank before ∧ BlankFrom 12 before ∧
      startsWith endsName rest = true) ∧
    (readNameAt .table (before ++ (name.quoted ++ rest)) 12 =
        .ok (name, byteSize (before ++ name.quoted)) ↔
      ∀ part ∈ name.parts, '\n' ∉ part) := by
  intro name before rest
  have regular : name.IsRegular := fun _ => rfl
  have nonempty : name.name ≠ [] := by decide
  have closed : IsClosed before := by decide
  have behindBlank : EndsInBlank before := by decide
  have blanks : BlankFrom 12 before :=
    ⟨(cells before).take 12, (cells before).drop 12, by decide, by decide,
      by decide⟩
  have ends : startsWith endsName rest = true := by decide
  exact ⟨⟨regular, nonempty, closed, behindBlank, blanks, ends⟩,
    readNameAt_quoted_iff .table regular nonempty closed behindBlank blanks
      (.inr ends)⟩

/-- A name with a line feed in it is read up to the line feed only. -/
theorem brokenName_is_cut :
    let name : QualifiedName := { name := "a\nb" }
    let before : Text := "CREATE TABLE "
    let rest : Text := " (id INT)"
    (name.IsRegular ∧ name.name ≠ [] ∧ IsClosed before ∧
      EndsInBlank before ∧ BlankFrom 12 before ∧
      startsWith endsName rest = true) ∧
    byteSize (before ++ name.quoted) = 18 ∧
    readNameAt .table (before ++ (name.quoted ++ rest)) 12 =
      .ok ({ name := "a" }, 15) := by
  intro name before rest
  have blanks : BlankFrom 12 before :=
    ⟨(cells before).take 12, (cells before).drop 12, by decide, by decide,
      by decide⟩
  refine ⟨⟨nofun, by decide, by decide, by decide, blanks, by decide⟩,
    by decide, by decide⟩

/-! ## Names of any number of parts -/

namespace QualifiedName

/-- The last three parts of a text are its name, schema and database. -/
theorem ofText_eq_of_reverse {text : Text} {parts : List Text}
    (read : ((dotted (trim text)).map unquote).reverse = parts) :
    ofText text =
      { database := parts[2]?, schema := parts[1]?,
        name := parts[0]?.getD [] } := by
  rw [ofText, read]
  rcases parts with _ | ⟨name, _ | ⟨schema, _ | ⟨database, others⟩⟩⟩ <;> rfl

/--
Quoted parts with dots between them are cut at these dots and read back
whatever they hold, and of any number of them the last three are the name, the
schema and the database.
-/
theorem ofText_quotedParts {parts : List Text} (nonempty : parts ≠ [])
    {before after : Text}
    (blankBefore : ∀ character ∈ before, isBlank character = true)
    (blankAfter : ∀ character ∈ after, isBlank character = true) :
    let written : Text :=
      before ++ (['.'].intercalate (parts.map quotedName) ++ after)
    dotted (trim written) = parts.map quotedName ∧
      (dotted (trim written)).map unquote = parts ∧
      some (ofText written).name = parts.reverse[0]? ∧
      (ofText written).schema = parts.reverse[1]? ∧
      (ofText written).database = parts.reverse[2]? := by
  intro written
  obtain ⟨first, others, rfl⟩ := List.exists_cons_of_ne_nil nonempty
  have cut : dotted (trim written) = (first :: others).map quotedName := by
    rw [trim_append_append blankBefore blankAfter,
      trim_intercalate_quotedName, dotted_intercalate]
  have read : (dotted (trim written)).map unquote = first :: others := by
    rw [cut, List.map_map]
    simp [Function.comp_def, unquote_quotedName]
  obtain ⟨name, last⟩ : ∃ name, (first :: others).reverse[0]? = some name :=
    ⟨_, List.getElem?_eq_getElem (by simp)⟩
  have whole := ofText_eq_of_reverse (congrArg List.reverse read)
  rw [whole, last]
  exact ⟨cut, read, rfl, rfl, rfl⟩

/-- Four parts with dots, quotes and blanks in them, and an empty one. -/
theorem ofText_quotedParts_four :
    let parts : List Text := ["x", "a.\"", "", " \"\"."]
    let before : Text := "\t "
    let after : Text := "\n"
    (parts ≠ [] ∧ (∀ character ∈ before, isBlank character = true) ∧
      ∀ character ∈ after, isBlank character = true) ∧
    let written : Text :=
      before ++ (['.'].intercalate (parts.map quotedName) ++ after)
    written = "\t \"x\".\"a.\"\"\".\"\".\" \"\"\"\".\"\n" ∧
      some (ofText written).name = parts.reverse[0]? ∧
      (ofText written).schema = parts.reverse[1]? ∧
      (ofText written).database = parts.reverse[2]? := by
  intro parts before after
  have nonempty : parts ≠ [] := by decide
  have blankBefore : ∀ character ∈ before, isBlank character = true :=
    List.all_eq_true.mp (by decide)
  have blankAfter : ∀ character ∈ after, isBlank character = true :=
    List.all_eq_true.mp (by decide)
  exact ⟨⟨nonempty, blankBefore, blankAfter⟩, by decide,
    (ofText_quotedParts nonempty blankBefore blankAfter).2.2⟩

end QualifiedName

end Snowform
