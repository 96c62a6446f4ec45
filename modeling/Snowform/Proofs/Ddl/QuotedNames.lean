import Snowform.Ddl.Clause
import Snowform.Proofs.Lexical.Quoting
import Snowform.Proofs.Text.Listing

/-!
# Names between double quotes

A name that is written between double quotes is read back as it is, whatever
characters it has.  So are two names with a dot between them, wherever the
name of an object is read, as long as no line feed is in them: a masked
statement shows line feeds, which end a name.
-/

namespace Snowform

open Text Lexical

/-! ## Taking quotes away -/

theorem head?_quotedName (name : Text) :
    (quotedName name).head? = some '"' := rfl

theorem getLast?_quotedName (name : Text) :
    (quotedName name).getLast? = some '"' := by
  rw [quotedName, ← List.cons_append, List.getLast?_concat]

/-- Doubled quotes are undoubled to the name they were made of. -/
theorem replaceAll_doubled (name : Text) :
    replaceAll "\"\"" "\"" (doubled name) = name := by
  have pattern : ("\"\"" : Text) = ['"', '"'] := rfl
  have replacement : ("\"" : Text) = ['"'] := rfl
  rw [pattern, replacement, replaceAll]
  induction name with
  | nil => rfl
  | cons character rest ih =>
      by_cases quote : character = '"'
      · rw [quote, doubled_cons_quote, replaceFrom]
        simp [replaceFrom, ih]
      · rw [doubled_cons quote, replaceFrom, if_neg, ih]
        simp [Ne.symm quote]

/-- A quoted name is read back. -/
theorem unquote_quotedName (name : Text) : unquote (quotedName name) = name := by
  have same : trim (quotedName name) = quotedName name :=
    trim_of_ends (head?_quotedName name) (getLast?_quotedName name) (by decide)
  have inside : ((quotedName name).drop 1).dropLast = doubled name :=
    List.dropLast_concat
  have long : 2 ≤ (quotedName name).length := by simp [quotedName]
  unfold unquote
  rw [same, if_pos ⟨long, head?_quotedName name, getLast?_quotedName name⟩,
    inside, replaceAll_doubled]

/-! ## Two names with a dot between them -/

/-- Two quoted names with a dot between them. -/
def dottedNames (schema name : Text) : Text :=
  quotedName schema ++ '.' :: quotedName name

theorem getLast?_dottedNames (schema name : Text) :
    (dottedNames schema name).getLast? = some '"' := by
  rw [dottedNames, List.getLast?_append_cons, ← getLast?_quotedName name]
  rfl

section

/-- Dots that stand outside of quotes. -/
abbrev dotSeparates (quoted : Bool) (character : Char) : Bool :=
  !quoted && character == '.'

/-- Whether a place is inside of quotes, behind a further character. -/
abbrev quoteAdvances (quoted : Bool) (character : Char) : Bool :=
  quoted != (character == '"')

/-- No dot of a quoted name parts it. -/
theorem pieces_quotedName (name rest : Text) :
    pieces dotSeparates quoteAdvances false (quotedName name ++ rest) =
      (quotedName name).foldr consFirst
        (pieces dotSeparates quoteAdvances false rest) := by
  have inside : pieces dotSeparates quoteAdvances true
      (doubled name ++ '"' :: rest) =
        (doubled name ++ ['"']).foldr consFirst
          (pieces dotSeparates quoteAdvances false rest) := by
    induction name with
    | nil => rfl
    | cons character others ih =>
        by_cases quote : character = '"'
        · rw [quote, doubled_cons_quote]
          simp only [List.cons_append, List.foldr_cons, ← ih]
          rfl
        · have stays : quoteAdvances true character = true := by
            simp [quoteAdvances, quote]
          rw [doubled_cons quote]
          simp only [List.cons_append, List.foldr_cons, ← ih]
          rw [pieces, if_neg (by simp), stays]
  rw [quotedName, List.cons_append, List.append_assoc, List.foldr_cons,
    ← inside]
  rfl

end

/-- Two quoted names with a dot between them are a schema and a name. -/
theorem ofText_dottedNames (schema name : Text) :
    QualifiedName.ofText (dottedNames schema name) =
      { schema := some schema, name := name } := by
  have same : trim (dottedNames schema name) = dottedNames schema name :=
    trim_of_ends rfl (getLast?_dottedNames schema name) (by decide)
  have parts : QualifiedName.dotted (dottedNames schema name) =
      [quotedName schema, quotedName name] := by
    have ending := pieces_quotedName name []
    rw [List.append_nil] at ending
    have behind : pieces dotSeparates quoteAdvances false
        ('.' :: quotedName name) = [[], quotedName name] := by
      change [] :: pieces dotSeparates quoteAdvances false (quotedName name) = _
      rw [ending]
      change [] :: (quotedName name).foldr consFirst [[]] = _
      rw [foldr_consFirst, List.append_nil]
    change pieces dotSeparates quoteAdvances false _ = _
    rw [dottedNames, pieces_quotedName, behind, foldr_consFirst,
      List.append_nil]
  rw [QualifiedName.ofText, same, parts, List.map_cons, List.map_singleton,
    unquote_quotedName, unquote_quotedName]
  rfl

/-! ## Reading two names -/

/-- The cells of two quoted names with a dot between them. -/
def dottedCells (schema name : Text) : List Cell :=
  (quotedRegion schema).cells ++ .plain '.' :: (quotedRegion name).cells

/-- The covered cells of a name come from the name. -/
theorem source?_dottedCells (schema name : Text) :
    source? (dottedCells schema name) = some (dottedNames schema name) := by
  have behind : source? (.plain '.' :: (quotedRegion name).cells) =
      some ('.' :: quotedName name) := by
    rw [source?_plain, source?_region]
    rfl
  exact source?_append (source?_region (quotedRegion schema)) behind

/-- Of a name without line feeds only its quotes are shown. -/
theorem shown_of_mem_cells {name : Text} (noFeed : '\n' ∉ name) {cell : Cell}
    (member : cell ∈ (quotedRegion name).cells) :
    shown cell = '"' ∨ shown cell = '_' :=
  (shown_of_mem_quotedRegion member).imp_right fun inside =>
    inside.resolve_right fun feed => noFeed feed.2

/-- A covered name shows quotes, underscores and its dot. -/
theorem shown_of_mem_dottedCells {schema name : Text}
    (noFeed : '\n' ∉ schema ∧ '\n' ∉ name) {cell : Cell}
    (member : cell ∈ dottedCells schema name) :
    shown cell ∈ ['"', '_', '.'] := by
  have quoted : ∀ {text : Text}, '\n' ∉ text →
      cell ∈ (quotedRegion text).cells → shown cell ∈ ['"', '_', '.'] := by
    intro text whole inside
    rcases shown_of_mem_cells whole inside with same | same <;> rw [same] <;>
      decide
  rcases List.mem_append.mp member with front | behind
  · exact quoted noFeed.1 front
  · rcases List.mem_cons.mp behind with rfl | last
    · decide
    · exact quoted noFeed.2 last

theorem dottedCells_eq_cons (schema name : Text) :
    ∃ others, dottedCells schema name = .plain '"' :: others := by
  rw [dottedCells, cells_quotedRegion]
  exact ⟨_, rfl⟩

/-- Two quoted names run up to where the name of an object ends. -/
theorem takeWhile_dottedCells {schema name : Text}
    (noFeed : '\n' ∉ schema ∧ '\n' ∉ name) {rest : List Cell}
    (ends : startsWith endsName rest = true) :
    (dottedCells schema name ++ rest).takeWhile
        (shows fun shown => !endsName shown) =
      dottedCells schema name := by
  have goes : ∀ cell ∈ dottedCells schema name,
      shows (fun shown => !endsName shown) cell = true := by
    intro cell member
    have visible := shown_of_mem_dottedCells noFeed member
    have all : ∀ character ∈ ['"', '_', '.'], (!endsName character) = true :=
      List.all_eq_true.mp (by decide)
    exact all _ visible
  have stops : rest.takeWhile (shows fun shown => !endsName shown) = [] := by
    cases rest with
    | nil => rfl
    | cons cell behind =>
        have closes : endsName (shown cell) = true := ends
        rw [List.takeWhile_cons_of_neg]
        simp [shows, closes]
  rw [List.takeWhile_append_of_pos goes, stops, List.append_nil]

/-- Two quoted names are read up to where the name of an object ends. -/
theorem readName_dottedCells (object : ObjectKind) {schema name : Text}
    (noFeed : '\n' ∉ schema ∧ '\n' ∉ name) (nonempty : name ≠ [])
    {rest : List Cell} (ends : startsWith endsName rest = true) :
    readName object (dottedCells schema name ++ rest) =
      .ok ({ schema := some schema, name := name }, rest) := by
  obtain ⟨others, starts⟩ := dottedCells_eq_cons schema name
  have start : skipBlanks (dottedCells schema name ++ rest) =
      dottedCells schema name ++ rest := by
    rw [starts]
    rfl
  have written := takeWhile_dottedCells noFeed ends
  have filled : (dottedCells schema name).isEmpty = false := by
    rw [starts]
    rfl
  have source : readSource (dottedCells schema name) =
      .ok (dottedNames schema name) := by
    rw [readSource, sourceOf, source?_dottedCells]
    rfl
  have named : name.isEmpty = false := by
    cases name with
    | nil => exact absurd rfl nonempty
    | cons character behind => rfl
  unfold readName
  simp only [start, written, filled, source, bind, Except.bind,
    ofText_dottedNames, named, List.drop_left]
  rfl

end Snowform
