import Snowform.Hcl.Outline
import Snowform.Proofs.Hcl.Blocks
import Snowform.Proofs.Hcl.Escapes

/-!
# Outlines of written blocks

What is written for items is read back as these items, so a value never looks
like another attribute or like a block.  Values and lists of values are told
from what is written for them.
-/

namespace Snowform.Hcl

open Text

/-! ## Values -/

/-- A character is written with a mark that tells it, or as it stands. -/
theorem escapeCharacter_marked (character : Char) :
    (∃ letter, escapeCharacter character = ['\\', letter] ∧
        markedCharacter letter = character) ∨
      (escapeCharacter character = [character] ∧ character ≠ '"' ∧
        character ≠ '\\') := by
  rcases escapeCharacter_forms character with
    ⟨letter, written, known⟩ | ⟨written, plain⟩
  · have tells : ∀ escape ∈ escapes, markedCharacter escape.2 = escape.1 := by
      decide
    exact .inl ⟨letter, written, tells _ known⟩
  · refine .inr ⟨written, ?_, ?_⟩ <;>
      · rintro rfl
        exact plain (by decide)

/-- A marked letter stands for its character. -/
theorem unescape?_marked (letter : Char) (rest : Text) :
    unescape? ('\\' :: letter :: rest) =
      (unescape? rest).map fun (value, after) =>
        (markedCharacter letter :: value, after) := by
  rw [unescape?]

theorem unescape?_cons {character : Char} (noQuote : character ≠ '"')
    (noMark : character ≠ '\\') (rest : Text) :
    unescape? (character :: rest) =
      (unescape? rest).map fun (value, after) =>
        (character :: value, after) := by
  rw [unescape?]
  · exact noQuote
  · intro letter others same
    exact absurd same noMark

/-- An escaped text is read back up to the closing quote. -/
theorem unescape?_escape (value rest : Text) :
    unescape? (escape value ++ '"' :: rest) = some (value, rest) := by
  induction value with
  | nil => rfl
  | cons character others ih =>
      rw [escape, List.flatMap_cons, List.append_assoc, ← escape]
      rcases escapeCharacter_marked character with
        ⟨letter, written, marks⟩ | ⟨written, noQuote, noMark⟩
      · rw [written, List.cons_append, List.singleton_append,
          unescape?_marked, ih, marks]
        rfl
      · rw [written, List.singleton_append, unescape?_cons noQuote noMark, ih]
        rfl

/-- A quoted value at the start of a text is told from the text. -/
theorem quoted_append_inj {first second before behind : Text}
    (same : quoted first ++ before = quoted second ++ behind) :
    first = second ∧ before = behind := by
  have inside : escape first ++ '"' :: before =
      escape second ++ '"' :: behind := by
    simpa [quoted] using same
  have read := congrArg unescape? inside
  rw [unescape?_escape, unescape?_escape] at read
  exact Prod.mk.inj (Option.some.inj read)

/-- Different texts are quoted differently. -/
theorem quoted_injective : Function.Injective quoted := by
  intro first second same
  have whole : quoted first ++ [] = quoted second ++ [] := by rw [same]
  exact (quoted_append_inj whole).1

/-- What is written behind the first value of a list, with its bracket. -/
def listedBehind (others : List Text) : Text :=
  (others.flatMap fun other => (", " : Text) ++ quoted other) ++ [']']

theorem listed_cons (value : Text) (others : List Text) :
    listed (value :: others) =
      '[' :: (quoted value ++ listedBehind others) := by
  rw [listed, listedBehind, List.cons_append, ← List.append_assoc]
  congr 2
  induction others generalizing value with
  | nil => simp
  | cons next others ih =>
      rw [List.map_cons, List.map_cons, List.intercalate_cons_cons,
        ← List.map_cons, ih next, List.flatMap_cons]
      simp only [List.append_assoc]

theorem listedBehind_cons (value : Text) (others : List Text) :
    listedBehind (value :: others) =
      ',' :: ' ' :: (quoted value ++ listedBehind others) := by
  rw [listedBehind, List.flatMap_cons, List.append_assoc, ← listedBehind,
    List.append_assoc]
  rfl

theorem listedBehind_injective : Function.Injective listedBehind := by
  intro first second same
  induction first generalizing second with
  | nil =>
      cases second with
      | nil => rfl
      | cons value others =>
          rw [listedBehind_cons] at same
          exact absurd (List.cons.inj same).1 (by decide)
  | cons value others ih =>
      cases second with
      | nil =>
          rw [listedBehind_cons] at same
          exact absurd (List.cons.inj same).1 (by decide)
      | cons other rest =>
          rw [listedBehind_cons, listedBehind_cons] at same
          have inside := (List.cons.inj (List.cons.inj same).2).2
          obtain ⟨rfl, behind⟩ := quoted_append_inj inside
          rw [ih behind]

/-- Different lists of texts are written differently. -/
theorem listed_injective : Function.Injective listed := by
  intro first second same
  cases first with
  | nil =>
      cases second with
      | nil => rfl
      | cons value others =>
          rw [listed_cons, quoted] at same
          exact absurd (List.cons.inj (List.cons.inj same).2).1 (by decide)
  | cons value others =>
      cases second with
      | nil =>
          rw [listed_cons, quoted] at same
          exact absurd (List.cons.inj (List.cons.inj same).2).1 (by decide)
      | cons other rest =>
          rw [listed_cons, listed_cons] at same
          obtain ⟨rfl, behind⟩ := quoted_append_inj (List.cons.inj same).2
          rw [listedBehind_injective behind]

/-! ## Lines -/

/-- The depth of a line does not show in what it says. -/
theorem readLine?_margin (depth : Nat) (line : Text) :
    readLine? (margin depth ++ line) = readLine? line := by
  have blanks : ∀ character ∈ margin depth, (character == ' ') = true :=
    fun character member => beq_iff_eq.mpr (List.eq_of_mem_replicate member)
  rw [readLine?, readLine?, List.dropWhile_append_of_pos blanks]

/-- A line that starts with a word says something of this name. -/
theorem readLine?_word {key : Text} (isKey : IsKey key) (rest : Text) :
    readLine? (key ++ ' ' :: rest) =
      if ' ' :: rest = [' ', '\x7b'] then
        some (.opening key)
      else
        (dropStart? " = " (' ' :: rest)).map (Item.raw key) := by
  obtain ⟨nonempty, noBlank, -⟩ := isKey
  have visible : ∀ character ∈ key, (character != ' ') = true := by
    intro character member
    apply bne_iff_ne.mpr
    rintro rfl
    exact noBlank member
  have start : (key ++ ' ' :: rest).dropWhile (· == ' ') =
      key ++ ' ' :: rest := by
    obtain ⟨first, others, rfl⟩ := List.exists_cons_of_ne_nil nonempty
    have noMargin : (first == ' ') = false := by
      simpa using visible first List.mem_cons_self
    rw [List.cons_append, List.dropWhile_cons, noMargin]
    rfl
  have word : (key ++ ' ' :: rest).takeWhile (· != ' ') = key := by
    rw [List.takeWhile_append_of_pos visible]
    simp
  have behind : (key ++ ' ' :: rest).dropWhile (· != ' ') = ' ' :: rest := by
    rw [List.dropWhile_append_of_pos visible]
    simp
  have noBrace : key ++ ' ' :: rest ≠ ['\x7d'] := by
    intro brace
    have blank : ' ' ∈ ['\x7d'] := by
      rw [← brace]
      simp
    exact absurd blank (by decide)
  unfold readLine?
  dsimp only
  rw [start, word, behind, if_neg noBrace]

/-- An assignment is read back with its key and its value. -/
theorem readLine?_assignment {key : Text} (isKey : IsKey key) (value : Text) :
    readLine? (key ++ (" = " : Text) ++ value) = some (.raw key value) := by
  have line := readLine?_word isKey ('=' :: ' ' :: value)
  have starts : dropStart? " = " (' ' :: '=' :: ' ' :: value) = some value :=
    dropStart?_append [' ', '=', ' '] value
  rw [if_neg (by simp), starts] at line
  rw [List.append_assoc]
  exact line

/-- The opening of a block is read back with its name. -/
theorem readLine?_opening {name : Text} (isKey : IsKey name) :
    readLine? (name ++ [' ', '\x7b']) = some (.opening name) := by
  rw [readLine?_word isKey ['\x7b'], if_pos rfl]

/-! ## Items -/

/-- An item that is written on lines which can be read back. -/
def Item.IsReadable : Item → Prop
  | .raw key value => IsKey key ∧ '\n' ∉ value ∧ value.head? ≠ some '<'
  | .text key _ => IsKey key
  | .flag key _ => IsKey key
  | .texts key _ => IsKey key
  | .heredoc _ _ => False
  | .opening name => IsKey name
  | .closing => True
  | .blankLine => True

/-- Lines that say certain items, none of them the start of a body. -/
def Say (items : List Item) (lines : List Text) : Prop :=
  (∀ line ∈ lines, '\n' ∉ line ∧ startsBody line = false) ∧
    lines.filterMap readLine? = items

/-- Lines one behind the other say their items one behind the other. -/
theorem Say.append {items others : List Item} {lines rest : List Text}
    (first : Say items lines) (second : Say others rest) :
    Say (items ++ others) (lines ++ rest) := by
  refine ⟨List.forall_mem_append.mpr ⟨first.1, second.1⟩, ?_⟩
  rw [List.filterMap_append, first.2, second.2]

theorem say_nil : Say [] [] :=
  ⟨List.forall_mem_nil _, rfl⟩

theorem say_blank : Say [] [[]] := by
  refine ⟨List.forall_mem_singleton.mpr ⟨List.not_mem_nil, rfl⟩, rfl⟩

/-- The line of an attribute. -/
def assignmentLine (depth : Nat) (key value : Text) : Text :=
  margin depth ++ (key ++ (" = " : Text) ++ value)

theorem assignment_eq_ofLines (depth : Nat) (key value : Text) :
    assignment depth key value = ofLines [assignmentLine depth key value] := by
  simp [assignment, assignmentLine]

theorem readLine?_assignmentLine {key : Text} (isKey : IsKey key)
    (depth : Nat) (value : Text) :
    readLine? (assignmentLine depth key value) = some (.raw key value) := by
  rw [assignmentLine, readLine?_margin, readLine?_assignment isKey]

/-- An attribute that starts no body. -/
theorem say_assignmentLine {key value : Text} (isKey : IsKey key)
    (whole : '\n' ∉ value) (noBody : value.head? ≠ some '<') (depth : Nat) :
    Say [.raw key value] [assignmentLine depth key value] := by
  have reads := readLine?_assignmentLine isKey depth value
  have noStart : ("<<-" : Text).isPrefixOf value = false := by
    rw [Bool.eq_false_iff, ne_eq, List.isPrefixOf_iff_prefix]
    rintro ⟨rest, rfl⟩
    exact noBody rfl
  constructor
  · rw [List.forall_mem_singleton, startsBody, reads]
    refine ⟨?_, noStart⟩
    simp [assignmentLine, margin, isKey.2.2, whole]
  · rw [List.filterMap_cons, reads, List.filterMap_nil]

/-- A line that is no attribute. -/
theorem say_other {item : Item} {line : Text}
    (noRaw : ∀ key value, item ≠ .raw key value) (whole : '\n' ∉ line)
    (reads : readLine? line = some item) (depth : Nat) :
    Say [item] [margin depth ++ line] := by
  have same : readLine? (margin depth ++ line) = some item :=
    (readLine?_margin depth line).trans reads
  refine ⟨?_, by rw [List.filterMap_cons, same, List.filterMap_nil]⟩
  rw [List.forall_mem_singleton, startsBody, same]
  refine ⟨by simpa [margin] using whole, ?_⟩
  split
  next key value found =>
    exact absurd (Option.some.inj found) (noRaw key value)
  next => rfl

/-- A closing brace says that a block ends. -/
theorem say_closing (depth : Nat) :
    Say [.closing] [margin depth ++ ['\x7d']] := by
  refine say_other ?_ (by decide) (by decide) depth
  intro key value same
  cases same

/-- An opening line says the name of its block. -/
theorem say_opening {name : Text} (isKey : IsKey name) (depth : Nat) :
    Say [.opening name] [margin depth ++ (name ++ [' ', '\x7b'])] := by
  refine say_other ?_ ?_ (readLine?_opening isKey) depth
  · intro key value same
    cases same
  · simp [isKey.2.2]

/-- Every readable item is written in lines that say it. -/
theorem Item.exists_say_write {item : Item} (readable : item.IsReadable)
    (depth : Nat) :
    ∃ lines, item.write depth = ofLines lines ∧
      Say item.outlined?.toList lines := by
  cases item with
  | raw key value =>
      exact ⟨_, assignment_eq_ofLines depth key value,
        say_assignmentLine readable.1 readable.2.1 readable.2.2 depth⟩
  | text key value =>
      exact ⟨_, assignment_eq_ofLines depth key (quoted value),
        say_assignmentLine readable (not_feed_of_mem_quoted value)
          (by simp [quoted]) depth⟩
  | flag key value =>
      refine ⟨_, assignment_eq_ofLines depth key _,
        say_assignmentLine readable ?_ ?_ depth⟩
      · cases value <;> decide
      · cases value <;> decide
  | texts key values =>
      exact ⟨_, assignment_eq_ofLines depth key (listed values),
        say_assignmentLine readable (not_feed_of_mem_listed values)
          (by simp [listed]) depth⟩
  | heredoc key body => exact readable.elim
  | opening name =>
      by_cases outer : depth = 1
      · refine ⟨_, ?_, say_blank.append (say_opening readable depth)⟩
        simp [write, outer]
      · refine ⟨_, ?_, say_opening readable depth⟩
        simp [write, outer]
  | closing =>
      refine ⟨_, ?_, say_closing (depth - 1)⟩
      simp [write, closingLine]
  | blankLine => exact ⟨[[]], rfl, say_blank⟩

/-! ## Blocks -/

/-- What is written for items says these items. -/
theorem exists_say_writeItems {items : List Item}
    (readable : ∀ item ∈ items, item.IsReadable) (others : List Item)
    (depth : Nat) :
    ∃ lines, writeItems depth (items ++ others) =
        ofLines lines ++ writeItems (depthBehind depth items) others ∧
      Say (items.filterMap Item.outlined?) lines := by
  induction items generalizing depth with
  | nil => exact ⟨[], rfl, say_nil⟩
  | cons item rest ih =>
      rw [List.forall_mem_cons] at readable
      obtain ⟨first, written, starts⟩ := item.exists_say_write readable.1 depth
      obtain ⟨lines, behind, say⟩ := ih readable.2 (item.depthAfter depth)
      refine ⟨first ++ lines, ?_, ?_⟩
      · rw [List.cons_append, writeItems, written, behind, ofLines_append,
          List.append_assoc]
        rfl
      · have parts : (item :: rest).filterMap Item.outlined? =
            item.outlined?.toList ++ rest.filterMap Item.outlined? := by
          rw [List.filterMap_cons]
          cases item.outlined? <;> rfl
        rw [parts]
        exact starts.append say

/-- The outline of a block is what its lines say, and what follows them. -/
theorem outline_append {start : Text} (whole : '\n' ∉ start)
    {items : List Item} {lines : List Text} (say : Say items lines)
    (rest : Text) :
    outline (ofLines (start :: lines) ++ rest) =
      items ++ ((piecesAt (· == '\n') rest).takeWhile fun line =>
        !startsBody line).filterMap readLine? := by
  have wholes : ∀ line ∈ start :: lines, '\n' ∉ line :=
    List.forall_mem_cons.mpr ⟨whole, fun line member => (say.1 line member).1⟩
  have noBody : ∀ line ∈ lines, (!startsBody line) = true := by
    intro line member
    rw [(say.1 line member).2]
    rfl
  rw [outline, piecesAt_ofLines_append wholes, List.cons_append,
    List.drop_one, List.tail_cons, List.takeWhile_append_of_pos noBody,
    List.filterMap_append, say.2]

/-- The outline of a block is what its lines say behind the first. -/
theorem outline_ofLines {start : Text} (whole : '\n' ∉ start)
    {items : List Item} {lines : List Text} (say : Say items lines) :
    outline (ofLines (start :: lines)) = items := by
  have ending : ((piecesAt (· == '\n') ([] : Text)).takeWhile fun line =>
      !startsBody line).filterMap readLine? = [] := by
    decide
  have read := outline_append whole say []
  rwa [ending, List.append_nil, List.append_nil] at read

/-- An outline ends where a body starts. -/
theorem outline_append_heredoc {start : Text} (whole : '\n' ∉ start)
    {items : List Item} {lines : List Text} (say : Say items lines)
    {key : Text} (isKey : IsKey key) (body rest : Text) :
    outline (ofLines (start :: lines) ++
      ((Item.heredoc key body).write 1 ++ rest)) = items := by
  let first := assignmentLine 1 key (heredocStart body)
  have text : (Item.heredoc key body).write 1 ++ rest =
      ofLines [[], first] ++
        (ofLines (writtenLines body) ++ heredocEnd body ++ '\n' :: rest) := by
    simp [first, assignmentLine, Item.write, assignment, heredoc_eq]
  have starts : startsBody first = true := by
    rw [startsBody, readLine?_assignmentLine isKey]
    exact List.isPrefixOf_iff_prefix.mpr ⟨_, rfl⟩
  have noFeed : '\n' ∉ marker (bodyLines body) := by
    rcases marker_eq (bodyLines body) with same | same <;>
      rw [same] <;> decide
  have wholes : ∀ line ∈ [[], first], '\n' ∉ line := by
    simp [first, assignmentLine, margin, isKey.2.2, heredocStart, noFeed]
  have empty : startsBody [] = false ∧ readLine? [] = none := by decide
  rw [outline_append whole say, text, piecesAt_ofLines_append wholes]
  simp [starts, empty]

/-! ## Values of attributes -/

/-- The values for a key are collected in the order of the items. -/
theorem valuesFor_append (key : Text) (first second : List Item) :
    valuesFor key (first ++ second) =
      valuesFor key first ++ valuesFor key second :=
  List.filterMap_append

/-- The value that is written for an attribute with a key. -/
def Item.writtenFor? (key : Text) (item : Item) : Option Text :=
  item.outlined?.bind (valueFor? key)

/-- The values that are written for attributes with a key. -/
def writtenFor (key : Text) (items : List Item) : List Text :=
  items.filterMap (Item.writtenFor? key)

/-- The outline of items has the values that are written for them. -/
theorem valuesFor_outlined (key : Text) (items : List Item) :
    valuesFor key (items.filterMap Item.outlined?) = writtenFor key items :=
  List.filterMap_filterMap

theorem writtenFor_nil (key : Text) : writtenFor key [] = [] := rfl

theorem writtenFor_cons (key : Text) (item : Item) (items : List Item) :
    writtenFor key (item :: items) =
      (item.writtenFor? key).toList ++ writtenFor key items := by
  rw [writtenFor, List.filterMap_cons]
  cases item.writtenFor? key <;> rfl

theorem writtenFor_append (key : Text) (first second : List Item) :
    writtenFor key (first ++ second) =
      writtenFor key first ++ writtenFor key second :=
  List.filterMap_append

/-- Attributes with the same key, one for each element of a list. -/
theorem writtenFor_map {α : Type} {key : Text} {item : α → Item}
    {written : α → Option Text}
    (known : ∀ element, (item element).writtenFor? key = written element)
    (list : List α) :
    writtenFor key (list.map item) = list.filterMap written := by
  rw [writtenFor, List.filterMap_map]
  exact congrArg (List.filterMap · list) (funext known)

namespace Item

section

variable {key own : Text}

theorem writtenFor?_raw_self (value : Text) :
    (raw key value).writtenFor? key = some value :=
  if_pos rfl

theorem writtenFor?_raw_other (other : own ≠ key) (value : Text) :
    (raw own value).writtenFor? key = none :=
  if_neg other

theorem writtenFor?_text_self (value : Text) :
    (text key value).writtenFor? key = some (quoted value) :=
  if_pos rfl

theorem writtenFor?_text_other (other : own ≠ key) (value : Text) :
    (text own value).writtenFor? key = none :=
  if_neg other

theorem writtenFor?_flag_self (value : Bool) :
    (flag key value).writtenFor? key =
      some (if value then "true" else "false" : Text) :=
  if_pos rfl

theorem writtenFor?_flag_other (other : own ≠ key) (value : Bool) :
    (flag own value).writtenFor? key = none :=
  if_neg other

theorem writtenFor?_texts_self (values : List Text) :
    (texts key values).writtenFor? key = some (listed values) :=
  if_pos rfl

theorem writtenFor?_texts_other (other : own ≠ key) (values : List Text) :
    (texts own values).writtenFor? key = none :=
  if_neg other

theorem writtenFor?_opening (name : Text) :
    (opening name).writtenFor? key = none := rfl

theorem writtenFor?_closing : closing.writtenFor? key = none := rfl

end

end Item

/-- The blocks of an outline are those of the items. -/
theorem opening_mem_outlined {name : Text} {items : List Item} :
    Item.opening name ∈ items.filterMap Item.outlined? ↔
      Item.opening name ∈ items := by
  rw [List.mem_filterMap]
  constructor
  · rintro ⟨item, member, same⟩
    cases item <;> cases same
    exact member
  · exact fun member => ⟨_, member, rfl⟩

end Snowform.Hcl
