import Snowform.Terraform.Writing
import Snowform.Proofs.Hcl.Blocks
import Snowform.Proofs.Terraform.Identifiers
import Snowform.Proofs.Terraform.Resources
import Snowform.Proofs.Text.Listing
import Mathlib.Data.Bool.AllAny

/-!
# Sections of dependencies

What a resource depends on is listed on one line of its own, and a resource
without dependencies has no such line.  Reading the line gives the list back,
because addresses hold neither blanks nor commas.
-/

namespace Snowform.Terraform

open Text Hcl

/-! ## Reading sections -/

/-- The name of the attribute that lists dependencies. -/
def dependencyKey : Text := "depends_on"

/-- The names that a list between brackets holds. -/
def bracketed? (value : Text) : Option (List Text) :=
  (dropStart? "[" value >>= dropEnd? "]").map fun inside =>
    (piecesAt (· == ',') inside).map trim

/-- What the lines of a block give for dependencies, line by line. -/
def dependencySections (content : Text) : List (Option (List Text)) :=
  ((piecesAt (· == '\n') content).filterMap
    (attribute? dependencyKey)).map bracketed?

/-- The lines of a block without the empty line and the list behind it. -/
def linesWithoutSection : List Text → List Text
  | first :: second :: others =>
      if first = [] ∧ (attribute? dependencyKey second).isSome then
        linesWithoutSection others
      else
        first :: linesWithoutSection (second :: others)
  | lines => lines

/-- A block without the section that lists dependencies. -/
def withoutSection (content : Text) : Text :=
  ['\n'].intercalate
    (linesWithoutSection (piecesAt (· == '\n') content))

/-! ## Lists -/

/-- A text that can stand in a list. -/
def IsListable (text : Text) : Prop :=
  ∀ character ∈ text, isBlank character = false ∧ character ≠ ','

theorem toNat_of_isIdentifierCharacter {character : Char}
    (allowed : isIdentifierCharacter character = true) :
    48 ≤ character.toNat ∧ character.toNat ≤ 95 := by
  rcases isIdentifierCharacter_iff.mp allowed with (large | digit) | rfl
  · omega
  · omega
  · decide

theorem isListable_address (kind : ResourceKind) {name : Text}
    (allowed : IsIdentifierText name) : IsListable (kind.address name) := by
  have type : IsListable kind.type :=
    List.all_iff_forall_prop.mp (by cases kind <;> decide)
  intro character member
  rcases List.mem_append.mp member with inType | behind
  · exact type character inType
  · rcases List.mem_cons.mp behind with rfl | inName
    · decide
    · have range := toNat_of_isIdentifierCharacter (allowed character inName)
      constructor
      · rw [Bool.eq_false_iff]
        intro blank
        have outside := toNat_of_isBlank blank
        omega
      · rintro rfl
        exact absurd range (by decide)

theorem IsListable.trim_eq {text : Text} (listable : IsListable text) :
    trim text = text :=
  trim_eq_self
    (fun character first => (listable character
      (List.mem_of_mem_head? first)).1)
    (fun character last => (listable character
      (List.mem_of_mem_getLast? last)).1)

/-- What is listed is read back. -/
theorem map_trim_piecesAt_intercalate {list : List Text} (nonempty : list ≠ [])
    (all : ∀ text ∈ list, IsListable text) :
    (piecesAt (· == ',') ((", " : Text).intercalate list)).map trim =
      list := by
  refine map_trim_pieces_intercalate ⟨rfl, rfl⟩ ⟨rfl, rfl⟩ nonempty ?_
  intro text member
  have listable := all text member
  refine ⟨isWhole_of_forall fun character inside => ?_, listable.trim_eq⟩
  exact ⟨beq_eq_false_iff_ne.mpr (listable character inside).2, rfl⟩

/-- The line that lists dependencies. -/
def sectionLine (dependencies : List Text) : Text :=
  margin 1 ++ dependencyKey ++ (" = " : Text) ++
    ('[' :: (", " : Text).intercalate dependencies ++ [']'])

theorem dependencySection_eq (dependencies : List Text) :
    Resource.dependencySection dependencies =
      ofLines [[], sectionLine dependencies, ['\x7d']] := by
  have start : ("\n  depends_on = [" : Text) =
      '\n' :: (margin 1 ++ dependencyKey ++ (" = " : Text) ++ ['[']) := by
    decide
  have closing : ("]\n" : Text) ++ Resource.blockEnd =
      ']' :: '\n' :: '\x7d' :: ['\n'] := by
    decide
  unfold Resource.dependencySection sectionLine
  rw [List.append_assoc, closing, start]
  simp only [ofLines_cons, ofLines_nil, List.append_assoc, List.cons_append,
    List.nil_append]

theorem bracketed?_intercalate {list : List Text} (nonempty : list ≠ [])
    (all : ∀ text ∈ list, IsListable text) :
    bracketed? ('[' :: (", " : Text).intercalate list ++ [']']) =
      some list := by
  have opening : dropStart? "["
      ('[' :: (", " : Text).intercalate list ++ [']']) =
        some ((", " : Text).intercalate list ++ [']']) :=
    dropStart?_append ['['] _
  have closing : dropEnd? "]" ((", " : Text).intercalate list ++ [']']) =
      some ((", " : Text).intercalate list) :=
    dropEnd?_append [']'] _
  unfold bracketed?
  rw [opening, Option.bind_eq_bind, Option.bind_some, closing,
    Option.map_some, map_trim_piecesAt_intercalate nonempty all]

theorem attribute?_sectionLine (dependencies : List Text) :
    attribute? dependencyKey (sectionLine dependencies) =
      some ('[' :: (", " : Text).intercalate dependencies ++ [']']) :=
  attribute?_append dependencyKey _

theorem not_feed_of_mem_sectionLine {dependencies : List Text}
    (all : ∀ target ∈ dependencies, IsListable target) :
    '\n' ∉ sectionLine dependencies := by
  have start : '\n' ∉ margin 1 ++ dependencyKey ++ (" = " : Text) := by
    decide
  have brackets : '\n' ≠ '[' ∧ '\n' ∉ [']'] ∧ '\n' ∉ (", " : Text) := by
    decide
  intro feed
  rcases List.mem_append.mp feed with before | value
  · exact start before
  · rcases List.mem_append.mp value with opened | closing
    · rcases List.mem_cons.mp opened with bracket | listed
      · exact brackets.1 bracket
      · rcases mem_intercalate listed with between | ⟨target, member, inside⟩
        · exact brackets.2.2 between
        · have noBlank := (all target member '\n' inside).1
          exact absurd noBlank (by decide)
    · exact brackets.2.1 closing

/-! ## Blocks with a section -/

/-- A block of whole lines, no one of which could list dependencies. -/
def Resource.IsPlain (resource : Resource) : Prop :=
  ∃ text, resource.block = text ++ closingLine 0 ∧
    HasLines dependencyKey text

/-- The lines that a block with dependencies ends with. -/
def closingLines (dependencies : List Text) : List Text :=
  if dependencies = [] then
    [['\x7d']]
  else
    [[], sectionLine dependencies, ['\x7d']]

/-- Dependencies come in front of the line that ends a block. -/
theorem content_eq_append {resource : Resource} {text : Text}
    (block : resource.block = text ++ closingLine 0) :
    resource.content =
      text ++ ofLines (closingLines resource.dependencies) := by
  have dropped : dropEnd? Resource.blockEnd resource.block = some text := by
    rw [block]
    exact dropEnd?_append Resource.blockEnd _
  unfold Resource.content closingLines
  split_ifs with isEmpty empty filled
  · exact block
  · exact absurd (List.isEmpty_iff.mp isEmpty) empty
  · exact absurd (List.isEmpty_iff.mpr filled) isEmpty
  · rw [dropped, Option.getD_some, dependencySection_eq]

theorem content_eq_ofLines {resource : Resource} {lines : List Text}
    (block : resource.block = ofLines lines ++ closingLine 0) :
    resource.content =
      ofLines (lines ++ closingLines resource.dependencies) := by
  rw [content_eq_append block, ofLines_append]

theorem filterMap_closingLines (dependencies : List Text) :
    (closingLines dependencies ++ [[]]).filterMap (attribute? dependencyKey) =
      if dependencies = [] then
        []
      else
        ['[' :: (", " : Text).intercalate dependencies ++ [']']] := by
  have brace : attribute? dependencyKey ['\x7d'] = none := by decide
  have nothing : attribute? dependencyKey [] = none := by decide
  unfold closingLines
  split_ifs
  · simp only [List.cons_append, List.nil_append, List.filterMap_cons, brace,
      nothing, List.filterMap_nil]
  · simp only [List.cons_append, List.nil_append, List.filterMap_cons, brace,
      nothing, attribute?_sectionLine, List.filterMap_nil]

section

variable {resource : Resource} (isPlain : resource.IsPlain)
  (all : ∀ target ∈ resource.dependencies, IsListable target)

include isPlain all

/-- The lines of a resource: those of its block, with a section at the end. -/
theorem exists_lines_of_isPlain :
    ∃ lines, resource.block = ofLines (lines ++ [['\x7d']]) ∧
      (∀ line ∈ lines, attribute? dependencyKey line = none) ∧
      piecesAt (· == '\n') resource.content =
        lines ++ (closingLines resource.dependencies ++ [[]]) := by
  obtain ⟨text, block, lines, rfl, apart⟩ := isPlain
  have whole : ∀ line ∈ lines ++ closingLines resource.dependencies,
      '\n' ∉ line := by
    rw [List.forall_mem_append]
    refine ⟨fun line member => (apart line member).1, ?_⟩
    have listed := not_feed_of_mem_sectionLine all
    rw [closingLines]
    split_ifs <;> simp [listed]
  have pieces := piecesAt_ofLines_append whole []
  rw [List.append_nil, ← content_eq_ofLines block, List.append_assoc]
    at pieces
  refine ⟨lines, ?_, fun line member => (apart line member).2, pieces⟩
  rw [block, ofLines_append]
  rfl

/-- There is one section, unless there are no dependencies. -/
theorem dependencySections_content :
    dependencySections resource.content =
      if resource.dependencies = [] then
        []
      else
        [some resource.dependencies] := by
  obtain ⟨lines, -, apart, cut⟩ := exists_lines_of_isPlain isPlain all
  have noKey : lines.filterMap (attribute? dependencyKey) = [] :=
    List.filterMap_eq_nil_iff.mpr apart
  rw [dependencySections, cut, List.filterMap_append, noKey,
    List.nil_append, filterMap_closingLines]
  split_ifs with empty
  · rfl
  · rw [List.map_singleton, bracketed?_intercalate empty all]

end

/-! ## Blocks without their section -/

/-- Lines in which no section starts stay as they are. -/
theorem linesWithoutSection_append {lines : List Text}
    (apart : ∀ line ∈ lines, attribute? dependencyKey line = none)
    {next : Text} (noKey : attribute? dependencyKey next = none)
    (others : List Text) :
    linesWithoutSection (lines ++ next :: others) =
      lines ++ linesWithoutSection (next :: others) := by
  induction lines with
  | nil => rfl
  | cons first rest ih =>
      rw [List.forall_mem_cons] at apart
      cases rest with
      | nil =>
          rw [List.cons_append, List.nil_append, linesWithoutSection, if_neg]
          · rfl
          · rw [noKey]
            exact fun both => Bool.false_ne_true both.2
      | cons second behind =>
          have secondKey := apart.2 second List.mem_cons_self
          rw [List.cons_append, List.cons_append, linesWithoutSection, if_neg,
            ← List.cons_append, ih apart.2]
          · rfl
          · rw [secondKey]
            exact fun both => Bool.false_ne_true both.2

/-- Without a section, a block ends with its closing line alone. -/
theorem linesWithoutSection_closingLines (dependencies : List Text) :
    linesWithoutSection (closingLines dependencies ++ [[]]) =
      [['\x7d'], []] := by
  have closed : linesWithoutSection [['\x7d'], []] = [['\x7d'], []] := by
    decide
  rw [closingLines]
  split_ifs
  · exact closed
  · have starts : (attribute? dependencyKey
        (sectionLine dependencies)).isSome = true := by
      rw [attribute?_sectionLine]
      rfl
    rw [List.cons_append, List.cons_append, linesWithoutSection,
      if_pos ⟨rfl, starts⟩]
    exact closed

/-- What is left without the section is the block that was written. -/
theorem withoutSection_content {resource : Resource}
    (isPlain : resource.IsPlain)
    (all : ∀ target ∈ resource.dependencies, IsListable target) :
    withoutSection resource.content = resource.block := by
  obtain ⟨lines, block, apart, cut⟩ := exists_lines_of_isPlain isPlain all
  have noSection : linesWithoutSection
      (lines ++ (closingLines resource.dependencies ++ [[]])) =
        (lines ++ [['\x7d']]) ++ [[]] := by
    have brace : attribute? dependencyKey ['\x7d'] = none := by decide
    have nothing : attribute? dependencyKey [] = none := by decide
    have ends := linesWithoutSection_closingLines resource.dependencies
    rw [List.append_assoc]
    rw [closingLines] at ends ⊢
    split_ifs at ends ⊢
    · exact (linesWithoutSection_append apart brace _).trans
        (congrArg (lines ++ ·) ends)
    · exact (linesWithoutSection_append apart nothing _).trans
        (congrArg (lines ++ ·) ends)
  rw [withoutSection, cut, noSection, intercalate_feed, block]

end Snowform.Terraform
