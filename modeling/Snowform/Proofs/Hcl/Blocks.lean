import Snowform.Hcl.Block
import Snowform.Proofs.Hcl.Heredoc
import Snowform.Proofs.Text.Words

/-!
# Lines of a resource block

A resource block consists of whole lines.  Items with keys of one word write
lines that hold no attribute of another key, since values are quoted, stand
in a heredoc or have no line feeds.
-/

namespace Snowform.Hcl

open Text

/-! ## Attributes -/

/-- The value that a line gives to a key of the block itself. -/
def attribute? (key line : Text) : Option Text :=
  dropStart? (margin 1 ++ key ++ (" = " : Text)) line

/-- An attribute one level deep is read back. -/
theorem attribute?_append (key value : Text) :
    attribute? key (margin 1 ++ key ++ (" = " : Text) ++ value) =
      some value :=
  dropStart?_append _ value

/-- A word that an attribute or a block can be named by. -/
def IsKey (key : Text) : Prop :=
  key ≠ [] ∧ ' ' ∉ key ∧ '\n' ∉ key

instance (key : Text) : Decidable (IsKey key) :=
  inferInstanceAs (Decidable (_ ∧ _))

/-- A whole line that holds no attribute of a key. -/
def HoldsNo (key line : Text) : Prop :=
  '\n' ∉ line ∧ attribute? key line = none

theorem margin_succ (depth : Nat) :
    margin (depth + 1) = ' ' :: ' ' :: margin depth := rfl

theorem attribute?_eq_none {own line : Text}
    (differs : ∀ value, margin 1 ++ own ++ (" = " : Text) ++ value ≠ line) :
    attribute? own line = none := by
  rw [attribute?, dropStart?, if_neg]
  rw [List.isPrefixOf_iff_prefix]
  rintro ⟨value, same⟩
  exact differs value same

section

variable {own : Text} (isKey : IsKey own)

include isKey

/-- A line that stands deeper starts with more blanks. -/
theorem holdsNo_of_deep {text : Text} (whole : '\n' ∉ text) (depth : Nat) :
    HoldsNo own (margin (depth + 2) ++ text) := by
  constructor
  · simpa [margin] using whole
  · apply attribute?_eq_none
    intro value same
    obtain ⟨first, others, rfl⟩ := List.exists_cons_of_ne_nil isKey.1
    rw [margin_succ, margin_succ] at same
    have inside := List.cons.inj (List.cons.inj (List.cons.inj same).2).2
    exact isKey.2.1 (inside.1 ▸ List.mem_cons_self)

/-- A line is told from an attribute of another key by its first word. -/
theorem holdsNo_of_key {key rest : Text} (other : IsKey key)
    (differs : key ≠ own) (whole : '\n' ∉ rest) (depth : Nat) :
    HoldsNo own (margin depth ++ (key ++ ' ' :: rest)) := by
  have inside : '\n' ∉ key ++ ' ' :: rest := by
    simp [other.2.2, whole]
  -- Attributes of the block stand at depth one, where the keys decide.
  match depth with
  | 0 =>
      refine ⟨inside, attribute?_eq_none ?_⟩
      intro value same
      obtain ⟨first, others, rfl⟩ := List.exists_cons_of_ne_nil other.1
      have head := (List.cons.inj same).1
      exact other.2.1 (head ▸ List.mem_cons_self)
  | 1 =>
      refine ⟨by simpa [margin] using inside, attribute?_eq_none ?_⟩
      intro value same
      have word : ∀ {list : Text}, ' ' ∉ list → ∀ tail,
          (list ++ ' ' :: tail).takeWhile (· != ' ') = list := by
        intro list noBlank tail
        have all : ∀ character ∈ list, (character != ' ') = true := by
          intro character member
          apply bne_iff_ne.mpr
          rintro rfl
          exact noBlank member
        rw [List.takeWhile_append_of_pos all]
        simp
      have lines : own ++ ' ' :: ('=' :: ' ' :: value) =
          key ++ ' ' :: rest := by
        simpa [margin] using same
      have words := congrArg (List.takeWhile (· != ' ')) lines
      rw [word isKey.2.1, word other.2.1] at words
      exact differs words.symm
  | deeper + 2 => exact holdsNo_of_deep isKey inside deeper

/-- A line without blanks behind its margin holds no attribute. -/
theorem holdsNo_of_short {text : Text} (whole : '\n' ∉ text)
    (noBlank : ' ' ∉ text) (depth : Nat) :
    HoldsNo own (margin depth ++ text) := by
  match depth with
  | 0 =>
      refine ⟨whole, attribute?_eq_none ?_⟩
      rintro value rfl
      exact noBlank (by simp)
  | 1 =>
      refine ⟨by simpa [margin] using whole, attribute?_eq_none ?_⟩
      intro value same
      apply noBlank
      have lines : own ++ ' ' :: ('=' :: ' ' :: value) = text := by
        simpa [margin] using same
      rw [← lines]
      simp
  | deeper + 2 => exact holdsNo_of_deep isKey whole deeper

end

/-! ## Items -/

/-- The line that opens a resource block. -/
def blockStart (kind name : Text) : Text :=
  ("resource \"" : Text) ++ kind ++ ("\" \"" : Text) ++ name ++
    ("\" \x7b" : Text)

/-- A block is its first line and its items one level deeper. -/
theorem resourceBlock_eq (kind name : Text) (items : List Item) :
    resourceBlock kind name items =
      blockStart kind name ++ '\n' :: writeItems 1 items := by
  have ending : ("\" \x7b\n" : Text) = ("\" \x7b" : Text) ++ ['\n'] := by decide
  unfold resourceBlock blockStart
  rw [ending]
  simp only [List.append_assoc, List.singleton_append]

/-- The first line of a block is one line. -/
theorem not_feed_of_mem_blockStart {kind name : Text} (wholeKind : '\n' ∉ kind)
    (wholeName : '\n' ∉ name) : '\n' ∉ blockStart kind name := by
  have words : ∀ word ∈ (["resource \"", "\" \"", "\" \x7b"] : List Text),
      '\n' ∉ word := by decide
  simp only [List.forall_mem_cons] at words
  unfold blockStart
  simp only [List.mem_append, not_or]
  exact ⟨⟨⟨⟨words.1, wholeKind⟩, words.2.1⟩, wholeName⟩, words.2.2.1⟩

theorem head?_blockStart (kind name : Text) :
    (blockStart kind name).head? = some 'r' := by
  have word : ("resource \"" : Text) = 'r' :: ("esource \"" : Text) := by
    decide
  unfold blockStart
  rw [word]
  simp only [List.cons_append, List.head?_cons]

/-- The first line of a block holds no attribute. -/
theorem attribute?_blockStart (own kind name : Text) :
    attribute? own (blockStart kind name) = none := by
  apply attribute?_eq_none
  intro value same
  have blank : (blockStart kind name).head? = some ' ' := by
    rw [← same, margin_succ]
    rfl
  rw [head?_blockStart] at blank
  exact absurd blank (by decide)

/-- A key of one word that differs from a given one. -/
def IsOther (own key : Text) : Prop :=
  IsKey key ∧ key ≠ own

instance (own key : Text) : Decidable (IsOther own key) :=
  inferInstanceAs (Decidable (_ ∧ _))

/-- An item that has no attribute of a key and stands on lines of its own. -/
def Item.IsApart (own : Text) : Item → Prop
  | .raw key value => IsOther own key ∧ '\n' ∉ value
  | .text key _ => IsOther own key
  | .flag key _ => IsOther own key
  | .texts key _ => IsOther own key
  | .heredoc key _ => IsOther own key
  | .opening name => IsOther own name
  | .closing => True
  | .blankLine => True

/-- There are lines that a text consists of, none with an attribute of a key. -/
def HasLines (own text : Text) : Prop :=
  ∃ lines, text = ofLines lines ∧ ∀ line ∈ lines, HoldsNo own line

/-- Lines one behind the other are lines. -/
theorem HasLines.append {own first second : Text}
    (before : HasLines own first) (behind : HasLines own second) :
    HasLines own (first ++ second) := by
  obtain ⟨lines, rfl, apart⟩ := before
  obtain ⟨others, rfl, othersApart⟩ := behind
  refine ⟨lines ++ others, (ofLines_append lines others).symm, ?_⟩
  intro line member
  rcases List.mem_append.mp member with here | there
  · exact apart line here
  · exact othersApart line there

theorem hasLines_nil (own : Text) : HasLines own [] :=
  ⟨[], rfl, by simp⟩

theorem hasLines_line {own line : Text} (apart : HoldsNo own line) :
    HasLines own (line ++ ['\n']) :=
  ⟨[line], by simp, by simpa using apart⟩

/-- A quoted text stays on its line. -/
theorem not_feed_of_mem_quoted (value : Text) : '\n' ∉ quoted value := by
  have escaped : ∀ character, '\n' ∉ escapeCharacter character := by
    intro character
    unfold escapeCharacter
    split <;> simp_all [eq_comm]
  have inside : '\n' ∉ escape value := by
    intro member
    obtain ⟨character, -, here⟩ := List.mem_flatMap.mp member
    exact escaped character here
  simp [quoted, inside]

/-- A list of quoted texts stays on its line. -/
theorem not_feed_of_mem_listed (values : List Text) :
    '\n' ∉ listed values := by
  intro member
  rcases List.mem_append.mp member with opened | closing
  · rcases List.mem_cons.mp opened with bracket | inside
    · exact absurd bracket (by decide)
    · rcases mem_intercalate inside with between | ⟨written, known, here⟩
      · exact absurd between (by decide)
      · obtain ⟨value, -, rfl⟩ := List.mem_map.mp known
        exact not_feed_of_mem_quoted value here
  · exact absurd closing (by decide)

section

variable {own : Text} (isKey : IsKey own)

include isKey

/-- An assignment to another key holds no attribute of a key. -/
theorem hasLines_assignment {key value : Text} (other : IsOther own key)
    (whole : '\n' ∉ value) (depth : Nat) :
    HasLines own (assignment depth key value) := by
  have inside : '\n' ∉ '=' :: ' ' :: value := by simp [whole]
  have line := hasLines_line
    (holdsNo_of_key isKey other.1 other.2 inside depth)
  simpa [assignment] using line

/-- The lines of a heredoc behind its first one stand deep or are short. -/
theorem hasLines_heredoc {key : Text} (other : IsOther own key)
    (body : Text) (depth : Nat) :
    HasLines own ('\n' :: assignment depth key (heredoc body)) := by
  have noFeed : '\n' ∉ marker (bodyLines body) ∧
      ' ' ∉ marker (bodyLines body) := by
    rcases marker_eq (bodyLines body) with same | same <;>
      rw [same] <;> decide
  have empty : HoldsNo own [] := ⟨List.not_mem_nil, rfl⟩
  have first : HoldsNo own
      (margin depth ++ (key ++ ' ' :: '=' :: ' ' :: heredocStart body)) := by
    refine holdsNo_of_key isKey other.1 other.2 ?_ depth
    simp [heredocStart, noFeed.1]
  have written : ∀ line ∈ writtenLines body, HoldsNo own line := by
    intro line member
    have whole := not_feed_of_mem_writtenLines member
    obtain ⟨source, -, rfl⟩ := List.mem_map.mp member
    rw [writeLine] at whole ⊢
    split
    next => exact empty
    next notBlank =>
      rw [if_neg notBlank] at whole
      refine holdsNo_of_deep isKey (fun feed => whole ?_) 0
      exact List.mem_append_right _ feed
  have last : HoldsNo own (heredocEnd body) :=
    holdsNo_of_short isKey noFeed.1 noFeed.2 1
  refine ⟨[] ::
    (margin depth ++ (key ++ ' ' :: '=' :: ' ' :: heredocStart body)) ::
      (writtenLines body ++ [heredocEnd body]), ?_, ?_⟩
  · simp [assignment, heredoc_eq]
  · simp only [List.forall_mem_cons, List.forall_mem_append]
    exact ⟨empty, first, written, last, List.forall_mem_nil _⟩

theorem hasLines_closingLine (depth : Nat) :
    HasLines own (closingLine depth) := by
  have short : '\n' ∉ ['\x7d'] ∧ ' ' ∉ ['\x7d'] := by decide
  have line := hasLines_line (holdsNo_of_short isKey short.1 short.2 depth)
  simpa [closingLine] using line

/-- An item that is apart from a key is written in lines without it. -/
theorem Item.hasLines_write {item : Item} (apart : item.IsApart own)
    (depth : Nat) : HasLines own (item.write depth) := by
  cases item with
  | raw key value => exact hasLines_assignment isKey apart.1 apart.2 depth
  | text key value =>
      exact hasLines_assignment isKey apart (not_feed_of_mem_quoted value) depth
  | flag key value =>
      have whole : '\n' ∉ (if value then "true" else "false" : Text) := by
        cases value <;> decide
      exact hasLines_assignment isKey apart whole depth
  | texts key values =>
      exact hasLines_assignment isKey apart (not_feed_of_mem_listed values)
        depth
  | heredoc key body => exact hasLines_heredoc isKey apart body depth
  | opening name =>
      have brace : '\n' ∉ ['\x7b'] := by decide
      have line := hasLines_line
        (holdsNo_of_key isKey apart.1 apart.2 brace depth)
      have empty : HasLines own (if depth = 1 then ['\n'] else []) := by
        split
        next => exact ⟨[[]], rfl, by simp [HoldsNo, attribute?, dropStart?]⟩
        next => exact hasLines_nil own
      have lines := empty.append line
      simpa [Item.write] using lines
  | closing => exact hasLines_closingLine isKey (depth - 1)
  | blankLine => exact ⟨[[]], rfl, by simp [HoldsNo, attribute?, dropStart?]⟩

/-- The lines in front of the one that ends a block hold no other key. -/
theorem hasLines_writeItems {items : List Item}
    (apart : ∀ item ∈ items, item.IsApart own) (depth : Nat) :
    ∃ text, writeItems depth items = text ++ closingLine 0 ∧
      HasLines own text := by
  induction items generalizing depth with
  | nil =>
      -- What is still open is closed from the inside to the outside.
      induction depth using Nat.strong_induction_on with
      | _ depth ih =>
          match depth with
          | 0 => exact ⟨[], rfl, hasLines_nil own⟩
          | 1 => exact ⟨[], rfl, hasLines_nil own⟩
          | outer + 2 =>
              obtain ⟨text, written, lines⟩ := ih (outer + 1) (by omega)
              refine ⟨closingLine (outer + 1) ++ text, ?_,
                (hasLines_closingLine isKey _).append lines⟩
              rw [List.append_assoc, ← written]
              rfl
  | cons item others ih =>
      rw [List.forall_mem_cons] at apart
      obtain ⟨text, written, lines⟩ := ih apart.2 (item.depthAfter depth)
      refine ⟨item.write depth ++ text, ?_,
        (item.hasLines_write isKey apart.1 depth).append lines⟩
      rw [writeItems, written, List.append_assoc]

/-- A resource block is its first line, lines without a key, and its end. -/
theorem hasLines_resourceBlock {items : List Item}
    (apart : ∀ item ∈ items, item.IsApart own) {kind name : Text}
    (wholeKind : '\n' ∉ kind) (wholeName : '\n' ∉ name) :
    ∃ text, resourceBlock kind name items = text ++ closingLine 0 ∧
      HasLines own text := by
  obtain ⟨text, written, lines⟩ := hasLines_writeItems isKey apart 1
  have first : HoldsNo own (blockStart kind name) :=
    ⟨not_feed_of_mem_blockStart wholeKind wholeName,
      attribute?_blockStart own kind name⟩
  refine ⟨_, ?_, (hasLines_line first).append lines⟩
  rw [resourceBlock_eq, written, List.append_assoc, List.append_assoc,
    List.singleton_append]

end

/-! ## Bodies at the end of a block -/

/-- The depth behind items. -/
def depthBehind (depth : Nat) (items : List Item) : Nat :=
  items.foldl Item.depthAfter depth

/-- Items that close every block they open, and no other. -/
def IsBalanced (items : List Item) : Prop :=
  ∀ depth, depthBehind depth items = depth

/-- Balanced items one behind the other are balanced. -/
theorem IsBalanced.append {first second : List Item}
    (firstBalanced : IsBalanced first) (secondBalanced : IsBalanced second) :
    IsBalanced (first ++ second) := by
  intro depth
  rw [depthBehind, List.foldl_append, ← depthBehind, ← depthBehind,
    firstBalanced, secondBalanced]

theorem isBalanced_flatMap {α : Type} {list : List α}
    {items : α → List Item} (all : ∀ element, IsBalanced (items element)) :
    IsBalanced (list.flatMap items) := by
  induction list with
  | nil => exact fun _ => rfl
  | cons element others ih => exact (all element).append ih

/-- What is written behind items is written at the depth behind them. -/
theorem exists_writeItems_append (items others : List Item) (depth : Nat) :
    ∃ front, writeItems depth (items ++ others) =
      front ++ writeItems (depthBehind depth items) others := by
  induction items generalizing depth with
  | nil => exact ⟨[], rfl⟩
  | cons item rest ih =>
      obtain ⟨front, found⟩ := ih (item.depthAfter depth)
      refine ⟨item.write depth ++ front, ?_⟩
      rw [List.cons_append, writeItems, found, List.append_assoc]
      rfl

/-- A body that is the last item stands right before the end of the block. -/
theorem exists_resourceBlock_heredoc (kind name : Text) {items : List Item}
    (balanced : IsBalanced items) (key body : Text) :
    ∃ front, resourceBlock kind name (items ++ [.heredoc key body]) =
      front ++ (heredoc body ++ '\n' :: closingLine 0) := by
  obtain ⟨front, found⟩ :=
    exists_writeItems_append items [.heredoc key body] 1
  have last : writeItems 1 [.heredoc key body] =
      '\n' :: (margin 1 ++ key ++ (" = " : Text)) ++
        (heredoc body ++ '\n' :: closingLine 0) := by
    simp [writeItems, Item.write, assignment, Item.depthAfter, writeEnd]
  rw [balanced 1, last] at found
  refine ⟨blockStart kind name ++ '\n' :: (front ++
    '\n' :: (margin 1 ++ key ++ (" = " : Text))), ?_⟩
  rw [resourceBlock_eq, found]
  simp only [List.append_assoc, List.cons_append]

end Snowform.Hcl
