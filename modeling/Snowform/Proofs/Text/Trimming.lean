import Snowform.Text.Blank
import Mathlib.Data.List.DropRight
import Mathlib.Data.List.TakeWhile

/-!
# Trimming

A text is its leading blanks, the trimmed text and trailing blanks, and a
trimmed text neither starts nor ends with a blank.
-/

namespace Snowform.Text

/-! ## Dropping -/

@[simp]
theorem dropStart?_append (pattern text : Text) :
    dropStart? pattern (pattern ++ text) = some text := by
  simp [dropStart?]

@[simp]
theorem dropEnd?_append (pattern text : Text) :
    dropEnd? pattern (text ++ pattern) = some text := by
  simp [dropEnd?]

theorem dropEndWhile_concat {α : Type} (test : α → Bool) (list : List α)
    (last : α) :
    dropEndWhile test (list ++ [last]) =
      if test last then dropEndWhile test list else list ++ [last] := by
  induction list with
  | nil => rfl
  | cons element rest ih =>
      rw [List.cons_append, dropEndWhile, ih]
      by_cases drops : test last = true
      · rw [if_pos drops, if_pos drops, dropEndWhile]
      · rw [if_neg drops, if_neg drops]
        cases rest <;> rfl

theorem dropEndWhile_append {α : Type} (test : α → Bool)
    (first second : List α) :
    dropEndWhile test (first ++ second) =
      if dropEndWhile test second = [] then dropEndWhile test first
      else first ++ dropEndWhile test second := by
  induction second using List.reverseRecOn with
  | nil =>
      rw [List.append_nil]
      rfl
  | append_singleton rest last ih =>
      rw [← List.append_assoc, dropEndWhile_concat, dropEndWhile_concat]
      split
      · exact ih
      · rw [if_neg (List.append_ne_nil_of_right_ne_nil rest
          (List.cons_ne_nil last [])), List.append_assoc]

/-- Dropping from the end commutes with maps that the test does not notice. -/
theorem dropEndWhile_map {α β : Type} (change : α → β) (test : β → Bool)
    (list : List α) :
    dropEndWhile test (list.map change) =
      (dropEndWhile (fun element => test (change element)) list).map
        change := by
  induction list using List.reverseRecOn with
  | nil => rfl
  | append_singleton rest last ih =>
      rw [List.map_append, List.map_singleton, dropEndWhile_concat,
        dropEndWhile_concat, ih]
      split
      · rfl
      · rw [List.map_append, List.map_singleton]

/-- Dropping from the end is the list library's dropping from the right. -/
theorem dropEndWhile_eq_rdropWhile {α : Type} (test : α → Bool)
    (list : List α) : dropEndWhile test list = list.rdropWhile test := by
  induction list using List.reverseRecOn with
  | nil => rfl
  | append_singleton rest last ih =>
      rw [dropEndWhile_concat, List.rdropWhile_concat, ih]

/-! ## Trimming -/

theorem toNat_of_isBlank {character : Char}
    (blank : isBlank character = true) :
    character.toNat ≤ 32 ∨ 122 < character.toNat := by
  simp only [isBlank, inRanges, blankRanges, List.any_cons, List.any_nil,
    Bool.or_eq_true, Bool.and_eq_true, decide_eq_true_eq,
    Bool.false_eq_true, or_false] at blank
  omega

theorem toUpper_of_isBlank {character : Char}
    (blank : isBlank character = true) : character.toUpper = character := by
  have bounds := toNat_of_isBlank blank
  apply dif_neg
  rintro ⟨low, high⟩
  rw [UInt32.le_iff_toNat_le] at low
  rw [UInt32.le_iff_toNat_le] at high
  change 97 ≤ character.toNat at low
  change character.toNat ≤ 122 at high
  omega

/-- What is trimmed from the end of a text are the blanks behind its last
visible character. -/
theorem exists_trimEnd (text : Text) :
    ∃ after, (∀ character ∈ after, isBlank character = true) ∧
      text = trimEnd text ++ after := by
  refine ⟨text.rtakeWhile isBlank, fun _ => List.mem_rtakeWhile_imp, ?_⟩
  rw [trimEnd, dropEndWhile_eq_rdropWhile, List.rdropWhile_append_rtakeWhile]

theorem visible_last_trimEnd (text : Text) :
    ∀ last ∈ (trimEnd text).getLast?, isBlank last = false := by
  intro last isLast
  rw [trimEnd, dropEndWhile_eq_rdropWhile] at isLast
  have nonempty : text.rdropWhile isBlank ≠ [] := by
    intro empty
    rw [empty] at isLast
    cases isLast
  rw [List.getLast?_eq_some_getLast nonempty] at isLast
  obtain rfl := Option.some.inj isLast
  exact Bool.eq_false_iff.mpr (List.rdropWhile_last_not isBlank text nonempty)

/-- The blanks that a text starts with. -/
def leadingBlanks (text : Text) : Text :=
  text.takeWhile isBlank

/-- The blanks that a text ends with, if it does not consist of blanks. -/
def trailingBlanks (text : Text) : Text :=
  (trimStart text).rtakeWhile isBlank

theorem trim_eq_rdropWhile (text : Text) :
    trim text = (text.dropWhile isBlank).rdropWhile isBlank :=
  dropEndWhile_eq_rdropWhile isBlank _

/-- Trimming only takes away blanks at both ends. -/
theorem leading_trim_trailing (text : Text) :
    leadingBlanks text ++ (trim text ++ trailingBlanks text) = text := by
  rw [trim_eq_rdropWhile, trailingBlanks, trimStart,
    List.rdropWhile_append_rtakeWhile, leadingBlanks,
    List.takeWhile_append_dropWhile]

theorem isBlank_of_mem_leadingBlanks {text : Text} {character : Char}
    (member : character ∈ leadingBlanks text) : isBlank character = true :=
  List.mem_takeWhile_imp member

theorem isBlank_of_mem_trailingBlanks {text : Text} {character : Char}
    (member : character ∈ trailingBlanks text) : isBlank character = true :=
  List.mem_rtakeWhile_imp member

/-- A text that ends visibly is not trimmed at its end. -/
theorem leading_trim_of_visible {text : Text} {last : Char}
    (isLast : text.getLast? = some last) (visible : isBlank last = false) :
    leadingBlanks text ++ trim text = text ∧ trim text ≠ [] := by
  have cut := leading_trim_trailing text
  have nothing : trailingBlanks text = [] := by
    by_contra some
    rw [← cut, ← List.append_assoc,
      List.getLast?_append_of_ne_nil _ some] at isLast
    have blank :=
      isBlank_of_mem_trailingBlanks (List.mem_of_mem_getLast? isLast)
    cases visible.symm.trans blank
  rw [nothing, List.append_nil] at cut
  refine ⟨cut, fun empty => ?_⟩
  rw [empty, List.append_nil] at cut
  rw [← cut] at isLast
  have blank := isBlank_of_mem_leadingBlanks (List.mem_of_mem_getLast? isLast)
  cases visible.symm.trans blank

/-- A trimmed text starts with no blank. -/
theorem leadingBlanks_trim (text : Text) : leadingBlanks (trim text) = [] := by
  obtain ⟨dropped, starts⟩ :
      trim text <+: text.dropWhile isBlank := by
    rw [trim_eq_rdropWhile]
    exact List.rdropWhile_prefix _ _
  cases equal : trim text with
  | nil => rfl
  | cons first others =>
      rw [equal, List.cons_append] at starts
      have notBlank : ¬ isBlank first = true := by
        have head := List.head?_dropWhile_not isBlank text
        rw [← starts] at head
        simpa using head
      rw [leadingBlanks, List.takeWhile_cons_of_neg notBlank]

/-- Trimming a second time changes nothing. -/
theorem trim_trim (text : Text) : trim (trim text) = trim text := by
  have unchanged : (trim text).dropWhile isBlank = trim text := by
    have parts := List.takeWhile_append_dropWhile (p := isBlank) (l := trim text)
    rw [← leadingBlanks, leadingBlanks_trim] at parts
    exact parts
  rw [trim_eq_rdropWhile (trim text), unchanged, trim_eq_rdropWhile text,
    List.rdropWhile_idempotent]

/-- A text with no blank at its ends is not changed when it is trimmed. -/
theorem trim_eq_self {text : Text}
    (first : ∀ character ∈ text.head?, isBlank character = false)
    (last : ∀ character ∈ text.getLast?, isBlank character = false) :
    trim text = text := by
  have start : text.dropWhile isBlank = text := by
    cases text with
    | nil => rfl
    | cons character others =>
        have notBlank := first character rfl
        exact List.dropWhile_cons_of_neg (by simp [notBlank])
  rw [trim_eq_rdropWhile, start, List.rdropWhile_eq_self_iff]
  intro nonempty
  have notBlank := last _ (List.getLast?_eq_some_getLast nonempty)
  simp [notBlank]

theorem trim_of_ends {text : Text} {first last : Char}
    (starts : text.head? = some first) (ends : text.getLast? = some last)
    (notBlank : isBlank first = false ∧ isBlank last = false) :
    trim text = text := by
  apply trim_eq_self
  · rw [starts]
    rintro character ⟨⟩
    exact notBlank.1
  · rw [ends]
    rintro character ⟨⟩
    exact notBlank.2

/-- Blanks around a text make no difference when it is trimmed. -/
theorem trim_append_append {before after : Text}
    (blankBefore : ∀ character ∈ before, isBlank character = true)
    (blankAfter : ∀ character ∈ after, isBlank character = true)
    (text : Text) : trim (before ++ (text ++ after)) = trim text := by
  have shorter : ∀ list : Text,
      (list ++ after).rdropWhile isBlank = list.rdropWhile isBlank := by
    intro list
    have reversed : ∀ character ∈ after.reverse, isBlank character = true :=
      fun character member => blankAfter character (List.mem_reverse.mp member)
    rw [List.rdropWhile, List.reverse_append,
      List.dropWhile_append_of_pos reversed, List.rdropWhile]
  rw [trim_eq_rdropWhile, List.dropWhile_append_of_pos blankBefore,
    trim_eq_rdropWhile, List.dropWhile_append]
  split
  next empty =>
    rw [List.isEmpty_iff.mp empty, List.dropWhile_eq_nil_iff.mpr blankAfter]
  next => exact shorter _

theorem trim_append_left {before : Text}
    (blankBefore : ∀ character ∈ before, isBlank character = true)
    (text : Text) : trim (before ++ text) = trim text := by
  have same := trim_append_append blankBefore (List.forall_mem_nil _) text
  rwa [List.append_nil] at same

theorem trim_cons_blank (text : Text) : trim (' ' :: text) = trim text := by
  have blank : isBlank ' ' = true := by decide
  exact trim_append_left (List.forall_mem_singleton.mpr blank) text

/-- A text with a visible character is not empty when it is trimmed. -/
theorem trim_ne_nil {text : Text} {character : Char}
    (member : character ∈ text) (visible : isBlank character = false) :
    trim text ≠ [] := by
  intro empty
  have parts := leading_trim_trailing text
  rw [empty, List.nil_append] at parts
  rw [← parts] at member
  rcases List.mem_append.mp member with leading | trailing
  · rw [isBlank_of_mem_leadingBlanks leading] at visible
    cases visible
  · rw [isBlank_of_mem_trailingBlanks trailing] at visible
    cases visible

end Snowform.Text
