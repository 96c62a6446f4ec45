import Snowform.Lexical.Parentheses
import Snowform.Proofs.Lexical.Phrases
import Snowform.Proofs.Text.Listing
import Mathlib.Data.Bool.AllAny

/-!
# Parentheses that belong together

A list is balanced if none of its parentheses closes one in front of it and
none stays open.  Parentheses around a balanced list belong together.  Quoted
names have no parentheses that count, in a script as well as in a masked one,
and neither have lists of them.
-/

namespace Snowform.Lexical

open Text

/-- Elements of which no parenthesis closes one in front of them. -/
def IsBalanced {α : Type} [Shown α] (list : List α) : Prop :=
  ∀ depth rest, closing? none depth (list ++ rest) =
    (closing? none depth rest).map fun parts => (list ++ parts.1, parts.2)

section

variable {α : Type} [Shown α]

/-! ## Single elements -/

/-- Other characters close nothing. -/
theorem closing?_plain {element : α}
    (plain : shown element ∉ ['\'', '"', '(', ')']) (depth : Nat)
    (rest : List α) :
    closing? none depth (element :: rest) =
      (closing? none depth rest).map fun parts =>
        (element :: parts.1, parts.2) := by
  simp only [List.mem_cons, List.not_mem_nil, or_false, not_or] at plain
  simp [closing?, plain]

/-- An opening parenthesis waits for one more to close. -/
theorem closing?_opening {element : α} (opens : shown element = '(')
    (depth : Nat) (rest : List α) :
    closing? none depth (element :: rest) =
      (closing? none (depth + 1) rest).map fun parts =>
        (element :: parts.1, parts.2) := by
  simp [closing?, opens]

/-- A closing parenthesis closes the last one that is open. -/
theorem closing?_closing {element : α} (closes : shown element = ')')
    (depth : Nat) (rest : List α) :
    closing? none (depth + 1) (element :: rest) =
      (closing? none depth rest).map fun parts =>
        (element :: parts.1, parts.2) := by
  simp [closing?, closes]

/-- The quotes between which parentheses do not count. -/
abbrev IsQuote (quote : Char) : Prop :=
  quote = '\'' ∨ quote = '"'

/-- A quote hides parentheses up to the next one. -/
theorem closing?_quote {quote : Char} (isQuote : IsQuote quote) {element : α}
    (same : shown element = quote) (depth : Nat) (rest : List α) :
    closing? none depth (element :: rest) =
      (closing? (some quote) depth rest).map fun parts =>
        (element :: parts.1, parts.2) := by
  subst same
  exact if_pos isQuote

theorem closing?_inside {quote : Char} {element : α}
    (other : shown element ≠ quote) (depth : Nat) (rest : List α) :
    closing? (some quote) depth (element :: rest) =
      (closing? (some quote) depth rest).map fun parts =>
        (element :: parts.1, parts.2) :=
  if_neg other

theorem closing?_endQuote (quote : Char) {element : α}
    (same : shown element = quote) (depth : Nat) (rest : List α) :
    closing? (some quote) depth (element :: rest) =
      (closing? none depth rest).map fun parts =>
        (element :: parts.1, parts.2) :=
  if_pos same

/-! ## Parentheses that are open -/

@[simp]
theorem parenthesisBalance_nil : parenthesisBalance ([] : List α) = 0 := rfl

@[simp]
theorem parenthesisBalance_append (first second : List α) :
    parenthesisBalance (first ++ second) =
      parenthesisBalance first + parenthesisBalance second := by
  simp only [parenthesisBalance, List.countP_append]
  omega

@[simp]
theorem parenthesisBalance_reverse (list : List α) :
    parenthesisBalance list.reverse = parenthesisBalance list := by
  simp only [parenthesisBalance, List.countP_reverse]

theorem parenthesisBalance_cons (element : α) (rest : List α) :
    parenthesisBalance (element :: rest) =
      parenthesisBalance [element] + parenthesisBalance rest :=
  parenthesisBalance_append [element] rest

/-- What shows no parentheses is balanced. -/
theorem parenthesisBalance_eq_zero {list : List α}
    (plain : ∀ element ∈ list, shown element ∉ ['(', ')']) :
    parenthesisBalance list = 0 := by
  have none : ∀ character ∈ ['(', ')'],
      list.countP (shows (· == character)) = 0 := by
    intro character known
    rw [List.countP_eq_zero]
    intro element member same
    refine plain element member ?_
    rw [beq_iff_eq.mp (show (shown element == character) = true from same)]
    exact known
  rw [parenthesisBalance, none '(' (by decide), none ')' (by decide)]
  rfl

/-- Blanks hold no parentheses. -/
theorem parenthesisBalance_of_blanks {list : List α}
    (blank : ∀ element ∈ list, isBlank (shown element) = true) :
    parenthesisBalance list = 0 := by
  have visible : ∀ mark ∈ ['(', ')'], isBlank mark = false :=
    List.all_iff_forall_prop.mp (by decide)
  refine parenthesisBalance_eq_zero fun element member mark => ?_
  cases (visible _ mark).symm.trans (blank element member)

/-! ## Lists of elements -/

theorem isBalanced_nil : IsBalanced ([] : List α) := by
  intro depth rest
  rw [List.nil_append]
  exact Option.map_id'.symm

/-- Balanced texts one behind the other are balanced. -/
theorem IsBalanced.append {first second : List α}
    (firstBalanced : IsBalanced first) (secondBalanced : IsBalanced second) :
    IsBalanced (first ++ second) := by
  intro depth rest
  rw [List.append_assoc, firstBalanced, secondBalanced, Option.map_map]
  simp only [Function.comp_def, List.append_assoc]

/-- Code without quotes and parentheses. -/
theorem isBalanced_of_forall {list : List α}
    (plain : ∀ element ∈ list, shown element ∉ ['\'', '"', '(', ')']) :
    IsBalanced list := by
  induction list with
  | nil => exact isBalanced_nil
  | cons element others ih =>
      rw [List.forall_mem_cons] at plain
      intro depth rest
      rw [List.cons_append, closing?_plain plain.1, ih plain.2,
        Option.map_map]
      rfl

/-- A balanced text in parentheses is balanced. -/
theorem IsBalanced.parenthesised {list : List α} (balanced : IsBalanced list)
    {opening closing : α} (opens : shown opening = '(')
    (closes : shown closing = ')') :
    IsBalanced (opening :: (list ++ [closing])) := by
  intro depth rest
  rw [List.cons_append, List.append_assoc, closing?_opening opens, balanced,
    List.singleton_append, closing?_closing closes, Option.map_map,
    Option.map_map]
  simp only [Function.comp_def, List.append_assoc, List.cons_append,
    List.nil_append]

/-- What stands in parentheses that a list starts with. -/
theorem IsBalanced.parenthesised?_eq {list : List α}
    (balanced : IsBalanced list) {opening closing : α}
    (opens : shown opening = '(') (closes : shown closing = ')')
    (rest : List α) :
    parenthesised? (opening :: (list ++ closing :: rest)) =
      some (list, rest) := by
  have ends : closing? none 0 (closing :: rest) = some ([], rest) := by
    simp [closing?, closes]
  have starts : character? '(' (opening :: (list ++ closing :: rest)) =
      some (list ++ closing :: rest) := if_pos opens
  rw [parenthesised?, starts, Option.bind_eq_bind, Option.bind_some, balanced,
    ends, Option.map_some, List.append_nil]

/-- Between quotes nothing counts up to the closing one. -/
theorem closing?_quoted {quote : Char} {inside : List α}
    (noQuote : ∀ element ∈ inside, shown element ≠ quote) (depth : Nat)
    (rest : List α) :
    closing? (some quote) depth (inside ++ rest) =
      (closing? (some quote) depth rest).map fun parts =>
        (inside ++ parts.1, parts.2) := by
  induction inside with
  | nil => exact Option.map_id'.symm
  | cons element others ih =>
      rw [List.forall_mem_cons] at noQuote
      rw [List.cons_append, closing?_inside noQuote.1, ih noQuote.2,
        Option.map_map]
      rfl

end

/-- What is hidden between two quotes is balanced. -/
theorem isBalanced_hidden {quote : Char} (isQuote : IsQuote quote)
    (text : Text) :
    IsBalanced (Cell.plain quote ::
      (text.flatMap (veil '_') ++ [.plain quote])) := by
  have noQuote : ∀ cell ∈ text.flatMap (veil '_'), shown cell ≠ quote := by
    have others : '_' ≠ quote ∧ '\n' ≠ quote := by
      rcases isQuote with rfl | rfl <;> decide
    exact forall_shown_of_veil (· ≠ quote) others.1 others.2
  intro depth rest
  rw [List.cons_append, List.append_assoc, closing?_quote isQuote rfl,
    closing?_quoted noQuote, List.singleton_append,
    closing?_endQuote quote rfl, Option.map_map, Option.map_map]
  simp only [Function.comp_def, List.append_assoc, List.cons_append,
    List.nil_append]

/-! ## Quoted names -/

/-- A masked name shows quotes at its ends only. -/
theorem isBalanced_cells_quotedRegion (name : Text) :
    IsBalanced (quotedRegion name).cells := by
  rw [cells_quotedRegion]
  exact isBalanced_hidden (.inr rfl) _

/-- A doubled quote closes a quoted name and opens it again. -/
theorem isBalanced_quotedName (name : Text) : IsBalanced (quotedName name) := by
  have isQuote : IsQuote '"' := .inr rfl
  have inside : ∀ depth (rest : Text),
      closing? (some '"') depth (doubled name ++ '"' :: rest) =
        (closing? none depth rest).map fun parts =>
          (doubled name ++ '"' :: parts.1, parts.2) := by
    intro depth rest
    induction name with
    | nil => exact closing?_endQuote '"' rfl depth rest
    | cons character others ih =>
        by_cases quote : character = '"'
        · rw [quote, doubled_cons_quote, List.cons_append, List.cons_append,
            closing?_endQuote '"' rfl, closing?_quote isQuote rfl, ih,
            Option.map_map, Option.map_map]
          rfl
        · rw [doubled_cons quote, List.cons_append, closing?_inside quote, ih,
            Option.map_map]
          rfl
  intro depth rest
  rw [quotedName, List.cons_append, List.append_assoc,
    closing?_quote isQuote rfl, List.singleton_append, inside,
    Option.map_map]
  simp only [Function.comp_def, List.append_assoc, List.cons_append,
    List.nil_append]

/-! ## Parts one behind another -/

/-- Balanced parts one behind the other are masked as such. -/
theorem IsPart.isBalanced_append {first second : Text} (part : IsPart first)
    (further : IsPart second) (bare : StartsBare second)
    (balanced : IsBalanced (cells first))
    (furtherBalanced : IsBalanced (cells second)) :
    IsBalanced (cells (first ++ second)) := by
  rw [part.cells_append second further.isPhrase bare]
  exact balanced.append furtherBalanced

/-! ## Lists of names -/

section

variable {after : Text} (plain : IsWithout ['\'', '"', '(', ')'] after)

include plain

theorem isBalanced_text : IsBalanced after :=
  isBalanced_of_forall plain

theorem isBalanced_listed (names : List Text) :
    IsBalanced (listed after names) := by
  have comma : IsBalanced (", " : Text) := isBalanced_text (by decide)
  refine intercalate_induction isBalanced_nil
    (fun _ _ first second => first.append second) comma ?_
  intro entry member
  obtain ⟨name, -, rfl⟩ := List.mem_map.mp member
  exact (isBalanced_quotedName name).append (isBalanced_text plain)

theorem isBalanced_map_plain : IsBalanced (after.map Cell.plain) :=
  isBalanced_of_forall (List.forall_mem_map.mpr plain)

/--
A quoted name with code behind it is balanced, whatever parentheses it holds.
-/
theorem isBalanced_cells_named (name : Text) (still : IsStill after) :
    IsBalanced (cells (quotedName name ++ after)) := by
  refine (isPart_quotedName name).isBalanced_append (isPart_code still)
    still.startsBare ?_ ?_
  · rw [cells_quotedName]
    exact isBalanced_cells_quotedRegion name
  · rw [cells_code still]
    exact isBalanced_map_plain plain

end

/-- A masked list is balanced if its entries are. -/
theorem isBalanced_cells_intercalate {entries : List Text}
    (all : ∀ entry ∈ entries, IsPart entry ∧ IsBalanced (cells entry)) :
    IsBalanced (cells ((", " : Text).intercalate entries)) := by
  have comma : IsBalanced ((", " : Text).map Cell.plain) :=
    isBalanced_map_plain (by decide)
  rw [cells_intercalate fun entry member => (all entry member).1]
  refine intercalate_induction isBalanced_nil
    (fun _ _ first second => first.append second) comma ?_
  intro masked member
  obtain ⟨entry, known, rfl⟩ := List.mem_map.mp member
  exact (all entry known).2

/-- Quoted names with commas between them are balanced. -/
theorem isBalanced_cells_listed {after : Text} (still : IsStill after)
    (plain : IsWithout ['\'', '"', '(', ')'] after)
    (names : List Text) : IsBalanced (cells (listed after names)) := by
  refine isBalanced_cells_intercalate fun entry member => ?_
  obtain ⟨name, -, rfl⟩ := List.mem_map.mp member
  exact ⟨isPart_named name still, isBalanced_cells_named plain name still⟩

/-- Parentheses around a balanced list keep it balanced. -/
theorem isBalanced_cells_enclosed {code list : Text} (still : IsStill code)
    (plain : IsWithout ['\'', '"', '(', ')'] code)
    (part : IsPart list) (balanced : IsBalanced (cells list)) :
    IsBalanced (cells (enclosed code list)) := by
  have masked := cells_enclosed_append still part isPhrase_nil
  rw [List.append_nil] at masked
  rw [masked]
  exact (isBalanced_map_plain plain).append (balanced.parenthesised rfl rfl)

end Snowform.Lexical
