import Snowform.Proofs.Text.Pieces
import Snowform.Proofs.Text.Trimming

/-!
# Lists with commas

Texts that are joined with commas and blanks are found again when the list is
cut at its commas and the pieces are trimmed, unless one of them would be cut
itself.  Whether a comma separates may depend on what is open before it.
-/

namespace Snowform.Text

/-! ## Joining -/

/-- What holds for lists one behind another holds for lists that are joined. -/
theorem intercalate_induction {α : Type} {motive : List α → Prop}
    (nil : motive [])
    (append : ∀ first second, motive first → motive second →
      motive (first ++ second))
    {between : List α} (separator : motive between) {lists : List (List α)}
    (all : ∀ list ∈ lists, motive list) :
    motive (between.intercalate lists) := by
  induction lists with
  | nil => exact nil
  | cons first others ih =>
      rw [List.forall_mem_cons] at all
      cases others with
      | nil =>
          rw [List.intercalate_singleton]
          exact all.1
      | cons second further =>
          rw [List.intercalate_cons_cons]
          exact append _ _ (append _ _ all.1 separator) (ih all.2)

/-! ## Pieces that are not cut -/

theorem foldr_consFirst {α : Type} (list first : List α)
    (others : List (List α)) :
    list.foldr consFirst (first :: others) = (list ++ first) :: others := by
  induction list with
  | nil => rfl
  | cons element rest ih => rw [List.foldr_cons, ih]; rfl

section

variable {σ α : Type} (separates : σ → α → Bool) (advance : σ → α → σ)
  (state : σ)

/-- A list that is not cut and leaves the state as it was before it. -/
def IsWhole (list : List α) : Prop :=
  ∀ rest, pieces separates advance state (list ++ rest) =
    list.foldr consFirst (pieces separates advance state rest)

variable {separates advance state}

theorem isWhole_nil : IsWhole separates advance state [] := fun _ => rfl

theorem IsWhole.append {first second : List α}
    (firstWhole : IsWhole separates advance state first)
    (secondWhole : IsWhole separates advance state second) :
    IsWhole separates advance state (first ++ second) := by
  intro rest
  rw [List.append_assoc, firstWhole, secondWhole, List.foldr_append]

/-- An element that does not separate belongs to the piece behind it. -/
theorem pieces_cons {element : α} (joins : separates state element = false)
    (rest : List α) :
    pieces separates advance state (element :: rest) =
      consFirst element
        (pieces separates advance (advance state element) rest) := by
  rw [pieces, joins]
  rfl

/-- Elements that do not separate belong to the piece behind them. -/
theorem pieces_append {front : List α}
    (joins : ∀ before element after, front = before ++ element :: after →
      separates (before.foldl advance state) element = false)
    (rest : List α) :
    pieces separates advance state (front ++ rest) =
      front.foldr consFirst
        (pieces separates advance (front.foldl advance state) rest) := by
  induction front generalizing state with
  | nil => rfl
  | cons first others ih =>
      have starts : separates state first = false := joins [] first others rfl
      have behind := ih fun before element after parts =>
        joins (first :: before) element after (by rw [parts]; rfl)
      rw [List.cons_append, pieces_cons starts, behind]
      rfl

theorem isWhole_of_forall {list : List α}
    (plain : ∀ element ∈ list, separates state element = false ∧
      advance state element = state) : IsWhole separates advance state list := by
  induction list with
  | nil => exact isWhole_nil
  | cons element others ih =>
      rw [List.forall_mem_cons] at plain
      intro rest
      rw [List.cons_append, pieces_cons plain.1.1, plain.1.2, ih plain.2]
      rfl

end

/-- Trimmed texts that are not cut are the pieces of their list. -/
theorem map_trim_pieces_intercalate {σ : Type} {separates : σ → Char → Bool}
    {advance : σ → Char → σ} {state : σ}
    (comma : separates state ',' = true ∧ advance state ',' = state)
    (blank : separates state ' ' = false ∧ advance state ' ' = state)
    {list : List Text} (nonempty : list ≠ [])
    (all : ∀ text ∈ list,
      IsWhole separates advance state text ∧ trim text = text) :
    (pieces separates advance state ((", " : Text).intercalate list)).map
      trim = list := by
  induction list with
  | nil => exact absurd rfl nonempty
  | cons first others ih =>
      rw [List.forall_mem_cons] at all
      cases others with
      | nil =>
          have alone := all.1.1 []
          rw [List.append_nil, pieces, foldr_consFirst, List.append_nil]
            at alone
          rw [List.intercalate_singleton, alone, List.map_singleton, all.1.2]
      | cons second further =>
          have later := ih (List.cons_ne_nil second further) all.2
          have apart : (", " : Text).intercalate (first :: second :: further) =
              first ++ ',' ::
                ' ' :: (", " : Text).intercalate (second :: further) := by
            rw [List.intercalate_cons_cons, List.append_assoc]
            rfl
          generalize (", " : Text).intercalate (second :: further) = behind
            at *
          have cut : pieces separates advance state (',' :: ' ' :: behind) =
              [] :: consFirst ' ' (pieces separates advance state behind) := by
            rw [pieces, if_pos comma.1, comma.2, pieces_cons blank.1, blank.2]
          -- The blank behind a comma belongs to the next piece.
          have trimmed : (consFirst ' '
              (pieces separates advance state behind)).map trim =
              (pieces separates advance state behind).map trim := by
            obtain ⟨piece, others, found, -⟩ :=
              exists_pieces_eq_cons separates advance state behind
            rw [found, consFirst, List.map_cons, List.map_cons,
              trim_cons_blank]
          rw [apart, all.1.1, cut, foldr_consFirst, List.append_nil,
            List.map_cons, trimmed, later, all.1.2]

end Snowform.Text
