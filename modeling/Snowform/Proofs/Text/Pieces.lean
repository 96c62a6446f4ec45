import Snowform.Text.Basic
import Mathlib.Data.List.Basic

/-!
# Pieces between separators

Cutting a list at its separators goes piece by piece: `piecesAt_of_forall` is
the last piece and `piecesAt_append_cons` all the others.
`separatedInduction` is the induction that follows the same two cases.
-/

namespace Snowform.Text

variable {α : Type} {separates : α → Bool}

theorem piecesAt_cons_of_pos {element : α} (stops : separates element = true)
    (rest : List α) :
    piecesAt separates (element :: rest) = [] :: piecesAt separates rest := by
  simp [piecesAt, pieces, stops]

theorem piecesAt_cons_of_neg {element : α}
    (continues : separates element = false) (rest : List α) :
    piecesAt separates (element :: rest) =
      consFirst element (piecesAt separates rest) := by
  simp [piecesAt, pieces, continues]

theorem piecesAt_ne_nil (list : List α) : piecesAt separates list ≠ [] := by
  cases list with
  | nil => simp [piecesAt, pieces]
  | cons element rest =>
      cases stops : separates element with
      | true => simp [piecesAt_cons_of_pos stops]
      | false =>
          rw [piecesAt_cons_of_neg stops]
          cases piecesAt separates rest <;> simp [consFirst]

/-- Putting an element into the first of several pieces leaves the others. -/
theorem consFirst_append (element : α) {first : List (List α)}
    (nonempty : first ≠ []) (second : List (List α)) :
    consFirst element (first ++ second) =
      consFirst element first ++ second := by
  cases first with
  | nil => exact absurd rfl nonempty
  | cons piece others => rfl

/-- A separator parts the pieces before it from the pieces behind it. -/
theorem piecesAt_append_cons (first : List α) {separator : α}
    (stops : separates separator = true) (second : List α) :
    piecesAt separates (first ++ separator :: second) =
      piecesAt separates first ++ piecesAt separates second := by
  induction first with
  | nil =>
      rw [List.nil_append, piecesAt_cons_of_pos stops]
      rfl
  | cons element rest ih =>
      cases here : separates element with
      | true =>
          rw [List.cons_append, piecesAt_cons_of_pos here,
            piecesAt_cons_of_pos here, ih]
          rfl
      | false =>
          rw [List.cons_append, piecesAt_cons_of_neg here,
            piecesAt_cons_of_neg here, ih,
            consFirst_append element (piecesAt_ne_nil rest)]

section Stateful

variable {σ : Type} (stops : σ → α → Bool) (advance : σ → α → σ)

/-- The first piece starts the list, and every other one is part of it. -/
theorem exists_pieces_eq_cons (state : σ) (list : List α) :
    ∃ first others, pieces stops advance state list = first :: others ∧
      first <+: list ∧ ∀ piece ∈ others, piece <:+: list := by
  induction list generalizing state with
  | nil => exact ⟨[], [], rfl, List.prefix_rfl, by simp⟩
  | cons element rest ih =>
      obtain ⟨first, others, parts, starts, inside⟩ :=
        ih (advance state element)
      rw [pieces, parts]
      split
      · refine ⟨[], first :: others, rfl, List.nil_prefix, ?_⟩
        rw [List.forall_mem_cons]
        exact ⟨starts.isInfix.trans (List.suffix_cons element rest).isInfix,
          fun piece member => (inside piece member).trans
            (List.suffix_cons element rest).isInfix⟩
      · exact ⟨element :: first, others, rfl,
          List.cons_prefix_cons.mpr ⟨rfl, starts⟩,
          fun piece member => (inside piece member).trans
            (List.suffix_cons element rest).isInfix⟩

theorem infix_of_mem_pieces {state : σ} {list piece : List α}
    (member : piece ∈ pieces stops advance state list) : piece <:+: list := by
  obtain ⟨first, others, parts, starts, inside⟩ :=
    exists_pieces_eq_cons stops advance state list
  rw [parts] at member
  rcases List.mem_cons.mp member with rfl | later
  · exact starts.isInfix
  · exact inside piece later

/-- The elements of lists, and a separator behind each list. -/
def spread : List (List α) → Nat
  | [] => 0
  | list :: others => list.length + 1 + spread others

@[simp]
theorem spread_nil : spread ([] : List (List α)) = 0 := rfl

@[simp]
theorem spread_cons (list : List α) (others : List (List α)) :
    spread (list :: others) = list.length + 1 + spread others := rfl

theorem spread_le_of_sublist {first second : List (List α)}
    (sublist : first.Sublist second) : spread first ≤ spread second := by
  induction sublist with
  | slnil => exact Nat.le_refl 0
  | cons list others ih =>
      rw [spread_cons]
      omega
  | cons_cons list others ih =>
      rw [spread_cons, spread_cons]
      omega

theorem spread_pieces (state : σ) (list : List α) :
    spread (pieces stops advance state list) = list.length + 1 := by
  induction list generalizing state with
  | nil => rfl
  | cons element rest ih =>
      have later := ih (advance state element)
      rw [pieces]
      split
      · rw [spread_cons, later, List.length_nil, List.length_cons]
        omega
      · obtain ⟨first, others, parts, -⟩ := exists_pieces_eq_cons stops advance
          (advance state element) rest
        rw [parts, spread_cons] at later
        rw [parts, consFirst, spread_cons, List.length_cons, List.length_cons]
        omega

end Stateful

/-- A list without separators is one piece. -/
theorem piecesAt_of_forall {list : List α}
    (none : ∀ element ∈ list, separates element = false) :
    piecesAt separates list = [list] := by
  induction list with
  | nil => rfl
  | cons element rest ih =>
      rw [List.forall_mem_cons] at none
      rw [piecesAt_cons_of_neg none.1, ih none.2]
      rfl

/-- Induction along the separators of a list. -/
@[elab_as_elim]
theorem separatedInduction (separates : α → Bool)
    {motive : List α → Prop}
    (last : ∀ piece, (∀ element ∈ piece, separates element = false) →
      motive piece)
    (next : ∀ piece separator rest,
      (∀ element ∈ piece, separates element = false) →
      separates separator = true → motive rest →
      motive (piece ++ separator :: rest))
    (list : List α) : motive list := by
  -- The first piece grows until its separator is met.
  suffices grown : ∀ piece,
      (∀ element ∈ piece, separates element = false) →
      motive (piece ++ list) by
    simpa using grown [] (by simp)
  induction list with
  | nil =>
      intro piece none
      rw [List.append_nil]
      exact last piece none
  | cons element rest ih =>
      intro piece none
      cases here : separates element with
      | true =>
          have restHolds : motive rest := by simpa using ih [] (by simp)
          exact next piece element rest none here restHolds
      | false =>
          have longer : ∀ other ∈ piece ++ [element],
              separates other = false := by
            intro other member
            rcases List.mem_append.mp member with old | new
            · exact none other old
            · rw [List.mem_singleton.mp new]
              exact here
          simpa using ih (piece ++ [element]) longer

/-- There are no separators in the pieces of a list. -/
theorem separates_of_mem_piecesAt {list piece : List α}
    (member : piece ∈ piecesAt separates list) :
    ∀ element ∈ piece, separates element = false := by
  induction list using separatedInduction separates with
  | last list none =>
      rw [piecesAt_of_forall none, List.mem_singleton] at member
      rw [member]
      exact none
  | next first separator rest none stops ih =>
      rw [piecesAt_append_cons first stops, piecesAt_of_forall none] at member
      rcases List.mem_cons.mp member with rfl | later
      · exact none
      · exact ih later

/-- A list that is put together of pieces is cut into them again. -/
theorem piecesAt_append_flatMap {β : Type} {separator : α}
    (stops : separates separator = true) {first : List α}
    (noneFirst : ∀ element ∈ first, separates element = false)
    {piece : β → List α}
    (none : ∀ source, ∀ element ∈ piece source, separates element = false)
    (sources : List β) :
    piecesAt separates
        (first ++ sources.flatMap fun source => separator :: piece source) =
      first :: sources.map piece := by
  induction sources generalizing first with
  | nil =>
      rw [List.flatMap_nil, List.append_nil]
      exact piecesAt_of_forall noneFirst
  | cons source others ih =>
      rw [List.flatMap_cons, List.cons_append,
        piecesAt_append_cons first stops, piecesAt_of_forall noneFirst,
        ih (none source)]
      rfl

end Snowform.Text
