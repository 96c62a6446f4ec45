import Snowform.Ordered
import Mathlib.Data.List.Sort

/-!
# Ordered lists in one form

An ordered list has the elements that were put into it, each once.  Under a
strict total order there is only one such list, so that neither the order in
which elements arrive nor their repetition shows in it.
-/

namespace Snowform

section

variable {α : Type} [BEq α] [LawfulBEq α] {before : α → α → Bool}

/-! ## Elements -/

@[simp]
theorem mem_insertOrdered {element other : α} {list : List α} :
    other ∈ insertOrdered before element list ↔
      other = element ∨ other ∈ list := by
  induction list with
  | nil => simp [insertOrdered]
  | cons next rest ih =>
      rw [insertOrdered]
      split_ifs with same earlier
      · obtain rfl : element = next := eq_of_beq same
        simp
      · exact List.mem_cons
      · rw [List.mem_cons, ih, List.mem_cons]
        exact or_left_comm

/-- Elements put in one after the other are there with those that were. -/
theorem mem_foldl_insertOrdered {other : α} {list kept : List α} :
    other ∈ list.foldl
        (fun kept element => insertOrdered before element kept) kept ↔
      other ∈ kept ∨ other ∈ list := by
  induction list generalizing kept with
  | nil => simp
  | cons element rest ih =>
      rw [List.foldl_cons, ih, mem_insertOrdered, List.mem_cons, or_assoc]
      exact or_left_comm

@[simp]
theorem mem_ordered {other : α} {list : List α} :
    other ∈ ordered before list ↔ other ∈ list := by
  rw [ordered, mem_foldl_insertOrdered]
  simp

/-! ## Order -/

section

variable [IsTrans α (before · ·)]

/-- An element that can be compared with the others keeps a list in order. -/
theorem pairwise_insertOrdered {element : α} {list : List α}
    (apart : ∀ other ∈ list, element ≠ other →
      before element other = true ∨ before other element = true)
    (sorted : list.Pairwise (before · ·)) :
    (insertOrdered before element list).Pairwise (before · ·) := by
  induction list with
  | nil => exact List.pairwise_singleton _ _
  | cons next rest ih =>
      obtain ⟨first, others⟩ := List.pairwise_cons.mp sorted
      rw [List.forall_mem_cons] at apart
      rw [insertOrdered]
      split_ifs with same earlier
      · exact sorted
      · refine List.pairwise_cons.mpr ⟨?_, sorted⟩
        intro other member
        rcases List.mem_cons.mp member with rfl | behind
        · exact earlier
        · exact IsTrans.trans (r := (before · ·)) _ _ _ earlier
            (first other behind)
      · refine List.pairwise_cons.mpr ⟨?_, ih apart.2 others⟩
        intro other member
        rcases mem_insertOrdered.mp member with rfl | behind
        · exact (apart.1 fun equal => same (beq_iff_eq.mpr equal)).resolve_left
            earlier
        · exact first other behind

/-- Elements that can be compared with each other keep a list in order. -/
theorem pairwise_foldl_insertOrdered_of_apart {list kept : List α}
    (apart : ∀ element ∈ kept ++ list, ∀ other ∈ kept ++ list,
      element ≠ other → before element other = true ∨
        before other element = true)
    (sorted : kept.Pairwise (before · ·)) :
    (list.foldl (fun kept element => insertOrdered before element kept)
      kept).Pairwise (before · ·) := by
  induction list generalizing kept with
  | nil => exact sorted
  | cons element rest ih =>
      have member : element ∈ kept ++ element :: rest :=
        List.mem_append_right _ List.mem_cons_self
      have same : ∀ other, other ∈ insertOrdered before element kept ++ rest →
          other ∈ kept ++ element :: rest := by
        intro other inside
        simp only [List.mem_append, mem_insertOrdered, List.mem_cons]
          at inside ⊢
        tauto
      refine ih (fun first here second there =>
        apart first (same first here) second (same second there)) ?_
      exact pairwise_insertOrdered (fun other inside =>
        apart element member other (List.mem_append_left _ inside)) sorted

/-- A list is put in order if of any two of its elements one is before. -/
theorem pairwise_ordered_of_apart {list : List α}
    (apart : ∀ element ∈ list, ∀ other ∈ list, element ≠ other →
      before element other = true ∨ before other element = true) :
    (ordered before list).Pairwise (before · ·) :=
  pairwise_foldl_insertOrdered_of_apart (by rwa [List.nil_append])
    List.Pairwise.nil

end

variable [IsStrictTotalOrder α (before · ·)]

/-- Under a total order any elements keep a list in order. -/
theorem pairwise_foldl_insertOrdered {list kept : List α}
    (sorted : kept.Pairwise (before · ·)) :
    (list.foldl (fun kept element => insertOrdered before element kept)
      kept).Pairwise (before · ·) := by
  refine pairwise_foldl_insertOrdered_of_apart
    (fun element _ other _ different => ?_) sorted
  by_contra neither
  rw [not_or] at neither
  exact different (Std.Trichotomous.trichotomous (r := (before · ·)) _ _
    neither.1 neither.2)

/-- A list that was put in order is in order. -/
theorem pairwise_ordered (list : List α) :
    (ordered before list).Pairwise (before · ·) :=
  pairwise_foldl_insertOrdered List.Pairwise.nil

/-! ## One form -/

/-- Lists with the same elements are the same when they are ordered. -/
theorem ordered_eq_of_mem_iff {first second : List α}
    (alike : ∀ element, element ∈ first ↔ element ∈ second) :
    ordered before first = ordered before second :=
  (pairwise_ordered first).eq_of_mem_iff (pairwise_ordered second)
    fun element => by rw [mem_ordered, mem_ordered, alike]

end

end Snowform
