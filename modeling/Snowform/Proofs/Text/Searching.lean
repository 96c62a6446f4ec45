import Snowform.Text.Search
import Mathlib.Data.List.Basic

/-!
# What a search finds

A search passes over what nothing can start in, goes on behind what it has
found or exchanged, and finds nothing but what its recogniser finds at a
place.  If only some occurrences are accepted, the others are overlooked.
-/

namespace Snowform.Text

variable {α β : Type} {recognise : Recogniser α β}

theorem findFirst_of_some {behind list : List α} {found : β × List α}
    (nonempty : list ≠ [])
    (here : recognise behind list = some found) :
    findFirst recognise behind list = some (behind, found) := by
  cases list with
  | nil => exact absurd rfl nonempty
  | cons element rest => rw [findFirst, here]

/-- The first occurrence stands behind what nothing can start in. -/
theorem findFirst_append {front : List α}
    (absent : ∀ element ∈ front, ∀ behind rest,
      recognise behind (element :: rest) = none) (behind rest : List α) :
    findFirst recognise behind (front ++ rest) =
      findFirst recognise (front.reverse ++ behind) rest := by
  induction front generalizing behind with
  | nil => rfl
  | cons element others ih =>
      rw [List.forall_mem_cons] at absent
      rw [List.cons_append, findFirst, absent.1, List.reverse_cons,
        List.append_assoc]
      exact ih absent.2 (element :: behind)

/-- A search passes over what nothing can start in. -/
theorem occurrencesFrom_append {front : List α}
    (absent : ∀ element ∈ front, ∀ behind rest,
      recognise behind (element :: rest) = none) (behind rest : List α) :
    occurrencesFrom recognise 0 behind (front ++ rest) =
      occurrencesFrom recognise 0 (front.reverse ++ behind) rest := by
  induction front generalizing behind with
  | nil => rfl
  | cons element others ih =>
      rw [List.forall_mem_cons] at absent
      rw [List.cons_append, occurrencesFrom, absent.1, List.reverse_cons,
        List.append_assoc]
      exact ih absent.2 (element :: behind)

theorem occurrencesFrom_length (covered behind rest : List α) :
    occurrencesFrom recognise covered.length behind (covered ++ rest) =
      occurrencesFrom recognise 0 (covered.reverse ++ behind) rest := by
  induction covered generalizing behind with
  | nil => rfl
  | cons element others ih =>
      rw [List.length_cons, List.cons_append, occurrencesFrom, ih,
        List.reverse_cons, List.append_assoc]
      rfl

/-- A search goes on behind what it has found. -/
theorem occurrencesFrom_of_some {behind covered rest : List α} {element : α}
    {found : β}
    (here : recognise behind (element :: (covered ++ rest)) =
      some (found, rest)) :
    occurrencesFrom recognise 0 behind (element :: (covered ++ rest)) =
      (behind, found) ::
        occurrencesFrom recognise 0 (covered.reverse ++ element :: behind)
          rest := by
  have size : (covered ++ rest).length - rest.length = covered.length := by
    rw [List.length_append, Nat.add_sub_cancel]
  rw [occurrencesFrom, here]
  simp only [size, occurrencesFrom_length]

theorem substituteFrom_length {α : Type}
    (recognise : Recogniser α (List α)) (covered behind rest : List α) :
    substituteFrom recognise covered.length behind (covered ++ rest) =
      substituteFrom recognise 0 (covered.reverse ++ behind) rest := by
  induction covered generalizing behind with
  | nil => rfl
  | cons element others ih =>
      rw [List.length_cons, List.cons_append, substituteFrom, ih,
        List.reverse_cons, List.append_assoc]
      rfl

/--
No occurrence that starts in a list in front of a rest is accepted, and none
goes on in the rest.
-/
def Overlooks (recognise : Recogniser α β) (accept : List α × β → Bool)
    (rest : List α) : List α → List α → Prop
  | _, [] => True
  | behind, element :: others =>
      (∀ found after,
        recognise behind (element :: (others ++ rest)) = some (found, after) →
          accept (behind, found) = false ∧ rest.length ≤ after.length) ∧
        Overlooks recognise accept rest (element :: behind) others

section

variable {accept : List α × β → Bool} {rest : List α}

theorem Overlooks.append {behind first second : List α}
    (left : Overlooks recognise accept (second ++ rest) behind first)
    (right : Overlooks recognise accept rest (first.reverse ++ behind)
      second) :
    Overlooks recognise accept rest behind (first ++ second) := by
  induction first generalizing behind with
  | nil => exact right
  | cons element others ih =>
      rw [List.reverse_cons, List.append_assoc] at right
      have known := left.1
      rw [← List.append_assoc, List.length_append] at known
      refine ⟨fun found after here => ?_, ih left.2 right⟩
      obtain ⟨rejected, inside⟩ := known found after here
      exact ⟨rejected, by omega⟩

/-- The first occurrence that is accepted stands behind what is overlooked. -/
theorem Overlooks.find?_eq {behind front after : List α} {found : β}
    (overlooks : Overlooks recognise accept rest behind front)
    (nonempty : rest ≠ [])
    (here : recognise (front.reverse ++ behind) rest = some (found, after))
    (accepted : accept (front.reverse ++ behind, found) = true) {skip : Nat}
    (few : skip ≤ front.length) :
    (occurrencesFrom recognise skip behind (front ++ rest)).find? accept =
      some (front.reverse ++ behind, found) := by
  induction front generalizing behind skip with
  | nil =>
      obtain ⟨element, others, rfl⟩ := List.exists_cons_of_ne_nil nonempty
      obtain rfl := Nat.le_zero.mp few
      rw [List.reverse_nil, List.nil_append] at here accepted ⊢
      rw [List.nil_append, occurrencesFrom, here]
      exact List.find?_cons_of_pos accepted
  | cons element others ih =>
      rw [List.reverse_cons, List.append_assoc] at here accepted ⊢
      have later : ∀ {skip}, skip ≤ others.length →
          (occurrencesFrom recognise skip (element :: behind)
            (others ++ rest)).find? accept =
              some (others.reverse ++ ([element] ++ behind), found) :=
        fun few => ih overlooks.2 here accepted few
      cases skip with
      | succ remaining => exact later (Nat.le_of_succ_le_succ few)
      | zero =>
          rw [List.cons_append, occurrencesFrom]
          split
          next other behindIt known =>
            obtain ⟨rejected, inside⟩ := overlooks.1 _ _ known
            rw [List.find?_cons_of_neg (by rw [rejected]; decide)]
            refine later ?_
            rw [List.length_append]
            omega
          next => exact later (Nat.zero_le _)

end

/-- What is found at a place is what the recogniser finds there. -/
theorem exists_of_mem_occurrences {list : List α} {found : List α × β}
    (member : found ∈ occurrences recognise list) :
    ∃ ahead after, recognise found.1 ahead = some (found.2, after) ∧
      found.1.reverse ++ ahead = list := by
  have step : ∀ (skip : Nat) (behind rest : List α),
      found ∈ occurrencesFrom recognise skip behind rest →
        ∃ ahead after, recognise found.1 ahead = some (found.2, after) ∧
          found.1.reverse ++ ahead = behind.reverse ++ rest := by
    intro skip behind rest
    induction rest generalizing skip behind with
    | nil =>
        intro member
        cases member
    | cons element rest ih =>
        have later : ∀ skip,
            found ∈ occurrencesFrom recognise skip (element :: behind) rest →
              ∃ ahead after, recognise found.1 ahead = some (found.2, after) ∧
                found.1.reverse ++ ahead =
                  behind.reverse ++ element :: rest := by
          intro skip member
          have known := ih skip (element :: behind) member
          rwa [List.reverse_cons, List.append_assoc,
            List.singleton_append] at known
        cases skip with
        | succ remaining => exact later remaining
        | zero =>
            rw [occurrencesFrom]
            intro member
            split at member
            next here =>
              rcases List.mem_cons.mp member with rfl | behindIt
              · exact ⟨_, _, here, rfl⟩
              · exact later _ behindIt
            next => exact later 0 member
  exact step 0 [] list member

end Snowform.Text
