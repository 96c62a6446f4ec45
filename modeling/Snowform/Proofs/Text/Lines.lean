import Snowform.Proofs.Text.Pieces

/-!
# Whole lines

A text of whole lines has a line feed behind each of them.  Cutting it at its
line feeds gives the lines back, and then what follows.
-/

namespace Snowform.Text

/-- Lines with a line feed behind each. -/
def ofLines (lines : List Text) : Text :=
  lines.flatMap (· ++ ['\n'])

@[simp]
theorem ofLines_nil : ofLines [] = [] := rfl

@[simp]
theorem ofLines_cons (line : Text) (others : List Text) :
    ofLines (line :: others) = line ++ '\n' :: ofLines others := by
  simp [ofLines]

@[simp]
theorem ofLines_append (first second : List Text) :
    ofLines (first ++ second) = ofLines first ++ ofLines second :=
  List.flatMap_append

/-- Lines that were written are read again in front of whatever follows. -/
theorem piecesAt_ofLines_append {lines : List Text}
    (whole : ∀ line ∈ lines, '\n' ∉ line) (rest : Text) :
    piecesAt (· == '\n') (ofLines lines ++ rest) =
      lines ++ piecesAt (· == '\n') rest := by
  induction lines with
  | nil => rfl
  | cons line others ih =>
      rw [List.forall_mem_cons] at whole
      have alone : piecesAt (· == '\n') line = [line] := by
        apply piecesAt_of_forall
        intro character member
        apply beq_eq_false_iff_ne.mpr
        rintro rfl
        exact whole.1 member
      rw [ofLines_cons, List.append_assoc, List.cons_append,
        piecesAt_append_cons line (by decide), alone, ih whole.2]
      rfl

/-- Lines with line feeds between them, where the last line is empty. -/
theorem intercalate_feed (lines : List Text) :
    ['\n'].intercalate (lines ++ [[]]) = ofLines lines := by
  induction lines with
  | nil => rfl
  | cons line others ih =>
      have joined : ['\n'].intercalate (line :: (others ++ [[]])) =
          line ++ ['\n'] ++ ['\n'].intercalate (others ++ [[]]) := by
        cases others <;> exact List.intercalate_cons_cons
      rw [List.cons_append, joined, ih, ofLines_cons, List.append_assoc,
        List.singleton_append]

end Snowform.Text
