import Snowform.Text.Basic

/-!
# Searching with a look behind

A recogniser looks at the elements behind a place, nearest first, and at the
elements ahead of it.  It answers with what it found and with the elements
that follow the occurrence.  Searching tries every place from left to right,
and an occurrence is never looked into again.
-/

namespace Snowform.Text

/-- A recogniser of occurrences that start at a place. -/
abbrev Recogniser (α β : Type) :=
  (behind ahead : List α) → Option (β × List α)

/--
The first occurrence: the elements before it, nearest first, with what was
found there and what follows.
-/
def findFirst {α β : Type} (recognise : Recogniser α β)
    (behind : List α) : List α → Option (List α × β × List α)
  | [] => none
  | element :: rest =>
      match recognise behind (element :: rest) with
      | some found => some (behind, found)
      | none => findFirst recognise (element :: behind) rest

/-- The occurrences behind a number of elements that are skipped. -/
def occurrencesFrom {α β : Type} (recognise : Recogniser α β)
    (skip : Nat) (behind : List α) : List α → List (List α × β)
  | [] => []
  | element :: rest =>
      match skip with
      | remaining + 1 =>
          occurrencesFrom recognise remaining (element :: behind) rest
      | 0 =>
          match recognise behind (element :: rest) with
          | some (found, after) =>
              (behind, found) ::
                occurrencesFrom recognise (rest.length - after.length)
                  (element :: behind) rest
          | none => occurrencesFrom recognise 0 (element :: behind) rest

/--
All occurrences from left to right that do not overlap, each with the
elements before it, nearest first.
-/
def occurrences {α β : Type} (recognise : Recogniser α β)
    (list : List α) : List (List α × β) :=
  occurrencesFrom recognise 0 [] list

/-- Exchange the occurrences behind a number of elements that are dropped. -/
def substituteFrom {α : Type} (recognise : Recogniser α (List α))
    (skip : Nat) (behind : List α) : List α → List α
  | [] => []
  | element :: rest =>
      match skip with
      | remaining + 1 =>
          substituteFrom recognise remaining (element :: behind) rest
      | 0 =>
          match recognise behind (element :: rest) with
          | some (replacement, after) =>
              replacement ++
                substituteFrom recognise (rest.length - after.length)
                  (element :: behind) rest
          | none =>
              element :: substituteFrom recognise 0 (element :: behind) rest

/-- Exchange every occurrence for what the recogniser found there. -/
def substitute {α : Type} (recognise : Recogniser α (List α))
    (list : List α) : List α :=
  substituteFrom recognise 0 [] list

/-- The part of a list in front of a part that ends it. -/
def upTo {α : Type} (list after : List α) : List α :=
  list.take (list.length - after.length)

end Snowform.Text
