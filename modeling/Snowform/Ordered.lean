/-!
# Ordered lists

Lists are kept in order by putting every new element into its place.  An
element that is there already is not put in again, so the order in which
elements arrive does not matter.
-/

namespace Snowform

/-- Put an element into an ordered list, unless it is there. -/
def insertOrdered {α : Type} [BEq α] (before : α → α → Bool) (element : α) :
    List α → List α
  | [] => [element]
  | next :: rest =>
      if element == next then
        next :: rest
      else if before element next then
        element :: next :: rest
      else
        next :: insertOrdered before element rest

/-- The elements of a list in order and without repetition. -/
def ordered {α : Type} [BEq α] (before : α → α → Bool) (list : List α) :
    List α :=
  list.foldl (fun kept element => insertOrdered before element kept) []

end Snowform
