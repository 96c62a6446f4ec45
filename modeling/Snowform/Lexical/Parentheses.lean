import Snowform.Lexical.Mask
import Snowform.Lexical.Keyword

/-!
# Matching parentheses

Parentheses are counted outside single and double quotes.  In a masked script
the quotes that are left are delimiters, so whatever stands between them is
passed over.
-/

namespace Snowform.Lexical

variable {α : Type} [Shown α]

/--
Split behind an opening parenthesis at the closing one that matches it.  The
state is the quote that is open, if any, and the number of parentheses that
were opened meanwhile.
-/
def closing? (quote : Option Char) (depth : Nat) :
    List α → Option (List α × List α)
  | [] => none
  | element :: rest =>
      let keep := fun (parts : List α × List α) =>
        (element :: parts.1, parts.2)
      match quote with
      | some mark =>
          if shown element = mark then
            (closing? none depth rest).map keep
          else
            (closing? (some mark) depth rest).map keep
      | none =>
          if shown element = '\'' ∨ shown element = '"' then
            (closing? (some (shown element)) depth rest).map keep
          else if shown element = '(' then
            (closing? none (depth + 1) rest).map keep
          else if shown element = ')' then
            match depth with
            | 0 => some ([], rest)
            | outer + 1 => (closing? none outer rest).map keep
          else
            (closing? none depth rest).map keep

/--
The inside of the parentheses that a list starts with, and what follows them.
-/
def parenthesised? (list : List α) : Option (List α × List α) :=
  character? '(' list >>= closing? none 0

/-- The number of opening parentheses less the number of closing ones. -/
def parenthesisBalance (list : List α) : Int :=
  (list.countP (shows (· == '(')) : Int) - list.countP (shows (· == ')'))

end Snowform.Lexical
