import Snowform.Hcl.Literal

/-!
# Parts of a template

A template is read from left to right.  A doubled dollar or percent sign in
front of an opening brace stands for the sign and the brace.  A single sign
there opens an expression or a directive, which is evaluated and ends at the
next closing brace.  Every other character stands for itself.

A text in which something was exchanged for expressions is restored by putting
the exchanged spellings back, in order.
-/

namespace Snowform.Hcl

open Text

/-- What a template consists of. -/
inductive TemplatePart where
  /-- A character that stands for itself. -/
  | literal (character : Char)
  /-- What is evaluated: the opening sign, and what stands in the braces. -/
  | live (sign : Char) (inside : Text)
  deriving DecidableEq

/-- The sign and the inside of a part that is evaluated. -/
def TemplatePart.live? : TemplatePart → Option (Char × Text)
  | .literal _ => none
  | .live sign inside => some (sign, inside)

/-- The parts of a template, from left to right. -/
def templateParts : Text → List TemplatePart
  | [] => []
  | character :: rest =>
      if rest.head? = some character ∧ opensTemplate rest then
        (rest.take 2).map .literal ++ templateParts (rest.drop 2)
      else if opensTemplate (character :: rest) then
        let body := rest.drop 1
        .live character (body.takeWhile (· != '\x7d')) ::
          templateParts ((body.dropWhile (· != '\x7d')).drop 1)
      else
        .literal character :: templateParts rest
termination_by text => text.length
decreasing_by
  · exact Nat.lt_succ_of_le (List.drop_sublist 2 rest).length_le
  · have shorter := ((List.drop_sublist 1 _).trans
      (List.dropWhile_sublist (l := rest.drop 1) (· != '\x7d'))).trans
        (List.drop_sublist 1 rest)
    exact Nat.lt_succ_of_le shorter.length_le
  · exact Nat.lt_succ_self rest.length

/--
The text of which a template was made, if the spellings are as many as the
parts that were put in for them.
-/
def restore : List Text → List TemplatePart → Option Text
  | [], [] => some []
  | _ :: _, [] => none
  | spellings, .literal character :: parts =>
      (restore spellings parts).map (character :: ·)
  | [], .live _ _ :: _ => none
  | spelling :: others, .live _ _ :: parts =>
      (restore others parts).map (spelling ++ ·)

end Snowform.Hcl
