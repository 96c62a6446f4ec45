import Snowform.Text.Basic

/-!
# Character properties given by tables

Properties and case maps of characters outside ASCII are data of a standard.
A property is a list of closed ranges of code points.  A case map is a list
of runs: the characters of a run lie a fixed stride apart and all move by the
same distance.
-/

namespace Snowform.Text

/-- Whether a character lies in one of the closed ranges. -/
def inRanges (ranges : List (Nat × Nat)) (character : Char) : Bool :=
  ranges.any fun range =>
    range.1 ≤ character.toNat && character.toNat ≤ range.2

/-- Characters that lie a stride apart and are mapped by one distance. -/
structure ShiftRun where
  /-- The first code point of the run. -/
  first : Nat
  /-- The last code point of the run. -/
  last : Nat
  /-- The distance between neighbours of the run. -/
  stride : Nat
  /-- What is added to a code point of the run. -/
  shift : Int

/-- Whether a code point belongs to a run. -/
def ShiftRun.holds (run : ShiftRun) (code : Nat) : Bool :=
  run.first ≤ code && code ≤ run.last && (code - run.first) % run.stride == 0

/-- Map a character by the run that holds it, if there is one. -/
def shiftBy (runs : List ShiftRun) (character : Char) : Char :=
  match runs.find? fun run => run.holds character.toNat with
  | some run => Char.ofNat (Int.toNat (character.toNat + run.shift))
  | none => character

end Snowform.Text
