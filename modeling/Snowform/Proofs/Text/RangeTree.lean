import Snowform.Text.Word

/-!
# Search trees of ranges

Ranges of code points in ascending order make a search tree.  What is found in
the tree is one of the ranges.  A table of ranges is asked often when another
table is checked against it, and the tree answers in a few steps.
-/

namespace Snowform.Text

/-- Ranges with those that lie before and behind them. -/
inductive RangeTree where
  | leaf
  | node (before : RangeTree) (range : Nat × Nat) (behind : RangeTree)

namespace RangeTree

/-- A tree of a given depth, of the first ranges of a list, and the others. -/
def ofRanges : Nat → List (Nat × Nat) → RangeTree × List (Nat × Nat)
  | 0, ranges => (leaf, ranges)
  | depth + 1, ranges =>
      match ofRanges depth ranges with
      | (before, []) => (before, [])
      | (before, range :: others) =>
          match ofRanges depth others with
          | (behind, rest) => (node before range behind, rest)

/-- The first range that does not end in front of a code point. -/
def find? (code : Nat) : RangeTree → Option (Nat × Nat)
  | leaf => none
  | node before range behind =>
      bif code.ble range.2 then
        match before.find? code with
        | some first => some first
        | none => some range
      else
        behind.find? code

/-- A range that stands somewhere in a tree. -/
def Holds (range : Nat × Nat) : RangeTree → Prop
  | leaf => False
  | node before here behind =>
      before.Holds range ∨ range = here ∨ behind.Holds range

theorem holds_of_find? {code : Nat} {range : Nat × Nat} {tree : RangeTree}
    (found : tree.find? code = some range) :
    tree.Holds range ∧ code ≤ range.2 := by
  induction tree with
  | leaf => cases found
  | node before here behind beforeHolds behindHolds =>
      rw [find?] at found
      cases ends : code.ble here.2 with
      | false =>
          rw [ends, cond_false] at found
          obtain ⟨holds, bound⟩ := behindHolds found
          exact ⟨.inr (.inr holds), bound⟩
      | true =>
          rw [ends, cond_true] at found
          cases first : before.find? code with
          | some other =>
              rw [first] at found
              cases found
              obtain ⟨holds, bound⟩ := beforeHolds first
              exact ⟨.inl holds, bound⟩
          | none =>
              rw [first] at found
              cases found
              exact ⟨.inr (.inl rfl), Nat.le_of_ble_eq_true ends⟩

/-- What a tree of ranges holds, and what is left of them, are ranges. -/
theorem mem_of_ofRanges (depth : Nat) (ranges : List (Nat × Nat)) :
    (∀ range, (ofRanges depth ranges).1.Holds range → range ∈ ranges) ∧
      (ofRanges depth ranges).2 ⊆ ranges := by
  induction depth generalizing ranges with
  | zero => exact ⟨fun _ holds => holds.elim, List.Subset.refl ranges⟩
  | succ depth ih =>
      obtain ⟨inBefore, left⟩ := ih ranges
      rw [ofRanges]
      cases before : ofRanges depth ranges with
      | mk tree rest =>
          rw [before] at inBefore left
          cases rest with
          | nil => exact ⟨inBefore, left⟩
          | cons here others =>
              obtain ⟨hereMember, othersLeft⟩ := List.cons_subset.mp left
              obtain ⟨inBehind, further⟩ := ih others
              refine ⟨?_, List.Subset.trans further othersLeft⟩
              rintro range (holds | rfl | holds)
              · exact inBefore range holds
              · exact hereMember
              · exact othersLeft (inBehind range holds)

end RangeTree

/-- The ranges of word characters as a tree. -/
def wordTree : RangeTree :=
  (RangeTree.ofRanges 10 wordRanges).1

theorem mem_wordRanges_of_find? {code : Nat} {range : Nat × Nat}
    (found : wordTree.find? code = some range) :
    range ∈ wordRanges ∧ code ≤ range.2 := by
  obtain ⟨holds, bound⟩ := RangeTree.holds_of_find? found
  exact ⟨(RangeTree.mem_of_ofRanges 10 wordRanges).1 range holds, bound⟩

end Snowform.Text
