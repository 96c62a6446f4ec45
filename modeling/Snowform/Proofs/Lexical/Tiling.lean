import Snowform.Proofs.Lexical.Simulation

/-!
# Regions tile a script

The places of the regions of a script leave out no byte and cover none twice,
and the kind they give to a byte is the one that the automaton of lexical
modes gives to it.
-/

namespace Snowform

open Text Lexical

/-- Spans that cut a text into parts, none empty and no two of code in a row. -/
structure Tiles (text : Text) (list : List Span) : Prop where
  nonempty : ∀ span ∈ list, span.start < span.stop
  starts : ∀ span ∈ list.head?, span.start = 0
  follows : list.IsChain fun first second => first.stop = second.start
  ends : (list.getLast?.map Span.stop).getD 0 = byteSize text
  /-- Spans start and stop between characters, and know their texts. -/
  slices : ∀ span ∈ list,
    slice? span.start span.stop text = some span.region.text
  separated : list.IsChain fun first second =>
    ¬ (first.region.kind = .code ∧ second.region.kind = .code)

namespace Lexical

theorem tiles_spans (script : Text) : Tiles script (spans script) where
  nonempty := by
    intro span member
    have known : span.region ∈ scan script := by
      rw [← map_region_spansFrom 0 (scan script)]
      exact List.mem_map_of_mem member
    have positive : 0 < byteSize span.region.text :=
      byteSize_pos (text_ne_nil_of_mem_scan known)
    obtain ⟨stop, -⟩ := slice?_of_mem_spansFrom [] member
    omega
  starts := fun span first => start_of_mem_head?_spansFrom first
  follows := isChain_spansFrom 0 (scan script)
  ends := by
    rw [spans, getLast?_spansFrom, textOf_scan, Nat.zero_add]
  slices := by
    intro span member
    have slice := (slice?_of_mem_spansFrom [] member).2
    rwa [List.nil_append, textOf_scan] at slice
  separated := by
    have apart := isChain_scan script
    rw [← map_region_spansFrom 0 (scan script), List.isChain_map] at apart
    exact apart

/--
The regions of every script tile it, and every byte has the kind that the
automaton of lexical modes gives to it.
-/
theorem spans_tile_as_automaton (script : Text) :
    Tiles script (spans script) ∧
      ∀ byte, kindAt? script byte = Mode.kindAt? script byte := by
  refine ⟨tiles_spans script, ?_⟩
  intro byte
  rw [kindAt?_eq, Mode.kindAt?_eq_cover]

end Lexical

end Snowform
