import Snowform.Proofs.Lexical.Leaving
import Snowform.Proofs.Lexical.Veiling

/-!
# Characters behind cells

A list of cells is whole when it cuts no hidden character, and then it has a
source.  A masked script is whole, and so are the two parts of a whole list
that is cut where a recogniser may cut it.

The source of a part of a masked script is the slice of the script between
the byte offsets that the part starts and stops at, so that reading a source
can only fail where slicing the script does.
-/

namespace Snowform

open Text Lexical

/-- Lists of cells that cut no hidden character. -/
inductive Whole : List Cell → Prop where
  | nil : Whole []
  | plain (character : Char) {rest : List Cell} (whole : Whole rest) :
      Whole (.plain character :: rest)
  | veiled {fill : Char} (hides : isFill fill = true) (character : Char)
      {rest : List Cell} (whole : Whole rest) :
      Whole (.veiled fill character ::
        (List.replicate (character.utf8Size - 1) (.padding fill) ++ rest))

/-- Whether a list starts with a further byte of a character before it. -/
def StartsInside (list : List Cell) : Prop :=
  ∃ fill rest, list = .padding fill :: rest

namespace Whole

theorem append {first second : List Cell} (left : Whole first)
    (right : Whole second) : Whole (first ++ second) := by
  induction left with
  | nil => exact right
  | plain character whole ih => exact .plain character ih
  | veiled hides character whole ih =>
      rw [List.cons_append, List.append_assoc]
      exact .veiled hides character ih

theorem map_plain (text : Text) : Whole (text.map .plain) := by
  induction text with
  | nil => exact .nil
  | cons character rest ih => exact .plain character ih

theorem veil {fill : Char} (hides : isFill fill = true) (character : Char) :
    Whole (Lexical.veil fill character) := by
  rw [Lexical.veil]
  split
  next => exact .plain character .nil
  next =>
    have whole := Whole.veiled hides character .nil
    rwa [List.append_nil] at whole

theorem flatMap {α : Type} {list : List α} {cells : α → List Cell}
    (whole : ∀ element ∈ list, Whole (cells element)) :
    Whole (list.flatMap cells) := by
  induction list with
  | nil => exact .nil
  | cons element rest ih =>
      rw [List.forall_mem_cons] at whole
      rw [List.flatMap_cons]
      exact whole.1.append (ih whole.2)

theorem region (region : Region) : Whole region.cells := by
  have blank : Whole (region.text.flatMap (Lexical.veil ' ')) :=
    flatMap fun character _ => veil (by decide) character
  have delimited : Whole region.delimitedCells := by
    rw [Region.delimitedCells]
    exact ((map_plain _).append (flatMap fun character _ =>
      veil (by decide) character)).append (map_plain _)
  rw [Region.cells]
  split
  · exact map_plain region.text
  · exact blank
  · exact blank
  · exact delimited

end Whole

theorem Lexical.whole_cells (script : Text) : Whole (cells script) :=
  Whole.flatMap fun region _ => Whole.region region

/-! ## Cutting whole lists -/

namespace Whole

/-- Cutting in front of a character leaves two whole lists. -/
theorem of_append {first second : List Cell} (whole : Whole (first ++ second))
    (clean : ¬ StartsInside second) : Whole first ∧ Whole second := by
  generalize same : first ++ second = list at whole
  induction whole generalizing first with
  | nil =>
      obtain ⟨rfl, rfl⟩ := List.append_eq_nil_iff.mp same
      exact ⟨.nil, .nil⟩
  | plain character whole ih =>
      cases first with
      | nil =>
          rw [List.nil_append] at same
          rw [same]
          exact ⟨.nil, .plain character whole⟩
      | cons cell others =>
          obtain ⟨rfl, rest⟩ := List.cons.inj same
          exact (ih rest).imp_left (.plain character)
  | @veiled fill hides character rest whole ih =>
      cases first with
      | nil =>
          rw [List.nil_append] at same
          rw [same]
          exact ⟨.nil, .veiled hides character whole⟩
      | cons cell others =>
          obtain ⟨rfl, parts⟩ := List.cons.inj same
          rcases List.append_eq_append_iff.mp parts with
            ⟨further, pads, rfl⟩ | ⟨further, rfl, tail⟩
          · -- The cut lies in front of a padding, or behind the last one.
            cases further with
            | nil =>
                rw [List.append_nil] at pads
                rw [← pads, List.nil_append]
                have block := Whole.veiled hides character .nil
                rw [List.append_nil] at block
                exact ⟨block, whole⟩
            | cons pad others =>
                have member : pad ∈ List.replicate
                    (character.utf8Size - 1) (Cell.padding fill) := by
                  rw [pads]
                  simp
                rw [List.eq_of_mem_replicate member] at clean
                exact absurd ⟨fill, others ++ rest, rfl⟩ clean
          · obtain ⟨left, right⟩ := ih tail.symm
            exact ⟨.veiled hides character left, right⟩

theorem not_startsInside_self {list : List Cell} (whole : Whole list) :
    ¬ StartsInside list := by
  rintro ⟨fill, rest, rfl⟩
  cases whole

/-- A padding shows the fill that the cell before it shows. -/
theorem isChain {list : List Cell} (whole : Whole list) :
    list.IsChain fun before next => ∀ fill, next = .padding fill →
      shown before = fill ∧ isFill fill = true := by
  have start : ∀ {rest : List Cell}, Whole rest → ∀ cell ∈ rest.head?,
      ∀ fill, cell ≠ .padding fill := by
    intro rest whole cell first fill same
    obtain ⟨others, rfl⟩ := List.head?_eq_some_iff.mp first
    exact whole.not_startsInside_self ⟨fill, others, by rw [same]⟩
  induction whole with
  | nil => exact List.isChain_nil
  | plain character whole ih =>
      rw [List.isChain_cons]
      refine ⟨?_, ih⟩
      intro cell first fill same
      exact absurd same (start whole cell first fill)
  | @veiled fill hides character rest whole ih =>
      have block : ∀ count, (Cell.veiled fill character ::
          List.replicate count (Cell.padding fill)).IsChain
            fun before next => ∀ fill, next = .padding fill →
              shown before = fill ∧ isFill fill = true := by
        intro count
        rw [List.isChain_cons]
        constructor
        · intro cell first other same
          have member := List.mem_of_mem_head? first
          rw [List.eq_of_mem_replicate member] at same
          cases same
          exact ⟨rfl, hides⟩
        · apply List.isChain_replicate_of_rel
          intro other same
          cases same
          exact ⟨rfl, hides⟩
      rw [← List.cons_append, List.isChain_append]
      refine ⟨block _, ih, ?_⟩
      intro last isLast cell first other same
      exact absurd same (start whole cell first other)

theorem not_startsInside {first second : List Cell}
    (whole : Whole (first ++ second)) (apart : Apart first second) :
    ¬ StartsInside second := by
  rintro ⟨fill, rest, rfl⟩
  cases first using List.reverseRecOn with
  | nil => exact whole.not_startsInside_self ⟨fill, rest, rfl⟩
  | append_singleton others last =>
      have chain := (List.isChain_append.mp whole.isChain).2.2
      have isLast : last ∈ (others ++ [last]).getLast? := by
        rw [List.getLast?_concat]
        rfl
      obtain ⟨same, hides⟩ := chain last isLast (.padding fill) rfl fill rfl
      have loud := apart last isLast (.padding fill) rfl same
      change isFill fill = false at loud
      rw [hides] at loud
      cases loud

/-- An end of whole cells is whole. -/
theorem of_leaves {list rest : List Cell} (whole : Whole list)
    (leaves : Leaves list rest) : Whole rest := by
  obtain ⟨before, rfl, apart⟩ := leaves
  exact (whole.of_append (whole.not_startsInside apart)).2

/-- What is read up to a rest is whole. -/
theorem upTo {list rest : List Cell} (whole : Whole list)
    (leaves : Leaves list rest) : Whole (Text.upTo list rest) := by
  obtain ⟨before, rfl, apart⟩ := leaves
  rw [upTo_append]
  exact (whole.of_append (whole.not_startsInside apart)).1

/-- What is cut out of whole cells is whole. -/
theorem of_cutsOut {list part : List Cell} (whole : Whole list)
    (cuts : CutsOut list part) : Whole part := by
  obtain ⟨rest, first, second⟩ := cuts
  have parts := (whole.of_leaves first).upTo second
  rwa [upTo_append] at parts

end Whole

/-! ## Sources -/

namespace Lexical

theorem sourceFrom?_replicate (fill : Char) (missing : Nat)
    (rest : List Cell) :
    sourceFrom? missing (List.replicate missing (.padding fill) ++ rest) =
      source? rest := by
  induction missing with
  | zero => rfl
  | succ missing ih =>
      rw [List.replicate_succ, List.cons_append, sourceFrom?, ih]

theorem source?_plain (character : Char) (rest : List Cell) :
    source? (.plain character :: rest) =
      (source? rest).map (character :: ·) := by
  rw [source?, sourceFrom?]
  rfl

theorem source?_veiled (fill character : Char) (rest : List Cell) :
    source? (.veiled fill character ::
      (List.replicate (character.utf8Size - 1) (.padding fill) ++ rest)) =
        (source? rest).map (character :: ·) := by
  rw [source?, sourceFrom?, sourceFrom?_replicate]

/-- Behind a list that has a source the source goes on with the next list. -/
theorem sourceFrom?_append {missing : Nat} {first : List Cell} {text : Text}
    (source : sourceFrom? missing first = some text) (second : List Cell) :
    sourceFrom? missing (first ++ second) =
      (source? second).map (text ++ ·) := by
  have step : ∀ {missing : Nat} {character : Char} {rest : List Cell}
      {text : Text},
      (∀ {text : Text}, sourceFrom? missing rest = some text →
        sourceFrom? missing (rest ++ second) =
          (source? second).map (text ++ ·)) →
      (sourceFrom? missing rest).map (character :: ·) = some text →
      (sourceFrom? missing (rest ++ second)).map (character :: ·) =
        (source? second).map (text ++ ·) := by
    intro missing character rest text known source
    obtain ⟨others, found, rfl⟩ := Option.map_eq_some_iff.mp source
    rw [known found, Option.map_map]
    rfl
  fun_induction sourceFrom? missing first generalizing text
  case case1 =>
    cases source
    simp [source?]
  case case2 ih =>
    rw [List.cons_append, sourceFrom?]
    exact step ih source
  case case3 ih =>
    rw [List.cons_append, sourceFrom?]
    exact step ih source
  case case4 => cases source
  case case5 ih =>
    rw [List.cons_append, sourceFrom?]
    exact ih source
  case case6 => cases source

theorem source?_append {first second : List Cell} {before after : Text}
    (left : source? first = some before)
    (right : source? second = some after) :
    source? (first ++ second) = some (before ++ after) := by
  rw [source?, sourceFrom?_append left, right]
  rfl

theorem source?_map_plain (text : Text) :
    source? (text.map .plain) = some text := by
  induction text with
  | nil => rfl
  | cons character rest ih =>
      rw [List.map_cons, source?_plain, ih]
      rfl

theorem source?_veil (fill character : Char) :
    source? (veil fill character) = some [character] := by
  rw [veil]
  split
  next => rfl
  next =>
    have block := source?_veiled fill character []
    rwa [List.append_nil] at block

theorem source?_flatMap_veil (fill : Char) (text : Text) :
    source? (text.flatMap (veil fill)) = some text := by
  induction text with
  | nil => rfl
  | cons character rest ih =>
      rw [List.flatMap_cons]
      exact source?_append (source?_veil fill character) ih

theorem source?_between (opening inside closing : Text) :
    source? (opening.map .plain ++ inside.flatMap (veil '_') ++
      closing.map .plain) = some (opening ++ inside ++ closing) :=
  source?_append (source?_append (source?_map_plain opening)
    (source?_flatMap_veil '_' inside)) (source?_map_plain closing)

/-- The cells of a region come from its text. -/
theorem source?_region (region : Region) :
    source? region.cells = some region.text := by
  have delimited : source? region.delimitedCells = some region.text := by
    rw [Region.delimitedCells, source?_between, List.append_assoc,
      List.take_append_drop, List.take_append_drop]
  rw [Region.cells]
  split
  · exact source?_map_plain region.text
  · exact source?_flatMap_veil ' ' region.text
  · exact source?_flatMap_veil ' ' region.text
  · exact delimited

/-- The source of the cells of regions are their texts. -/
theorem source?_regions (regions : List Region) :
    source? (regions.flatMap Region.cells) = some (textOf regions) := by
  induction regions with
  | nil => rfl
  | cons region others ih =>
      rw [List.flatMap_cons, textOf_cons]
      exact source?_append (source?_region region) ih

/-- The source of a masked script is the script. -/
theorem source?_cells (script : Text) : source? (cells script) = some script := by
  rw [cells, source?_regions, textOf_lexemes]

end Lexical

namespace Whole

/-- A whole list has a source, of which it shows as many bytes. -/
theorem exists_source {list : List Cell} (whole : Whole list) :
    ∃ text, source? list = some text ∧ shownBytes list = byteSize text := by
  induction whole with
  | nil => exact ⟨[], rfl, rfl⟩
  | plain character whole ih =>
      obtain ⟨text, source, size⟩ := ih
      refine ⟨character :: text, ?_, ?_⟩
      · rw [source?_plain, source]
        rfl
      · rw [shownBytes, coveredSize_cons, ← shownBytes, size]
        rfl
  | @veiled fill hides character rest whole ih =>
      obtain ⟨text, source, size⟩ := ih
      have pads : ∀ count, shownBytes (List.replicate count
          (Cell.padding fill)) = count := by
        intro count
        induction count with
        | zero => rfl
        | succ count ih =>
            rw [List.replicate_succ, shownBytes, coveredSize_cons,
              ← shownBytes, ih, Nat.add_comm]
            rfl
      have positive : 0 < character.utf8Size := character.utf8Size_pos
      refine ⟨character :: text, ?_, ?_⟩
      · rw [source?_veiled, source]
        rfl
      · rw [shownBytes, coveredSize_cons, coveredSize_append, ← shownBytes,
          ← shownBytes, pads, size, byteSize_cons, Cell.width]
        omega

/-- A whole list ends its first part where that part has a source. -/
theorem of_source {first second : List Cell} (whole : Whole (first ++ second))
    {text : Text} (source : source? first = some text) :
    Whole first ∧ Whole second := by
  apply whole.of_append
  rintro ⟨fill, rest, rfl⟩
  obtain ⟨complete, known, -⟩ := whole.exists_source
  rw [source?, sourceFrom?_append source] at known
  cases known

/-- A whole list can be cut where its source can. -/
theorem exists_split {list : List Cell} (whole : Whole list)
    {before after : Text} (source : source? list = some (before ++ after)) :
    ∃ first second, list = first ++ second ∧ source? first = some before ∧
      source? second = some after := by
  induction whole generalizing before with
  | nil =>
      cases before with
      | nil => exact ⟨[], [], rfl, rfl, source⟩
      | cons first others => cases source
  | plain character whole ih =>
      cases before with
      | nil => exact ⟨[], _, rfl, rfl, source⟩
      | cons first others =>
          rw [source?_plain] at source
          obtain ⟨text, known, same⟩ := Option.map_eq_some_iff.mp source
          cases same
          obtain ⟨front, back, rfl, left, right⟩ := ih known
          refine ⟨.plain character :: front, back, rfl, ?_, right⟩
          rw [source?_plain, left]
          rfl
  | @veiled fill hides character rest whole ih =>
      cases before with
      | nil => exact ⟨[], _, rfl, rfl, source⟩
      | cons first others =>
          rw [source?_veiled] at source
          obtain ⟨text, known, same⟩ := Option.map_eq_some_iff.mp source
          cases same
          obtain ⟨front, back, rfl, left, right⟩ := ih known
          refine ⟨.veiled fill character :: (List.replicate
            (character.utf8Size - 1) (.padding fill) ++ front), back, ?_, ?_,
            right⟩
          · rw [List.cons_append, List.append_assoc]
          · rw [source?_veiled, left]
            rfl

end Whole

/-- A whole list shows the characters of its source, and fills. -/
theorem Whole.mem_or_isFill {list : List Cell} (whole : Whole list)
    {text : Text} (source : Lexical.source? list = some text) {cell : Cell}
    (member : cell ∈ list) :
    cell.visible ∈ text ∨ isFill cell.visible = true := by
  induction whole generalizing text with
  | nil => cases member
  | plain character whole ih =>
      rw [source?_plain] at source
      obtain ⟨others, known, rfl⟩ := Option.map_eq_some_iff.mp source
      rcases List.mem_cons.mp member with rfl | later
      · exact Or.inl List.mem_cons_self
      · exact (ih known later).imp_left (List.mem_cons_of_mem character)
  | @veiled fill hides character rest whole ih =>
      rw [source?_veiled] at source
      obtain ⟨others, known, rfl⟩ := Option.map_eq_some_iff.mp source
      rcases List.mem_cons.mp member with rfl | behind
      · exact Or.inr hides
      · rcases List.mem_append.mp behind with pads | later
        · rw [List.eq_of_mem_replicate pads]
          exact Or.inr hides
        · exact (ih known later).imp_left (List.mem_cons_of_mem character)

/-! ## Slices -/

namespace Lexical

theorem Cell.width_pos (cell : Cell) : 0 < cell.width := by
  cases cell with
  | plain character => exact character.utf8Size_pos
  | veiled fill character => exact Nat.one_pos
  | padding fill => exact Nat.one_pos

/-- Two cuts of a list of cells at the same byte are the same. -/
theorem eq_of_shownBytes_eq {first second third fourth : List Cell}
    (same : first ++ second = third ++ fourth)
    (sizes : shownBytes first = shownBytes third) :
    first = third ∧ second = fourth := by
  induction first generalizing third with
  | nil =>
      cases third with
      | nil => exact ⟨rfl, same⟩
      | cons cell others =>
          have wide := Cell.width_pos cell
          simp only [shownBytes, coveredSize_nil, coveredSize_cons] at sizes
          omega
  | cons cell others ih =>
      cases third with
      | nil =>
          have wide := Cell.width_pos cell
          simp only [shownBytes, coveredSize_nil, coveredSize_cons] at sizes
          omega
      | cons other rest =>
          obtain ⟨rfl, tails⟩ := List.cons.inj same
          rw [shownBytes, coveredSize_cons, shownBytes, coveredSize_cons,
            Nat.add_left_cancel_iff] at sizes
          obtain ⟨rfl, rfl⟩ := ih tails sizes
          exact ⟨rfl, rfl⟩

/-- Whole cells show as many bytes as their source has. -/
theorem shownBytes_eq_byteSize {list : List Cell} (whole : Whole list)
    {text : Text} (source : source? list = some text) :
    shownBytes list = byteSize text := by
  obtain ⟨known, same, size⟩ := whole.exists_source
  rw [source] at same
  cases same
  exact size

theorem sourceOf_eq_ok_iff {list : List Cell} {text : Text} :
    sourceOf list = .ok text ↔ source? list = some text := by
  rw [sourceOf]
  cases source? list with
  | none => simp
  | some other => simp

/--
The characters behind a part of a masked statement are the slice of the
statement between the offsets that the part starts and stops at.
-/
theorem sourceOf_eq_ok_iff_slice? {statement : Text}
    {before part after : List Cell} (nonempty : part ≠ [])
    (parts : cells statement = before ++ (part ++ after)) (text : Text) :
    sourceOf part = .ok text ↔
      slice? (shownBytes before) (shownBytes before + shownBytes part)
        statement = some text := by
  have whole : Whole (before ++ (part ++ after)) := by
    rw [← parts]
    exact whole_cells statement
  have source : source? (before ++ (part ++ after)) = some statement := by
    rw [← parts]
    exact source?_cells statement
  constructor
  · intro read
    have known := sourceOf_eq_ok_iff.mp read
    have clean : ¬ StartsInside (part ++ after) := by
      rintro ⟨fill, rest, same⟩
      obtain ⟨cell, others, rfl⟩ := List.exists_cons_of_ne_nil nonempty
      obtain ⟨rfl, -⟩ := List.cons.inj same
      cases known
    obtain ⟨left, right⟩ := whole.of_append clean
    obtain ⟨middle, last⟩ := right.of_source known
    obtain ⟨front, leading, size⟩ := left.exists_source
    obtain ⟨back, trailing, -⟩ := last.exists_source
    have joined := source?_append leading (source?_append known trailing)
    rw [source] at joined
    cases joined
    rw [size, shownBytes_eq_byteSize middle known, ← List.append_assoc]
    exact slice?_byteSize front text back
  · intro slice
    obtain ⟨front, back, rfl, start, size⟩ := exists_parts_of_slice? slice
    rw [Nat.add_sub_cancel_left] at size
    obtain ⟨first, second, cut, leading, others⟩ := whole.exists_split source
    rw [cut] at whole
    obtain ⟨left, right⟩ := whole.of_source leading
    obtain ⟨rfl, rfl⟩ := eq_of_shownBytes_eq cut (by
      rw [shownBytes_eq_byteSize left leading, start])
    obtain ⟨third, fourth, cutToo, middle, -⟩ := right.exists_split others
    rw [cutToo] at right
    obtain ⟨rfl, rfl⟩ := eq_of_shownBytes_eq cutToo (by
      rw [shownBytes_eq_byteSize (right.of_source middle).1 middle, size])
    exact sourceOf_eq_ok_iff.mpr middle

end Lexical

end Snowform
