import Snowform.Proofs.Lexical.Masking
import Snowform.Proofs.Text.Encoding

/-!
# Bytes of a masked script

A masked script can be read byte by byte in the place of the script: it is
as long, it shows code, line feeds and delimiters, and every other byte is a
blank in a comment and an underscore in a literal.

The bytes of a span are those of its region, in the script and in the masked
script alike, so `getElem?_span` reduces a byte of the script to a byte of one
region.
-/

namespace Snowform

open Text Lexical

/-- A literal that ends with its delimiter, apart from the opening one. -/
def Region.Closes (region : Region) : Prop :=
  ∃ inside, region.text = region.delimiter ++ (inside ++ region.delimiter)

/-- A byte of a literal that belongs to one of its delimiters. -/
def Span.DelimitsAt (span : Span) (byte : Nat) : Prop :=
  byte < span.start + byteSize span.region.delimiter ∨
    span.region.Closes ∧ span.stop ≤ byte + byteSize span.region.delimiter

/-- How the bytes of a masked script follow from those of the script. -/
structure MasksBytes (script masked : Text) : Prop where
  length_eq : (encode masked).length = (encode script).length
  feeds : ∀ byte : Nat, (encode script)[byte]? = some feedByte →
    (encode masked)[byte]? = some feedByte
  code : ∀ span ∈ spans script, span.region.kind = .code →
    ∀ byte : Nat, span.start ≤ byte → byte < span.stop →
      (encode masked)[byte]? = (encode script)[byte]?
  comments : ∀ span ∈ spans script, span.region.kind.isComment = true →
    ∀ byte : Nat, span.start ≤ byte → byte < span.stop →
      (encode script)[byte]? ≠ some feedByte →
        (encode masked)[byte]? = some ' '.toUInt8
  delimiters : ∀ span ∈ spans script, span.region.kind.isLiteral = true →
    ∀ byte : Nat, span.start ≤ byte → byte < span.stop → span.DelimitsAt byte →
      (encode masked)[byte]? = (encode script)[byte]?
  insides : ∀ span ∈ spans script, span.region.kind.isLiteral = true →
    ∀ byte : Nat, span.start ≤ byte → byte < span.stop → ¬ span.DelimitsAt byte →
      (encode script)[byte]? ≠ some feedByte →
        (encode masked)[byte]? = some '_'.toUInt8

namespace Lexical

/-! ## Bytes behind a fill -/

/-- The byte that is seen of a byte behind a fill. -/
def coverByte (fill : Char) (byte : UInt8) : UInt8 :=
  if byte = feedByte then feedByte else fill.toUInt8

theorem encode_replicate {fill : Char}
    (single : String.utf8EncodeChar fill = [fill.toUInt8]) (count : Nat) :
    encode (List.replicate count fill) =
      List.replicate count fill.toUInt8 := by
  induction count with
  | zero => rw [List.replicate_zero, encode_nil, List.replicate_zero]
  | succ count ih =>
      rw [List.replicate_succ, encode_cons, single, ih, List.replicate_succ,
        List.singleton_append]

/-- A text behind a fill is hidden byte by byte. -/
theorem encode_covered {fill : Char}
    (single : String.utf8EncodeChar fill = [fill.toUInt8]) (text : Text) :
    encode (covered fill text) = (encode text).map (coverByte fill) := by
  induction text with
  | nil =>
      change encode [] = _
      rw [encode_nil, List.map_nil]
  | cons character rest ih =>
      rw [covered_cons, encode_append, ih, map_visible_veil, encode_cons,
        List.map_append]
      congr 1
      split
      next feed =>
        rw [feed, encode_cons, encode_nil, List.append_nil,
          utf8EncodeChar_feed]
        rfl
      next other =>
        have hidden : (String.utf8EncodeChar character).map (coverByte fill) =
            (String.utf8EncodeChar character).map fun _ => fill.toUInt8 := by
          apply List.map_congr_left
          intro byte member
          exact if_neg (not_feed_of_mem_utf8EncodeChar other byte member)
        rw [encode_replicate single, hidden, List.map_const',
          String.length_utf8EncodeChar]

theorem getElem?_encode_covered {fill : Char}
    (single : String.utf8EncodeChar fill = [fill.toUInt8]) (text : Text)
    (place : Nat) :
    (encode (covered fill text))[place]? =
      ((encode text)[place]?).map (coverByte fill) := by
  rw [encode_covered single, List.getElem?_map]

/-- A byte behind a fill is the fill, unless it is a line feed. -/
theorem eq_fill_of_covered {fill : Char} {byte : Option UInt8}
    (some_byte : byte.isSome = true) (other : byte ≠ some feedByte) :
    byte.map (coverByte fill) = some fill.toUInt8 := by
  obtain ⟨value, rfl⟩ := Option.isSome_iff_exists.mp some_byte
  have differs : value ≠ feedByte := by simpa using other
  rw [Option.map_some, coverByte, if_neg differs]

theorem map_coverByte_feed {fill : Char} {byte : Option UInt8}
    (feed : byte = some feedByte) :
    byte.map (coverByte fill) = some feedByte := by
  rw [feed, Option.map_some, coverByte, if_pos rfl]

/-! ## Bytes of regions -/

theorem encode_singletons :
    String.utf8EncodeChar ' ' = [' '.toUInt8] ∧
      String.utf8EncodeChar '_' = ['_'.toUInt8] := by
  decide

/-- A literal of a script is an opening with or without a closing. -/
theorem exists_maskedAs {script : Text} {region : Region}
    (member : region ∈ lexemes script)
    (literal : region.kind.isLiteral = true) :
    ∃ mode rest, Mode.MaskedAs mode region rest ∧
      region.delimiter = mode.opening := by
  rcases mode_of_mem_lexemesFrom member with
    code | ⟨mode, behind, rest, opens, parts, equal⟩
  · rw [code] at literal
    cases literal
  · have literalMode : mode.kind.isLiteral = true := by
      rw [equal] at literal
      exact literal
    rw [equal]
    exact ⟨mode, rest, Mode.maskedAs opens literalMode parts,
      Mode.delimiter_region opens literalMode _⟩

/-- Bytes around a part of a list stay when the part is changed. -/
theorem getElem?_around {before inside after : List UInt8} {place : Nat}
    (around : place < before.length ∨
      before.length + inside.length ≤ place) (change : UInt8 → UInt8) :
    (before ++ (inside.map change ++ after))[place]? =
      (before ++ (inside ++ after))[place]? := by
  rcases around with left | right
  · rw [List.getElem?_append_left left, List.getElem?_append_left left]
  · have behind : before.length ≤ place := by omega
    have further : inside.length ≤ place - before.length := by omega
    have changed : (inside.map change).length ≤ place - before.length := by
      rw [List.length_map]
      exact further
    rw [List.getElem?_append_right behind, List.getElem?_append_right behind,
      List.getElem?_append_right changed, List.getElem?_append_right further,
      List.length_map]

theorem getElem?_inside {before inside : List UInt8} {place : Nat}
    (starts : before.length ≤ place)
    (stops : place < before.length + inside.length) (change : UInt8 → UInt8)
    (after : List UInt8) :
    (before ++ (inside.map change ++ after))[place]? =
      ((before ++ (inside ++ after))[place]?).map change := by
  have within : place - before.length < inside.length := by omega
  have changed : place - before.length < (inside.map change).length := by
    rw [List.length_map]
    exact within
  rw [List.getElem?_append_right starts, List.getElem?_append_right starts,
    List.getElem?_append_left changed, List.getElem?_append_left within,
    List.getElem?_map]

/--
Delimiters of a literal are shown as they are, and its inside is hidden byte
by byte.
-/
theorem getElem?_masked_literal {script : Text} {region : Region}
    (member : region ∈ lexemes script)
    (literal : region.kind.isLiteral = true) {place : Nat}
    (bound : place < byteSize region.text) :
    ((place < byteSize region.delimiter ∨ region.Closes ∧
        byteSize region.text ≤ place + byteSize region.delimiter) →
      (encode region.masked)[place]? = (encode region.text)[place]?) ∧
    (¬ (place < byteSize region.delimiter ∨ region.Closes ∧
        byteSize region.text ≤ place + byteSize region.delimiter) →
      (encode region.masked)[place]? =
        ((encode region.text)[place]?).map (coverByte '_')) := by
  obtain ⟨mode, rest, maskedAs, delimited⟩ := exists_maskedAs member literal
  rw [Region.Closes, delimited]
  cases maskedAs with
  | closed inside whole masked follows =>
      rw [whole] at bound
      rw [masked, whole]
      simp only [byteSize_append] at bound
      simp only [encode_append, encode_covered encode_singletons.2,
        byteSize_append]
      constructor
      · rintro (left | ⟨-, right⟩)
        · apply getElem?_around
          rw [length_encode]
          exact Or.inl left
        · apply getElem?_around
          rw [length_encode, length_encode]
          omega
      · intro neither
        have apart : ¬ byteSize mode.opening + (byteSize inside +
            byteSize mode.opening) ≤ place + byteSize mode.opening :=
          fun right => neither (Or.inr ⟨⟨inside, rfl⟩, right⟩)
        apply getElem?_inside
        · rw [length_encode]
          omega
        · rw [length_encode, length_encode]
          omega
  | unclosed inside whole stays masked noRest =>
      have never : ¬ ∃ other, region.text =
          mode.opening ++ (other ++ mode.opening) := by
        rintro ⟨other, same⟩
        rw [whole, List.append_right_inj] at same
        exact stays ⟨other, same.symm⟩
      rw [whole, byteSize_append] at bound
      have around := @getElem?_around (encode mode.opening) (encode inside) []
        place
      have within := @getElem?_inside (encode mode.opening) (encode inside)
        place
      simp only [length_encode] at around within
      rw [masked, whole, encode_append, encode_append,
        encode_covered encode_singletons.2]
      constructor
      · rintro (left | ⟨closed, -⟩)
        · have shown := around (Or.inl left) (coverByte '_')
          rwa [List.append_nil, List.append_nil] at shown
        · rw [← whole] at closed
          exact absurd closed never
      · intro neither
        have starts : byteSize mode.opening ≤ place :=
          Nat.le_of_not_lt fun left => neither (Or.inl left)
        have shown := within starts bound (coverByte '_') []
        rwa [List.append_nil, List.append_nil] at shown

/-! ## Bytes of spans -/

theorem maskedText_joinCode (region : Region) (others : List Region) :
    maskedText (joinCode region others) = maskedText (region :: others) := by
  cases others with
  | nil => rfl
  | cons next rest =>
      rw [joinCode]
      split
      next codes =>
        obtain ⟨kind, text⟩ := region
        obtain ⟨nextKind, nextText⟩ := next
        obtain ⟨rfl, rfl⟩ := codes
        simp only [maskedText_cons, Region.masked_code, List.append_assoc]
      next => rfl

/-- Joining code changes nothing that is seen of a script. -/
theorem maskedText_scan (script : Text) :
    maskedText (scan script) = mask script := by
  rw [mask_eq_flatMap, scan]
  change _ = maskedText (lexemes script)
  induction lexemes script with
  | nil => rfl
  | cons region others ih =>
      rw [List.foldr_cons, maskedText_joinCode, maskedText_cons, ih,
        maskedText_cons]

/-- Every region of a script is as long as what is seen of it. -/
theorem byteSize_masked_of_mem_scan {script : Text} {region : Region}
    (member : region ∈ scan script) :
    byteSize region.masked = byteSize region.text := by
  rcases mem_or_code_of_mem_foldr_joinCode member with known | code
  · exact byteSize_masked_of_mem known
  · obtain ⟨kind, text⟩ := region
    cases code
    rw [Region.masked_code]

theorem byteSize_maskedText {regions : List Region}
    (sizes : ∀ region ∈ regions,
      byteSize region.masked = byteSize region.text) :
    byteSize (maskedText regions) = byteSize (textOf regions) := by
  induction regions with
  | nil => rfl
  | cons region others ih =>
      rw [List.forall_mem_cons] at sizes
      rw [maskedText_cons, textOf_cons, byteSize_append, byteSize_append,
        sizes.1, ih sizes.2]

/-- The masked script is as long as the script. -/
theorem byteSize_mask (script : Text) :
    byteSize (mask script) = byteSize script := by
  rw [← maskedText_scan,
    byteSize_maskedText fun _ => byteSize_masked_of_mem_scan, textOf_scan]

/-- A span stands behind the texts of the regions before it. -/
theorem exists_parts_of_mem_spansFrom {start : Nat} {regions : List Region}
    {span : Span} (member : span ∈ spansFrom start regions) :
    ∃ before after, regions = before ++ span.region :: after ∧
      span.start = start + byteSize (textOf before) := by
  induction regions generalizing start with
  | nil => cases member
  | cons region others ih =>
      rcases List.mem_cons.mp member with rfl | later
      · exact ⟨[], others, rfl, rfl⟩
      · obtain ⟨before, after, parts, starts⟩ := ih later
        refine ⟨region :: before, after, ?_, ?_⟩
        · rw [parts, List.cons_append]
        · rw [starts, textOf_cons, byteSize_append, Nat.add_assoc]

theorem getElem?_encode_within {before inside : Text} {place : Nat}
    (bound : place < byteSize inside) (after : Text) :
    (encode (before ++ (inside ++ after)))[byteSize before + place]? =
      (encode inside)[place]? := by
  have within : place < (encode inside).length := by
    rw [length_encode]
    exact bound
  have behind : (encode before).length ≤ byteSize before + place := by
    rw [length_encode]
    exact Nat.le_add_right _ _
  rw [encode_append, encode_append, List.getElem?_append_right behind,
    length_encode, Nat.add_sub_cancel_left, List.getElem?_append_left within]

/-- The bytes of a span are those of its region, masked or not. -/
theorem getElem?_span {script : Text} {span : Span}
    (member : span ∈ spans script) {byte : Nat} (starts : span.start ≤ byte)
    (stops : byte < span.stop) :
    ∃ place, byte = span.start + place ∧
      place < byteSize span.region.text ∧
      (encode script)[byte]? = (encode span.region.text)[place]? ∧
      (encode (mask script))[byte]? = (encode span.region.masked)[place]? := by
  obtain ⟨place, rfl⟩ := Nat.exists_eq_add_of_le starts
  obtain ⟨before, after, parts, start⟩ := exists_parts_of_mem_spansFrom member
  have stop := (slice?_of_mem_spansFrom [] member).1
  have bound : place < byteSize span.region.text := by omega
  have sizes : ∀ region ∈ before ++ span.region :: after,
      byteSize region.masked = byteSize region.text := by
    intro region known
    rw [← parts] at known
    exact byteSize_masked_of_mem_scan known
  have size := sizes span.region (by simp)
  have seenBefore : byteSize (maskedText before) = byteSize (textOf before) :=
    byteSize_maskedText fun region known =>
      sizes region (List.mem_append_left _ known)
  rw [Nat.zero_add] at start
  have whole : script =
      textOf before ++ (span.region.text ++ textOf after) := by
    rw [← textOf_cons, ← textOf_append, ← parts, textOf_scan]
  have seen : mask script =
      maskedText before ++ (span.region.masked ++ maskedText after) := by
    rw [← maskedText_cons, ← maskedText_scan, parts, maskedText,
      List.flatMap_append]
    rfl
  refine ⟨place, rfl, bound, ?_, ?_⟩
  · conv_lhs => rw [whole, start]
    exact getElem?_encode_within bound (textOf after)
  · rw [← size] at bound
    rw [seen, start, ← seenBefore]
    exact getElem?_encode_within bound (maskedText after)

/-- Every byte of a script lies in a span. -/
theorem exists_mem_spansFrom {start byte : Nat} {regions : List Region}
    (starts : start ≤ byte) (stops : byte < start + byteSize (textOf regions)) :
    ∃ span ∈ spansFrom start regions, span.start ≤ byte ∧ byte < span.stop := by
  induction regions generalizing start with
  | nil => exact absurd stops (Nat.not_lt.mpr starts)
  | cons region others ih =>
      by_cases here : byte < start + byteSize region.text
      · exact ⟨_, List.mem_cons_self, starts, here⟩
      · rw [textOf_cons, byteSize_append, ← Nat.add_assoc] at stops
        obtain ⟨span, member, covers⟩ := ih (Nat.le_of_not_lt here) stops
        exact ⟨span, List.mem_cons_of_mem _ member, covers⟩

theorem isSome_of_span {script : Text} {span : Span}
    (member : span ∈ spans script) {byte : Nat} (starts : span.start ≤ byte)
    (stops : byte < span.stop) : (encode script)[byte]?.isSome = true := by
  obtain ⟨place, rfl, bound, shown, -⟩ := getElem?_span member starts stops
  rw [shown, isSome_getElem?, length_encode]
  exact bound

theorem getElem?_mask_code {script : Text} {span : Span}
    (member : span ∈ spans script) (code : span.region.kind = .code)
    {byte : Nat} (starts : span.start ≤ byte) (stops : byte < span.stop) :
    (encode (mask script))[byte]? = (encode script)[byte]? := by
  obtain ⟨place, rfl, -, shown, seen⟩ := getElem?_span member starts stops
  obtain ⟨⟨kind, text⟩, start, stop⟩ := span
  cases code
  rw [seen, shown, Region.masked_code]

theorem getElem?_mask_comment {script : Text} {span : Span}
    (member : span ∈ spans script)
    (comment : span.region.kind.isComment = true) {byte : Nat}
    (starts : span.start ≤ byte) (stops : byte < span.stop) :
    (encode (mask script))[byte]? =
      ((encode script)[byte]?).map (coverByte ' ') := by
  obtain ⟨place, rfl, -, shown, seen⟩ := getElem?_span member starts stops
  rw [seen, shown, Region.masked_comment comment,
    getElem?_encode_covered encode_singletons.1]

theorem getElem?_mask_literal {script : Text} {span : Span}
    (member : span ∈ spans script)
    (literal : span.region.kind.isLiteral = true) {byte : Nat}
    (starts : span.start ≤ byte) (stops : byte < span.stop) :
    (span.DelimitsAt byte →
      (encode (mask script))[byte]? = (encode script)[byte]?) ∧
    (¬ span.DelimitsAt byte → (encode (mask script))[byte]? =
      ((encode script)[byte]?).map (coverByte '_')) := by
  obtain ⟨place, rfl, bound, shown, seen⟩ := getElem?_span member starts stops
  have stop := (slice?_of_mem_spansFrom [] member).1
  have known : span.region ∈ lexemes script :=
    (mem_lexemes_of_mem_spans member).resolve_right fun code => by
      rw [code] at literal
      cases literal
  have delimits : span.DelimitsAt (span.start + place) ↔
      place < byteSize span.region.delimiter ∨ span.region.Closes ∧
        byteSize span.region.text ≤ place + byteSize span.region.delimiter := by
    rw [Span.DelimitsAt, stop]
    constructor
    · exact Or.imp (by omega) (And.imp_right (by omega))
    · exact Or.imp (by omega) (And.imp_right (by omega))
  rw [delimits, seen, shown]
  exact getElem?_masked_literal known literal bound

/-- The masked script shows the script byte by byte. -/
theorem masksBytes_mask (script : Text) : MasksBytes script (mask script) where
  length_eq := by rw [length_encode, length_encode, byteSize_mask]
  feeds := by
    intro byte feed
    have bound := (List.getElem?_eq_some_iff.mp feed).1
    rw [length_encode] at bound
    have inside : byte < 0 + byteSize (textOf (scan script)) := by
      rw [textOf_scan, Nat.zero_add]
      exact bound
    obtain ⟨span, member, starts, stops⟩ :=
      exists_mem_spansFrom (Nat.zero_le byte) inside
    by_cases code : span.region.kind = .code
    · rw [getElem?_mask_code member code starts stops, feed]
    · rcases RegionKind.isLiteral_or_isComment code with literal | comment
      · have shown := getElem?_mask_literal member literal starts stops
        by_cases delimits : span.DelimitsAt byte
        · rw [shown.1 delimits, feed]
        · rw [shown.2 delimits, map_coverByte_feed feed]
      · rw [getElem?_mask_comment member comment starts stops,
          map_coverByte_feed feed]
  code := fun span member code byte => getElem?_mask_code member code
  comments := by
    intro span member comment byte starts stops other
    rw [getElem?_mask_comment member comment starts stops]
    exact eq_fill_of_covered (isSome_of_span member starts stops) other
  delimiters := fun span member literal byte starts stops =>
    (getElem?_mask_literal member literal starts stops).1
  insides := by
    intro span member literal byte starts stops apart other
    rw [(getElem?_mask_literal member literal starts stops).2 apart]
    exact eq_fill_of_covered (isSome_of_span member starts stops) other

/--
A masked script shows the script byte by byte and has no comments, its
literals are those of the script, and masking it again changes nothing.
-/
theorem mask_hides_literals_in_place (script : Text) :
    MasksBytes script (mask script) ∧
      (∀ span ∈ spans (mask script), span.region.kind.isComment = false) ∧
      literalPlaces (mask script) = literalPlaces script ∧
      mask (mask script) = mask script :=
  ⟨masksBytes_mask script, fun _ => isComment_of_mem_spans_mask,
    literalPlaces_mask script, mask_mask script⟩

/--
A dollar body that is all dollar signs ends with its marker, but the marker
overlaps the opening one and is hidden.
-/
theorem mask_hides_overlapping_marker :
    ∃ span ∈ spans "$$$".toList, span.region.kind.isLiteral = true ∧
      span.region.delimiter <:+ span.region.text ∧
      ∃ byte, span.stop ≤ byte + byteSize span.region.delimiter ∧
        byte < span.stop ∧
        (encode (mask "$$$".toList))[byte]? ≠ (encode "$$$".toList)[byte]? := by
  refine ⟨⟨⟨.dollarQuote, "$$$".toList⟩, 0, 3⟩, by decide, rfl, ?_, 2, ?_⟩
  · exact ⟨['$'], rfl⟩
  · refine ⟨by decide, by decide, ?_⟩
    have seen : mask "$$$".toList = "$$_".toList := by decide
    rw [seen, encode_eq_flatMap, encode_eq_flatMap]
    decide

end Lexical

end Snowform
