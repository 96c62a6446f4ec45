import Snowform.Proofs.Lexical.Covering

/-!
# Scanning a masked script

Masking a script a second time changes nothing, since scanning the masked
script finds the literals of the script again, each in its place, and code
everywhere else.
-/

namespace Snowform

open Text Lexical

/-- What a region is cut into when it is masked. -/
def Region.maskedRegions (region : Region) : List Region :=
  if region.kind.isComment then
    codeRegions region.masked
  else
    [⟨region.kind, region.masked⟩]

theorem covers_masked : Covers Region.masked where
  code := Region.masked_code
  comment := Region.masked_comment
  literal opens literal text rest parts := by
    have maskedAs := Mode.maskedAs opens literal parts
    refine ⟨?_, fun opened => maskedAs.special? literal opened,
      maskedAs.nameBehind_eq opens⟩
    cases maskedAs with
    | closed inside whole masked follows =>
        rw [masked]
        exact List.prefix_append _ _
    | unclosed inside whole stays masked noRest =>
        rw [masked]
        exact List.prefix_append _ _

namespace Lexical

/-- What is seen of regions that follow each other. -/
def maskedText (regions : List Region) : Text :=
  regions.flatMap Region.masked

theorem maskedText_cons (region : Region) (others : List Region) :
    maskedText (region :: others) = region.masked ++ maskedText others := by
  simp [maskedText]

theorem lexemes_mask (script : Text) :
    lexemes (mask script) =
      (lexemes script).flatMap Region.maskedRegions := by
  rw [mask_eq_flatMap]
  exact lexemesFrom_seenText covers_masked.clears false script (Or.inl rfl)

end Lexical

/-! ## Masking again -/

namespace Lexical

/-- A smallest region is code, or an opening and the remainder of its mode. -/
theorem mode_of_mem_lexemesFrom {afterName : Bool} {text : Text}
    {region : Region} (member : region ∈ lexemesFrom 0 afterName text) :
    region.kind = .code ∨
      ∃ (mode : Mode) (behind rest : Text), mode.Opens ∧
        mode.remainder behind ++ rest = behind ∧
        region = ⟨mode.kind, mode.opening ++ mode.remainder behind⟩ := by
  induction afterName, text using lexemeInduction with
  | nil afterName => cases member
  | special afterName first rest found ih =>
      rw [lexemesFrom_special found] at member
      rcases List.mem_cons.mp member with rfl | later
      · obtain ⟨mode, behind, -, opens, cut, equal⟩ :=
          special?_append_eq_some found
        exact Or.inr ⟨mode, behind, rest, opens, cut, equal⟩
      · exact ih later
  | code afterName character rest absent ih =>
      rw [lexemesFrom_code absent] at member
      rcases List.mem_cons.mp member with rfl | later
      · exact Or.inl rfl
      · exact ih later

end Lexical

namespace Mode

/-- The inside of a masked literal does not end with a delimiter. -/
theorem Opens.not_suffix_covered {mode : Mode} (opens : mode.Opens)
    (literal : mode.kind.isLiteral = true) (inside : Text) :
    ¬ mode.opening <:+ covered '_' inside := by
  intro ends
  have shown : ∀ character ∈ mode.opening,
      character = '_' ∨ character = '\n' :=
    fun _ member => eq_of_mem_covered (ends.subset member)
  cases mode with
  | singleQuote => simp [opening] at shown
  | doubleQuote => simp [opening] at shown
  | dollarQuote tag => simp [opening] at shown
  | _ => cases literal

/-- A masked literal is masked already. -/
theorem MaskedAs.masked_masked {mode : Mode} {region : Region} {rest : Text}
    (maskedAs : mode.MaskedAs region rest) (opens : mode.Opens)
    (literal : mode.kind.isLiteral = true) :
    (⟨mode.kind, region.masked⟩ : Region).masked = region.masked := by
  cases maskedAs with
  | closed inside whole masked follows =>
      rw [masked, Region.masked_closed literal
        (delimiter_region opens literal _) rfl,
        covered_covered (by decide)]
  | unclosed inside whole stays masked noRest =>
      rw [masked, Region.masked_unclosed literal
        (delimiter_region opens literal _) rfl
        (opens.not_suffix_covered literal inside),
        covered_covered (by decide)]

/-- A masked literal is as long as the literal. -/
theorem MaskedAs.byteSize_masked {mode : Mode} {region : Region} {rest : Text}
    (maskedAs : mode.MaskedAs region rest) :
    byteSize region.masked = byteSize region.text := by
  have narrow : '_'.utf8Size = 1 := by decide
  cases maskedAs with
  | closed inside whole masked follows =>
      rw [masked, whole]
      simp only [byteSize_append, byteSize_covered narrow]
  | unclosed inside whole stays masked noRest =>
      rw [masked, whole]
      simp only [byteSize_append, byteSize_covered narrow]

end Mode

namespace Lexical

theorem byteSize_masked_of_mem {script : Text} {region : Region}
    (member : region ∈ lexemes script) :
    byteSize region.masked = byteSize region.text := by
  rcases mode_of_mem_lexemesFrom member with
    code | ⟨mode, behind, rest, opens, parts, equal⟩
  · obtain ⟨kind, text⟩ := region
    cases code
    rw [Region.masked_code]
  · rcases RegionKind.isLiteral_or_isComment opens.kind_ne_code with
      literal | comment
    · rw [equal]
      exact (Mode.maskedAs opens literal parts).byteSize_masked
    · have kind : region.kind = mode.kind := by rw [equal]
      rw [← kind] at comment
      rw [Region.masked_comment comment, byteSize_covered (by decide)]

/-- What is seen of the masked regions is what is seen of the region. -/
theorem maskedText_maskedRegions {script : Text} {region : Region}
    (member : region ∈ lexemes script) :
    maskedText region.maskedRegions = region.masked := by
  have single : ∀ other : Region, maskedText [other] = other.masked := by
    intro other
    rw [maskedText, List.flatMap_singleton]
  rcases mode_of_mem_lexemesFrom member with
    code | ⟨mode, behind, rest, opens, parts, equal⟩
  · have noComment : ¬ region.kind.isComment = true := by
      rw [code]
      exact Bool.false_ne_true
    rw [Region.maskedRegions, if_neg noComment, single, code,
      Region.masked_code]
  · rcases RegionKind.isLiteral_or_isComment opens.kind_ne_code with
      literal | comment
    · have noComment : ¬ region.kind.isComment = true := by
        rw [equal, RegionKind.isComment_of_isLiteral literal]
        exact Bool.false_ne_true
      have again := (Mode.maskedAs opens literal parts).masked_masked opens
        literal
      rw [← equal] at again
      have kind : region.kind = mode.kind := by rw [equal]
      rw [Region.maskedRegions, if_neg noComment, single, kind, again]
    · have isComment : region.kind.isComment = true := by
        rw [equal]
        exact comment
      have shown : ∀ text : Text, maskedText (codeRegions text) = text := by
        intro text
        induction text with
        | nil => rfl
        | cons character others ih =>
            rw [codeRegions, List.map_cons, maskedText_cons,
              Region.masked_code, ← codeRegions, ih, List.singleton_append]
      rw [Region.maskedRegions, if_pos isComment, shown]

/-- Masking a second time changes nothing. -/
theorem mask_mask (script : Text) : mask (mask script) = mask script := by
  rw [mask_eq_flatMap (mask script), lexemes_mask, List.flatMap_assoc,
    mask_eq_flatMap script]
  exact List.flatMap_congr fun region member =>
    maskedText_maskedRegions member

/-! ## Places of literals -/

/-- The kinds and places of the literals of a script. -/
def literalPlaces (script : Text) : List Stretch :=
  ((spans script).map Span.stretch).filter fun stretch =>
    stretch.kind.isLiteral

theorem filter_foldr_join (list : List Stretch) :
    (list.foldr Stretch.join []).filter (fun stretch =>
        stretch.kind.isLiteral) =
      list.filter fun stretch => stretch.kind.isLiteral := by
  induction list with
  | nil => rfl
  | cons stretch rest ih =>
      rw [List.foldr_cons, List.filter_cons, ← ih]
      cases rest.foldr Stretch.join [] with
      | nil => rw [Stretch.join, List.filter_cons]
      | cons next others =>
          rw [Stretch.join]
          split
          next codes =>
            simp [codes.1, codes.2, RegionKind.isLiteral]
          next => rw [List.filter_cons]

/-- The places of literals can be told from the smallest regions. -/
theorem literalPlaces_eq (script : Text) :
    literalPlaces script =
      (stretchesFrom 0 (lexemes script)).filter fun stretch =>
        stretch.kind.isLiteral := by
  rw [literalPlaces, map_stretch_spans, filter_foldr_join]

theorem filter_stretchesFrom_codeRegions (start : Nat) (text : Text) :
    (stretchesFrom start (codeRegions text)).filter (fun stretch =>
      stretch.kind.isLiteral) = [] := by
  induction text generalizing start with
  | nil => rfl
  | cons character others ih =>
      rw [codeRegions, List.map_cons, stretchesFrom_cons, ← codeRegions]
      exact ih _

theorem filter_stretchesFrom_maskedRegions {regions : List Region}
    (sizes : ∀ region ∈ regions,
      byteSize region.masked = byteSize region.text) (start : Nat) :
    (stretchesFrom start (regions.flatMap Region.maskedRegions)).filter
        (fun stretch => stretch.kind.isLiteral) =
      (stretchesFrom start regions).filter fun stretch =>
        stretch.kind.isLiteral := by
  induction regions generalizing start with
  | nil => rfl
  | cons region others ih =>
      rw [List.forall_mem_cons] at sizes
      rw [List.flatMap_cons, stretchesFrom_append, List.filter_append,
        ih sizes.2, stretchesFrom_cons, Region.maskedRegions]
      by_cases comment : region.kind.isComment = true
      · have notLiteral : region.kind.isLiteral = false := by
          rw [Bool.eq_false_iff]
          intro literal
          rw [RegionKind.isComment_of_isLiteral literal] at comment
          cases comment
        rw [if_pos comment, filter_stretchesFrom_codeRegions,
          textOf_codeRegions, sizes.1, List.filter_cons]
        simp [notLiteral]
      · rw [if_neg comment, textOf_cons, textOf_nil, List.append_nil,
          stretchesFrom_cons, sizes.1, List.filter_cons, List.filter_cons]
        split <;> rfl

/-- The literals of a script are those of the masked script. -/
theorem literalPlaces_mask (script : Text) :
    literalPlaces (mask script) = literalPlaces script := by
  rw [literalPlaces_eq, literalPlaces_eq, lexemes_mask]
  exact filter_stretchesFrom_maskedRegions
    (fun _ member => byteSize_masked_of_mem member) 0

/-- Joining code leaves the other regions as they are. -/
theorem mem_or_code_of_mem_foldr_joinCode {regions : List Region}
    {region : Region} (member : region ∈ regions.foldr joinCode []) :
    region ∈ regions ∨ region.kind = .code := by
  induction regions with
  | nil => cases member
  | cons first others ih =>
      have later : region ∈ others.foldr joinCode [] →
          region ∈ first :: others ∨ region.kind = .code :=
        fun known => (ih known).imp_left (List.mem_cons_of_mem first)
      rw [List.foldr_cons] at member
      cases rest : others.foldr joinCode [] with
      | nil =>
          rw [rest, joinCode, List.mem_singleton] at member
          exact Or.inl (List.mem_cons.mpr (Or.inl member))
      | cons next following =>
          rw [rest] at later
          rw [rest, joinCode] at member
          split at member
          next =>
            rcases List.mem_cons.mp member with rfl | known
            · exact Or.inr rfl
            · exact later (List.mem_cons_of_mem next known)
          next =>
            rcases List.mem_cons.mp member with rfl | known
            · exact Or.inl List.mem_cons_self
            · exact later known

theorem mem_lexemes_of_mem_spans {script : Text} {span : Span}
    (member : span ∈ spans script) :
    span.region ∈ lexemes script ∨ span.region.kind = .code := by
  apply mem_or_code_of_mem_foldr_joinCode
  change span.region ∈ scan script
  rw [← map_region_spansFrom 0 (scan script)]
  exact List.mem_map_of_mem member

/-- A masked script has no comments. -/
theorem isComment_of_mem_spans_mask {script : Text} {span : Span}
    (member : span ∈ spans (mask script)) :
    span.region.kind.isComment = false := by
  rcases mem_lexemes_of_mem_spans member with known | code
  · rw [lexemes_mask] at known
    obtain ⟨region, -, known⟩ := List.mem_flatMap.mp known
    rw [Region.maskedRegions] at known
    split at known
    next =>
      obtain ⟨character, -, same⟩ := List.mem_map.mp known
      rw [← same]
      rfl
    next noComment =>
      rw [List.mem_singleton.mp known]
      exact Bool.eq_false_iff.mpr noComment
  · rw [code]
    rfl

end Lexical

end Snowform
