import Snowform.Ddl.Procedure
import Snowform.Proofs.Ddl.QuotedLiterals
import Snowform.Proofs.Lexical.Fronts
import Snowform.Proofs.Lexical.Quoting

/-!
# Bodies as literals

The body of a procedure can be written between dollar markers, unless it holds
the marker itself, or as a string.  Either way the body is found again, and
what a masked statement shows of it can be taken for no parenthesis.

A body that ends in all of a marker but its last dollar sign is cut short when
it is scanned, and the rest of the closing marker is code.  It opens nothing,
and what is read as the body is all of the literal.
-/

namespace Snowform

open Text Lexical

/-- A text between dollar markers. -/
def dollarLiteral (tag body : Text) : Text :=
  (Mode.dollarQuote tag).opening ++ (body ++ (Mode.dollarQuote tag).opening)

/-- A tag that can stand in a dollar marker. -/
abbrev IsTag (tag : Text) : Prop :=
  ∀ character ∈ tag, isTagCharacter character = true

/-! ## Regions -/

/-- A string is one region, unless a quote follows. -/
theorem lexemesFrom_stringLiteral (afterName : Bool) (text : Text)
    {rest : Text} (single : rest.head? ≠ some '\'') :
    lexemesFrom 0 afterName (stringLiteral text ++ rest) =
      ⟨.singleQuote, stringLiteral text⟩ :: lexemesFrom 0 false rest := by
  have found : special? afterName
      ((⟨.singleQuote, stringLiteral text⟩ : Region).text ++ rest) =
        some ⟨.singleQuote, stringLiteral text⟩ := by
    have inside : quotedRest '\'' (doubledQuotes text ++ '\'' :: rest) =
        doubledQuotes text ++ ['\''] := quotedRest_twice_append text single
    rw [← List.singleton_append, ← List.append_assoc] at inside
    exact congrArg
      (fun text => some (⟨.singleQuote, '\'' :: text⟩ : Region)) inside
  have behind : nameBehind afterName (stringLiteral text) = false := by
    have quote : continuesName '\'' = false := by decide
    rw [stringLiteral, nameBehind_cons, nameBehind_append, nameBehind_cons,
      nameBehind_nil, quote]
  have parts := lexemesFrom_special found
  rwa [behind] at parts

theorem lexemes_stringLiteral (body : Text) :
    lexemes (stringLiteral body) = [⟨.singleQuote, stringLiteral body⟩] := by
  have alone := lexemesFrom_stringLiteral false body
    (show ([] : Text).head? ≠ some '\'' by decide)
  rwa [List.append_nil] at alone

theorem cells_stringLiteral (body : Text) :
    cells (stringLiteral body) =
      .plain '\'' :: ((doubledQuotes body).flatMap (veil '_') ++
        [.plain '\'']) := by
  rw [cells, lexemes_stringLiteral, List.flatMap_singleton]
  exact Region.cells_closed rfl
    (show (Region.delimiter ⟨.singleQuote, stringLiteral body⟩) = ['\'']
      from rfl) rfl

/-- A masked string shows its quotes, the fill and line feeds. -/
theorem shown_of_mem_stringLiteral {body : Text} {cell : Cell}
    (member : cell ∈ cells (stringLiteral body)) :
    shown cell ∈ ['\'', '_', '\n'] := by
  rw [cells_stringLiteral, List.mem_cons, List.mem_append,
    List.mem_singleton] at member
  rcases member with rfl | inside | rfl
  · decide
  · exact forall_shown_of_veil (· ∈ ['\'', '_', '\n']) (by decide) (by decide)
      cell inside
  · decide

theorem getLast?_dollarLiteral (tag body : Text) :
    (dollarLiteral tag body).getLast? = some '$' := by
  rw [dollarLiteral, Mode.opening, ← List.append_assoc, ← List.append_assoc]
  exact List.getLast?_concat

/-- Dollar signs tell where a tag ends. -/
theorem eq_of_tag_prefix {tag rest behind : Text} (tagged : IsTag tag)
    (free : ¬ tag ++ ['$'] <+: rest)
    (starts : tag ++ ['$'] <+: rest ++ '$' :: behind) : rest = tag := by
  rcases List.prefix_or_prefix_of_prefix starts (List.prefix_append _ _) with
    whole | part
  · exact absurd whole free
  rcases List.prefix_concat_iff.mp part with same | ⟨others, rfl⟩
  · exact absurd (same ▸ List.prefix_rfl) free
  rw [List.append_assoc, List.prefix_append_right_inj] at starts
  cases others with
  | nil => rw [List.append_nil]
  | cons character others =>
      have dollar := (List.cons_prefix_cons.mp starts).1
      have known := tagged character (by simp)
      rw [dollar, isTagCharacter_dollar] at known
      cases known

/--
The closing marker is found where it stands, or one character behind the body,
where the body ends in the rest of a marker.
-/
theorem upThrough_marker {tag body : Text} (tagged : IsTag tag)
    (free : ¬ (Mode.dollarQuote tag).opening <:+: body) :
    ∃ front rest, (rest = [] ∨ rest = tag ++ ['$']) ∧
      body ++ (Mode.dollarQuote tag).opening =
        front ++ (Mode.dollarQuote tag).opening ++ rest ∧
      upThrough (Mode.dollarQuote tag).opening
          (body ++ (Mode.dollarQuote tag).opening) =
        front ++ (Mode.dollarQuote tag).opening := by
  have marker : (Mode.dollarQuote tag).opening = '$' :: (tag ++ ['$']) := rfl
  induction body with
  | nil =>
      refine ⟨[], [], .inl rfl, (List.append_nil _).symm, ?_⟩
      have found := upThrough_self_append
        (show (Mode.dollarQuote tag).opening ≠ [] from List.cons_ne_nil _ _) []
      rw [List.append_nil] at found
      exact found
  | cons character others ih =>
      by_cases here : (Mode.dollarQuote tag).opening <+:
          character :: (others ++ (Mode.dollarQuote tag).opening)
      · have starts := here
        rw [marker, List.cons_prefix_cons] at starts
        obtain ⟨rfl, starts⟩ := starts
        have apart : ¬ tag ++ ['$'] <+: others := fun whole =>
          free ((List.cons_prefix_cons.mpr ⟨rfl, whole⟩ :
            (Mode.dollarQuote tag).opening <+: _).isInfix)
        have same := eq_of_tag_prefix tagged apart starts
        refine ⟨[], tag ++ ['$'], .inr rfl, ?_, ?_⟩
        · rw [same, marker]
          simp
        · rw [List.cons_append, upThrough,
            if_pos (List.isPrefixOf_iff_prefix.mpr here)]
          rfl
      · obtain ⟨front, rest, ending, whole, found⟩ := ih fun inside =>
          free (inside.trans (List.suffix_cons _ _).isInfix)
        refine ⟨character :: front, rest, ending, ?_, ?_⟩
        · rw [List.cons_append, whole]
          rfl
        · rw [List.cons_append, upThrough,
            if_neg (mt List.isPrefixOf_iff_prefix.mp here), found]
          rfl

theorem lexemesFrom_tag {tag : Text} (tagged : IsTag tag) (afterName : Bool) :
    lexemesFrom 0 afterName (tag ++ ['$']) = codeRegions (tag ++ ['$']) := by
  have quiet : IsQuiet tag := by
    intro character member listed
    have known := tagged character member
    simp only [List.mem_cons, List.not_mem_nil, or_false] at listed
    rcases listed with rfl | rfl | rfl | rfl | rfl <;> cases known
  have dollar : ∀ afterName, lexemesFrom 0 afterName ['$'] =
      codeRegions ['$'] := by
    decide
  rw [lexemesFrom_quiet quiet, dollar]
  exact List.map_append.symm

/--
A dollar literal is one region.  Behind a body that ends in all of a marker but
its last character the rest of the marker is code.
-/
theorem exists_lexemes_dollarLiteral {tag body : Text} (tagged : IsTag tag)
    (free : ¬ (Mode.dollarQuote tag).opening <:+: body) :
    ∃ front rest : Text, (rest = [] ∨ rest = tag ++ ['$']) ∧
      lexemes (dollarLiteral tag body) =
        ⟨.dollarQuote, (Mode.dollarQuote tag).opening ++
          (front ++ (Mode.dollarQuote tag).opening)⟩ :: codeRegions rest := by
  obtain ⟨front, rest, ending, whole, found⟩ := upThrough_marker tagged free
  refine ⟨front, rest, ending, ?_⟩
  have parts : dollarLiteral tag body =
      (⟨.dollarQuote, (Mode.dollarQuote tag).opening ++
        (front ++ (Mode.dollarQuote tag).opening)⟩ : Region).text ++ rest := by
    rw [dollarLiteral, whole, List.append_assoc, List.append_assoc,
      List.append_assoc]
  have region : special? false (dollarLiteral tag body) =
      some ⟨.dollarQuote, (Mode.dollarQuote tag).opening ++
        (front ++ (Mode.dollarQuote tag).opening)⟩ := by
    have opened : special? false (dollarLiteral tag body) =
        (dollarMarker? (dollarLiteral tag body)).map fun marker =>
          ⟨.dollarQuote, marker ++
            upThrough marker ((dollarLiteral tag body).drop marker.length)⟩ :=
      rfl
    rw [opened, dollarLiteral, Mode.dollarMarker?_opening tagged,
      Option.map_some, List.drop_left, found]
  have code : ∀ afterName, lexemesFrom 0 afterName rest = codeRegions rest := by
    intro afterName
    rcases ending with rfl | rfl
    · rfl
    · exact lexemesFrom_tag tagged afterName
  rw [parts] at region ⊢
  rw [lexemes, lexemesFrom_special region, code]

/--
A dollar literal shows its markers.  Of a body that ends in all of a marker
but its last character it shows that as well.
-/
theorem exists_cells_dollarLiteral {tag body : Text} (tagged : IsTag tag)
    (free : ¬ (Mode.dollarQuote tag).opening <:+: body) :
    ∃ front rest : Text, (rest = [] ∨ rest = tag ++ ['$']) ∧
      cells (dollarLiteral tag body) =
        (Mode.dollarQuote tag).opening.map .plain ++
          (front.flatMap (veil '_') ++
            ((Mode.dollarQuote tag).opening ++ rest).map .plain) := by
  obtain ⟨front, rest, ending, parts⟩ :=
    exists_lexemes_dollarLiteral tagged free
  have delimited : Region.delimiter ⟨.dollarQuote,
      (Mode.dollarQuote tag).opening ++
        (front ++ (Mode.dollarQuote tag).opening)⟩ =
          (Mode.dollarQuote tag).opening :=
    Mode.delimiter_region (show (Mode.dollarQuote tag).Opens from tagged) rfl _
  refine ⟨front, rest, ending, ?_⟩
  rw [cells, parts, List.flatMap_cons, cells_codeRegions,
    Region.cells_closed rfl delimited rfl, List.map_append, List.append_assoc,
    List.append_assoc]

/-- Behind a blank a dollar literal is a phrase. -/
theorem isPhrase_cons_dollarLiteral {tag body : Text} (tagged : IsTag tag)
    (free : ¬ (Mode.dollarQuote tag).opening <:+: body) :
    IsPhrase (' ' :: dollarLiteral tag body) := by
  have neutral : isNeutral ' ' = true := by decide
  obtain ⟨front, rest, ending, parts⟩ :=
    exists_lexemes_dollarLiteral tagged free
  have noEnd : ∀ character ∈ rest, character ≠ ';' := by
    rintro _ member rfl
    rcases ending with rfl | rfl
    · cases member
    · rcases List.mem_append.mp member with inTag | dollar
      · cases tagged _ inTag
      · exact absurd dollar (by decide)
  refine ⟨?_, ?_⟩
  · rw [lexemes, lexemesFrom_neutral neutral, lexemesFrom_neutral neutral]
  · rw [lexemes, lexemesFrom_neutral neutral, parts, List.forall_mem_cons,
      List.forall_mem_cons]
    refine ⟨⟨rfl, rfl⟩, ⟨rfl, rfl⟩, fun region member => ?_⟩
    obtain ⟨character, inside, rfl⟩ := List.mem_map.mp member
    refine ⟨rfl, Bool.eq_false_iff.mpr fun ends => noEnd character inside ?_⟩
    simpa [endsStatement] using ends

/-! ## Without their delimiters -/

theorem dropWhile_doubledQuotes (text : Text) :
    (doubledQuotes text).dropWhile isBlank =
      doubledQuotes (text.dropWhile isBlank) := by
  induction text with
  | nil => rfl
  | cons character rest ih =>
      by_cases quote : character = '\''
      · subst character
        rfl
      · rw [doubledQuotes_cons quote, List.dropWhile_cons, List.dropWhile_cons,
          ih]
        split
        · rfl
        · rw [doubledQuotes_cons quote]

theorem dropEndWhile_doubledQuotes (text : Text) :
    dropEndWhile isBlank (doubledQuotes text) =
      doubledQuotes (dropEndWhile isBlank text) := by
  have append : ∀ first second : Text, doubledQuotes (first ++ second) =
      doubledQuotes first ++ doubledQuotes second :=
    fun first second => List.flatMap_append
  have visible : isBlank '\'' = false := by decide
  induction text using List.reverseRecOn with
  | nil => rfl
  | append_singleton rest last ih =>
      rw [append, dropEndWhile_concat]
      by_cases quote : last = '\''
      · have twice : doubledQuotes ['\''] = ['\''] ++ ['\''] := rfl
        rw [quote, twice, ← List.append_assoc, dropEndWhile_concat, visible,
          if_neg Bool.false_ne_true, if_neg Bool.false_ne_true, append, twice,
          List.append_assoc]
      · have once : doubledQuotes [last] = [last] := doubledQuotes_cons quote []
        rw [once, dropEndWhile_concat, ih]
        split
        · rfl
        · rw [append, once]

theorem trim_doubledQuotes (text : Text) :
    trim (doubledQuotes text) = doubledQuotes (trim text) := by
  rw [trim, trim, trimStart, trimStart, trimEnd, trimEnd,
    dropWhile_doubledQuotes, dropEndWhile_doubledQuotes]

namespace Procedure

theorem stripDelimiters_stringLiteral (body : Text) :
    stripDelimiters (stringLiteral body) = trim body := by
  have noMarker : dollarMarker? (stringLiteral body) = none := rfl
  obtain ⟨second, rest, others⟩ : ∃ second rest,
      doubledQuotes body ++ ['\''] = second :: rest :=
    List.exists_cons_of_ne_nil (List.concat_ne_nil _ _)
  have last := getLast?_stringLiteral body
  have inside : (second :: rest).dropLast = doubledQuotes body := by
    rw [← others, List.dropLast_concat]
  unfold stripDelimiters
  rw [noMarker]
  rw [stringLiteral, others] at last ⊢
  simp only [Option.getD_none, List.isEmpty_nil, Bool.not_true,
    Bool.false_eq_true, false_and, if_false, last, if_true, inside]
  rw [trim_doubledQuotes, replaceAll_doubledQuotes]

theorem stripDelimiters_dollarLiteral {tag : Text} (tagged : IsTag tag)
    (body : Text) : stripDelimiters (dollarLiteral tag body) = trim body := by
  have nonempty : (Mode.dollarQuote tag).opening ≠ [] := List.cons_ne_nil _ _
  have marker := Mode.dollarMarker?_opening tagged
  unfold stripDelimiters dollarLiteral
  rw [marker]
  generalize (Mode.dollarQuote tag).opening = delimiter at nonempty ⊢
  have suffix : delimiter <:+ delimiter ++ (body ++ delimiter) :=
    (List.suffix_append _ _).trans (List.suffix_append _ _)
  have size : (delimiter ++ (body ++ delimiter)).length -
      2 * delimiter.length = body.length := by
    simp only [List.length_append]
    omega
  rw [Option.getD_some, if_pos, List.drop_left, size, List.take_left]
  refine ⟨by simpa using nonempty, ?_, List.isSuffixOf_iff_suffix.mpr suffix⟩
  simp only [List.length_append]
  omega

end Procedure

end Snowform
