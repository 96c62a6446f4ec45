import Snowform.Proofs.Lexical.Clipping
import Snowform.Proofs.Lexical.Joining
import Snowform.Proofs.Lexical.Partition

/-!
# Statements scanned on their own

A statement is read from its text alone, without the script around it.  It is
cut into the same regions there: every statement starts in code and behind no
name, and no region crosses its end but one that is open there, which trimming
may cut short.
-/

namespace Snowform

open Text

namespace Lexical

/-! ## Blanks -/

theorem toNat_of_isTagCharacter {character : Char}
    (tagged : isTagCharacter character = true) :
    48 ≤ character.toNat ∧ character.toNat ≤ 122 := by
  change (((decide (65 ≤ character.val ∧ character.val ≤ 90) ||
    decide (97 ≤ character.val) && decide (character.val ≤ 122)) ||
    decide (48 ≤ character.val) && decide (character.val ≤ 57)) ||
    character == '_') = true at tagged
  simp only [Bool.or_eq_true, Bool.and_eq_true, decide_eq_true_eq,
    beq_iff_eq, UInt32.le_iff_toNat_le] at tagged
  rcases tagged with
    ((⟨lower, upper⟩ | ⟨lower, upper⟩) | ⟨lower, upper⟩) | rfl
  · exact ⟨Nat.le_trans (by decide) lower, Nat.le_trans upper (by decide)⟩
  · exact ⟨Nat.le_trans (by decide) lower, Nat.le_trans upper (by decide)⟩
  · exact ⟨Nat.le_trans (by decide) lower, Nat.le_trans upper (by decide)⟩
  · decide

theorem isNeutral_of_isBlank {character : Char}
    (blank : isBlank character = true) : isNeutral character = true := by
  have bounds := toNat_of_isBlank blank
  have noTag : isTagCharacter character = false := by
    rw [Bool.eq_false_iff]
    intro tagged
    have inside := toNat_of_isTagCharacter tagged
    omega
  have noDelimiter :
      ['\'', '"', '-', '*', '/', '$'].contains character = false := by
    rw [Bool.eq_false_iff]
    intro listed
    have member := List.contains_iff_mem.mp listed
    simp only [List.mem_cons, List.not_mem_nil, or_false] at member
    rcases member with rfl | rfl | rfl | rfl | rfl | rfl <;> cases blank
  rw [isNeutral, noTag, noDelimiter]
  rfl

/-- The regions of a text in which every character is code. -/
def codeRegions (text : Text) : List Region :=
  text.map fun character => ⟨.code, [character]⟩

theorem textOf_codeRegions (text : Text) : textOf (codeRegions text) = text := by
  induction text with
  | nil => rfl
  | cons character rest ih =>
      rw [codeRegions, List.map_cons, textOf_cons, ← codeRegions, ih]
      rfl

/-- Blanks are regions of code, and what follows them stands alone. -/
theorem lexemesFrom_blanks {blanks : Text}
    (blank : ∀ character ∈ blanks, isBlank character = true) (rest : Text) :
    lexemesFrom 0 false (blanks ++ rest) =
      codeRegions blanks ++ lexemesFrom 0 false rest := by
  induction blanks with
  | nil => rfl
  | cons character others ih =>
      rw [List.forall_mem_cons] at blank
      have neutral := isNeutral_of_isBlank blank.1
      rw [List.cons_append, lexemesFrom_code (special?_of_isNeutral neutral _ _),
        continuesName_of_isNeutral neutral, ih blank.2]
      rfl

theorem startsNeutral_of_blanks {blanks : Text}
    (blank : ∀ character ∈ blanks, isBlank character = true) :
    StartsNeutral blanks := by
  intro character first
  exact isNeutral_of_isBlank (blank character (List.mem_of_mem_head? first))

/-! ## Pieces -/

theorem eq_nil_of_textOf_eq_nil {regions : List Region}
    (nonempty : ∀ region ∈ regions, region.text ≠ [])
    (empty : textOf regions = []) : regions = [] := by
  cases regions with
  | nil => rfl
  | cons region others =>
      rw [textOf_cons, List.append_eq_nil_iff] at empty
      exact absurd empty.1 (nonempty region List.mem_cons_self)

theorem eq_nil_of_textOf_append_eq {regions more : List Region}
    (nonempty : ∀ region ∈ more, region.text ≠ [])
    (same : textOf (regions ++ more) = textOf regions) : more = [] := by
  rw [textOf_append] at same
  exact eq_nil_of_textOf_eq_nil nonempty (List.append_right_eq_self.mp same)

/-- Two starts of one list of regions are equal if their texts are. -/
theorem eq_of_textOf_eq {first second behindFirst behindSecond : List Region}
    (nonempty : ∀ region ∈ first ++ behindFirst, region.text ≠ [])
    (same : first ++ behindFirst = second ++ behindSecond)
    (texts : textOf first = textOf second) : first = second := by
  -- One of the two starts is the other and some more regions.
  rcases List.append_eq_append_iff.mp same with
    ⟨between, rfl, rest⟩ | ⟨between, rfl, rest⟩
  · have gone : between = [] := by
      refine eq_nil_of_textOf_append_eq ?_ texts.symm
      intro region member
      apply nonempty region
      rw [rest]
      exact List.mem_append_right _ (List.mem_append_left _ member)
    rw [gone, List.append_nil]
  · have gone : between = [] := by
      refine eq_nil_of_textOf_append_eq ?_ texts
      intro region member
      apply nonempty region
      exact List.mem_append_left _ (List.mem_append_right _ member)
    rw [gone, List.append_nil]

/-- What stands in front of a mark of code is cut as it is alone. -/
theorem lexemesFrom_of_boundary {afterName : Bool} {mark : Char}
    (neutral : isNeutral mark = true) (noFeed : mark ≠ '\n') {rest : Text}
    {first second : List Region}
    (parts : lexemesFrom 0 afterName (textOf first ++ mark :: rest) =
      first ++ second) : lexemesFrom 0 afterName (textOf first) = first := by
  have settled := settled_of_boundary neutral noFeed parts
  have apart := settled (mark :: rest) (StartsNeutral.of_cons neutral rest)
  refine eq_of_textOf_eq ?_ (apart.symm.trans parts)
    (textOf_lexemesFrom afterName (textOf first))
  intro region member
  rw [← apart] at member
  exact (isLexeme_of_mem_lexemesFrom _ _ region member).1

/-- A piece between semicolons is cut into the same regions on its own. -/
theorem StandsIn.lexemes_textOf_inside {start line : Nat} {script : Text}
    {before inside after : List Region} {placed : PlacedStatement}
    (stands :
      StandsIn start line (lexemes script) placed before inside after) :
    lexemes (textOf inside) = inside := by
  have behind : nameBehind false (textOf before) = false := by
    rcases stands.fromSemicolon with rfl | ⟨others, rfl⟩
    · rfl
    · rw [textOf_append, nameBehind_append]
      rfl
  have alone := lexemesFrom_of_eq_append stands.parts
  rw [behind, textOf_append] at alone
  rcases stands.toSemicolon with rfl | ⟨others, rfl⟩
  · rw [textOf_nil, List.append_nil, List.append_nil] at alone
    exact alone
  · exact lexemesFrom_of_boundary (by decide) (by decide) alone

/-! ## Trimming -/

/-- Regions of which the last may go on behind the end of a text. -/
inductive GoesOn : List Region → List Region → Prop where
  | same (regions : List Region) : GoesOn regions regions
  | last (done : List Region) (kind : RegionKind) (kept more : Text)
      (notCode : kind ≠ .code) (nonempty : kept ≠ []) :
      GoesOn (done ++ [⟨kind, kept⟩]) (done ++ [⟨kind, kept ++ more⟩])

/-- Blanks behind a text let at most its last region go on. -/
theorem exists_goesOn {blanks : Text}
    (blank : ∀ character ∈ blanks, isBlank character = true) (text : Text) :
    ∃ body others, lexemesFrom 0 false (text ++ blanks) = body ++ others ∧
      GoesOn (lexemes text) body := by
  have neutral := startsNeutral_of_blanks blank
  rcases settled_or_leftOpen false text with
    settled | ⟨done, mode, kept, leftOpen⟩
  · exact ⟨_, _, settled blanks neutral, GoesOn.same _⟩
  · obtain ⟨others, followed⟩ := leftOpen.followed blanks neutral
    refine ⟨done ++ [⟨mode.kind, kept ++ mode.remainder blanks⟩], others,
      ?_, ?_⟩
    · rw [followed, List.append_assoc]
      rfl
    · rw [lexemes, leftOpen.alone]
      exact GoesOn.last done mode.kind kept _ leftOpen.opens.kind_ne_code
        leftOpen.kept_ne_nil

theorem GoesOn.forall_not_endsStatement {short long : List Region}
    (goesOn : GoesOn short long)
    (whole : ∀ region ∈ long, endsStatement region = false) :
    ∀ region ∈ short, endsStatement region = false := by
  cases goesOn with
  | same => exact whole
  | last done kind kept more notCode nonempty =>
      rw [List.forall_mem_append] at whole ⊢
      refine ⟨whole.1, ?_⟩
      rw [List.forall_mem_singleton]
      simp [endsStatement, notCode]

theorem GoesOn.byteSize_le {short long : List Region}
    (goesOn : GoesOn short long) :
    byteSize (textOf short) ≤ byteSize (textOf long) := by
  cases goesOn with
  | same => exact Nat.le_refl _
  | last done kind kept more notCode nonempty =>
      simp only [textOf_append, textOf_cons, textOf_nil, byteSize_append]
      omega

/-! ## Windows -/

theorem filterMap_clip?_before {first last start : Nat}
    {regions : List Region}
    (before : start + byteSize (textOf regions) ≤ first) :
    (stretchesFrom start regions).filterMap (Stretch.clip? first last) =
      [] := by
  induction regions generalizing start with
  | nil => rfl
  | cons region others ih =>
      rw [textOf_cons, byteSize_append] at before
      have apart : ¬ Stretch.Meets first last
          ⟨region.kind, start, start + byteSize region.text⟩ := by
        rw [Stretch.Meets]
        dsimp only
        omega
      rw [stretchesFrom_cons,
        List.filterMap_cons_none (Stretch.clip?_of_not_meets apart)]
      exact ih (by omega)

theorem filterMap_clip?_inside (first start : Nat) {last : Nat}
    {regions : List Region}
    (nonempty : ∀ region ∈ regions, region.text ≠ [])
    (inside : first + start + byteSize (textOf regions) ≤ last) :
    (stretchesFrom (first + start) regions).filterMap
        (Stretch.clip? first last) =
      stretchesFrom start regions := by
  induction regions generalizing start with
  | nil => rfl
  | cons region others ih =>
      rw [List.forall_mem_cons] at nonempty
      rw [textOf_cons, byteSize_append] at inside
      have positive := byteSize_pos nonempty.1
      have meets : Stretch.Meets first last
          ⟨region.kind, first + start,
            first + start + byteSize region.text⟩ := by
        rw [Stretch.Meets]
        dsimp only
        omega
      rw [stretchesFrom_cons, stretchesFrom_cons,
        List.filterMap_cons_some (Stretch.clip?_of_meets meets),
        Nat.add_assoc, ih _ nonempty.2 (by omega)]
      congr 2
      · dsimp only
        omega
      · dsimp only
        omega

/-- A window cuts regions that go on behind it to those that do not. -/
theorem GoesOn.filterMap_clip? {short long : List Region}
    (goesOn : GoesOn short long)
    (nonempty : ∀ region ∈ short, region.text ≠ []) (first : Nat) :
    (stretchesFrom first long).filterMap
        (Stretch.clip? first (first + byteSize (textOf short))) =
      stretchesFrom 0 short := by
  cases goesOn with
  | same => exact filterMap_clip?_inside first 0 nonempty (Nat.le_refl _)
  | last done kind kept more notCode keptSome =>
      have positive := byteSize_pos keptSome
      rw [List.forall_mem_append] at nonempty
      have size : byteSize (textOf (done ++ [⟨kind, kept⟩])) =
          byteSize (textOf done) + byteSize kept := by
        simp
      rw [size, stretchesFrom_append, List.filterMap_append,
        stretchesFrom_append 0]
      congr 1
      · exact filterMap_clip?_inside first 0 nonempty.1 (by omega)
      · have meets : Stretch.Meets first
            (first + (byteSize (textOf done) + byteSize kept))
            ⟨kind, first + byteSize (textOf done),
              first + byteSize (textOf done) + byteSize (kept ++ more)⟩ := by
          rw [Stretch.Meets, byteSize_append]
          dsimp only
          omega
        rw [stretchesFrom_cons,
          List.filterMap_cons_some (Stretch.clip?_of_meets meets),
          stretchesFrom_cons, byteSize_append]
        have begins : max first (first + byteSize (textOf done)) - first =
            0 + byteSize (textOf done) := by
          omega
        have ends : min (first + (byteSize (textOf done) + byteSize kept))
            (first + byteSize (textOf done) +
              (byteSize kept + byteSize more)) - first =
            0 + byteSize (textOf done) + byteSize kept := by
          omega
        rw [begins, ends]
        rfl

/-! ## Statements -/

/-- The smallest regions of a script around those of one of its statements. -/
structure Frames (script : Text) (placed : PlacedStatement)
    (before body after : List Region) : Prop where
  parts : lexemes script = before ++ (body ++ after)
  start_eq : placed.start = byteSize (textOf before)
  goesOn : GoesOn (lexemes placed.text) body
  whole : ∀ region ∈ body, endsStatement region = false

theorem exists_frames {script : Text} {placed : PlacedStatement}
    (member : placed ∈ placedStatements script) :
    ∃ before body after, Frames script placed before body after := by
  obtain ⟨before, inside, after, stands⟩ := exists_standsIn member
  have alone := stands.lexemes_textOf_inside
  generalize leads : leadingBlanks (textOf inside) = leading
  generalize trails : trailingBlanks (textOf inside) = trailing
  have blankLeading : ∀ character ∈ leading, isBlank character = true := by
    rw [← leads]
    exact fun character => isBlank_of_mem_leadingBlanks
  have blankTrailing : ∀ character ∈ trailing, isBlank character = true := by
    rw [← trails]
    exact fun character => isBlank_of_mem_trailingBlanks
  obtain ⟨body, others, cut, goesOn⟩ :=
    exists_goesOn blankTrailing placed.text
  have pieces : inside = codeRegions leading ++ (body ++ others) := by
    rw [← cut, ← lexemesFrom_blanks blankLeading, stands.text_eq, ← leads,
      ← trails, leading_trim_trailing]
    exact alone.symm
  refine ⟨before ++ codeRegions leading, body, others ++ after, ?_⟩
  exact {
    parts := by
      rw [stands.parts, pieces]
      simp only [List.append_assoc]
    start_eq := by
      rw [stands.start_eq, leads, textOf_append, textOf_codeRegions,
        Nat.zero_add]
    goesOn := goesOn
    whole := by
      intro region known
      apply stands.whole region
      rw [pieces]
      exact List.mem_append_right _ (List.mem_append_left _ known) }

/-- A statement alone has the regions of its script inside of its window. -/
theorem Frames.map_stretch_spans {script : Text} {placed : PlacedStatement}
    {before body after : List Region}
    (frames : Frames script placed before body after) :
    (spans placed.text).map Span.stretch =
      ((spans script).map Span.stretch).filterMap
        (Stretch.clip? placed.start placed.stop) := by
  have nonempty : ∀ region ∈ lexemes script, region.text ≠ [] :=
    fun region known => (isLexeme_of_mem_lexemes known).1
  have nonemptyAlone : ∀ region ∈ lexemes placed.text, region.text ≠ [] :=
    fun region known => (isLexeme_of_mem_lexemes known).1
  have stop : placed.stop =
      placed.start + byteSize (textOf (lexemes placed.text)) := by
    rw [textOf_lexemes]
    rfl
  have window := frames.goesOn.filterMap_clip? nonemptyAlone placed.start
  rw [← stop] at window
  have longer := frames.goesOn.byteSize_le
  rw [Lexical.map_stretch_spans, Lexical.map_stretch_spans,
    Stretch.filterMap_clip?_foldr_join
      (consecutive_stretchesFrom nonempty 0)]
  congr 1
  rw [frames.parts] at nonempty
  rw [frames.parts, stretchesFrom_append, stretchesFrom_append,
    List.filterMap_append, List.filterMap_append, Nat.zero_add,
    ← frames.start_eq, window]
  have nothingBefore : (stretchesFrom 0 before).filterMap
      (Stretch.clip? placed.start placed.stop) = [] :=
    filterMap_clip?_before (by rw [frames.start_eq]; omega)
  have nothingBehind :
      (stretchesFrom (placed.start + byteSize (textOf body)) after).filterMap
        (Stretch.clip? placed.start placed.stop) = [] := by
    refine (consecutive_stretchesFrom ?_ _).filterMap_clip?_eq_nil ?_
    · intro region known
      apply nonempty region
      exact List.mem_append_right _ (List.mem_append_right _ known)
    · omega
  rw [nothingBefore, nothingBehind, List.nil_append, List.append_nil]

/-- The statements of a trimmed text without semicolons of code. -/
theorem statements_of_whole {text : Text} (nonempty : text ≠ [])
    (trimmed : trim text = text)
    (whole : ∀ region ∈ lexemes text, endsStatement region = false) :
    statements text = [⟨1, text⟩] := by
  have pieces : statementTexts text = [text] := by
    rw [statementTexts, piecesAt_of_forall whole]
    exact congrArg (fun single => [single]) (textOf_lexemes text)
  have noBlanks : text.takeWhile isBlank = [] := by
    have leading := leadingBlanks_trim text
    rw [trimmed] at leading
    exact leading
  have visible : ¬ text.isEmpty = true := by
    rw [List.isEmpty_iff]
    exact nonempty
  rw [statements, pieces, numberStatements, trimmed, noBlanks,
    if_neg visible]
  rfl

/--
A statement is a slice of its script, and scanned on its own it has the
regions that the scan of the script has there: it is one statement again, on
the first line.
-/
theorem statements_scan_alone (script : Text) :
    (placedStatements script).map PlacedStatement.toStatement =
        statements script ∧
      ∀ placed ∈ placedStatements script,
        slice? placed.start placed.stop script = some placed.text ∧
        (spans placed.text).map Span.stretch =
          ((spans script).map Span.stretch).filterMap
            (Stretch.clip? placed.start placed.stop) ∧
        statements placed.text = [⟨1, placed.text⟩] := by
  refine ⟨map_toStatement_placedStatements script, ?_⟩
  intro placed member
  obtain ⟨before, body, after, frames⟩ := exists_frames member
  obtain ⟨nonempty, trimmed⟩ :=
    (partsInto_placedStatements script).trimmed placed member
  refine ⟨slice?_of_mem_placedStatements member, frames.map_stretch_spans,
    statements_of_whole nonempty trimmed ?_⟩
  exact frames.goesOn.forall_not_endsStatement frames.whole

/-- The last statement has a literal that is still open at the end. -/
theorem statements_scan_alone_open_literal :
    let script : Text := "a;\n'b ; "
    let placed : PlacedStatement := ⟨⟨2, "'b ;"⟩, 3⟩
    placed ∈ placedStatements script ∧
      slice? placed.start placed.stop script = some placed.text ∧
      (spans placed.text).map Span.stretch =
        ((spans script).map Span.stretch).filterMap
          (Stretch.clip? placed.start placed.stop) ∧
      statements placed.text = [⟨1, placed.text⟩] := by
  intro script placed
  have member : placed ∈ placedStatements script := by decide +kernel
  exact ⟨member, (statements_scan_alone script).2 placed member⟩

end Lexical

end Snowform
