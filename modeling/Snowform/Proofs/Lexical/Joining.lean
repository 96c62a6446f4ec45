import Snowform.Proofs.Lexical.Lexemes

/-!
# Texts put together

What a text is cut into does not depend on what follows it, as long as that
starts with a character which neither opens, closes nor continues anything.
Such a character is neutral; blanks, parentheses and the semicolon are.

A text can be left in two ways.  Either it is settled, and what follows is cut
as if it stood alone, or its last region is left open and takes in what
follows up to the end of its mode.  A neutral character of code settles the
text before it.
-/

namespace Snowform

open Text

namespace Lexical

/-- Characters that neither open, close nor continue anything. -/
def isNeutral (character : Char) : Bool :=
  !(isTagCharacter character ||
    ['\'', '"', '-', '*', '/', '$'].contains character)

/-- A text that is empty or starts with a neutral character. -/
def StartsNeutral (text : Text) : Prop :=
  ∀ character ∈ text.head?, isNeutral character = true

theorem startsNeutral_nil : StartsNeutral [] := by
  intro character first
  cases first

theorem StartsNeutral.of_cons {character : Char}
    (neutral : isNeutral character = true) (rest : Text) :
    StartsNeutral (character :: rest) := by
  intro first same
  cases same
  exact neutral

theorem startsNeutral_semicolon (rest : Text) :
    StartsNeutral (';' :: rest) :=
  StartsNeutral.of_cons (by decide) rest

theorem StartsNeutral.head_ne {rest : Text} (neutral : StartsNeutral rest)
    {character : Char} (loud : isNeutral character = false) :
    rest.head? ≠ some character := by
  intro first
  rw [neutral character first] at loud
  cases loud

/-! ## Searches -/

/--
A pattern without neutral characters does not reach from a text into what
follows.
-/
theorem prefix_append_iff {pattern rest : Text}
    (loud : ∀ character ∈ pattern, isNeutral character = false)
    (neutral : StartsNeutral rest) (text : Text) :
    pattern <+: text ++ rest ↔ pattern <+: text := by
  constructor
  · intro starts
    induction pattern generalizing text with
    | nil => exact List.nil_prefix
    | cons letter letters ih =>
        rw [List.forall_mem_cons] at loud
        cases text with
        | nil =>
            obtain ⟨others, whole⟩ := starts
            rw [List.nil_append] at whole
            have first : rest.head? = some letter := by
              rw [← whole]
              rfl
            exact absurd first (neutral.head_ne loud.1)
        | cons character others =>
            rw [List.cons_append, List.cons_prefix_cons] at starts
            rw [List.cons_prefix_cons]
            exact ⟨starts.1, ih loud.2 others starts.2⟩
  · intro starts
    exact starts.trans (List.prefix_append text rest)

/-- A search that ends inside of a text, whatever follows. -/
def EndsIn (search : Text → Text) (text : Text) : Prop :=
  ∃ found, ∀ rest, StartsNeutral rest → search (text ++ rest) = found

/-- A search that takes in a whole text and goes on in what follows. -/
def GoesThrough (search : Text → Text) (text : Text) : Prop :=
  ∀ rest, StartsNeutral rest → search (text ++ rest) = text ++ search rest

/-- A part that a search passes over does not change how the search goes. -/
theorem endsIn_or_goesThrough_append {search : Text → Text}
    (part : Text) {text : Text}
    (passes : ∀ rest, StartsNeutral rest →
      search (part ++ (text ++ rest)) = part ++ search (text ++ rest))
    (behind : EndsIn search text ∨ GoesThrough search text) :
    EndsIn search (part ++ text) ∨ GoesThrough search (part ++ text) := by
  rcases behind with ⟨found, ends⟩ | goes
  · refine Or.inl ⟨part ++ found, ?_⟩
    intro rest neutral
    rw [List.append_assoc, passes rest neutral, ends rest neutral]
  · refine Or.inr ?_
    intro rest neutral
    rw [List.append_assoc, passes rest neutral, goes rest neutral,
      List.append_assoc]

theorem upThrough_append {pattern : Text}
    (loud : ∀ character ∈ pattern, isNeutral character = false)
    (text : Text) :
    EndsIn (upThrough pattern) text ∨ GoesThrough (upThrough pattern) text := by
  induction text with
  | nil => exact Or.inr fun rest _ => rfl
  | cons character others ih =>
      by_cases here : pattern <+: character :: others
      · refine Or.inl ⟨pattern, ?_⟩
        intro rest neutral
        have starts := (prefix_append_iff loud neutral _).mpr here
        rw [List.cons_append] at starts ⊢
        rw [upThrough, if_pos (List.isPrefixOf_iff_prefix.mpr starts)]
      · refine endsIn_or_goesThrough_append [character] ?_ ih
        intro rest neutral
        have notHere : ¬ pattern.isPrefixOf
            (character :: (others ++ rest)) = true := by
          rw [List.isPrefixOf_iff_prefix, ← List.cons_append,
            prefix_append_iff loud neutral]
          exact here
        rw [List.singleton_append, upThrough, if_neg notHere]
        rfl

theorem quotedRest_append {quote : Char} (loud : isNeutral quote = false)
    (text : Text) :
    EndsIn (quotedRest quote) text ∨ GoesThrough (quotedRest quote) text := by
  induction text using quotedInduction quote with
  | nil => exact Or.inr fun rest _ => rfl
  | other character others differs ih =>
      refine endsIn_or_goesThrough_append [character] ?_ ih
      intro rest neutral
      exact quotedRest_of_ne differs _
  | doubled others ih =>
      refine endsIn_or_goesThrough_append [quote, quote] ?_ ih
      intro rest neutral
      exact quotedRest_doubled _ _
  | closed others single =>
      refine Or.inl ⟨[quote], ?_⟩
      intro rest neutral
      have stillSingle : (others ++ rest).head? ≠ some quote := by
        cases others with
        | nil => exact neutral.head_ne loud
        | cons next others => exact single
      rw [List.cons_append, quotedRest_closed stillSingle]

/-- A tag is told from the text in front of a neutral character. -/
theorem tag?_append {rest : Text} (neutral : StartsNeutral rest)
    (text : Text) : Mode.tag? (text ++ rest) = Mode.tag? text := by
  induction text with
  | nil =>
      cases rest with
      | nil => rfl
      | cons character others =>
          have quiet : isNeutral character = true := neutral character rfl
          have notDollar : character ≠ '$' := by
            rintro rfl
            cases quiet
          have noTag : ¬ isTagCharacter character = true := by
            intro tagged
            simp [isNeutral, tagged] at quiet
          simp [Mode.tag?, notDollar, noTag]
  | cons character others ih =>
      rw [List.cons_append, Mode.tag?, Mode.tag?, ih]

end Lexical

/-! ## Modes -/

namespace Mode

open Lexical

/-- A marker has no neutral characters. -/
theorem isNeutral_of_mem_marker {tag : Text}
    (tagged : ∀ character ∈ tag, isTagCharacter character = true) :
    ∀ character ∈ opening (.dollarQuote tag),
      isNeutral character = false := by
  intro character member
  have cases : character = '$' ∨ character ∈ tag := by
    simpa [opening, or_comm, or_assoc] using member
  rcases cases with rfl | inside
  · decide
  · simp [isNeutral, tagged character inside]

/-- An open region ends in the text or goes through all of it. -/
theorem Opens.endsIn_or_goesThrough {mode : Mode} (opens : mode.Opens)
    (text : Text) :
    EndsIn mode.remainder text ∨ GoesThrough mode.remainder text := by
  cases mode with
  | code => exact opens.elim
  | singleQuote => exact quotedRest_append (by decide) text
  | doubleQuote => exact quotedRest_append (by decide) text
  | lineComment =>
      by_cases whole : (text.takeWhile (· != '\n')).length = text.length
      · refine Or.inr ?_
        intro rest neutral
        rw [remainder, List.takeWhile_append, if_pos whole]
        rfl
      · refine Or.inl ⟨text.takeWhile (· != '\n'), ?_⟩
        intro rest neutral
        rw [remainder, List.takeWhile_append, if_neg whole]
  | blockComment =>
      have loud : ∀ character ∈ (['*', '/'] : Text),
          isNeutral character = false := by
        rw [List.forall_mem_cons, List.forall_mem_singleton]
        decide
      exact upThrough_append loud text
  | dollarQuote tag =>
      exact upThrough_append (isNeutral_of_mem_marker opens) text

/-- Apart from markers the first two characters tell what is opened. -/
theorem openedBy?_cons {first : Char} (noDollar : first ≠ '$')
    (afterName : Bool) (rest : Text) :
    openedBy? afterName (first :: rest) =
      if first = '\'' then some .singleQuote
      else if first = '"' then some .doubleQuote
      else if first = '-' ∧ rest.head? = some '-' then some .lineComment
      else if first = '/' ∧ rest.head? = some '*' then some .blockComment
      else none := by
  by_cases single : first = '\''
  · subst first
    rfl
  by_cases double : first = '"'
  · subst first
    rfl
  rw [if_neg single, if_neg double]
  by_cases line : first = '-' ∧ rest.head? = some '-'
  · obtain ⟨rfl, second⟩ := line
    obtain ⟨others, rfl⟩ := List.head?_eq_some_iff.mp second
    rfl
  by_cases block : first = '/' ∧ rest.head? = some '*'
  · obtain ⟨rfl, second⟩ := block
    obtain ⟨others, rfl⟩ := List.head?_eq_some_iff.mp second
    rfl
  rw [if_neg line, if_neg block, openedBy?.eq_def]
  split <;> simp_all

theorem openedBy?_append {text rest : Text} (nonempty : text ≠ [])
    (neutral : StartsNeutral rest) (afterName : Bool) :
    openedBy? afterName (text ++ rest) = openedBy? afterName text := by
  cases text with
  | nil => exact absurd rfl nonempty
  | cons first others =>
      rw [List.cons_append]
      by_cases dollar : first = '$'
      · subst first
        rw [openedBy?, openedBy?, tag?_append neutral]
      · rw [openedBy?_cons dollar, openedBy?_cons dollar]
        cases others with
        | nil =>
            have noDash : rest.head? ≠ some '-' :=
              neutral.head_ne (by decide)
            have noStar : rest.head? ≠ some '*' :=
              neutral.head_ne (by decide)
            simp [noDash, noStar]
        | cons second others => rfl

end Mode

namespace Lexical

/-! ## Regions -/

/--
At the start of a text there is no region other than code, or one that ends
inside of the text, or one that is left open.
-/
theorem special?_append (afterName : Bool) {text : Text}
    (nonempty : text ≠ []) :
    (∀ rest, StartsNeutral rest → special? afterName (text ++ rest) = none) ∨
    (∃ region, ∀ rest, StartsNeutral rest →
      special? afterName (text ++ rest) = some region) ∨
    ∃ mode : Mode, mode.Opens ∧ ∀ rest, StartsNeutral rest →
      special? afterName (text ++ rest) =
        some ⟨mode.kind, text ++ mode.remainder rest⟩ := by
  have same : ∀ rest, StartsNeutral rest →
      special? afterName (text ++ rest) =
        (Mode.openedBy? afterName text).map fun mode =>
          mode.region (text ++ rest) := by
    intro rest neutral
    rw [special?_eq, Mode.openedBy?_append nonempty neutral]
  cases opened : Mode.openedBy? afterName text with
  | none =>
      refine Or.inl ?_
      intro rest neutral
      rw [same rest neutral, opened]
      rfl
  | some mode =>
      obtain ⟨opens, inside, rfl⟩ := Mode.openedBy?_spec opened
      have found : ∀ rest, StartsNeutral rest →
          special? afterName (mode.opening ++ inside ++ rest) =
            some ⟨mode.kind,
              mode.opening ++ mode.remainder (inside ++ rest)⟩ := by
        intro rest neutral
        rw [same rest neutral, opened, Option.map_some, Mode.region,
          List.append_assoc, List.drop_left]
      rcases opens.endsIn_or_goesThrough inside with
        ⟨ending, closes⟩ | stays
      · refine Or.inr (Or.inl ⟨⟨mode.kind, mode.opening ++ ending⟩, ?_⟩)
        intro rest neutral
        rw [found rest neutral, closes rest neutral]
      · refine Or.inr (Or.inr ⟨mode, opens, ?_⟩)
        intro rest neutral
        rw [found rest neutral, stays rest neutral, List.append_assoc]

theorem special?_of_isNeutral {character : Char}
    (neutral : isNeutral character = true) (afterName : Bool) (rest : Text) :
    special? afterName (character :: rest) = none := by
  have noDollar : character ≠ '$' := by
    rintro rfl
    cases neutral
  have others : character ≠ '\'' ∧ character ≠ '"' ∧ character ≠ '-' ∧
      character ≠ '/' := by
    refine ⟨?_, ?_, ?_, ?_⟩ <;>
      · rintro rfl
        cases neutral
  rw [special?_eq, Mode.openedBy?_cons noDollar]
  simp [others]

theorem continuesName_of_isNeutral {character : Char}
    (neutral : isNeutral character = true) :
    continuesName character = false := by
  simp_all [isNeutral, continuesName]

/-! ## Texts -/

/-- What follows a text is cut as if it stood alone. -/
def Settled (afterName : Bool) (text : Text) : Prop :=
  ∀ rest, StartsNeutral rest →
    lexemesFrom 0 afterName (text ++ rest) =
      lexemesFrom 0 afterName text ++
        lexemesFrom 0 (nameBehind afterName text) rest

/--
The regions of a text are some that are done and a last one that takes in
what follows up to the end of its mode.
-/
structure LeftOpen (afterName : Bool) (text : Text) (done : List Region)
    (mode : Mode) (kept : Text) : Prop where
  opens : mode.Opens
  kept_ne_nil : kept ≠ []
  alone : lexemesFrom 0 afterName text = done ++ [⟨mode.kind, kept⟩]
  followed : ∀ rest, StartsNeutral rest →
    ∃ others, lexemesFrom 0 afterName (text ++ rest) =
      done ++ ⟨mode.kind, kept ++ mode.remainder rest⟩ :: others

theorem settled_nil (afterName : Bool) : Settled afterName [] := by
  intro rest neutral
  rfl

/-- A region in front of a text does not change how the text is left. -/
theorem Settled.cons {before after : Bool} (region : Region) {text : Text}
    (step : ∀ rest, StartsNeutral rest →
      lexemesFrom 0 before (region.text ++ (text ++ rest)) =
        region :: lexemesFrom 0 after (text ++ rest))
    (behind : nameBehind before region.text = after)
    (settled : Settled after text) : Settled before (region.text ++ text) := by
  intro rest neutral
  have alone := step [] startsNeutral_nil
  rw [List.append_nil] at alone
  rw [List.append_assoc, step rest neutral, settled rest neutral, alone,
    nameBehind_append, behind]
  rfl

/-- A region in front of a text that is left open leaves it open. -/
theorem LeftOpen.cons {before after : Bool} (region : Region)
    {text kept : Text} {done : List Region} {mode : Mode}
    (step : ∀ rest, StartsNeutral rest →
      lexemesFrom 0 before (region.text ++ (text ++ rest)) =
        region :: lexemesFrom 0 after (text ++ rest))
    (leftOpen : LeftOpen after text done mode kept) :
    LeftOpen before (region.text ++ text) (region :: done) mode kept where
  opens := leftOpen.opens
  kept_ne_nil := leftOpen.kept_ne_nil
  alone := by
    have alone := step [] startsNeutral_nil
    rw [List.append_nil] at alone
    rw [alone, leftOpen.alone]
    rfl
  followed := by
    intro rest neutral
    obtain ⟨others, followed⟩ := leftOpen.followed rest neutral
    refine ⟨others, ?_⟩
    rw [List.append_assoc, step rest neutral, followed]
    rfl

theorem settled_or_leftOpen_cons {before after : Bool} (region : Region)
    {text : Text}
    (step : ∀ rest, StartsNeutral rest →
      lexemesFrom 0 before (region.text ++ (text ++ rest)) =
        region :: lexemesFrom 0 after (text ++ rest))
    (behind : nameBehind before region.text = after)
    (ends : Settled after text ∨
      ∃ done mode kept, LeftOpen after text done mode kept) :
    Settled before (region.text ++ text) ∨
      ∃ done mode kept,
        LeftOpen before (region.text ++ text) done mode kept := by
  rcases ends with settled | ⟨done, mode, kept, leftOpen⟩
  · exact Or.inl (settled.cons region step behind)
  · exact Or.inr ⟨region :: done, mode, kept, leftOpen.cons region step⟩

/-- A text that is all of one open region. -/
theorem LeftOpen.of_stays {afterName : Bool} {text : Text} {mode : Mode}
    (nonempty : text ≠ []) (opens : mode.Opens)
    (stays : ∀ rest, StartsNeutral rest →
      special? afterName (text ++ rest) =
        some ⟨mode.kind, text ++ mode.remainder rest⟩) :
    LeftOpen afterName text [] mode text where
  opens := opens
  kept_ne_nil := nonempty
  alone := by
    have found := stays [] startsNeutral_nil
    rw [Mode.remainder_nil, List.append_nil text] at found
    have whole := @lexemesFrom_special afterName ⟨mode.kind, text⟩ []
      (by simpa using found)
    rw [List.append_nil] at whole
    exact whole
  followed := by
    intro rest neutral
    have found := stays rest neutral
    obtain ⟨others, parts⟩ := mode.remainder_prefix rest
    have same : text ++ mode.remainder rest ++ others = text ++ rest := by
      rw [List.append_assoc, parts]
    rw [← same] at found ⊢
    exact ⟨_, @lexemesFrom_special afterName
      ⟨mode.kind, text ++ mode.remainder rest⟩ others found⟩

/-- A text is settled, or its last region is left open. -/
theorem settled_or_leftOpen (afterName : Bool) (text : Text) :
    Settled afterName text ∨
      ∃ done mode kept, LeftOpen afterName text done mode kept := by
  -- Every region is settled or takes in all of the text behind it.
  induction afterName, text using lexemeInduction with
  | nil afterName => exact Or.inl (settled_nil afterName)
  | special afterName region rest found ih =>
      have nonempty : region.text ++ rest ≠ [] :=
        List.append_ne_nil_of_left_ne_nil (special?_spec found).2.1 rest
      have alone : special? afterName (region.text ++ rest ++ []) =
          some region := by
        rw [List.append_nil]
        exact found
      rcases special?_append afterName nonempty with
        absent | ⟨same, closes⟩ | ⟨mode, opens, stays⟩
      · rw [absent [] startsNeutral_nil] at alone
        cases alone
      · have equal : same = region := by
          rw [closes [] startsNeutral_nil] at alone
          exact Option.some.inj alone
        subst equal
        have step : ∀ following, StartsNeutral following →
            lexemesFrom 0 afterName (same.text ++ (rest ++ following)) =
              same :: lexemesFrom 0 (nameBehind afterName same.text)
                (rest ++ following) := by
          intro following neutral
          have again := closes following neutral
          rw [List.append_assoc] at again
          exact lexemesFrom_special again
        exact settled_or_leftOpen_cons same step rfl ih
      · exact Or.inr ⟨[], mode, _, LeftOpen.of_stays nonempty opens stays⟩
  | code afterName character rest absent ih =>
      have alone : special? afterName (character :: rest ++ []) = none := by
        rw [List.append_nil]
        exact absent
      rcases special?_append afterName (List.cons_ne_nil character rest) with
        never | ⟨region, closes⟩ | ⟨mode, opens, stays⟩
      · have step : ∀ following, StartsNeutral following →
            lexemesFrom 0 afterName ([character] ++ (rest ++ following)) =
              ⟨.code, [character]⟩ ::
                lexemesFrom 0 (continuesName character)
                  (rest ++ following) := by
          intro following neutral
          exact lexemesFrom_code (never following neutral)
        exact settled_or_leftOpen_cons ⟨.code, [character]⟩ step rfl ih
      · rw [closes [] startsNeutral_nil] at alone
        cases alone
      · rw [stays [] startsNeutral_nil] at alone
        cases alone

/-- What is done and what is kept are the text. -/
theorem LeftOpen.textOf_done {afterName : Bool} {text kept : Text}
    {done : List Region} {mode : Mode}
    (leftOpen : LeftOpen afterName text done mode kept) :
    textOf done ++ kept = text := by
  rw [← textOf_lexemesFrom afterName text, leftOpen.alone]
  simp

/-! ## Neutral characters of code -/

theorem remainder_ne_nil {mode : Mode} (opens : mode.Opens) {mark : Char}
    (neutral : isNeutral mark = true) (noFeed : mark ≠ '\n') (rest : Text) :
    mode.remainder (mark :: rest) ≠ [] := by
  have other : ∀ quote : Char, isNeutral quote = false → mark ≠ quote := by
    rintro quote loud rfl
    rw [neutral] at loud
    cases loud
  have searched : ∀ pattern : Text, pattern ≠ [] →
      upThrough pattern (mark :: rest) ≠ [] := by
    intro pattern nonempty
    rw [upThrough]
    split
    · exact nonempty
    · exact List.cons_ne_nil _ _
  cases mode with
  | code => exact opens.elim
  | singleQuote =>
      rw [Mode.remainder, quotedRest_of_ne (other _ (by decide))]
      exact List.cons_ne_nil _ _
  | doubleQuote =>
      rw [Mode.remainder, quotedRest_of_ne (other _ (by decide))]
      exact List.cons_ne_nil _ _
  | lineComment => simp [Mode.remainder, noFeed]
  | blockComment => exact searched _ (List.cons_ne_nil _ _)
  | dollarQuote tag => exact searched _ (List.cons_ne_nil _ _)

/-- A text is settled if a neutral character behind it is a new region. -/
theorem settled_of_boundary {afterName : Bool} {mark : Char}
    (neutral : isNeutral mark = true) (noFeed : mark ≠ '\n') {rest : Text}
    {first second : List Region}
    (parts : lexemesFrom 0 afterName (textOf first ++ mark :: rest) =
      first ++ second) : Settled afterName (textOf first) := by
  rcases settled_or_leftOpen afterName (textOf first) with
    settled | ⟨done, mode, kept, leftOpen⟩
  · exact settled
  obtain ⟨others, followed⟩ :=
    leftOpen.followed (mark :: rest) (StartsNeutral.of_cons neutral rest)
  have kept_ne_nil := leftOpen.kept_ne_nil
  have taken := remainder_ne_nil leftOpen.opens neutral noFeed rest
  have whole := leftOpen.textOf_done
  rw [parts] at followed
  -- The open region would lie on both sides of the boundary.
  rcases List.append_eq_append_iff.mp followed with
    ⟨between, equal, -⟩ | ⟨between, equal, tail⟩
  · rw [equal, textOf_append] at whole
    simp_all
  · cases between with
    | nil =>
        rw [List.append_nil] at equal
        rw [equal] at whole
        simp_all
    | cons region between =>
        obtain ⟨rfl, -⟩ := List.cons.inj tail
        rw [equal] at whole
        simp_all

end Lexical

end Snowform
