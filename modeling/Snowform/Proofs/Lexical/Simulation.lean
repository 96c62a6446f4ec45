import Snowform.Proofs.Lexical.Regions

/-!
# The automaton follows the regions

The automaton never looks for an end, the scan never goes character by
character.  They agree because the remainder of every mode is exactly what
the automaton reads before it comes back to code.

`kindsFrom_of_read` is a step of the automaton, `Opens.runsThrough` its run
through one region, and `kinds_eq_painted` its run through a script.
-/

namespace Snowform

open Text Lexical

namespace Mode

/-- The character behind a place that follows a text. -/
def behindOf (behind : Option Char) (text : Text) : Option Char :=
  text.foldl (fun _ character => some character) behind

@[simp]
theorem behindOf_nil (behind : Option Char) : behindOf behind [] = behind :=
  rfl

@[simp]
theorem behindOf_cons (behind : Option Char) (character : Char)
    (rest : Text) :
    behindOf behind (character :: rest) = behindOf (some character) rest :=
  rfl

@[simp]
theorem behindOf_append (behind : Option Char) (first second : Text) :
    behindOf behind (first ++ second) =
      behindOf (behindOf behind first) second := by
  simp [behindOf]

/-- What is behind continues a name for both readers alike. -/
theorem any_behindOf (behind : Option Char) (text : Text) :
    (behindOf behind text).any continuesName =
      nameBehind (behind.any continuesName) text := by
  induction text generalizing behind with
  | nil => rfl
  | cons character rest ih => exact ih (some character)

/-! ## Steps -/

theorem kindsFrom_length (covered : Text) (kind : RegionKind) (mode : Mode)
    (behind : Option Char) (rest : Text) :
    kindsFrom covered.length kind mode behind (covered ++ rest) =
      List.replicate covered.length kind ++
        kindsFrom 0 kind mode (behindOf behind covered) rest := by
  induction covered generalizing behind with
  | nil => rfl
  | cons character others ih =>
      rw [List.length_cons, List.cons_append, kindsFrom, ih,
        List.replicate_succ]
      rfl

/-- One reading of the automaton passes over a part of the text. -/
theorem kindsFrom_of_read {mode after : Mode} {kind : RegionKind}
    {behind : Option Char} {part : Text} (rest : Text)
    (nonempty : part ≠ [])
    (reads : mode.read behind (part ++ rest) =
      (kind, part.length - 1, after))
    (earlier : RegionKind) :
    kindsFrom 0 earlier mode behind (part ++ rest) =
      List.replicate part.length kind ++
        kindsFrom 0 kind after (behindOf behind part) rest := by
  cases part with
  | nil => exact absurd rfl nonempty
  | cons character others =>
      rw [List.cons_append] at reads ⊢
      rw [kindsFrom, reads]
      simp only [List.length_cons, Nat.add_sub_cancel]
      rw [kindsFrom_length]
      rfl

/-- When nothing is held, what was held before does not matter. -/
theorem kindsFrom_zero (first second : RegionKind) (mode : Mode)
    (behind : Option Char) (text : Text) :
    kindsFrom 0 first mode behind text =
      kindsFrom 0 second mode behind text := by
  cases text <;> rfl

/-! ## Runs through one region -/

/--
From inside of a mode the automaton gives its kind to the remainder and goes
on in code behind it.
-/
def RunsThrough (mode : Mode) (text : Text) : Prop :=
  ∀ (earlier : RegionKind) (behind : Option Char),
    kindsFrom 0 earlier mode behind text =
      List.replicate (mode.remainder text).length mode.kind ++
        kindsFrom 0 .code .code (behindOf behind (mode.remainder text))
          (text.drop (mode.remainder text).length)

theorem runsThrough_nil (mode : Mode) : mode.RunsThrough [] := by
  intro earlier behind
  rw [remainder_nil]
  rfl

/-- The automaton stays in its mode over a part of the remainder. -/
theorem RunsThrough.of_stay {mode : Mode} {part rest : Text}
    (nonempty : part ≠ [])
    (reads : ∀ behind, mode.read behind (part ++ rest) =
      (mode.kind, part.length - 1, mode))
    (stays : mode.remainder (part ++ rest) = part ++ mode.remainder rest)
    (runs : mode.RunsThrough rest) : mode.RunsThrough (part ++ rest) := by
  intro earlier behind
  rw [kindsFrom_of_read rest nonempty (reads behind), runs, stays,
    List.length_append, List.replicate_add, List.append_assoc,
    behindOf_append, List.drop_length_add_append]

/-- The automaton leaves its mode behind the last part of the remainder. -/
theorem RunsThrough.of_leave {mode : Mode} {part rest : Text}
    (nonempty : part ≠ [])
    (reads : ∀ behind, mode.read behind (part ++ rest) =
      (mode.kind, part.length - 1, .code))
    (leaves : mode.remainder (part ++ rest) = part) :
    mode.RunsThrough (part ++ rest) := by
  intro earlier behind
  rw [kindsFrom_of_read rest nonempty (reads behind), leaves, List.drop_left,
    kindsFrom_zero mode.kind .code]

/-- A mode that a quote closes unless it is doubled. -/
theorem runsThrough_quoted {mode : Mode} {quote : Char}
    (remains : ∀ text, mode.remainder text = quotedRest quote text)
    (other : ∀ behind character rest, character ≠ quote →
      mode.read behind (character :: rest) = (mode.kind, 0, mode))
    (doubled : ∀ behind rest,
      mode.read behind (quote :: quote :: rest) = (mode.kind, 1, mode))
    (closed : ∀ behind rest, rest.head? ≠ some quote →
      mode.read behind (quote :: rest) = (mode.kind, 0, .code))
    (text : Text) : mode.RunsThrough text := by
  induction text using quotedInduction quote with
  | nil => exact runsThrough_nil mode
  | other character rest differs ih =>
      refine RunsThrough.of_stay (List.cons_ne_nil character []) ?_ ?_ ih
      · intro behind
        exact other behind character rest differs
      · rw [remains, remains]
        exact quotedRest_of_ne differs rest
  | doubled rest ih =>
      refine RunsThrough.of_stay (List.cons_ne_nil quote [quote]) ?_ ?_ ih
      · intro behind
        exact doubled behind rest
      · rw [remains, remains]
        exact quotedRest_doubled quote rest
  | closed rest single =>
      refine RunsThrough.of_leave (List.cons_ne_nil quote []) ?_ ?_
      · intro behind
        exact closed behind rest single
      · rw [remains]
        exact quotedRest_closed single

/-- A mode that the first occurrence of a pattern closes. -/
theorem runsThrough_searched {mode : Mode} {pattern : Text}
    (nonempty : pattern ≠ [])
    (remains : ∀ text, mode.remainder text = upThrough pattern text)
    (found : ∀ behind rest, mode.read behind (pattern ++ rest) =
      (mode.kind, pattern.length - 1, .code))
    (other : ∀ behind character rest, ¬ pattern <+: character :: rest →
      mode.read behind (character :: rest) = (mode.kind, 0, mode))
    (text : Text) : mode.RunsThrough text := by
  induction text with
  | nil => exact runsThrough_nil mode
  | cons character rest ih =>
      by_cases here : pattern <+: character :: rest
      · have stops : mode.remainder (character :: rest) = pattern := by
          rw [remains, upThrough, if_pos (List.isPrefixOf_iff_prefix.mpr here)]
        obtain ⟨others, whole⟩ := here
        rw [← whole] at stops ⊢
        exact RunsThrough.of_leave nonempty (fun behind => found behind others)
          stops
      · refine RunsThrough.of_stay (List.cons_ne_nil character []) ?_ ?_ ih
        · intro behind
          exact other behind character rest here
        · have notHere : ¬ pattern.isPrefixOf (character :: rest) = true := by
            rw [List.isPrefixOf_iff_prefix]
            exact here
          rw [remains, remains, List.singleton_append, upThrough,
            if_neg notHere]
          rfl

/-- A line comment ends in front of a line feed, which is code. -/
theorem runsThrough_lineComment (text : Text) :
    lineComment.RunsThrough text := by
  induction text with
  | nil => exact runsThrough_nil _
  | cons character rest ih =>
      by_cases ends : character = '\n'
      · subst character
        intro earlier behind
        rfl
      · refine RunsThrough.of_stay (List.cons_ne_nil character []) ?_ ?_ ih
        · intro behind
          simp [read, ends, kind]
        · simp [remainder, ends]

/-- Every mode that code opens is left behind its remainder. -/
theorem Opens.runsThrough {mode : Mode} (opens : mode.Opens) (text : Text) :
    mode.RunsThrough text := by
  cases mode with
  | code => exact opens.elim
  | singleQuote =>
      refine runsThrough_quoted (fun _ => rfl) ?_ (fun _ _ => rfl) ?_ text
      · intro behind character rest differs
        simp [read, differs, kind]
      · intro behind rest single
        cases rest with
        | nil => rfl
        | cons next others =>
            have differs : next ≠ '\'' := by simpa using single
            simp [read, differs, kind]
  | doubleQuote =>
      refine runsThrough_quoted (fun _ => rfl) ?_ (fun _ _ => rfl) ?_ text
      · intro behind character rest differs
        simp [read, differs, kind]
      · intro behind rest single
        cases rest with
        | nil => rfl
        | cons next others =>
            have differs : next ≠ '"' := by simpa using single
            simp [read, differs, kind]
  | lineComment => exact runsThrough_lineComment text
  | blockComment =>
      refine runsThrough_searched (List.cons_ne_nil '*' ['/'])
        (fun _ => rfl) (fun _ _ => rfl) ?_ text
      intro behind character rest notHere
      rw [read.eq_def]
      split <;> simp_all [kind]
  | dollarQuote tag =>
      refine runsThrough_searched (List.cons_ne_nil '$' (tag ++ ['$']))
        (fun _ => rfl) ?_ ?_ text
      · intro behind rest
        simp [read, opening, kind]
      · intro behind character rest notHere
        have absent : ¬ (opening (.dollarQuote tag)).isPrefixOf
            (character :: rest) = true := by
          rw [List.isPrefixOf_iff_prefix]
          exact notHere
        rw [read, if_neg absent]
        rfl

/-! ## Runs through a script -/

/-- The kinds of the characters of regions. -/
theorem map_snd_painted_cons (region : Region) (others : List Region) :
    (painted (region :: others)).map Prod.snd =
      List.replicate region.text.length region.kind ++
        (painted others).map Prod.snd := by
  rw [painted_cons, List.map_append, List.map_map, ← List.map_const']
  rfl

theorem kindsFrom_code (earlier : RegionKind) (behind : Option Char)
    (text : Text) :
    kindsFrom 0 earlier .code behind text =
      (painted (lexemesFrom 0 (behind.any continuesName) text)).map
        Prod.snd := by
  generalize state : behind.any continuesName = afterName
  -- In code both readers know the same of what is behind, and nothing else.
  induction afterName, text using lexemeInduction
    generalizing earlier behind with
  | nil afterName => rfl
  | special afterName region rest found ih =>
      obtain ⟨mode, inside, opened, opens, tail, whole⟩ :=
        special?_append_eq_some found
      have texts : region.text = mode.opening ++ mode.remainder inside := by
        rw [whole]
      have parts : region.text ++ rest = mode.opening ++ inside := by
        rw [texts, List.append_assoc, tail]
      have reads : code.read behind (mode.opening ++ inside) =
          (mode.kind, mode.opening.length - 1, mode) := by
        rw [← parts]
        simp only [read, state, opened]
      have remaining : inside.drop (mode.remainder inside).length = rest := by
        have dropped := congrArg (List.drop (mode.remainder inside).length)
          tail.symm
        rwa [List.drop_left] at dropped
      have behindAfter :
          (behindOf (behindOf behind mode.opening)
            (mode.remainder inside)).any continuesName =
              nameBehind afterName region.text := by
        rw [← behindOf_append, any_behindOf, state, texts]
      rw [lexemesFrom_special found, map_snd_painted_cons, parts,
        kindsFrom_of_read inside opens.opening_ne_nil reads,
        opens.runsThrough inside, remaining, ih _ _ behindAfter, texts,
        List.length_append, List.replicate_add, List.append_assoc, whole]
  | code afterName character rest absent ih =>
      have notOpened :
          openedBy? (behind.any continuesName) (character :: rest) = none := by
        rw [state, ← Option.map_eq_none_iff, ← special?_eq]
        exact absent
      have reads : code.read behind ([character] ++ rest) =
          (.code, [character].length - 1, .code) := by
        rw [List.singleton_append]
        simp only [read, notOpened]
        rfl
      have step := kindsFrom_of_read rest (List.cons_ne_nil character [])
        reads earlier
      rw [List.singleton_append] at step
      rw [lexemesFrom_code absent, map_snd_painted_cons, step, ih _ _ rfl]

/-- The automaton gives every character the kind of its region. -/
theorem kinds_eq_painted (script : Text) :
    kinds script = (painted (lexemes script)).map Prod.snd :=
  kindsFrom_code .code none script

/-- The automaton gives every byte the kind of its region. -/
theorem kindAt?_eq_cover (script : Text) (byte : Nat) :
    kindAt? script byte =
      (coverAt? paintedWidth byte (painted (lexemes script))).map
        Prod.snd := by
  have characters : (painted (lexemes script)).map Prod.fst = script := by
    rw [map_fst_painted, textOf_lexemes]
  rw [kindAt?, ← List.zip_of_prod characters (kinds_eq_painted script).symm]
  rfl

end Mode

end Snowform
