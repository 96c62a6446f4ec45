import Snowform.Proofs.Text.Words

/-!
# Single blanks

Joining the words of a text with single blanks puts one blank in place of
every run of blanks.  `respaced` does so character by character, so that it
can be followed along the parts of a text.
-/

namespace Snowform.Text

/-- The text with a single blank in place of every run of blanks. -/
def respaced : Text → Text
  | [] => []
  | character :: rest =>
      if isBlank character then
        if rest.head?.any isBlank then respaced rest else ' ' :: respaced rest
      else
        character :: respaced rest

/-- Looking for a blank decides whether there is none. -/
theorem visible_of_any {text : Text} (none : text.any isBlank = false) :
    ∀ character ∈ text, isBlank character = false :=
  fun character member =>
    Bool.eq_false_iff.mpr (List.any_eq_false.mp none character member)

theorem respaced_cons_visible {character : Char}
    (visible : isBlank character = false) (rest : Text) :
    respaced (character :: rest) = character :: respaced rest := by
  rw [respaced, visible]
  rfl

theorem respaced_cons_blank {character next : Char}
    (blank : isBlank character = true) (visible : isBlank next = false)
    (rest : Text) :
    respaced (character :: next :: rest) = ' ' :: respaced (next :: rest) := by
  rw [respaced, if_pos blank, List.head?_cons, Option.any_some, visible]
  rfl

/-- Visible characters part what is respaced. -/
theorem respaced_append_cons {character : Char}
    (visible : isBlank character = false) (before behind : Text) :
    respaced (before ++ character :: behind) =
      respaced before ++ character :: respaced behind := by
  induction before with
  | nil => exact respaced_cons_visible visible behind
  | cons first rest ih =>
      have head : (rest ++ character :: behind).head?.any isBlank =
          rest.head?.any isBlank := by
        cases rest with
        | nil => exact visible
        | cons second others => rfl
      rw [List.cons_append, respaced, respaced, head, ih]
      split
      · split <;> rfl
      · rfl

theorem respaced_append_of_visible {text : Text}
    (visible : ∀ character ∈ text, isBlank character = false)
    (behind : Text) : respaced (text ++ behind) = text ++ respaced behind := by
  induction text with
  | nil => rfl
  | cons character rest ih =>
      rw [List.forall_mem_cons] at visible
      rw [List.cons_append, respaced_cons_visible visible.1, ih visible.2,
        List.cons_append]

theorem respaced_of_visible {text : Text}
    (visible : ∀ character ∈ text, isBlank character = false) :
    respaced text = text := by
  have alone := respaced_append_of_visible visible []
  rwa [respaced, List.append_nil] at alone

theorem respaced_ne_nil {text : Text} (nonempty : text ≠ []) :
    respaced text ≠ [] := by
  induction text with
  | nil => exact absurd rfl nonempty
  | cons character rest ih =>
      rw [respaced]
      split
      · cases rest with
        | nil => exact List.cons_ne_nil _ _
        | cons next others =>
            split
            · exact ih (List.cons_ne_nil _ _)
            · exact List.cons_ne_nil _ _
      · exact List.cons_ne_nil _ _

/-! ## Words -/

theorem words_cons_blank {character : Char}
    (blank : isBlank character = true) (rest : Text) :
    words (character :: rest) = words rest := by
  rw [words, piecesAt_cons_of_pos blank, List.filter_cons_of_neg (by simp),
    words]

/-- A visible character is a word of its own if a blank or nothing follows. -/
theorem words_cons_visible {character : Char}
    (visible : isBlank character = false) (rest : Text) :
    words (character :: rest) =
      if rest.head?.all isBlank then [character] :: words rest
      else consFirst character (words rest) := by
  cases rest with
  | nil =>
      rw [words, piecesAt_cons_of_neg visible]
      rfl
  | cons next others =>
      cases blank : isBlank next with
      | true =>
          rw [List.head?_cons, Option.all_some, blank, if_pos rfl,
            words_cons_blank blank, words, piecesAt_cons_of_neg visible,
            piecesAt_cons_of_pos blank]
          rfl
      | false =>
          rw [List.head?_cons, Option.all_some, blank, if_neg Bool.false_ne_true,
            words, words, piecesAt_cons_of_neg visible,
            piecesAt_cons_of_neg blank]
          cases piecesAt isBlank others <;> rfl

/-- Blanks part the words of a text. -/
theorem words_append_blank {character : Char}
    (blank : isBlank character = true) (before behind : Text) :
    words (before ++ character :: behind) = words before ++ words behind := by
  rw [words, piecesAt_append_cons before blank, List.filter_append]
  rfl

theorem words_of_isWord {word : Text} (isWord : IsWord word) :
    words word = [word] := by
  have whole := words_intercalate (List.forall_mem_singleton.mpr isWord)
  rwa [List.intercalate_singleton] at whole

/-- A blank at the start of what follows parts the words, too. -/
theorem words_append_of_starts {behind : Text}
    (starts : ∀ first ∈ behind.head?, isBlank first = true) (before : Text) :
    words (before ++ behind) = words before ++ words behind := by
  cases behind with
  | nil =>
      rw [List.append_nil]
      exact (List.append_nil _).symm
  | cons first rest =>
      have blank := starts first rfl
      rw [words_append_blank blank, words_cons_blank blank]

theorem words_of_blanks {text : Text}
    (blanks : ∀ character ∈ text, isBlank character = true) :
    words text = [] := by
  induction text with
  | nil => rfl
  | cons character rest ih =>
      rw [List.forall_mem_cons] at blanks
      rw [words_cons_blank blanks.1, ih blanks.2]

theorem words_append_blanks {blanks : Text}
    (all : ∀ character ∈ blanks, isBlank character = true) (text : Text) :
    words (text ++ blanks) = words text := by
  have starts : ∀ first ∈ blanks.head?, isBlank first = true :=
    fun first here => all first (List.mem_of_mem_head? here)
  rw [words_append_of_starts starts, words_of_blanks all, List.append_nil]

theorem words_ne_nil {text : Text} {character : Char}
    (member : character ∈ text) (visible : isBlank character = false) :
    words text ≠ [] := by
  induction text with
  | nil => cases member
  | cons first rest ih =>
      cases blank : isBlank first with
      | true =>
          rw [words_cons_blank blank]
          rcases List.mem_cons.mp member with rfl | later
          · rw [visible] at blank
            cases blank
          · exact ih later
      | false =>
          rw [words_cons_visible blank]
          split
          · exact List.cons_ne_nil _ _
          · cases words rest <;> exact List.cons_ne_nil _ _

theorem intercalate_consFirst (separator : Text) (character : Char)
    (list : List Text) :
    separator.intercalate (consFirst character list) =
      character :: separator.intercalate list := by
  cases list with
  | nil => simp [consFirst]
  | cons first others => cases others <;> simp [consFirst, List.intercalate]

/--
The words of a text that does not end in a blank, joined again: what the text
starts with may be a blank, which no word is made of.
-/
theorem intercalate_words {text : Text}
    (ends : ∀ last ∈ text.getLast?, isBlank last = false) :
    (if text.head?.any isBlank then [' '] else []) ++
      [' '].intercalate (words text) = respaced text := by
  induction text with
  | nil => rfl
  | cons character rest ih =>
      cases rest with
      | nil =>
          have visible := ends character rfl
          rw [words_of_isWord ⟨List.cons_ne_nil _ _,
            List.forall_mem_singleton.mpr visible⟩,
            respaced_cons_visible visible]
          simp [visible, respaced]
      | cons next others =>
          rw [List.getLast?_cons_cons] at ends
          have known : words (next :: others) ≠ [] := by
            have last := List.getLast?_eq_some_getLast
              (List.cons_ne_nil next others)
            exact words_ne_nil (List.getLast_mem (List.cons_ne_nil _ _))
              (ends _ last)
          have behind := ih ends
          cases blank : isBlank character with
          | true =>
              rw [words_cons_blank blank, respaced, if_pos blank]
              cases second : isBlank next <;>
                simpa [blank, second] using behind
          | false =>
              rw [words_cons_visible blank, respaced_cons_visible blank,
                ← behind]
              cases second : isBlank next with
              | true =>
                  obtain ⟨first, more, parts⟩ := List.exists_cons_of_ne_nil known
                  simp [blank, second, parts, List.intercalate]
              | false => simp [blank, second, intercalate_consFirst]

end Snowform.Text
