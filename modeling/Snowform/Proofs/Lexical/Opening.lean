import Snowform.Lexical.Automaton
import Mathlib.Data.List.TakeWhile

/-!
# Regions by what opens them

A region other than code is what opens it, followed by the remainder of the
mode it opens.  `special?_eq` says so of the regions that the scan finds, and
the modes that it meets there are the ones that the automaton enters.

From then on, a fact about regions is a fact about six remainders.
-/

namespace Snowform

open Text Lexical

namespace Lexical

/-! ## Quoted stretches -/

theorem quotedRest_of_ne {quote character : Char}
    (other : character ≠ quote) (rest : Text) :
    quotedRest quote (character :: rest) =
      character :: quotedRest quote rest := by
  cases rest with
  | nil => rfl
  | cons next rest => simp [quotedRest, other]

theorem quotedRest_doubled (quote : Char) (rest : Text) :
    quotedRest quote (quote :: quote :: rest) =
      quote :: quote :: quotedRest quote rest := by
  simp [quotedRest]

theorem quotedRest_closed {quote : Char} {rest : Text}
    (single : rest.head? ≠ some quote) :
    quotedRest quote (quote :: rest) = [quote] := by
  cases rest with
  | nil => rfl
  | cons next rest =>
      have other : next ≠ quote := by simpa using single
      simp [quotedRest, other]

/-- Induction along the quotes of a quoted stretch. -/
@[elab_as_elim]
theorem quotedInduction (quote : Char) {motive : Text → Prop}
    (nil : motive [])
    (other : ∀ character rest, character ≠ quote → motive rest →
      motive (character :: rest))
    (doubled : ∀ rest, motive rest → motive (quote :: quote :: rest))
    (closed : ∀ rest, rest.head? ≠ some quote → motive (quote :: rest)) :
    ∀ text, motive text
  | [] => nil
  | [character] => by
      by_cases same : character = quote
      · subst character
        exact closed [] (by simp)
      · exact other character [] same nil
  | character :: next :: rest => by
      by_cases same : character = quote
      · subst character
        by_cases again : next = quote
        · subst next
          exact doubled rest
            (quotedInduction quote nil other doubled closed rest)
        · exact closed (next :: rest) (by simpa using again)
      · exact other character (next :: rest) same
          (quotedInduction quote nil other doubled closed (next :: rest))

theorem quotedRest_prefix (quote : Char) (text : Text) :
    quotedRest quote text <+: text := by
  induction text using quotedInduction quote with
  | nil => exact List.nil_prefix
  | other character rest differs ih =>
      rw [quotedRest_of_ne differs]
      exact (List.prefix_cons_inj character).mpr ih
  | doubled rest ih =>
      rw [quotedRest_doubled]
      exact (List.prefix_cons_inj quote).mpr
        ((List.prefix_cons_inj quote).mpr ih)
  | closed rest single =>
      rw [quotedRest_closed single]
      exact ⟨rest, rfl⟩

/-! ## Searched stretches -/

theorem upThrough_prefix (pattern text : Text) :
    upThrough pattern text <+: text := by
  induction text with
  | nil => exact List.nil_prefix
  | cons character rest ih =>
      rw [upThrough]
      split
      next found => exact List.isPrefixOf_iff_prefix.mp found
      next => exact (List.prefix_cons_inj character).mpr ih

/-! ## Dollar markers -/

/-- A dollar sign is no part of a tag. -/
theorem isTagCharacter_dollar : isTagCharacter '$' = false := by decide

/-- A tag is what stands between two dollar signs. -/
theorem tag?_eq_some_iff {text tag : Text} :
    Mode.tag? text = some tag ↔
      (∀ character ∈ tag, isTagCharacter character = true) ∧
        tag ++ ['$'] <+: text := by
  induction text generalizing tag with
  | nil => simp [Mode.tag?]
  | cons first rest ih =>
      rw [Mode.tag?]
      by_cases dollar : first = '$'
      · subst first
        cases tag with
        | nil => simp
        | cons character others =>
            constructor
            · intro equal
              simp at equal
            · rintro ⟨allTag, starts⟩
              rw [List.cons_append, List.cons_prefix_cons] at starts
              have tagged := allTag character List.mem_cons_self
              rw [starts.1, isTagCharacter_dollar] at tagged
              cases tagged
      · rw [if_neg dollar]
        cases tag with
        | nil =>
            have differs : '$' ≠ first := Ne.symm dollar
            simp [differs]
        | cons character others =>
            by_cases tagged : isTagCharacter first = true
            · rw [if_pos tagged, Option.map_eq_some_iff]
              constructor
              · rintro ⟨found, equal, joined⟩
                cases joined
                obtain ⟨allTag, starts⟩ := ih.mp equal
                refine ⟨?_, ?_⟩
                · exact List.forall_mem_cons.mpr ⟨tagged, allTag⟩
                · exact (List.prefix_cons_inj first).mpr starts
              · rintro ⟨allTag, starts⟩
                rw [List.cons_append, List.cons_prefix_cons] at starts
                obtain ⟨rfl, starts⟩ := starts
                have others := (List.forall_mem_cons.mp allTag).2
                exact ⟨_, ih.mpr ⟨others, starts⟩, rfl⟩
            · rw [if_neg tagged]
              constructor
              · intro equal
                cases equal
              · rintro ⟨allTag, starts⟩
                rw [List.cons_append, List.cons_prefix_cons] at starts
                have first := allTag character List.mem_cons_self
                rw [starts.1] at first
                exact absurd first tagged

/-- A tag is as long as its characters go, and a dollar sign must follow. -/
theorem tag?_eq_ite (text : Text) :
    Mode.tag? text =
      if (text.dropWhile isTagCharacter).head? = some '$' then
        some (text.takeWhile isTagCharacter)
      else
        none := by
  induction text with
  | nil => rfl
  | cons first rest ih =>
      rw [Mode.tag?, ih]
      by_cases dollar : first = '$'
      · subst first
        simp [isTagCharacter_dollar]
      · rw [if_neg dollar]
        by_cases tagged : isTagCharacter first = true
        · rw [if_pos tagged, List.dropWhile_cons_of_pos tagged,
            List.takeWhile_cons_of_pos tagged]
          split <;> rfl
        · rw [if_neg tagged, List.dropWhile_cons_of_neg tagged]
          simp [dollar]

/-- The scan and the automaton find the same markers. -/
theorem dollarMarker?_cons (rest : Text) :
    dollarMarker? ('$' :: rest) =
      (Mode.tag? rest).map fun tag => (Mode.dollarQuote tag).opening := by
  rw [tag?_eq_ite, dollarMarker?]
  split
  next others equal =>
    rw [equal]
    simp [Mode.opening]
  next noDollar =>
    have noHead : (rest.dropWhile isTagCharacter).head? ≠ some '$' := by
      intro head
      obtain ⟨others, equal⟩ := List.head?_eq_some_iff.mp head
      exact noDollar others equal
    rw [if_neg noHead]
    rfl

end Lexical

/-! ## Regions -/

namespace Mode

/-- What of a text still belongs to that which a mode stands for. -/
def remainder : Mode → Text → Text
  | .code, _ => []
  | .singleQuote, text => quotedRest '\'' text
  | .doubleQuote, text => quotedRest '"' text
  | .lineComment, text => text.takeWhile (· != '\n')
  | .blockComment, text => upThrough ['*', '/'] text
  | .dollarQuote tag, text => upThrough (opening (.dollarQuote tag)) text

/-- The region that a text starts with when it opens a mode. -/
def region (mode : Mode) (text : Text) : Region :=
  ⟨mode.kind, mode.opening ++ mode.remainder (text.drop mode.opening.length)⟩

/-- The modes that code can open. -/
def Opens : Mode → Prop
  | .code => False
  | .dollarQuote tag => ∀ character ∈ tag, isTagCharacter character = true
  | _ => True

theorem Opens.kind_ne_code {mode : Mode} (opens : mode.Opens) :
    mode.kind ≠ .code := by
  cases mode with
  | code => exact opens.elim
  | _ => simp [kind]

theorem Opens.opening_ne_nil {mode : Mode} (opens : mode.Opens) :
    mode.opening ≠ [] := by
  cases mode with
  | code => exact opens.elim
  | _ => simp [opening]

theorem remainder_prefix (mode : Mode) (text : Text) :
    mode.remainder text <+: text := by
  cases mode with
  | code => exact List.nil_prefix
  | singleQuote => exact quotedRest_prefix _ _
  | doubleQuote => exact quotedRest_prefix _ _
  | lineComment => exact List.takeWhile_prefix _
  | blockComment => exact upThrough_prefix _ _
  | dollarQuote tag => exact upThrough_prefix _ _

@[simp]
theorem remainder_nil (mode : Mode) : mode.remainder [] = [] :=
  List.prefix_nil.mp (mode.remainder_prefix [])

/-- A text that opens a mode starts with its opening. -/
theorem openedBy?_spec {afterName : Bool} {text : Text} {mode : Mode}
    (opened : openedBy? afterName text = some mode) :
    mode.Opens ∧ mode.opening <+: text := by
  rw [openedBy?.eq_def] at opened
  split at opened
  next rest =>
    cases opened
    exact ⟨trivial, rest, rfl⟩
  next rest =>
    cases opened
    exact ⟨trivial, rest, rfl⟩
  next rest =>
    cases opened
    exact ⟨trivial, rest, rfl⟩
  next rest =>
    cases opened
    exact ⟨trivial, rest, rfl⟩
  next rest =>
    split at opened
    · cases opened
    · obtain ⟨tag, found, rfl⟩ := Option.map_eq_some_iff.mp opened
      obtain ⟨tagged, starts⟩ := tag?_eq_some_iff.mp found
      exact ⟨tagged, (List.prefix_cons_inj '$').mpr starts⟩
  next => cases opened

end Mode

namespace Lexical

/-- The scan finds the region of the mode that a text opens. -/
theorem special?_eq (afterName : Bool) (text : Text) :
    special? afterName text =
      (Mode.openedBy? afterName text).map fun mode => mode.region text := by
  rw [special?.eq_def]
  split
  next => rfl
  next => rfl
  next => rfl
  next => rfl
  next noQuote noDouble noLine noBlock =>
    cases text with
    | nil => cases afterName <;> rfl
    | cons first rest =>
        by_cases dollar : first = '$'
        · subst first
          cases afterName with
          | true => rfl
          | false =>
              simp [Mode.openedBy?, dollarMarker?_cons, Function.comp_def,
                Mode.region, Mode.kind, Mode.remainder]
        · have noMarker : dollarMarker? (first :: rest) = none := by
            rw [dollarMarker?.eq_def]
            split
            next equal =>
              cases equal
              exact absurd rfl dollar
            next => rfl
          have notOpened : Mode.openedBy? afterName (first :: rest) = none := by
            rw [Mode.openedBy?.eq_def]
            split <;> simp_all
          rw [noMarker, notOpened]
          cases afterName <;> rfl

/-- A region that is found is an opening and the remainder of its mode. -/
theorem special?_eq_some {afterName : Bool} {text : Text} {region : Region}
    (found : special? afterName text = some region) :
    ∃ mode inside, Mode.openedBy? afterName text = some mode ∧
      mode.Opens ∧ text = mode.opening ++ inside ∧
      region = ⟨mode.kind, mode.opening ++ mode.remainder inside⟩ := by
  rw [special?_eq, Option.map_eq_some_iff] at found
  obtain ⟨mode, opened, rfl⟩ := found
  obtain ⟨opens, inside, rfl⟩ := Mode.openedBy?_spec opened
  refine ⟨mode, inside, opened, opens, rfl, ?_⟩
  rw [Mode.region, List.drop_left]

/-- A region that is found ends where its mode ends. -/
theorem special?_append_eq_some {afterName : Bool} {region : Region}
    {rest : Text}
    (found : special? afterName (region.text ++ rest) = some region) :
    ∃ mode inside,
      Mode.openedBy? afterName (region.text ++ rest) = some mode ∧
      mode.Opens ∧ mode.remainder inside ++ rest = inside ∧
      region = ⟨mode.kind, mode.opening ++ mode.remainder inside⟩ := by
  obtain ⟨mode, inside, opened, opens, whole, equal⟩ := special?_eq_some found
  refine ⟨mode, inside, opened, opens, ?_, equal⟩
  rw [equal, List.append_assoc, List.append_right_inj] at whole
  exact whole

/-- A region that is found is part of the text, is not empty and no code. -/
theorem special?_spec {afterName : Bool} {text : Text} {region : Region}
    (found : special? afterName text = some region) :
    region.text <+: text ∧ region.text ≠ [] ∧ region.kind ≠ .code := by
  obtain ⟨mode, inside, -, opens, rfl, rfl⟩ := special?_eq_some found
  refine ⟨?_, ?_, opens.kind_ne_code⟩
  · exact (List.prefix_append_right_inj _).mpr (mode.remainder_prefix inside)
  · exact List.append_ne_nil_of_left_ne_nil opens.opening_ne_nil _

end Lexical

end Snowform
