import Snowform.Ddl.Listing
import Snowform.Proofs.Ddl.Steadiness
import Snowform.Proofs.Lexical.Parentheses
import Snowform.Proofs.Text.Listing

/-!
# Lists that are joined again

A list is cut at the commas at which nothing is open, so that it is told by
its pieces: they have no such comma, and nothing is open behind any of them
but the last.  Trimming and dropping blank pieces keeps both, and a list of
pieces of this kind is cut into them again when it is joined.
-/

namespace Snowform

open Text Lexical

/-! ## What is open behind a text -/

namespace Nesting

/-- What is open behind a text that nothing is open in front of. -/
def behind (text : Text) : Nesting :=
  text.foldl advance {}

theorem behind_append (first second : Text) :
    behind (first ++ second) = second.foldl advance (behind first) :=
  List.foldl_append

/-- What stands behind a closed text is read as if it stood alone. -/
theorem behind_append_of_closed {first : Text} (closed : behind first = {})
    (second : Text) : behind (first ++ second) = behind second := by
  rw [behind_append, closed]
  rfl

theorem separates_eq_true_iff {nesting : Nesting} {character : Char} :
    nesting.separates character = true ↔ nesting = {} ∧ character = ',' := by
  cases nesting
  simp [separates]

theorem isQuote_of_mem_advance {nesting : Nesting}
    (areQuotes : ∀ mark ∈ nesting.quote, IsQuote mark)
    (character : Char) :
    ∀ mark ∈ (nesting.advance character).quote, IsQuote mark := by
  rw [advance.eq_def]
  split
  next =>
    split
    · simp
    · exact areQuotes
  next =>
    split
    next isQuote =>
      rintro mark ⟨⟩
      exact isQuote
    next =>
      split
      · exact areQuotes
      · split <;> exact areQuotes

/-- Only quotes are ever open as quotes. -/
theorem isQuote_of_mem_behind (text : Text) :
    ∀ mark ∈ (behind text).quote, IsQuote mark := by
  induction text using List.reverseRecOn with
  | nil => simp [behind]
  | append_singleton front last ih =>
      rw [behind_append]
      exact isQuote_of_mem_advance ih last

/-- Blanks open and close nothing. -/
theorem advance_behind_of_isBlank (text : Text) {blank : Char}
    (isBlank : isBlank blank = true) :
    (behind text).advance blank = behind text := by
  cases inside : (behind text).quote with
  | none => exact advance_of_isBlank inside isBlank
  | some mark =>
      have other : blank ≠ mark := by
        rintro rfl
        rcases isQuote_of_mem_behind text blank inside with rfl | rfl <;>
          cases isBlank
      simp [advance, inside, other]

theorem behind_append_of_isBlank (text : Text) {blanks : Text}
    (areBlank : ∀ character ∈ blanks, isBlank character = true) :
    behind (text ++ blanks) = behind text := by
  induction blanks using List.reverseRecOn with
  | nil => rw [List.append_nil]
  | append_singleton front last ih =>
      rw [List.forall_mem_append, List.forall_mem_singleton] at areBlank
      rw [← List.append_assoc, behind_append, List.foldl_cons, List.foldl_nil,
        advance_behind_of_isBlank _ areBlank.2, ih areBlank.1]

theorem behind_of_isBlank {blanks : Text}
    (areBlank : ∀ character ∈ blanks, isBlank character = true) :
    behind blanks = {} :=
  behind_append_of_isBlank [] areBlank

/-- What is open behind a text does not depend on the blanks around it. -/
theorem behind_trim (text : Text) : behind (trim text) = behind text := by
  have leading : behind (leadingBlanks text) = {} :=
    behind_of_isBlank fun _ => isBlank_of_mem_leadingBlanks
  calc behind (trim text)
      = behind (trim text ++ trailingBlanks text) :=
        (behind_append_of_isBlank _ fun _ =>
          isBlank_of_mem_trailingBlanks).symm
    _ = behind (leadingBlanks text ++ (trim text ++ trailingBlanks text)) :=
        (behind_append_of_closed leading _).symm
    _ = behind text := by rw [leading_trim_trailing]

end Nesting

/-! ## Pieces of a list -/

/-- A text without a comma at which nothing is open. -/
def IsUnparted (text : Text) : Prop :=
  ∀ before after, text = before ++ ',' :: after → Nesting.behind before ≠ {}

/-- The texts between the commas of a list, before they are trimmed. -/
def listPieces (text : Text) : List Text :=
  pieces Nesting.separates Nesting.advance {} text

namespace IsUnparted

variable {piece : Text}

theorem nil : IsUnparted [] := by
  rintro (_ | _) after ⟨⟩

/-- An unparted text grows until a comma at which nothing is open. -/
theorem concat (unparted : IsUnparted piece) {character : Char}
    (joins : ¬ (Nesting.behind piece = {} ∧ character = ',')) :
    IsUnparted (piece ++ [character]) := by
  intro before after parts
  obtain rfl | ⟨further, last, rfl⟩ := after.eq_nil_or_concat
  · obtain ⟨rfl, same⟩ := List.append_inj' parts rfl
    exact fun closed => joins ⟨closed, List.head_eq_of_cons_eq same⟩
  · rw [List.concat_eq_append, ← List.cons_append, ← List.append_assoc]
      at parts
    exact unparted before further (List.append_inj' parts rfl).1

theorem trim (unparted : IsUnparted piece) : IsUnparted (trim piece) := by
  intro before after parts
  have leading : Nesting.behind (leadingBlanks piece) = {} :=
    Nesting.behind_of_isBlank fun _ => isBlank_of_mem_leadingBlanks
  have whole : piece = (leadingBlanks piece ++ before) ++
      ',' :: (after ++ trailingBlanks piece) := by
    conv_lhs => rw [← leading_trim_trailing piece, parts]
    simp only [List.append_assoc, List.cons_append]
  rw [← Nesting.behind_append_of_closed leading before]
  exact unparted _ _ whole

theorem listPieces_append (unparted : IsUnparted piece) (rest : Text) :
    listPieces (piece ++ rest) = piece.foldr consFirst
      (pieces Nesting.separates Nesting.advance (Nesting.behind piece)
        rest) := by
  refine pieces_append (fun before element after parts => ?_) rest
  rw [Bool.eq_false_iff, ne_eq, Nesting.separates_eq_true_iff]
  rintro ⟨closed, rfl⟩
  exact unparted before after parts closed

/-- An unparted text is one piece. -/
theorem listPieces_eq (unparted : IsUnparted piece) :
    listPieces piece = [piece] := by
  have alone := unparted.listPieces_append []
  rw [List.append_nil] at alone
  rw [alone, pieces, foldr_consFirst, List.append_nil]

/-- An unparted text is the first piece if nothing is open behind it. -/
theorem listPieces_append_comma (unparted : IsUnparted piece)
    (closed : Nesting.behind piece = {}) (rest : Text) :
    listPieces (piece ++ ',' :: rest) = piece :: listPieces rest := by
  have separates : Nesting.separates {} ',' = true := rfl
  rw [unparted.listPieces_append, closed, pieces, if_pos separates,
    foldr_consFirst, List.append_nil]
  rfl

end IsUnparted

/-- Induction along the commas at which nothing is open. -/
@[elab_as_elim]
theorem listInduction {motive : Text → Prop}
    (last : ∀ piece, IsUnparted piece → motive piece)
    (next : ∀ piece rest, IsUnparted piece → Nesting.behind piece = {} →
      motive rest → motive (piece ++ ',' :: rest))
    (text : Text) : motive text := by
  -- The first piece grows until its comma is met.
  suffices grown : ∀ piece, IsUnparted piece → motive (piece ++ text) from
    grown [] IsUnparted.nil
  induction text with
  | nil =>
      intro piece unparted
      rw [List.append_nil]
      exact last piece unparted
  | cons character rest ih =>
      intro piece unparted
      by_cases separates : Nesting.behind piece = {} ∧ character = ','
      · obtain ⟨closed, rfl⟩ := separates
        exact next piece rest unparted closed (ih [] IsUnparted.nil)
      · have longer := ih _ (unparted.concat separates)
        rwa [List.append_assoc] at longer

theorem isUnparted_iff {text : Text} :
    IsUnparted text ↔ listPieces text = [text] := by
  constructor
  · exact IsUnparted.listPieces_eq
  · induction text using listInduction with
    | last piece unparted => exact fun _ => unparted
    | next piece rest unparted closed _ =>
        intro alone
        rw [unparted.listPieces_append_comma closed] at alone
        simp at alone

instance (text : Text) : Decidable (IsUnparted text) :=
  decidable_of_iff _ isUnparted_iff.symm

/--
Texts between commas at which nothing is open: none of them has such a comma,
and nothing is open behind any but the last.
-/
inductive ArePieces : List Text → Prop
  | nil : ArePieces []
  | last {piece : Text} : IsUnparted piece → ArePieces [piece]
  | next {piece : Text} {others : List Text} : IsUnparted piece →
      Nesting.behind piece = {} → ArePieces others →
      ArePieces (piece :: others)

namespace ArePieces

variable {texts : List Text}

theorem of_forall
    (closed : ∀ text ∈ texts, IsUnparted text ∧ Nesting.behind text = {}) :
    ArePieces texts := by
  induction texts with
  | nil => exact nil
  | cons first others ih =>
      rw [List.forall_mem_cons] at closed
      exact next closed.1.1 closed.1.2 (ih closed.2)

theorem isUnparted (arePieces : ArePieces texts) :
    ∀ text ∈ texts, IsUnparted text := by
  induction arePieces with
  | nil => simp
  | last unparted => exact List.forall_mem_singleton.mpr unparted
  | next unparted _ _ ih => exact List.forall_mem_cons.mpr ⟨unparted, ih⟩

theorem map_trim (arePieces : ArePieces texts) :
    ArePieces (texts.map Text.trim) := by
  induction arePieces with
  | nil => exact nil
  | last unparted => exact last unparted.trim
  | next unparted closed _ ih =>
      exact next unparted.trim (by rw [Nesting.behind_trim, closed]) ih

theorem filter (arePieces : ArePieces texts) (keeps : Text → Bool) :
    ArePieces (texts.filter keeps) := by
  induction arePieces with
  | nil => exact nil
  | @last piece unparted =>
      rw [List.filter_singleton]
      cases keeps piece
      · exact nil
      · exact last unparted
  | next unparted closed _ ih =>
      rw [List.filter_cons]
      split
      · exact next unparted closed ih
      · exact ih

/-- Pieces are found again when they are joined. -/
theorem listPieces_intercalate (arePieces : ArePieces texts)
    (nonempty : texts ≠ []) : listPieces ([','].intercalate texts) = texts := by
  induction arePieces with
  | nil => exact absurd rfl nonempty
  | last unparted =>
      rw [List.intercalate_singleton]
      exact unparted.listPieces_eq
  | @next piece others unparted closed later ih =>
      cases others with
      | nil =>
          rw [List.intercalate_singleton]
          exact unparted.listPieces_eq
      | cons second further =>
          rw [List.intercalate_cons_cons, List.append_assoc,
            List.singleton_append, unparted.listPieces_append_comma closed,
            ih (List.cons_ne_nil second further)]

/-- Trimmed texts that are not empty are the entries of their list. -/
theorem splitCommas_intercalate (arePieces : ArePieces texts)
    (visible : ∀ text ∈ texts, text ≠ [] ∧ trim text = text) :
    splitCommas ([','].intercalate texts) = texts := by
  obtain rfl | nonempty := eq_or_ne texts []
  · rfl
  · have trimmed : texts.map trim = texts :=
      (List.map_congr_left fun text member =>
        (visible text member).2).trans (List.map_id' texts)
    have cut := arePieces.listPieces_intercalate nonempty
    rw [listPieces] at cut
    rw [splitCommas, cut, trimmed, List.filter_eq_self]
    intro text member
    simpa using (visible text member).1

end ArePieces

theorem listPieces_ne_nil (text : Text) : listPieces text ≠ [] := by
  obtain ⟨first, others, parts, -⟩ :=
    exists_pieces_eq_cons Nesting.separates Nesting.advance {} text
  rw [listPieces, parts]
  exact List.cons_ne_nil first others

theorem arePieces_listPieces (text : Text) : ArePieces (listPieces text) := by
  induction text using listInduction with
  | last piece unparted =>
      rw [unparted.listPieces_eq]
      exact .last unparted
  | next piece rest unparted closed ih =>
      rw [unparted.listPieces_append_comma closed]
      exact .next unparted closed ih

/-- Cutting a list takes nothing away but the commas. -/
theorem intercalate_listPieces (text : Text) :
    [','].intercalate (listPieces text) = text := by
  induction text using listInduction with
  | last piece unparted =>
      rw [unparted.listPieces_eq, List.intercalate_singleton]
  | next piece rest unparted closed ih =>
      rw [unparted.listPieces_append_comma closed]
      cases parts : listPieces rest with
      | nil => exact absurd parts (listPieces_ne_nil rest)
      | cons second further =>
          rw [List.intercalate_cons_cons, ← parts, ih, List.append_assoc,
            List.singleton_append]

/-! ## Entries of a list -/

theorem arePieces_splitCommas (text : Text) : ArePieces (splitCommas text) :=
  (arePieces_listPieces text).map_trim.filter _

theorem visible_of_mem_splitCommas {text entry : Text}
    (member : entry ∈ splitCommas text) : entry ≠ [] ∧ trim entry = entry := by
  rw [splitCommas, List.mem_filter, List.mem_map] at member
  obtain ⟨⟨piece, -, rfl⟩, nonempty⟩ := member
  exact ⟨by simpa using nonempty, trim_trim piece⟩

/--
Splitting loses nothing but commas at which nothing is open, blank pieces and
the blanks around pieces: the entries are one entry each, they are found
again when they are joined, and so is every list of trimmed texts that could
be entries.
-/
theorem splitCommas_inverts_joining (text : Text) :
    (∀ entry ∈ splitCommas text,
      entry ≠ [] ∧ trim entry = entry ∧ splitCommas entry = [entry]) ∧
    splitCommas ([','].intercalate (splitCommas text)) = splitCommas text ∧
    (∃ raw : List Text, ArePieces raw ∧ [','].intercalate raw = text ∧
      splitCommas text =
        (raw.map trim).filter fun entry => !entry.isEmpty) ∧
    ∀ entries : List Text,
      (∀ entry ∈ entries, entry ≠ [] ∧ trim entry = entry ∧
        Nesting.behind entry = {} ∧ IsUnparted entry) →
      splitCommas ([','].intercalate entries) = entries := by
  have arePieces := arePieces_splitCommas text
  refine ⟨?_, ?_, ?_, ?_⟩
  · intro entry member
    have visible := visible_of_mem_splitCommas member
    have single : ArePieces [entry] :=
      .last (arePieces.isUnparted entry member)
    have alone := single.splitCommas_intercalate
      (List.forall_mem_singleton.mpr visible)
    rw [List.intercalate_singleton] at alone
    exact ⟨visible.1, visible.2, alone⟩
  · exact arePieces.splitCommas_intercalate fun _ => visible_of_mem_splitCommas
  · exact ⟨listPieces text, arePieces_listPieces text,
      intercalate_listPieces text, rfl⟩
  · intro entries all
    have closed : ArePieces entries := ArePieces.of_forall fun entry member =>
      ⟨(all entry member).2.2.2, (all entry member).2.2.1⟩
    exact closed.splitCommas_intercalate fun entry member =>
      ⟨(all entry member).1, (all entry member).2.1⟩

/-- A list with a blank piece whose last piece closes and opens too much. -/
theorem splitCommas_inverts_joining_unbalanced :
    let text : Text := " f(a, b) ,, 'c, d',g), \"h"
    let entries : List Text := ["f(a, b)", "'c, d'"]
    splitCommas text = ["f(a, b)", "'c, d'", "g), \"h"] ∧
      splitCommas ([','].intercalate (splitCommas text)) = splitCommas text ∧
      (∀ entry ∈ entries, entry ≠ [] ∧ trim entry = entry ∧
        Nesting.behind entry = {} ∧ IsUnparted entry) ∧
      splitCommas ([','].intercalate entries) = entries := by
  intro text entries
  obtain ⟨-, again, -, joined⟩ := splitCommas_inverts_joining text
  have cut : splitCommas text = ["f(a, b)", "'c, d'", "g), \"h"] := by decide
  have closed : ∀ entry ∈ entries, entry ≠ [] ∧ trim entry = entry ∧
      Nesting.behind entry = {} ∧ IsUnparted entry := by decide
  exact ⟨cut, again, closed, joined entries closed⟩

end Snowform
