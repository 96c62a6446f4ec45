import Snowform.Proofs.Ddl.Steadiness

/-!
# Names with gaps

Lists of names are cut at the same places whatever the width of their gaps.
A gap can be part of a name, and then it is part of the name at its width;
this is the only way in which it shows.
-/

namespace Snowform

open Text Lexical

/-! ## Entries -/

/-- Trimmed marks open no quote around a gap, if the marks did not. -/
theorem Steady.trimMarks {nesting : Nesting} (outside : nesting.quote = none)
    {marks : List Mark} (steady : Steady nesting marks) :
    Steady nesting (trimMarks marks) := by
  apply (steady.skipBlanks outside).of_isPrefix
  rw [Text.trimMarks, dropEndWhile_eq_rdropWhile]
  exact List.rdropWhile_prefix _ _

/-- The pieces of a list of marks between its commas. -/
def markPieces (nesting : Nesting) (marks : List Mark) : List (List Mark) :=
  pieces (fun nesting mark => nesting.separates (shown mark))
    (fun nesting mark => nesting.advance (shown mark)) nesting marks

/-- The entries of a list of marks. -/
def markEntries (marks : List Mark) : List (List Mark) :=
  ((markPieces {} marks).map trimMarks).filter fun entry => !entry.isEmpty

/-- Blanks outside of quotes change no nesting and separate nothing. -/
theorem passes_nesting : Passes Nesting.separates Nesting.advance
    fun nesting => ∀ mark ∈ nesting.quote, isBlank mark = false where
  keeps {nesting} visible character := by
    rw [Nesting.advance]
    split
    next mark quote =>
      split
      next => simp
      next => exact visible
    next outside =>
      split
      next isQuote =>
        rintro mark ⟨⟩
        rcases isQuote with rfl | rfl <;> decide
      next =>
        split
        · exact visible
        · split <;> exact visible
  quiet {nesting} visible {character} blank := by
    have comma : character ≠ ',' := by
      rintro rfl
      cases blank
    refine ⟨by simp [Nesting.separates, comma], ?_⟩
    cases quote : nesting.quote with
    | none => exact Nesting.advance_of_isBlank quote blank
    | some mark =>
        have other : character ≠ mark := by
          rintro rfl
          rw [visible character quote] at blank
          cases blank
        simp [Nesting.advance, quote, other]

/-- A list is cut at the same commas in either spacing. -/
theorem splitCommas_rendered (width : Width) (marks : List Mark) :
    splitCommas (rendered width marks) =
      (markEntries marks).map (rendered width) := by
  have trims : trim ∘ rendered width = rendered width ∘ trimMarks :=
    funext (trim_rendered width)
  have filled : (fun entry : Text => !entry.isEmpty) ∘ rendered width =
      fun entry : List Mark => !entry.isEmpty := by
    funext entry
    have same : rendered width entry = [] ↔ entry = [] :=
      rendered_eq_nil_iff width
    rw [Function.comp, Bool.eq_iff_iff]
    simp [same]
  rw [splitCommas, passes_nesting.pieces_rendered width (by simp),
    List.map_map, trims, ← List.map_map, List.filter_map, filled]
  rfl

/-- An entry of a list is a part of the list. -/
theorem infix_of_mem_markEntries {marks entry : List Mark}
    (member : entry ∈ markEntries marks) : entry <:+: marks := by
  obtain ⟨piece, known, rfl⟩ := List.mem_map.mp (List.mem_of_mem_filter member)
  exact (isInfix_trimMarks piece).trans (infix_of_mem_pieces _ _ known)

/-- Every piece of a steady list is steady by itself. -/
theorem Steady.markPieces {nesting : Nesting} {marks : List Mark}
    (steady : Steady nesting marks) :
    ∃ first others, markPieces nesting marks = first :: others ∧
      Steady nesting first ∧ ∀ piece ∈ others, Steady {} piece := by
  induction marks generalizing nesting with
  | nil => exact ⟨[], [], rfl, trivial, by simp⟩
  | cons mark rest ih =>
      have behind : Steady (nesting.advance (shown mark)) rest := by
        cases mark with
        | letter character => exact steady
        | gap narrow wide =>
            have same : nesting.advance (shown (Mark.gap narrow wide)) =
                nesting := Nesting.advance_of_isBlank steady.1
                  (isBlank_shown_gap narrow wide)
            rw [same]
            exact steady.2
      obtain ⟨first, others, parts, starts, inside⟩ := ih behind
      rw [Snowform.markPieces] at parts ⊢
      rw [pieces, parts]
      split
      next stops =>
        refine ⟨[], first :: others, rfl, trivial, ?_⟩
        -- A comma separates outside of quotes and parentheses only.
        have comma : nesting.advance (shown mark) = {} := by
          simp only [Nesting.separates, Bool.and_eq_true, beq_iff_eq] at stops
          rw [stops.2, Nesting.advance_of_plain stops.1.1 (by decide)]
          cases nesting
          simp_all
        rw [comma] at starts
        exact List.forall_mem_cons.mpr ⟨starts, inside⟩
      next =>
        refine ⟨mark :: first, others, rfl, ?_, inside⟩
        cases mark with
        | letter character => exact starts
        | gap narrow wide =>
            have same : nesting.advance (shown (Mark.gap narrow wide)) =
                nesting := Nesting.advance_of_isBlank steady.1
                  (isBlank_shown_gap narrow wide)
            rw [same] at starts
            exact ⟨steady.1, starts⟩

/-- No entry of a list has a gap where a quote is open, if the list has none. -/
theorem Steady.of_mem_markEntries {marks entry : List Mark}
    (steady : Steady {} marks) (member : entry ∈ markEntries marks) :
    Steady {} entry := by
  obtain ⟨piece, known, rfl⟩ := List.mem_map.mp (List.mem_of_mem_filter member)
  obtain ⟨first, others, parts, starts, inside⟩ := steady.markPieces
  rw [parts] at known
  apply Steady.trimMarks rfl
  rcases List.mem_cons.mp known with rfl | later
  · exact starts
  · exact inside piece later

/-! ## Names -/

theorem replaceAll_ne_nil {pattern replacement text : Text}
    (replaces : replacement ≠ []) (nonempty : text ≠ []) :
    replaceAll pattern replacement text ≠ [] := by
  cases text with
  | nil => exact absurd rfl nonempty
  | cons character rest =>
      rw [replaceAll, replaceFrom]
      split
      · exact List.append_ne_nil_of_left_ne_nil replaces _
      · exact List.cons_ne_nil _ _

/-- A text with a blank inside is not empty without its quotes. -/
theorem unquote_ne_nil_of_blank {written : Text} {character : Char}
    (member : character ∈ trim written) (blank : isBlank character = true) :
    unquote written ≠ [] := by
  have notQuote : character ≠ '"' := by
    rintro rfl
    cases blank
  have notTick : character ≠ '\x60' := by
    rintro rfl
    cases blank
  rw [unquote]
  split
  next quoted =>
    obtain ⟨size, starts, ends⟩ := quoted
    obtain ⟨others, trimmed⟩ := List.head?_eq_some_iff.mp starts
    rw [trimmed] at member ends size ⊢
    have later := (List.mem_cons.mp member).resolve_left notQuote
    have nonempty : others ≠ [] := List.ne_nil_of_mem later
    rw [List.getLast?_cons, List.getLast?_eq_some_getLast nonempty] at ends
    have last : others.getLast nonempty = '"' := Option.some.inj ends
    apply replaceAll_ne_nil (List.cons_ne_nil _ _)
    rw [← List.dropLast_append_getLast nonempty, last] at later
    have inside := (List.mem_append.mp later).resolve_right
      (fun known => notQuote (List.mem_singleton.mp known))
    exact List.ne_nil_of_mem inside
  next =>
    refine List.ne_nil_of_mem (a := character) ?_
    rw [List.mem_filter]
    exact ⟨member, by simp [notQuote, notTick]⟩

/-- Whether a name is empty does not depend on the width of its gaps. -/
theorem isEmpty_unquote_rendered (width other : Width) (marks : List Mark) :
    (unquote (rendered width marks)).isEmpty =
      (unquote (rendered other marks)).isEmpty := by
  obtain ⟨text, rest, parts, starts⟩ := exists_letters (trimMarks marks)
  cases rest with
  | nil =>
      have same : trim (rendered width marks) = trim (rendered other marks) := by
        rw [trim_rendered, trim_rendered, parts, List.append_nil,
          rendered_letters, rendered_letters]
      rw [unquote, unquote, same]
  | cons mark behind =>
      -- A gap is part of the name at any width.
      have filled : ∀ width : Width,
          (unquote (rendered width marks)).isEmpty = false := by
        intro width
        have blank := starts.isBlank_head width
        cases shown : rendered width (mark :: behind) with
        | nil => cases (rendered_eq_nil_iff width).mp shown
        | cons first others =>
            rw [shown] at blank
            have inside : first ∈ trim (rendered width marks) := by
              rw [trim_rendered, parts, rendered_append, shown]
              exact List.mem_append_right _ List.mem_cons_self
            rw [List.isEmpty_eq_false_iff]
            exact unquote_ne_nil_of_blank inside (blank first rfl)
      rw [filled, filled]

/-- The names that the two renderings of a stretch of marks write. -/
def Writes (marks : List Mark) (name other : Text) : Prop :=
  ∃ stretch, stretch <:+: marks ∧
    name = unquote (rendered .narrow stretch) ∧
    other = unquote (rendered .wide stretch)

/-- Names that are equal but for gaps inside of them. -/
def SameName (marks : List Mark) (name other : Text) : Prop :=
  name = other ∨ Writes marks name other

/-- Two lists of names, which are the same one by one. -/
def SameNames (marks : List Mark) : List Text → List Text → Prop :=
  List.Forall₂ (SameName marks)

/--
The names of a list are the same in either spacing, but for gaps inside of
them.
-/
theorem identifierList_rendered (marks : List Mark) :
    SameNames marks (identifierList (rendered .narrow marks))
      (identifierList (rendered .wide marks)) := by
  have named : ∀ entries : List (List Mark),
      (∀ entry ∈ entries, entry <:+: marks) →
        SameNames marks
          (((entries.map (rendered .narrow)).map unquote).filter
            fun name => !name.isEmpty)
          (((entries.map (rendered .wide)).map unquote).filter
            fun name => !name.isEmpty) := by
    intro entries inside
    induction entries with
    | nil => exact .nil
    | cons entry others ih =>
        rw [List.forall_mem_cons] at inside
        simp only [List.map_cons, List.filter_cons,
          isEmpty_unquote_rendered .wide .narrow entry]
        split
        · exact .cons (Or.inr ⟨entry, inside.1, rfl, rfl⟩) (ih inside.2)
        · exact ih inside.2
  rw [identifierList, identifierList, splitCommas_rendered,
    splitCommas_rendered]
  exact named _ fun _ => infix_of_mem_markEntries

/-- Names that are the same within a part are the same within the whole. -/
theorem SameName.mono {part marks : List Mark} {name other : Text}
    (same : SameName part name other) (inside : part <:+: marks) :
    SameName marks name other := by
  refine same.imp_right ?_
  rintro ⟨stretch, known, narrow, wide⟩
  exact ⟨stretch, known.trans inside, narrow, wide⟩

theorem SameNames.mono {part marks : List Mark} {names others : List Text}
    (same : SameNames part names others) (inside : part <:+: marks) :
    SameNames marks names others :=
  List.Forall₂.imp (fun _ _ known => known.mono inside) same

/-! ## Qualified names -/

/-- Qualified names, which are the same part by part. -/
structure SameQualifiedName (marks : List Mark)
    (name other : QualifiedName) : Prop where
  database : Option.Rel (SameName marks) name.database other.database
  schema : Option.Rel (SameName marks) name.schema other.schema
  name : SameName marks name.name other.name

theorem passes_dots : Passes
    (fun quoted character => !quoted && character == '.')
    (fun quoted character => quoted != (character == '"'))
    (fun _ : Bool => True) where
  keeps _ _ := trivial
  quiet {quoted} _ {character} blank := by
    have dot : character ≠ '.' := by
      rintro rfl
      cases blank
    have quote : character ≠ '"' := by
      rintro rfl
      cases blank
    rw [beq_false_of_ne dot, beq_false_of_ne quote]
    cases quoted <;> exact ⟨rfl, rfl⟩

/-- The parts of a name that marks write, last one first. -/
theorem exists_parts (marks : List Mark) :
    ∃ parts : List (List Mark), (∀ part ∈ parts, part <:+: marks) ∧
      ∀ width, ((QualifiedName.dotted (trim (rendered width marks))).map
        unquote).reverse = parts.map fun part => unquote (rendered width part) := by
  refine ⟨(pieces (fun quoted mark => !quoted && shown mark == '.')
    (fun quoted mark => quoted != (shown mark == '"')) false
      (trimMarks marks)).reverse, ?_, ?_⟩
  · intro part member
    exact (infix_of_mem_pieces _ _ (List.mem_reverse.mp member)).trans
      (isInfix_trimMarks marks)
  · intro width
    rw [trim_rendered, QualifiedName.dotted,
      passes_dots.pieces_rendered width trivial, List.map_map,
      ← List.map_reverse]
    rfl

/--
A qualified name is the same in either spacing, but for gaps inside of its
parts.
-/
theorem sameQualifiedName_rendered (marks : List Mark) :
    SameQualifiedName marks (QualifiedName.ofText (rendered .narrow marks))
      (QualifiedName.ofText (rendered .wide marks)) := by
  obtain ⟨parts, inside, known⟩ := exists_parts marks
  have same : ∀ part ∈ parts, SameName marks
      (unquote (rendered .narrow part)) (unquote (rendered .wide part)) :=
    fun part member => Or.inr ⟨part, inside part member, rfl, rfl⟩
  rw [QualifiedName.ofText, QualifiedName.ofText, known, known]
  rcases parts with _ | ⟨name, _ | ⟨schema, _ | ⟨database, others⟩⟩⟩
  · exact ⟨.none, .none, Or.inl rfl⟩
  · exact ⟨.none, .none, same name (by simp)⟩
  · exact ⟨.none, .some (same schema (by simp)), same name (by simp)⟩
  · exact ⟨.some (same database (by simp)), .some (same schema (by simp)),
      same name (by simp)⟩

theorem SameName.mono_option {part marks : List Mark}
    (inside : part <:+: marks) {name other : Option Text}
    (same : Option.Rel (SameName part) name other) :
    Option.Rel (SameName marks) name other := by
  cases same with
  | none => exact .none
  | some known => exact .some (known.mono inside)

theorem SameQualifiedName.mono {part marks : List Mark}
    {name other : QualifiedName} (same : SameQualifiedName part name other)
    (inside : part <:+: marks) : SameQualifiedName marks name other where
  database := SameName.mono_option inside same.database
  schema := SameName.mono_option inside same.schema
  name := same.name.mono inside

end Snowform
