import Snowform.Proofs.Lexical.Rescanning

/-!
# Texts behind a fill

The inside of a literal and the whole of a comment are hidden behind a fill
character, one for every byte.  Line feeds stay, and so do the delimiters of
a literal.

The inside of a literal shows no delimiter any more.  So a literal that is
closed ends where it did, and one that is open still runs to the end:
`Mode.MaskedAs` says which of the two it is, and `MaskedAs.special?` that it
is found again.
-/

namespace Snowform

open Text Lexical

namespace Lexical

/-! ## Texts behind a fill -/

/-- What is seen of a text that is hidden behind a fill. -/
def covered (fill : Char) (text : Text) : Text :=
  (text.flatMap (veil fill)).map Cell.visible

theorem covered_cons (fill character : Char) (rest : Text) :
    covered fill (character :: rest) =
      (veil fill character).map Cell.visible ++ covered fill rest := by
  simp [covered]

theorem map_visible_veil (fill character : Char) :
    (veil fill character).map Cell.visible =
      if character = '\n' then ['\n']
      else List.replicate character.utf8Size fill := by
  rw [veil]
  split
  next feed =>
    rw [feed]
    rfl
  next =>
    have positive : 0 < character.utf8Size := character.utf8Size_pos
    have size : character.utf8Size = character.utf8Size - 1 + 1 := by omega
    rw [List.map_cons, List.map_replicate, size, List.replicate_succ,
      Nat.add_sub_cancel]
    rfl

theorem eq_of_mem_covered {fill character : Char} {text : Text}
    (member : character ∈ covered fill text) :
    character = fill ∨ character = '\n' := by
  induction text with
  | nil => cases member
  | cons first rest ih =>
      rw [covered_cons, map_visible_veil] at member
      rcases List.mem_append.mp member with here | later
      · split at here
        next => exact Or.inr (List.mem_singleton.mp here)
        next => exact Or.inl (List.eq_of_mem_replicate here)
      · exact ih later

/-- A fill of one byte keeps the size of what it hides. -/
theorem byteSize_covered {fill : Char} (narrow : fill.utf8Size = 1)
    (text : Text) : byteSize (covered fill text) = byteSize text := by
  have repeated : ∀ count, byteSize (List.replicate count fill) = count := by
    intro count
    induction count with
    | zero => rfl
    | succ count ih =>
        rw [List.replicate_succ, byteSize_cons, narrow, ih, Nat.add_comm]
  induction text with
  | nil => rfl
  | cons first rest ih =>
      rw [covered_cons, byteSize_append, ih, map_visible_veil, byteSize_cons]
      split
      next feed =>
        rw [feed]
        rfl
      next => rw [repeated]

/-- Hiding a text that only shows the fill changes nothing. -/
theorem covered_of_forall {fill : Char} (narrow : fill.utf8Size = 1)
    {text : Text}
    (hidden : ∀ character ∈ text, character = fill ∨ character = '\n') :
    covered fill text = text := by
  induction text with
  | nil => rfl
  | cons first rest ih =>
      rw [List.forall_mem_cons] at hidden
      rw [covered_cons, map_visible_veil, ih hidden.2]
      split
      next feed => rw [feed, List.singleton_append]
      next other =>
        have same : first = fill := hidden.1.resolve_right other
        rw [same, narrow, List.replicate_one, List.singleton_append]

/-- Covering a covered text changes nothing. -/
theorem covered_covered {fill : Char} (narrow : fill.utf8Size = 1)
    (text : Text) : covered fill (covered fill text) = covered fill text :=
  covered_of_forall narrow fun _ => eq_of_mem_covered

theorem covered_ne_nil {fill : Char} {text : Text} (nonempty : text ≠ []) :
    covered fill text ≠ [] := by
  cases text with
  | nil => exact absurd rfl nonempty
  | cons first rest =>
      have positive : 0 < first.utf8Size := first.utf8Size_pos
      rw [covered_cons, map_visible_veil]
      split
      · exact List.cons_ne_nil _ _
      · apply List.append_ne_nil_of_left_ne_nil
        rw [Ne, List.replicate_eq_nil_iff]
        omega

end Lexical

/-! ## Regions behind a fill -/

/-- The kinds of regions that stand between delimiters. -/
def RegionKind.isLiteral : RegionKind → Bool
  | .singleQuote => true
  | .doubleQuote => true
  | .dollarQuote => true
  | _ => false

/-- What is seen of a region. -/
def Region.masked (region : Region) : Text :=
  region.cells.map Cell.visible

theorem Lexical.mask_eq_flatMap (script : Text) :
    mask script = (lexemes script).flatMap Region.masked := by
  rw [mask, cells, List.map_flatMap]
  rfl

namespace Region

theorem masked_code (text : Text) :
    (⟨.code, text⟩ : Region).masked = text := by
  change (text.map Cell.plain).map Cell.visible = text
  rw [List.map_map]
  exact List.map_id text

theorem masked_comment {region : Region}
    (comment : region.kind.isComment = true) :
    region.masked = covered ' ' region.text := by
  obtain ⟨kind, text⟩ := region
  cases kind with
  | lineComment => rfl
  | blockComment => rfl
  | _ => cases comment

/-- The inside of a literal is hidden between its delimiters. -/
theorem cells_literal {region : Region} {delimiter tail : Text}
    (literal : region.kind.isLiteral = true)
    (delimited : region.delimiter = delimiter)
    (whole : region.text = delimiter ++ tail) :
    region.cells =
      delimiter.map .plain ++
        ((tail.take (tail.length - region.closingLength)).flatMap (veil '_') ++
          (tail.drop (tail.length - region.closingLength)).map .plain) := by
  have cells : region.cells = region.delimitedCells := by
    obtain ⟨kind, text⟩ := region
    cases kind with
    | singleQuote => rfl
    | doubleQuote => rfl
    | dollarQuote => rfl
    | _ => cases literal
  rw [cells, delimitedCells, delimited, whole]
  simp only [List.take_left, List.drop_left, List.append_assoc]

/-- A literal has a closing delimiter when its tail ends with one. -/
theorem closingLength_eq {region : Region} {delimiter tail : Text}
    (delimited : region.delimiter = delimiter)
    (whole : region.text = delimiter ++ tail) :
    region.closingLength =
      if delimiter <:+ tail then delimiter.length else 0 := by
  rw [closingLength, delimited, whole]
  by_cases ends : delimiter <:+ tail
  · have room := ends.length_le
    rw [if_pos ends, if_pos]
    constructor
    · rw [List.length_append]
      omega
    · rw [List.isSuffixOf_iff_suffix]
      exact ends.trans (List.suffix_append delimiter tail)
  · rw [if_neg ends, if_neg]
    rintro ⟨room, suffix⟩
    rw [List.length_append] at room
    rw [List.isSuffixOf_iff_suffix] at suffix
    exact ends (List.suffix_of_suffix_length_le suffix
      (List.suffix_append delimiter tail) (by omega))

theorem cells_closed {region : Region} {delimiter inside : Text}
    (literal : region.kind.isLiteral = true)
    (delimited : region.delimiter = delimiter)
    (whole : region.text = delimiter ++ (inside ++ delimiter)) :
    region.cells = delimiter.map .plain ++
      (inside.flatMap (veil '_') ++ delimiter.map .plain) := by
  have closing := closingLength_eq delimited whole
  rw [if_pos (List.suffix_append inside delimiter)] at closing
  have inner : (inside ++ delimiter).length - delimiter.length =
      inside.length := by
    rw [List.length_append, Nat.add_sub_cancel]
  rw [cells_literal literal delimited whole, closing, inner, List.take_left,
    List.drop_left]

theorem cells_unclosed {region : Region} {delimiter tail : Text}
    (literal : region.kind.isLiteral = true)
    (delimited : region.delimiter = delimiter)
    (whole : region.text = delimiter ++ tail)
    (unclosed : ¬ delimiter <:+ tail) :
    region.cells = delimiter.map .plain ++ tail.flatMap (veil '_') := by
  have closing := closingLength_eq delimited whole
  rw [if_neg unclosed] at closing
  rw [cells_literal literal delimited whole, closing, Nat.sub_zero,
    List.take_length, List.drop_length, List.map_nil, List.append_nil]

theorem map_visible_plain (text : Text) :
    (text.map Cell.plain).map Cell.visible = text :=
  masked_code text

/-- A closed literal is masked between its delimiters. -/
theorem masked_closed {region : Region} {delimiter inside : Text}
    (literal : region.kind.isLiteral = true)
    (delimited : region.delimiter = delimiter)
    (whole : region.text = delimiter ++ (inside ++ delimiter)) :
    region.masked = delimiter ++ (covered '_' inside ++ delimiter) := by
  rw [masked, cells_closed literal delimited whole]
  simp only [List.map_append, map_visible_plain]
  rfl

/-- A literal that is still open is masked up to the end. -/
theorem masked_unclosed {region : Region} {delimiter tail : Text}
    (literal : region.kind.isLiteral = true)
    (delimited : region.delimiter = delimiter)
    (whole : region.text = delimiter ++ tail)
    (unclosed : ¬ delimiter <:+ tail) :
    region.masked = delimiter ++ covered '_' tail := by
  rw [masked, cells_unclosed literal delimited whole unclosed]
  simp only [List.map_append, map_visible_plain]
  rfl

end Region

/-! ## Literals behind a fill -/

namespace Lexical

theorem quotedRest_append_of_not_mem {quote : Char} {part : Text}
    (absent : quote ∉ part) (rest : Text) :
    quotedRest quote (part ++ rest) = part ++ quotedRest quote rest := by
  induction part with
  | nil => rfl
  | cons first others ih =>
      rw [List.mem_cons, not_or] at absent
      rw [List.cons_append, quotedRest_of_ne (Ne.symm absent.1), ih absent.2,
        List.cons_append]

theorem upThrough_append_of_not_mem {first : Char} {part : Text}
    (absent : first ∉ part) (pattern rest : Text) :
    upThrough (first :: pattern) (part ++ rest) =
      part ++ upThrough (first :: pattern) rest := by
  induction part with
  | nil => rfl
  | cons character others ih =>
      rw [List.mem_cons, not_or] at absent
      have notHere : ¬ (first :: pattern).isPrefixOf
          (character :: (others ++ rest)) = true := by
        rw [List.isPrefixOf_iff_prefix, List.cons_prefix_cons]
        exact fun both => absent.1 both.1
      rw [List.cons_append, upThrough, if_neg notHere, ih absent.2,
        List.cons_append]

theorem upThrough_self_append {pattern : Text} (nonempty : pattern ≠ [])
    (rest : Text) : upThrough pattern (pattern ++ rest) = pattern := by
  cases pattern with
  | nil => exact absurd rfl nonempty
  | cons first others =>
      have here : (first :: others).isPrefixOf
          (first :: (others ++ rest)) = true :=
        List.isPrefixOf_iff_prefix.mpr ⟨rest, rfl⟩
      rw [List.cons_append, upThrough, if_pos here]

/-- A quoted stretch that does not run to the end is closed by a quote. -/
theorem quotedRest_closes (quote : Char) {text rest : Text}
    (parts : quotedRest quote text ++ rest = text) :
    rest = [] ∨
      [quote] <:+ quotedRest quote text ∧ rest.head? ≠ some quote := by
  induction text using quotedInduction quote with
  | nil => exact Or.inl (List.append_eq_nil_iff.mp parts).2
  | other character others differs ih =>
      rw [quotedRest_of_ne differs] at parts ⊢
      refine (ih (List.cons.inj parts).2).imp_right ?_
      rintro ⟨ends, single⟩
      exact ⟨ends.trans (List.suffix_cons _ _), single⟩
  | doubled others ih =>
      rw [quotedRest_doubled] at parts ⊢
      refine (ih (List.cons.inj (List.cons.inj parts).2).2).imp_right ?_
      rintro ⟨ends, single⟩
      exact ⟨ends.trans (List.suffix_append [quote, quote] _), single⟩
  | closed others single =>
      rw [quotedRest_closed single] at parts ⊢
      have same : rest = others := (List.cons.inj parts).2
      rw [same]
      exact Or.inr ⟨List.suffix_rfl, single⟩

/-- A search that does not run to the end has found its pattern. -/
theorem upThrough_closes (pattern : Text) {text rest : Text}
    (parts : upThrough pattern text ++ rest = text) :
    rest = [] ∨ pattern <:+ upThrough pattern text := by
  induction text with
  | nil => exact Or.inl (List.append_eq_nil_iff.mp parts).2
  | cons character others ih =>
      rw [upThrough] at parts ⊢
      split
      next => exact Or.inr List.suffix_rfl
      next notHere =>
        rw [if_neg notHere] at parts
        refine (ih (List.cons.inj parts).2).imp_right ?_
        exact fun ends => ends.trans (List.suffix_cons _ _)

end Lexical

namespace Mode

/-- What may follow the closing delimiter of a literal without doubling it. -/
def MayFollow (mode : Mode) (rest : Text) : Prop :=
  match mode with
  | .singleQuote => rest.head? ≠ some '\''
  | .doubleQuote => rest.head? ≠ some '"'
  | _ => True

/-- The tag of a dollar marker is found whatever stands behind it. -/
theorem tag?_closed {tag : Text} (opens : (dollarQuote tag).Opens)
    (tail : Text) : tag? (tag ++ (['$'] ++ tail)) = some tag := by
  rw [tag?_eq_some_iff, ← List.append_assoc]
  exact ⟨opens, List.prefix_append _ _⟩

/-- The marker that opens a dollar quote is read back. -/
theorem dollarMarker?_opening {tag : Text} (opens : (dollarQuote tag).Opens)
    (tail : Text) :
    dollarMarker? ((dollarQuote tag).opening ++ tail) =
      some (dollarQuote tag).opening := by
  rw [opening, List.append_assoc, List.cons_append, dollarMarker?_cons,
    tag?_closed opens]
  rfl

/-- The delimiter of a literal is what opened it. -/
theorem delimiter_region {mode : Mode} (opens : mode.Opens)
    (literal : mode.kind.isLiteral = true) (tail : Text) :
    (⟨mode.kind, mode.opening ++ tail⟩ : Region).delimiter =
      mode.opening := by
  cases mode with
  | singleQuote => rfl
  | doubleQuote => rfl
  | dollarQuote tag =>
      change (dollarMarker? ((dollarQuote tag).opening ++ tail)).getD _ = _
      rw [dollarMarker?_opening opens]
      rfl
  | _ => cases literal

/-- What an opening opens does not depend on what follows it. -/
theorem openedBy?_opening {afterName : Bool} {text : Text} {mode : Mode}
    (opened : openedBy? afterName text = some mode) (other : Text) :
    openedBy? afterName (mode.opening ++ other) = some mode := by
  rw [openedBy?.eq_def] at opened
  split at opened
  next =>
    cases opened
    rfl
  next =>
    cases opened
    rfl
  next =>
    cases opened
    rfl
  next =>
    cases opened
    rfl
  next rest =>
    split at opened
    · cases opened
    next noName =>
      obtain ⟨tag, found, rfl⟩ := Option.map_eq_some_iff.mp opened
      rw [opening, List.append_assoc, List.cons_append, openedBy?,
        if_neg noName, tag?_closed (tag?_eq_some_iff.mp found).1]
      rfl
  next => cases opened

/-- A literal runs to the end of its text or is closed by its delimiter. -/
theorem remainder_closes {mode : Mode} (literal : mode.kind.isLiteral = true)
    {text rest : Text} (parts : mode.remainder text ++ rest = text) :
    rest = [] ∨
      mode.opening <:+ mode.remainder text ∧ mode.MayFollow rest := by
  cases mode with
  | singleQuote => exact quotedRest_closes '\'' parts
  | doubleQuote => exact quotedRest_closes '"' parts
  | dollarQuote tag =>
      refine (upThrough_closes _ parts).imp_right ?_
      exact fun ends => ⟨ends, trivial⟩
  | _ => cases literal

theorem not_mem_covered {fill character : Char} (apart : character ≠ fill)
    (noFeed : character ≠ '\n') (text : Text) :
    character ∉ covered fill text := by
  intro member
  rcases eq_of_mem_covered member with same | feed
  · exact apart same
  · exact noFeed feed

/-- The hidden inside of a literal shows nothing that would close it. -/
theorem remainder_covered_append {mode : Mode}
    (literal : mode.kind.isLiteral = true) (inside rest : Text) :
    mode.remainder (covered '_' inside ++ rest) =
      covered '_' inside ++ mode.remainder rest := by
  cases mode with
  | singleQuote =>
      exact quotedRest_append_of_not_mem
        (not_mem_covered (by decide) (by decide) inside) rest
  | doubleQuote =>
      exact quotedRest_append_of_not_mem
        (not_mem_covered (by decide) (by decide) inside) rest
  | dollarQuote tag =>
      exact upThrough_append_of_not_mem
        (not_mem_covered (by decide) (by decide) inside) (tag ++ ['$']) rest
  | _ => cases literal

/-- An empty literal is closed by the delimiter behind its opening. -/
theorem remainder_opening {mode : Mode}
    (literal : mode.kind.isLiteral = true) {rest : Text}
    (follows : mode.MayFollow rest) :
    mode.remainder (mode.opening ++ rest) = mode.opening := by
  cases mode with
  | singleQuote => exact quotedRest_closed follows
  | doubleQuote => exact quotedRest_closed follows
  | dollarQuote tag =>
      exact upThrough_self_append (List.cons_ne_nil '$' (tag ++ ['$'])) rest
  | _ => cases literal

end Mode

/-! ## Blanked comments and closed literals -/

namespace Lexical

theorem isBlank_of_mem_covered_blank {character : Char} {text : Text}
    (member : character ∈ covered ' ' text) : isBlank character = true := by
  rcases eq_of_mem_covered member with rfl | rfl
  · decide
  · decide

end Lexical

theorem RegionKind.isLiteral_or_isComment {kind : RegionKind}
    (notCode : kind ≠ .code) :
    kind.isLiteral = true ∨ kind.isComment = true := by
  cases kind with
  | code => exact absurd rfl notCode
  | _ => simp [isLiteral, isComment]

theorem RegionKind.isComment_of_isLiteral {kind : RegionKind}
    (literal : kind.isLiteral = true) : kind.isComment = false := by
  cases kind with
  | code => rfl
  | singleQuote => rfl
  | doubleQuote => rfl
  | dollarQuote => rfl
  | _ => cases literal

namespace Mode

/--
The literal of a mode in front of a rest is closed and masked between its
delimiters, or it is open, and then there is no rest.
-/
inductive MaskedAs (mode : Mode) (region : Region) (rest : Text) : Prop where
  | closed (inside : Text)
      (whole : region.text = mode.opening ++ (inside ++ mode.opening))
      (masked : region.masked =
        mode.opening ++ (covered '_' inside ++ mode.opening))
      (follows : mode.MayFollow rest)
  | unclosed (inside : Text)
      (whole : region.text = mode.opening ++ inside)
      (stays : ¬ mode.opening <:+ inside)
      (masked : region.masked = mode.opening ++ covered '_' inside)
      (ends : rest = [])

/--
A literal is closed and masked between its delimiters, or it is open to the
end.
-/
theorem maskedAs {mode : Mode} (opens : mode.Opens)
    (literal : mode.kind.isLiteral = true) {text rest : Text}
    (parts : mode.remainder text ++ rest = text) :
    mode.MaskedAs ⟨mode.kind, mode.opening ++ mode.remainder text⟩ rest := by
  have delimited := delimiter_region opens literal (mode.remainder text)
  by_cases ends : mode.opening <:+ mode.remainder text
  · obtain ⟨inside, whole⟩ := ends
    rw [← whole] at delimited
    have follows : mode.MayFollow rest := by
      rcases remainder_closes literal parts with rfl | ⟨-, follows⟩
      · cases mode <;> simp [MayFollow]
      · exact follows
    rw [← whole]
    exact .closed inside rfl (Region.masked_closed literal delimited rfl)
      follows
  · have noRest : rest = [] :=
      (remainder_closes literal parts).resolve_right fun closed =>
        ends closed.1
    exact .unclosed _ rfl ends
      (Region.masked_unclosed literal delimited rfl ends) noRest

/-- A masked literal is found again where the literal was found. -/
theorem MaskedAs.special? {mode : Mode} {region : Region} {rest : Text}
    (maskedAs : mode.MaskedAs region rest)
    (literal : mode.kind.isLiteral = true) {afterName : Bool} {text : Text}
    (opened : openedBy? afterName text = some mode) {behind : Text}
    (keeps : mode.MayFollow rest → mode.MayFollow behind)
    (ends : rest = [] → behind = []) :
    Lexical.special? afterName (region.masked ++ behind) =
      some ⟨mode.kind, region.masked⟩ := by
  cases maskedAs with
  | closed inside whole masked follows =>
      have again := openedBy?_opening opened
        (covered '_' inside ++ (mode.opening ++ behind))
      have parts : region.masked ++ behind =
          mode.opening ++ (covered '_' inside ++ (mode.opening ++ behind)) := by
        rw [masked]
        simp only [List.append_assoc]
      rw [special?_eq, parts, again, Option.map_some, Mode.region,
        List.drop_left, remainder_covered_append literal,
        remainder_opening literal (keeps follows), masked]
  | unclosed inside whole stays masked noRest =>
      have again := openedBy?_opening opened (covered '_' inside)
      have open? := remainder_covered_append literal inside []
      rw [remainder_nil, List.append_nil] at open?
      rw [ends noRest, List.append_nil, masked, special?_eq, again,
        Option.map_some, Mode.region, List.drop_left, open?]

/-- A masked literal continues a name as the literal did. -/
theorem MaskedAs.nameBehind_eq {mode : Mode} {region : Region} {rest : Text}
    (maskedAs : mode.MaskedAs region rest) (opens : mode.Opens)
    (before after : Bool) :
    nameBehind before region.masked = nameBehind after region.text ∨
      rest = [] := by
  cases maskedAs with
  | closed inside whole masked follows =>
      refine Or.inl ?_
      have ending : ∀ first second : Bool,
          nameBehind first mode.opening = nameBehind second mode.opening := by
        intro first second
        cases parts : mode.opening with
        | nil => exact absurd parts opens.opening_ne_nil
        | cons character others => rfl
      rw [whole, masked]
      simp only [nameBehind_append]
      exact ending _ _
  | unclosed inside whole stays masked noRest => exact Or.inr noRest

end Mode

end Snowform
