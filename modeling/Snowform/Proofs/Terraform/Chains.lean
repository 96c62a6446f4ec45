import Snowform.Proofs.Ddl.QuotedNames
import Snowform.Proofs.Text.Searching
import Snowform.Proofs.Text.Uppercase
import Snowform.Terraform.Reference

/-!
# Chains of name parts

What a search finds behind a keyword is a chain of parts that are joined by
dots.  A part has at least one character between its quotes, or it is a word.
The chain is read as a name part by part, so that the name at its end is
never empty.
-/

namespace Snowform.Terraform

open Text Lexical

/-! ## Parts -/

/-- A part of a name as it is found: between quotes or as a word. -/
inductive IsPart : Text → Prop where
  | quoted {name : Text} (nonempty : name ≠ []) (noQuote : '"' ∉ name) :
      IsPart (quotedName name)
  | bare {word : Text} (nonempty : word ≠ [])
      (continues : ∀ character ∈ word, continuesPart character = true) :
      IsPart word

theorem isBlank_of_continuesPart {character : Char}
    (continues : continuesPart character = true) :
    isBlank character = false := by
  have range : 36 ≤ character.toNat ∧ character.toNat ≤ 95 := by
    simp only [continuesPart, startsPart, Bool.or_eq_true, beq_iff_eq,
      isUpper_iff_toNat, isDigit_iff_toNat] at continues
    rcases continues with ((upper | rfl) | number) | rfl
    · omega
    · decide
    · omega
    · decide
  rw [Bool.eq_false_iff]
  intro blank
  have := toNat_of_isBlank blank
  omega

/-- A word of name characters has neither quotes nor dots. -/
theorem ne_of_continuesPart {character : Char}
    (continues : continuesPart character = true) :
    character ≠ '"' ∧ character ≠ '.' ∧ character ≠ '\x60' := by
  refine ⟨?_, ?_, ?_⟩ <;>
    · rintro rfl
      exact absurd continues (by decide)

namespace IsPart

variable {part : Text}

theorem ne_nil (isPart : IsPart part) : part ≠ [] := by
  cases isPart with
  | quoted nonempty noQuote => exact List.cons_ne_nil _ _
  | bare nonempty continues => exact nonempty

theorem head?_not_blank (isPart : IsPart part) :
    ∀ character ∈ part.head?, isBlank character = false := by
  cases isPart with
  | quoted nonempty noQuote =>
      intro character member
      cases member
      decide
  | bare nonempty continues =>
      intro character member
      exact isBlank_of_continuesPart
        (continues character (List.mem_of_mem_head? member))

theorem getLast?_not_blank (isPart : IsPart part) :
    ∀ character ∈ part.getLast?, isBlank character = false := by
  cases isPart with
  | quoted nonempty noQuote =>
      intro character member
      rw [getLast?_quotedName] at member
      cases member
      decide
  | bare nonempty continues =>
      intro character member
      exact isBlank_of_continuesPart
        (continues character (List.mem_of_mem_getLast? member))

/-- A part writes a name that is not empty. -/
theorem unquote_ne_nil (isPart : IsPart part) : unquote part ≠ [] := by
  have trimmed : trim part = part :=
    trim_eq_self isPart.head?_not_blank isPart.getLast?_not_blank
  cases isPart with
  | quoted nonempty noQuote =>
      rw [unquote_quotedName]
      exact nonempty
  | bare nonempty continues =>
      have noQuote : part.head? ≠ some '"' := fun first =>
        (ne_of_continuesPart
          (continues _ (List.mem_of_mem_head? first))).1 rfl
      have kept : part.filter (fun character =>
          character != '"' && character != '\x60') = part := by
        apply List.filter_eq_self.mpr
        intro character member
        obtain ⟨quote, -, mark⟩ := ne_of_continuesPart
          (continues character member)
        rw [bne_iff_ne.mpr quote, bne_iff_ne.mpr mark]
        rfl
      unfold unquote
      rw [trimmed, if_neg fun quoted => noQuote quoted.2.1, kept]
      exact nonempty

/-- No dot that separates parts stands inside of one. -/
theorem pieces_append (isPart : IsPart part) (rest : Text) :
    pieces dotSeparates quoteAdvances false (part ++ rest) =
      part.foldr consFirst
        (pieces dotSeparates quoteAdvances false rest) := by
  cases isPart with
  | quoted nonempty noQuote => exact pieces_quotedName _ rest
  | bare nonempty continues =>
      clear nonempty
      induction part with
      | nil => rfl
      | cons character others ih =>
          rw [List.forall_mem_cons] at continues
          obtain ⟨quote, dot, -⟩ := ne_of_continuesPart continues.1
          have stays : quoteAdvances false character = false := by
            simp [quoteAdvances, quote]
          rw [List.cons_append, pieces, if_neg (by simp [dot]), stays,
            ih continues.2, List.foldr_cons]

end IsPart

/-! ## Chains -/

/-- Parts that are joined by dots. -/
inductive IsChain : Text → Prop where
  | last {part : Text} (isPart : IsPart part) : IsChain part
  | more {part chain : Text} (isPart : IsPart part)
      (behind : IsChain chain) : IsChain (part ++ '.' :: chain)

namespace IsChain

variable {chain : Text}

theorem trim_eq (isChain : IsChain chain) : trim chain = chain := by
  apply trim_eq_self
  · cases isChain with
    | last isPart => exact isPart.head?_not_blank
    | more isPart behind =>
        rw [List.head?_append_of_ne_nil _ isPart.ne_nil]
        exact isPart.head?_not_blank
  · induction isChain with
    | last isPart => exact isPart.getLast?_not_blank
    | @more part chain isPart behind ih =>
        rw [List.getLast?_append_cons]
        cases chain with
        | nil =>
            rintro character ⟨⟩
            decide
        | cons character rest => exact ih

/-- A chain is cut at its dots into parts. -/
theorem exists_dotted_eq (isChain : IsChain chain) :
    ∃ parts part, IsPart part ∧
      QualifiedName.dotted chain = parts ++ [part] := by
  induction isChain with
  | @last part isPart =>
      refine ⟨[], part, isPart, ?_⟩
      have cut := isPart.pieces_append []
      rw [List.append_nil] at cut
      change pieces dotSeparates quoteAdvances false part = _
      rw [cut]
      change part.foldr consFirst [[]] = _
      rw [foldr_consFirst, List.append_nil, List.nil_append]
  | @more part chain isPart behind ih =>
      obtain ⟨parts, ending, isEnding, cut⟩ := ih
      refine ⟨part :: parts, ending, isEnding, ?_⟩
      change pieces dotSeparates quoteAdvances false _ = _
      rw [isPart.pieces_append]
      change part.foldr consFirst ([] :: QualifiedName.dotted chain) = _
      rw [foldr_consFirst, List.append_nil, cut, List.cons_append]

/-- The name that a chain writes is not empty. -/
theorem name_ofText_ne_nil (isChain : IsChain chain) :
    (QualifiedName.ofText chain).name ≠ [] := by
  obtain ⟨parts, part, isPart, cut⟩ := isChain.exists_dotted_eq
  have named : (QualifiedName.ofText chain).name = unquote part := by
    rw [QualifiedName.ofText, isChain.trim_eq, cut, List.map_append,
      List.map_singleton, List.reverse_append, List.reverse_singleton,
      List.singleton_append]
    rcases (parts.map unquote).reverse with _ | ⟨schema, _ | ⟨database, _⟩⟩ <;>
      rfl
  rw [named]
  exact isPart.unquote_ne_nil

end IsChain

/-! ## What a search finds -/

/-- A closing quote is found behind at least one character. -/
theorem exists_quoted_of_afterPart? {rest after : Text}
    (found : afterPart? ('"' :: rest) = some after) :
    ∃ name, name ≠ [] ∧ '"' ∉ name ∧ rest = name ++ '"' :: after := by
  have parts := List.takeWhile_append_dropWhile (p := (· != '"')) (l := rest)
  have stops := List.head?_dropWhile_not (· != '"') rest
  rw [afterPart?, if_pos rfl] at found
  cases behind : rest.dropWhile (· != '"') with
  | nil =>
      rw [behind] at found
      cases found
  | cons closing tail =>
      rw [behind] at found parts stops
      have closes : closing = '"' := by simpa using stops
      subst closes
      dsimp only at found
      split_ifs at found with empty
      cases found
      refine ⟨rest.takeWhile (· != '"'), ?_, ?_, parts.symm⟩
      · intro nothing
        rw [nothing, List.nil_append] at parts
        exact empty (parts ▸ rfl)
      · intro inside
        have goes := List.mem_takeWhile_imp inside
        simp at goes

theorem exists_part_of_afterPart? {text after : Text}
    (found : afterPart? text = some after) :
    ∃ part, IsPart part ∧ text = part ++ after := by
  cases text with
  | nil => cases found
  | cons character rest =>
      by_cases quote : character = '"'
      · subst quote
        obtain ⟨name, nonempty, noQuote, rfl⟩ :=
          exists_quoted_of_afterPart? found
        refine ⟨quotedName name, .quoted nonempty noQuote, ?_⟩
        rw [quotedName, doubled_of_not_mem noQuote, List.cons_append,
          List.append_assoc, List.singleton_append]
      · rw [afterPart?, if_neg quote] at found
        split_ifs at found with starts
        cases found
        have continues : continuesPart character = true := by
          rw [continuesPart, starts]
          rfl
        refine ⟨character :: rest.takeWhile continuesPart,
          .bare (List.cons_ne_nil _ _) ?_, ?_⟩
        · exact List.forall_mem_cons.mpr
            ⟨continues, fun _ => List.mem_takeWhile_imp⟩
        · rw [List.cons_append, List.takeWhile_append_dropWhile]

theorem exists_chain_of_afterMoreParts {part : Text} (isPart : IsPart part)
    (count : Nat) (text : Text) :
    ∃ chain, IsChain chain ∧
      part ++ text = chain ++ afterMoreParts count text := by
  induction count generalizing part text with
  | zero => exact ⟨part, .last isPart, rfl⟩
  | succ count ih =>
      rw [afterMoreParts]
      split
      next after found =>
        obtain ⟨tail, dot, next⟩ := Option.bind_eq_some_iff.mp found
        obtain ⟨second, isSecond, rfl⟩ := exists_part_of_afterPart? next
        obtain ⟨chain, isChain, same⟩ := ih isSecond after
        have dotted : text = '.' :: (second ++ after) := by
          cases text with
          | nil => cases dot
          | cons character rest =>
              rw [character?] at dot
              split_ifs at dot with isDot
              cases dot
              exact congrArg (· :: _) isDot
        refine ⟨part ++ '.' :: chain, .more isPart isChain, ?_⟩
        rw [dotted, same, List.append_assoc, List.cons_append]
      next => exact ⟨part, .last isPart, rfl⟩

theorem exists_chain_of_afterChain? {text after : Text}
    (found : afterChain? text = some after) :
    ∃ chain, IsChain chain ∧ text = chain ++ after := by
  obtain ⟨rest, first, rfl⟩ := Option.map_eq_some_iff.mp found
  obtain ⟨part, isPart, rfl⟩ := exists_part_of_afterPart? first
  exact exists_chain_of_afterMoreParts isPart 2 rest

theorem isChain_of_mention? {keyword behind ahead rest : Text}
    {mention : Mention}
    (found : mention? keyword behind ahead = some (mention, rest)) :
    IsChain mention.chain := by
  rw [mention?] at found
  split at found
  next =>
    obtain ⟨word, -, found⟩ := Option.bind_eq_some_iff.mp found
    obtain ⟨start, -, found⟩ := Option.bind_eq_some_iff.mp found
    obtain ⟨after, chained, found⟩ := Option.bind_eq_some_iff.mp found
    obtain ⟨chain, isChain, same⟩ := exists_chain_of_afterChain? chained
    rw [same, upTo_append] at found
    split at found
    all_goals
      cases found
      exact isChain
  next => cases found

/-- Every reference of a text is read from a chain. -/
theorem exists_chain_of_mem_references {policy : Policy}
    {keywords : List Text} {text : Text} {reference : NormalName}
    (member : reference ∈ references policy keywords text) :
    ∃ chain, IsChain chain ∧
      reference = NormalName.ofName policy (QualifiedName.ofText chain) := by
  obtain ⟨found, inside, followed⟩ := List.mem_filterMap.mp member
  obtain ⟨ahead, after, recognised, -⟩ := exists_of_mem_occurrences inside
  obtain ⟨keyword, -, mentioned⟩ :=
    List.exists_of_findSome?_eq_some recognised
  refine ⟨found.2.chain, isChain_of_mention? mentioned, ?_⟩
  rw [Mention.reference?] at followed
  split_ifs at followed
  exact (Option.some.inj followed).symm

end Snowform.Terraform
