import Snowform.Proofs.Lexical.Fronts
import Snowform.Proofs.Lexical.Quoting

/-!
# Blanks and comments

A masked script shows a comment as blanks.  What consists of blanks and of
comments that end is a gap: it is all blank when it is masked, and what follows
it is masked as if it stood alone.
-/

namespace Snowform

open Text

/-- A region that a masked script shows as blanks: a comment, or blank code. -/
def Region.IsTrivial (region : Region) : Prop :=
  region.kind.isComment = true ∨
    region.kind = .code ∧ ∀ character ∈ region.text, isBlank character = true

instance (region : Region) : Decidable region.IsTrivial :=
  have : Decidable (∀ character ∈ region.text,
      isBlank character = true) := List.decidableBAll _ region.text
  inferInstanceAs (Decidable (_ ∨ _ ∧ _))

theorem Region.IsTrivial.isBlank_shown {region : Region}
    (trivial : region.IsTrivial) {cell : Cell} (member : cell ∈ region.cells) :
    isBlank (shown cell) = true := by
  rcases trivial with comment | ⟨code, blank⟩
  · have hidden : region.cells = region.text.flatMap (Lexical.veil ' ') := by
      obtain ⟨kind, text⟩ := region
      cases kind <;> first | rfl | cases comment
    rw [hidden] at member
    exact Lexical.forall_shown_of_veil (isBlank · = true) (by decide)
      (by decide) cell member
  · rw [Region.cells, code] at member
    obtain ⟨character, known, rfl⟩ := List.mem_map.mp member
    exact blank character known

namespace Lexical

/-- Blanks and comments that end, a line comment with the feed behind it. -/
inductive IsGap : Text → Prop
  | nil : IsGap []
  | blank {first : Char} {rest : Text} :
      isBlank first = true → IsGap rest → IsGap (first :: rest)
  | line {content rest : Text} :
      '\n' ∉ content → IsGap rest →
        IsGap ('-' :: '-' :: (content ++ '\n' :: rest))
  | block {content rest : Text} :
      ¬ ['*', '/'] <:+: content → IsGap rest →
        IsGap ('/' :: '*' :: (content ++ '*' :: '/' :: rest))

/-- The search for the end of a block comment passes over what holds none. -/
theorem upThrough_blockEnd {content : Text}
    (free : ¬ ['*', '/'] <:+: content) (rest : Text) :
    upThrough ['*', '/'] (content ++ '*' :: '/' :: rest) =
      content ++ ['*', '/'] := by
  induction content with
  | nil => exact upThrough_self_append (List.cons_ne_nil _ _) rest
  | cons first others ih =>
      have notHere : ¬ ['*', '/'] <+:
          first :: (others ++ '*' :: '/' :: rest) := by
        intro starts
        obtain ⟨rfl, behind⟩ := List.cons_prefix_cons.mp starts
        cases others with
        | nil => exact absurd (List.cons_prefix_cons.mp behind).1 (by decide)
        | cons second further =>
            obtain ⟨rfl, -⟩ := List.cons_prefix_cons.mp behind
            exact free ⟨[], further, rfl⟩
      rw [List.cons_append, upThrough,
        if_neg (mt List.isPrefixOf_iff_prefix.mp notHere),
        ih fun inside => free (inside.trans (List.suffix_cons _ _).isInfix)]
      rfl

theorem lexemes_lineComment {content : Text} (free : '\n' ∉ content)
    (rest : Text) :
    lexemes ('-' :: '-' :: (content ++ '\n' :: rest)) =
      ⟨.lineComment, '-' :: '-' :: content⟩ :: ⟨.code, ['\n']⟩ ::
        lexemes rest := by
  have neutral : isNeutral '\n' = true := by decide
  have stops : (content ++ '\n' :: rest).takeWhile (· != '\n') = content := by
    have others : ∀ character ∈ content, (character != '\n') = true := by
      intro character member
      rw [bne_iff_ne]
      exact fun feed => free (feed ▸ member)
    rw [List.takeWhile_append_of_pos others,
      List.takeWhile_cons_of_neg (by decide), List.append_nil]
  have found : special? false
      ((⟨.lineComment, '-' :: '-' :: content⟩ : Region).text ++
        '\n' :: rest) = some ⟨.lineComment, '-' :: '-' :: content⟩ :=
    congrArg (fun inside => some (⟨.lineComment, '-' :: '-' :: inside⟩ : Region))
      stops
  exact (lexemesFrom_special found).trans
    (congrArg _ (lexemesFrom_neutral neutral _ rest))

theorem lexemes_blockComment {content : Text}
    (free : ¬ ['*', '/'] <:+: content) (rest : Text) :
    lexemes ('/' :: '*' :: (content ++ '*' :: '/' :: rest)) =
      ⟨.blockComment, '/' :: '*' :: (content ++ ['*', '/'])⟩ ::
        lexemes rest := by
  have found : special? false
      ((⟨.blockComment, '/' :: '*' :: (content ++ ['*', '/'])⟩ : Region).text ++
        rest) = some ⟨.blockComment, '/' :: '*' :: (content ++ ['*', '/'])⟩ := by
    have inside : upThrough ['*', '/'] (content ++ ['*', '/'] ++ rest) =
        content ++ ['*', '/'] := by
      rw [List.append_assoc]
      exact upThrough_blockEnd free rest
    exact congrArg
      (fun text => some (⟨.blockComment, '/' :: '*' :: text⟩ : Region)) inside
  have behind : nameBehind false
      ('/' :: '*' :: (content ++ ['*', '/'])) = false := by
    have slash : continuesName '/' = false := by decide
    rw [nameBehind_cons, nameBehind_cons, nameBehind_append, nameBehind_cons,
      nameBehind_cons, nameBehind_nil, slash]
  have parts := lexemesFrom_special found
  rw [behind] at parts
  simpa [lexemes] using parts

/-- What follows a gap is cut as if it stood alone. -/
theorem IsGap.exists_lexemes {gap : Text} (isGap : IsGap gap) :
    ∃ regions, (∀ region ∈ regions, region.IsTrivial) ∧
      ∀ rest, lexemes (gap ++ rest) = regions ++ lexemes rest := by
  induction isGap with
  | nil => exact ⟨[], List.forall_mem_nil _, fun rest => rfl⟩
  | @blank first rest blank _ ih =>
      obtain ⟨regions, trivial, parts⟩ := ih
      have isTrivial : (⟨.code, [first]⟩ : Region).IsTrivial :=
        .inr ⟨rfl, List.forall_mem_singleton.mpr blank⟩
      refine ⟨⟨.code, [first]⟩ :: regions,
        List.forall_mem_cons.mpr ⟨isTrivial, trivial⟩, fun behind => ?_⟩
      rw [List.cons_append, lexemes,
        lexemesFrom_neutral (isNeutral_of_isBlank blank), parts]
      rfl
  | @line content rest free _ ih =>
      obtain ⟨regions, trivial, parts⟩ := ih
      have isTrivial : (⟨.code, ['\n']⟩ : Region).IsTrivial := by decide
      refine ⟨⟨.lineComment, '-' :: '-' :: content⟩ :: ⟨.code, ['\n']⟩ ::
        regions, ?_, fun behind => ?_⟩
      · simp only [List.forall_mem_cons]
        exact ⟨.inl rfl, isTrivial, trivial⟩
      · have whole : '-' :: '-' :: (content ++ '\n' :: rest) ++ behind =
            '-' :: '-' :: (content ++ '\n' :: (rest ++ behind)) := by
          simp
        rw [whole, lexemes_lineComment free, parts]
        rfl
  | @block content rest free _ ih =>
      obtain ⟨regions, trivial, parts⟩ := ih
      refine ⟨⟨.blockComment, '/' :: '*' :: (content ++ ['*', '/'])⟩ :: regions,
        List.forall_mem_cons.mpr ⟨.inl rfl, trivial⟩, fun behind => ?_⟩
      have whole : '/' :: '*' :: (content ++ '*' :: '/' :: rest) ++ behind =
          '/' :: '*' :: (content ++ '*' :: '/' :: (rest ++ behind)) := by
        simp
      rw [whole, lexemes_blockComment free, parts]
      rfl

/-- A gap is blank when it is masked. -/
theorem IsGap.exists_cells {gap : Text} (isGap : IsGap gap) :
    ∃ hidden : List Cell, (∀ cell ∈ hidden, isBlank (shown cell) = true) ∧
      ∀ rest, cells (gap ++ rest) = hidden ++ cells rest := by
  obtain ⟨regions, trivial, parts⟩ := isGap.exists_lexemes
  refine ⟨regions.flatMap Region.cells, ?_, fun rest => ?_⟩
  · intro cell member
    obtain ⟨region, known, inside⟩ := List.mem_flatMap.mp member
    exact (trivial region known).isBlank_shown inside
  · rw [cells, parts, List.flatMap_append]
    rfl

end Lexical

end Snowform
