import Snowform.Proofs.Lexical.Parting
import Snowform.Proofs.Lexical.Spacing

/-!
# Comments as gaps

A comment of code leaves a gap.  Where comments are removed the gap is one
blank, or the line feed behind a line comment, and where they are covered it
is as wide as the comment was.  `marks` are what both texts have in common.
-/

namespace Snowform

open Text Lexical

/-- The gap of a blank and of blanks in the place of a text. -/
def Lexical.coverGap (first : Char) (rest : Text) : Mark :=
  .gap ⟨[' '], List.cons_ne_nil _ _, List.forall_mem_singleton.mpr (by decide)⟩
    ⟨covered ' ' (first :: rest), covered_ne_nil (List.cons_ne_nil _ _),
      fun _ => isBlank_of_mem_covered_blank⟩

/-- The gap of a line feed and of a line that ends with it. -/
def Lexical.lineGap (text : Text) : Mark :=
  .gap ⟨['\n'], List.cons_ne_nil _ _, List.forall_mem_singleton.mpr (by decide)⟩
    ⟨covered ' ' text ++ ['\n'], List.append_ne_nil_of_right_ne_nil _
      (List.cons_ne_nil _ _), List.forall_mem_append.mpr
        ⟨fun _ => isBlank_of_mem_covered_blank,
          List.forall_mem_singleton.mpr (by decide)⟩⟩

/-- The marks of a line comment and what follows it. -/
def Lexical.markLine (text : Text) : List Mark → List Mark
  | .letter character :: rest =>
      if character = '\n' then lineGap text :: rest
      else .letter character :: rest
  | behind => behind

/-- Put the marks of a region in front of those of what follows. -/
def Region.markOnto (region : Region) (behind : List Mark) : List Mark :=
  match region.kind with
  | .blockComment =>
      match region.text with
      | [] => behind
      | first :: rest => coverGap first rest :: behind
  | .lineComment => markLine region.text behind
  | _ => region.text.map .letter ++ behind

namespace Lexical

def marksOf (regions : List Region) : List Mark :=
  regions.foldr Region.markOnto []

/-- What a script leaves when its comments are removed, or when they are
covered, comment by comment. -/
def marks (script : Text) : List Mark :=
  marksOf (lexemes script)

@[simp]
theorem marksOf_cons (region : Region) (others : List Region) :
    marksOf (region :: others) = region.markOnto (marksOf others) := rfl

/-- A region that is no comment is marked letter by letter. -/
theorem markOnto_of_not_comment {region : Region}
    (other : region.kind.isComment = false) (behind : List Mark) :
    region.markOnto behind = region.text.map .letter ++ behind := by
  obtain ⟨kind, text⟩ := region
  cases kind with
  | lineComment => cases other
  | blockComment => cases other
  | _ => rfl

/-! ## Line feeds behind comments -/

/-- A line comment goes up to a line feed of code. -/
def FeedFollows (first second : Region) : Prop :=
  first.kind = .lineComment → second = ⟨.code, ['\n']⟩

/-- A line comment is followed by its line feed or by nothing. -/
theorem isChain_feedFollows (afterName : Bool) (text : Text) :
    (lexemesFrom 0 afterName text).IsChain FeedFollows := by
  induction afterName, text using lexemeInduction with
  | nil afterName => exact List.isChain_nil
  | code afterName character rest absent ih =>
      rw [lexemesFrom_code absent, List.isChain_cons]
      refine ⟨?_, ih⟩
      intro next first line
      cases line
  | special afterName region rest found ih =>
      rw [lexemesFrom_special found, List.isChain_cons]
      refine ⟨?_, ih⟩
      intro next first line
      obtain ⟨mode, text, -, -, parts, equal⟩ := special?_append_eq_some found
      have isLine : mode = .lineComment := by
        rw [equal] at line
        cases mode with
        | lineComment => rfl
        | _ => cases line
      subst isLine
      change text.takeWhile (· != '\n') ++ rest = text at parts
      have dropped : rest = text.dropWhile (· != '\n') :=
        List.append_cancel_left
          (parts.trans List.takeWhile_append_dropWhile.symm)
      cases rest with
      | nil => cases first
      | cons character others =>
          have stops := List.head?_dropWhile_not (· != '\n') text
          rw [← dropped] at stops
          have feed : character = '\n' := by simpa using stops
          subst feed
          rw [lexemesFrom_code (special?_of_isNeutral (by decide) _ _)] at first
          cases first
          rfl

/-- No line comment stands in front of a mark of code. -/
theorem kind_ne_lineComment {script : Text} {first second : List Region}
    {mark : Char} (noFeed : mark ≠ '\n')
    (parts : lexemes script = first ++ ⟨.code, [mark]⟩ :: second) :
    ∀ last ∈ first.getLast?, last.kind ≠ .lineComment := by
  intro last isLast line
  have chain := isChain_feedFollows false script
  rw [← lexemes, parts, List.isChain_append] at chain
  have same := chain.2.2 last isLast _ rfl line
  injection same with _ text
  exact noFeed (List.cons.inj text).1

/-! ## The two texts -/

/-- Marks in the narrow width are the regions without their comments. -/
theorem rendered_narrow_marksOf {regions : List Region}
    (nonempty : ∀ region ∈ regions, region.text ≠ []) :
    rendered .narrow (marksOf regions) =
      regions.flatMap Region.withoutComment := by
  induction regions with
  | nil => rfl
  | cons region others ih =>
      rw [List.forall_mem_cons] at nonempty
      rw [List.flatMap_cons, ← ih nonempty.2, marksOf_cons]
      obtain ⟨kind, text⟩ := region
      cases kind with
      | blockComment =>
          cases text with
          | nil => exact absurd rfl nonempty.1
          | cons first rest => rfl
      | lineComment =>
          change rendered .narrow (markLine text (marksOf others)) =
            rendered .narrow (marksOf others)
          rw [markLine.eq_def]
          split
          next character rest same =>
            rw [same]
            split
            next feed =>
              rw [feed]
              rfl
            next => rfl
          next => rfl
      | _ =>
          rw [markOnto_of_not_comment rfl, rendered_append, rendered_letters]
          rfl

/-- Marks in the wide width are the regions with blanks for their comments. -/
theorem rendered_wide_marksOf {regions : List Region}
    (nonempty : ∀ region ∈ regions, region.text ≠ [])
    (chain : regions.IsChain FeedFollows)
    (ends : ∀ last ∈ regions.getLast?, last.kind ≠ .lineComment) :
    rendered .wide (marksOf regions) = regions.flatMap Region.blanked := by
  induction regions with
  | nil => rfl
  | cons region others ih =>
      rw [List.forall_mem_cons] at nonempty
      rw [List.isChain_cons] at chain
      have endsToo : ∀ last ∈ others.getLast?, last.kind ≠ .lineComment := by
        intro last isLast
        apply ends
        rw [List.getLast?_cons, Option.mem_def.mp isLast]
        rfl
      have known := ih nonempty.2 chain.2 endsToo
      rw [List.flatMap_cons, ← known, marksOf_cons]
      obtain ⟨kind, text⟩ := region
      cases kind with
      | blockComment =>
          cases text with
          | nil => exact absurd rfl nonempty.1
          | cons first rest => rfl
      | lineComment =>
          -- The line feed behind the comment is part of its gap.
          cases others with
          | nil => exact absurd rfl (ends _ rfl)
          | cons next rest =>
              have feed := chain.1 next rfl rfl
              subst feed
              change covered ' ' text ++ ['\n'] ++ rendered .wide (marksOf rest) =
                covered ' ' text ++ ('\n' :: rendered .wide (marksOf rest))
              rw [List.append_assoc]
              rfl
      | _ =>
          rw [markOnto_of_not_comment rfl, rendered_append, rendered_letters]
          rfl

/-- A script in the narrow width is the script without its comments. -/
theorem rendered_narrow_marks (script : Text) :
    rendered .narrow (marks script) = stripComments script :=
  rendered_narrow_marksOf fun _ member => (isLexeme_of_mem_lexemes member).1

end Lexical

end Snowform
