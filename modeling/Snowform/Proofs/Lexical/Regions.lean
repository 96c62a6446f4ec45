import Snowform.Lexical.Place
import Snowform.Proofs.Lexical.Lexemes
import Snowform.Proofs.Text.Bytes
import Mathlib.Data.List.Chain

/-!
# Regions and the bytes they cover

Joining neighbouring code changes neither the text of a script nor the kind
of any of its characters, and leaves no two regions of code in a row.

Spans that follow each other tile the text of their regions.  The kind of a
byte is looked up in them by offset, which is the same as looking it up in
the characters that are painted with the kinds of their regions.
-/

namespace Snowform.Lexical

open Text

/-- The characters of regions with the kinds of their regions. -/
def painted (regions : List Region) : List (Char × RegionKind) :=
  regions.flatMap fun region => region.text.map fun character =>
    (character, region.kind)

/-- The number of bytes of a painted character. -/
def paintedWidth (shown : Char × RegionKind) : Nat :=
  shown.1.utf8Size

@[simp]
theorem painted_nil : painted [] = [] := rfl

@[simp]
theorem painted_cons (region : Region) (others : List Region) :
    painted (region :: others) =
      (region.text.map fun character => (character, region.kind)) ++
        painted others := rfl

@[simp]
theorem painted_append (first second : List Region) :
    painted (first ++ second) = painted first ++ painted second := by
  simp [painted]

/-- Painting keeps the characters. -/
theorem map_fst_painted (regions : List Region) :
    (painted regions).map Prod.fst = textOf regions := by
  induction regions with
  | nil => rfl
  | cons region others ih =>
      rw [painted_cons, List.map_append, ih, textOf_cons, List.map_map]
      congr 1
      exact List.map_id _

theorem coveredSize_map_paint (kind : RegionKind) (text : Text) :
    coveredSize paintedWidth (text.map fun character => (character, kind)) =
      byteSize text := by
  rw [coveredSize_map]
  rfl

/-- Painted regions are as wide as their text. -/
theorem coveredSize_painted (regions : List Region) :
    coveredSize paintedWidth (painted regions) =
      byteSize (textOf regions) := by
  induction regions with
  | nil => rfl
  | cons region others ih =>
      rw [painted_cons, coveredSize_append, coveredSize_map_paint, ih,
        textOf_cons, byteSize_append]

/-! ## Joining code -/

/-- Joining code changes no text. -/
theorem textOf_joinCode (region : Region) (others : List Region) :
    textOf (joinCode region others) = region.text ++ textOf others := by
  cases others with
  | nil => rfl
  | cons next rest =>
      rw [joinCode]
      split
      next => simp
      next => rfl

/-- Joining code changes the kind of no character. -/
theorem painted_joinCode (region : Region) (others : List Region) :
    painted (joinCode region others) = painted (region :: others) := by
  cases others with
  | nil => rfl
  | cons next rest =>
      rw [joinCode]
      split
      next codes => simp [codes.1, codes.2]
      next => rfl

/-- The kinds of two regions that may stand next to each other. -/
def Separated (first second : Region) : Prop :=
  ¬ (first.kind = .code ∧ second.kind = .code)

/-- Joined code stands next to no other code. -/
theorem isChain_joinCode {region : Region} {others : List Region}
    (apart : others.IsChain Separated) :
    (joinCode region others).IsChain Separated := by
  cases others with
  | nil => exact List.isChain_singleton region
  | cons next rest =>
      rw [joinCode]
      split
      next codes =>
        rw [List.isChain_cons] at apart ⊢
        refine ⟨?_, apart.2⟩
        intro following member both
        exact apart.1 following member ⟨codes.2, both.2⟩
      next differ => exact apart.cons_cons differ

theorem textOf_foldr_joinCode (regions : List Region) :
    textOf (regions.foldr joinCode []) = textOf regions := by
  induction regions with
  | nil => rfl
  | cons region others ih =>
      rw [List.foldr_cons, textOf_joinCode, ih, textOf_cons]

theorem painted_foldr_joinCode (regions : List Region) :
    painted (regions.foldr joinCode []) = painted regions := by
  induction regions with
  | nil => rfl
  | cons region others ih =>
      rw [List.foldr_cons, painted_joinCode, painted_cons, ih, painted_cons]

/-- Joined regions are not empty if those that are joined are not. -/
theorem forall_nonempty_foldr_joinCode {regions : List Region}
    (nonempty : ∀ region ∈ regions, region.text ≠ []) :
    ∀ region ∈ regions.foldr joinCode [], region.text ≠ [] := by
  induction regions with
  | nil => exact nonempty
  | cons region others ih =>
      rw [List.forall_mem_cons] at nonempty
      have joined := ih nonempty.2
      rw [List.foldr_cons]
      cases equal : others.foldr joinCode [] with
      | nil =>
          rw [joinCode, List.forall_mem_singleton]
          exact nonempty.1
      | cons next rest =>
          rw [equal, List.forall_mem_cons] at joined
          rw [joinCode]
          split
          next =>
            rw [List.forall_mem_cons]
            exact ⟨List.append_ne_nil_of_left_ne_nil nonempty.1 _, joined.2⟩
          next =>
            rw [List.forall_mem_cons, List.forall_mem_cons]
            exact ⟨nonempty.1, joined⟩

/-- Scanned regions are the script when they are put together. -/
theorem textOf_scan (script : Text) : textOf (scan script) = script := by
  rw [scan, textOf_foldr_joinCode, textOf_lexemes]

/-- Scanning gives every character the kind of its lexeme. -/
theorem painted_scan (script : Text) :
    painted (scan script) = painted (lexemes script) :=
  painted_foldr_joinCode (lexemes script)

/-- No scanned region is empty. -/
theorem text_ne_nil_of_mem_scan {script : Text} {region : Region}
    (member : region ∈ scan script) : region.text ≠ [] :=
  forall_nonempty_foldr_joinCode
    (fun _ found => (isLexeme_of_mem_lexemes found).1) region member

/-- No two regions of code follow each other. -/
theorem isChain_scan (script : Text) : (scan script).IsChain Separated := by
  rw [scan]
  induction lexemes script with
  | nil => exact List.isChain_nil
  | cons region others ih => exact isChain_joinCode ih

/-! ## Spans -/

theorem map_region_spansFrom (start : Nat) (regions : List Region) :
    (spansFrom start regions).map Span.region = regions := by
  induction regions generalizing start with
  | nil => rfl
  | cons region others ih => rw [spansFrom, List.map_cons, ih]

/-- The first span starts where the spans do. -/
theorem start_of_mem_head?_spansFrom {start : Nat} {regions : List Region}
    {span : Span} (first : span ∈ (spansFrom start regions).head?) :
    span.start = start := by
  cases regions with
  | nil => cases first
  | cons region others =>
      cases first
      rfl

/-- Every span starts where the one before it stops. -/
theorem isChain_spansFrom (start : Nat) (regions : List Region) :
    (spansFrom start regions).IsChain fun first second =>
      first.stop = second.start := by
  induction regions generalizing start with
  | nil => exact List.isChain_nil
  | cons region others ih =>
      rw [spansFrom, List.isChain_cons]
      refine ⟨?_, ih _⟩
      intro next first
      exact (start_of_mem_head?_spansFrom first).symm

/-- The last span stops where the text of all regions does. -/
theorem getLast?_spansFrom (start : Nat) (regions : List Region) :
    ((spansFrom start regions).getLast?.map Span.stop).getD start =
      start + byteSize (textOf regions) := by
  induction regions generalizing start with
  | nil => rfl
  | cons region others ih =>
      rw [spansFrom, List.getLast?_cons, textOf_cons, byteSize_append,
        ← Nat.add_assoc, ← ih]
      cases (spansFrom (start + byteSize region.text) others).getLast? <;> rfl

/-- A span covers exactly the text of its region. -/
theorem slice?_of_mem_spansFrom (before : Text) {regions : List Region}
    {span : Span} (member : span ∈ spansFrom (byteSize before) regions) :
    span.stop = span.start + byteSize span.region.text ∧
      slice? span.start span.stop (before ++ textOf regions) =
        some span.region.text := by
  induction regions generalizing before with
  | nil => cases member
  | cons region others ih =>
      rw [spansFrom, ← byteSize_append] at member
      rcases List.mem_cons.mp member with rfl | later
      · refine ⟨byteSize_append before region.text, ?_⟩
        rw [textOf_cons, ← List.append_assoc, byteSize_append]
        exact slice?_byteSize before region.text (textOf others)
      · rw [textOf_cons, ← List.append_assoc]
        exact ih (before ++ region.text) later

/-! ## Kinds of bytes -/

/-- The byte of a span is a byte of its painted characters. -/
theorem coverAt?_map_paint {kind : RegionKind} {text : Text} {byte : Nat}
    (inside : byte < byteSize text) :
    (coverAt? paintedWidth byte
      (text.map fun character => (character, kind))).map Prod.snd =
        some kind := by
  rw [← coveredSize_map_paint kind] at inside
  obtain ⟨shown, covers⟩ := exists_coverAt? inside
  obtain ⟨character, -, rfl⟩ := List.mem_map.mp (mem_of_coverAt? covers)
  rw [covers]
  rfl

/-- The span over a byte has the kind of the character over that byte. -/
theorem find?_spansFrom (start byte : Nat) (regions : List Region) :
    (((spansFrom start regions).find? fun span =>
      span.start ≤ start + byte && start + byte < span.stop).map
        fun span => span.region.kind) =
      (coverAt? paintedWidth byte (painted regions)).map Prod.snd := by
  induction regions generalizing start byte with
  | nil => rfl
  | cons region others ih =>
      rw [spansFrom, painted_cons]
      by_cases inside : byte < byteSize region.text
      · have below : byte < coveredSize paintedWidth
            (region.text.map fun character => (character, region.kind)) := by
          rw [coveredSize_map_paint]
          exact inside
        rw [coverAt?_append_left below, coverAt?_map_paint inside]
        simp [inside]
      · obtain ⟨rest, rfl⟩ := Nat.exists_eq_add_of_le (Nat.le_of_not_lt inside)
        have behind : coveredSize paintedWidth
            (region.text.map fun character => (character, region.kind)) ≤
              byteSize region.text + rest := by
          rw [coveredSize_map_paint]
          exact Nat.le_add_right _ _
        rw [coverAt?_append_right behind, coveredSize_map_paint,
          Nat.add_sub_cancel_left, ← ih (start + byteSize region.text) rest,
          List.find?_cons_of_neg (by simp)]
        simp only [Nat.add_assoc]

/-- The kind of a byte is the one that its character is painted with. -/
theorem kindAt?_eq (script : Text) (byte : Nat) :
    kindAt? script byte =
      (coverAt? paintedWidth byte (painted (lexemes script))).map
        Prod.snd := by
  rw [← painted_scan, ← find?_spansFrom 0, kindAt?, spans]
  simp only [Nat.zero_add]

/-- The character over a byte is found among the painted ones. -/
theorem characterAt?_eq (script : Text) (byte : Nat) :
    characterAt? script byte =
      (coverAt? paintedWidth byte (painted (lexemes script))).map
        Prod.fst := by
  have unpainted : script = (painted (lexemes script)).map Prod.fst := by
    rw [map_fst_painted, textOf_lexemes]
  conv_lhs => rw [unpainted, characterAt?]
  exact coverAt?_map Prod.fst (fun _ => rfl) byte _

end Snowform.Lexical
