import Snowform.Proofs.Lexical.Regions

/-!
# Regions cut down to a window

The places of regions are cut down to the bytes of a window and counted from
its first byte; what lies outside is dropped.

Regions are joined from smallest ones, and it does not matter whether they
are joined before or after they are cut down.  So a window can be compared
with a text smallest region by smallest region.
-/

namespace Snowform

open Text Lexical

/-- A stretch of bytes that are all of one kind. -/
structure Stretch where
  kind : RegionKind
  start : Nat
  stop : Nat
  deriving DecidableEq

/-- The place of a span, its text forgotten. -/
def Span.stretch (span : Span) : Stretch :=
  ⟨span.region.kind, span.start, span.stop⟩

namespace Stretch

/--
The part of a stretch between two offsets, counted from the first of them.
-/
def clip? (first last : Nat) (stretch : Stretch) : Option Stretch :=
  let start := max first stretch.start
  let stop := min last stretch.stop
  if start < stop then
    some ⟨stretch.kind, start - first, stop - first⟩
  else
    none

/-- Put a stretch in front, joining code with code. -/
def join (stretch : Stretch) : List Stretch → List Stretch
  | [] => [stretch]
  | next :: rest =>
      if stretch.kind = .code ∧ next.kind = .code then
        ⟨.code, stretch.start, next.stop⟩ :: rest
      else
        stretch :: next :: rest

/-- Stretches that follow each other from an offset on, none of them empty. -/
def Consecutive (start : Nat) : List Stretch → Prop
  | [] => True
  | stretch :: rest =>
      stretch.start = start ∧ start < stretch.stop ∧
        Consecutive stretch.stop rest

theorem Consecutive.join {stretch : Stretch} {list : List Stretch}
    (nonempty : stretch.start < stretch.stop)
    (follows : Consecutive stretch.stop list) :
    Consecutive stretch.start (stretch.join list) := by
  cases list with
  | nil => exact ⟨rfl, nonempty, trivial⟩
  | cons next rest =>
      obtain ⟨starts, more, others⟩ := follows
      rw [Stretch.join]
      split
      next => exact ⟨rfl, nonempty.trans more, others⟩
      next => exact ⟨rfl, nonempty, starts, more, others⟩

theorem Consecutive.foldr_join {start : Nat} {list : List Stretch}
    (follows : Consecutive start list) :
    Consecutive start (list.foldr Stretch.join []) := by
  induction list generalizing start with
  | nil => exact follows
  | cons stretch rest ih =>
      obtain ⟨rfl, nonempty, others⟩ := follows
      exact Consecutive.join nonempty (ih others)

/-! ## What is cut away -/

section Clip

variable {first last : Nat}

/-- Whether a part of a stretch lies in a window. -/
def Meets (first last : Nat) (stretch : Stretch) : Prop :=
  max first stretch.start < min last stretch.stop

theorem clip?_of_meets {stretch : Stretch} (meets : stretch.Meets first last) :
    stretch.clip? first last =
      some ⟨stretch.kind, max first stretch.start - first,
        min last stretch.stop - first⟩ :=
  if_pos meets

theorem clip?_of_not_meets {stretch : Stretch}
    (apart : ¬ stretch.Meets first last) :
    stretch.clip? first last = none :=
  if_neg apart

/-- Nothing behind a window is left. -/
theorem Consecutive.filterMap_clip?_eq_nil {start : Nat}
    {list : List Stretch} (follows : Consecutive start list)
    (behind : last ≤ start) :
    list.filterMap (clip? first last) = [] := by
  induction list generalizing start with
  | nil => rfl
  | cons stretch rest ih =>
      obtain ⟨rfl, nonempty, others⟩ := follows
      have apart : ¬ stretch.Meets first last := by
        rw [Meets]
        omega
      rw [List.filterMap_cons_none (clip?_of_not_meets apart)]
      exact ih others (behind.trans nonempty.le)

/-- If a stretch is left and the next is not, then nothing else is left. -/
theorem filterMap_clip?_eq_nil_of_gone {stretch next : Stretch}
    {rest : List Stretch} (here : stretch.Meets first last)
    (gone : ¬ next.Meets first last)
    (follows : Consecutive stretch.stop (next :: rest)) :
    rest.filterMap (clip? first last) = [] := by
  obtain ⟨starts, nonempty, others⟩ := follows
  rw [Meets] at here gone
  exact others.filterMap_clip?_eq_nil (by omega)

/-- What is left when a stretch is cut down and joined to what else is left. -/
def clipJoin (first last : Nat) (stretch : Stretch) (list : List Stretch) :
    List Stretch :=
  match stretch.clip? first last with
  | none => list.filterMap (clip? first last)
  | some clipped => clipped.join (list.filterMap (clip? first last))

/-- Neighbouring stretches of code are cut down as the one they join to. -/
theorem filterMap_clip?_merged {stretch next : Stretch}
    {rest : List Stretch} (code : stretch.kind = .code)
    (nextCode : next.kind = .code)
    (nonempty : stretch.start < stretch.stop)
    (follows : Consecutive stretch.stop (next :: rest)) :
    List.filterMap (clip? first last)
        (⟨.code, stretch.start, next.stop⟩ :: rest) =
      clipJoin first last stretch (next :: rest) := by
  have bounds := follows
  obtain ⟨starts, more, -⟩ := bounds
  -- The window may take in both stretches, one of them or none.
  by_cases here : stretch.Meets first last
  · have merged : Meets first last ⟨.code, stretch.start, next.stop⟩ := by
      rw [Meets] at here ⊢
      dsimp only
      omega
    rw [List.filterMap_cons_some (clip?_of_meets merged), clipJoin,
      clip?_of_meets here]
    by_cases there : next.Meets first last
    · simp [Stretch.join, code, nextCode, clip?_of_meets there]
    · have ends : min last next.stop = min last stretch.stop := by
        rw [Meets] at here there
        omega
      simp [Stretch.join, code, clip?_of_not_meets there, ends,
        filterMap_clip?_eq_nil_of_gone here there follows]
  · rw [clipJoin, clip?_of_not_meets here]
    by_cases there : next.Meets first last
    · have merged : Meets first last ⟨.code, stretch.start, next.stop⟩ := by
        rw [Meets] at there ⊢
        dsimp only
        omega
      have begins : max first stretch.start = max first next.start := by
        rw [Meets] at here there
        omega
      rw [List.filterMap_cons_some (clip?_of_meets merged),
        List.filterMap_cons_some (clip?_of_meets there), nextCode, begins]
    · have apart : ¬ Meets first last ⟨.code, stretch.start, next.stop⟩ := by
        rw [Meets] at here there ⊢
        dsimp only
        omega
      rw [List.filterMap_cons_none (clip?_of_not_meets apart),
        List.filterMap_cons_none (clip?_of_not_meets there)]

/-- Joining a stretch and cutting it down can be exchanged. -/
theorem filterMap_clip?_join {stretch : Stretch} {list : List Stretch}
    (nonempty : stretch.start < stretch.stop)
    (follows : Consecutive stretch.stop list) :
    (stretch.join list).filterMap (clip? first last) =
      clipJoin first last stretch list := by
  cases list with
  | nil =>
      cases clipped : stretch.clip? first last <;>
        simp [Stretch.join, clipJoin, clipped]
  | cons next rest =>
      rw [Stretch.join]
      split
      next codes =>
        exact filterMap_clip?_merged codes.1 codes.2 nonempty follows
      next apart =>
        rw [clipJoin]
        by_cases here : stretch.Meets first last
        · rw [List.filterMap_cons_some (clip?_of_meets here),
            clip?_of_meets here]
          by_cases there : next.Meets first last
          · simp [Stretch.join, clip?_of_meets there, apart]
          · simp [Stretch.join, clip?_of_not_meets there,
              filterMap_clip?_eq_nil_of_gone here there follows]
        · rw [List.filterMap_cons_none (clip?_of_not_meets here),
            clip?_of_not_meets here]

/-- Joining stretches and cutting them down can be exchanged. -/
theorem filterMap_clip?_foldr_join {start : Nat} {list : List Stretch}
    (follows : Consecutive start list) :
    (list.foldr Stretch.join []).filterMap (clip? first last) =
      (list.filterMap (clip? first last)).foldr Stretch.join [] := by
  induction list generalizing start with
  | nil => rfl
  | cons stretch rest ih =>
      obtain ⟨rfl, nonempty, others⟩ := follows
      rw [List.foldr_cons, filterMap_clip?_join nonempty others.foldr_join,
        clipJoin, ih others]
      cases clipped : stretch.clip? first last with
      | none => rw [List.filterMap_cons_none clipped]
      | some short => rw [List.filterMap_cons_some clipped, List.foldr_cons]

end Clip

end Stretch

/-! ## Places of regions -/

namespace Lexical

/-- The places of regions that follow each other from an offset on. -/
def stretchesFrom (start : Nat) (regions : List Region) : List Stretch :=
  (spansFrom start regions).map Span.stretch

theorem stretchesFrom_cons (start : Nat) (region : Region)
    (others : List Region) :
    stretchesFrom start (region :: others) =
      ⟨region.kind, start, start + byteSize region.text⟩ ::
        stretchesFrom (start + byteSize region.text) others := rfl

theorem stretchesFrom_append (start : Nat) (first second : List Region) :
    stretchesFrom start (first ++ second) =
      stretchesFrom start first ++
        stretchesFrom (start + byteSize (textOf first)) second := by
  induction first generalizing start with
  | nil => rfl
  | cons region others ih =>
      rw [List.cons_append, stretchesFrom_cons, stretchesFrom_cons, ih,
        textOf_cons, byteSize_append, Nat.add_assoc]
      rfl

theorem stretchesFrom_joinCode (start : Nat) (region : Region)
    (others : List Region) :
    stretchesFrom start (joinCode region others) =
      Stretch.join ⟨region.kind, start, start + byteSize region.text⟩
        (stretchesFrom (start + byteSize region.text) others) := by
  cases others with
  | nil => rfl
  | cons next rest =>
      rw [joinCode, stretchesFrom_cons, Stretch.join]
      split
      next codes =>
        rw [stretchesFrom_cons, byteSize_append, Nat.add_assoc]
      next => rfl

/-- The regions of a script stand where their smallest regions join to. -/
theorem map_stretch_spans (script : Text) :
    (spans script).map Span.stretch =
      (stretchesFrom 0 (lexemes script)).foldr Stretch.join [] := by
  rw [spans, scan]
  change stretchesFrom 0 _ = _
  generalize 0 = start
  induction lexemes script generalizing start with
  | nil => rfl
  | cons region others ih =>
      rw [List.foldr_cons, stretchesFrom_joinCode, ih, stretchesFrom_cons,
        List.foldr_cons]

theorem consecutive_stretchesFrom {regions : List Region}
    (nonempty : ∀ region ∈ regions, region.text ≠ []) (start : Nat) :
    Stretch.Consecutive start (stretchesFrom start regions) := by
  induction regions generalizing start with
  | nil => exact trivial
  | cons region others ih =>
      rw [List.forall_mem_cons] at nonempty
      have positive := byteSize_pos nonempty.1
      rw [stretchesFrom_cons]
      exact ⟨rfl, by dsimp only; omega, ih nonempty.2 _⟩

end Lexical

end Snowform
