import Snowform.Text.Bytes
import Mathlib.Data.List.Basic

/-!
# Offsets and characters

A byte offset is a place of a text exactly when it is the size of a part that
the text starts with.  The lemmas of this module turn offsets into such
parts, so that everything else can be proved about lists.

Looking up the element that covers a byte is a lookup in the first or the
second of two lists, as the byte lies before or behind the end of the first.
-/

namespace Snowform.Text

/-! ## Sizes -/

section Sizes

variable {α : Type} {width : α → Nat}

@[simp]
theorem coveredSize_nil : coveredSize width [] = 0 := rfl

@[simp]
theorem coveredSize_cons (element : α) (rest : List α) :
    coveredSize width (element :: rest) =
      width element + coveredSize width rest := rfl

@[simp]
theorem coveredSize_append (first second : List α) :
    coveredSize width (first ++ second) =
      coveredSize width first + coveredSize width second := by
  induction first with
  | nil => simp
  | cons element rest ih =>
      rw [List.cons_append, coveredSize_cons, coveredSize_cons, ih,
        Nat.add_assoc]

theorem coveredSize_map {β : Type} (change : β → α) (list : List β) :
    coveredSize width (list.map change) =
      coveredSize (fun element => width (change element)) list := by
  induction list with
  | nil => rfl
  | cons element rest ih =>
      rw [List.map_cons, coveredSize_cons, coveredSize_cons, ih]

end Sizes

@[simp]
theorem byteSize_nil : byteSize [] = 0 := rfl

@[simp]
theorem byteSize_cons (character : Char) (rest : Text) :
    byteSize (character :: rest) = character.utf8Size + byteSize rest := rfl

@[simp]
theorem byteSize_append (first second : Text) :
    byteSize (first ++ second) = byteSize first + byteSize second :=
  coveredSize_append first second

theorem length_le_byteSize (text : Text) : text.length ≤ byteSize text := by
  induction text with
  | nil => exact Nat.le_refl 0
  | cons character rest ih =>
      have positive := character.utf8Size_pos
      rw [byteSize_cons, List.length_cons]
      omega

theorem byteSize_pos {text : Text} (nonempty : text ≠ []) :
    0 < byteSize text := by
  cases text with
  | nil => exact absurd rfl nonempty
  | cons character rest =>
      rw [byteSize_cons]
      have positive : 0 < character.utf8Size := character.utf8Size_pos
      omega

/-! ## Cutting -/

/-- A list of elements that are all wide can be cut behind each of them. -/
theorem cutAt?_coveredSize {α : Type} {width : α → Nat}
    (wide : ∀ element, 0 < width element) (before after : List α) :
    cutAt? width (coveredSize width before) (before ++ after) =
      some (before, after) := by
  induction before with
  | nil => cases after <;> simp [cutAt?]
  | cons element rest ih =>
      have positive := wide element
      have notStart : width element + coveredSize width rest ≠ 0 := by omega
      have fits : width element ≤ width element + coveredSize width rest := by
        omega
      have remaining :
          width element + coveredSize width rest - width element =
            coveredSize width rest := by
        omega
      rw [coveredSize_cons, List.cons_append, cutAt?, if_neg notStart,
        if_pos fits, remaining, ih]
      rfl

/-- A text can be cut behind every part that it starts with. -/
theorem cutAt?_byteSize (before after : Text) :
    cutAt? Char.utf8Size (byteSize before) (before ++ after) =
      some (before, after) :=
  cutAt?_coveredSize (fun character => character.utf8Size_pos) before after

theorem dropBytes?_byteSize (before after : Text) :
    dropBytes? (byteSize before) (before ++ after) = some after := by
  rw [dropBytes?, cutAt?_byteSize]
  rfl

/-- The text between the ends of two parts that a text starts with. -/
theorem slice?_byteSize (before inside after : Text) :
    slice? (byteSize before) (byteSize before + byteSize inside)
        (before ++ inside ++ after) =
      some inside := by
  have size :
      byteSize before + byteSize inside - byteSize before =
        byteSize inside := by
    omega
  rw [slice?, List.append_assoc, dropBytes?_byteSize, size]
  simp [cutAt?_byteSize]

/-- A cut puts a number of bytes in front of the rest. -/
theorem of_cutAt? {α : Type} {width : α → Nat} {bytes : Nat}
    {list before after : List α}
    (cut : cutAt? width bytes list = some (before, after)) :
    list = before ++ after ∧ coveredSize width before = bytes := by
  induction list generalizing bytes before with
  | nil =>
      rw [cutAt?] at cut
      split at cut
      next zero =>
        cases cut
        exact ⟨rfl, zero.symm⟩
      next => cases cut
  | cons element rest ih =>
      rw [cutAt?] at cut
      split at cut
      next zero =>
        cases cut
        exact ⟨rfl, zero.symm⟩
      next =>
        split at cut
        next fits =>
          obtain ⟨⟨front, back⟩, found, same⟩ := Option.map_eq_some_iff.mp cut
          cases same
          obtain ⟨rfl, size⟩ := ih found
          refine ⟨rfl, ?_⟩
          rw [coveredSize_cons, size]
          omega
        next => cases cut

/-- A cut inside the first part of a list. -/
theorem cutAt?_append {α : Type} {width : α → Nat} {bytes : Nat}
    {first : List α} (inside : bytes ≤ coveredSize width first)
    (second : List α) :
    cutAt? width bytes (first ++ second) =
      (cutAt? width bytes first).map fun parts =>
        (parts.1, parts.2 ++ second) := by
  induction first generalizing bytes with
  | nil =>
      obtain rfl : bytes = 0 := Nat.le_zero.mp inside
      cases second <;> rfl
  | cons element others ih =>
      rw [coveredSize_cons] at inside
      rw [List.cons_append, cutAt?, cutAt?]
      split
      · rfl
      · split
        · rw [ih (by omega)]
          cases cutAt? width (bytes - width element) others <;> rfl
        · rfl

theorem dropBytes?_append {bytes : Nat} {first : Text}
    (inside : bytes ≤ byteSize first) (second : Text) :
    dropBytes? bytes (first ++ second) =
      (dropBytes? bytes first).map (· ++ second) := by
  rw [dropBytes?, dropBytes?, cutAt?_append inside, Option.map_map,
    Option.map_map]
  rfl

theorem dropBytes?_suffix {bytes : Nat} {text rest : Text}
    (found : dropBytes? bytes text = some rest) : rest <:+ text := by
  obtain ⟨⟨before, behind⟩, cut, rfl⟩ := Option.map_eq_some_iff.mp found
  obtain ⟨rfl, -⟩ := of_cutAt? cut
  exact List.suffix_append before behind

/-- A slice stands between two parts of the text. -/
theorem exists_parts_of_slice? {start stop : Nat} {text inside : Text}
    (slice : slice? start stop text = some inside) :
    ∃ before after, text = before ++ (inside ++ after) ∧
      byteSize before = start ∧ byteSize inside = stop - start := by
  rw [slice?, dropBytes?, Option.bind_eq_bind, Option.bind_eq_some_iff]
    at slice
  obtain ⟨rest, dropped, taken⟩ := slice
  obtain ⟨⟨before, after⟩, cut, rfl⟩ := Option.map_eq_some_iff.mp dropped
  rw [Option.bind_eq_bind, Option.bind_eq_some_iff] at taken
  obtain ⟨⟨front, back⟩, cutToo, same⟩ := taken
  cases same
  obtain ⟨rfl, startsAt⟩ := of_cutAt? cut
  obtain ⟨rfl, size⟩ := of_cutAt? cutToo
  exact ⟨before, back, rfl, startsAt, size⟩

/-! ## Covering -/

section Cover

variable {α : Type} {width : α → Nat}

theorem coverAt?_append_left {byte : Nat} {first : List α}
    (inside : byte < coveredSize width first) (second : List α) :
    coverAt? width byte (first ++ second) = coverAt? width byte first := by
  induction first generalizing byte with
  | nil => simp at inside
  | cons element rest ih =>
      rw [coveredSize_cons] at inside
      by_cases here : byte < width element
      · simp [coverAt?, here]
      · have later : byte - width element < coveredSize width rest := by omega
        simp [coverAt?, here, ih later]

theorem coverAt?_append_right {byte : Nat} {first : List α}
    (behind : coveredSize width first ≤ byte) (second : List α) :
    coverAt? width byte (first ++ second) =
      coverAt? width (byte - coveredSize width first) second := by
  induction first generalizing byte with
  | nil => simp
  | cons element rest ih =>
      rw [coveredSize_cons] at behind
      have notHere : ¬ byte < width element := by omega
      have later : coveredSize width rest ≤ byte - width element := by omega
      rw [List.cons_append, coverAt?, if_neg notHere, ih later,
        coveredSize_cons, Nat.sub_sub]

/-- The element behind a part of a list covers the byte behind that part. -/
theorem coverAt?_append_cons (before after : List α) (element : α)
    (wide : 0 < width element) :
    coverAt? width (coveredSize width before) (before ++ element :: after) =
      some element := by
  rw [coverAt?_append_right (Nat.le_refl _), Nat.sub_self, coverAt?,
    if_pos wide]

/-- An element that covers a byte stands somewhere in the list. -/
theorem mem_of_coverAt? {byte : Nat} {list : List α} {element : α}
    (covers : coverAt? width byte list = some element) :
    element ∈ list := by
  induction list generalizing byte with
  | nil => simp [coverAt?] at covers
  | cons first rest ih =>
      rw [coverAt?] at covers
      split at covers
      · cases covers
        exact List.mem_cons_self
      · exact List.mem_cons_of_mem first (ih covers)

/-- Every byte of a list is covered. -/
theorem exists_coverAt? {byte : Nat} {list : List α}
    (inside : byte < coveredSize width list) :
    ∃ element, coverAt? width byte list = some element := by
  induction list generalizing byte with
  | nil => simp at inside
  | cons element rest ih =>
      rw [coveredSize_cons] at inside
      by_cases here : byte < width element
      · exact ⟨element, by simp [coverAt?, here]⟩
      · have later : byte - width element < coveredSize width rest := by omega
        obtain ⟨found, covers⟩ := ih later
        exact ⟨found, by simp [coverAt?, here, covers]⟩

/-- Lookups commute with maps that keep the widths. -/
theorem coverAt?_map {β : Type} {other : β → Nat} (change : α → β)
    (keeps : ∀ element, other (change element) = width element)
    (byte : Nat) (list : List α) :
    coverAt? other byte (list.map change) =
      (coverAt? width byte list).map change := by
  induction list generalizing byte with
  | nil => rfl
  | cons element rest ih =>
      rw [List.map_cons, coverAt?, coverAt?, keeps, ih]
      split <;> rfl

end Cover

theorem coveredSize_utf8Size (text : Text) :
    coveredSize Char.utf8Size text = byteSize text := rfl

end Snowform.Text
