import Snowform.Files.Path
import Snowform.Proofs.Text.Trimming
import Snowform.Proofs.Text.Words

/-!
# Paths and their file names

A path that does not end in a slash is a base and a file name behind it.  The
base decides where the folder of the file is, and another extension leaves it
as it is.
-/

namespace Snowform.Path

open Text

/-- A text that can be a component of a path. -/
structure IsComponent (name : Text) : Prop where
  nonempty : name ≠ []
  slashless : '/' ∉ name

/-! ## Components -/

/-- A slash parts the components in front of it from those behind it. -/
theorem components_append_slash (before behind : Text) :
    (Path.mk (before ++ '/' :: behind)).components =
      (Path.mk before).components ++ (Path.mk behind).components := by
  rw [components, piecesAt_append_cons before (by rfl), List.filter_append]
  rfl

/-- A component by itself is a path of one component. -/
theorem components_of_isComponent {name : Text} (isComponent : IsComponent name) :
    (Path.mk name).components = [name] := by
  have whole : piecesAt (· == '/') name = [name] :=
    piecesAt_of_forall fun character member => beq_eq_false_iff_ne.mpr
      fun same => isComponent.slashless (same ▸ member)
  rw [components, whole, List.filter_cons_of_pos, List.filter_nil]
  simpa using isComponent.nonempty

/-- A text behind which a component can be written. -/
def IsBase (base : Text) : Prop :=
  base = [] ∨ base.getLast? = some '/'

/-- A component written behind a base is the last component. -/
theorem components_base_append {base name : Text} (isBase : IsBase base)
    (isComponent : IsComponent name) :
    (Path.mk (base ++ name)).components =
      (Path.mk base).components ++ [name] := by
  rcases isBase with rfl | ends
  · exact components_of_isComponent isComponent
  · obtain ⟨start, rfl⟩ := List.getLast?_eq_some_iff.mp ends
    have single := components_append_slash start []
    have nothing : (Path.mk []).components = [] := rfl
    rw [nothing, List.append_nil] at single
    rw [List.append_assoc, List.singleton_append, components_append_slash,
      components_of_isComponent isComponent, single]

/-! ## File names -/

/-- A path that is a base with a component behind it. -/
structure IsSplit (path : Path) (base name : Text) : Prop where
  text : path.text = base ++ name
  isBase : IsBase base
  isComponent : IsComponent name

/-- Without a slash at its end a path has a file name. -/
theorem exists_isSplit {path : Path} (nonempty : path.text ≠ [])
    (slash : path.endsInSlash = false) :
    ∃ base name, path.IsSplit base name := by
  let inside : Char → Bool := fun character => character != '/'
  refine ⟨path.text.rdropWhile inside, path.text.rtakeWhile inside,
    List.rdropWhile_append_rtakeWhile.symm, ?_, ?_, ?_⟩
  · rw [IsBase]
    by_cases empty : path.text.rdropWhile inside = []
    · exact .inl empty
    · have last := List.rdropWhile_last_not inside path.text empty
      refine .inr ?_
      rw [List.getLast?_eq_some_getLast empty]
      simpa [inside] using last
  · intro empty
    have last := List.getLast?_eq_some_getLast nonempty
    rw [List.rtakeWhile_eq_nil_iff] at empty
    have slashed := empty nonempty
    rw [endsInSlash, last] at slash
    simp [inside] at slashed
    simp [slashed] at slash
  · intro member
    have other := List.mem_rtakeWhile_imp member
    simp [inside] at other

section

variable {path : Path} {base name : Text} (split : path.IsSplit base name)

include split

theorem IsSplit.components_eq :
    path.components = (Path.mk base).components ++ [name] := by
  have whole : path = ⟨base ++ name⟩ := congrArg Path.mk split.text
  rw [whole, components_base_append split.isBase split.isComponent]

theorem IsSplit.fileName_eq : path.fileName = name := by
  rw [fileName, split.components_eq, List.getLast?_concat, Option.getD_some]

theorem IsSplit.dropLast_components :
    path.components.dropLast = (Path.mk base).components := by
  rw [split.components_eq, List.dropLast_concat]

theorem IsSplit.endsInSlash_eq : path.endsInSlash = false := by
  have last := List.getLast?_eq_some_getLast split.isComponent.nonempty
  rw [endsInSlash, split.text, List.getLast?_append, last, Option.some_or,
    beq_eq_false_iff_ne]
  intro same
  exact split.isComponent.slashless
    (Option.some.inj same ▸ List.getLast_mem _)

/-- Whether a path starts at the root is told by its base. -/
theorem IsSplit.isAbsolute_eq {other : Path} {otherName : Text}
    (otherSplit : other.IsSplit base otherName) :
    path.isAbsolute = other.isAbsolute := by
  rw [isAbsolute, isAbsolute, split.text, otherSplit.text]
  cases base with
  | nil =>
      have relative : ∀ {text : Text}, IsComponent text →
          (text.head? == some '/') = false := by
        intro text isComponent
        rw [beq_eq_false_iff_ne]
        intro same
        exact isComponent.slashless (List.mem_of_mem_head? same)
      rw [List.nil_append, List.nil_append, relative split.isComponent,
        relative otherSplit.isComponent]
  | cons character rest => rfl

end

/-! ## Other extensions -/

/-- The stem of a name without slashes has none. -/
theorem slashless_splitFileName {name : Text} (slashless : '/' ∉ name) :
    '/' ∉ (splitFileName name).1 := by
  rw [splitFileName]
  split
  next last first others parts =>
    dsimp only
    split
    · exact slashless
    · intro member
      rcases mem_intercalate member with dot | ⟨piece, known, inside⟩
      · exact absurd dot (by decide)
      · have pieces : piece ∈ piecesAt (· == '.') name := by
          rw [← List.mem_reverse, parts]
          exact List.mem_cons_of_mem _ (List.mem_reverse.mp known)
        exact slashless ((infix_of_mem_pieces _ _ pieces).subset inside)
  next => exact slashless

/-- A name stays a component when its extension changes. -/
theorem isComponent_nameWithExtension {name extension : Text}
    (isComponent : IsComponent name) (slashless : '/' ∉ extension) :
    IsComponent (nameWithExtension name extension) := by
  have stem := slashless_splitFileName isComponent.slashless
  rw [nameWithExtension]
  split
  next => exact ⟨by decide, by decide⟩
  next text found _ parts =>
    rw [parts] at stem
    refine ⟨List.append_ne_nil_of_right_ne_nil _ (List.cons_ne_nil _ _), ?_⟩
    intro member
    rcases List.mem_append.mp member with front | behind
    · exact stem front
    · rcases List.mem_cons.mp behind with dot | rest
      · exact absurd dot (by decide)
      · exact slashless rest

section

variable {path : Path} {base name : Text} (split : path.IsSplit base name)

include split

/-- Only the name behind the base changes with the extension. -/
theorem IsSplit.text_withExtension (extension : Text) :
    (path.withExtension extension).text =
      base ++ nameWithExtension name extension := by
  rw [Path.withExtension, split.fileName_eq, split.text, dropEnd?_append]
  rfl

/-- A path with another extension stands behind the same base. -/
theorem IsSplit.withExtension {extension : Text}
    (slashless : '/' ∉ extension) :
    (path.withExtension extension).IsSplit base
      (nameWithExtension name extension) where
  text := split.text_withExtension extension
  isBase := split.isBase
  isComponent := isComponent_nameWithExtension split.isComponent slashless

end

/-! ## Something in a folder -/

/-- What stands in front of a name in a folder. -/
def base (path : Path) : Text :=
  if path.text.isEmpty || path.endsInSlash then path.text
  else path.text ++ ['/']

theorem text_join (path : Path) (name : Text) :
    (path.join name).text = path.base ++ name := by
  rw [join, base]
  split
  · rfl
  · rw [List.append_assoc, List.singleton_append]

/-- What is joined to a path is the name behind its base. -/
theorem isSplit_join (path : Path) {name : Text}
    (isComponent : IsComponent name) :
    (path.join name).IsSplit path.base name := by
  refine ⟨path.text_join name, ?_, isComponent⟩
  rw [IsBase, base]
  split
  next place =>
    rcases Bool.or_eq_true_iff.mp place with empty | slash
    · exact .inl (List.isEmpty_iff.mp empty)
    · exact .inr (beq_iff_eq.mp slash)
  next => exact .inr List.getLast?_concat

/-- A slash at the end of a path is no component. -/
theorem components_base (path : Path) :
    (Path.mk path.base).components = path.components := by
  rw [base]
  split
  · rfl
  · have nothing : (Path.mk []).components = [] := rfl
    rw [components_append_slash, nothing, List.append_nil]

/-- The path of something in the folders that names lead to. -/
def below (path : Path) (names : List Text) : Path :=
  names.foldl join path

@[simp]
theorem below_nil (path : Path) : path.below [] = path := rfl

/-- The last name of a descent is joined to the path of the others. -/
theorem below_concat (path : Path) (names : List Text) (name : Text) :
    path.below (names ++ [name]) = (path.below names).join name :=
  List.foldl_append

/-- A descent adds its names to the components of the path. -/
theorem components_below (path : Path) {names : List Text}
    (all : ∀ name ∈ names, IsComponent name) :
    (path.below names).components = path.components ++ names := by
  induction names using List.reverseRecOn with
  | nil => rw [below_nil, List.append_nil]
  | append_singleton rest last ih =>
      rw [List.forall_mem_append, List.forall_mem_singleton] at all
      rw [below_concat, (isSplit_join _ all.2).components_eq, components_base,
        ih all.1, List.append_assoc]

/-- Names lead on from where a path starts. -/
theorem starts_below {path : Path} (nonempty : path.text ≠ [])
    (names : List Text) :
    (path.below names).text ≠ [] ∧
      (path.below names).isAbsolute = path.isAbsolute := by
  induction names using List.reverseRecOn with
  | nil => exact ⟨nonempty, rfl⟩
  | append_singleton rest last ih =>
      have head : ∀ {first : Text}, first ≠ [] → ∀ behind : Text,
          (first ++ behind).head? = first.head? := by
        intro first filled behind
        cases first with
        | nil => exact absurd rfl filled
        | cons character others => rfl
      obtain ⟨filled, absolute⟩ := ih
      rw [below_concat, join]
      split
      · refine ⟨List.append_ne_nil_of_left_ne_nil filled _, ?_⟩
        rw [← absolute, isAbsolute, isAbsolute, head filled]
      · refine ⟨List.append_ne_nil_of_left_ne_nil filled _, ?_⟩
        rw [← absolute, isAbsolute, isAbsolute, head filled]

/-- Another extension changes the last name only. -/
theorem withExtension_below (path : Path) (names : List Text) {name : Text}
    (isComponent : IsComponent name) (extension : Text) :
    (path.below (names ++ [name])).withExtension extension =
      path.below (names ++ [nameWithExtension name extension]) := by
  have same := (isSplit_join (path.below names)
    isComponent).text_withExtension extension
  rw [← text_join] at same
  rw [below_concat, below_concat]
  exact congrArg Path.mk same

end Snowform.Path
