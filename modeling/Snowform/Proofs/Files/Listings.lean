import Snowform.Proofs.Files.Trees
import Mathlib.Data.Char
import Mathlib.Data.List.Lex

/-!
# Files below a folder

The files that are listed below a folder have the path of the folder with
names behind it.  The names tell the files apart, and so do the paths.
-/

namespace Snowform

open Text

namespace Tree

/-! ## Looking up -/

theorem foldlM_of_follow {tree : Tree} {path : Path} {components : List Text}
    {location : Location}
    (followed : tree.follow path components = .ok location) :
    path.text ≠ [] ∧
      components.foldlM tree.step (if path.isAbsolute then [] else tree.working) =
        .ok location := by
  rw [follow] at followed
  split at followed
  next => cases followed
  next filled =>
    split at followed
    next => cases followed
    next => exact ⟨by simpa using filled, followed⟩

theorem follow_of_locate {tree : Tree} {path : Path} {location : Location}
    (located : tree.locate path = .ok location) :
    tree.follow path path.components = .ok location := by
  obtain ⟨found, followed, rest⟩ := bind_eq_ok_iff.mp located
  change (if _ then _ else _) = Except.ok _ at rest
  split at rest
  next => cases rest
  next =>
    cases rest
    exact followed

/-- Paths with one base go the same way to their file names. -/
theorem eq_of_follow {tree : Tree} {first second : Path}
    {base firstName secondName : Text}
    (firstSplit : first.IsSplit base firstName)
    (secondSplit : second.IsSplit base secondName) {components : List Text}
    {location other : Location}
    (followed : tree.follow first components = .ok location)
    (otherwise : tree.follow second components = .ok other) :
    other = location := by
  have start := (foldlM_of_follow followed).2
  have same := (foldlM_of_follow otherwise).2
  rw [secondSplit.isAbsolute_eq firstSplit, start] at same
  exact (Except.ok.inj same).symm

section

variable {tree : Tree} (proper : tree.IsProper)

include proper

/-- Around every file are folders. -/
theorem IsProper.isFolder_of_mem {location : Location} {name : Text}
    {rest : List Text} (member : location ++ name :: rest ∈ tree.locations) :
    tree.isFolder location = true := by
  have around := proper.inFolder _ member
  rw [List.dropLast_append_of_ne_nil (List.cons_ne_nil _ _)] at around
  exact proper.isFolder_of_append around

/-- Names lead to their file, unless one of them is too long. -/
theorem IsProper.foldlM_step {location : Location} {names : List Text}
    (member : location ++ names ∈ tree.locations) :
    names.foldlM tree.step location = .ok (location ++ names) ∨
      names.foldlM tree.step location = .error .nameTooLong := by
  induction names generalizing location with
  | nil => exact .inl (by rw [List.append_nil]; rfl)
  | cons name rest ih =>
      have isName := proper.names _ member name
        (List.mem_append_right _ List.mem_cons_self)
      have isFolder := proper.isFolder_of_mem member
      have next : location ++ name :: rest = (location ++ [name]) ++ rest := by
        simp
      have known : tree.holds (location ++ [name]) = true := by
        rw [holds, Bool.or_eq_true]
        rw [next] at member
        cases rest with
        | nil =>
            rw [List.append_nil] at member
            exact .inr (mem_locations_iff.mp member)
        | cons second others => exact .inl (proper.isFolder_of_mem member)
      rw [List.foldlM_cons, next]
      rw [next] at member
      have step : tree.step location name =
          if Path.isTooLongComponent name then .error .nameTooLong
          else .ok (location ++ [name]) := by
        rw [Tree.step, isFolder, if_neg (by simp), if_neg isName.here,
          if_neg isName.above, if_pos known]
      rw [step]
      split
      · exact .inr rfl
      · exact ih member

/-- The path of a listed file leads to it, unless something is too long. -/
theorem IsProper.locate_below {path : Path} {location : Location}
    {names : List Text} (located : tree.locate path = .ok location)
    (member : location ++ names ∈ tree.locations) :
    tree.locate (path.below names) = .ok (location ++ names) ∨
      tree.locate (path.below names) = .error .nameTooLong := by
  cases names using List.reverseRecOn with
  | nil =>
      rw [Path.below_nil, List.append_nil]
      exact .inl located
  | append_singleton rest last =>
      have isName : ∀ name ∈ rest ++ [last], Path.IsComponent name :=
        fun name inside => (proper.names _ member name
          (List.mem_append_right _ inside)).toIsComponent
      have lastName := isName last (List.mem_concat_self)
      have slash : (path.below (rest ++ [last])).endsInSlash = false := by
        rw [Path.below_concat]
        exact (Path.isSplit_join _ lastName).endsInSlash_eq
      obtain ⟨nonempty, start⟩ := foldlM_of_follow (follow_of_locate located)
      obtain ⟨filled, absolute⟩ := Path.starts_below nonempty (rest ++ [last])
      have whole : (path.below (rest ++ [last])).text.isEmpty = false := by
        simpa using filled
      rw [locate, follow, whole, if_neg (by simp), slash]
      split
      · exact .inr rfl
      · rw [absolute, Path.components_below path isName, List.foldlM_append,
          start]
        rcases proper.foldlM_step member with found | long
        · left
          change (rest ++ [last]).foldlM tree.step location >>= _ = _
          rw [found]
          rfl
        · right
          change (rest ++ [last]).foldlM tree.step location >>= _ = _
          rw [long]
          rfl

/-- Where the file beside another one is put. -/
theorem IsProper.place_withExtension {path : Path} {location : Location}
    (located : tree.locate path = .ok location)
    (file : tree.isFolder location = false) {extension : Text}
    (slashless : '/' ∉ extension) :
    ∃ folder name, location = folder ++ [name] ∧ Path.IsComponent name ∧
      ∀ other, tree.place (path.withExtension extension) = .ok other →
        other = folder ++ [Path.nameWithExtension name extension] := by
  obtain ⟨base, name, folder, split, followed, -, same⟩ :=
    proper.exists_isSplit_of_locate located file
  refine ⟨folder, name, same, split.isComponent, ?_⟩
  intro other placed
  have beside := split.withExtension slashless
  obtain ⟨around, isPlace, rfl⟩ := exists_isPlace placed
  have found := isPlace.found
  rw [beside.dropLast_components] at found
  rw [eq_of_follow split beside followed found, beside.fileName_eq]

/-- Beside a file there is a folder to put another one in. -/
theorem IsProper.place_ne_notFound {path : Path} {location : Location}
    (located : tree.locate path = .ok location)
    (file : tree.isFolder location = false) {extension : Text}
    (slashless : '/' ∉ extension) :
    tree.place (path.withExtension extension) ≠ .error .notFound := by
  obtain ⟨base, name, folder, split, followed, isFolder, -⟩ :=
    proper.exists_isSplit_of_locate located file
  have beside := split.withExtension slashless
  have start := (foldlM_of_follow followed).2
  have filled : (path.withExtension extension).text.isEmpty = false := by
    rw [beside.text, List.isEmpty_eq_false_iff]
    exact List.append_ne_nil_of_right_ne_nil _ beside.isComponent.nonempty
  rw [place, follow, filled, if_neg (by simp), beside.dropLast_components,
    beside.isAbsolute_eq split, start]
  intro same
  split at same
  · cases same
  · change (if _ then _ else _) = _ at same
    rw [isFolder, if_neg (by simp)] at same
    change (if _ then _ else _) = _ at same
    split at same
    · cases same
    · change (if _ then _ else _) = _ at same
      split at same <;> cases same

end

/-! ## Listed files -/

/-- A path that names lead to, from the path of a folder. -/
structure IsListed (tree : Tree) (path : Path) (location : Location)
    (input : Path) (names : List Text) : Prop where
  member : location ++ names ∈ tree.locations
  input : input = path.below names

theorem mem_list_iff {tree : Tree} {path : Path} {paths : List Path}
    (listed : tree.list path = .ok paths) :
    ∃ location, tree.locate path = .ok location ∧
      ∀ input, input ∈ paths ↔ ∃ names, tree.IsListed path location input names := by
  obtain ⟨location, located, same⟩ := bind_eq_ok_iff.mp listed
  cases same
  refine ⟨location, located, fun input => ?_⟩
  rw [List.mem_filterMap]
  constructor
  · rintro ⟨entry, member, found⟩
    split at found
    next starts =>
      obtain ⟨names, same⟩ := List.isPrefixOf_iff_prefix.mp starts
      cases found
      refine ⟨names, ?_, ?_⟩
      · rw [same]
        exact List.mem_map_of_mem member
      · rw [← same, List.drop_left, Path.below]
    next => cases found
  · rintro ⟨names, member, rfl⟩
    obtain ⟨entry, known, same⟩ := List.mem_map.mp member
    refine ⟨entry, known, ?_⟩
    rw [same, if_pos (List.isPrefixOf_iff_prefix.mpr (List.prefix_append _ _)),
      List.drop_left, Path.below]

section

variable {tree : Tree} (proper : tree.IsProper) {path : Path}
  {location : Location}

include proper

theorem IsProper.file_of_isListed {input : Path} {names : List Text}
    (isListed : tree.IsListed path location input names) :
    tree.isFolder (location ++ names) = false :=
  proper.apart _ isListed.member

/-- One of two files is not the folder itself. -/
theorem IsProper.names_ne_nil {first second : Path}
    {firstNames secondNames : List Text}
    (firstListed : tree.IsListed path location first firstNames)
    (secondListed : tree.IsListed path location second secondNames)
    (different : first ≠ second) : firstNames ≠ [] := by
  rintro rfl
  cases secondNames with
  | nil =>
      exact different (firstListed.input.trans secondListed.input.symm)
  | cons name rest =>
      have file := proper.file_of_isListed firstListed
      rw [List.append_nil, proper.isFolder_of_mem secondListed.member] at file
      cases file

/-- The file beside a listed one would be listed by its path, too. -/
theorem IsProper.exists_names_of_place {input : Path} {names : List Text}
    (isListed : tree.IsListed path location input names)
    (nonempty : names ≠ []) {extension : Text} (slashless : '/' ∉ extension)
    (located : tree.locate input = .ok (location ++ names)) :
    ∃ others, input.withExtension extension = path.below others ∧
      ∀ other, tree.place (input.withExtension extension) = .ok other →
        other = location ++ others := by
  obtain ⟨folder, name, same, isComponent, placed⟩ :=
    proper.place_withExtension located (proper.file_of_isListed isListed)
      slashless
  obtain ⟨init, last, rfl⟩ := (List.eq_nil_or_concat' names).resolve_left
    nonempty
  rw [← List.append_assoc] at same
  obtain ⟨rfl, rfl⟩ := List.append_singleton_inj.mp same
  refine ⟨init ++ [Path.nameWithExtension last extension], ?_, ?_⟩
  · rw [isListed.input, Path.withExtension_below path init isComponent]
  · intro other found
    rw [placed other found, List.append_assoc]

section

variable {first second : Path} {firstNames secondNames : List Text}
  (firstListed : tree.IsListed path location first firstNames)
  (secondListed : tree.IsListed path location second secondNames)
  (different : first ≠ second) {extension : Text}

include firstListed secondListed different

/-- A file that is put where another one is has its path. -/
theorem IsProper.withExtension_eq_of_place (slashless : '/' ∉ extension)
    (located : tree.locate first = .ok (location ++ firstNames))
    (placed : tree.place (first.withExtension extension) =
      .ok (location ++ secondNames)) :
    first.withExtension extension = second := by
  obtain ⟨others, output, all⟩ := proper.exists_names_of_place firstListed
    (proper.names_ne_nil firstListed secondListed different) slashless located
  have same := List.append_cancel_left (all _ placed)
  rw [output, ← same, secondListed.input]

/-- Two files that are put at one place have one path. -/
theorem IsProper.withExtension_eq_of_places (slashless : '/' ∉ extension)
    (firstLocated : tree.locate first = .ok (location ++ firstNames))
    (secondLocated : tree.locate second = .ok (location ++ secondNames))
    {other : Location}
    (firstPlaced : tree.place (first.withExtension extension) = .ok other)
    (secondPlaced : tree.place (second.withExtension extension) = .ok other) :
    first.withExtension extension = second.withExtension extension := by
  obtain ⟨names, output, all⟩ := proper.exists_names_of_place firstListed
    (proper.names_ne_nil firstListed secondListed different) slashless
    firstLocated
  obtain ⟨others, otherOutput, allOthers⟩ := proper.exists_names_of_place
    secondListed (proper.names_ne_nil secondListed firstListed different.symm)
    slashless secondLocated
  have same := List.append_cancel_left
    ((all _ firstPlaced).symm.trans (allOthers _ secondPlaced))
  rw [output, otherOutput, same]

/-- Of two listed files one is before the other. -/
theorem IsProper.before_or_before :
    Path.before first second = true ∨ Path.before second first = true := by
  have components : ∀ {input : Path} {names : List Text},
      tree.IsListed path location input names →
        input.components = path.components ++ names := by
    intro input names isListed
    rw [isListed.input]
    exact Path.components_below path fun name member =>
      (proper.names _ isListed.member name
        (List.mem_append_right _ member)).toIsComponent
  have apart : first.components ≠ second.components := by
    rw [components firstListed, components secondListed]
    intro same
    refine different ?_
    rw [firstListed.input, secondListed.input, List.append_cancel_left same]
  rw [Path.before, Path.before, decide_eq_true_eq, decide_eq_true_eq]
  exact lt_or_gt_of_ne apart

end

end

end Tree

end Snowform
