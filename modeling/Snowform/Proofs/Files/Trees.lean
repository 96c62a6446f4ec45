import Snowform.Files.Tree
import Snowform.Proofs.Ddl.Reading
import Snowform.Proofs.Files.Paths

/-!
# Trees that grow

Writing a file leaves the folders of a tree and all its other files as they
are.  What a path leads to stays the same, unless it led to nothing.
-/

namespace Snowform

open Text

namespace Tree

/-! ## Contents -/

/-- A changed entry is found at its place, the others at theirs. -/
theorem lookup_map_put (files : List (Location × Bytes))
    (location other : Location) (content : Bytes) :
    (files.map fun entry =>
        if entry.1 = location then (location, content) else entry).lookup other =
      if other = location then (files.lookup other).map fun _ => content
      else files.lookup other := by
  induction files with
  | nil => split <;> rfl
  | cons entry others ih =>
      obtain ⟨place, bytes⟩ := entry
      rw [List.map_cons, List.lookup_cons, List.lookup_cons, ih]
      by_cases here : place = location
      · by_cases same : other = location
        · simp [here, same]
        · simp [here, same, beq_eq_false_iff_ne.mpr same]
      · by_cases same : other = place
        · simp [same, here]
        · simp [here, beq_eq_false_iff_ne.mpr same]

/-- Only the file at the location is changed. -/
theorem file?_put (tree : Tree) (location other : Location)
    (content : Bytes) :
    (tree.put location content).file? other =
      if other = location then some content else tree.file? other := by
  rw [put]
  split
  next known =>
    rw [file?, lookup_map_put]
    split
    next same =>
      rw [same]
      exact Option.map_eq_some_iff.mpr
        ((Option.isSome_iff_exists.mp known).imp fun _ found => ⟨found, rfl⟩)
    next => rfl
  next missing =>
    rw [file?, List.lookup_append]
    by_cases same : other = location
    · rw [if_pos same, same]
      have none : tree.files.lookup location = none :=
        Option.not_isSome_iff_eq_none.mp missing
      rw [none]
      simp
    · rw [if_neg same, List.lookup_cons, beq_eq_false_iff_ne.mpr same,
        List.lookup_nil, Option.or_none, file?]

/-! ## Growth -/

/-- A tree with the folders of another one and at least its files. -/
structure IsGrown (before tree : Tree) : Prop where
  working : tree.working = before.working
  folders : tree.folders = before.folders
  files : ∀ location, (before.file? location).isSome →
    (tree.file? location).isSome

theorem IsGrown.refl (tree : Tree) : IsGrown tree tree :=
  ⟨rfl, rfl, fun _ known => known⟩

theorem IsGrown.trans {first second third : Tree}
    (earlier : IsGrown first second) (later : IsGrown second third) :
    IsGrown first third :=
  ⟨later.working.trans earlier.working, later.folders.trans earlier.folders,
    fun location known => later.files location (earlier.files location known)⟩

/-- A tree with one more file has grown. -/
theorem isGrown_put (tree : Tree) (location : Location) (content : Bytes) :
    IsGrown tree (tree.put location content) := by
  refine ⟨?_, ?_, ?_⟩
  · rw [put]
    split <;> rfl
  · rw [put]
    split <;> rfl
  · intro other known
    rw [file?_put]
    split
    · rfl
    · exact known

/-- A later look-up that agrees with an earlier one that found something. -/
def Agrees {α : Type} (earlier later : Except OsError α) : Prop :=
  earlier = .error .notFound ∨ later = earlier

/-- Look-ups that agree may be followed by look-ups that agree. -/
theorem Agrees.bind {α β : Type} {earlier later : Except OsError α}
    (agrees : Agrees earlier later) {next others : α → Except OsError β}
    (all : ∀ value, Agrees (next value) (others value)) :
    Agrees (earlier >>= next) (later >>= others) := by
  rcases agrees with rfl | rfl
  · exact .inl rfl
  · cases later with
    | error cause => exact .inr rfl
    | ok value => exact all value

/-- A look-up that did not miss its file comes out the same later. -/
theorem Agrees.eq {α : Type} {earlier later : Except OsError α}
    (agrees : Agrees earlier later) (found : earlier ≠ .error .notFound) :
    later = earlier :=
  agrees.resolve_left found

section

variable {before tree : Tree} (grown : IsGrown before tree)

include grown

theorem IsGrown.isFolder_eq : tree.isFolder = before.isFolder := by
  funext location
  rw [isFolder, isFolder, grown.folders]

/-- What a tree holds is held when it has grown. -/
theorem IsGrown.holds {location : Location}
    (known : before.holds location = true) : tree.holds location = true := by
  rw [Tree.holds, Bool.or_eq_true] at known ⊢
  rw [grown.isFolder_eq]
  exact known.imp_right (grown.files location)

/-- A step down a grown tree leads where it led before. -/
theorem IsGrown.step (location : Location) (component : Text) :
    Agrees (before.step location component) (tree.step location component) := by
  rw [Tree.step, Tree.step, grown.isFolder_eq]
  by_cases known : before.holds (location ++ [component]) = true
  · rw [if_pos known, if_pos (grown.holds known)]
    exact .inr rfl
  · rw [if_neg known]
    split
    · exact .inr rfl
    · split
      · exact .inr rfl
      · split
        · exact .inr rfl
        · split
          · exact .inr rfl
          · exact .inl rfl

/-- Steps down a grown tree lead where they led before. -/
theorem IsGrown.foldlM (components : List Text) (location : Location) :
    Agrees (components.foldlM before.step location)
      (components.foldlM tree.step location) := by
  induction components generalizing location with
  | nil => exact .inr rfl
  | cons component others ih =>
      rw [List.foldlM_cons, List.foldlM_cons]
      exact (grown.step location component).bind ih

/-- Components followed in a grown tree lead where they led before. -/
theorem IsGrown.follow (path : Path) (components : List Text) :
    Agrees (before.follow path components) (tree.follow path components) := by
  rw [Tree.follow, Tree.follow, grown.working]
  split
  · exact .inr rfl
  · split
    · exact .inr rfl
    · exact grown.foldlM components _

/-- A path that was found is found at the same place when the tree has grown. -/
theorem IsGrown.locate (path : Path) :
    Agrees (before.locate path) (tree.locate path) := by
  rw [Tree.locate, Tree.locate, grown.isFolder_eq]
  exact (grown.follow path _).bind fun location => .inr rfl

end

/-- A path is read from the file at its place. -/
theorem read_of_locate {tree : Tree} {path : Path} {location : Location}
    (located : tree.locate path = .ok location) :
    tree.read path = (tree.file? location).elim (.error .isFolder) .ok := by
  rw [read, located]
  dsimp only [bind, Except.bind]
  cases tree.file? location <;> rfl

/-! ## Writing -/

/-- Where a file is put that is written at a path. -/
def place (tree : Tree) (path : Path) : Except OsError Location := do
  let folder ← tree.follow path path.components.dropLast
  if !tree.isFolder folder then
    throw .notFolder
  if path.endsInSlash || path.fileName = "." || path.fileName = ".." ||
      tree.isFolder (folder ++ [path.fileName]) then
    throw .isFolder
  if Path.isTooLongComponent path.fileName then
    throw .nameTooLong
  return folder ++ [path.fileName]

/-- A file is written by placing its path. -/
theorem write_eq (tree : Tree) (path : Path) (content : Bytes) :
    tree.write path content =
      (tree.place path).map fun location => tree.put location content := by
  rw [write, place]
  cases tree.follow path path.components.dropLast with
  | error cause => rfl
  | ok folder =>
      change (if _ then _ else _) = Except.map _ (if _ then _ else _)
      split
      · rfl
      · split
        · rfl
        · split <;> rfl

/-- A path is placed in a grown tree where it was placed before. -/
theorem IsGrown.place {before tree : Tree} (grown : IsGrown before tree)
    (path : Path) : Agrees (before.place path) (tree.place path) := by
  rw [Tree.place, Tree.place, grown.isFolder_eq]
  exact (grown.follow path _).bind fun folder => .inr rfl

/-- What holds where a file is put. -/
structure IsPlace (tree : Tree) (path : Path) (folder : Location) : Prop where
  found : tree.follow path path.components.dropLast = .ok folder
  isFolder : tree.isFolder folder = true
  slashless : path.endsInSlash = false
  here : path.fileName ≠ "."
  above : path.fileName ≠ ".."
  free : tree.isFolder (folder ++ [path.fileName]) = false
  short : Path.isTooLongComponent path.fileName = false

/-- A path is placed in a folder under its file name. -/
theorem exists_isPlace {tree : Tree} {path : Path} {location : Location}
    (placed : tree.place path = .ok location) :
    ∃ folder, tree.IsPlace path folder ∧
      location = folder ++ [path.fileName] := by
  rw [Tree.place] at placed
  obtain ⟨folder, found, placed⟩ := bind_eq_ok_iff.mp placed
  change (if _ then _ else _) = Except.ok _ at placed
  split at placed
  next => cases placed
  next isFolder =>
    change (if _ then _ else _) = Except.ok _ at placed
    split at placed
    next => cases placed
    next free =>
      split at placed
      next => cases placed
      next short =>
        cases placed
        simp only [Bool.or_eq_true, not_or, Bool.not_eq_true,
          decide_eq_true_eq] at free
        exact ⟨folder, ⟨found, by simpa using isFolder, free.1.1.1,
          free.1.1.2, free.1.2, free.2, by simpa using short⟩, rfl⟩

/-- A path with a place has a file name. -/
theorem IsPlace.exists_isSplit {tree : Tree} {path : Path}
    {folder : Location} (isPlace : tree.IsPlace path folder) :
    ∃ base, path.IsSplit base path.fileName := by
  have nonempty : path.text ≠ [] := by
    intro empty
    have found := isPlace.found
    rw [Tree.follow, empty] at found
    cases found
  obtain ⟨base, name, split⟩ := Path.exists_isSplit nonempty isPlace.slashless
  rw [← split.fileName_eq] at split
  exact ⟨base, split⟩

/-- Components are followed one after the other. -/
theorem follow_append (tree : Tree) (path : Path) (first second : List Text) :
    tree.follow path (first ++ second) =
      tree.follow path first >>= fun location =>
        second.foldlM tree.step location := by
  rw [follow, follow]
  split
  · rfl
  · split
    · rfl
    · exact List.foldlM_append

/-- What is written is there. -/
theorem locate_of_write {tree changed : Tree} {path : Path} {content : Bytes}
    (written : tree.write path content = .ok changed) :
    ∃ location, tree.place path = .ok location ∧
      changed = tree.put location content ∧
      changed.locate path = .ok location := by
  rw [write_eq] at written
  obtain ⟨location, placed, rfl⟩ := map_eq_ok_iff.mp written
  refine ⟨location, placed, rfl, ?_⟩
  obtain ⟨folder, isPlace, rfl⟩ := exists_isPlace placed
  have grown := isGrown_put tree (folder ++ [path.fileName]) content
  have known : (tree.put (folder ++ [path.fileName]) content).holds
      (folder ++ [path.fileName]) = true := by
    rw [holds, file?_put, if_pos rfl, Option.isSome_some, Bool.or_true]
  generalize tree.put (folder ++ [path.fileName]) content = changed
    at grown known ⊢
  obtain ⟨base, split⟩ := isPlace.exists_isSplit
  have start : changed.follow path path.components.dropLast = .ok folder :=
    ((grown.follow path _).eq (isPlace.found ▸ nofun)).trans isPlace.found
  have last : changed.step folder path.fileName =
      .ok (folder ++ [path.fileName]) := by
    rw [step, grown.isFolder_eq, isPlace.isFolder, if_neg (by simp),
      if_neg isPlace.here, if_neg isPlace.above, isPlace.short,
      if_neg (by simp), if_pos known]
  have whole : changed.follow path path.components =
      .ok (folder ++ [path.fileName]) := by
    rw [split.components_eq, follow_append, ← split.dropLast_components, start]
    exact (bind_pure _).trans last
  rw [locate, whole, isPlace.slashless]
  rfl

/-! ## Proper trees -/

/-- A text that can be the name of a file or a folder. -/
structure IsName (name : Text) : Prop extends Path.IsComponent name where
  here : name ≠ "."
  above : name ≠ ".."

def locations (tree : Tree) : List Location :=
  tree.files.map Prod.fst

/-- A tree of which every file and every folder is in a folder. -/
structure IsProper (tree : Tree) : Prop where
  distinct : tree.locations.Nodup
  apart : ∀ location ∈ tree.locations, tree.isFolder location = false
  names : ∀ location ∈ tree.locations, ∀ name ∈ location, IsName name
  inFolder : ∀ location ∈ tree.locations,
    tree.isFolder location.dropLast = true
  nested : ∀ folder ∈ tree.folders, tree.isFolder folder.dropLast = true

/-- The locations of a tree are those of its files. -/
theorem mem_locations_iff {tree : Tree} {location : Location} :
    location ∈ tree.locations ↔ (tree.file? location).isSome := by
  rw [locations, file?]
  induction tree.files with
  | nil => exact ⟨nofun, nofun⟩
  | cons entry others ih =>
      rw [List.map_cons, List.mem_cons, ih, List.lookup_cons]
      cases same : location == entry.1 with
      | true => exact ⟨fun _ => rfl, fun _ => .inl (eq_of_beq same)⟩
      | false =>
          exact or_iff_right (beq_eq_false_iff_ne.mp same)

section

variable {tree : Tree} (proper : tree.IsProper)

include proper

/-- A folder of a proper tree stands in a folder. -/
theorem IsProper.isFolder_dropLast {location : Location}
    (known : tree.isFolder location = true) :
    tree.isFolder location.dropLast = true := by
  rw [isFolder, Bool.or_eq_true] at known
  rcases known with empty | member
  · rw [List.isEmpty_iff.mp empty]
    rfl
  · exact proper.nested location (List.contains_iff_mem.mp member)

/-- A folder is in folders only. -/
theorem IsProper.isFolder_of_append {first : Location} {second : List Text}
    (known : tree.isFolder (first ++ second) = true) :
    tree.isFolder first = true := by
  induction second using List.reverseRecOn with
  | nil => rwa [List.append_nil] at known
  | append_singleton rest last ih =>
      have around := proper.isFolder_dropLast known
      rw [← List.append_assoc, List.dropLast_concat] at around
      exact ih around

/-- A step that leads to a file goes into a folder and to its name there. -/
theorem IsProper.eq_of_step {folder location : Location} {name : Text}
    (stepped : tree.step folder name = .ok location)
    (file : tree.isFolder location = false) :
    tree.isFolder folder = true ∧ location = folder ++ [name] := by
  rw [step] at stepped
  split at stepped
  next => cases stepped
  next inFolder =>
    have isFolder : tree.isFolder folder = true := by simpa using inFolder
    split at stepped
    next =>
      cases stepped
      rw [isFolder] at file
      cases file
    next =>
      split at stepped
      next =>
        cases stepped
        rw [proper.isFolder_dropLast isFolder] at file
        cases file
      next =>
        split at stepped
        next => cases stepped
        next =>
          split at stepped
          next =>
            cases stepped
            exact ⟨isFolder, rfl⟩
          next => cases stepped

/-- A path that leads to a file has the name of the file at its end. -/
theorem IsProper.exists_isSplit_of_locate {path : Path} {location : Location}
    (located : tree.locate path = .ok location)
    (file : tree.isFolder location = false) :
    ∃ base name folder, path.IsSplit base name ∧
      tree.follow path (Path.mk base).components = .ok folder ∧
      tree.isFolder folder = true ∧ location = folder ++ [name] := by
  obtain ⟨found, followed, rest⟩ := bind_eq_ok_iff.mp located
  have slash : path.endsInSlash = false ∧ found = location := by
    change (if _ then _ else _) = Except.ok _ at rest
    split at rest
    next => cases rest
    next kept =>
      cases rest
      simpa [file] using kept
  obtain ⟨slash, rfl⟩ := slash
  have nonempty : path.text ≠ [] := by
    intro empty
    rw [follow, empty] at followed
    cases followed
  obtain ⟨base, name, split⟩ := Path.exists_isSplit nonempty slash
  rw [split.components_eq, follow_append] at followed
  obtain ⟨folder, start, last⟩ := bind_eq_ok_iff.mp followed
  rw [List.foldlM_cons] at last
  obtain ⟨next, stepped, same⟩ := bind_eq_ok_iff.mp last
  cases same
  obtain ⟨isFolder, same⟩ := proper.eq_of_step stepped file
  exact ⟨base, name, folder, split, start, isFolder, same⟩

end

end Tree

end Snowform
