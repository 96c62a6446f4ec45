import Snowform.Files.Folder
import Snowform.Proofs.Files.Listings
import Snowform.Proofs.Ordered

/-!
# Converting a folder file by file

A folder is converted in steps, one for each of its files.  A step reads one
file and writes at most one, so that what it comes to depends on these two
alone: a file is converted as it would be on its own, unless its content was
written by a step before it, and its document is kept, unless a step behind
it writes to the same place.
-/

namespace Snowform

open Text Terraform

/-! ## One file -/

/-- What is told of a file that was converted. -/
def Conversion.account (conversion : Conversion) (output : Path) :
    Converted where
  output := output
  objects := conversion.objects.length
  resources := conversion.resources.length
  diagnostics := conversion.diagnostics

/-- What the content of a file is converted to. -/
def Converts (policy : Policy) (content : Bytes) (conversion : Conversion) :
    Prop :=
  ∃ script, decode? content = some script ∧
    Conversion.ofScript policy script = .ok conversion

section

variable (policy : Policy) (tree : Tree) (input : Path)

/-- What comes of converting a file of a tree, and the tree after it. -/
def runBeside : Except Fault Report × Tree :=
  (convertBeside policy input : ExceptT Fault (StateM Tree) Report).run.run tree

theorem run_readScript :
    (readScript input : StateM Tree (Except FileFailure Text)).run tree =
      (match tree.read input with
        | .ok content =>
            match decode? content with
            | some script => .ok script
            | none => .error (.undecodable input)
        | .error cause => .error (.unreadable input cause), tree) := by
  change StateT.run (match tree.read input with
    | .ok content => _ | .error cause => _ : StateM Tree _) tree = _
  cases tree.read input with
  | error cause => rfl
  | ok content =>
      dsimp only
      cases decode? content <;> rfl

theorem run_writeFile (content : Bytes) :
    (FileSystem.writeFile input content : StateM Tree _).run tree =
      match tree.write input content with
      | .ok changed => (.ok (), changed)
      | .error cause => (.error cause, tree) := by
  change StateT.run (match tree.write input content with
    | .ok changed => _ | .error cause => _ : StateM Tree _) tree = _
  cases tree.write input content <;> rfl

section

variable {α β : Type}

theorem run_bind (step : ExceptT Fault (StateM Tree) α)
    (next : α → ExceptT Fault (StateM Tree) β) :
    (step >>= next).run.run tree =
      match step.run.run tree with
      | (.ok value, changed) => (next value).run.run changed
      | (.error fault, changed) => (.error fault, changed) := by
  change (match step.run.run tree with
    | (outcome, changed) => (ExceptT.bindCont next outcome) changed) = _
  rcases step.run.run tree with ⟨outcome, changed⟩
  cases outcome <;> rfl

theorem run_lift (step : StateM Tree α) :
    (liftM step : ExceptT Fault (StateM Tree) α).run.run tree =
      (.ok (step.run tree).1, (step.run tree).2) := rfl

end

theorem run_convertFile :
    (convertFile policy input : ExceptT Fault (StateM Tree) _).run.run tree =
      (match ((readScript input : StateM Tree _).run tree).1 with
        | .ok script => (Conversion.ofScript policy script).map Except.ok
        | .error failure => .ok (.error failure), tree) := by
  have same : ((readScript input : StateM Tree _).run tree).2 = tree := by
    rw [run_readScript]
  rw [convertFile, run_bind, run_lift, same]
  cases ((readScript input : StateM Tree _).run tree).1 with
  | error failure => rfl
  | ok script =>
      dsimp only
      rw [run_bind]
      cases conversion : Conversion.ofScript policy script <;> rfl

theorem runBeside_eq : runBeside policy tree input =
    match tree.read input with
    | .error cause => (.ok ⟨input, .error (.unreadable input cause)⟩, tree)
    | .ok content =>
        match decode? content with
        | none => (.ok ⟨input, .error (.undecodable input)⟩, tree)
        | some script =>
            match Conversion.ofScript policy script with
            | .error fault => (.error fault, tree)
            | .ok conversion =>
                let output := input.withExtension documentExtension
                match tree.write output (encode conversion.output) with
                | .error cause =>
                    (.ok ⟨input, .error (.unwritable output cause)⟩, tree)
                | .ok changed =>
                    (.ok ⟨input, .ok (conversion.account output)⟩, changed) := by
  rw [runBeside, convertBeside, run_bind, run_convertFile, run_readScript]
  cases tree.read input with
  | error cause => rfl
  | ok content =>
      dsimp only
      cases decode? content with
      | none => rfl
      | some script =>
          dsimp only
          cases Conversion.ofScript policy script with
          | error fault => rfl
          | ok conversion =>
              dsimp only [Except.map]
              rw [run_bind, run_lift, run_writeFile]
              cases tree.write (input.withExtension documentExtension)
                (encode conversion.output) <;> rfl

end

/-- What a step did that converted its file. -/
structure IsStep (policy : Policy) (tree changed : Tree) (input : Path)
    (converted : Converted) (content : Bytes) (conversion : Conversion) :
    Prop where
  read : tree.read input = .ok content
  converts : Converts policy content conversion
  account : converted =
    conversion.account (input.withExtension documentExtension)
  written : tree.write (input.withExtension documentExtension)
    (encode conversion.output) = .ok changed

section

variable {policy : Policy} {tree changed : Tree} {input : Path}
  {report : Report}

/-- A step fails and leaves the tree as it is, or it converts its file. -/
theorem runBeside_cases
    (ran : runBeside policy tree input = (.ok report, changed)) :
    report.input = input ∧
      ((∃ failure, report.outcome = .error failure ∧ changed = tree) ∨
        ∃ converted content conversion, report.outcome = .ok converted ∧
          IsStep policy tree changed input converted content conversion) := by
  rw [runBeside_eq] at ran
  cases read : tree.read input with
  | error cause =>
      rw [read] at ran
      cases ran
      exact ⟨rfl, .inl ⟨_, rfl, rfl⟩⟩
  | ok content =>
      rw [read] at ran
      dsimp only at ran
      cases decoded : decode? content with
      | none =>
          rw [decoded] at ran
          cases ran
          exact ⟨rfl, .inl ⟨_, rfl, rfl⟩⟩
      | some script =>
          rw [decoded] at ran
          dsimp only at ran
          cases converts : Conversion.ofScript policy script with
          | error fault =>
              rw [converts] at ran
              cases ran
          | ok conversion =>
              rw [converts] at ran
              dsimp only at ran
              cases written : tree.write (input.withExtension documentExtension)
                  (encode conversion.output) with
              | error cause =>
                  rw [written] at ran
                  cases ran
                  exact ⟨rfl, .inl ⟨_, rfl, rfl⟩⟩
              | ok _ =>
                  rw [written] at ran
                  cases ran
                  exact ⟨rfl, .inr ⟨_, content, conversion, rfl, read,
                    ⟨script, decoded, converts⟩, rfl, written⟩⟩

/-- A step comes to what it reads and to where it writes. -/
theorem fst_runBeside_congr {other : Tree}
    (read : tree.read input = other.read input)
    (place : ∀ content, other.read input = .ok content →
      tree.place (input.withExtension documentExtension) =
        other.place (input.withExtension documentExtension)) :
    (runBeside policy tree input).1 = (runBeside policy other input).1 := by
  rw [runBeside_eq, runBeside_eq, read]
  cases found : other.read input with
  | error cause => rfl
  | ok content =>
      dsimp only
      cases decode? content with
      | none => rfl
      | some script =>
          dsimp only
          cases Conversion.ofScript policy script with
          | error fault => rfl
          | ok conversion =>
              dsimp only
              rw [Tree.write_eq, Tree.write_eq, place content found]
              cases other.place (input.withExtension documentExtension) <;> rfl

theorem isGrown_of_runBeside
    (ran : runBeside policy tree input = (.ok report, changed)) :
    tree.IsGrown changed := by
  obtain ⟨-, ⟨failure, -, rfl⟩ | ⟨converted, content, conversion, -, step⟩⟩ :=
    runBeside_cases ran
  · exact .refl _
  · obtain ⟨location, -, rfl, -⟩ := Tree.locate_of_write step.written
    exact Tree.isGrown_put _ _ _

end

/-! ## One file after the other -/

/-- The steps from one tree to another one, with their reports. -/
inductive Runs (policy : Policy) : Tree → List Report → Tree → Prop where
  | done (tree : Tree) : Runs policy tree [] tree
  | next {tree changed after : Tree} {report : Report} {reports : List Report}
      (step : runBeside policy tree report.input = (.ok report, changed))
      (rest : Runs policy changed reports after) :
      Runs policy tree (report :: reports) after

section

variable {policy : Policy}

theorem runs_of_mapM {inputs : List Path} {before after : Tree}
    {reports : List Report}
    (ran : (inputs.mapM (convertBeside policy) :
      ExceptT Fault (StateM Tree) (List Report)).run.run before =
        (.ok reports, after)) :
    reports.map Report.input = inputs ∧ Runs policy before reports after := by
  induction inputs generalizing before reports with
  | nil =>
      cases ran
      exact ⟨rfl, .done _⟩
  | cons input others ih =>
      rw [List.mapM_cons, run_bind, ← runBeside] at ran
      rcases step : runBeside policy before input with ⟨outcome, changed⟩
      rw [step] at ran
      cases outcome with
      | error fault => cases ran
      | ok report =>
          dsimp only at ran
          rw [run_bind] at ran
          rcases rest : (others.mapM (convertBeside policy) :
            ExceptT Fault (StateM Tree) (List Report)).run.run changed with
            ⟨outcome, last⟩
          rw [rest] at ran
          cases outcome with
          | error fault => cases ran
          | ok following =>
              cases ran
              obtain ⟨inputs, runs⟩ := ih rest
              obtain ⟨same, -⟩ := runBeside_cases step
              refine ⟨by rw [List.map_cons, same, inputs], .next ?_ runs⟩
              rw [same, step]

theorem Runs.isGrown {before after : Tree} {reports : List Report}
    (runs : Runs policy before reports after) : before.IsGrown after := by
  induction runs with
  | done tree => exact .refl tree
  | next step rest ih => exact (isGrown_of_runBeside step).trans ih

/-- A run goes through the tree that the steps in front of a step leave. -/
theorem Runs.exists_of_append {before after : Tree}
    {earlier later : List Report}
    (runs : Runs policy before (earlier ++ later) after) :
    ∃ between, Runs policy before earlier between ∧
      Runs policy between later after := by
  induction earlier generalizing before with
  | nil => exact ⟨before, .done before, runs⟩
  | cons report others ih =>
      obtain - | ⟨step, rest⟩ := runs
      obtain ⟨between, first, second⟩ := ih rest
      exact ⟨between, .next step first, second⟩

/-- A run goes through every one of its steps. -/
theorem Runs.exists_step {before after : Tree} {earlier later : List Report}
    {report : Report}
    (runs : Runs policy before (earlier ++ report :: later) after) :
    ∃ tree changed, Runs policy before earlier tree ∧
      runBeside policy tree report.input = (.ok report, changed) ∧
      Runs policy changed later after := by
  obtain ⟨tree, front, rest⟩ := runs.exists_of_append
  obtain - | ⟨step, behind⟩ := rest
  exact ⟨tree, _, front, step, behind⟩

end

/-! ## Where documents are put -/

theorem slashless_documentExtension : '/' ∉ documentExtension := by
  decide

/-- A converted file of a folder whose document is put at a location. -/
structure Puts (before : Tree) (folder : Path) (location : Location)
    (report : Report) (converted : Converted) (spot : Location) : Prop where
  outcome : report.outcome = .ok converted
  output : converted.output = report.input.withExtension documentExtension
  placed : before.place converted.output = .ok spot
  listed : ∃ names, before.IsListed folder location report.input names ∧
    before.locate report.input = .ok (location ++ names)

section

variable {policy : Policy} {before : Tree} (proper : before.IsProper)
  {folder : Path} {location : Location}
  (located : before.locate folder = .ok location)

include proper

section

variable {first second : Report} {converted : Converted}
  {spot : Location}
  (puts : Puts before folder location first converted spot)
  (different : first.input ≠ second.input)

include puts different

/-- Two files have one output if their documents are put at one place. -/
theorem Puts.output_eq {other : Converted}
    (others : Puts before folder location second other spot) :
    converted.output = other.output := by
  obtain ⟨firstNames, firstListed, firstLocated⟩ := puts.listed
  obtain ⟨secondNames, secondListed, secondLocated⟩ := others.listed
  rw [puts.output, others.output]
  exact proper.withExtension_eq_of_places firstListed secondListed different
    slashless_documentExtension firstLocated secondLocated
    (puts.output ▸ puts.placed) (others.output ▸ others.placed)

/-- A document that is put where a file is has the path of the file. -/
theorem Puts.output_eq_input {names : List Text}
    (listed : before.IsListed folder location second.input names)
    (same : spot = location ++ names) : converted.output = second.input := by
  obtain ⟨firstNames, firstListed, firstLocated⟩ := puts.listed
  rw [puts.output]
  exact proper.withExtension_eq_of_place firstListed listed different
    slashless_documentExtension firstLocated
    (puts.output ▸ same ▸ puts.placed)

end

include located

section

variable {tree : Tree} (grown : before.IsGrown tree) {input : Path}
  {names : List Text}
  (listed : before.IsListed folder location input names)

include grown listed

/-- A listed file stays where it is. -/
theorem Tree.IsGrown.locate_eq_of_isListed :
    tree.locate input = before.locate input := by
  refine (grown.locate input).eq ?_
  rw [listed.input]
  rcases proper.locate_below located listed.member with found | long
  · rw [found]
    nofun
  · rw [long]
    nofun

theorem locate_of_read {content : Bytes}
    (read : tree.read input = .ok content) :
    before.locate input = .ok (location ++ names) := by
  obtain ⟨found, known, -⟩ := bind_eq_ok_iff.mp read
  rw [grown.locate_eq_of_isListed proper located listed] at known
  rw [listed.input] at known ⊢
  rcases proper.locate_below located listed.member with found | long
  · exact found
  · rw [long] at known
    cases known

theorem Tree.IsGrown.place_eq_of_read {content : Bytes}
    (read : tree.read input = .ok content) :
    tree.place (input.withExtension documentExtension) =
      before.place (input.withExtension documentExtension) :=
  (grown.place _).eq <| proper.place_ne_notFound
    (locate_of_read proper located grown listed read)
    (proper.file_of_isListed listed) slashless_documentExtension

/-- What a step converts is put at its place. -/
theorem exists_puts_of_isStep {changed : Tree} {report : Report}
    {converted : Converted} {content : Bytes} {conversion : Conversion}
    (outcome : report.outcome = .ok converted) (same : report.input = input)
    (step : IsStep policy tree changed input converted content conversion) :
    ∃ spot, Puts before folder location report converted spot ∧
      changed = tree.put spot (encode conversion.output) ∧
      changed.locate converted.output = .ok spot := by
  have output : converted.output = input.withExtension documentExtension :=
    congrArg Converted.output step.account
  obtain ⟨spot, placed, put, found⟩ := Tree.locate_of_write step.written
  rw [grown.place_eq_of_read proper located listed step.read] at placed
  rw [← output] at placed found
  refine ⟨spot, ⟨outcome, same ▸ output, placed, names, ?_, ?_⟩, put, found⟩
  · rwa [same]
  · rw [same]
    exact locate_of_read proper located grown listed step.read

end

/-- Only the documents of converted files are put into the tree. -/
theorem Runs.file?_eq_or_exists {tree after : Tree} {reports : List Report}
    (runs : Runs policy tree reports after) (grown : before.IsGrown tree)
    (listed : ∀ report ∈ reports,
      ∃ names, before.IsListed folder location report.input names)
    (spot : Location) :
    after.file? spot = tree.file? spot ∨
      ∃ report ∈ reports, ∃ converted,
        Puts before folder location report converted spot ∧
        after.locate converted.output = .ok spot := by
  induction runs with
  | done tree => exact .inl rfl
  | @next tree changed after report reports step rest ih =>
      rw [List.forall_mem_cons] at listed
      obtain ⟨⟨names, isListed⟩, others⟩ := listed
      rcases ih (grown.trans (isGrown_of_runBeside step)) others with
        same | ⟨other, member, converted, puts, found⟩
      · rw [same]
        obtain ⟨-, ⟨failure, -, rfl⟩ |
          ⟨converted, content, conversion, outcome, converts⟩⟩ :=
          runBeside_cases step
        · exact .inl rfl
        · obtain ⟨place, puts, rfl, found⟩ := exists_puts_of_isStep proper
            located grown isListed outcome rfl converts
          rw [Tree.file?_put]
          by_cases here : spot = place
          · refine .inr ⟨report, List.mem_cons_self, converted, here ▸ puts, ?_⟩
            rw [here, ← found]
            exact (rest.isGrown.locate _).eq (found ▸ nofun)
          · exact .inl (if_neg here)
      · exact .inr ⟨other, List.mem_cons_of_mem _ member, converted, puts,
          found⟩

end

/-! ## A whole folder -/

instance isTrans_before : IsTrans Path (Path.before · ·) where
  trans first second third earlier later := by
    rw [Path.before, decide_eq_true_eq] at earlier later ⊢
    exact lt_trans earlier later

theorem ne_of_before {first second : Path}
    (before : Path.before first second = true) : first ≠ second := by
  rintro rfl
  rw [Path.before, decide_eq_true_eq] at before
  exact lt_irrefl _ before

/-- Whether no file of the reports was converted to a path. -/
def Spares (reports : List Report) (path : Path) : Prop :=
  ∀ report ∈ reports, ∀ converted, report.outcome = .ok converted →
    converted.output ≠ path

/-- What comes of converting a folder of a tree, and the tree after it. -/
def runFolder (policy : Policy) (folder : Path) (extension : Text)
    (tree : Tree) : Except Fault (Except FileFailure (List Report)) × Tree :=
  (convertFolder policy folder extension :
    ExceptT Fault (StateM Tree) _).run.run tree

/-- What the reports on a folder tell of the trees around its conversion. -/
structure Accounts (policy : Policy) (folder : Path) (extension : Text)
    (before : Tree) (reports : List Report) (after : Tree) : Prop where
  sorted : (reports.map Report.input).Pairwise (Path.before · ·)
  complete : ∃ location, before.locate folder = .ok location ∧
    ∀ input, input ∈ reports.map Report.input ↔
      (∃ names, before.IsListed folder location input names) ∧
        hasExtension (extension.dropWhile (· == '.')) input = true
  /-- A file is converted as if it was the only one. -/
  alone : ∀ earlier report later, reports = earlier ++ report :: later →
    Spares earlier report.input →
      (runBeside policy before report.input).1 = .ok report
  /-- What a file had before is converted and kept beside it. -/
  kept : ∀ earlier report later converted,
    reports = earlier ++ report :: later →
    report.outcome = .ok converted → Spares earlier report.input →
    Spares later converted.output →
      ∃ content conversion, before.read report.input = .ok content ∧
        Converts policy content conversion ∧
        converted = conversion.account
          (report.input.withExtension documentExtension) ∧
        after.read converted.output = .ok (encode conversion.output)
  others : ∀ location, after.file? location ≠ before.file? location →
    ∃ report ∈ reports, ∃ converted, report.outcome = .ok converted ∧
      after.locate converted.output = .ok location
  folders : after.folders = before.folders
  working : after.working = before.working

theorem run_findInputs (tree : Tree) (folder : Path) (extension : Text) :
    (findInputs folder extension : StateM Tree _).run tree =
      (match tree.list folder with
        | .error cause => .error (.unlistable folder cause)
        | .ok paths =>
            let extension := extension.dropWhile (· == '.')
            let inputs :=
              ordered Path.before (paths.filter (hasExtension extension))
            if inputs.isEmpty then .error (.noInputs folder extension)
            else .ok inputs, tree) := by
  change StateT.run (match tree.list folder with
    | .error cause => _ | .ok paths => _ : StateM Tree _) tree = _
  cases tree.list folder with
  | error cause => rfl
  | ok paths =>
      dsimp only
      split <;> rfl

section

variable {policy : Policy} {folder : Path} {extension : Text}
  {before after : Tree} {reports : List Report}

theorem exists_paths_of_convertFolder
    (ran : runFolder policy folder extension before =
      (.ok (.ok reports), after)) :
    ∃ paths, before.list folder = .ok paths ∧
      reports.map Report.input = ordered Path.before (paths.filter
        (hasExtension (extension.dropWhile (· == '.')))) ∧
      Runs policy before reports after := by
  rw [runFolder, convertFolder, run_bind, run_lift, run_findInputs] at ran
  cases listed : before.list folder with
  | error cause =>
      rw [listed] at ran
      cases ran
  | ok paths =>
      rw [listed] at ran
      dsimp only at ran
      by_cases none : (ordered Path.before (paths.filter (hasExtension
          (extension.dropWhile (· == '.'))))).isEmpty
      · rw [if_pos none] at ran
        cases ran
      · rw [if_neg none] at ran
        dsimp only at ran
        rw [run_bind] at ran
        refine ⟨paths, rfl, ?_⟩
        generalize ordered Path.before (paths.filter (hasExtension
          (extension.dropWhile (· == '.')))) = inputs at ran ⊢
        rcases whole : (inputs.mapM (convertBeside policy) :
          ExceptT Fault (StateM Tree) (List Report)).run.run before with
          ⟨outcome, last⟩
        rw [whole] at ran
        cases outcome with
        | error fault => cases ran
        | ok told =>
            cases ran
            exact runs_of_mapM whole

section

variable {earlier later : List Report} {report : Report}

theorem ne_of_sorted
    (sorted : ((earlier ++ report :: later).map Report.input).Pairwise
      (Path.before · ·)) :
    (∀ other ∈ earlier, other.input ≠ report.input) ∧
      ∀ other ∈ later, other.input ≠ report.input := by
  rw [List.map_append, List.map_cons, List.pairwise_append,
    List.pairwise_cons] at sorted
  refine ⟨fun other member => ?_, fun other member => ?_⟩
  · exact ne_of_before (sorted.2.2 _ (List.mem_map_of_mem member) _
      List.mem_cons_self)
  · exact (ne_of_before (sorted.2.1.1 _ (List.mem_map_of_mem member))).symm

variable (proper : before.IsProper) {location : Location}
  (located : before.locate folder = .ok location)
  (listed : ∀ other ∈ earlier ++ report :: later,
    ∃ names, before.IsListed folder location other.input names)
  (sorted : ((earlier ++ report :: later).map Report.input).Pairwise
    (Path.before · ·))
  (spares : Spares earlier report.input)

include proper located listed sorted

section

variable {tree : Tree} (front : Runs policy before earlier tree)

include spares front

/-- A file on which no document was put is read as it was. -/
theorem Runs.read_eq : tree.read report.input = before.read report.input := by
  obtain ⟨names, isListed⟩ := listed report (by simp)
  have same := front.isGrown.locate_eq_of_isListed proper located isListed
  rcases proper.locate_below located isListed.member with found | long
  · rw [← isListed.input] at found
    rw [Tree.read_of_locate (same.trans found), Tree.read_of_locate found]
    have all : ∀ other ∈ earlier,
        ∃ names, before.IsListed folder location other.input names :=
      fun other member => listed other (List.mem_append_left _ member)
    rcases front.file?_eq_or_exists proper located (.refl _) all
      (location ++ names) with kept | ⟨other, member, converted, puts, -⟩
    · rw [kept]
    · exact absurd (puts.output_eq_input proper
        ((ne_of_sorted sorted).1 other member) isListed rfl)
        (spares other member converted puts.outcome)
  · rw [← isListed.input] at long
    rw [Tree.read, Tree.read, same, long]
    rfl

theorem Runs.fst_runBeside_eq :
    (runBeside policy tree report.input).1 =
      (runBeside policy before report.input).1 := by
  have read := front.read_eq proper located listed sorted spares
  obtain ⟨names, isListed⟩ := listed report (by simp)
  exact fst_runBeside_congr read fun content found =>
    front.isGrown.place_eq_of_read proper located isListed (read.trans found)

end

/-- A document is kept unless another one is put on it. -/
theorem Runs.read_output_eq {changed : Tree} {converted : Converted}
    {spot : Location} {content : Bytes}
    (puts : Puts before folder location report converted spot)
    (spares : Spares later converted.output)
    (grown : before.IsGrown changed) (behind : Runs policy changed later after)
    (found : changed.locate converted.output = .ok spot)
    (known : changed.file? spot = some content) :
    after.read converted.output = .ok content := by
  have all : ∀ other ∈ later,
      ∃ names, before.IsListed folder location other.input names :=
    fun other member => listed other (by simp [member])
  have same : after.file? spot = some content := by
    rcases behind.file?_eq_or_exists proper located grown all spot with
      kept | ⟨other, member, otherConverted, others, -⟩
    · rw [kept, known]
    · exact absurd (others.output_eq proper
        ((ne_of_sorted sorted).2 other member) puts)
        (spares other member otherConverted others.outcome)
  have there : after.locate converted.output = .ok spot :=
    ((behind.isGrown.locate _).eq (found ▸ nofun)).trans found
  rw [Tree.read_of_locate there, same, Option.elim_some]

end

/--
The reports on a folder account for everything that was written.  Documents
may be put on each other or on files that are still to be read, since the
path of a document is told from the name of its file without the extension.
-/
theorem convertFolder_accounts (proper : before.IsProper)
    (ran : runFolder policy folder extension before =
      (.ok (.ok reports), after)) :
    Accounts policy folder extension before reports after := by
  obtain ⟨paths, found, inputs, runs⟩ := exists_paths_of_convertFolder ran
  obtain ⟨location, located, isPath⟩ := Tree.mem_list_iff found
  have member : ∀ input, input ∈ reports.map Report.input ↔
      (∃ names, before.IsListed folder location input names) ∧
        hasExtension (extension.dropWhile (· == '.')) input = true := by
    intro input
    rw [inputs, mem_ordered, List.mem_filter, isPath]
  have listed : ∀ report ∈ reports,
      ∃ names, before.IsListed folder location report.input names :=
    fun report inside => ((member _).mp (List.mem_map_of_mem inside)).1
  have sorted : (reports.map Report.input).Pairwise (Path.before · ·) := by
    rw [inputs]
    refine pairwise_ordered_of_apart fun first here second there different => ?_
    obtain ⟨firstNames, firstListed⟩ :=
      (isPath first).mp (List.mem_filter.mp here).1
    obtain ⟨secondNames, secondListed⟩ :=
      (isPath second).mp (List.mem_filter.mp there).1
    exact proper.before_or_before firstListed secondListed different
  refine ⟨sorted, ⟨location, located, member⟩, ?_, ?_, ?_, ?_, ?_⟩
  · rintro earlier report later rfl spares
    obtain ⟨tree, changed, front, step, -⟩ := runs.exists_step
    rw [← front.fst_runBeside_eq proper located listed sorted spares, step]
  · rintro earlier report later converted rfl outcome spares keeps
    obtain ⟨tree, changed, front, step, behind⟩ := runs.exists_step
    obtain ⟨names, isListed⟩ := listed report (by simp)
    obtain ⟨-, ⟨failure, failed, -⟩ |
      ⟨told, content, conversion, same, isStep⟩⟩ := runBeside_cases step
    · rw [failed] at outcome
      cases outcome
    · obtain rfl : told = converted := by
        rw [same] at outcome
        exact Except.ok.inj outcome
      obtain ⟨spot, puts, rfl, there⟩ := exists_puts_of_isStep proper located
        front.isGrown isListed outcome rfl isStep
      refine ⟨content, conversion, ?_, isStep.converts, isStep.account, ?_⟩
      · rw [← front.read_eq proper located listed sorted spares]
        exact isStep.read
      · refine Runs.read_output_eq proper located listed sorted puts keeps
          (front.isGrown.trans (isGrown_of_runBeside step)) behind there ?_
        rw [Tree.file?_put, if_pos rfl]
  · intro spot different
    rcases runs.file?_eq_or_exists proper located (.refl _) listed spot with
      same | ⟨report, inside, converted, puts, found⟩
    · exact absurd same different
    · exact ⟨report, inside, converted, puts.outcome, found⟩
  · exact runs.isGrown.folders
  · exact runs.isGrown.working

end

deriving instance DecidableEq for Report

instance decidable_isName (name : Text) : Decidable (Tree.IsName name) :=
  decidable_of_iff
    ((name ≠ [] ∧ '/' ∉ name) ∧ name ≠ ("." : Text) ∧ name ≠ ("..": Text))
    ⟨fun all => ⟨⟨all.1.1, all.1.2⟩, all.2.1, all.2.2⟩,
      fun isName => ⟨⟨isName.nonempty, isName.slashless⟩, isName.here,
        isName.above⟩⟩

/-- A tree in which the document of one of two files cannot be written. -/
def blockedTree : Tree where
  folders := [["b.tf"]]
  files := [(["a.sql"], encode "create table s.t (c int);"), (["b.sql"], [])]

/-- What is told of the files of the tree. -/
def blockedReports : List Report :=
  [⟨⟨"./a.sql"⟩, .ok ⟨⟨"./a.tf"⟩, 1, 1, []⟩⟩,
    ⟨⟨"./b.sql"⟩, .error (.unwritable ⟨"./b.tf"⟩ .isFolder)⟩]

theorem isProper_blockedTree : blockedTree.IsProper where
  distinct := by decide
  apart := by decide
  names := by decide
  inFolder := by decide
  nested := by decide

/-- One file is converted, and the output of the other one is a folder. -/
theorem convertFolder_accounts_blockedTree :
    (runFolder {} ⟨"."⟩ ".sql" blockedTree).1 = .ok (.ok blockedReports) ∧
      Accounts {} ⟨"."⟩ ".sql" blockedTree blockedReports
        (runFolder {} ⟨"."⟩ ".sql" blockedTree).2 := by
  have reports : (runFolder {} ⟨"."⟩ ".sql" blockedTree).1 =
      .ok (.ok blockedReports) := by
    decide +kernel
  exact ⟨reports, convertFolder_accounts isProper_blockedTree
    (Prod.ext reports rfl)⟩

/-- Two files that differ in the case of their extension only. -/
def twinTree : Tree where
  files := [(["a.SQL"], encode "create table s.t (c int);"), (["a.sql"], [])]

/-- A document is put on another one, which is lost. -/
theorem twin_document_is_lost :
    ∃ reports after converted content conversion,
      runFolder {} ⟨"."⟩ "sql" twinTree = (.ok (.ok reports), after) ∧
      ⟨⟨"./a.SQL"⟩, .ok converted⟩ ∈ reports ∧
      twinTree.read ⟨"./a.SQL"⟩ = .ok content ∧
      Converts {} content conversion ∧
      after.read converted.output ≠ .ok (encode conversion.output) := by
  have reports : (runFolder {} ⟨"."⟩ "sql" twinTree).1 =
      .ok (.ok [⟨⟨"./a.SQL"⟩, .ok ⟨⟨"./a.tf"⟩, 1, 1, []⟩⟩,
        ⟨⟨"./a.sql"⟩, .ok ⟨⟨"./a.tf"⟩, 0, 0, []⟩⟩]) := by
    decide +kernel
  have last : (runFolder {} ⟨"."⟩ "sql" twinTree).2.read ⟨"./a.tf"⟩ = .ok [] := by
    decide +kernel
  have script : decode? (encode "create table s.t (c int);") =
      some "create table s.t (c int);" := by
    decide +kernel
  have filled : (Conversion.ofScript {} "create table s.t (c int);").map
      (fun conversion => encode conversion.output == []) = .ok false := by
    decide +kernel
  obtain ⟨conversion, converts, nonempty⟩ := map_eq_ok_iff.mp filled
  refine ⟨_, _, _, _, conversion, Prod.ext reports rfl, List.mem_cons_self, rfl,
    ⟨_, script, converts⟩, ?_⟩
  rw [last]
  intro same
  rw [← Except.ok.inj same] at nonempty
  cases nonempty

end Snowform
