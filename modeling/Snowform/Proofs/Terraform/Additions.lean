import Snowform.Proofs.Terraform.Resources
import Snowform.Proofs.Text.Trimming
import Mathlib.Data.List.Nodup

/-!
# Additions in any order

What a resource depends on is told by the set of all addresses that were
added to it: in how many calls they came, in which order and how often makes
no difference.  Its content is made from the block alone, so that nothing of
an earlier list of dependencies is left in it.

A resource can also be kept with the content that was written last.  Then
each call appends what is new, sorts all dependencies and writes the content
again.  `Rendering` keeps a resource in this way, with the same results.
-/

namespace Snowform.Terraform

open Text

namespace Resource

/-! ## Calls one after another -/

/-- The resource of a block, before anything is added. -/
def ofBlock (kind : ResourceKind) (name block : Text) : Resource where
  kind := kind
  name := name
  block := block

/-- Add dependencies call by call. -/
def addAll (resource : Resource) (calls : List (List Text)) : Resource :=
  calls.foldl addDependencies resource

/-- Several calls add what one call with all their targets adds. -/
theorem addAll_eq (resource : Resource) (calls : List (List Text)) :
    resource.addAll calls = resource.addDependencies calls.flatten := by
  rw [addDependencies, List.foldl_flatten]
  rfl

/-- All calls together put what they add in order once. -/
theorem addAll_ofBlock (kind : ResourceKind) (name block : Text)
    (calls : List (List Text)) :
    (ofBlock kind name block).addAll calls =
      (ofBlock kind name block).withDependencies (ordered addressBefore
        (calls.flatten.filter (· != kind.address name))) := by
  rw [addAll_eq, addDependencies_eq]
  rfl

/-- A resource without dependencies has them in order. -/
theorem isOrdered_ofBlock (kind : ResourceKind) (name block : Text) :
    (ofBlock kind name block).IsOrdered :=
  isOrdered_of_dependencies_eq_nil rfl

/-- Whatever calls there are, the dependencies are in order. -/
theorem isOrdered_addAll_ofBlock (kind : ResourceKind) (name block : Text)
    (calls : List (List Text)) :
    ((ofBlock kind name block).addAll calls).IsOrdered := by
  rw [addAll_eq]
  exact (isOrdered_ofBlock kind name block).addDependencies calls.flatten

/-- Dependencies in order are there once. -/
theorem IsOrdered.nodup {resource : Resource} (isOrdered : resource.IsOrdered) :
    resource.dependencies.Nodup :=
  isOrdered.pairwise_addressBefore.imp fun before same => by
    rw [same] at before
    exact irrefl_of (addressBefore · ·) _ before

/-! ## Contents -/

/-- Dependencies are written in front of the end of a block. -/
theorem content_of_blockEnd {resource : Resource} {body : Text}
    (ends : resource.block = body ++ blockEnd) :
    resource.content =
      if resource.dependencies.isEmpty then resource.block
      else body ++ dependencySection resource.dependencies := by
  rw [content, ends, dropEnd?_append]
  rfl

end Resource

/-! ## Contents that are kept -/

/-- A resource with the content that was written last. -/
structure Rendering where
  resource : Resource
  content : Text

namespace Rendering

def ofBlock (kind : ResourceKind) (name block : Text) : Rendering where
  resource := .ofBlock kind name block
  content := block

/-- Append an address, unless it is there or is the resource's own. -/
def append (own : Text) (dependencies : List Text) (target : Text) :
    List Text :=
  if target = own ∨ target ∈ dependencies then dependencies
  else dependencies ++ [target]

/-- Whether an address may stand in front of another one. -/
def notBehind (first second : Text) : Bool :=
  !addressBefore second first

/-- Append what is new, sort all dependencies and write the content again. -/
def add (rendering : Rendering) (targets : List Text) : Rendering :=
  let resource := rendering.resource
  let appended := targets.foldl (append resource.address) resource.dependencies
  let changed := resource.withDependencies
    (appended.mergeSort notBehind)
  { resource := changed, content := changed.content }

/-- A text is not behind another one if it is the same or comes before it. -/
theorem notBehind_iff {first second : Text} :
    notBehind first second = true ↔
      first = second ∨ addressBefore first second = true := by
  rw [notBehind, Bool.not_eq_true']
  constructor
  · intro notBefore
    by_contra neither
    rw [not_or] at neither
    exact neither.1 (Std.Trichotomous.trichotomous
      (r := fun one other : Text => addressBefore one other = true) _ _
      neither.2 (Bool.eq_false_iff.mp notBefore))
  · rintro (rfl | before)
    · exact Bool.eq_false_iff.mpr (irrefl_of (addressBefore · ·) first)
    · exact Bool.eq_false_iff.mpr (asymm_of (addressBefore · ·) before)

theorem notBehind_trans (first second third : Text) :
    notBehind first second = true → notBehind second third = true →
      notBehind first third = true := by
  simp only [notBehind_iff]
  rintro (rfl | before) (rfl | later)
  · exact .inl rfl
  · exact .inr later
  · exact .inr before
  · exact .inr (trans_of (addressBefore · ·) before later)

theorem notBehind_total (first second : Text) :
    (notBehind first second || notBehind second first) = true := by
  rw [Bool.or_eq_true]
  cases before : addressBefore second first with
  | true => exact .inr (notBehind_iff.mpr (.inr before))
  | false =>
      refine .inl ?_
      rw [notBehind, before]
      rfl

/-- Exactly the targets other than the resource itself are appended. -/
theorem mem_foldl_append {own target : Text} {targets dependencies : List Text} :
    target ∈ targets.foldl (append own) dependencies ↔
      target ∈ dependencies ∨ target ∈ targets ∧ target ≠ own := by
  induction targets generalizing dependencies with
  | nil => simp
  | cons first others ih =>
      rw [List.foldl_cons, ih, append, List.mem_cons]
      split_ifs with known
      · constructor
        · exact Or.imp_right fun later => ⟨.inr later.1, later.2⟩
        · rintro (old | ⟨rfl | later, other⟩)
          · exact .inl old
          · exact .inl (known.resolve_left other)
          · exact .inr ⟨later, other⟩
      · rw [List.mem_append, List.mem_singleton]
        constructor
        · rintro ((old | rfl) | later)
          · exact .inl old
          · exact .inr ⟨.inl rfl, fun own => known (.inl own)⟩
          · exact .inr ⟨.inr later.1, later.2⟩
        · rintro (old | ⟨rfl | later, other⟩)
          · exact .inl (.inl old)
          · exact .inl (.inr rfl)
          · exact .inr ⟨later, other⟩

/-- No target is appended twice. -/
theorem nodup_foldl_append {own : Text} {targets dependencies : List Text}
    (nodup : dependencies.Nodup) :
    (targets.foldl (append own) dependencies).Nodup := by
  induction targets generalizing dependencies with
  | nil => exact nodup
  | cons first others ih =>
      rw [List.foldl_cons]
      refine ih ?_
      rw [append]
      split_ifs with known
      · exact nodup
      · refine List.nodup_append.mpr ⟨nodup, List.nodup_singleton first, ?_⟩
        rintro old member new inside rfl
        exact known (.inr (List.mem_singleton.mp inside ▸ member))

/-- Sorting different addresses leaves each of them before those behind it. -/
theorem pairwise_mergeSort {dependencies : List Text}
    (nodup : dependencies.Nodup) :
    (dependencies.mergeSort notBehind).Pairwise (addressBefore · ·) := by
  have sorted : (dependencies.mergeSort notBehind).Pairwise
      fun first second => notBehind first second = true :=
    List.pairwise_mergeSort notBehind_trans notBehind_total dependencies
  have apart : (dependencies.mergeSort notBehind).Nodup :=
    (List.mergeSort_perm dependencies notBehind).nodup_iff.mpr nodup
  refine (sorted.and apart).imp ?_
  rintro first second ⟨ordered, different⟩
  exact (notBehind_iff.mp ordered).resolve_left different

/-- Sorting what was appended is the same as putting each into its place. -/
theorem add_eq {rendering : Rendering}
    (isOrdered : rendering.resource.IsOrdered) (targets : List Text) :
    rendering.add targets =
      { resource := rendering.resource.addDependencies targets
        content := (rendering.resource.addDependencies targets).content } := by
  obtain ⟨resource, content⟩ := rendering
  have same : ((targets.foldl (append resource.address)
      resource.dependencies).mergeSort notBehind) =
        (resource.addDependencies targets).dependencies := by
    refine (pairwise_mergeSort (nodup_foldl_append isOrdered.nodup)).eq_of_mem_iff
      (isOrdered.addDependencies targets).pairwise_addressBefore fun target => ?_
    rw [List.mem_mergeSort, mem_foldl_append,
      Resource.mem_dependencies_addDependencies]
  have whole : resource.withDependencies
      (resource.addDependencies targets).dependencies =
        resource.addDependencies targets := by
    rw [Resource.dependencies_addDependencies, Resource.addDependencies_eq]
  rw [add, same, whole]

/-- A rendering is what its resource says, whatever calls led to it. -/
theorem foldl_add_ofBlock (kind : ResourceKind) (name block : Text)
    (calls : List (List Text)) :
    calls.foldl add (ofBlock kind name block) =
      { resource := (Resource.ofBlock kind name block).addAll calls
        content := ((Resource.ofBlock kind name block).addAll calls).content } := by
  induction calls using List.reverseRecOn with
  | nil => rfl
  | append_singleton earlier last ih =>
      have isOrdered := Resource.isOrdered_addAll_ofBlock kind name block earlier
      rw [List.foldl_append, ih, List.foldl_cons, List.foldl_nil,
        add_eq isOrdered, Resource.addAll, Resource.addAll, List.foldl_append]
      rfl

end Rendering

namespace Resource

/-- What all calls together leave of a resource of a block. -/
structure IsSum (kind : ResourceKind) (name block : Text)
    (calls : List (List Text)) (resource : Resource) : Prop where
  kept : resource.kind = kind ∧ resource.name = name ∧ resource.block = block
  mem_dependencies_iff : ∀ target, target ∈ resource.dependencies ↔
    (∃ call ∈ calls, target ∈ call) ∧ target ≠ kind.address name
  nodup : resource.dependencies.Nodup
  /-- The dependencies are ordered by rank and then by their texts. -/
  sorted : resource.dependencies.Pairwise fun first second =>
    addressRank first < addressRank second ∨
      addressRank first = addressRank second ∧ first < second
  content_of_none : resource.dependencies = [] → resource.content = block
  /-- There is one section of dependencies, in front of the last brace. -/
  content_of_some : resource.dependencies ≠ [] →
    ∃ body, block = body ++ ("\x7d\n" : Text) ∧
      resource.content = body ++ (("\n  depends_on = [" : Text) ++
        (", " : Text).intercalate resource.dependencies ++
          ("]\n" : Text) ++ ("\x7d\n" : Text))

/-- Putting targets into their places leaves the sum of the calls. -/
theorem isSum_addAll_ofBlock (kind : ResourceKind) (name : Text)
    {block : Text} (ends : blockEnd <:+ block) (calls : List (List Text)) :
    IsSum kind name block calls ((ofBlock kind name block).addAll calls) := by
  have isOrdered := isOrdered_addAll_ofBlock kind name block calls
  obtain ⟨body, parts⟩ := ends
  have same : ((ofBlock kind name block).addAll calls).block = block := by
    rw [addAll_eq, block_addDependencies]
    rfl
  have content := content_of_blockEnd (same.trans parts.symm)
  constructor
  case kept =>
    rw [addAll_eq, kind_addDependencies, name_addDependencies,
      block_addDependencies]
    exact ⟨rfl, rfl, rfl⟩
  case mem_dependencies_iff =>
    intro target
    rw [addAll_eq, mem_dependencies_addDependencies, List.mem_flatten]
    exact or_iff_right List.not_mem_nil
  case nodup => exact isOrdered.nodup
  case sorted => exact isOrdered.sorted
  case content_of_none =>
    intro none
    rw [content, none, List.isEmpty_nil, if_pos rfl, same]
  case content_of_some =>
    intro some
    refine ⟨body, parts.symm, ?_⟩
    rw [content, if_neg (by rwa [List.isEmpty_iff])]
    rfl

/--
Calls with the same addresses among their arguments leave the same resource
of a block, also where its content is written again at every call.  It
depends on all of them but itself, each once and in one order, and says so
in front of the end of its block.
-/
theorem additions_leave_their_sum (kind : ResourceKind) (name : Text)
    {block : Text} (ends : ("\x7d\n" : Text) <:+ block)
    {first second : List (List Text)}
    (same : ∀ target, (∃ call ∈ first, target ∈ call) ↔
      ∃ call ∈ second, target ∈ call) :
    ∃ resource, IsSum kind name block first resource ∧
      (ofBlock kind name block).addAll first = resource ∧
      (ofBlock kind name block).addAll second = resource ∧
      first.foldl Rendering.add (.ofBlock kind name block) =
        { resource := resource, content := resource.content } ∧
      second.foldl Rendering.add (.ofBlock kind name block) =
        { resource := resource, content := resource.content } := by
  have alike : (ofBlock kind name block).addAll second =
      (ofBlock kind name block).addAll first := by
    rw [addAll_ofBlock, addAll_ofBlock]
    refine congrArg _ (ordered_eq_of_mem_iff fun target => ?_)
    rw [List.mem_filter, List.mem_filter, List.mem_flatten, List.mem_flatten,
      same target]
  refine ⟨_, isSum_addAll_ofBlock kind name ends first, rfl, alike,
    Rendering.foldl_add_ofBlock kind name block first, ?_⟩
  rw [Rendering.foldl_add_ofBlock, alike]

/-- Two calls, with a repeated address and the address of the view itself. -/
def twoCalls : List (List Text) :=
  [["snowflake_procedure.P", "snowflake_view.W", "snowflake_view.V",
      "snowflake_table.B"],
    ["snowflake_table.A", "snowflake_table.B"]]

/-- Single additions in another order, with a call that adds nothing. -/
def singleCalls : List (List Text) :=
  [["snowflake_table.A"], ["snowflake_view.V"], [], ["snowflake_table.B"],
    ["snowflake_view.W"], ["snowflake_procedure.P"]]

/-- A block to which dependencies are added. -/
def shortBlock : Text := "view \x7b\x7d\n"

/--
Two calls that share a target and name the view itself, against single
additions in another order.
-/
theorem additions_leave_their_sum_twoCalls :
    ∃ resource, IsSum .view "V" shortBlock twoCalls resource ∧
      (ofBlock .view "V" shortBlock).addAll twoCalls = resource ∧
      (ofBlock .view "V" shortBlock).addAll singleCalls = resource ∧
      twoCalls.foldl Rendering.add (.ofBlock .view "V" shortBlock) =
        { resource := resource, content := resource.content } ∧
      singleCalls.foldl Rendering.add (.ofBlock .view "V" shortBlock) =
        { resource := resource, content := resource.content } := by
  have ends : ("\x7d\n" : Text) <:+ shortBlock := by decide
  have there : ∀ target ∈ twoCalls.flatten, target ∈ singleCalls.flatten := by
    decide
  have back : ∀ target ∈ singleCalls.flatten, target ∈ twoCalls.flatten := by
    decide
  refine additions_leave_their_sum .view "V" ends fun target => ?_
  rw [← List.mem_flatten, ← List.mem_flatten]
  exact ⟨there target, back target⟩

end Resource

end Snowform.Terraform
