import Snowform.Terraform.Resource
import Snowform.Proofs.Ordered
import Mathlib.Data.Char
import Mathlib.Data.List.Lex

/-!
# Adding dependencies

Adding dependencies changes nothing of a resource but its dependencies.  They
stay in their order, and what is added is there afterwards unless it is the
address of the resource itself.
-/

namespace Snowform.Terraform

open Text

/-! ## The order of addresses -/

/-- An address is ranked by the kind that it starts with. -/
@[simp]
theorem addressRank_address (kind : ResourceKind) (name : Text) :
    addressRank (kind.address name) = kind.rank := by
  have plain : ∀ character ∈ kind.type, (character != '.') = true :=
    List.all_eq_true.mp (by cases kind <;> decide)
  have start : (kind.address name).takeWhile (· != '.') = kind.type := by
    rw [ResourceKind.address, List.takeWhile_append_of_pos plain]
    simp
  have known : ResourceKind.ofType? kind.type = some kind := by
    cases kind <;> decide
  have dotted : (kind.address name).contains '.' = true := by
    simp [ResourceKind.address]
  rw [addressRank, if_pos dotted, start, known]

/-- Addresses are compared by rank and, within a rank, by their texts. -/
theorem addressBefore_iff {first second : Text} :
    addressBefore first second = true ↔
      addressRank first < addressRank second ∨
        addressRank first = addressRank second ∧ first < second := by
  simp [addressBefore]

instance : IsStrictTotalOrder Text (addressBefore · ·) where
  irrefl address before := by
    rcases addressBefore_iff.mp before with lower | ⟨-, earlier⟩
    · exact lt_irrefl _ lower
    · exact lt_irrefl _ earlier
  trans first second third := by
    simp only [addressBefore_iff]
    rintro (lower | ⟨same, earlier⟩) (lower' | ⟨same', earlier'⟩)
    · exact .inl (lower.trans lower')
    · exact .inl (same' ▸ lower)
    · exact .inl (same ▸ lower')
    · exact .inr ⟨same.trans same', earlier.trans earlier'⟩
  trichotomous first second := by
    simp only [addressBefore_iff, not_or, not_and]
    rintro ⟨notLower, notEarlier⟩ ⟨notHigher, notLater⟩
    have same := le_antisymm (not_lt.mp notHigher) (not_lt.mp notLower)
    exact le_antisymm (not_lt.mp (notLater same.symm))
      (not_lt.mp (notEarlier same))

namespace Resource

/-! ## What stays -/

/-- A resource with other dependencies. -/
def withDependencies (resource : Resource) (dependencies : List Text) :
    Resource :=
  { resource with dependencies := dependencies }

/-- The dependencies of a resource when some are added to given ones. -/
def extended (resource : Resource) (dependencies targets : List Text) :
    List Text :=
  (targets.filter (· != resource.address)).foldl
    (fun kept target => insertOrdered addressBefore target kept) dependencies

/--
Targets are put into their places one after the other, but for the own address.
-/
theorem addDependencies_eq (resource : Resource) (targets : List Text) :
    resource.addDependencies targets =
      resource.withDependencies
        (resource.extended resource.dependencies targets) := by
  induction targets generalizing resource with
  | nil => rfl
  | cons target others ih =>
      rw [addDependencies, List.foldl_cons]
      change (resource.addDependency target).addDependencies others = _
      by_cases own : target = resource.address
      · have same : resource.addDependency target = resource :=
          if_pos (beq_iff_eq.mpr own)
        rw [same, ih, extended, extended, List.filter_cons_of_neg (by simp [own])]
      · have added : resource.addDependency target =
            resource.withDependencies
              (insertOrdered addressBefore target resource.dependencies) :=
          if_neg (by simpa using own)
        rw [added, ih, extended, extended, List.filter_cons_of_pos (by simp [own])]
        rfl

theorem addDependencies_singleton (resource : Resource) (target : Text) :
    resource.addDependencies [target] = resource.addDependency target := rfl

section

variable (resource : Resource) (targets : List Text)

@[simp]
theorem kind_addDependencies :
    (resource.addDependencies targets).kind = resource.kind := by
  rw [addDependencies_eq]
  rfl

@[simp]
theorem name_addDependencies :
    (resource.addDependencies targets).name = resource.name := by
  rw [addDependencies_eq]
  rfl

@[simp]
theorem block_addDependencies :
    (resource.addDependencies targets).block = resource.block := by
  rw [addDependencies_eq]
  rfl

@[simp]
theorem address_addDependencies :
    (resource.addDependencies targets).address = resource.address := by
  rw [addDependencies_eq]
  rfl

/--
The new dependencies are the old ones with the targets put into their places.
-/
theorem dependencies_addDependencies :
    (resource.addDependencies targets).dependencies =
      resource.extended resource.dependencies targets := by
  rw [addDependencies_eq]
  rfl

/-! ## What is added -/

/-- Exactly the targets other than the resource itself are added. -/
theorem mem_dependencies_addDependencies {target : Text} :
    target ∈ (resource.addDependencies targets).dependencies ↔
      target ∈ resource.dependencies ∨
        target ∈ targets ∧ target ≠ resource.address := by
  rw [dependencies_addDependencies, extended, mem_foldl_insertOrdered,
    List.mem_filter, bne_iff_ne]

end

/-- Dependencies in order, among which the resource itself is not. -/
structure IsOrdered (resource : Resource) : Prop where
  /-- The dependencies are ordered by rank and then by their texts. -/
  sorted : resource.dependencies.Pairwise fun first second =>
    addressRank first < addressRank second ∨
      addressRank first = addressRank second ∧ first < second
  notOwn : resource.address ∉ resource.dependencies

/-- The order of dependencies is the one that they are put into. -/
theorem IsOrdered.pairwise_addressBefore {resource : Resource}
    (isOrdered : resource.IsOrdered) :
    resource.dependencies.Pairwise (addressBefore · ·) :=
  isOrdered.sorted.imp addressBefore_iff.mpr

/-- A resource without dependencies has them in order. -/
theorem isOrdered_of_dependencies_eq_nil {resource : Resource}
    (none : resource.dependencies = []) : resource.IsOrdered where
  sorted := by
    rw [none]
    exact List.Pairwise.nil
  notOwn := by
    rw [none]
    exact List.not_mem_nil

/-- Adding targets keeps dependencies in order, and the resource out of them. -/
theorem IsOrdered.addDependencies {resource : Resource}
    (isOrdered : resource.IsOrdered) (targets : List Text) :
    (resource.addDependencies targets).IsOrdered where
  sorted := by
    rw [dependencies_addDependencies]
    exact (pairwise_foldl_insertOrdered isOrdered.pairwise_addressBefore).imp
      addressBefore_iff.mp
  notOwn := by
    rw [address_addDependencies, mem_dependencies_addDependencies]
    rintro (old | ⟨-, other⟩)
    · exact isOrdered.notOwn old
    · exact other rfl

end Resource

end Snowform.Terraform
