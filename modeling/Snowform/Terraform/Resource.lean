import Snowform.Hcl.Block
import Snowform.Ordered

/-!
# Resources

A resource is a block together with the addresses of the resources it
depends on.  These are kept in one order, without repetition and without the
resource's own address, so that it does not matter how they were added.
-/

namespace Snowform.Terraform

open Text

/-- The kinds of resources that are written. -/
inductive ResourceKind where
  | table
  | view
  | procedure
  | javascriptProcedure
  | tableConstraint
  deriving DecidableEq

namespace ResourceKind

def all : List ResourceKind :=
  [.table, .view, .procedure, .javascriptProcedure, .tableConstraint]

def type : ResourceKind → Text
  | .table => "snowflake_table"
  | .view => "snowflake_view"
  | .procedure => "snowflake_procedure"
  | .javascriptProcedure => "snowflake_procedure_javascript"
  | .tableConstraint => "snowflake_table_constraint"

def ofType? (type : Text) : Option ResourceKind :=
  all.find? fun kind => kind.type == type

/-- The place of a kind among dependencies. -/
def rank : ResourceKind → Nat
  | .table => 0
  | .view => 1
  | .procedure => 2
  | .javascriptProcedure => 2
  | .tableConstraint => 3

def address (kind : ResourceKind) (name : Text) : Text :=
  kind.type ++ '.' :: name

end ResourceKind

/-- The place of addresses of unknown types, behind all others. -/
def unknownRank : Nat := 255

/-- The place of an address among dependencies, told from its type. -/
def addressRank (address : Text) : Nat :=
  if address.contains '.' then
    match ResourceKind.ofType? (address.takeWhile (· != '.')) with
    | some kind => kind.rank
    | none => unknownRank
  else
    unknownRank

/-- Whether an address comes before another one among dependencies. -/
def addressBefore (first second : Text) : Bool :=
  let firstRank := addressRank first
  let secondRank := addressRank second
  firstRank < secondRank ||
    firstRank == secondRank && decide (first < second)

structure Resource where
  kind : ResourceKind
  name : Text
  /-- The block without its dependencies. -/
  block : Text
  /-- The addresses that the resource depends on. -/
  dependencies : List Text := []
  deriving DecidableEq

namespace Resource

def address (resource : Resource) : Text :=
  resource.kind.address resource.name

def addDependency (resource : Resource) (target : Text) : Resource :=
  if target == resource.address then
    resource
  else
    { resource with
      dependencies :=
        insertOrdered addressBefore target resource.dependencies }

def addDependencies (resource : Resource) (targets : List Text) : Resource :=
  targets.foldl addDependency resource

/-- The end of a block that dependencies are written in front of. -/
def blockEnd : Text := "\x7d\n"

/-- The section that lists dependencies, with the end of the block. -/
def dependencySection (dependencies : List Text) : Text :=
  ("\n  depends_on = [" : Text) ++ (", " : Text).intercalate dependencies ++
    ("]\n" : Text) ++ blockEnd

def content (resource : Resource) : Text :=
  if resource.dependencies.isEmpty then
    resource.block
  else
    (dropEnd? blockEnd resource.block).getD resource.block ++
      dependencySection resource.dependencies

end Resource

end Snowform.Terraform
