import Snowform.Ddl.Name

/-!
# Constraints of tables

A constraint has a kind, the columns it speaks of, flags, and a target if it
is a foreign key.  As it is read its name may be missing; in a table every
constraint has a name.
-/

namespace Snowform

inductive ConstraintKind where
  | primaryKey
  | foreignKey
  | unique
  | check
  deriving DecidableEq

def ConstraintKind.keyword : ConstraintKind → Text
  | .primaryKey => "PRIMARY KEY"
  | .foreignKey => "FOREIGN KEY"
  | .unique => "UNIQUE"
  | .check => "CHECK"

/-- The short form of a constraint kind that generated names end in. -/
def ConstraintKind.abbreviation : ConstraintKind → Text
  | .primaryKey => "PK"
  | .foreignKey => "FK"
  | .unique => "UK"
  | .check => "CK"

/-- The flags of a constraint; what was not said is absent. -/
structure ConstraintFlags where
  rely : Option Bool := none
  enable : Option Bool := none
  deferrable : Option Bool := none
  deriving DecidableEq, Inhabited

/-- The table and the columns that a foreign key points at. -/
structure ForeignKeyTarget where
  table : QualifiedName
  columns : List Text
  deriving DecidableEq

/-- What a constraint says, apart from its name. -/
structure ConstraintTerms where
  kind : ConstraintKind
  columns : List Text
  flags : ConstraintFlags := {}
  references : Option ForeignKeyTarget := none
  /-- The expression of a check, without its parentheses. -/
  expression : Option Text := none
  deriving DecidableEq

/-- A constraint as it is written, where the name may be missing. -/
structure DraftConstraint extends ConstraintTerms where
  name : Option Text := none
  deriving DecidableEq

structure Constraint extends ConstraintTerms where
  name : Text
  deriving DecidableEq

end Snowform
