import Snowform.Text.Blank

/-!
# Types of columns

Some names of types are only other names for a canonical type.  They are met
in any case and without parameters; every other type stays as it is written.
-/

namespace Snowform.Terraform

open Text

/-- Names of types with the canonical type that is written for them. -/
def typeNames : List (Text × Text) :=
  [("INT", "NUMBER(38,0)"), ("INTEGER", "NUMBER(38,0)"),
    ("BIGINT", "NUMBER(38,0)"), ("SMALLINT", "NUMBER(38,0)"),
    ("TINYINT", "NUMBER(38,0)"), ("BYTEINT", "NUMBER(38,0)"),
    ("FLOAT", "FLOAT"), ("DOUBLE", "FLOAT"), ("REAL", "FLOAT"),
    ("TEXT", "VARCHAR(16777216)"), ("STRING", "VARCHAR(16777216)"),
    ("BINARY", "BINARY"), ("VARBINARY", "BINARY"),
    ("BOOLEAN", "BOOLEAN"), ("BOOL", "BOOLEAN"), ("DATE", "DATE"),
    ("DATETIME", "TIMESTAMP_NTZ(9)"), ("TIMESTAMP", "TIMESTAMP_NTZ(9)"),
    ("TIME", "TIME(9)"), ("VARIANT", "VARIANT"), ("OBJECT", "OBJECT"),
    ("ARRAY", "ARRAY")]

/-- The type that is written for a column. -/
def columnType (dataType : Text) : Text :=
  ((typeNames.lookup (asciiUpper (trim dataType)))).getD dataType

end Snowform.Terraform
