import Snowform.Terraform.Synthesis

/-!
# Conversions

A conversion reads a script, writes its objects as resources and renders the
document that holds them.
-/

namespace Snowform

open Terraform

/-- What becomes of a script. -/
structure Conversion where
  objects : List DdlObject
  diagnostics : List Diagnostic
  resources : List Resource
  notes : List Note

namespace Conversion

def output (conversion : Conversion) : Text :=
  render conversion.resources

/-- Convert a script under a policy. -/
def ofScript (policy : Policy) (text : Text) : Except Fault Conversion := do
  let script ← Script.read text
  let additions := additions policy script.objects
  return {
    objects := script.objects
    diagnostics := script.diagnostics
    resources := (resourceGroups additions).flatten
    notes := script.notes ++ synthesisNotes script.objects additions }

end Conversion

end Snowform
