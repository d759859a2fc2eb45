/-
  PhpNames.Resolve.Options — what is reported, and how deep a variable name may be nested.
-/
import PhpNames.Json.Record

namespace PhpNames

open Json (Value Document)

/-- The choices a caller has. -/
structure Options where
  /-- Whether undefined variables are reported. -/
  reportUndefined : Bool := true
  /-- Names, without the dollar sign, of further variables that are always present. -/
  extraSuperglobals : List String := []
  /-- How many nodes may be passed on the way to a variable's name. -/
  maxNameChain : Nat := 64
  deriving DecidableEq, Repr

namespace Options

/-- The names of the fields. -/
def fieldNames : List String :=
  ["report_undefined_variables", "extra_superglobals", "max_name_chain_depth"]

/-- The options as a value. -/
def toValue (o : Options) : Value :=
  .obj [("report_undefined_variables", .bool o.reportUndefined),
    ("extra_superglobals", .arr (o.extraSuperglobals.map .str)),
    ("max_name_chain_depth", .int o.maxNameChain)]

/-- Reads options; what is missing is as by default. -/
def ofValue? (v : Value) : Option Options := do
  match ← Json.recordFields? fieldNames v with
  | [report, extra, depth] =>
    return {
      reportUndefined := ← Json.fieldOr? Json.bool? true report
      extraSuperglobals := ← Json.fieldOr? Json.texts? [] extra
      maxNameChain := ← Json.fieldOr? Json.nat? 64 depth }
  | _ => none

/-- Reads a document as options. -/
def ofDocument? (d : Document) : Option Options := (d.select? fieldNames).bind ofValue?

end Options

end PhpNames
