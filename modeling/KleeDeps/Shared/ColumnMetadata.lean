import KleeDeps.Py.Value

/-!
# Column metadata of a campaign

A column of the merged tables is one run configuration applied to one kind of
case. `build_column_metadata` names it from what the campaign stored about the
run and what the case's own output says about itself.
-/

namespace KleeDeps.Shared

open Py

/-- The run metadata that `derive_run_configuration` writes. -/
structure RunMetadata where
  sourceColumnPrefix : Text
  toolFamily : Text
  searcher : Text
  symSize : Text
  cvModel : Text
  deriving DecidableEq, Repr

/-- What `case_output_metadata` keeps of a case. -/
structure CaseOutputMetadata where
  config : Text
  sliced : Bool
  deriving DecidableEq, Repr

/-- A string field that is not blank, stripped. -/
def strippedField (items : List (Text × Value)) (name : Text) : Option Text :=
  match (Value.field items name).asStr? with
  | some s => if strip s = [] then none else some (strip s)
  | none => none

/-- `case_output_metadata`. -/
def caseOutputMetadata (items : List (Text × Value)) : Except Exc CaseOutputMetadata :=
  let config := (strippedField items "config".toList).or
    ((strippedField items "public_mode".toList).or
      (strippedField items "source_column_suffix".toList))
  let withSliced (sliced : Bool) : Except Exc CaseOutputMetadata :=
    match config with
    | some config => .ok { config := config, sliced := sliced }
    | none => .error (.valueError "case metadata must define config explicitly".toList)
  match Value.field items "sliced".toList with
  | .null => withSliced false
  | .bool sliced => withSliced sliced
  | _ => .error (.valueError "case metadata field 'sliced' must be a boolean".toList)

/-- `build_source_column`. -/
def buildSourceColumn (run : RunMetadata) (case : CaseOutputMetadata) : Text :=
  if case.sliced then run.sourceColumnPrefix ++ "_sliced_".toList ++ case.config
  else run.sourceColumnPrefix ++ '_' :: case.config

/-- `configuration_label` on the values of `LABEL_FIELDS`. -/
def configurationLabel (searcher symSize config cvModel : Text) : Text :=
  let parts := [("searcher".toList, searcher), ("sym_size".toList, symSize),
    ("config".toList, config), ("cv_model".toList, cvModel)].filterMap fun (name, value) =>
      if strip value ≠ [] ∧ strip value ≠ "all".toList then some (name ++ '=' :: strip value)
      else none
  if parts = [] then "all".toList else join ", ".toList parts

/-- The column record of `build_column_metadata`. -/
structure ColumnMetadata where
  sourceColumn : Text
  toolFamily : Text
  comparisonTool : Text
  sliced : Bool
  searcher : Text
  symSize : Text
  config : Text
  cvModel : Text
  configurationLabel : Text
  deriving DecidableEq, Repr

/-- `build_column_metadata`. -/
def buildColumnMetadata (run : RunMetadata) (items : List (Text × Value)) :
    Except Exc ColumnMetadata :=
  match caseOutputMetadata items with
  | .error e => .error e
  | .ok case => .ok
    { sourceColumn := buildSourceColumn run case
      toolFamily := run.toolFamily
      comparisonTool := if case.sliced then run.toolFamily ++ "_sliced".toList else run.toolFamily
      sliced := case.sliced
      searcher := run.searcher
      symSize := run.symSize
      config := case.config
      cvModel := run.cvModel
      configurationLabel := configurationLabel run.searcher run.symSize case.config run.cvModel }

end KleeDeps.Shared
