import KleeDeps.Py.Int
import KleeDeps.Py.Value

/-!
# Benchmark cases of the experiment runners

A benchmark descriptor is a TOML table with one sub-table per configuration.
`expand_benchmark_cases` multiplies the configurations with the tools, and every
runner maps an expanded case to what it needs. This module holds the readers of
the tables, the expansion, and the two runners that replay their findings on an
executable: the KLEE family and BINSEC.

- `expandBenchmarkCases`: the cases of a tool;
- `kleeCase`, `loadKleeCases`: the input names of the KLEE family, with a chain of
  five places they may come from;
- `binsecCase`, `loadBinsecCases`: the input layouts of BINSEC.
-/

namespace KleeDeps.Experiments

open Py

/-- A TOML table. -/
abbrev Table := List (Text × Value)

/-! ## Readers (`common.py`) -/

/-- `location.key` in a message. -/
def fieldPath (location key : Text) : Text := location ++ '.' :: key

/-- `expect_table`. -/
def expectTable (value : Value) (location : Text) : Except Exc Table :=
  match value with
  | .dict items => .ok items
  | _ => .error (.valueError (location ++ " must be a TOML table".toList))

/-- `expect_array`. -/
def expectArray (value : Value) (location : Text) : Except Exc (List Value) :=
  match value with
  | .list values => .ok values
  | _ => .error (.valueError (location ++ " must be an array".toList))

/-- `expect_string`. -/
def expectString (table : Table) (key location : Text) : Except Exc Text :=
  match Value.field table key with
  | .str (c :: s) => .ok (c :: s)
  | _ => .error (.valueError (fieldPath location key ++ " must be a non-empty string".toList))

/-- `optional_string`. -/
def optionalString (table : Table) (key location : Text) : Except Exc (Option Text) :=
  match Value.field table key with
  | .null => .ok none
  | .str (c :: s) => .ok (some (c :: s))
  | _ => .error
    (.valueError (fieldPath location key ++ " must be a non-empty string when present".toList))

/-- The strings of an array of non-empty strings. -/
def nonEmptyStrings : List Value → Option (List Text)
  | [] => some []
  | .str (c :: s) :: rest => (nonEmptyStrings rest).map ((c :: s) :: ·)
  | _ :: _ => none

/-- `optional_string_list`. -/
def optionalStringList (table : Table) (key location : Text) : Except Exc (List Text) :=
  match Value.field table key with
  | .null => .ok []
  | value => do
    let values ← expectArray value (fieldPath location key)
    match nonEmptyStrings values with
    | some strings => return strings
    | none =>
      .error (.valueError (fieldPath location key ++ " must contain only non-empty strings".toList))

/-- `bool(value)`; the truth of a float is a parameter. -/
def truthy (floatTruth : Text → Bool) : Value → Bool
  | .null => false
  | .bool b => b
  | .int n => n ≠ 0
  | .float literal => floatTruth literal
  | .str s => s ≠ []
  | .list xs => !xs.isEmpty
  | .dict items => !items.isEmpty

/-- `location[index]` in a message. -/
def itemPath (location : Text) (index : Nat) : Text := location ++ '[' :: decimal index ++ [']']

section Expansion

variable (floatTruth : Text → Bool)

/-- `expect_table(table.get(key) or {}, …)`. -/
def subTable (table : Table) (key location : Text) : Except Exc Table :=
  if truthy floatTruth (Value.field table key) then
    expectTable (Value.field table key) (fieldPath location key)
  else .ok []

/-! ## The expansion -/

/-- The parts of a benchmark definition the expansion reads. -/
structure Definition where
  libraryId : Text
  targetId : Text
  configLocation : Text
  tools : List Text
  extraConfig : Table

/-- One expanded case. `artifactConfig` is the public mode its executable was built
with. -/
structure ExpandedCase where
  configId : Text
  artifactConfig : Text
  targetTable : Table
  targetLocation : Text
  configTable : Table
  configLocation : Text

/-- `matches_case_exclusion`. -/
def matchesCaseExclusion (exclusion : Table) (targetId configId toolId location : Text) :
    Except Exc Bool := do
  let target ← optionalString exclusion "target".toList location
  let config ← optionalString exclusion "config".toList location
  let tool ← optionalString exclusion "tool".toList location
  if target = none ∧ config = none ∧ tool = none then
    .error (.valueError (location ++ " must constrain at least one of target/config/tool".toList))
  else
    let allows (given : Option Text) (actual : Text) : Bool := given = none ∨ given = some actual
    return allows target targetId && allows config configId && allows tool toolId

/-- `any(...)` over the exclusions from an index on, up to the first that matches. -/
def excluded (definition : Definition) (configId toolId : Text) (index : Nat) :
    List Value → Except Exc Bool
  | [] => .ok false
  | raw :: rest => do
    let location := itemPath (fieldPath definition.configLocation "exclusions".toList) index
    let exclusion ← expectTable raw location
    let hit ← matchesCaseExclusion exclusion definition.targetId configId toolId location
    if hit then return true else excluded definition configId toolId (index + 1) rest

/-- The loop over the configurations from an index on. -/
def expandConfigs (definition : Definition) (toolId : Text) (exclusions : List Value)
    (index : Nat) : List Value → Except Exc (List ExpandedCase)
  | [] => .ok []
  | raw :: rest => do
    let location := itemPath (fieldPath definition.configLocation "configs".toList) index
    let table ← expectTable raw location
    let configId ← expectString table "config".toList location
    let tools ← optionalStringList table "tools".toList location
    if toolId ∉ (if tools = [] then definition.tools else tools) ∨ toolId ∉ definition.tools then
      expandConfigs definition toolId exclusions (index + 1) rest
    else if ← excluded definition configId toolId 0 exclusions then
      expandConfigs definition toolId exclusions (index + 1) rest
    else
      let artifactConfig ← expectString table "public_mode".toList location
      let cases ← expandConfigs definition toolId exclusions (index + 1) rest
      return { configId := configId, artifactConfig := artifactConfig
               targetTable := definition.extraConfig
               targetLocation :=
                 fieldPath (fieldPath definition.configLocation "targets".toList) definition.targetId
               configTable := table, configLocation := location } :: cases

/-- `expand_benchmark_cases`. -/
def expandBenchmarkCases (definition : Definition) (toolId : Text) :
    Except Exc (List ExpandedCase) :=
  match Dict.lookup "configs".toList definition.extraConfig with
  | none => .ok []
  | some configs => do
    let configs ← expectArray configs (fieldPath definition.configLocation "configs".toList)
    let raw := Value.field definition.extraConfig "exclusions".toList
    let exclusions ← if truthy floatTruth raw then
        expectArray raw (fieldPath definition.configLocation "exclusions".toList)
      else pure []
    expandConfigs definition toolId exclusions 0 configs

/-! ## The KLEE family (`run_klee_family.py`) -/

/-- `a or b or …` of lists that are read one after the other: the first that is not
empty. What stands behind it is not read. -/
def firstGiven : List (Except Exc (List Text)) → Except Exc (List Text)
  | [] => .ok []
  | read :: rest => do
    match ← read with
    | [] => firstGiven rest
    | names => return names

/-- The name in a layout `name:size:buffer`. -/
def layoutName (spec : Text) : Text := strip (spec.takeWhile (· ≠ ':'))

/-- `_input_names_from_layout`: blank and repeated names are dropped. -/
def inputNamesFromLayout (specs : List Text) : List Text :=
  specs.foldl (fun names spec =>
    if layoutName spec ≠ [] ∧ layoutName spec ∉ names then names ++ [layoutName spec] else names) []

/-- `_format_replay_opts`. -/
def formatReplayOpts (secretInputs publicInputs : List Text) (artifactConfig : Text) : Text :=
  let secret := if secretInputs = [] then [] else
    ["--secret".toList, join [','] secretInputs]
  let isPublic := if artifactConfig = "fix_pub".toList ∨ publicInputs = [] then [] else
    ["--public".toList, join [','] publicInputs]
  join [' '] (secret ++ isPublic)

/-- The replay part of a case of the KLEE family; an absent list is empty. -/
structure KleeCase where
  artifactConfig : Text
  replayOpts : Text
  secretInputs : List Text
  publicInputs : List Text
  deriving DecidableEq, Repr

/-- The places that override the layouts of the target, in order of precedence: the
KLEE names of the configuration and of the target, the layouts of the configuration.
`kleeKey` and `key` are `klee_secret_inputs` and `secret_inputs`, or the public ones. -/
def kleeOverrides (case : ExpandedCase) (kleeKey key : Text) : List (Except Exc (List Text)) :=
  [optionalStringList case.configTable kleeKey case.configLocation,
   optionalStringList case.targetTable kleeKey case.targetLocation,
   (optionalStringList case.configTable key case.configLocation).map inputNamesFromLayout]

/-- The names of one kind of input. -/
def kleeInputs (case : ExpandedCase) (kleeKey key : Text) (defaults : List Text) :
    Except Exc (List Text) :=
  firstGiven (kleeOverrides case kleeKey key ++
    [(optionalStringList case.targetTable key case.targetLocation).map inputNamesFromLayout,
     .ok defaults])

/-- `use_public_inputs` of the KLEE family. -/
def kleeUsePublicInputs (case : ExpandedCase) : Except Exc Bool :=
  match Value.field case.configTable "use_public_inputs".toList with
  | .null => .ok false
  | .bool b => .ok b
  | _ => .error (.valueError
    (case.configLocation ++ ".use_public_inputs must be a boolean".toList))

/-- One iteration of the loop in `_load_klee_cases`. -/
def kleeCase (defaultSecrets defaultPublics : List Text) (case : ExpandedCase) :
    Except Exc KleeCase := do
  let secretInputs ← kleeInputs case "klee_secret_inputs".toList "secret_inputs".toList
    defaultSecrets
  let publicInputs ← kleeInputs case "klee_public_inputs".toList "public_inputs".toList
    defaultPublics
  let usePublicInputs ← kleeUsePublicInputs case
  return { artifactConfig := case.artifactConfig
           replayOpts := formatReplayOpts secretInputs publicInputs case.artifactConfig
           secretInputs := secretInputs
           publicInputs :=
             if usePublicInputs ∨ case.artifactConfig ≠ "fix_pub".toList then publicInputs
             else [] }

/-- The input lists of `tool_defaults.klee`: the last resort. -/
def kleeDefaults (definition : Definition) : Except Exc (List Text × List Text) := do
  let location := fieldPath definition.configLocation "tool_defaults".toList
  let toolDefaults ← subTable floatTruth definition.extraConfig "tool_defaults".toList
    definition.configLocation
  let klee ← subTable floatTruth toolDefaults "klee".toList location
  let secrets ← optionalStringList klee "secret_inputs".toList (fieldPath location "klee".toList)
  let publics ← optionalStringList klee "public_inputs".toList (fieldPath location "klee".toList)
  return (secrets, publics)

/-- `_load_klee_cases` without the explicit `klee_cases` override. -/
def loadKleeCases (definition : Definition) (toolId : Text) : Except Exc (List KleeCase) := do
  let defaults ← kleeDefaults floatTruth definition
  let cases ← expandBenchmarkCases floatTruth definition toolId
  cases.mapM (kleeCase defaults.1 defaults.2)

/-- `parse_list` of `reproduce_positives.py`. -/
def parseList (spec : Text) : List Text :=
  ((spec.splitOn ',').filter (strip · ≠ [])).map strip

/-! ## BINSEC (`run_binsec.py`) -/

/-- The replay part of a BINSEC case: layouts, an absent list is empty. -/
structure BinsecCase where
  artifactConfig : Text
  runnerProfile : Option Text
  secretInputs : List Text
  publicInputs : List Text
  deriving DecidableEq, Repr

/-- The layouts of a kind: those of the configuration, else those of the target. -/
def binsecInputs (case : ExpandedCase) (key : Text) : Except Exc (List Text) :=
  firstGiven [optionalStringList case.configTable key case.configLocation,
    optionalStringList case.targetTable key case.targetLocation]

/-- The runner profile: that of the configuration, else that of the target. -/
def binsecRunnerProfile (case : ExpandedCase) : Except Exc (Option Text) := do
  match ← optionalString case.configTable "runner_profile".toList case.configLocation with
  | some profile => return some profile
  | none => optionalString case.targetTable "runner_profile".toList case.targetLocation

/-- One iteration of the loop in `_load_binsec_cases`. -/
def binsecCase (case : ExpandedCase) : Except Exc BinsecCase := do
  let runnerProfile ← binsecRunnerProfile case
  let secretInputs ← binsecInputs case "secret_inputs".toList
  let publicInputs ← binsecInputs case "public_inputs".toList
  return { artifactConfig := case.artifactConfig
           runnerProfile := runnerProfile
           secretInputs := secretInputs
           publicInputs :=
             if truthy floatTruth (Value.field case.configTable "use_public_inputs".toList)
             then publicInputs else [] }

/-- `_load_binsec_cases` without the explicit `binsec_cases` override. -/
def loadBinsecCases (definition : Definition) : Except Exc (List BinsecCase) := do
  let cases ← expandBenchmarkCases floatTruth definition "binsec".toList
  cases.mapM (binsecCase floatTruth)

end Expansion

/-- `_resolve_input_specs`: layouts with braces go through `str.format` with the macros of
the runner preset. -/
def resolveInputSpecs (format : Text → Except Exc Text) (location key : Text)
    (specs : List Text) : Except Exc (List Text) :=
  if ∃ spec ∈ specs, spec.count ':' ≠ 2 then
    .error (.valueError (fieldPath location key ++
      " must use explicit BINSEC replay layouts name:bytes:model_key".toList))
  else if ∃ spec ∈ specs, '{' ∈ spec then specs.mapM format
  else .ok specs

end KleeDeps.Experiments
