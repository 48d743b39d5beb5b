import KleeDeps.Postprocess.Locations
import KleeDeps.Shared.ColumnMetadata
import Mathlib.Data.List.Dedup

/-!
# The wide table of a campaign

`merge_results.py` turns the merged payloads of a campaign into one table: a row for each
location, a column for each configuration.

- `loadViolations`: the findings of one payload, by location;
- `mergeRuns`: all payloads of all runs, by source column;
- `writeCsv`: the table that is printed.
-/

namespace KleeDeps.Postprocess

open Py Shared

/-- What the scripts take from outside this model: floating-point numbers. `toFloat` is
`_to_float`, `toInt` is `int` with its `TypeError` and `ValueError` caught. -/
structure Readers (F : Type) where
  toFloat : Value → Option F
  toInt : Value → Option Int
  max : F → F → F
  /-- `f"{value:.2f}"` -/
  fixed2 : F → Text
  /-- `bool` of a float literal -/
  floatTruth : Text → Bool

/-- `Location`. -/
structure Location where
  library : Text
  target : Text
  file : Text
  line : Int
  column : Option Int
  kind : Option Text
  deriving DecidableEq, Repr

/-- A decoded object. -/
abbrev Object := List (Text × Value)

/-- `_normalize_kind`. -/
def normalizeKind (value : Value) : Option Text :=
  match value.asStr? with
  | none => none
  | some kind => if strip kind = [] then none else some (strip kind)

/-- `_read_payload`: the rows and the metadata. -/
def readPayload (path : Text) (payload : Value) : Except Exc (List Object × Object) :=
  match payload.asDict? with
  | none => .error (.exit (path ++ ": expected a JSON object payload".toList))
  | some items =>
    match (Value.field items "data".toList).asList? with
    | none => .ok ([], [])
    | some rows =>
      match Value.field items "metadata".toList with
      | .null => .ok (rows.filterMap Value.asDict?, [])
      | .dict metadata => .ok (rows.filterMap Value.asDict?, metadata)
      | _ => .error (.exit (path ++ ": metadata must be a JSON object".toList))

/-- The non-empty `library` of the metadata. -/
def libraryOf (metadata : Object) : Option Text :=
  match (Value.field metadata "library".toList).asStr? with
  | some (c :: s) => some (c :: s)
  | _ => none

/-- The `target` of the metadata, stripped; none is empty. -/
def targetOf (metadata : Object) : Text :=
  strip ((Value.field metadata "target".toList).asStr?.getD [])

section Violations

variable {F : Type} (readers : Readers F)

/-- `_has_reproduced_success`. -/
def hasReproducedSuccess : Value → Bool
  | .str status => strip status = "success".toList
  | .dict counts =>
    match readers.toInt (Value.field counts "success".toList) with
    | some n => 0 < n
    | none => false
  | _ => false

/-- The location of a row, unless its file or its line cannot be read. -/
def rowLocation (library target : Text) (row : Object) : Option Location :=
  match (Value.field row "filename".toList).asStr? with
  | none => none
  | some filename =>
    if basenameOnly filename = [] then none
    else
      match readers.toInt (Value.field row "line".toList) with
      | none => none
      | some line => some
        { library := library, target := target, file := basenameOnly filename, line := line
          column := readers.toInt (Value.field row "column".toList)
          kind := normalizeKind (Value.field row "kind".toList) }

/-- The finding of a row, if it counts. -/
def rowViolation (allPositives : Bool) (library target : Text) (row : Object) :
    Option (Location × F) :=
  match readers.toFloat (Value.field row "non_ct_time".toList) with
  | none => none
  | some time =>
    if allPositives || hasReproducedSuccess readers (Value.field row "reproduced_status".toList)
    then (rowLocation readers library target row).map (·, time)
    else none

/-- `previous is None ? value : max(previous, value)` at a key. -/
def raise (found : Dict Location F) (finding : Location × F) : Dict Location F :=
  found.set finding.1 (match found.get? finding.1 with
    | none => finding.2
    | some previous => readers.max previous finding.2)

/-- `_load_violations_from_json`. -/
def loadViolations (allPositives : Bool) (path : Text) (payload : Value) :
    Except Exc (Object × Dict Location F) := do
  let (rows, metadata) ← readPayload path payload
  if metadata.isEmpty then
    .error (.exit (path ++ (": payload metadata is missing; this output tree predates the " ++
      "metadata-aware experiment runners. Regenerate the run outputs with the current campaign " ++
      "runners before running postprocess.").toList))
  else
    match libraryOf metadata with
    | none => .error (.exit (path ++ (": payload metadata is missing non-empty library; this " ++
        "output tree is stale or incomplete. Regenerate the run outputs with the current " ++
        "campaign runners before running postprocess.").toList))
    | some library =>
      let findings := rows.filterMap (rowViolation readers allPositives library (targetOf metadata))
      return (metadata, findings.foldl (raise readers) .empty)

/-! ## All runs -/

/-- A run of the campaign: its metadata, and the JSON files of its directory by name in
sorted order, decoded (`none` if the directory is missing). -/
structure ResultRun where
  name : Text
  metadata : RunMetadata
  files : Option (List (Text × Value))

/-- The loop over the files of the runs, with one step for each file. -/
def overRuns {σ : Type} (step : RunMetadata → σ → Text × Value → Except Exc σ) :
    σ → List ResultRun → Except Exc σ
  | state, [] => .ok state
  | state, run :: rest =>
    match run.files with
    | none => .error (.exit ("run metadata references missing run directory '".toList ++
        run.name ++ ['\'']))
    | some files => do
      let state ← files.foldlM (step run.metadata) state
      overRuns step state rest

/-- The files of the runs, each with its run. -/
def payloadsOf (runs : List ResultRun) : List (ResultRun × (Text × Value)) :=
  runs.flatMap fun run => (run.files.getD []).map (run, ·)

/-- The columns so far: their order, the findings by column, the metadata by column. -/
structure Merged (F : Type) where
  columns : List Text
  byColumn : Dict Text (Dict Location F)
  metadata : Dict Text ColumnMetadata

/-- The column of a payload: a new one, or one that was described alike. -/
def openColumn (path : Text) (merged : Merged F) (column : ColumnMetadata) :
    Except Exc (Merged F) :=
  match merged.metadata.get? column.sourceColumn with
  | some existing =>
    if existing ≠ column then
      .error (.exit (path ++ ": conflicting metadata for column '".toList ++
        column.sourceColumn ++ ['\'']))
    else .ok merged
  | none => .ok
    { columns := merged.columns ++ [column.sourceColumn]
      byColumn := merged.byColumn.set column.sourceColumn .empty
      metadata := merged.metadata.set column.sourceColumn column }

/-- One payload of the loop. -/
def mergePayload (slicedOnly allPositives : Bool) (run : RunMetadata) (merged : Merged F)
    (file : Text × Value) : Except Exc (Merged F) := do
  let (metadata, violations) ← loadViolations readers allPositives file.1 file.2
  if Experiments.truthy readers.floatTruth (Value.field metadata "sliced".toList) ≠ slicedOnly then
    return merged
  else
    let column ← buildColumnMetadata run metadata
    let merged ← openColumn file.1 merged column
    let values := (merged.byColumn.get? column.sourceColumn).getD .empty
    return { merged with
      byColumn := merged.byColumn.set column.sourceColumn
        (violations.items.foldl (raise readers) values) }

/-- `merge_runs`, on the runs in sorted order. -/
def mergeRuns (slicedOnly allPositives : Bool) (runs : List ResultRun) : Except Exc (Merged F) :=
  overRuns (mergePayload readers slicedOnly allPositives)
    { columns := [], byColumn := .empty, metadata := .empty } runs

/-! ## The table -/

/-- A row of a table: the fields of its location as they are printed, and a cell for each
experiment column (`none` is an empty cell). -/
structure TableRow where
  library : Text
  target : Text
  file : Text
  line : Text
  column : Text
  kind : Text
  cells : List (Option Text)
  deriving DecidableEq

/-- A table, with the metadata file beside it. -/
structure Table where
  columns : List Text
  rows : List TableRow
  sidecar : Dict Text ColumnMetadata

/-- The locations of all columns. -/
def Merged.locations (merged : Merged F) : List Location :=
  merged.columns.flatMap fun column => ((merged.byColumn.get? column).getD .empty).keys

/-- A location without its column. -/
def Location.wildcard (location : Location) : Location := { location with column := none }

/-- `all_locations`, in order of appearance: the locations with a column, and for those
without one column 0, unless some location of that line has a column. -/
def Merged.rowLocations (merged : Merged F) : List Location :=
  let concrete := merged.locations.filter fun location => location.column ≠ none
  let wildcards := merged.locations.filter fun location =>
    location.column = none ∧ location ∉ concrete.map Location.wildcard
  (concrete ++ wildcards.map fun (location : Location) => { location with column := some 0 }).dedup

/-- The order of the rows. -/
def Location.sortKey (location : Location) : List Text × Int × Int × Text :=
  ([location.library, location.target, location.file], location.line,
    location.column.getD (-1), location.kind.getD [])

/-- The cell of a column at a location; a finding without a column stands in every row of
its line. -/
def Merged.cell (merged : Merged F) (location : Location) (column : Text) : Option Text :=
  let values := (merged.byColumn.get? column).getD .empty
  ((values.get? location).or (values.get? location.wildcard)).map readers.fixed2

/-- The row of a location. -/
def Merged.row (merged : Merged F) (location : Location) : TableRow where
  library := location.library
  target := location.target
  file := location.file
  line := intText location.line
  column := (location.column.map intText).getD []
  kind := location.kind.getD []
  cells := merged.columns.map (merged.cell readers location)

/-- `write_column_metadata`. -/
def writeColumnMetadata (columns : List Text) (metadata : Dict Text ColumnMetadata) :
    Except Exc (Dict Text ColumnMetadata) :=
  columns.foldlM (fun sidecar column =>
    match metadata.get? column with
    | some described => .ok (sidecar.set column described)
    | none => .error (.keyError column)) .empty

/-- `write_csv`. -/
def writeCsv (merged : Merged F) : Except Exc Table := do
  let sidecar ← writeColumnMetadata merged.columns merged.metadata
  return { columns := merged.columns
           rows := (merged.rowLocations.mergeSort fun a b =>
             sortedBefore a.sortKey b.sortKey).map (merged.row readers)
           sidecar := sidecar }

end Violations

end KleeDeps.Postprocess
