import KleeDeps.Postprocess.MergeResults

/-!
# The counts of reproduced findings

`summarize_reproduction_status.py` reads the merged payloads of a campaign a second time
and counts, for every configuration, how the replays of its findings ended.

- `resolveStatusBucket`: the bucket of a merged status;
- `resolveLocation`, `filterLookupCandidates`: where a finding lies and which filters
  apply to it;
- `collectReproductionStatusCounts`: the loop over all payloads.
-/

namespace KleeDeps.Postprocess

open Py Shared Replay

/-! ## Buckets -/

/-- The columns of the summary: a status, or `inconsistent_across_repetitions`. -/
inductive Bucket where
  | status (s : Status)
  | inconsistent
  deriving DecidableEq, Repr

/-- The texts of the statuses. -/
def statusToken : Status → Text
  | .success => "success".toList
  | .timeout => "timeout".toList
  | .identicalTrace => "identical_trace".toList
  | .locationMismatch => "location_mismatch".toList
  | .kindMismatch => "kind_mismatch".toList
  | .notReproduced => "not_reproduced".toList

/-- The statuses, in the order of the source. -/
def allStatuses : List Status :=
  [.success, .timeout, .identicalTrace, .locationMismatch, .kindMismatch, .notReproduced]

/-- `lower` of a character where the result is compared with an ASCII token: besides the
ASCII capitals only the Kelvin sign has an ASCII letter as its lower case. -/
def lowerChar (c : Char) : Char := if c.toNat = 0x212a then 'k' else c.toLower

/-- The status a text names after `strip` and `lower`. -/
def normalizeStatus (name : Text) : Option Status :=
  allStatuses.find? fun s => statusToken s = (strip name).map lowerChar

/-- `_normalize_status_name` on a string. -/
def normalizeStatusName (context name : Text) : Except Exc Status :=
  match normalizeStatus name with
  | some s => .ok s
  | none => .error (.exit (context ++ ": unknown reproduced_status".toList))

section Counting

variable {F : Type} (readers : Readers F)

/-- The statuses of a map that have a positive count. -/
def positiveStatuses (context : Text) : Object → Except Exc (List Status)
  | [] => .ok []
  | (name, count) :: rest => do
    let status ← normalizeStatusName context name
    match readers.toInt count with
    | none => .error (.exit (context ++ ": reproduced_status count for ".toList ++
        statusToken status ++ " must be an integer".toList))
    | some n =>
      if n < 0 then
        .error (.exit (context ++ ": reproduced_status count for ".toList ++
          statusToken status ++ " must be non-negative".toList))
      else
        let more ← positiveStatuses context rest
        return if 0 < n then status :: more else more

/-- `_resolve_status_bucket`. -/
def resolveStatusBucket (context : Text) (payload : Value) : Except Exc Bucket :=
  match payload with
  | .str name => do
    let status ← normalizeStatusName context name
    return .status status
  | .dict (item :: items) => do
    let positive ← positiveStatuses readers context (item :: items)
    match positive.dedup with
    | [] => .error (.exit (context ++ ": reproduced_status map has no positive counts".toList))
    | [status] => return .status status
    | _ => return .inconsistent
  | _ =>
    .error (.exit (context ++ ": reproduced_status must be a non-empty dict or string".toList))

/-! ## Keys of the filters and of the map -/

/-- `_target_library_key`. -/
def targetLibraryKey (library target : Text) : Option Text :=
  if target = [] then none else some (library ++ '_' :: target)

/-- `_base_target_key`. -/
def baseTargetKey (target : Text) : Text :=
  if "_sliced".toList <:+ target then target.take (target.length - 7) else target

/-- The keys of a target that are configured, once each. -/
def configuredTargetKeys (library target : Text) (configured : List Text) : List Text :=
  (([target, baseTargetKey target].filterMap (targetLibraryKey library)).filter
    (· ∈ configured)).eraseDups

/-- `_library_lookup_candidates`. -/
def libraryLookupCandidates (library target : Text) (configured : List Text) : List Text :=
  configuredTargetKeys library target configured ++ [library]

/-- `_filter_lookup_candidates`: the first key of the target that is configured, else the
library. -/
def filterLookupCandidates (library target : Text) (configured : List Text) : List Text :=
  match configuredTargetKeys library target configured with
  | key :: _ => [key]
  | [] => [library]

/-! ## Locations -/

/-- `_location_context`. -/
def locationContext (path : Text) (rowNumber : Nat) (library file : Text) (line : Int)
    (column : Option Int) : Text :=
  path ++ " data[".toList ++ decimal rowNumber ++ "] (".toList ++
    join ", ".toList [library, file, intText line, (column.map intText).getD ['?']] ++ [')']

/-- The fields of a location as the row has them. -/
def readLocation (path : Text) (rowNumber : Nat) (row : Object) :
    Except Exc (Text × Int × Option Int) :=
  let here := path ++ " data[".toList ++ decimal rowNumber ++ ']' :: ": ".toList
  match (Value.field row "filename".toList).asStr? with
  | none => .error (.exit (here ++ "missing filename".toList))
  | some filename =>
    if strip filename = [] then .error (.exit (here ++ "missing filename".toList))
    else
      match readers.toInt (Value.field row "line".toList) with
      | none => .error (.exit (here ++ "invalid line".toList))
      | some line =>
        match Value.field row "column".toList with
        | .null | .str [] => withBasename here filename line none
        | value =>
          match readers.toInt value with
          | none => .error (.exit (here ++ "invalid column".toList))
          | some column => withBasename here filename line (some column)
where
  withBasename (here filename : Text) (line : Int) (column : Option Int) :
      Except Exc (Text × Int × Option Int) :=
    if basenameOnly filename = [] then
      .error (.exit (here ++ "missing filename basename".toList))
    else .ok (basenameOnly filename, line, column)

/-- The first entry of the map under one of the keys. -/
def lookupPlace (slicedMap : SlicedMap) (keys : List Text) (place : Place) : Option Place :=
  keys.findSome? fun key => slicedMap.get? (key, place)

/-- `_resolve_location`: the location after the map, for sliced payloads. -/
def resolveLocation (path : Text) (rowNumber : Nat) (library : Text) (keys : List Text)
    (sliced : Bool) (slicedMap : Option SlicedMap) (keepUnmapped : Bool) (row : Object) :
    Except Exc (Text × Int × Option Int) := do
  let (file, line, column) ← readLocation readers path rowNumber row
  if sliced then
    match slicedMap, column with
    | none, _ => .error (.exit (path ++
        ": encountered sliced results but no --sliced-map was provided".toList))
    | some _, none => .error (.exit (path ++ " data[".toList ++ decimal rowNumber ++
        "]: sliced rows require a concrete column for relabeling".toList))
    | some slicedMap, some column =>
      match lookupPlace slicedMap keys ⟨file, line, column⟩ with
      | some place => return (place.file, place.line, some place.column)
      | none =>
        if keepUnmapped then return (file, line, some column)
        else .error (.exit (locationContext path rowNumber library file line (some column) ++
          ": no sliced-map entry found".toList))
  else return (file, line, column)

/-- `_resolve_side_channel_kind`. -/
def resolveSideChannelKind (path : Text) (row : Object) : Except Exc DivergenceKind :=
  match Value.field row "kind".toList with
  | .null => .error (.exit (path ++ ": missing required row field 'kind'".toList))
  | .str kind =>
    match normalizeResultKind kind with
    | some kind => .ok kind
    | none => .error (.exit (path ++ ": invalid row field 'kind'".toList))
  | _ => .error (.exit (path ++ ": invalid row field 'kind'".toList))

/-! ## The loop -/

/-- The counts of a configuration: in all, by library, by library and target and kind. -/
structure ConfigurationCounts where
  total : Bucket → Nat
  byLibrary : Text → Bucket → Nat
  byTarget : Text × Text → DivergenceKind → Bucket → Nat
  observed : List (Text × Text)
  metadata : ColumnMetadata

/-- `counts[bucket] += 1`. -/
def addOne {α : Type} [DecidableEq α] (counts : α → Nat) (a : α) : α → Nat :=
  Function.update counts a (counts a + 1)

/-- The counts after one row that counts. -/
def ConfigurationCounts.count (counts : ConfigurationCounts) (library target : Text)
    (kind : DivergenceKind) (bucket : Bucket) : ConfigurationCounts :=
  { counts with
    total := addOne counts.total bucket
    byLibrary := Function.update counts.byLibrary library
      (addOne (counts.byLibrary library) bucket)
    byTarget := Function.update counts.byTarget (library, target)
      (Function.update (counts.byTarget (library, target)) kind
        (addOne (counts.byTarget (library, target) kind) bucket)) }

/-- What the summary is told besides the payloads: the filters, the map, the flag, and the
target the benchmark registry knows for the name of a result file. -/
structure SummaryOptions where
  filters : FilterConfiguration
  slicedMap : Option SlicedMap
  keepUnmapped : Bool
  targetByFile : Text → Text

/-- `_resolve_target_key`. -/
def SummaryOptions.targetKey (options : SummaryOptions) (file : Text) (metadata : Object) : Text :=
  if targetOf metadata ≠ [] then targetOf metadata else options.targetByFile file

/-- `configured_libraries`. -/
def SummaryOptions.configuredLibraries (options : SummaryOptions) : List Text :=
  options.filters.librariesWithFilters ++
    ((options.slicedMap.map fun slicedMap => slicedMap.keys.map Prod.fst).getD [])

/-- The place a row counts at, `none` if no filter lets it pass. -/
def countedPlace (options : SummaryOptions) (path : Text) (sliced : Bool) (library target : Text)
    (rowNumber : Nat) (row : Object) : Except Exc (Option (Text × Int × Option Int)) := do
  let place ← resolveLocation readers path rowNumber library
    (libraryLookupCandidates library target options.configuredLibraries) sliced
    options.slicedMap options.keepUnmapped row
  let candidates := filterLookupCandidates library target options.filters.librariesWithFilters
  return if candidates.any (locationMatches options.filters · place.1 place.2.1) then some place
    else none

/-- One row of the inner loop. -/
def countRow (options : SummaryOptions) (path : Text) (sliced : Bool) (library target : Text)
    (counts : ConfigurationCounts) (rowNumber : Nat) (row : Object) :
    Except Exc ConfigurationCounts := do
  match ← countedPlace readers options path sliced library target rowNumber row with
  | none => return counts
  | some (file, line, column) =>
    let context := locationContext path rowNumber library file line column
    let bucket ← resolveStatusBucket readers context (Value.field row "reproduced_status".toList)
    let kind ← resolveSideChannelKind path row
    return counts.count library target kind bucket

/-- The inner loop, from a row number on. -/
def countRows (options : SummaryOptions) (path : Text) (sliced : Bool) (library target : Text)
    (counts : ConfigurationCounts) (rowNumber : Nat) :
    List Object → Except Exc ConfigurationCounts
  | [] => .ok counts
  | row :: rest => do
    let counts ← countRow readers options path sliced library target counts rowNumber row
    countRows options path sliced library target counts (rowNumber + 1) rest

/-- `_read_payload` of this script: it also takes a bare list, and insists on rows. -/
def readSummaryPayload (path : Text) (payload : Value) : Except Exc (List Object × Object) :=
  match payload with
  | .dict items =>
    match (Value.field items "data".toList).asList? with
    | none => .error (.exit (path ++ ": expected a top-level 'data' list".toList))
    | some rows =>
      match Value.field items "metadata".toList with
      | .null => .ok (rows.filterMap Value.asDict?, [])
      | .dict metadata => .ok (rows.filterMap Value.asDict?, metadata)
      | _ => .error (.exit (path ++ ": expected metadata to be a JSON object".toList))
  | .list rows => .ok (rows.filterMap Value.asDict?, [])
  | _ => .error (.exit (path ++ ": expected a JSON object or list".toList))

/-- One payload of the loop: its counts are added under the name of its column. Nothing is
compared with what is there already. -/
def collectPayload (options : SummaryOptions) (run : RunMetadata)
    (summary : Dict Text ConfigurationCounts) (file : Text × Value) :
    Except Exc (Dict Text ConfigurationCounts) := do
  let (rows, metadata) ← readSummaryPayload file.1 file.2
  if metadata.isEmpty then
    .error (.exit (file.1 ++ ": missing required payload metadata".toList))
  else
    let column ← buildColumnMetadata run metadata
    match libraryOf metadata with
    | none => .error (.exit (file.1 ++ ": payload metadata is missing non-empty library".toList))
    | some library =>
      let target := options.targetKey file.1 metadata
      let sliced := Experiments.truthy readers.floatTruth (Value.field metadata "sliced".toList)
      let counts := (summary.get? column.sourceColumn).getD
        { total := fun _ => 0, byLibrary := fun _ _ => 0, byTarget := fun _ _ _ => 0
          observed := [], metadata := column }
      let counts ← countRows readers options file.1 sliced library target
        { counts with observed := counts.observed ++ [(library, target)] } 1 rows
      return summary.set column.sourceColumn counts

/-- `collect_reproduction_status_counts`, on the runs in sorted order: the counts by
configuration, in order of appearance. -/
def collectReproductionStatusCounts (options : SummaryOptions) (runs : List ResultRun) :
    Except Exc (Dict Text ConfigurationCounts) := do
  let summary ← overRuns (collectPayload readers options) .empty runs
  if summary.items.isEmpty then
    .error (.exit "No top-level result JSON files found".toList)
  else return summary

end Counting

end KleeDeps.Postprocess
