import Mathlib.Data.List.Dedup
import KleeDeps.Py.Int
import KleeDeps.Py.Regex
import KleeDeps.Shared.ColumnMetadata

/-!
# Verification verdicts of a campaign (`merge_verification_timings.py`)

A campaign has runs, a run has repetition directories, and a repetition has a
timing file for every case it finished, next to the files the verdict is read
from: the result JSON, the KLEE `info` file and the worker log. The verdicts of
the repetitions of a case are folded into one row, the rows of a benchmark into
one cell of the table of best configurations.

- `programStatusForRepetition`, `mergeCaseTimings`: verdict and row of a case;
- `timingFilesByCase`, `collectTimingRows`: all rows of a campaign;
- `buildBestTableRows`: the table.
-/

namespace KleeDeps.Postprocess

open Py Shared Regex

/-! ## The campaign directory -/

/-- What reading a JSON file ends in: no such file, no JSON, another exception
(undecodable bytes, too deep a nesting), or a value. -/
inductive JsonFile where
  | missing
  | malformed
  | raises (e : Exc)
  | holds (payload : Value)

/-- A repetition directory: the files of its `_timings` directory by stem (`none` if
there is no such directory), and the files by case that the verdict is read from,
decoded, `none` if they cannot be read. -/
structure Repetition where
  timings : Option (List (Text × JsonFile))
  resultJson : Text → JsonFile
  info : Text → Option Text
  workerLog : Text → Option Text

/-- A run: its metadata, and its repetition directories in sorted order (`none` if
the run directory is missing). -/
structure Run where
  name : Text
  metadata : RunMetadata
  repetitions : Option (List Repetition)

/-- A timing file together with the repetition it stands in. -/
structure TimingFile where
  repetition : Repetition
  payload : JsonFile

/-! ## The verdict of one repetition -/

/-- A program status. -/
inductive ProgramStatus where
  | insecure
  | secure
  | unknown
  deriving DecidableEq, Repr

/-- The text of a program status. -/
def ProgramStatus.token : ProgramStatus → Text
  | .insecure => "insecure".toList
  | .secure => "secure".toList
  | .unknown => "unknown".toList

/-- `_result_json_has_positives`. -/
def resultJsonHasPositives : JsonFile → Except Exc Bool
  | .missing => .ok false
  | .malformed => .ok false
  | .raises e => .error e
  | .holds payload =>
    match payload.asDict? with
    | none => .ok false
    | some items =>
      match (Value.field items "data".toList).asList? with
      | some (_ :: _) => .ok true
      | _ => .ok false

/-- The line of a KLEE `info` file that counts the partial paths. -/
def partialPathsRe : Regex :=
  .seq (.lit "KLEE: done: partially completed paths = ".toList) <|
  .seq (.group ['1'] (.many (fun c => (decimal? c).isSome) 1 true)) <|
  .seq (.many isSpace 0 true) lineEnd

section Verdict

variable (limit : Nat) (isWord : Char → Bool)

/-- `_klee_partially_completed_paths` on the content of `info`. -/
def kleePartiallyCompletedPaths (info : Option Text) : Except Exc (Option Int) :=
  match info with
  | none => .ok none
  | some text =>
    match searchLines partialPathsRe text with
    | none => .ok none
    | some m =>
      match int10 limit ((get m ['1']).getD []) with
      | .ok n => .ok (some n)
      | .error e => .error e.exc

/-- `_klee_program_status`. -/
def kleeProgramStatus (repetition : Repetition) (caseId : Text) : Except Exc ProgramStatus :=
  match resultJsonHasPositives (repetition.resultJson caseId) with
  | .error e => .error e
  | .ok true => .ok .insecure
  | .ok false =>
    match kleePartiallyCompletedPaths limit (repetition.info caseId) with
    | .error e => .error e
    | .ok paths => .ok (if paths = some 0 then .secure else .unknown)

/-- The verdict line of a BINSEC log. -/
def binsecStatusRe : Regex :=
  .seq (.lit "[checkct:result] Program status is : ".toList) <|
  .seq (.group ['1'] (.alt (.lit "secure".toList)
    (.alt (.lit "insecure".toList) (.lit "unknown".toList)))) (wordEnd isWord)

/-- `_binsec_program_status`: the last verdict line counts. -/
def binsecProgramStatus (repetition : Repetition) (caseId : Text) : ProgramStatus :=
  match repetition.workerLog caseId with
  | none => .unknown
  | some text =>
    match (findLines (binsecStatusRe isWord) text).getLast? with
    | none => .unknown
    | some m =>
      if get m ['1'] = some "secure".toList then .secure
      else if get m ['1'] = some "insecure".toList then .insecure
      else .unknown

/-- `_is_klee_family`. -/
def isKleeFamily (comparisonTool toolFamily : Text) : Bool :=
  "klee".toList.isPrefixOf comparisonTool || "klee".toList.isPrefixOf toolFamily

/-- `_program_status_for_repetition`. -/
def programStatusForRepetition (repetition : Repetition) (caseId comparisonTool toolFamily : Text) :
    Except Exc ProgramStatus :=
  if isKleeFamily comparisonTool toolFamily then kleeProgramStatus limit repetition caseId
  else if comparisonTool = "binsec".toList ∨ toolFamily = "binsec".toList then
    .ok (binsecProgramStatus isWord repetition caseId)
  else if comparisonTool = "abacus".toList ∨ toolFamily = "abacus".toList then
    match resultJsonHasPositives (repetition.resultJson caseId) with
    | .error e => .error e
    | .ok positives => .ok (if positives then .insecure else .unknown)
  else .ok .unknown

end Verdict

/-- `_merge_program_statuses`. -/
def mergeProgramStatuses (statuses : List ProgramStatus) : ProgramStatus :=
  if .insecure ∈ statuses then .insecure
  else if statuses ≠ [] ∧ ∀ status ∈ statuses, status = .secure then .secure
  else .unknown

/-- `_format_duration` of a positive number of seconds. -/
def formatDuration (seconds : Int) : Text :=
  if seconds % 3600 = 0 then intText (seconds / 3600) ++ ['h']
  else if seconds % 60 = 0 then intText (seconds / 60) ++ ['m']
  else intText seconds ++ ['s']

/-! ## The row of a case -/

/-- What the script takes from outside this model: the digit limit and the class
`\w` of the interpreter, floating-point arithmetic, the comparison and printing of
decoded values, the benchmark registry and the display labels. -/
structure Environment (F : Type) where
  limit : Nat
  isWord : Char → Bool
  /-- `_to_float` -/
  toFloat : Value → Option F
  /-- `_to_int` -/
  toInt : Value → Option Int
  /-- `_geometric_mean` -/
  geometricMean : List F → Option F
  /-- `<` of two times -/
  lt : F → F → Bool
  /-- `f"{value:.2f}"` -/
  fixed2 : F → Text
  /-- `str(status or "unknown").strip() or "unknown"` -/
  statusName : Value → Text
  /-- `==` of two objects -/
  sameMetadata : List (Text × Value) → List (Text × Value) → Bool
  /-- `_case_identity_by_result_stem().get`: library, variant, target -/
  caseIdentity : Text → Option (Text × Text × Text)
  /-- `default_display_label` -/
  displayLabel : Text → Text

/-- `_read_timing_payload`: the first row and the metadata. -/
def readTimingPayload : JsonFile →
    Except Exc (Option (List (Text × Value) × List (Text × Value)))
  | .missing => .error (.osError "No such file or directory".toList)
  | .malformed => .error (.valueError "Expecting value".toList)
  | .raises e => .error e
  | .holds payload =>
    match payload.asDict? with
    | none => .error (.exit "expected a JSON object payload".toList)
    | some items =>
      match (Value.field items "data".toList).asList? with
      | some (first :: _) =>
        match Value.field items "metadata".toList with
        | .null => .ok (first.asDict?.map fun row => (row, []))
        | .dict metadata => .ok (first.asDict?.map fun row => (row, metadata))
        | _ => .error (.exit "metadata must be a JSON object".toList)
      | _ => .ok none

section Rows

variable {F : Type} (env : Environment F)

/-- The variables of the loop in `_merge_case_timings`. -/
structure CaseFold (F : Type) where
  caseId : Text := []
  caseMetadata : Option (List (Text × Value)) := none
  values : List F := []
  statusCounts : Dict Text Nat := .empty
  library : Text := []
  variant : Text := []
  target : Text := []
  timeoutSeconds : List Int := []

/-- The case id of the loop after a timing row. -/
def nextCaseId (caseId : Text) (row : List (Text × Value)) : Text :=
  (strippedField row "case_id".toList).getD caseId

/-- The metadata of the loop after a timing file: the first decides, the others have
to repeat it. -/
def nextMetadata (known : Option (List (Text × Value))) (metadata : List (Text × Value)) :
    Except Exc (List (Text × Value)) :=
  match known with
  | none => .ok metadata
  | some first =>
    if env.sameMetadata metadata first then .ok first
    else .error (.exit "timing metadata does not match other repetitions for this case".toList)

/-- One iteration of the loop; a row without a time leaves the rest alone. -/
def foldTiming (acc : CaseFold F) (file : TimingFile) : Except Exc (CaseFold F) :=
  match readTimingPayload file.payload with
  | .error e => .error e
  | .ok none => .ok acc
  | .ok (some (row, metadata)) =>
    match nextMetadata env acc.caseMetadata metadata with
    | .error e => .error e
    | .ok metadata =>
      let acc := { acc with caseId := nextCaseId acc.caseId row, caseMetadata := some metadata }
      match env.toFloat (Value.field row "verification_time_seconds".toList) with
      | none => .ok acc
      | some value =>
        let status := env.statusName (Value.field row "status".toList)
        .ok { acc with
          values := acc.values ++ [value]
          statusCounts := acc.statusCounts.set status ((acc.statusCounts.get? status).getD 0 + 1)
          library := (strippedField row "library".toList).getD acc.library
          variant := (strippedField row "variant".toList).getD acc.variant
          target := (strippedField row "target".toList).getD acc.target
          timeoutSeconds := acc.timeoutSeconds ++
            (env.toInt (Value.field row "timeout_seconds".toList)).toList }

/-- The loop. -/
def foldTimings (acc : CaseFold F) : List TimingFile → Except Exc (CaseFold F)
  | [] => .ok acc
  | file :: files =>
    match foldTiming env acc file with
    | .error e => .error e
    | .ok acc => foldTimings acc files

/-- The statuses of the repetitions; none at all without a case id. -/
def programStatuses (column : ColumnMetadata) (caseId : Text) :
    List TimingFile → Except Exc (List ProgramStatus)
  | [] => .ok []
  | file :: files =>
    match programStatusForRepetition env.limit env.isWord file.repetition caseId
        column.comparisonTool column.toolFamily with
    | .error e => .error e
    | .ok status => (programStatuses column caseId files).map (status :: ·)

/-- `_benchmark_label`. -/
def benchmarkLabel (library variant : Text) : Text :=
  if variant = [] then library else library ++ ':' :: variant

/-- Library, variant and target of a case: from the rows, else from the metadata,
else from the registry. -/
def caseIdentity (acc : CaseFold F) (metadata : List (Text × Value)) : Text × Text × Text :=
  let orElse (s t : Text) : Text := if s = [] then t else s
  let library := orElse acc.library ((strippedField metadata "library".toList).getD [])
  let target := orElse acc.target ((strippedField metadata "target".toList).getD [])
  let variant := orElse acc.variant target
  if (variant = [] ∨ target = []) ∧ acc.caseId ≠ [] then
    match env.caseIdentity acc.caseId with
    | some (l, v, t) => (orElse library l, orElse variant v, orElse target t)
    | none => (library, variant, target)
  else (library, variant, target)

/-- A row of `collect_timing_rows`. -/
structure TimingRow (F : Type) where
  sourceColumn : Text
  configurationLabel : Text
  comparisonTool : Text
  toolFamily : Text
  library : Text
  variant : Text
  target : Text
  benchmark : Text
  programStatus : ProgramStatus
  publicMode : Text
  verificationTimeSeconds : F
  totalRepetitions : Nat
  completedRepetitions : Nat
  timeoutRepetitions : Nat
  failedRepetitions : Nat
  timeoutSeconds : Option Int
  statusCounts : List (Text × Nat)

/-- `_merge_case_timings`. -/
def mergeCaseTimings (run : RunMetadata) (files : List TimingFile) :
    Except Exc (Option (TimingRow F)) :=
  match foldTimings env {} files with
  | .error e => .error e
  | .ok acc =>
    match env.geometricMean acc.values, acc.caseMetadata with
    | some mergedTime, some metadata =>
      match buildColumnMetadata run metadata with
      | .error e => .error e
      | .ok column =>
        match if acc.caseId = [] then .ok [] else programStatuses env column acc.caseId files with
        | .error e => .error e
        | .ok statuses =>
          let identity := caseIdentity env acc metadata
          .ok (some
            { sourceColumn := column.sourceColumn
              configurationLabel := column.configurationLabel
              comparisonTool := column.comparisonTool
              toolFamily := column.toolFamily
              library := identity.1
              variant := identity.2.1
              target := identity.2.2
              benchmark := benchmarkLabel identity.1 identity.2.1
              programStatus := mergeProgramStatuses statuses
              publicMode := (strippedField metadata "config".toList).getD []
              verificationTimeSeconds := mergedTime
              totalRepetitions := acc.values.length
              completedRepetitions := (acc.statusCounts.get? "completed".toList).getD 0
              timeoutRepetitions := (acc.statusCounts.get? "timeout".toList).getD 0
              failedRepetitions := (acc.statusCounts.get? "failed".toList).getD 0
              timeoutSeconds := acc.timeoutSeconds.max?
              statusCounts := acc.statusCounts.items.mergeSort fun a b => !decide (b.1 < a.1) })
    | _, _ => .ok none

/-! ## All rows -/

/-- `grouped.setdefault(stem, []).append(path)`. -/
def addTiming (repetition : Repetition) (grouped : Dict Text (List TimingFile))
    (entry : Text × JsonFile) : Dict Text (List TimingFile) :=
  grouped.set entry.1 ((grouped.get? entry.1).getD [] ++ [⟨repetition, entry.2⟩])

/-- `_timing_files_by_case`. -/
def timingFilesByCase (repetitions : List Repetition) : Dict Text (List TimingFile) :=
  repetitions.foldl
    (fun grouped repetition =>
      (repetition.timings.getD []).foldl (addTiming repetition) grouped) .empty

/-- The inner loop of `collect_timing_rows`. -/
def collectCases (run : RunMetadata) :
    List (Text × List TimingFile) → Except Exc (List (TimingRow F))
  | [] => .ok []
  | (_, files) :: rest =>
    match mergeCaseTimings env run files with
    | .error e => .error e
    | .ok merged => (collectCases run rest).map (merged.toList ++ ·)

/-- The outer loop of `collect_timing_rows`. -/
def collectRuns : List Run → Except Exc (List (TimingRow F))
  | [] => .ok []
  | run :: runs =>
    match run.repetitions with
    | none => .error (.exit ("run metadata references missing run directory ".toList ++ run.name))
    | some repetitions =>
      match collectCases env run.metadata
          ((timingFilesByCase repetitions).items.mergeSort fun a b => !decide (b.1 < a.1)) with
      | .error e => .error e
      | .ok rows => (collectRuns runs).map (rows ++ ·)

/-- The sort key of a row. -/
def TimingRow.key (row : TimingRow F) : List Text :=
  [row.comparisonTool, row.sourceColumn, row.library, row.target]

/-- `collect_timing_rows`. -/
def collectTimingRows (runs : List Run) : Except Exc (List (TimingRow F)) :=
  (collectRuns env (runs.mergeSort fun a b => !decide (b.name < a.name))).map
    (·.mergeSort fun a b => !decide (b.key < a.key))

/-! ## The table of best configurations -/

/-- A selected configuration, as far as the table uses it. -/
structure Selection where
  sourceColumn : Text
  comparisonTool : Text
  deriving DecidableEq, Repr

/-- A cell with its notes, if any. -/
def withNotes (cell : Text) (notes : List Text) : Text :=
  if notes = [] then cell else cell ++ " (".toList ++ join ", ".toList notes ++ [')']

/-- `_format_timing_cell`. The time of a row is finite, so it is always printed. -/
def formatTimingCell : Option (TimingRow F) → Text
  | none => ['-']
  | some row =>
    let timeoutSeconds := row.timeoutSeconds.getD 0
    if 0 < row.totalRepetitions ∧ row.timeoutRepetitions = row.totalRepetitions ∧
        0 < timeoutSeconds then
      "TO(".toList ++ formatDuration timeoutSeconds ++ [')']
    else
      let total := decimal row.totalRepetitions
      let note (count : Nat) (what : Text) : List Text :=
        if count = 0 then [] else [decimal count ++ '/' :: total ++ what]
      let notes := note row.timeoutRepetitions " TO".toList ++
        note row.failedRepetitions " fail".toList
      withNotes (env.fixed2 row.verificationTimeSeconds ++ ['s']) notes

/-- The key of a table cell. -/
def TimingRow.cellKey (row : TimingRow F) : Text × Text × Text :=
  (row.sourceColumn, row.library, row.variant)

/-- The loop that names the columns: a label used before gets a number. -/
def labelColumns (selected : List Selection) : Dict Text Text :=
  (selected.foldl
    (fun (acc : Dict Text Text × Dict Text Nat) config =>
      let label := env.displayLabel config.comparisonTool
      let count := (acc.2.get? label).getD 0 + 1
      (acc.1.set config.sourceColumn
        (if count = 1 then label else label ++ " (".toList ++ decimal count ++ [')']),
        acc.2.set label count))
    (.empty, .empty)).1

/-- The loop that collects the rows of the selected columns: the statuses by key,
and the slowest row by key. -/
def collectCells (sources : List Text)
    (acc : Dict (Text × Text × Text) (List ProgramStatus) × Dict (Text × Text × Text) (TimingRow F))
    (row : TimingRow F) :
    Dict (Text × Text × Text) (List ProgramStatus) × Dict (Text × Text × Text) (TimingRow F) :=
  if row.sourceColumn ∉ sources then acc
  else
    (acc.1.set row.cellKey ((acc.1.get? row.cellKey).getD [] ++ [row.programStatus]),
      match acc.2.get? row.cellKey with
      | none => acc.2.set row.cellKey row
      | some previous =>
        if env.lt previous.verificationTimeSeconds row.verificationTimeSeconds then
          acc.2.set row.cellKey row
        else acc.2)

/-- The benchmarks of the table: library, variant and label, sorted. -/
def benchmarks (rows : List (TimingRow F)) (sources : List Text) : List (Text × Text × Text) :=
  ((rows.filter (·.sourceColumn ∈ sources)).map fun row =>
      (row.library, row.variant, row.benchmark)).dedup.mergeSort
    fun a b => !decide ([b.1, b.2.1, b.2.2] < [a.1, a.2.1, a.2.2])

/-- The text of a status cell. -/
def statusCell (statuses : Option (List ProgramStatus)) : Text :=
  match statuses with
  | none => ['-']
  | some statuses => (mergeProgramStatuses statuses).token

/-- The two cells of a column in the row of a benchmark. -/
def addCells
    (cells : Dict (Text × Text × Text) (List ProgramStatus) × Dict (Text × Text × Text) (TimingRow F))
    (labels : Dict Text Text) (library variant : Text) (row : Dict Text Text) (source : Text) :
    Dict Text Text :=
  let label := (labels.get? source).getD []
  (row.set label (formatTimingCell env (cells.2.get? (source, library, variant)))).set
    (label ++ " status".toList) (statusCell (cells.1.get? (source, library, variant)))

/-- `build_best_table_rows`: every benchmark with its row. -/
def buildBestTableRows (rows : List (TimingRow F)) (selected : List Selection) :
    List ((Text × Text × Text) × Dict Text Text) :=
  let sources := selected.map Selection.sourceColumn
  let labels := labelColumns env selected
  let cells := rows.foldl (collectCells env sources) (.empty, .empty)
  (benchmarks rows sources).map fun b =>
    (b, sources.foldl (addCells env cells labels b.1 b.2.1)
      (Dict.empty.set "benchmark".toList b.2.2))

end Rows

end KleeDeps.Postprocess
