import KleeDeps.Data.OuterJoin
import KleeDeps.Data.Sequence
import KleeDeps.Postprocess.MergeResults

/-!
# From the wide tables to the published one

The wide table of the sliced cases is taken back to the original sources, joined with the
table of the other cases and filtered.

- `relabelCsv` (`apply_sliced_map.py`), `mergeOnLocation` (`merge_csv_by_location.py`),
  `filterCsv` (`filter_merged_results.py`): the three programs, each from table to table;
- `Pandas`: what `merge_on_location` leaves to the library that reads its tables;
- `filteredResults`: the way of a campaign through all of them.
-/

namespace KleeDeps.Postprocess

open Py Shared OuterJoin

/-! ## `relabel_csv` -/

section Relabel

variable (repr : Text → Text) (limit : Nat) (mapping : SlicedMap)

/-- The key of a row in the map. -/
def readRowKey (row : TableRow) : Except Exc (Text × Place) := do
  let line ← normalizeInt limit row.line "line".toList
  let column ← normalizeInt limit row.column "column".toList
  return (strip row.library, ⟨normalizeFile row.file, line, column⟩)

/-- A row at another place. -/
def TableRow.at (row : TableRow) (place : Place) : TableRow :=
  { row with file := place.file, line := intText place.line, column := intText place.column }

/-- A row after the map. -/
def relabelRow (key : Text × Place) (row : TableRow) : TableRow :=
  match mapping.get? key with
  | none => row
  | some place => row.at place

/-- The loop, from a row number on: the rows, and the keys of those without an image. -/
def relabelRows (path : Text) (rowNumber : Nat) :
    List TableRow → Except Exc (List TableRow × List (Nat × (Text × Place)))
  | [] => .ok ([], [])
  | row :: rest => do
    let key ← orInvalidRow path rowNumber (readRowKey limit row)
    let (rows, unmapped) ← relabelRows path (rowNumber + 1) rest
    return (relabelRow mapping key row :: rows,
      if mapping.get? key = none then (rowNumber, key) :: unmapped else unmapped)

/-- `_format_unmapped_rows`. -/
def formatUnmappedRows (unmapped : List (Nat × (Text × Place))) : Text :=
  join ['\n'] ((unmapped.take 10).map fun (rowNumber, key) =>
      "  line ".toList ++ decimal rowNumber ++ ": ".toList ++ keyText repr key) ++
    if 10 < unmapped.length then
      "\n  ... and ".toList ++ decimal (unmapped.length - 10) ++ " more".toList
    else []

/-- `relabel_csv`. -/
def relabelCsv (keepUnmapped : Bool) (path : Text) (table : Table) : Except Exc Table := do
  let (rows, unmapped) ← relabelRows limit mapping path 2 table.rows
  if unmapped ≠ [] ∧ keepUnmapped = false then
    .error (.exit ("Found unmapped row(s) in input CSV. ".toList ++
      "Re-run with --keep-unmapped to keep them unchanged.\n".toList ++
      formatUnmappedRows repr unmapped))
  else return { table with rows := rows }

end Relabel

/-! ## `merge_on_location` -/

/-- What `read_csv` and the conversions behind it make of a key column. A function of the
whole column: the type of a column is guessed from all of its cells. -/
structure Pandas where
  /-- `library` and `file`: `astype(str)`, `none` where a cell stays missing. -/
  readName : List Text → Text → Option Text
  /-- `target` and `kind`: `fillna("").astype(str)`. -/
  readOptional : List Text → Text → Text
  /-- `line` and `column`: `to_numeric` and `astype("Int64")`. -/
  readNumber : List Text → Except Exc (Text → Option Int)

/-- What the library documents: a column of integers is read as these integers, if it can
be read as `Int64` at all; which texts mark a missing value does not depend on the column;
and only numbers, truth values and these markers are read as something else than they are,
none of which has an underscore in it. -/
structure Pandas.Documented (pandas : Pandas) : Prop where
  number : ∀ column read, pandas.readNumber column = .ok read →
    (∀ text ∈ column, ∃ n, text = intText n) → ∀ n, intText n ∈ column → read (intText n) = some n
  missing : ∀ column column' text,
    pandas.readName column text = none → pandas.readName column' text = none
  optional : ∀ column text, '_' ∈ text ∨ '_' ∈ pandas.readOptional column text →
    pandas.readOptional column text = text

/-- The key of the join. -/
structure JoinKey where
  library : Text
  file : Text
  line : Int
  column : Int
  target : Text
  kind : Text
  deriving DecidableEq

section Join

variable (pandas : Pandas)

/-- The names of a row as they are read. -/
structure ReadNames where
  library : Option Text
  file : Option Text
  target : Text
  kind : Text
  deriving DecidableEq

/-- The names of a row, each read in its column and stripped. -/
def readNames (rows : List TableRow) (row : TableRow) : ReadNames where
  library := (pandas.readName (rows.map (·.library)) row.library).map strip
  file := (pandas.readName (rows.map (·.file)) row.file).map strip
  target := strip (pandas.readOptional (rows.map (·.target)) row.target)
  kind := strip (pandas.readOptional (rows.map (·.kind)) row.kind)

/-- The key of a row, unless a required part of it is missing. -/
def joinKey (rows : List TableRow) (line column : Text → Option Int) (row : TableRow) :
    Option JoinKey :=
  let names := readNames pandas rows row
  match names.library, names.file, line row.line, column row.column with
  | some library, some file, some line, some column => some
    { library := library, file := file, line := line, column := column
      target := names.target, kind := names.kind }
  | _, _, _, _ => none

/-- The rows of a table with their keys; rows with an incomplete key are dropped. -/
def keyedRows (rows : List TableRow) : Except Exc (List (JoinKey × List (Option Text))) := do
  let line ← pandas.readNumber (rows.map (·.line))
  let column ← pandas.readNumber (rows.map (·.column))
  return rows.filterMap fun row => (joinKey pandas rows line column row).map (·, row.cells)

/-- The row of a key. -/
def JoinKey.row (key : JoinKey) (cells : List (Option Text)) : TableRow where
  library := key.library
  target := key.target
  file := key.file
  line := intText key.line
  column := intText key.column
  kind := key.kind
  cells := cells

/-- The row that a row of the join is printed as; the other side's cells are empty. -/
def joinedRow (leftWidth rightWidth : Nat) :
    Joined (JoinKey × List (Option Text)) (JoinKey × List (Option Text)) → TableRow
  | .left l => l.1.row (l.2 ++ List.replicate rightWidth none)
  | .both l r => l.1.row (l.2 ++ r.2)
  | .right r => r.1.row (List.replicate leftWidth none ++ r.2)

/-- The order of the rows: `sort_values` by the keys. -/
def JoinKey.before (a b : JoinKey) : Bool :=
  sortedBefore ([a.library, a.file], a.line, a.column, a.target)
      ([b.library, b.file], b.line, b.column, b.target) &&
    (!sortedBefore ([b.library, b.file], b.line, b.column, b.target)
      ([a.library, a.file], a.line, a.column, a.target) || !decide (b.kind < a.kind))

/-- `merge_column_metadata`. -/
def mergeColumnMetadata (sidecars : List (Dict Text ColumnMetadata)) :
    Except Exc (Dict Text ColumnMetadata) :=
  (sidecars.flatMap (·.items)).foldlM (fun merged (column, described) =>
    match merged.get? column with
    | none => .ok (merged.set column described)
    | some existing =>
      if existing ≠ described then
        .error (.exit ("conflicting metadata for column '".toList ++ column ++
          "' while merging column metadata".toList))
      else .ok merged) .empty

/-- `merge_on_location`. -/
def mergeOnLocation (left right : Table) : Except Exc Table := do
  let leftRows ← keyedRows pandas left.rows
  let rightRows ← keyedRows pandas right.rows
  let joined := (outerJoin Prod.fst Prod.fst leftRows rightRows).mergeSort fun a b =>
    (a.key Prod.fst Prod.fst).before (b.key Prod.fst Prod.fst)
  let sidecar ← mergeColumnMetadata [left.sidecar, right.sidecar]
  return { columns := left.columns ++ right.columns.map fun column =>
             if column ∈ left.columns then column ++ "_right".toList else column
           rows := joined.map (joinedRow left.columns.length right.columns.length)
           sidecar := sidecar }

end Join

/-! ## `filter_csv` -/

section Filter

variable (limit : Nat) (filters : FilterConfiguration)

/-- `row_matches`; the line is read only where there are ranges to compare it with. -/
def rowMatches (row : TableRow) : Except Exc Bool :=
  match filters.rangesByLocation.get? (strip row.library, normalizeFile row.file) with
  | none | some [] => .ok (strip row.library ∉ filters.librariesWithFilters)
  | some (range :: ranges) => do
    let line ← normalizeInt limit row.line "line".toList
    return (range :: ranges).any fun range => range.1 ≤ line ∧ line ≤ range.2

/-- The loop, from a row number on. -/
def filterRows (path : Text) (rowNumber : Nat) : List TableRow → Except Exc (List TableRow)
  | [] => .ok []
  | row :: rest => do
    let kept ← orInvalidRow path rowNumber (rowMatches limit filters row)
    let rows ← filterRows path (rowNumber + 1) rest
    return if kept then row :: rows else rows

/-- `filter_csv`. -/
def filterCsv (path : Text) (table : Table) : Except Exc Table := do
  let rows ← filterRows limit filters path 2 table.rows
  return { table with rows := rows }

end Filter

/-! ## The way of a campaign -/

section Campaign

variable {F : Type} (readers : Readers F) (repr : Text → Text) (limit : Nat) (pandas : Pandas)
  (mapping : SlicedMap)

/-- The beginning of the message when there is nothing to merge. -/
def noResults (slicedOnly : Bool) : Text :=
  "No ".toList ++ (if slicedOnly then "sliced".toList else "non-sliced".toList) ++
    " top-level result JSON files found".toList

/-- `main` of `merge_results.py`, in one of its modes. -/
def mergeResults (slicedOnly allPositives : Bool) (runs : List ResultRun) : Except Exc Table := do
  let merged ← mergeRuns readers slicedOnly allPositives runs
  if merged.columns = [] then .error (.exit (noResults slicedOnly)) else writeCsv readers merged

/-- `all_merged_results.csv`: without sliced results the other table is copied. -/
def allMergedResults (allPositives : Bool) (runs : List ResultRun) : Except Exc Table := do
  let plain ← mergeResults readers false allPositives runs
  match mergeResults readers true allPositives runs with
  | .error (.exit message) =>
    if noResults true <+: message then return plain else .error (.exit message)
  | .error e => .error e
  | .ok sliced =>
    let relabeled ← relabelCsv repr limit mapping true "sliced_merged_results.csv".toList sliced
    mergeOnLocation pandas plain relabeled

/-- `filtered_merged_results.csv`. -/
def filteredResults (filters : FilterConfiguration) (allPositives : Bool) (runs : List ResultRun) :
    Except Exc Table := do
  let all ← allMergedResults readers repr limit pandas mapping allPositives runs
  filterCsv limit filters "all_merged_results.csv".toList all

end Campaign

end KleeDeps.Postprocess
