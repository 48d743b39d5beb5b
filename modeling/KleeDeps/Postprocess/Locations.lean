import KleeDeps.Py.Int
import KleeDeps.Replay.Verdict
import KleeDeps.Shared.Registry

/-!
# Locations in the tables

Every script behind the campaign speaks about source locations, and each brings them to
its own normal form first. This module holds what they share: file names, the filter
table that says which lines of a library count, and the map that takes locations of the
sliced sources back to the original ones.

- `basenameOnly`, `normalizeFile`: the two ways to a file name;
- `loadFilters`, `locationMatches` (`filter_merged_results.py`);
- `loadSlicedMap` (`apply_sliced_map.py`): a location has at most one image.
-/

namespace KleeDeps.Postprocess

open Py Shared

/-! ## File names -/

/-- `_basename_only`. -/
def basenameOnly (path : Text) : Text := Replay.basename (normalizeSeparators path)

/-- `Path(text).name`: the last component that is neither empty nor a dot. -/
def pathName (text : Text) : Text :=
  (((text.splitOn '/').filter fun part => part ≠ [] ∧ part ≠ ['.']).getLast?).getD []

/-- `_normalize_file`. -/
def normalizeFile (value : Text) : Text := pathName (strip value)

/-- `_normalize_int`; `limit` is the digit limit of the interpreter. -/
def normalizeInt (limit : Nat) (value fieldName : Text) : Except Exc Int :=
  if strip value = [] then .error (.valueError ("Empty integer field: ".toList ++ fieldName))
  else
    match int10 limit (strip value) with
    | .ok n => .ok n
    | .error e => .error e.exc

/-- `str(exc)`. -/
def messageOf : Exc → Text
  | .valueError msg | .runtimeError msg | .typeError msg | .keyError msg | .osError msg
  | .overflowError msg | .exit msg => msg
  | .usageExit => ['2']

/-- `raise SystemExit(f"Invalid row in {path} at line {row_number}: {exc}")` around a
reader. -/
def orInvalidRow {α : Type} (path : Text) (rowNumber : Nat) : Except Exc α → Except Exc α
  | .ok value => .ok value
  | .error e => .error (.exit ("Invalid row in ".toList ++ path ++ " at line ".toList ++
      decimal rowNumber ++ ": ".toList ++ messageOf e))

/-- `<=` of two sort keys: names, a line, a column, a kind. -/
def sortedBefore (a b : List Text × Int × Int × Text) : Bool :=
  decide (a.1 < b.1) || (a.1 == b.1 && (decide (a.2.1 < b.2.1) || (a.2.1 == b.2.1 &&
    (decide (a.2.2.1 < b.2.2.1) || (a.2.2.1 == b.2.2.1 && !decide (b.2.2.2 < a.2.2.2))))))

/-! ## The filter table -/

/-- A row of the filter table. -/
structure FilterRow where
  library : Text
  file : Text
  lineStart : Text
  lineEnd : Text

/-- `FilterConfiguration`. -/
structure FilterConfiguration where
  rangesByLocation : Dict (Text × Text) (List (Int × Int))
  librariesWithFilters : List Text

/-- The fields of a row, decoded. -/
def readFilterRow (limit : Nat) (row : FilterRow) : Except Exc ((Text × Text) × Int × Int) := do
  let lineStart ← normalizeInt limit row.lineStart "line_start".toList
  let lineEnd ← normalizeInt limit row.lineEnd "line_end".toList
  return ((strip row.library, normalizeFile row.file), lineStart, lineEnd)

/-- The loop of `load_filters`, from a row number on. -/
def addFilters (limit : Nat) (path : Text) (filters : FilterConfiguration) (rowNumber : Nat) :
    List FilterRow → Except Exc FilterConfiguration
  | [] => .ok filters
  | row :: rest => do
    let (key, lineStart, lineEnd) ← orInvalidRow path rowNumber (readFilterRow limit row)
    if lineEnd < lineStart then
      .error (.exit ("Invalid row in ".toList ++ path ++ " at line ".toList ++
        decimal rowNumber ++ ": line_start ".toList ++ intText lineStart ++
        " is greater than line_end ".toList ++ intText lineEnd))
    else
      addFilters limit path
        { rangesByLocation := filters.rangesByLocation.set key
            ((filters.rangesByLocation.get? key).getD [] ++ [(lineStart, lineEnd)])
          librariesWithFilters := filters.librariesWithFilters ++ [key.1] }
        (rowNumber + 1) rest

/-- `load_filters`. -/
def loadFilters (limit : Nat) (path : Text) (rows : List FilterRow) :
    Except Exc FilterConfiguration :=
  addFilters limit path { rangesByLocation := .empty, librariesWithFilters := [] } 2 rows

/-- `location_matches`: a library without filters is kept as a whole. -/
def locationMatches (filters : FilterConfiguration) (library file : Text) (line : Int) : Bool :=
  match filters.rangesByLocation.get? (strip library, normalizeFile file) with
  | none | some [] => strip library ∉ filters.librariesWithFilters
  | some ranges => ranges.any fun range => range.1 ≤ line ∧ line ≤ range.2

/-! ## The map of the sliced sources -/

/-- A file with a line and a column. -/
structure Place where
  file : Text
  line : Int
  column : Int
  deriving DecidableEq, Repr

/-- A row of the map. -/
structure SlicedRow where
  library : Text
  file : Text
  line : Text
  column : Text
  fileSliced : Text
  lineSliced : Text
  columnSliced : Text

/-- The map: from a library and a place in its sliced sources to a place in the original
ones. -/
abbrev SlicedMap := Dict (Text × Place) Place

/-- The fields of a row, decoded, in the order they are read. -/
def readSlicedRow (limit : Nat) (row : SlicedRow) : Except Exc ((Text × Place) × Place) := do
  let lineSliced ← normalizeInt limit row.lineSliced "line_sliced".toList
  let columnSliced ← normalizeInt limit row.columnSliced "column_sliced".toList
  let line ← normalizeInt limit row.line "line".toList
  let column ← normalizeInt limit row.column "column".toList
  return ((strip row.library, ⟨normalizeFile row.fileSliced, lineSliced, columnSliced⟩),
    ⟨normalizeFile row.file, line, column⟩)

/-- The text of a key in a message, as the tuple is printed; `repr` prints texts. -/
def keyText (repr : Text → Text) (key : Text × Place) : Text :=
  '(' :: join ", ".toList [repr key.1, repr key.2.file, intText key.2.line, intText key.2.column] ++
    [')']

/-- The loop of `load_sliced_map`, from a row number on. -/
def addSliced (repr : Text → Text) (limit : Nat) (path : Text) (mapping : SlicedMap)
    (rowNumber : Nat) : List SlicedRow → Except Exc SlicedMap
  | [] => .ok mapping
  | row :: rest => do
    let (key, value) ← orInvalidRow path rowNumber (readSlicedRow limit row)
    if mapping.get? key ≠ none then
      .error (.exit ("Duplicate sliced mapping key in ".toList ++ path ++ " at line ".toList ++
        decimal rowNumber ++ ": ".toList ++ keyText repr key))
    else addSliced repr limit path (mapping.set key value) (rowNumber + 1) rest

/-- `load_sliced_map`. -/
def loadSlicedMap (repr : Text → Text) (limit : Nat) (path : Text) (rows : List SlicedRow) :
    Except Exc SlicedMap :=
  addSliced repr limit path .empty 2 rows

end KleeDeps.Postprocess
