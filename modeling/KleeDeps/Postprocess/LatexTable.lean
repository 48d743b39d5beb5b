import KleeDeps.Postprocess.Findings
import KleeDeps.Py.Digits
import Mathlib.Order.Bounds.Defs
import Mathlib.Order.Defs.LinearOrder

/-!
# The LaTeX table

`csv_to_latex_table.py` prints a wide table as a `NiceTabular`. The first four columns are taken
for the location and all others for times; in each row the numbers near the smallest one are set
in bold. The tables of `write_csv` have six columns in front of the times.

- `csvToNicetabular`: the program, on what `csv.DictReader` reads;
- `isBold_iff`: which cells it sets in bold;
- `named_mergeRuns`: the header of a written table names a column once;
- `highlighted_iff`: **the column of a location always takes part in the comparison, and the right
  cells are bold exactly where no number of the location is near the smallest time**.
-/

namespace KleeDeps.Postprocess.LatexTable

open Py Shared

/-! ## The program -/

/-- A floating-point number. -/
inductive Number (F : Type) where
  | number (x : F)
  | nan

/-- Floating-point numbers as this program needs them: `float` with its `ValueError` caught, and
`minimum + 0.1 + epsilon`. -/
structure Floats (F : Type) where
  float : Text → Option (Number F)
  tolerance : F → F

/-- The replacements of `escape_latex`. -/
def replacements : List (Char × Text) :=
  [('\\', "\\textbackslash\x7b\x7d".toList), ('&', "\\&".toList), ('%', "\\%".toList),
   ('$', "\\$".toList), ('#', "\\#".toList), ('_', "\\_".toList),
   ('\x7b', "\\\x7b".toList), ('\x7d', "\\\x7d".toList),
   ('~', "\\textasciitilde\x7b\x7d".toList), ('^', "\\textasciicircum\x7b\x7d".toList)]

/-- `escape_latex`. -/
def escapeLatex (text : Text) : Text :=
  text.flatMap fun ch => (replacements.lookup ch).getD [ch]

/-- How a bold cell starts. -/
def textbf : Text := "\\textbf\x7b".toList

/-- `format_value`. -/
def formatValue (raw : Text) (bold : Bool) : Text :=
  if strip raw = [] then ['-']
  else if bold then textbf ++ escapeLatex (strip raw) ++ ['\x7d']
  else escapeLatex (strip raw)

/-- `extract_experiment_group`. -/
def extractExperimentGroup (columnName : Text) : Text :=
  let parts := columnName.splitOn '_'
  match parts.findIdx? isdigit with
  | none => columnName
  | some numberIndex =>
    let endIndex :=
      if parts[numberIndex + 1]? = some "sliced".toList then numberIndex + 1 else numberIndex
    join ['_'] (parts.take (endIndex + 1))

/-- The loop of `build_alignment`: a bar where the group changes. -/
def alignMetrics (previousGroup : Option Text) : List Text → Text
  | [] => []
  | col :: rest =>
    let group := extractExperimentGroup col
    (if previousGroup = some group then [] else ['|']) ++ 'r' :: alignMetrics (some group) rest

/-- The columns behind the first four. -/
def metricColumns (fieldnames : List Text) : List Text := fieldnames.drop 4

/-- `build_alignment`. -/
def buildAlignment (fieldnames : List Text) : Except Exc Text :=
  if fieldnames.length < 4 then
    .error (.valueError "CSV must contain at least 4 columns: library,file,line,column".toList)
  else .ok ("llrr".toList ++ alignMetrics none (metricColumns fieldnames))

/-- `row.get(col, "")` -/
def field (row : Dict Text Text) (col : Text) : Text := (row.get? col).getD []

section Rows

variable {F : Type} [LinearOrder F] (floats : Floats F)

/-- `parse_float`. -/
def parseFloat (raw : Text) : Option (Number F) :=
  if strip raw = [] then none else floats.float (strip raw)

/-- `should_bold`; no comparison with NaN holds. -/
def shouldBold : Number F → Number F → Bool
  | .number value, .number minimum => value ≤ floats.tolerance minimum
  | _, _ => false

/-- `a < b`, where NaN is less than nothing and nothing less than NaN. -/
def Number.less : Number F → Number F → Bool
  | .number a, .number b => a < b
  | _, _ => false

/-- A step of `min`: the first of the smallest is kept. -/
def keepLess (least value : Number F) : Number F := if value.less least then value else least

/-- `min(values) if values else None` -/
def rowMin : List (Number F) → Option (Number F)
  | [] => none
  | value :: values => some (values.foldl keepLess value)

/-- `numeric_values`: the numbers in the metric columns of a row. -/
def numericValues (fieldnames : List Text) (row : Dict Text Text) : List (Number F) :=
  (metricColumns fieldnames).filterMap fun col => parseFloat floats (field row col)

/-- The cell of a column. -/
def outCell (fieldnames : List Text) (row : Dict Text Text) (i : Nat) (col : Text) : Text :=
  let raw := field row col
  if i < 4 then
    if strip raw = [] then ['-'] else escapeLatex (strip raw)
  else
    formatValue raw (match rowMin (numericValues floats fieldnames row), parseFloat floats raw with
      | some minimum, some value => shouldBold floats value minimum
      | _, _ => false)

/-- `out_cells`. -/
def outCells (fieldnames : List Text) (row : Dict Text Text) : List Text :=
  fieldnames.mapIdx (outCell floats fieldnames row)

/-- The line of a row. -/
def rowLine (fieldnames : List Text) (row : Dict Text Text) : Text :=
  "    ".toList ++ join " & ".toList (outCells floats fieldnames row) ++ " \\\\".toList

/-- The loop over the rows: a rule where the library changes. -/
def bodyLines (fieldnames : List Text) (previousLibrary : Option Text) :
    List (Dict Text Text) → List Text
  | [] => []
  | row :: rest =>
    let currentLibrary := strip (field row (fieldnames.headD []))
    (if previousLibrary ≠ none ∧ previousLibrary ≠ some currentLibrary
      then ["    \\midrule".toList] else []) ++
      rowLine floats fieldnames row :: bodyLines fieldnames (some currentLibrary) rest

/-- `csv_to_nicetabular`, on the field names and rows of the reader. -/
def csvToNicetabular (fieldnames : List Text) (rows : List (Dict Text Text)) : Except Exc Text :=
  if fieldnames = [] then .error (.valueError "CSV has no header".toList)
  else do
    let alignment ← buildAlignment fieldnames
    let lines :=
      ["\\begin\x7bNiceTabular\x7d\x7b".toList ++ alignment ++ ['\x7d'],
        "    \\toprule".toList,
        "    ".toList ++ join " & ".toList (fieldnames.map escapeLatex) ++ " \\\\".toList,
        "    \\midrule".toList] ++
        bodyLines floats fieldnames none rows ++
        ["    \\bottomrule".toList, "\\end\x7bNiceTabular\x7d".toList]
    return join ['\n'] lines ++ ['\n']

end Rows

/-! ## The file between the two programs -/

/-- The names that `write_csv` gives the columns of a location. -/
def locationColumns : List Text :=
  ["library".toList, "target".toList, "file".toList, "line".toList, "column".toList, "kind".toList]

/-- The header row of a written table. -/
def fieldnames (table : Table) : List Text := locationColumns ++ table.columns

/-- The record of a row. -/
def record (row : TableRow) : List Text := row.location ++ row.cells.map (·.getD [])

/-- A record as `csv.DictReader` gives it, as long as the header. -/
def readRecord (names record : List Text) : Dict Text Text := Dict.setAll .empty (names.zip record)

/-- A row of a written table as the reader gives it. -/
def readRow (table : Table) (row : TableRow) : Dict Text Text :=
  readRecord (fieldnames table) (record row)

/-! ## The smallest number -/

section Minimum

variable {F : Type} [LinearOrder F]

/-- **Step lemma**: what is kept is the least of the numbers so far. -/
theorem keepLess_isLeast {values : List (Number F)} {m : F}
    (h : IsLeast {x | .number x ∈ values} m) (value : Number F) :
    ∃ m', keepLess (.number m) value = .number m' ∧
      IsLeast {x | .number x ∈ values ++ [value]} m' := by
  obtain ⟨hmem, hle⟩ := h
  have hold : Number.number m ∈ values ++ [value] := List.mem_append_left _ hmem
  cases value with
  | nan =>
    refine ⟨m, rfl, hold, fun x hx => ?_⟩
    rcases List.mem_append.mp hx with hx | hx
    · exact hle hx
    · cases List.mem_singleton.mp hx
  | number v =>
    by_cases hless : v < m
    · have hkeep : keepLess (.number m) (.number v) = .number v := if_pos (decide_eq_true hless)
      refine ⟨v, hkeep, List.mem_append_right _ (List.mem_singleton_self _), fun x hx => ?_⟩
      rcases List.mem_append.mp hx with hx | hx
      · exact hless.le.trans (hle hx)
      · exact ge_of_eq (Number.number.inj (List.mem_singleton.mp hx))
    · have hkeep : keepLess (.number m) (.number v) = .number m :=
        if_neg (by simpa [Number.less] using hless)
      refine ⟨m, hkeep, hold, fun x hx => ?_⟩
      rcases List.mem_append.mp hx with hx | hx
      · exact hle hx
      · obtain rfl := Number.number.inj (List.mem_singleton.mp hx)
        exact le_of_not_gt hless

/-- Where the first value is a number, `min` is the least of the numbers. -/
theorem rowMin_spec (first : F) (values : List (Number F)) :
    ∃ m, rowMin (.number first :: values) = some (.number m) ∧
      IsLeast {x | .number x ∈ .number first :: values} m := by
  let P : List (Number F) → Number F → Prop := fun done kept =>
    ∃ m, kept = .number m ∧ IsLeast {x | .number x ∈ .number first :: done} m
  have hstart : P [] (.number first) := by
    refine ⟨first, rfl, List.mem_cons_self, fun x hx => ?_⟩
    exact ge_of_eq (Number.number.inj (List.mem_singleton.mp hx))
  obtain ⟨m, hm, hleast⟩ := Sequence.foldl_induction P [] hstart (fun done value kept h => by
    obtain ⟨m, rfl, hleast⟩ := h
    exact keepLess_isLeast hleast value) values
  exact ⟨m, congrArg some hm, hleast⟩

end Minimum

/-! ## Which cells are bold -/

/-- A cell is set in bold. -/
def IsBold (cell : Text) : Prop := textbf <+: cell

instance (cell : Text) : Decidable (IsBold cell) := inferInstanceAs (Decidable (_ <+: _))

/-- A text that differs from the start of a bold cell starts none. -/
theorem not_isBold_append {text rest : Text} {i : Nat} (hi : i < text.length)
    (h : text[i]? ≠ textbf[i]?) (hbound : i < textbf.length) : ¬IsBold (text ++ rest) := by
  rintro ⟨tail, htail⟩
  have hsame : (text ++ rest)[i]? = (textbf ++ tail)[i]? := by rw [← htail]
  rw [List.getElem?_append_left hi, List.getElem?_append_left hbound] at hsame
  exact h hsame

/-- No text starts a bold cell of its own: a backslash is replaced. -/
theorem not_isBold_escapeLatex (text : Text) : ¬IsBold (escapeLatex text) := by
  cases text with
  | nil => decide
  | cons c text =>
    rw [escapeLatex, List.flatMap_cons]
    cases hlookup : replacements.lookup c with
    | none =>
      have hne : c ≠ '\\' := by
        rintro rfl
        cases hlookup
      have hfirst : textbf[0]? = some '\\' := rfl
      have hbound : 0 < textbf.length := by decide +kernel
      refine @not_isBold_append _ _ 0 Nat.one_pos (fun heq => hne ?_) hbound
      exact Option.some.inj (heq.trans hfirst)
    | some replacement =>
      have hall : ∀ pair ∈ replacements, ∃ i < textbf.length, i < pair.2.length ∧
          pair.2[i]? ≠ textbf[i]? := by decide +kernel
      obtain ⟨before, behind, hsplit, -⟩ := List.lookup_eq_some_iff.mp hlookup
      have hmem : (c, replacement) ∈ replacements := by
        rw [hsplit]
        exact List.mem_append_right _ List.mem_cons_self
      obtain ⟨i, hbound, hi, hne⟩ := hall (c, replacement) hmem
      exact not_isBold_append hi hne hbound

theorem isBold_formatValue {raw : Text} {bold : Bool} (hne : strip raw ≠ []) :
    IsBold (formatValue raw bold) ↔ bold = true := by
  rw [formatValue, if_neg hne]
  cases bold with
  | true => exact iff_of_true ⟨escapeLatex (strip raw) ++ ['\x7d'], by simp⟩ rfl
  | false => exact iff_of_false (not_isBold_escapeLatex _) (by decide)

section Reading

/-- The reader gives back the records. -/
theorem map_field_readRecord {names record : List Text} (hnodup : names.Nodup)
    (hlength : record.length = names.length) :
    names.map (field (readRecord names record)) = record := by
  have hkeys : (names.zip record).map Prod.fst = names := List.map_fst_zip hlength.ge
  have hitems : (readRecord names record).items = names.zip record := by
    rw [readRecord, Dict.items_setAll_empty]
    rwa [hkeys]
  have hfield : ∀ pair ∈ names.zip record, field (readRecord names record) pair.1 = pair.2 := by
    intro pair hpair
    rw [field, Dict.mem_items_iff.mp (hitems ▸ hpair), Option.getD_some]
  calc names.map (field (readRecord names record))
      = ((names.zip record).map Prod.fst).map (field (readRecord names record)) := by rw [hkeys]
    _ = (names.zip record).map fun pair => field (readRecord names record) pair.1 := List.map_map
    _ = (names.zip record).map Prod.snd := List.map_congr_left hfield
    _ = record := List.map_snd_zip hlength.le

variable {F : Type} {floats : Floats F}

/-- The values that are compared. -/
def compared (floats : Floats F) (record : List Text) : List (Number F) :=
  (record.drop 4).filterMap (parseFloat floats)

theorem numericValues_readRecord {names record : List Text} (hnodup : names.Nodup)
    (hlength : record.length = names.length) :
    numericValues floats names (readRecord names record) = compared floats record := by
  rw [numericValues, metricColumns, compared]
  nth_rewrite 2 [← map_field_readRecord hnodup hlength]
  rw [← List.map_drop, List.filterMap_map]
  rfl

/-- The cell at a position is set in bold. -/
def BoldAt (cells : List Text) (p : Nat) : Prop := ∃ cell, cells[p]? = some cell ∧ IsBold cell

variable [LinearOrder F]

theorem isBold_outCell {names : List Text} {row : Dict Text Text} {i : Nat} {col : Text} :
    IsBold (outCell floats names row i col) ↔
      4 ≤ i ∧ ∃ value minimum, parseFloat floats (field row col) = some value ∧
        rowMin (numericValues floats names row) = some minimum ∧
        shouldBold floats value minimum = true := by
  rw [outCell]
  by_cases hi : i < 4
  · rw [if_pos hi]
    refine iff_of_false ?_ fun h => absurd h.1 (Nat.not_le_of_gt hi)
    split
    · decide
    · exact not_isBold_escapeLatex _
  · rw [if_neg hi]
    cases hvalue : parseFloat floats (field row col) with
    | none =>
      refine iff_of_false ?_ (by simp)
      rw [formatValue]
      split
      · decide
      · cases rowMin (numericValues floats names row) <;> exact not_isBold_escapeLatex _
    | some value =>
      -- a number is no blank cell
      have hne : strip (field row col) ≠ [] := fun hnil => by
        rw [parseFloat, if_pos hnil] at hvalue
        cases hvalue
      rw [isBold_formatValue hne]
      cases hmin : rowMin (numericValues floats names row) with
      | none => simp
      | some minimum => simp [Nat.le_of_not_lt hi]

/-- **Which cells are bold**: behind the first four, those that are read as a number and are near
the smallest number behind the first four. -/
theorem boldAt_iff {names record : List Text} (hnodup : names.Nodup)
    (hlength : record.length = names.length) {p : Nat} :
    BoldAt (outCells floats names (readRecord names record)) p ↔
      4 ≤ p ∧ ∃ raw value minimum, record[p]? = some raw ∧
        parseFloat floats raw = some value ∧ rowMin (compared floats record) = some minimum ∧
        shouldBold floats value minimum = true := by
  -- the record is read by name: with distinct names position and name are the same
  have hread : ∀ name, names[p]? = some name →
      record[p]? = some (field (readRecord names record) name) := fun name hname => by
    have hat := congrArg (fun list : List Text => list[p]?) (map_field_readRecord hnodup hlength)
    rw [← hat, List.getElem?_map, hname, Option.map_some]
  have hcells : ∀ cell, (outCells floats names (readRecord names record))[p]? = some cell ↔
      ∃ name, names[p]? = some name ∧
        outCell floats names (readRecord names record) p name = cell := fun cell => by
    rw [outCells, List.getElem?_mapIdx, Option.map_eq_some_iff]
  constructor
  · rintro ⟨cell, hcell, hbold⟩
    obtain ⟨name, hname, rfl⟩ := (hcells cell).mp hcell
    rw [isBold_outCell, numericValues_readRecord hnodup hlength] at hbold
    obtain ⟨hp, value, minimum, hvalue, hmin, hnear⟩ := hbold
    exact ⟨hp, _, value, minimum, hread name hname, hvalue, hmin, hnear⟩
  · rintro ⟨hp, raw, value, minimum, hraw, hvalue, hmin, hnear⟩
    obtain ⟨hlt, -⟩ := List.getElem?_eq_some_iff.mp hraw
    have hname := List.getElem?_eq_getElem (hlength ▸ hlt)
    obtain rfl := Option.some.inj (hraw.symm.trans (hread _ hname))
    refine ⟨_, (hcells _).mpr ⟨_, hname, rfl⟩, ?_⟩
    rw [isBold_outCell, numericValues_readRecord hnodup hlength]
    exact ⟨hp, value, minimum, hvalue, hmin, hnear⟩

end Reading

/-! ## The header of a written table -/

/-- A source column joins its parts by an underscore. -/
theorem underscore_mem_buildSourceColumn (run : RunMetadata) (case : CaseOutputMetadata) :
    '_' ∈ buildSourceColumn run case := by
  unfold buildSourceColumn
  split
  · exact List.mem_append_left _ (List.mem_append_right _ (by decide))
  · exact List.mem_append_right _ List.mem_cons_self

theorem underscore_mem_of_buildColumnMetadata {run : RunMetadata} {items : List (Text × Value)}
    {column : ColumnMetadata} (h : buildColumnMetadata run items = .ok column) :
    '_' ∈ column.sourceColumn := by
  obtain ⟨case, rfl⟩ := buildColumnMetadata_ok h
  exact underscore_mem_buildSourceColumn run case

/-- The columns so far: each described, named once, and by a name with an underscore. -/
structure Named {F : Type} (merged : Merged F) : Prop where
  described : ∀ name ∈ merged.columns, ∃ c, merged.metadata.get? name = some c
  nodup : merged.columns.Nodup
  underscore : ∀ name ∈ merged.columns, '_' ∈ name

section Campaign

variable {F : Type} {readers : Readers F} {slicedOnly allPositives : Bool} {runs : List ResultRun}
  {merged : Merged F} {table : Table}

theorem Named.openColumn {path : Text} {opened : Merged F} {column : ColumnMetadata}
    (hnamed : Named merged) (hcolumn : '_' ∈ column.sourceColumn)
    (h : openColumn path merged column = .ok opened) : Named opened := by
  rcases openColumn_cases h with ⟨-, rfl⟩ | ⟨hnone, rfl⟩
  · exact hnamed
  · have hnew : column.sourceColumn ∉ merged.columns := fun hmem => by
      obtain ⟨c, hc⟩ := hnamed.described _ hmem
      rw [hnone] at hc
      cases hc
    refine ⟨fun name hname => ?_, ?_, fun name hname => ?_⟩
    · show ∃ c, (merged.metadata.set column.sourceColumn column).get? name = some c
      rw [Dict.get?_set]
      split
      · exact ⟨column, rfl⟩
      · next hne =>
        rcases List.mem_append.mp hname with hold | hsingle
        · exact hnamed.described name hold
        · exact absurd (List.mem_singleton.mp hsingle).symm hne
    · exact List.concat_eq_append ▸ hnamed.nodup.concat hnew
    · rcases List.mem_append.mp hname with hold | hsingle
      · exact hnamed.underscore name hold
      · exact List.mem_singleton.mp hsingle ▸ hcolumn

/-- **Step lemma**: a payload opens one column at most. -/
theorem Named.mergePayload {payload : ResultRun × (Text × Value)} {merged' : Merged F}
    (hnamed : Named merged)
    (h : mergePayload readers slicedOnly allPositives payload.1.metadata merged payload.2 =
      .ok merged') : Named merged' := by
  obtain ⟨_, _, -, ⟨-, rfl⟩ | ⟨column, opened, -, hbuild, hopened, rfl⟩⟩ := mergePayload_cases h
  · exact hnamed
  · have hunderscore := underscore_mem_of_buildColumnMetadata hbuild
    obtain ⟨hdescribed, hnodup, hnames⟩ := hnamed.openColumn hunderscore hopened
    exact ⟨hdescribed, hnodup, hnames⟩

/-- **Run lemma**: the columns of a campaign are named once, and by names with an underscore. -/
theorem named_mergeRuns (h : mergeRuns readers slicedOnly allPositives runs = .ok merged) :
    Named merged := by
  refine Sequence.foldlM_ok_induction (fun _ => Named) (overRuns_ok h) [] ?_ ?_
  · exact ⟨fun _ => nofun, List.nodup_nil, fun _ => nofun⟩
  · exact fun _ _ _ _ _ hnamed hstep => hnamed.mergePayload hstep

/-- The header of a written table names a column once. -/
theorem nodup_fieldnames (hmerged : mergeRuns readers slicedOnly allPositives runs = .ok merged)
    (htable : writeCsv readers merged = .ok table) : (fieldnames table).Nodup := by
  have hnamed := named_mergeRuns hmerged
  have hlocation : ∀ name ∈ locationColumns, '_' ∉ name := by decide +kernel
  rw [fieldnames, (writeCsv_rows htable).1]
  refine List.Nodup.append (by decide +kernel) hnamed.nodup fun name hname hcolumn => ?_
  exact hlocation name hname (hnamed.underscore name hcolumn)

end Campaign

/-! ## The rows of a written table -/

section Written

variable {F : Type} {readers : Readers F} {floats : Floats F} {slicedOnly allPositives : Bool}
  {runs : List ResultRun} {merged : Merged F} {table : Table} {row : TableRow} {x : F}

theorem length_record (hwritten : Written table) (hrow : row ∈ table.rows) :
    (record row).length = (fieldnames table).length := by
  rw [record, fieldnames, List.length_append, List.length_append, List.length_map,
    hwritten.width row hrow]
  rfl

/-- Behind the location come the experiments. -/
theorem getElem?_record (row : TableRow) (i : Nat) :
    (record row)[6 + i]? = (row.cells[i]?).map (·.getD []) := by
  have hlength : row.location.length = 6 := rfl
  rw [record, List.getElem?_append_right (by omega), hlength, Nat.add_sub_cancel_left,
    List.getElem?_map]

/-- A cell reads as a number. -/
def Reads (floats : Floats F) (raw : Text) (x : F) : Prop :=
  parseFloat floats raw = some (.number x)

/-- The experiment cell at a position has a value. -/
def ExperimentAt (floats : Floats F) (row : TableRow) (i : Nat) (x : F) : Prop :=
  ∃ cell, row.cells[i]? = some cell ∧ Reads floats (cell.getD []) x

/-- A value of an experiment cell. -/
def ExperimentValue (floats : Floats F) (row : TableRow) (x : F) : Prop :=
  ∃ i, ExperimentAt floats row i x

/-- A number of the location behind its first four columns. -/
def LocationValue (floats : Floats F) (row : TableRow) (x : F) : Prop :=
  Reads floats row.column x ∨ Reads floats row.kind x

theorem experimentValue_iff : ExperimentValue floats row x ↔
    .number x ∈ (row.cells.map (·.getD [])).filterMap (parseFloat floats) := by
  rw [List.mem_filterMap]
  constructor
  · rintro ⟨i, cell, hcell, hreads⟩
    exact ⟨_, List.mem_map_of_mem (List.mem_of_getElem? hcell), hreads⟩
  · rintro ⟨raw, hraw, hreads⟩
    obtain ⟨cell, hcell, rfl⟩ := List.mem_map.mp hraw
    obtain ⟨i, hi⟩ := List.mem_iff_getElem?.mp hcell
    exact ⟨i, cell, hi, hreads⟩

/-- A number that is compared belongs to the location or to an experiment. -/
theorem mem_compared_iff : .number x ∈ compared floats (record row) ↔
    LocationValue floats row x ∨ ExperimentValue floats row x := by
  have hdrop : (record row).drop 4 = row.column :: row.kind :: row.cells.map (·.getD []) := rfl
  rw [compared, hdrop, experimentValue_iff, List.mem_filterMap, List.mem_filterMap]
  simp only [List.mem_cons, or_and_right, exists_or, exists_eq_left, LocationValue, Reads, or_assoc]

/-- What `float`, `format` and addition are documented to do: printed integers and times are read
as numbers, and adding 0.1 makes no number smaller. -/
structure Floats.Documented [LE F] (floats : Floats F) (readers : Readers F) : Prop where
  int : ∀ n : Int, ∃ x, floats.float (intText n) = some (.number x)
  fixed2 : ∀ v, ∃ x, parseFloat floats (readers.fixed2 v) = some (.number x)
  le_tolerance : ∀ m, m ≤ floats.tolerance m

/-- The filled cells are printed times. -/
theorem exists_fixed2 (htable : writeCsv readers merged = .ok table) (hrow : row ∈ table.rows)
    {cell : Option Text} (hcell : cell ∈ row.cells) {text : Text} (htext : cell = some text) :
    ∃ v, readers.fixed2 v = text := by
  obtain ⟨location, -, rfl⟩ := List.mem_map.mp ((writeCsv_rows htable).2.mem_iff.mp hrow)
  obtain ⟨name, -, rfl⟩ := List.mem_map.mp hcell
  obtain ⟨v, -, hv⟩ := Option.map_eq_some_iff.mp htext
  exact ⟨v, hv⟩

variable [LinearOrder F]

/-- The column of a location is a number. -/
theorem exists_reads_column (hfloats : floats.Documented readers) (hwritten : Written table)
    (hrow : row ∈ table.rows) : ∃ x, Reads floats row.column x := by
  obtain ⟨_, n, -, hcolumn⟩ := hwritten.numbers row hrow
  obtain ⟨x, hx⟩ := hfloats.int n
  have hstrip : strip (intText n) = intText n :=
    strip_of_forall fun c hc => isSpace_of_mem_intText hc
  refine ⟨x, ?_⟩
  rw [Reads, hcolumn, parseFloat, hstrip, if_neg (intText_ne_nil n)]
  exact hx

/-- A row of a written table has a smallest time. -/
theorem exists_least (hfloats : floats.Documented readers)
    (htable : writeCsv readers merged = .ok table) (hrow : row ∈ table.rows) :
    ∃ m, IsLeast {x | ExperimentValue floats row x} m := by
  have hset : {x | ExperimentValue floats row x} =
      {x | .number x ∈ (row.cells.map (·.getD [])).filterMap (parseFloat floats)} := by
    ext x
    exact experimentValue_iff
  -- all values are numbers
  have hnumbers : ∀ value ∈ (row.cells.map (·.getD [])).filterMap (parseFloat floats),
      ∃ x, value = .number x := by
    intro value hvalue
    obtain ⟨raw, hraw, hparse⟩ := List.mem_filterMap.mp hvalue
    obtain ⟨cell, hcell, rfl⟩ := List.mem_map.mp hraw
    cases cell with
    | none => cases hparse
    | some text =>
      obtain ⟨v, hv⟩ := exists_fixed2 htable hrow hcell rfl
      obtain ⟨x, hx⟩ := hfloats.fixed2 v
      rw [hv] at hx
      exact ⟨x, Option.some.inj (hparse.symm.trans hx)⟩
  -- and there is one
  obtain ⟨i, -, hfilled⟩ := (written_of_writeCsv htable).filled row hrow
  obtain ⟨text, htext⟩ := Option.isSome_iff_exists.mp hfilled
  have hcell : row.cells[i]? = some (some text) := Option.join_eq_some_iff.mp htext
  obtain ⟨v, hv⟩ := exists_fixed2 htable hrow (List.mem_of_getElem? hcell) rfl
  obtain ⟨x, hx⟩ := hfloats.fixed2 v
  have hmem := experimentValue_iff.mp ⟨i, some text, hcell, show Reads floats text x from hv ▸ hx⟩
  rw [hset]
  cases hvalues : (row.cells.map (·.getD [])).filterMap (parseFloat floats) with
  | nil =>
    rw [hvalues] at hmem
    cases hmem
  | cons value values =>
    obtain ⟨first, rfl⟩ := hnumbers value (hvalues ▸ List.mem_cons_self)
    obtain ⟨m, -, hleast⟩ := rowMin_spec first values
    exact ⟨m, hleast⟩

/-- The row minimum is the least of the numbers of the location and the times. -/
theorem exists_rowMin (hfloats : floats.Documented readers) (hwritten : Written table)
    (hrow : row ∈ table.rows) :
    ∃ m, rowMin (compared floats (record row)) = some (.number m) ∧
      IsLeast {x | LocationValue floats row x ∨ ExperimentValue floats row x} m := by
  obtain ⟨first, hfirst⟩ := exists_reads_column hfloats hwritten hrow
  have hcompared : compared floats (record row) = .number first ::
      (row.kind :: row.cells.map (·.getD [])).filterMap (parseFloat floats) :=
    List.filterMap_cons_some hfirst
  obtain ⟨m, hm, hleast⟩ := rowMin_spec first
    ((row.kind :: row.cells.map (·.getD [])).filterMap (parseFloat floats))
  have hset : {x | LocationValue floats row x ∨ ExperimentValue floats row x} =
      {x | .number x ∈ compared floats (record row)} := by
    ext x
    exact mem_compared_iff.symm
  rw [hset, hcompared]
  exact ⟨m, hm, hleast⟩

/-- The bold cells of a row are the times near the smallest one. -/
def BoldsFastest (floats : Floats F) (table : Table) (row : TableRow) : Prop :=
  ∃ m, IsLeast {x | ExperimentValue floats row x} m ∧
    ∀ p, BoldAt (outCells floats (fieldnames table) (readRow table row)) p ↔
      ∃ i x, p = locationColumns.length + i ∧ ExperimentAt floats row i x ∧ x ≤ floats.tolerance m

/-- A column is compared and holds a number. -/
def TakesPart (floats : Floats F) (names : List Text) (row : Dict Text Text) (name : Text) : Prop :=
  name ∈ metricColumns names ∧ ∃ value, parseFloat floats (field row name) = some value

/-- The table highlights the fastest experiments of a row. -/
structure Highlights (floats : Floats F) (table : Table) (row : TableRow) : Prop where
  fastest : BoldsFastest floats table row
  apart : ∀ name ∈ locationColumns, ¬TakesPart floats (fieldnames table) (readRow table row) name

/-- Which cells of a written row are bold. -/
theorem boldAt_row_iff (hnodup : (fieldnames table).Nodup) (hwritten : Written table)
    (hrow : row ∈ table.rows) {m : F}
    (hm : rowMin (compared floats (record row)) = some (.number m)) {p : Nat} :
    BoldAt (outCells floats (fieldnames table) (readRow table row)) p ↔
      4 ≤ p ∧ ∃ raw x, (record row)[p]? = some raw ∧ Reads floats raw x ∧
        x ≤ floats.tolerance m := by
  rw [readRow, boldAt_iff hnodup (length_record hwritten hrow), hm]
  refine and_congr_right fun _ => exists_congr fun raw => ?_
  constructor
  · rintro ⟨value, minimum, hraw, hvalue, hsome, hnear⟩
    obtain rfl := Option.some.inj hsome
    cases value with
    | number x => exact ⟨x, hraw, hvalue, of_decide_eq_true hnear⟩
    | nan => cases hnear
  · rintro ⟨x, hraw, hreads, hle⟩
    exact ⟨.number x, .number m, hraw, hreads, rfl, decide_eq_true hle⟩

/-- A number of the location near the minimum is bold, at a place that is no experiment's. -/
theorem boldAt_of_locationValue (hnodup : (fieldnames table).Nodup) (hwritten : Written table)
    (hrow : row ∈ table.rows) {m : F}
    (hm : rowMin (compared floats (record row)) = some (.number m))
    (hvalue : LocationValue floats row x) (hle : x ≤ floats.tolerance m) :
    ∃ p < locationColumns.length,
      BoldAt (outCells floats (fieldnames table) (readRow table row)) p := by
  have hbold := @boldAt_row_iff _ floats table row _ hnodup hwritten hrow m hm
  rcases hvalue with hcolumn | hkind
  · exact ⟨4, by decide, hbold.mpr ⟨Nat.le_refl 4, row.column, x, rfl, hcolumn, hle⟩⟩
  · exact ⟨5, by decide, hbold.mpr ⟨by decide, row.kind, x, rfl, hkind, hle⟩⟩

/-- **The bold cells of a row are right exactly where no number of its location is near the
smallest time.** -/
theorem boldsFastest_iff (hfloats : floats.Documented readers)
    (hnodup : (fieldnames table).Nodup) (htable : writeCsv readers merged = .ok table)
    (hrow : row ∈ table.rows) :
    BoldsFastest floats table row ↔
      ∀ m, IsLeast {x | ExperimentValue floats row x} m →
        ∀ x, LocationValue floats row x → floats.tolerance m < x := by
  have hwritten := written_of_writeCsv htable
  obtain ⟨least, hleast, hmem, hmin⟩ := exists_rowMin hfloats hwritten hrow
  have hbold := @boldAt_row_iff _ floats table row _ hnodup hwritten hrow least hleast
  constructor
  · rintro ⟨m, hm, hcells⟩ m' hm' x hx
    obtain rfl := hm'.unique hm
    by_contra hnear
    -- no cell of the location is bold
    have hnone : ∀ p < locationColumns.length,
        ¬BoldAt (outCells floats (fieldnames table) (readRow table row)) p := by
      intro p hp hboldAt
      obtain ⟨i, y, hpos, -⟩ := (hcells p).mp hboldAt
      omega
    rcases hmem with hlocation | hexperiment
    · -- the minimum itself is in the location
      obtain ⟨p, hp, hboldAt⟩ := boldAt_of_locationValue hnodup hwritten hrow hleast hlocation
        (hfloats.le_tolerance least)
      exact hnone p hp hboldAt
    · -- the minimum is the smallest time
      obtain rfl : least = m' := le_antisymm (hmin (.inr hm'.1)) (hm'.2 hexperiment)
      obtain ⟨p, hp, hboldAt⟩ := boldAt_of_locationValue hnodup hwritten hrow hleast hx
        (le_of_not_gt hnear)
      exact hnone p hp hboldAt
  · intro hfar
    obtain ⟨m, hm⟩ := exists_least hfloats htable hrow
    -- so the row minimum is a time
    have hsame : least = m := by
      rcases hmem with hlocation | hexperiment
      · have hlt := hfar m hm least hlocation
        exact absurd (hmin (.inr hm.1)) (not_le_of_gt ((hfloats.le_tolerance m).trans_lt hlt))
      · exact le_antisymm (hmin (.inr hm.1)) (hm.2 hexperiment)
    subst hsame
    refine ⟨least, hm, fun p => ?_⟩
    rw [hbold]
    constructor
    · rintro ⟨hp, raw, x, hraw, hreads, hle⟩
      -- the two columns in front of the times are far off
      have hne4 : p ≠ 4 := by
        rintro rfl
        obtain rfl : row.column = raw := Option.some.inj hraw
        exact absurd hle (not_le_of_gt (hfar least hm x (.inl hreads)))
      have hne5 : p ≠ 5 := by
        rintro rfl
        obtain rfl : row.kind = raw := Option.some.inj hraw
        exact absurd hle (not_le_of_gt (hfar least hm x (.inr hreads)))
      obtain ⟨i, rfl⟩ := Nat.exists_eq_add_of_le (show 6 ≤ p by omega)
      rw [getElem?_record] at hraw
      obtain ⟨cell, hcell, rfl⟩ := Option.map_eq_some_iff.mp hraw
      exact ⟨i, x, rfl, ⟨cell, hcell, hreads⟩, hle⟩
    · rintro ⟨i, x, rfl, ⟨cell, hcell, hreads⟩, hle⟩
      refine ⟨?_, cell.getD [], x, ?_, hreads, hle⟩
      · show 4 ≤ 6 + i
        omega
      · show (record row)[6 + i]? = _
        rw [getElem?_record, hcell, Option.map_some]

/-- The column of a location is compared in every row. -/
theorem takesPart_column (hfloats : floats.Documented readers)
    (hnodup : (fieldnames table).Nodup) (hwritten : Written table) (hrow : row ∈ table.rows) :
    TakesPart floats (fieldnames table) (readRow table row) "column".toList := by
  obtain ⟨x, hx⟩ := exists_reads_column hfloats hwritten hrow
  have hfields := map_field_readRecord hnodup (length_record hwritten hrow)
  have hcolumn : field (readRow table row) "column".toList = row.column := by
    have hat := congrArg (fun list : List Text => list[4]?) hfields
    rw [List.getElem?_map] at hat
    exact Option.some.inj hat
  exact ⟨List.mem_cons_self, .number x, hcolumn ▸ hx⟩

/-- Every row has its line in the body, in order. -/
theorem rowLines_sublist (names : List Text) (previous : Option Text)
    (rows : List (Dict Text Text)) :
    (rows.map (rowLine floats names)).Sublist (bodyLines floats names previous rows) := by
  induction rows generalizing previous with
  | nil => exact List.Sublist.refl []
  | cons row rows ih =>
    rw [List.map_cons, bodyLines]
    exact ((ih _).cons_cons _).trans (List.sublist_append_right _ _)

/-- A written table is converted. -/
theorem csvToNicetabular_ok (floats : Floats F) (table : Table) (rows : List (Dict Text Text)) :
    ∃ lines, csvToNicetabular floats (fieldnames table) rows =
        .ok (join ['\n'] lines ++ ['\n']) ∧
      (rows.map (rowLine floats (fieldnames table))).Sublist lines := by
  have hlong : ¬(fieldnames table).length < 4 := by
    rw [fieldnames, List.length_append]
    have : locationColumns.length = 6 := rfl
    omega
  have hheader : fieldnames table ≠ [] := List.cons_ne_nil _ _
  rw [csvToNicetabular, if_neg hheader, buildAlignment, if_neg hlong]
  refine ⟨_, rfl, ?_⟩
  exact ((rowLines_sublist _ none rows).trans (List.sublist_append_right _ _)).trans
    (List.sublist_append_left _ _)

/-- **What the LaTeX table highlights.** Every table that `write_csv` writes for a campaign is
converted, with a line for each row. It highlights the fastest experiments of all its rows, with
the location left out of the comparison, only if it has no rows. The bold cells alone are right in
exactly the rows where no number of the location, which are its column and perhaps its kind, is
near the smallest time. -/
theorem highlighted_iff (hfloats : floats.Documented readers)
    (hmerged : mergeRuns readers slicedOnly allPositives runs = .ok merged)
    (htable : writeCsv readers merged = .ok table) :
    (∃ lines, csvToNicetabular floats (fieldnames table) (table.rows.map (readRow table)) =
        .ok (join ['\n'] lines ++ ['\n']) ∧
      ((table.rows.map (readRow table)).map (rowLine floats (fieldnames table))).Sublist lines) ∧
    ((∀ row ∈ table.rows, Highlights floats table row) ↔ table.rows = []) ∧
    ∀ row ∈ table.rows, BoldsFastest floats table row ↔
      ∀ m, IsLeast {x | ExperimentValue floats row x} m →
        ∀ x, LocationValue floats row x → floats.tolerance m < x := by
  have hnodup := nodup_fieldnames hmerged htable
  refine ⟨csvToNicetabular_ok floats table _, ⟨fun hall => ?_, fun hnil row hrow => ?_⟩,
    fun row hrow => boldsFastest_iff hfloats hnodup htable hrow⟩
  · rw [List.eq_nil_iff_forall_not_mem]
    intro row hrow
    have hcolumn : "column".toList ∈ locationColumns := by decide +kernel
    exact (hall row hrow).apart _ hcolumn
      (takesPart_column hfloats hnodup (written_of_writeCsv htable) hrow)
  · rw [hnil] at hrow
    cases hrow

end Written

/-! ## A run -/

/-- Numbers in hundredths, as far as the run below has them. -/
def hundredths : Readers Int where
  toFloat := fun value => value.asInt?.map (100 * ·)
  toInt := Value.asInt?
  max := max
  fixed2 := fun v => if v = 900 then "9.00".toList else intText (v / 100)
  floatTruth := fun _ => true

/-- Their texts, and 0.1. -/
def hundredthFloats : Floats Int where
  float := fun text =>
    if text = "9.00".toList then some (.number 900)
    else (int10 0 text).toOption.map fun n => .number (100 * n)
  tolerance := fun m => m + 10

theorem documented_hundredthFloats : hundredthFloats.Documented hundredths := by
  have hint : ∀ n : Int, ∃ x, hundredthFloats.float (intText n) = some (.number x) := by
    intro n
    show ∃ x, (if intText n = "9.00".toList then some (Number.number 900)
      else (int10 0 (intText n)).toOption.map fun n => Number.number (100 * n)) = some (.number x)
    split
    · exact ⟨900, rfl⟩
    · rw [int10_intText]
      exact ⟨100 * n, rfl⟩
  refine ⟨hint, fun v => ?_, fun m => ?_⟩
  · show ∃ x, parseFloat hundredthFloats (if v = 900 then "9.00".toList else intText (v / 100)) = _
    split
    · exact ⟨900, rfl⟩
    · have hstrip : strip (intText (v / 100)) = intText (v / 100) :=
        strip_of_forall fun c hc => isSpace_of_mem_intText hc
      rw [parseFloat, hstrip, if_neg (intText_ne_nil _)]
      exact hint _
  · show m ≤ m + 10
    omega

/-- A run with a finding in column 1 after 9 seconds. -/
def slowRun : ResultRun where
  name := "klee".toList
  metadata :=
    { sourceColumnPrefix := "klee".toList, toolFamily := "klee_cf".toList
      searcher := "default".toList, symSize := "all".toList, cvModel := "all".toList }
  files := some [("a.json".toList, .dict [("data".toList, .list [.dict
      [("filename".toList, .str "a.c".toList), ("line".toList, .int 3),
       ("column".toList, .int 1), ("kind".toList, .str "branch".toList),
       ("non_ct_time".toList, .int 9)]]),
    ("metadata".toList, .dict
      [("library".toList, .str "lib".toList), ("target".toList, .str "t".toList),
       ("config".toList, .str "fix_pub".toList), ("sliced".toList, .bool false)])])]

/-- Its table. -/
theorem exists_slowRun : ∃ merged table row,
    mergeRuns hundredths false true [slowRun] = .ok merged ∧
      writeCsv hundredths merged = .ok table ∧ table.rows = [row] ∧
      table.columns = ["klee_fix_pub".toList] ∧
      row = ⟨"lib".toList, "t".toList, "a.c".toList, "3".toList, "1".toList, "branch".toList,
        [some "9.00".toList]⟩ := by
  obtain ⟨merged, hmerged⟩ : ∃ merged, mergeRuns hundredths false true [slowRun] = .ok merged :=
    ⟨_, rfl⟩
  obtain ⟨table, htable⟩ : ∃ table, writeCsv hundredths merged = .ok table := by
    obtain ⟨sidecar, hsidecar⟩ : ∃ sidecar,
        writeColumnMetadata merged.columns merged.metadata = .ok sidecar := by
      obtain rfl := Except.ok.inj hmerged
      exact ⟨_, rfl⟩
    unfold writeCsv
    rw [hsidecar]
    exact ⟨_, rfl⟩
  obtain ⟨hcolumns, hrows⟩ := writeCsv_rows htable
  refine ⟨merged, table, _, hmerged, htable, ?_, ?_, rfl⟩
  · obtain rfl := Except.ok.inj hmerged
    exact List.perm_singleton.mp hrows
  · obtain rfl := Except.ok.inj hmerged
    exact hcolumns

/-- The table of the run has a row, so it does not highlight the fastest experiments. -/
theorem highlighted_iff_slowRun : ∃ merged table,
    mergeRuns hundredths false true [slowRun] = .ok merged ∧
      writeCsv hundredths merged = .ok table ∧
      ¬∀ row ∈ table.rows, Highlights hundredthFloats table row := by
  obtain ⟨merged, table, row, hmerged, htable, hrows, -⟩ := exists_slowRun
  obtain ⟨-, hiff, -⟩ := highlighted_iff documented_hundredthFloats hmerged htable
  refine ⟨merged, table, hmerged, htable, fun hall => ?_⟩
  rw [hiff, hrows] at hall
  cases hall

/-- The column of the finding is set in bold, its time is not. -/
theorem column_set_bold : ∃ merged table row,
    mergeRuns hundredths false true [slowRun] = .ok merged ∧
      writeCsv hundredths merged = .ok table ∧ row ∈ table.rows ∧
      outCells hundredthFloats (fieldnames table) (readRow table row) =
        ["lib".toList, "t".toList, "a.c".toList, "3".toList, "\\textbf\x7b1\x7d".toList,
          "branch".toList, "9.00".toList] ∧
      ¬Highlights hundredthFloats table row := by
  obtain ⟨merged, table, row, hmerged, htable, hrows, hcolumns, hrow⟩ := exists_slowRun
  have hcells : outCells hundredthFloats (fieldnames table) (readRow table row) =
      ["lib".toList, "t".toList, "a.c".toList, "3".toList, "\\textbf\x7b1\x7d".toList,
        "branch".toList, "9.00".toList] := by
    rw [readRow, fieldnames, hcolumns, hrow]
    rfl
  refine ⟨merged, table, row, hmerged, htable, hrows ▸ List.mem_singleton_self row, hcells, ?_⟩
  rintro ⟨⟨m, -, hbold⟩, -⟩
  have hfour : BoldAt (outCells hundredthFloats (fieldnames table) (readRow table row)) 4 := by
    rw [hcells]
    exact ⟨_, rfl, by decide +kernel⟩
  -- position 4 is in front of the experiments
  obtain ⟨i, x, hpos, -⟩ := (hbold 4).mp hfour
  have hlength : locationColumns.length = 6 := rfl
  omega

end KleeDeps.Postprocess.LatexTable
