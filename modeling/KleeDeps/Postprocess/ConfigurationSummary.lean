import Mathlib.Data.Char
import Mathlib.Data.List.Lex
import Mathlib.Data.Prod.Lex
import Mathlib.Order.WithBot
import KleeDeps.Experiments.Durations
import KleeDeps.Postprocess.Selection
import KleeDeps.Shared.ColumnMetadata

/-!
# The summary of the configurations

`aggregate_experiment_groups.py` turns each column of the merged table into one row of a summary,
ranks the configurations of each tool, and proposes the best one of each tool as a selection.

- `summarizeConfigurations`, `selectBestConfigurations`, `bestSelectionTable`: the program;
- `configurations_ranked`: **a rank is the number of better configurations of the tool plus one,
  whatever the order of the columns**;
- `best_selection_read_back`: **the selection file it writes selects what it selects by itself**;
- `grouped_selection`: which configurations a grouped plot compares.
-/

namespace KleeDeps.Postprocess

open Py Shared BestByKey

namespace Selection

/-! ### The program -/

/-- `METADATA_COLS` -/
def metadataCols : List Text :=
  ["library".toList, "file".toList, "line".toList, "column".toList, "target".toList, "kind".toList]

/-- The columns of a table, each cell as `to_numeric` gives it; `none` stands for NaN. -/
abbrev Frame (F : Type) := Dict Text (List (Option F))

/-- `metric_columns` -/
def metricColumns {F : Type} (df : Frame F) : List Text := df.keys.filter (· ∉ metadataCols)

/-- `normalize_suffix` -/
def normalizeSuffix (rawSuffix : Text) : Text :=
  if rawSuffix = [] ∨ rawSuffix = "all".toList then "all".toList
  else
    let cleaned := join ['_']
      ((rawSuffix.splitOn '_').filter fun part => part ≠ [] ∧ part ≠ "sliced".toList)
    if cleaned = [] then "all".toList else cleaned

/-- The metadata of a column as they are stored beside a table: what `build_column_metadata` made,
and two fields that older tables have. -/
structure StoredMetadata extends ColumnMetadata where
  rawSuffix? : Option Text
  normalizedSuffix? : Option Text
  deriving DecidableEq

/-- `ColumnConfiguration` -/
structure ColumnConfiguration where
  sourceColumn : Text
  toolFamily : Text
  comparisonTool : Text
  sliced : Bool
  searcher : Text
  symSize : Text
  config : Text
  cvModel : Text
  rawSuffix : Text
  normalizedSuffix : Text
  configurationLabel : Text
  deriving DecidableEq

/-- `column_configuration_from_metadata` -/
def columnConfigurationFromMetadata (columnName : Text) (metadata : StoredMetadata) :
    ColumnConfiguration :=
  let rawSuffix := metadata.rawSuffix?.getD metadata.config
  { sourceColumn := columnName
    toolFamily := metadata.toolFamily
    comparisonTool := metadata.comparisonTool
    sliced := metadata.sliced
    searcher := metadata.searcher
    symSize := metadata.symSize
    config := metadata.config
    cvModel := metadata.cvModel
    rawSuffix := rawSuffix
    normalizedSuffix := metadata.normalizedSuffix?.getD (normalizeSuffix rawSuffix)
    configurationLabel := metadata.configurationLabel }

section Summary

variable {F : Type} [LinearOrder F] (repr : Text → Text)

/-- `numeric.median()`: the middle number, or the mean of the two. -/
def median (mean : F → F → F) (numeric : List F) : Option F :=
  let sorted := numeric.mergeSort fun a b => decide (a ≤ b)
  let half := sorted.length / 2
  if sorted.length % 2 = 1 then sorted[half]?
  else
    match sorted[half - 1]?, sorted[half]? with
    | some a, some b => some (mean a b)
    | _, _ => none

/-- A row of the summary before it is ranked. A time is `none` where there is none. -/
structure Measured (F : Type) where
  config : ColumnConfiguration
  insecureLocationsFound : Nat
  minTime : Option F
  medianTime : Option F
  maxTime : Option F
  deriving DecidableEq

/-- The row of a column. -/
def measure (mean : F → F → F) (config : ColumnConfiguration) (cells : List (Option F)) :
    Measured F :=
  let numeric := cells.filterMap id
  { config := config
    insecureLocationsFound := numeric.length
    minTime := numeric.min?
    medianTime := median mean numeric
    maxTime := numeric.max? }

/-- `na_position="last"` -/
def naLast (time : Option F) : WithTop F := time.elim ⊤ WithTop.some

/-- What the configurations of a tool are ordered by: most locations, then the smallest largest
time, then the name. -/
def Measured.cost (row : Measured F) : Nat ᵒᵈ ×ₗ WithTop F ×ₗ Text :=
  toLex (OrderDual.toDual row.insecureLocationsFound,
    toLex (naLast row.maxTime, row.config.sourceColumn))

/-- What the rows are sorted by. -/
def Measured.sortKey (row : Measured F) : Text ×ₗ Nat ᵒᵈ ×ₗ WithTop F ×ₗ Text :=
  toLex (row.config.comparisonTool, row.cost)

/-- `summary.sort_values(...)` -/
def sortValues (rows : List (Measured F)) : List (Measured F) :=
  rows.mergeSort fun a b => decide (a.sortKey ≤ b.sortKey)

/-- `f"C{value:02d}"` -/
def curveIdText (value : Nat) : Text :=
  'C' :: (List.replicate (2 - (decimal value).length) '0' ++ decimal value)

/-- A row of the summary. -/
structure SummaryRow (F : Type) extends Measured F where
  rankWithinTool : Nat
  curveId : Text

/-- A row with its number among those of its tool. -/
def rankRow (item : Measured F × Nat) : SummaryRow F where
  toMeasured := item.1
  rankWithinTool := item.2 + 1
  curveId := curveIdText (item.2 + 1)

/-- The comparison tool of a row. -/
def Measured.tool (row : Measured F) : Text := row.config.comparisonTool

/-- The rows of the summary as they are collected. -/
def measureColumns (mean : F → F → F) (df : Frame F) (metadata : Dict Text StoredMetadata) :
    Except Exc (List (Measured F)) :=
  (metricColumns df).mapM fun column =>
    match metadata.get? column with
    | none => .error (.valueError ("Missing column metadata for ".toList ++ repr column))
    | some entry => .ok
        (measure mean (columnConfigurationFromMetadata column entry) ((df.get? column).getD []))

/-- `summarize_configurations` -/
def summarizeConfigurations (mean : F → F → F) (df : Frame F)
    (metadata : Dict Text StoredMetadata) : Except Exc (List (SummaryRow F)) := do
  let rows ← measureColumns repr mean df metadata
  return (numbered Measured.tool (sortValues rows)).map rankRow

/-- `groupby("comparison_tool").head(1)` -/
def firstOfTool (rows : List (SummaryRow F)) : List (SummaryRow F) :=
  ((numbered (fun row => row.tool) rows).filter fun item => item.2 < 1).map Prod.fst

/-- `select_best_configurations` -/
def selectBestConfigurations (summary : List (SummaryRow F)) : List (SummaryRow F) :=
  firstOfTool (summary.mergeSort fun a b => decide (a.sortKey ≤ b.sortKey))

/-! ### The order of the rows -/

variable {repr} {mean : F → F → F} {df : Frame F} {metadata : Dict Text StoredMetadata}

omit [LinearOrder F] in
theorem nodup_metricColumns (df : Frame F) : (metricColumns df).Nodup := df.nodup.filter _

/-- A column gives the row that bears its name. -/
theorem names_measureColumns {rows : List (Measured F)}
    (h : measureColumns repr mean df metadata = .ok rows) :
    rows.map (fun row => row.config.sourceColumn) = metricColumns df := by
  have hall := Sequence.mapM_eq_ok_iff.mp h
  clear h
  generalize metricColumns df = columns at hall
  induction hall with
  | nil => rfl
  | cons hhead _ ih =>
    split at hhead
    · cases hhead
    · rw [List.map_cons, ih, ← Except.ok.inj hhead]
      rfl

theorem cost_le_of_sortKey_le {a b : Measured F} (h : a.sortKey ≤ b.sortKey)
    (htool : a.tool = b.tool) : a.cost ≤ b.cost := by
  rcases Prod.Lex.toLex_le_toLex.mp h with hlt | ⟨-, hle⟩
  · exact absurd htool hlt.ne
  · exact hle

omit [LinearOrder F] in
theorem name_of_cost {a b : Measured F} (h : a.cost = b.cost) :
    a.config.sourceColumn = b.config.sourceColumn := by
  have hsnd := congrArg (fun c => (ofLex (ofLex c).2).2) h
  exact hsnd

omit [LinearOrder F] in
theorem apart_of_names {rows : List (Measured F)}
    (h : (rows.map fun row => row.config.sourceColumn).Nodup) :
    Apart Measured.tool Measured.cost rows :=
  (List.pairwise_map.mp h).imp fun hne _ hcost => hne (name_of_cost hcost)

theorem pairwise_sortValues (rows : List (Measured F)) :
    (sortValues rows).Pairwise fun a b => a.sortKey ≤ b.sortKey := by
  have hsorted : (sortValues rows).Pairwise fun a b => decide (a.sortKey ≤ b.sortKey) = true :=
    List.pairwise_mergeSort
      (fun a b c hab hbc => decide_eq_true
        ((of_decide_eq_true hab).trans (of_decide_eq_true hbc)))
      (fun a b => by simpa using le_total a.sortKey b.sortKey) rows
  exact hsorted.imp of_decide_eq_true

theorem ascending_of_sorted {rows : List (Measured F)}
    (h : rows.Pairwise fun a b => a.sortKey ≤ b.sortKey) :
    Ascending Measured.tool Measured.cost rows :=
  h.imp cost_le_of_sortKey_le

/-- Sorting leaves nothing of the order of the rows. -/
theorem sortValues_perm {rows rows' : List (Measured F)}
    (hnames : (rows.map fun row => row.config.sourceColumn).Nodup) (h : rows'.Perm rows) :
    sortValues rows' = sortValues rows := by
  have hperm : (sortValues rows').Perm (sortValues rows) :=
    (List.mergeSort_perm _ _).trans (h.trans (List.mergeSort_perm _ _).symm)
  refine hperm.eq_of_pairwise (fun a b ha hb hab hba => ?_) (pairwise_sortValues rows')
    (pairwise_sortValues rows)
  have hkey := le_antisymm hab hba
  have ha := h.mem_iff.mp (List.mem_mergeSort.mp ha)
  exact (apart_of_names hnames).eq_of ha (List.mem_mergeSort.mp hb)
    (congrArg (fun k => (ofLex k).1) hkey) (congrArg (fun k => (ofLex k).2) hkey)

/-! ### Ranks -/

theorem decimalValue_zeros (k : Nat) (s : Text) :
    decimalValue (List.replicate k '0' ++ s) = decimalValue s := by
  induction k with
  | zero => rfl
  | succ k ih =>
    rw [← ih, List.replicate_succ, List.cons_append, decimalValue,
      List.filterMap_cons_some (show decimal? '0' = some 0 by decide)]
    exact congrArg (fun acc => List.foldl _ acc _) (by rfl)

/-- A curve id names a rank. -/
theorem curveIdText_injective : Function.Injective curveIdText := by
  intro a b h
  have hvalue := congrArg decimalValue (List.cons.inj h).2
  rw [decimalValue_zeros, decimalValue_zeros] at hvalue
  rwa [Experiments.Durations.decimalValue_decimal,
    Experiments.Durations.decimalValue_decimal] at hvalue

theorem summarizeConfigurations_ok {summary : List (SummaryRow F)}
    (h : summarizeConfigurations repr mean df metadata = .ok summary) :
    ∃ rows, measureColumns repr mean df metadata = .ok rows ∧
      summary = (numbered Measured.tool (sortValues rows)).map rankRow := by
  obtain ⟨rows, hrows, hsummary⟩ := Sequence.bind_eq_ok_iff.mp h
  exact ⟨rows, hrows, (Except.ok.inj hsummary).symm⟩

omit [LinearOrder F] in
theorem map_toMeasured_ranked (rows : List (Measured F)) :
    ((numbered Measured.tool rows).map rankRow).map SummaryRow.toMeasured = rows := by
  rw [List.map_map]
  exact map_fst_numberedFrom [] rows

/-- The rows of rank one are the first of their tools. -/
theorem selectBestConfigurations_eq {summary : List (SummaryRow F)}
    (h : summarizeConfigurations repr mean df metadata = .ok summary) :
    selectBestConfigurations summary = summary.filter fun row => row.rankWithinTool = 1 := by
  obtain ⟨rows, -, rfl⟩ := summarizeConfigurations_ok h
  have hsorted : ((numbered Measured.tool (sortValues rows)).map rankRow).Pairwise
      fun a b => decide (a.sortKey ≤ b.sortKey) = true := by
    have hpairs := pairwise_sortValues rows
    rw [← map_toMeasured_ranked (sortValues rows), List.pairwise_map] at hpairs
    exact hpairs.imp decide_eq_true
  have hnumbers : numbered (fun row : SummaryRow F => row.tool)
      ((numbered Measured.tool (sortValues rows)).map rankRow) =
        (numbered Measured.tool (sortValues rows)).map fun item => (rankRow item, item.2) := by
    have hmap := numberedFrom_map (fun row : SummaryRow F => row.tool) rankRow []
      (numbered Measured.tool (sortValues rows))
    have hagain := numberedFrom_numberedFrom Measured.tool [] (sortValues rows)
    refine hmap.trans ((congrArg (List.map (Prod.map rankRow id)) hagain).trans ?_)
    rw [List.map_map]
    rfl
  rw [selectBestConfigurations, List.mergeSort_of_pairwise hsorted, firstOfTool, hnumbers,
    List.filter_map, List.map_map, List.filter_map]
  refine congrArg (List.map rankRow) (List.filter_congr fun item _ => ?_)
  show decide (item.2 < 1) = decide (item.2 + 1 = 1)
  exact decide_eq_decide.mpr (by omega)

/-- What the ranks of a summary say. -/
structure RankedWithin (summary : List (SummaryRow F)) : Prop where
  /-- A rank counts the better configurations of the tool. -/
  rank : ∀ row ∈ summary, row.rankWithinTool =
    (better (fun row : SummaryRow F => row.tool) (fun row => row.cost) summary row).length + 1
  /-- The ranks of a tool go up from one without a gap. -/
  ranks : ∀ tool, (summary.filter fun row => row.tool = tool).map (·.rankWithinTool) =
    List.range' 1 (summary.filter fun row => row.tool = tool).length
  /-- A curve id names one configuration of a tool. -/
  curve : ∀ a ∈ summary, ∀ b ∈ summary, a.tool = b.tool → a.curveId = b.curveId → a = b
  /-- The best configurations are those that no other one of the tool undercuts. -/
  best : ∀ row, row ∈ selectBestConfigurations summary ↔
    Optimal (fun row : SummaryRow F => row.tool) (fun row => row.cost) summary row
  /-- Each tool has one. -/
  one : ∀ row ∈ summary, ∃! best, best ∈ selectBestConfigurations summary ∧ best.tool = row.tool

omit [LinearOrder F] in
/-- The numbers of the rows of a tool. -/
theorem ranks_of_tool (rows : List (Measured F)) (tool : Text) :
    (((numbered Measured.tool rows).map rankRow).filter fun row => row.tool = tool).map
        (·.rankWithinTool) =
      List.range' 1
        (((numbered Measured.tool rows).map rankRow).filter fun row => row.tool = tool).length := by
  have hnumbers := numbers_of_key Measured.tool [] rows tool
  have hranks : (((numbered Measured.tool rows).map rankRow).filter fun row => row.tool = tool).map
      (·.rankWithinTool) = List.range' 1 (ofKey Measured.tool rows tool).length := by
    rw [List.filter_map, List.map_map]
    have hsucc := congrArg (List.map (1 + ·)) hnumbers
    rw [List.map_add_range', List.map_map] at hsucc
    refine Eq.trans (List.map_congr_left fun item _ => ?_) hsucc
    exact Nat.add_comm item.2 1
  have hlength := congrArg List.length hranks
  rw [List.length_map, List.length_range'] at hlength
  rw [hranks, hlength]

theorem rankedWithin {summary : List (SummaryRow F)}
    (h : summarizeConfigurations repr mean df metadata = .ok summary) : RankedWithin summary := by
  obtain ⟨rows, hrows, hsummary⟩ := summarizeConfigurations_ok h
  have hnames : ((sortValues rows).map fun row => row.config.sourceColumn).Nodup := by
    refine ((List.mergeSort_perm rows _).map _).nodup_iff.mpr ?_
    rw [names_measureColumns hrows]
    exact nodup_metricColumns df
  have hapart : Apart Measured.tool Measured.cost (sortValues rows) := apart_of_names hnames
  have hmeasured : summary.map SummaryRow.toMeasured = sortValues rows := by
    rw [hsummary, map_toMeasured_ranked]
  have hrank : ∀ row ∈ summary, row.rankWithinTool =
      (better (fun row : SummaryRow F => row.tool) (fun row => row.cost) summary row).length + 1 := by
    intro row hrow
    have hmap := length_better_map Measured.tool Measured.cost
      SummaryRow.toMeasured summary row
    rw [hmeasured] at hmap
    rw [hsummary] at hrow
    obtain ⟨⟨m, n⟩, hitem, rfl⟩ := List.mem_map.mp hrow
    obtain ⟨-, hn⟩ := (mem_numbered_iff (ascending_of_sorted (pairwise_sortValues rows))
      hapart).mp hitem
    exact congrArg (· + 1) (hn.trans hmap.symm)
  have hranks := ranks_of_tool (sortValues rows)
  rw [← hsummary] at hranks
  have hbest : ∀ row, row ∈ selectBestConfigurations summary ↔
      Optimal (fun row : SummaryRow F => row.tool) (fun row => row.cost) summary row := by
    intro row
    rw [selectBestConfigurations_eq h, List.mem_filter, decide_eq_true_eq]
    constructor
    · rintro ⟨hrow, hone⟩
      rw [hrank row hrow] at hone
      exact (better_eq_nil_iff hrow).mp (List.length_eq_zero_iff.mp (by omega))
    · intro hoptimal
      refine ⟨hoptimal.1, ?_⟩
      rw [hrank row hoptimal.1, (better_eq_nil_iff hoptimal.1).mpr hoptimal]
      rfl
  have hapart' : Apart (fun row : SummaryRow F => row.tool) (fun row => row.cost) summary := by
    have hpairs := hapart
    rw [← hmeasured, Apart, List.pairwise_map] at hpairs
    exact hpairs
  have hcurve : ∀ a ∈ summary, ∀ b ∈ summary, a.tool = b.tool → a.curveId = b.curveId → a = b := by
    have hid : ∀ row ∈ summary, row.curveId = curveIdText row.rankWithinTool := by
      intro row hrow
      rw [hsummary] at hrow
      obtain ⟨item, -, rfl⟩ := List.mem_map.mp hrow
      rfl
    intro a ha b hb htool hcurve
    rw [hid a ha, hid b hb] at hcurve
    refine List.inj_on_of_nodup_map (f := fun row : SummaryRow F => row.rankWithinTool)
      (l := summary.filter fun row => row.tool = b.tool) ?_ ?_ ?_ (curveIdText_injective hcurve)
    · rw [hranks]
      exact List.nodup_range'
    · exact List.mem_filter.mpr ⟨ha, decide_eq_true htool⟩
    · exact List.mem_filter.mpr ⟨hb, decide_eq_true rfl⟩
  refine ⟨hrank, hranks, hcurve, hbest, fun row hrow => ?_⟩
  have hmem : 1 ∈ (summary.filter fun r => r.tool = row.tool).map (·.rankWithinTool) := by
    rw [hranks, List.mem_range'_1]
    have hpos : 0 < (summary.filter fun r => r.tool = row.tool).length :=
      List.length_pos_of_mem (List.mem_filter.mpr ⟨hrow, decide_eq_true rfl⟩)
    omega
  obtain ⟨best, hfiltered, hone⟩ := List.mem_map.mp hmem
  obtain ⟨hin, htool⟩ := List.mem_filter.mp hfiltered
  have hselected : best ∈ selectBestConfigurations summary := by
    rw [selectBestConfigurations_eq h]
    exact List.mem_filter.mpr ⟨hin, decide_eq_true hone⟩
  refine ⟨best, ⟨hselected, of_decide_eq_true htool⟩, fun other ⟨hother, hothertool⟩ => ?_⟩
  exact Optimal.unique hapart' ((hbest other).mp hother) ((hbest best).mp hselected)
    (hothertool.trans (of_decide_eq_true htool).symm)

/-- Two tables with the same columns in another order. -/
theorem get?_of_perm {V : Type} {d e : Dict Text V} (h : d.items.Perm e.items) (k : Text) :
    d.get? k = e.get? k := by
  refine Option.ext fun v => ?_
  rw [← Dict.mem_items_iff, ← Dict.mem_items_iff, h.mem_iff]

theorem columns_perm {summary : List (SummaryRow F)}
    (h : summarizeConfigurations repr mean df metadata = .ok summary) :
    (summary.map fun row => row.config.sourceColumn).Perm (metricColumns df) := by
  obtain ⟨rows, hrows, rfl⟩ := summarizeConfigurations_ok h
  have hmap := congrArg (List.map fun row : Measured F => row.config.sourceColumn)
    (map_toMeasured_ranked (sortValues rows))
  rw [List.map_map] at hmap
  refine (List.Perm.of_eq hmap).trans ?_
  rw [← names_measureColumns hrows]
  exact (List.mergeSort_perm rows _).map _

/-- The summary of a table: a row for each configuration, ranked as its tool demands, whatever
the order of the columns in the table. -/
theorem configurations_ranked {summary : List (SummaryRow F)}
    (h : summarizeConfigurations repr mean df metadata = .ok summary) :
    (summary.map fun row => row.config.sourceColumn).Perm (metricColumns df) ∧
      RankedWithin summary ∧
      ∀ df' : Frame F, df'.items.Perm df.items →
        summarizeConfigurations repr mean df' metadata = .ok summary := by
  obtain ⟨rows, hrows, hsummary⟩ := summarizeConfigurations_ok h
  have hnames := names_measureColumns hrows
  refine ⟨columns_perm h, rankedWithin h, fun df' hperm => ?_⟩
  have hcolumns : (metricColumns df').Perm (metricColumns df) := (hperm.map Prod.fst).filter _
  obtain ⟨rows', hrows', hrowsperm⟩ := Sequence.mapM_perm hcolumns hrows
  have hmeasure : measureColumns repr mean df' metadata = .ok rows' := by
    rw [← hrows']
    refine Sequence.mapM_congr fun column _ => ?_
    rw [get?_of_perm hperm]
  have hsort := sortValues_perm (hnames ▸ nodup_metricColumns df) hrowsperm
  rw [summarizeConfigurations, hmeasure, hsummary, ← hsort]
  rfl

/-- The stored metadata of a column. -/
def storedEntry (column tool : String) : StoredMetadata where
  sourceColumn := column.toList
  toolFamily := tool.toList
  comparisonTool := tool.toList
  sliced := false
  searcher := "all".toList
  symSize := "all".toList
  config := "var_pub".toList
  cvModel := "all".toList
  configurationLabel := "config=var_pub".toList
  rawSuffix? := none
  normalizedSuffix? := none

/-- One column of BINSEC and two of KLEE; the second of these finds less. -/
def threeColumns : Frame Nat :=
  Dict.setAll .empty
    [("binsec_var_pub".toList, [some 2, none]), ("klee_cf_8_var_pub".toList, [some 5, some 3]),
      ("klee_cf_4_var_pub".toList, [some 1, none])]

def threeEntries : Dict Text StoredMetadata :=
  Dict.setAll .empty
    [("binsec_var_pub".toList, storedEntry "binsec_var_pub" "binsec"),
      ("klee_cf_8_var_pub".toList, storedEntry "klee_cf_8_var_pub" "klee_cf"),
      ("klee_cf_4_var_pub".toList, storedEntry "klee_cf_4_var_pub" "klee_cf")]

/-- The mean of two whole seconds, rounded down. -/
def wholeMean (a b : Nat) : Nat := (a + b) / 2

def threeMeasured : List (Measured Nat) :=
  threeColumns.items.filterMap fun item => (threeEntries.get? item.1).map fun entry =>
    measure wholeMean (columnConfigurationFromMetadata item.1 entry) item.2

def threeRanked : List (SummaryRow Nat) := (numbered Measured.tool threeMeasured).map rankRow

theorem summarize_threeColumns :
    summarizeConfigurations id wholeMean threeColumns threeEntries = .ok threeRanked := by
  have hmeasure : measureColumns id wholeMean threeColumns threeEntries = .ok threeMeasured := rfl
  have hsorted : threeMeasured.Pairwise fun a b => decide (a.sortKey ≤ b.sortKey) = true := by
    decide
  rw [summarizeConfigurations, hmeasure]
  show Except.ok _ = Except.ok _
  rw [sortValues, List.mergeSort_of_pairwise hsorted]
  rfl

theorem configurations_ranked_threeColumns :
    (threeRanked.map fun row => (row.config.sourceColumn, row.rankWithinTool)) =
        [("binsec_var_pub".toList, 1), ("klee_cf_8_var_pub".toList, 1),
          ("klee_cf_4_var_pub".toList, 2)] ∧
      (threeRanked.map fun row => row.config.sourceColumn).Perm (metricColumns threeColumns) ∧
      RankedWithin threeRanked ∧
      ∀ df' : Frame Nat, df'.items.Perm threeColumns.items →
        summarizeConfigurations id wholeMean df' threeEntries = .ok threeRanked :=
  ⟨by decide, configurations_ranked summarize_threeColumns⟩

/-! ### The selection it proposes -/

section Proposal

variable (labels : Dict Text Text)

/-- `automatic_selection_summary` -/
def automaticSelectionSummary (bestSummary : List (SummaryRow F)) :
    List (Selected (SummaryRow F)) :=
  bestSummary.map fun row =>
    { row := row
      sourceColumn := row.config.sourceColumn
      comparisonTool := row.tool
      displayLabel := defaultDisplayLabel labels row.tool
      plotGroups := defaultPlotGroups row.tool row.config.toolFamily }

/-- `best_selection_table`, as the file that is written of it. -/
def bestSelectionTable (bestSummary : List (SummaryRow F)) : CsvFile where
  fieldnames := ["comparison_tool".toList, "source_column".toList, "display_label".toList]
  records := bestSummary.map fun row =>
    [row.tool, row.config.sourceColumn, defaultDisplayLabel labels row.tool]

end Proposal

/-- What `load_selection` passes to the reader. -/
def selectionOptions (repr : Text → Text) (labels : Dict Text Text) (path : Text)
    (summary : List (SummaryRow F)) : SelectionOptions (SummaryRow F) where
  labels := labels
  repr := repr
  path := path
  lookup := Dict.setAll .empty (summary.map fun row => (row.config.sourceColumn, row))
  comparisonTool := fun row => row.tool

/-- A record of the proposal. -/
def proposalRecord (labels : Dict Text Text) (row : SummaryRow F) : Record :=
  readRecord ["comparison_tool".toList, "source_column".toList, "display_label".toList]
    [row.tool, row.config.sourceColumn, defaultDisplayLabel labels row.tool]

theorem nodup_summary {summary : List (SummaryRow F)}
    (h : summarizeConfigurations repr mean df metadata = .ok summary) :
    (summary.map fun row => row.config.sourceColumn).Nodup :=
  (columns_perm h).nodup_iff.mpr (nodup_metricColumns df)

omit [LinearOrder F] in
theorem rows_bestSelectionTable (labels : Dict Text Text) (best : List (SummaryRow F)) :
    (bestSelectionTable labels best).rows = best.map (proposalRecord labels) := by
  have hne : ∀ record ∈ (bestSelectionTable labels best).records,
      decide (record ≠ []) = true := by
    intro record hrecord
    obtain ⟨row, -, rfl⟩ := List.mem_map.mp hrecord
    exact decide_eq_true (List.cons_ne_nil _ _)
  rw [CsvFile.rows, List.filter_eq_self.mpr hne, bestSelectionTable, List.map_map]
  refine List.map_congr_left fun row _ => ?_
  rw [Function.comp_apply, proposalRecord]

omit [LinearOrder F] in
/-- A row of the summary is found under its column. -/
theorem known_proposal {summary : List (SummaryRow F)} {labels : Dict Text Text} {path : Text}
    (hnames : (summary.map fun row => row.config.sourceColumn).Nodup) {row : SummaryRow F}
    (hrow : row ∈ summary) (hclean : Clean row.config.sourceColumn) :
    (selectionOptions repr labels path summary).known? (proposalRecord labels row) = some row := by
  show (Dict.setAll .empty _).get? (strip row.config.sourceColumn) = some row
  rw [hclean.1]
  refine Dict.get?_of_mem _ ?_
  rw [Dict.items_setAll_empty (by rwa [List.map_map])]
  exact List.mem_map.mpr ⟨row, hrow, rfl⟩

omit [LinearOrder F] in
/-- What a row of the proposal selects. -/
theorem select_proposal {summary : List (SummaryRow F)} {labels : Dict Text Text} {path : Text}
    {row : SummaryRow F} (htool : Clean row.tool) (hcolumn : Clean row.config.sourceColumn)
    (hlabel : Clean (defaultDisplayLabel labels row.tool)) :
    (selectionOptions repr labels path summary).select (proposalRecord labels row) row =
      { row := row
        sourceColumn := row.config.sourceColumn
        comparisonTool := row.tool
        displayLabel := defaultDisplayLabel labels row.tool
        plotGroups := [] } := by
  have hsource : columnOf (proposalRecord labels row) = row.config.sourceColumn := hcolumn.1
  have htoolOf : toolOf (proposalRecord labels row) = row.tool := htool.1
  have hstrip : strip (fieldText (proposalRecord labels row) "display_label".toList) =
      defaultDisplayLabel labels row.tool := hlabel.1
  rw [SelectionOptions.select, hsource, htoolOf]
  simp only [hstrip, if_neg hlabel.2]
  rfl

theorem pairwise_best {summary : List (SummaryRow F)}
    (h : summarizeConfigurations repr mean df metadata = .ok summary) :
    (selectBestConfigurations summary).Pairwise fun a b => a.tool ≠ b.tool := by
  have hranked := rankedWithin h
  have hnodup : (selectBestConfigurations summary).Nodup := by
    rw [selectBestConfigurations_eq h]
    exact (List.Nodup.of_map _ (nodup_summary h)).filter _
  refine hnodup.pairwise_of_forall_ne fun a ha b hb hne htool => hne ?_
  obtain ⟨best, -, hunique⟩ := hranked.one a ((hranked.best a).mp ha).1
  exact (hunique a ⟨ha, rfl⟩).trans (hunique b ⟨hb, htool.symm⟩).symm

/-- The proposal, given back as the selection of a later run, is accepted and selects what the
program selects without one: the best configuration of each tool under its configured label.
Only the plots it appears in are lost. -/
theorem best_selection_read_back (pyStr : Value → Text) (payload : Option Object) (path : Text)
    {summary : List (SummaryRow F)}
    (h : summarizeConfigurations repr mean df metadata = .ok summary)
    (hclean : ∀ row ∈ summary, Clean row.tool ∧ Clean row.config.sourceColumn) :
    (selectionOptions repr (configuredDisplayLabels pyStr payload) path
        summary).loadSelectedConfigurations
        (bestSelectionTable (configuredDisplayLabels pyStr payload)
          (selectBestConfigurations summary)) =
      .ok ((automaticSelectionSummary (configuredDisplayLabels pyStr payload)
        (selectBestConfigurations summary)).map fun s => { s with plotGroups := [] }, []) := by
  generalize hlabels : configuredDisplayLabels pyStr payload = labels
  have hlabel : ∀ row : SummaryRow F, Clean row.tool →
      Clean (defaultDisplayLabel labels row.tool) := by
    intro row htool
    rw [← hlabels]
    exact clean_defaultDisplayLabel pyStr htool
  have hin : ∀ row ∈ selectBestConfigurations summary, row ∈ summary :=
    fun row hrow => ((rankedWithin h).best row).mp hrow |>.1
  have hknown : ∀ row ∈ selectBestConfigurations summary,
      (selectionOptions repr labels path summary).known? (proposalRecord labels row) = some row :=
    fun row hrow => known_proposal (nodup_summary h) (hin row hrow) (hclean row (hin row hrow)).2
  have hrows := rows_bestSelectionTable labels (selectBestConfigurations summary)
  refine (load_eq_ok_iff _ _ _ _).mpr ⟨⟨?_, ?_⟩, ?_, ?_⟩
  · show requiredColumns ⊆ ["comparison_tool".toList, "source_column".toList,
      "display_label".toList]
    decide
  · rw [hrows]
    refine ⟨fun record hrecord => ?_, ?_⟩
    · obtain ⟨row, hrow, rfl⟩ := List.mem_map.mp hrecord
      obtain ⟨htool, hcolumn⟩ := hclean row (hin row hrow)
      have htoolOf : toolOf (proposalRecord labels row) = row.tool := htool.1
      have hsource : columnOf (proposalRecord labels row) = row.config.sourceColumn := hcolumn.1
      refine ⟨htoolOf ▸ htool.2, hsource ▸ hcolumn.2, fun row' hrow' => ?_⟩
      rw [hknown row hrow] at hrow'
      rw [← Option.some.inj hrow']
      rfl
    · refine List.pairwise_map.mpr ((pairwise_best h).imp_of_mem fun ha hb hne _ => ?_)
      have htoolOf : ∀ row : SummaryRow F, toolOf (proposalRecord labels row) = strip row.tool :=
        fun _ => rfl
      rwa [htoolOf, htoolOf, (hclean _ (hin _ ha)).1.1, (hclean _ (hin _ hb)).1.1]
  · rw [hrows, automaticSelectionSummary, List.map_map, SelectionOptions.selection,
      List.filterMap_map, ← List.filterMap_eq_map]
    refine List.filterMap_congr fun row hrow => ?_
    obtain ⟨htool, hcolumn⟩ := hclean row (hin row hrow)
    rw [Function.comp_apply, Function.comp_apply, Function.comp_apply, hknown row hrow,
      Option.map_some, select_proposal htool hcolumn (hlabel row htool)]
  · rw [hrows, SelectionOptions.unknown, List.filter_eq_nil_iff.mpr]
    · rfl
    · intro record hrecord
      obtain ⟨row, hrow, rfl⟩ := List.mem_map.mp hrecord
      rw [hknown row hrow]
      exact Bool.false_ne_true

theorem best_selection_read_back_threeColumns :
    (selectionOptions id (configuredDisplayLabels (fun _ => []) none) [] threeRanked
        ).loadSelectedConfigurations
        (bestSelectionTable (configuredDisplayLabels (fun _ => []) none)
          (selectBestConfigurations threeRanked)) =
      .ok ((automaticSelectionSummary (configuredDisplayLabels (fun _ => []) none)
        (selectBestConfigurations threeRanked)).map fun s => { s with plotGroups := [] }, []) :=
  best_selection_read_back (fun _ => []) none [] summarize_threeColumns (by decide)

end Summary

/-! ### Grouped plots -/

/-- The names of the groups of a selected configuration. -/
def plotGroupsOf {R : Type} (s : Selected R) : List Text :=
  let normalizedGroups := normalizePlotGroups s.plotGroups
  if normalizedGroups = [] then [] else normalizedGroups.splitOn '|'

/-- `selected_plot_groups` -/
def selectedPlotGroups {R : Type} (selection : List (Selected R)) :
    Dict Text (List (Selected R)) :=
  (Dict.group Prod.fst (selection.flatMap fun s => (plotGroupsOf s).map (·, s))).mapValues
    (List.map Prod.snd)

theorem plotGroupsOf_eq {R : Type} (s : Selected R) :
    plotGroupsOf s = normalizedGroups s.plotGroups := by
  have hnormalized := normalized_normalizedGroups s.plotGroups
  unfold plotGroupsOf normalizePlotGroups
  cases hgroups : normalizedGroups s.plotGroups with
  | nil => rfl
  | cons group rest =>
    rw [hgroups] at hnormalized
    have hne : join ['|'] (group :: rest) ≠ [] :=
      join_ne_nil (hnormalized.clean group List.mem_cons_self).2
    simp only [if_neg hne]
    exact List.splitOn_intercalate '|' (fun name hname => (hnormalized.unseparated name hname).1)
      (List.cons_ne_nil group rest)

/-- The pairs of a group. -/
theorem filter_plotGroups {R : Type} (selection : List (Selected R)) (group : Text) :
    (selection.flatMap fun s => (plotGroupsOf s).map (·, s)).filter (·.1 = group) =
      (selection.filter fun s => group ∈ normalizedGroups s.plotGroups).map (group, ·) := by
  induction selection with
  | nil => rfl
  | cons s selection ih =>
    have hone : ((plotGroupsOf s).map (·, s)).filter (·.1 = group) =
        if group ∈ normalizedGroups s.plotGroups then [(group, s)] else [] := by
      rw [plotGroupsOf_eq, List.filter_map]
      have hnodup := (normalized_normalizedGroups s.plotGroups).nodup
      have hfilter : (normalizedGroups s.plotGroups).filter
          ((fun pair : Text × Selected R => decide (pair.1 = group)) ∘ (·, s)) =
            List.replicate ((normalizedGroups s.plotGroups).count group) group :=
        List.filter_eq group
      rw [hfilter]
      split
      · next hmem => rw [List.count_eq_one_of_mem hnodup hmem]; rfl
      · next hmem => rw [List.count_eq_zero_of_not_mem hmem]; rfl
    rw [List.flatMap_cons, List.filter_append, hone, ih, List.filter_cons]
    by_cases hmem : group ∈ normalizedGroups s.plotGroups
    · rw [if_pos hmem, if_pos (decide_eq_true hmem)]
      rfl
    · rw [if_neg hmem, if_neg (by simpa using hmem)]
      rfl

/-- A grouped plot compares the configurations that name its group, in the order in which they
were selected; there is a plot for each group that one of them names. -/
theorem grouped_selection {R : Type} (selection : List (Selected R)) (group : Text) :
    (selectedPlotGroups selection).get? group =
      if ∀ s ∈ selection, group ∉ normalizedGroups s.plotGroups then none
      else some (selection.filter fun s => group ∈ normalizedGroups s.plotGroups) := by
  have hnil : (selection.filter fun s => group ∈ normalizedGroups s.plotGroups).map (group, ·) = []
      ↔ ∀ s ∈ selection, group ∉ normalizedGroups s.plotGroups := by
    rw [List.map_eq_nil_iff, List.filter_eq_nil_iff]
    exact forall₂_congr fun s _ => by rw [decide_eq_true_eq]
  rw [selectedPlotGroups, Dict.get?_mapValues, Dict.get?_group, filter_plotGroups]
  by_cases hnone : ∀ s ∈ selection, group ∉ normalizedGroups s.plotGroups
  · rw [if_pos (hnil.mpr hnone), if_pos hnone]
    rfl
  · rw [if_neg fun h => hnone (hnil.mp h), if_neg hnone, Option.map_some, List.map_map]
    exact congrArg some (List.map_id _)

end Selection

end KleeDeps.Postprocess
