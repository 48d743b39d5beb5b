import Mathlib.Algebra.BigOperators.Group.Finset.Piecewise
import KleeDeps.Data.OuterJoin
import KleeDeps.Postprocess.ConfigurationSummary
import KleeDeps.Postprocess.Pooling

/-!
# The tables of the reproduction summary

`summarize_reproduction_status.py` counts each finding three times: for its configuration, for the
library, and for the library with its target and the kind of the finding. It then chooses one
configuration per tool and prints their counts in two tables.

- `balanced_collect`: the three counts agree at the end of every run;
- `automatic_selection`: **what is chosen is the best configuration of each tool, and does not
  depend on the order of the rows**;
- `tables_conserve`: **both tables account for every finding that was counted**.
-/

namespace KleeDeps.Postprocess

open Py Shared Replay

/-! ## The three counts -/

/-- The findings of one target in a bucket, of both kinds. -/
def ConfigurationCounts.atTarget (counts : ConfigurationCounts) (p : Text × Text)
    (bucket : Bucket) : Nat :=
  counts.byTarget p .branch bucket + counts.byTarget p .memory bucket

/-- The counts of a configuration agree. -/
structure ConfigurationCounts.Balanced (counts : ConfigurationCounts) : Prop where
  outside : ∀ p ∉ counts.observed, ∀ bucket, counts.atTarget p bucket = 0
  library : ∀ library bucket, counts.byLibrary library bucket =
    ∑ p ∈ counts.observed.toFinset with p.1 = library, counts.atTarget p bucket
  total : ∀ bucket, counts.total bucket =
    ∑ p ∈ counts.observed.toFinset, counts.atTarget p bucket

theorem addOne_apply {α : Type} [DecidableEq α] (counts : α → Nat) (a b : α) :
    addOne counts a b = counts b + if b = a then 1 else 0 := by
  rw [addOne, Function.update_apply]
  split
  · next h => rw [h]
  · rfl

theorem atTarget_count (counts : ConfigurationCounts) (library target : Text)
    (kind : DivergenceKind) (bucket : Bucket) (p : Text × Text) (b : Bucket) :
    (counts.count library target kind bucket).atTarget p b =
      counts.atTarget p b + if p = (library, target) then if b = bucket then 1 else 0 else 0 := by
  rw [ConfigurationCounts.atTarget, ConfigurationCounts.atTarget, ConfigurationCounts.count]
  dsimp only
  by_cases hp : p = (library, target)
  · subst hp
    rw [Function.update_self, if_pos rfl]
    cases kind
    · rw [Function.update_self, Function.update_of_ne (by decide), addOne_apply]
      omega
    · rw [Function.update_self, Function.update_of_ne (by decide), addOne_apply]
      omega
  · rw [Function.update_of_ne hp, if_neg hp, Nat.add_zero]

theorem observed_count (counts : ConfigurationCounts) (library target : Text)
    (kind : DivergenceKind) (bucket : Bucket) :
    (counts.count library target kind bucket).observed = counts.observed := rfl

/-- **Step lemma**: a row of an observed target keeps the balance. -/
theorem ConfigurationCounts.Balanced.count {counts : ConfigurationCounts} (h : counts.Balanced)
    {library target : Text} (hobserved : (library, target) ∈ counts.observed)
    (kind : DivergenceKind) (bucket : Bucket) :
    (counts.count library target kind bucket).Balanced := by
  have hmem : (library, target) ∈ counts.observed.toFinset := List.mem_toFinset.mpr hobserved
  refine ⟨fun p hp b => ?_, fun other b => ?_, fun b => ?_⟩
  · have hne : p ≠ (library, target) := by
      rintro rfl
      exact hp hobserved
    rw [atTarget_count, h.outside p hp, if_neg hne]
  · simp only [atTarget_count, observed_count]
    rw [Finset.sum_add_distrib, Finset.sum_ite_eq', ← h.library]
    show Function.update counts.byLibrary library (addOne (counts.byLibrary library) bucket) other
      b = _
    by_cases hother : other = library
    · subst hother
      have hin : (other, target) ∈ counts.observed.toFinset.filter fun p => p.1 = other :=
        Finset.mem_filter.mpr ⟨hmem, rfl⟩
      rw [Function.update_self, addOne_apply, if_pos hin]
    · rw [Function.update_of_ne hother, if_neg fun hin =>
        hother (Finset.mem_filter.mp hin).2.symm, Nat.add_zero]
  · simp only [atTarget_count, observed_count]
    rw [Finset.sum_add_distrib, Finset.sum_ite_eq', if_pos hmem, ← h.total]
    exact addOne_apply counts.total bucket b

/-- Observing a target changes no count. -/
theorem ConfigurationCounts.Balanced.observe {counts : ConfigurationCounts} (h : counts.Balanced)
    (p : Text × Text) : { counts with observed := counts.observed ++ [p] }.Balanced := by
  have hsub : counts.observed.toFinset ⊆ (counts.observed ++ [p]).toFinset := by
    intro q hq
    exact List.mem_toFinset.mpr (List.mem_append_left _ (List.mem_toFinset.mp hq))
  have hzero : ∀ q, q ∉ counts.observed.toFinset → ∀ bucket, counts.atTarget q bucket = 0 :=
    fun q hq => h.outside q fun hin => hq (List.mem_toFinset.mpr hin)
  refine ⟨fun q hq => h.outside q fun hin => hq (List.mem_append_left _ hin),
    fun library bucket => (h.library library bucket).trans ?_,
    fun bucket => (h.total bucket).trans (Finset.sum_subset hsub fun q _ hq => hzero q hq bucket)⟩
  refine Finset.sum_subset (Finset.filter_subset_filter _ hsub) fun q hin hq => hzero q ?_ bucket
  exact fun hobserved => hq (Finset.mem_filter.mpr ⟨hobserved, (Finset.mem_filter.mp hin).2⟩)

section Collecting

variable {F : Type} {readers : Readers F} {options : SummaryOptions}

theorem balanced_countRow {path : Text} {sliced : Bool} {library target : Text}
    {counts counts' : ConfigurationCounts} {rowNumber : Nat} {row : Object}
    (h : countRow readers options path sliced library target counts rowNumber row = .ok counts')
    (hobserved : (library, target) ∈ counts.observed) (hbalanced : counts.Balanced) :
    (library, target) ∈ counts'.observed ∧ counts'.Balanced := by
  rcases countRow_cases h with ⟨-, rfl⟩ | ⟨_, _, _, bucket, kind, -, -, rfl⟩
  · exact ⟨hobserved, hbalanced⟩
  · exact ⟨hobserved, hbalanced.count hobserved kind bucket⟩

/-- **Run lemma** of the inner loop. -/
theorem balanced_countRows {path : Text} {sliced : Bool} {library target : Text}
    {rows : List Object} {counts counts' : ConfigurationCounts} {rowNumber : Nat}
    (h : countRows readers options path sliced library target counts rowNumber rows = .ok counts')
    (hobserved : (library, target) ∈ counts.observed) (hbalanced : counts.Balanced) :
    counts'.Balanced := by
  induction rows generalizing counts rowNumber with
  | nil =>
    obtain rfl := Except.ok.inj h
    exact hbalanced
  | cons row rest ih =>
    unfold countRows at h
    obtain ⟨next, hnext, h⟩ := Sequence.bind_eq_ok_iff.mp h
    obtain ⟨hobserved, hbalanced⟩ := balanced_countRow hnext hobserved hbalanced
    exact ih h hobserved hbalanced

/-- Every configuration of the summary balances. -/
def AllBalanced (summary : Dict Text ConfigurationCounts) : Prop :=
  ∀ name counts, summary.get? name = some counts → counts.Balanced

/-- **Step lemma** of the outer loop. -/
theorem allBalanced_collectPayload {run : RunMetadata} {file : Text × Value}
    {summary summary' : Dict Text ConfigurationCounts}
    (h : collectPayload readers options run summary file = .ok summary')
    (hall : AllBalanced summary) : AllBalanced summary' := by
  unfold collectPayload at h
  obtain ⟨⟨rows, metadata⟩, -, h⟩ := Sequence.bind_eq_ok_iff.mp h
  dsimp only at h
  split at h
  · cases h
  · obtain ⟨column, -, h⟩ := Sequence.bind_eq_ok_iff.mp h
    split at h
    · cases h
    · next library _ =>
      obtain ⟨after, hafter, h⟩ := Sequence.bind_eq_ok_iff.mp h
      obtain rfl := Except.ok.inj h
      intro name counts hget
      by_cases hname : column.sourceColumn = name
      · rw [hname, Dict.get?_set_self] at hget
        obtain rfl := Option.some.inj hget
        refine balanced_countRows hafter
          (List.mem_append_right _ (List.mem_singleton_self _)) (.observe ?_ _)
        -- a configuration that is new has counted nothing
        cases hold : summary.get? column.sourceColumn with
        | none => exact ⟨fun _ _ _ => rfl, fun _ _ => rfl, fun _ => rfl⟩
        | some old => exact hall _ old hold
      · rw [Dict.get?_set_of_ne _ hname] at hget
        exact hall name counts hget

/-- At the end of a run the three counts of every configuration agree. -/
theorem balanced_collect {runs : List ResultRun} {summary : Dict Text ConfigurationCounts}
    (h : collectReproductionStatusCounts readers options runs = .ok summary) :
    AllBalanced summary :=
  Sequence.foldlM_ok_induction (fun _ summary => AllBalanced summary)
    (overRuns_ok (collectReproductionStatusCounts_ok h)) []
    (fun _ _ hget => by cases hget)
    fun _ _ _ _ _ hdone hstep => allBalanced_collectPayload hstep hdone

end Collecting

namespace SummaryTables

open Selection BestByKey

/-! ## The rows of the summary -/

/-- `STATUS_COLUMNS` -/
def statusColumns : List Bucket := allStatuses.map .status ++ [.inconsistent]

/-- The name of a status column. -/
def bucketName : Bucket → Text
  | .status s => statusToken s
  | .inconsistent => "inconsistent_across_repetitions".toList

/-- A row of `_build_summary_rows`. -/
structure SummaryLine where
  configuration : Text
  configurationLabel : Text
  comparisonTool : Text
  toolFamily : Text
  sliced : Bool
  searcher : Text
  symSize : Text
  config : Text
  cvModel : Text
  counts : Bucket → Nat
  totalFilteredPositives : Nat

/-- The row of a configuration. -/
def summaryLine (configuration : Text) (counts : ConfigurationCounts) : SummaryLine where
  configuration := configuration
  configurationLabel := counts.metadata.configurationLabel
  comparisonTool := counts.metadata.comparisonTool
  toolFamily := counts.metadata.toolFamily
  sliced := counts.metadata.sliced
  searcher := counts.metadata.searcher
  symSize := counts.metadata.symSize
  config := counts.metadata.config
  cvModel := counts.metadata.cvModel
  counts := counts.total
  totalFilteredPositives := (statusColumns.map counts.total).sum

/-- `_build_summary_rows` -/
def buildSummaryRows (summary : Dict Text ConfigurationCounts) : List SummaryLine :=
  summary.items.map fun item => summaryLine item.1 item.2

/-! ## The automatic selection -/

section Automatic

variable {F : Type} [LinearOrder F] [Zero F] (finiteFloat : Text → Option F)

/-- `_parse_positive_time`; `finiteFloat` is `float` where that gives a finite number. -/
def parsePositiveTime (rawValue : Option Text) : Option F :=
  match rawValue with
  | none => none
  | some raw =>
    if strip raw = [] then none
    else
      match finiteFloat (strip raw) with
      | none => none
      | some value => if 0 < value then some value else none

/-- What a row does to `last_times[configuration]`, which starts below every number. -/
def raiseLastTime (configuration : Text) (lastTime : WithBot F) (row : Selection.Record) :
    WithBot F :=
  match parsePositiveTime finiteFloat ((row.get? configuration).join) with
  | none => lastTime
  | some parsedTime => if lastTime < parsedTime then parsedTime else lastTime

/-- `finalized_last_times`: no time counts as the latest of all. -/
def finalizeLastTime : WithBot F → WithTop F
  | none => ⊤
  | some time => some time

/-- `_load_last_times_by_configuration`: the first of the candidate files that exists, has a
header and a column of one of the configurations. -/
def loadLastTimesByConfiguration (configurations : List Text) (candidates : List (Option CsvFile))
    (configuration : Text) : WithTop F :=
  match (candidates.filterMap id).find? fun file =>
      file.fieldnames ≠ [] ∧ configurations.any (· ∈ file.fieldnames) with
  | none => ⊤
  | some file =>
    if configuration ∈ file.fieldnames then
      finalizeLastTime (file.rows.foldl (raiseLastTime finiteFloat configuration) ⊥)
    else ⊤

/-- What the loop keeps of a tool. -/
structure Best (F : Type) where
  total : Nat
  lastTime : WithTop F
  sourceColumn : Text
  selectedRow : Selected SummaryLine

variable (labels : Dict Text Text) (lastTimes : Text → WithTop F)

/-- What a row offers. -/
def offer (row : SummaryLine) : Best F :=
  let sourceColumn := strip row.configuration
  let comparisonTool := strip row.comparisonTool
  { total := row.totalFilteredPositives
    lastTime := lastTimes sourceColumn
    sourceColumn := sourceColumn
    selectedRow :=
      { row := row
        sourceColumn := sourceColumn
        comparisonTool := row.comparisonTool
        displayLabel := defaultDisplayLabel labels comparisonTool
        plotGroups := defaultPlotGroups comparisonTool (strip row.toolFamily) } }

/-- `should_replace` -/
def shouldReplace (new previous : Best F) : Bool :=
  decide (previous.total < new.total) ||
    decide (new.total = previous.total ∧ new.lastTime < previous.lastTime) ||
    decide (new.total = previous.total ∧ new.lastTime = previous.lastTime ∧
      new.sourceColumn < previous.sourceColumn)

/-- The body of the loop over the rows. -/
def keepOffer (bestByTool : Dict Text (Best F)) (row : SummaryLine) : Dict Text (Best F) :=
  let comparisonTool := strip row.comparisonTool
  let new := offer labels lastTimes row
  match bestByTool.get? comparisonTool with
  | none => bestByTool.set comparisonTool new
  | some previous =>
    if shouldReplace new previous then bestByTool.set comparisonTool new else bestByTool

/-- `_automatic_selected_configurations`, given the last times. -/
def automaticSelectedConfigurations (rows : List SummaryLine) : List (Selected SummaryLine) :=
  (rows.foldl (keepOffer labels lastTimes) .empty).items.map fun item => item.2.selectedRow

/-- What a tool's configurations are ordered by: most findings, then the earliest last time, then
the name. -/
def Best.cost (b : Best F) : Nat ᵒᵈ ×ₗ WithTop F ×ₗ Text :=
  toLex (OrderDual.toDual b.total, toLex (b.lastTime, b.sourceColumn))

omit [Zero F] in
theorem shouldReplace_iff (new previous : Best F) :
    shouldReplace new previous = true ↔ new.cost < previous.cost := by
  rw [Best.cost, Best.cost, Prod.Lex.toLex_lt_toLex, Prod.Lex.toLex_lt_toLex]
  simp only [shouldReplace, Bool.or_eq_true, decide_eq_true_eq, OrderDual.toDual_lt_toDual,
    OrderDual.toDual_inj]
  tauto

omit [Zero F] in
/-- The loop keeps the best offer of each tool. -/
theorem keepOffer_eq (bestByTool : Dict Text (Best F)) (row : SummaryLine) :
    keepOffer labels lastTimes bestByTool row =
      keep (fun b : Best F => strip b.selectedRow.comparisonTool) Best.cost bestByTool
        (offer labels lastTimes row) := by
  have htool : strip (offer labels lastTimes row).selectedRow.comparisonTool =
      strip row.comparisonTool := rfl
  rw [keepOffer, keep]
  simp only [shouldReplace_iff, htool]
  cases bestByTool.get? (strip row.comparisonTool) <;> rfl

omit [Zero F] in
theorem automaticSelectedConfigurations_eq (rows : List SummaryLine) :
    automaticSelectedConfigurations labels lastTimes rows =
      ((best (fun b : Best F => strip b.selectedRow.comparisonTool) Best.cost
        (rows.map (offer labels lastTimes))).items.map Prod.snd).map Best.selectedRow := by
  rw [automaticSelectedConfigurations, best, List.foldl_map, List.map_map]
  simp only [← keepOffer_eq]
  rfl

omit [LinearOrder F] [Zero F] in
theorem apart_offers {rows : List SummaryLine}
    (h : (rows.map fun row => strip row.configuration).Nodup) :
    Apart (fun b : Best F => strip b.selectedRow.comparisonTool) Best.cost
      (rows.map (offer labels lastTimes)) := by
  refine List.pairwise_map.mpr ((List.pairwise_map.mp h).imp fun hne _ hcost => hne ?_)
  have hname := congrArg (fun c => (ofLex (ofLex c).2).2) hcost
  exact hname

/-- The greatest positive time of a column. -/
theorem foldl_raiseLastTime (configuration : Text) (rows : List Selection.Record) :
    rows.foldl (raiseLastTime finiteFloat configuration) ⊥ =
      (rows.filterMap fun row =>
        parsePositiveTime finiteFloat ((row.get? configuration).join)).maximum := by
  refine Sequence.foldl_induction (f := raiseLastTime finiteFloat configuration)
    (fun done lastTime => lastTime = (done.filterMap fun row =>
      parsePositiveTime finiteFloat ((row.get? configuration).join)).maximum) (s := ⊥) [] rfl ?_ rows
  rintro done row _ rfl
  rw [List.filterMap_append, raiseLastTime, List.filterMap_cons, List.filterMap_nil]
  cases parsePositiveTime finiteFloat ((row.get? configuration).join) with
  | none => rw [List.append_nil]
  | some time =>
    dsimp only
    rw [List.maximum_concat]
    split
    · next hless => exact (max_eq_right hless.le).symm
    · next hnot => exact (max_eq_left (not_lt.mp hnot)).symm

/-- The order of the configurations does not matter. -/
theorem loadLastTimes_perm {configurations configurations' : List Text}
    (h : configurations'.Perm configurations) (candidates : List (Option CsvFile)) :
    loadLastTimesByConfiguration finiteFloat configurations' candidates =
      loadLastTimesByConfiguration finiteFloat configurations candidates := by
  have hany : ∀ file : CsvFile, configurations'.any (· ∈ file.fieldnames) =
      configurations.any (· ∈ file.fieldnames) := fun file => h.any_eq
  funext configuration
  simp only [loadLastTimesByConfiguration, hany]

omit [Zero F] in
/-- The best offers, for any last times. -/
theorem selection_of_times (rows : List SummaryLine) :
    (automaticSelectedConfigurations labels lastTimes rows).map
        (fun s => strip s.comparisonTool) =
      (rows.map fun row => strip row.comparisonTool).eraseDups ∧
    (∀ s ∈ automaticSelectedConfigurations labels lastTimes rows,
      ∃ row ∈ rows, s = (offer labels lastTimes row).selectedRow ∧
        ∀ other ∈ rows, strip other.comparisonTool = strip row.comparisonTool →
          (offer labels lastTimes row).cost ≤ (offer labels lastTimes other).cost) ∧
    ((rows.map fun row => strip row.configuration).Nodup → ∀ rows' : List SummaryLine,
      rows'.Perm rows → (automaticSelectedConfigurations labels lastTimes rows').Perm
        (automaticSelectedConfigurations labels lastTimes rows)) := by
  simp only [automaticSelectedConfigurations_eq]
  refine ⟨?_, fun s hs => ?_, fun hnames rows' hperm => ?_⟩
  · have hkeys := map_key_values_best (fun b : Best F => strip b.selectedRow.comparisonTool)
      Best.cost (rows.map (offer labels lastTimes))
    rw [List.map_map]
    rw [List.map_map (f := offer labels lastTimes)] at hkeys
    exact hkeys
  · obtain ⟨b, hb, rfl⟩ := List.mem_map.mp hs
    rw [values_best, List.mem_filterMap] at hb
    obtain ⟨tool, -, hmin⟩ := hb
    obtain ⟨hmem, rfl⟩ := mem_ofKey.mp (List.argmin_mem hmin)
    obtain ⟨row, hrow, rfl⟩ := List.mem_map.mp hmem
    refine ⟨row, hrow, rfl, fun other hother htool => ?_⟩
    exact List.le_of_mem_argmin
      (mem_ofKey.mpr ⟨List.mem_map.mpr ⟨other, hother, rfl⟩, htool⟩) hmin
  · exact (values_best_perm (hperm.map _) (apart_offers labels lastTimes hnames)).map _

/-- `_automatic_selected_configurations` -/
def automaticSelection (candidates : List (Option CsvFile)) (rows : List SummaryLine) :
    List (Selected SummaryLine) :=
  automaticSelectedConfigurations labels
    (loadLastTimesByConfiguration finiteFloat (rows.map fun row => strip row.configuration)
      candidates) rows

/-- A row is best of its tool: no other row of the tool has more findings, or as many and an
earlier last time, or as many and the same last time and an earlier name. -/
def BestOfTool (lastTimes : Text → WithTop F) (rows : List SummaryLine) (row : SummaryLine) :
    Prop :=
  row ∈ rows ∧ ∀ other ∈ rows, strip other.comparisonTool = strip row.comparisonTool →
    (offer labels lastTimes row).cost ≤ (offer labels lastTimes other).cost

/-- What is chosen without a selection file: one configuration per tool, in the order in which the
tools appear in the summary; each is the best of its tool, by the last times of the first merged
table that has one of the configurations; and where the names differ, another order of the rows
chooses the same ones. -/
theorem automatic_selection (candidates : List (Option CsvFile)) (rows : List SummaryLine) :
    (automaticSelection finiteFloat labels candidates rows).map
        (fun s => strip s.comparisonTool) =
      (rows.map fun row => strip row.comparisonTool).eraseDups ∧
    (∀ s ∈ automaticSelection finiteFloat labels candidates rows,
      BestOfTool labels (loadLastTimesByConfiguration finiteFloat
        (rows.map fun row => strip row.configuration) candidates) rows s.row ∧
      s.displayLabel = defaultDisplayLabel labels (strip s.row.comparisonTool)) ∧
    (∀ configurations file configuration, configuration ∈ file.fieldnames →
      ((candidates.filterMap id).find? fun file =>
        file.fieldnames ≠ [] ∧ configurations.any (· ∈ file.fieldnames)) = some file →
      loadLastTimesByConfiguration finiteFloat configurations candidates configuration =
        finalizeLastTime (file.rows.filterMap fun row =>
          parsePositiveTime finiteFloat ((row.get? configuration).join)).maximum) ∧
    ((rows.map fun row => strip row.configuration).Nodup → ∀ rows' : List SummaryLine,
      rows'.Perm rows → (automaticSelection finiteFloat labels candidates rows').Perm
        (automaticSelection finiteFloat labels candidates rows)) := by
  obtain ⟨htools, hbest, hperm⟩ := selection_of_times labels
    (loadLastTimesByConfiguration finiteFloat (rows.map fun row => strip row.configuration)
      candidates) rows
  refine ⟨htools, fun s hs => ?_, fun configurations file configuration hin hfound => ?_,
    fun hnames rows' hrows => ?_⟩
  · obtain ⟨row, hrow, rfl, hle⟩ := hbest s hs
    exact ⟨⟨hrow, hle⟩, rfl⟩
  · rw [loadLastTimesByConfiguration, hfound]
    dsimp only
    rw [if_pos hin, foldl_raiseLastTime]
  · rw [automaticSelection, automaticSelection, loadLastTimes_perm finiteFloat (hrows.map _)]
    exact hperm hnames rows' hrows

end Automatic

/-! ## The tables of the selection -/

/-- A row of `_selected_rows_from_configurations`. -/
structure SelectedRow where
  configuration : Text
  counts : Bucket → Nat
  total : Nat

/-- `_selected_rows_from_configurations` -/
def selectedRowsFromConfigurations (selected : List (Selected SummaryLine)) : List SelectedRow :=
  selected.map fun s =>
    { configuration := s.displayLabel
      counts := s.row.counts
      total := (statusColumns.map s.row.counts).sum }

/-- `_nonzero_status_columns` -/
def nonzeroStatusColumns (selectedRows : List SelectedRow) : List Bucket :=
  statusColumns.filter fun status => selectedRows.any fun row => row.counts status ≠ 0

/-- The header of the best-of table. -/
def selectedFieldnames (selectedRows : List SelectedRow) : List Text :=
  "configuration".toList ::
    ((nonzeroStatusColumns selectedRows).map bucketName ++ ["total".toList])

/-- The record of a row of the best-of table. -/
def selectedRecord (selectedRows : List SelectedRow) (row : SelectedRow) : List Text :=
  row.configuration ::
    ((nonzeroStatusColumns selectedRows).map (fun status => decimal (row.counts status)) ++
      [decimal row.total])

/-- The variables of the loop of `_build_unique_display_labels`. -/
structure Labelling where
  renameMap : Dict Text Text
  labelCounts : Dict Text Nat

/-- The body of that loop. -/
def Labelling.add (labelling : Labelling) (s : Selected SummaryLine) : Labelling :=
  let count := (labelling.labelCounts.get? s.displayLabel).getD 0 + 1
  { renameMap := labelling.renameMap.set s.sourceColumn
      (if count = 1 then s.displayLabel
        else s.displayLabel ++ " (".toList ++ decimal count ++ [')'])
    labelCounts := labelling.labelCounts.set s.displayLabel count }

/-- `_build_unique_display_labels` -/
def buildUniqueDisplayLabels (selected : List (Selected SummaryLine)) : Dict Text Text :=
  (selected.foldl Labelling.add ⟨.empty, .empty⟩).renameMap

/-- The groups of configurations in the table by library. -/
inductive GroupName where
  | kleeCf
  | internal
  | external
  | other
  deriving DecidableEq

/-- `ordered_group_names` -/
def orderedGroupNames : List GroupName := [.kleeCf, .internal, .external, .other]

/-- The group of a configuration. -/
def groupName (s : Selected SummaryLine) : GroupName :=
  let groups := if strip s.plotGroups = [] then [] else (strip s.plotGroups).splitOn '|'
  if strip s.comparisonTool = "klee_cf".toList then .kleeCf
  else if "internal".toList ∈ groups then .internal
  else if "external".toList ∈ groups then .external
  else .other

/-- `_selected_configuration_group_order` -/
def selectedConfigurationGroupOrder (selected : List (Selected SummaryLine)) :
    List (Selected SummaryLine) × List Nat :=
  let groupedRows := fun group => selected.filter fun s => groupName s = group
  (orderedGroupNames.flatMap groupedRows, orderedGroupNames.map fun group =>
    (groupedRows group).length)

/-- `_benchmark_label` -/
def benchmarkLabel (library target : Text) : Text :=
  if target = [] then library else library ++ ':' :: target

section ByLibrary

variable (summary : Dict Text ConfigurationCounts)

/-- `observed_library_targets_by_configuration.get(source_column, set())` -/
def observedTargets (sourceColumn : Text) : List (Text × Text) :=
  ((summary.get? sourceColumn).map ConfigurationCounts.observed).getD []

/-- The successes of a configuration at a target. -/
def successes (sourceColumn : Text) (p : Text × Text) (kind : DivergenceKind) : Nat :=
  ((summary.get? sourceColumn).map fun counts => counts.byTarget p kind (.status .success)).getD 0

/-- `library_targets` -/
def libraryTargets (ordered : List (Selected SummaryLine)) : List (Text × Text) :=
  ((ordered.flatMap fun s => observedTargets summary s.sourceColumn).eraseDups).mergeSort
    fun p q => decide (toLex p ≤ toLex q)

/-- The label of a configuration. -/
def labelOf (labelMap : Dict Text Text) (s : Selected SummaryLine) : Text :=
  (labelMap.get? s.sourceColumn).getD []

def controlFlowField (label : Text) : Text := label ++ "_control_flow".toList

def memoryField (label : Text) : Text := label ++ "_memory".toList

/-- What the inner loop assigns for a configuration. -/
def configurationCells (labelMap : Dict Text Text) (p : Text × Text) (s : Selected SummaryLine) :
    List (Text × Text) :=
  let label := labelOf labelMap s
  let branchSuccesses := decimal (successes summary s.sourceColumn p .branch)
  let memorySuccesses := decimal (successes summary s.sourceColumn p .memory)
  [(controlFlowField label, branchSuccesses), (memoryField label, memorySuccesses),
    (label, branchSuccesses ++ '/' :: memorySuccesses)]

/-- The row of a target: its fields in the order in which they are assigned. -/
def targetRow (labelMap : Dict Text Text) (ordered : List (Selected SummaryLine))
    (p : Text × Text) : Dict Text Text :=
  Dict.setAll .empty
    ([("library".toList, p.1), ("target".toList, p.2),
        ("benchmark".toList, benchmarkLabel p.1 p.2)] ++
      ordered.flatMap (configurationCells summary labelMap p))

/-- The table by library: the header of the CSV file, that of the LaTeX table, the rows, and the
sizes of the groups. -/
structure ByLibraryTable where
  csvFieldnames : List Text
  latexFieldnames : List Text
  rows : List (Dict Text Text)
  groupSizes : List Nat

/-- `_selected_by_library_rows` -/
def selectedByLibraryRows (selected : List (Selected SummaryLine)) :
    Except Exc (Option ByLibraryTable) :=
  if selected = [] then .error (.exit "Selection CSV is empty".toList)
  else
    let (ordered, groupSizes) := selectedConfigurationGroupOrder selected
    let labelMap := buildUniqueDisplayLabels selected
    let targets := libraryTargets summary ordered
    if targets = [] then .ok none
    else .ok (some
      { csvFieldnames := "library".toList :: "target".toList ::
          ordered.flatMap fun s =>
            [controlFlowField (labelOf labelMap s), memoryField (labelOf labelMap s)]
        latexFieldnames := "benchmark".toList :: ordered.map (labelOf labelMap)
        rows := targets.map (targetRow summary labelMap ordered)
        groupSizes := groupSizes })

end ByLibrary

/-! ### Nothing is lost -/

/-- The groups hold the selected configurations, each once. -/
theorem groupOrder_perm (selected : List (Selected SummaryLine)) :
    (selectedConfigurationGroupOrder selected).1.Perm selected := by
  have hflat : ∀ (names : List GroupName), names.Nodup →
      (names.flatMap fun group => selected.filter fun s => groupName s = group).Perm
        (selected.filter fun s => groupName s ∈ names) := by
    intro names hnodup
    induction names with
    | nil =>
      rw [List.filter_eq_nil_iff.mpr fun s _ h => List.not_mem_nil (of_decide_eq_true h)]
      exact .nil
    | cons group names ih =>
      obtain ⟨hgroup, hnodup⟩ := List.nodup_cons.mp hnodup
      rw [List.flatMap_cons]
      refine ((ih hnodup).append_left _).trans ?_
      have hdisjoint : ∀ s : Selected SummaryLine, decide (groupName s = group) = true →
          decide (groupName s ∈ names) = false := by
        intro s hs
        rw [of_decide_eq_true hs]
        exact decide_eq_false hgroup
      refine (OuterJoin.filter_or_perm hdisjoint selected).trans
        (.of_eq (List.filter_congr fun s _ => ?_))
      simp [List.mem_cons]
  have hall := hflat orderedGroupNames (by decide)
  rwa [List.filter_eq_self.mpr fun s _ => decide_eq_true (by cases groupName s <;> decide)] at hall

/-- The fields of a row are different ones. -/
def LabelsApart (labelMap : Dict Text Text) (ordered : List (Selected SummaryLine)) : Prop :=
  (["library".toList, "target".toList, "benchmark".toList] ++ ordered.flatMap fun s =>
    [controlFlowField (labelOf labelMap s), memoryField (labelOf labelMap s),
      labelOf labelMap s]).Nodup

/-- The number a row shows in a field. -/
def shown (row : Dict Text Text) (name : Text) : Nat := decimalValue ((row.get? name).getD [])

section Conservation

variable {summary : Dict Text ConfigurationCounts}

/-- Each field of a row holds what was assigned to it. -/
theorem get?_targetRow {labelMap : Dict Text Text} {ordered : List (Selected SummaryLine)}
    (hapart : LabelsApart labelMap ordered) (p : Text × Text) {item : Text × Text}
    (hitem : item ∈ [("library".toList, p.1), ("target".toList, p.2),
      ("benchmark".toList, benchmarkLabel p.1 p.2)] ++
        ordered.flatMap (configurationCells summary labelMap p)) :
    (targetRow summary labelMap ordered p).get? item.1 = some item.2 := by
  have hkeys : (([("library".toList, p.1), ("target".toList, p.2),
      ("benchmark".toList, benchmarkLabel p.1 p.2)] ++
        ordered.flatMap (configurationCells summary labelMap p)).map Prod.fst).Nodup := by
    rw [List.map_append, List.map_flatMap]
    exact hapart
  refine Dict.get?_of_mem _ ?_
  rw [targetRow, Dict.items_setAll_empty hkeys]
  exact hitem

/-- The fields of a configuration show its successes at the target. -/
theorem shown_targetRow {labelMap : Dict Text Text} {ordered : List (Selected SummaryLine)}
    (hapart : LabelsApart labelMap ordered) {s : Selected SummaryLine} (hs : s ∈ ordered)
    (p : Text × Text) :
    shown (targetRow summary labelMap ordered p) (controlFlowField (labelOf labelMap s)) =
        successes summary s.sourceColumn p .branch ∧
      shown (targetRow summary labelMap ordered p) (memoryField (labelOf labelMap s)) =
        successes summary s.sourceColumn p .memory := by
  have hget : ∀ item ∈ configurationCells summary labelMap p s,
      (targetRow summary labelMap ordered p).get? item.1 = some item.2 := fun item hitem =>
    get?_targetRow hapart p
      (List.mem_append_right _ (List.mem_flatMap.mpr ⟨s, hs, hitem⟩))
  have hbranch := hget _ List.mem_cons_self
  have hmemory := hget _ (List.mem_cons_of_mem _ List.mem_cons_self)
  rw [shown, shown, hbranch, hmemory, Option.getD_some, Option.getD_some,
    Experiments.Durations.decimalValue_decimal, Experiments.Durations.decimalValue_decimal]
  exact ⟨rfl, rfl⟩

theorem nodup_libraryTargets (ordered : List (Selected SummaryLine)) :
    (libraryTargets summary ordered).Nodup :=
  (List.mergeSort_perm _ _).nodup_iff.mpr (nodup_eraseDups _)

theorem mem_libraryTargets {ordered : List (Selected SummaryLine)} {p : Text × Text} :
    p ∈ libraryTargets summary ordered ↔
      ∃ s ∈ ordered, p ∈ observedTargets summary s.sourceColumn := by
  rw [libraryTargets, List.mem_mergeSort, List.mem_eraseDups, List.mem_flatMap]

/-- Over all targets of the table a configuration has all its successes. -/
theorem sum_successes (hall : AllBalanced summary) {ordered : List (Selected SummaryLine)}
    {s : Selected SummaryLine} (hs : s ∈ ordered) {counts : ConfigurationCounts}
    (hcounts : summary.get? s.sourceColumn = some counts) :
    ((libraryTargets summary ordered).map fun p =>
      successes summary s.sourceColumn p .branch + successes summary s.sourceColumn p .memory).sum =
        counts.total (.status .success) := by
  have hbalanced := hall _ counts hcounts
  have hsub : counts.observed.toFinset ⊆ (libraryTargets summary ordered).toFinset := by
    intro p hp
    refine List.mem_toFinset.mpr (mem_libraryTargets.mpr ⟨s, hs, ?_⟩)
    rw [observedTargets, hcounts]
    exact List.mem_toFinset.mp hp
  rw [hbalanced.total, Finset.sum_subset hsub fun p _ hp =>
    hbalanced.outside p (fun hin => hp (List.mem_toFinset.mpr hin)) _,
    List.sum_toFinset _ (nodup_libraryTargets ordered)]
  refine congrArg List.sum (List.map_congr_left fun p _ => ?_)
  rw [successes, successes, hcounts]
  rfl

/-- Each selected configuration comes with the counts of its own name. -/
def Drawn (summary : Dict Text ConfigurationCounts) (selected : List (Selected SummaryLine)) :
    Prop :=
  ∀ s ∈ selected, ∃ counts, summary.get? s.sourceColumn = some counts ∧
    s.row = summaryLine s.sourceColumn counts

theorem labelsApart_perm {labelMap : Dict Text Text} {xs ys : List (Selected SummaryLine)}
    (h : xs.Perm ys) : LabelsApart labelMap xs ↔ LabelsApart labelMap ys :=
  ((h.flatMap_right _).append_left _).nodup_iff

/-- The columns that are dropped count nothing. -/
theorem sum_nonzeroStatusColumns {selectedRows : List SelectedRow} {row : SelectedRow}
    (hrow : row ∈ selectedRows) :
    ((nonzeroStatusColumns selectedRows).map row.counts).sum =
      (statusColumns.map row.counts).sum := by
  rw [nonzeroStatusColumns]
  induction statusColumns with
  | nil => rfl
  | cons status rest ih =>
    rw [List.filter_cons]
    split
    · rw [List.map_cons, List.map_cons, List.sum_cons, List.sum_cons, ih]
    · next hzero =>
      have hnone : row.counts status = 0 := by
        by_contra hne
        exact hzero (List.any_eq_true.mpr ⟨row, hrow, decide_eq_true hne⟩)
      rw [ih, List.map_cons, List.sum_cons, hnone, Nat.zero_add]

/-- A configuration without targets has no findings. -/
theorem total_of_no_targets (hall : AllBalanced summary) {ordered : List (Selected SummaryLine)}
    (hnone : libraryTargets summary ordered = []) {s : Selected SummaryLine} (hs : s ∈ ordered)
    {counts : ConfigurationCounts} (hcounts : summary.get? s.sourceColumn = some counts)
    (bucket : Bucket) : counts.total bucket = 0 := by
  have hempty : counts.observed = [] := by
    refine List.eq_nil_iff_forall_not_mem.mpr fun p hp => ?_
    have hmem : p ∈ libraryTargets summary ordered := by
      refine mem_libraryTargets.mpr ⟨s, hs, ?_⟩
      rw [observedTargets, hcounts]
      exact hp
    rw [hnone] at hmem
    cases hmem
  rw [(hall _ counts hcounts).total, hempty]
  rfl

/-- What the two tables of a selection say, in terms of the summary. -/
structure Accounted (summary : Dict Text ConfigurationCounts)
    (selected : List (Selected SummaryLine)) : Prop where
  /-- The columns of the best-of table that are kept add up to its total, which is that of the
  summary. -/
  bestOf : ∀ s ∈ selected,
    ((nonzeroStatusColumns (selectedRowsFromConfigurations selected)).map s.row.counts).sum =
      s.row.totalFilteredPositives
  /-- The rows of the table by library add up to the successes of the best-of table. -/
  byLibrary : ∀ table, selectedByLibraryRows summary selected = .ok (some table) →
    ∀ s ∈ selected,
      (table.rows.map fun row =>
        shown row (controlFlowField (labelOf (buildUniqueDisplayLabels selected) s)) +
          shown row (memoryField (labelOf (buildUniqueDisplayLabels selected) s))).sum =
        s.row.counts (.status .success)
  /-- There is no table by library only where there is nothing to show. -/
  skipped : selectedByLibraryRows summary selected = .ok none →
    ∀ s ∈ selected, s.row.totalFilteredPositives = 0

theorem accounted_of_drawn (hall : AllBalanced summary) {selected : List (Selected SummaryLine)}
    (hdrawn : Drawn summary selected)
    (hlabels : LabelsApart (buildUniqueDisplayLabels selected) selected) :
    Accounted summary selected := by
  have hperm := groupOrder_perm selected
  refine ⟨fun s hs => ?_, fun table htable s hs => ?_, fun hnone s hs => ?_⟩
  · obtain ⟨counts, -, hrow⟩ := hdrawn s hs
    have hmem : ⟨s.displayLabel, s.row.counts, (statusColumns.map s.row.counts).sum⟩ ∈
        selectedRowsFromConfigurations selected := List.mem_map.mpr ⟨s, hs, rfl⟩
    refine (sum_nonzeroStatusColumns hmem).trans ?_
    rw [hrow]
    rfl
  · obtain ⟨counts, hcounts, hrow⟩ := hdrawn s hs
    rw [selectedByLibraryRows, if_neg (List.ne_nil_of_mem hs)] at htable
    dsimp only at htable
    split at htable
    · cases htable
    · obtain rfl := Option.some.inj (Except.ok.inj htable)
      have hin := hperm.mem_iff.mpr hs
      rw [List.map_map, hrow]
      show _ = counts.total (.status .success)
      rw [← sum_successes hall hin hcounts]
      refine congrArg List.sum (List.map_congr_left fun p _ => ?_)
      obtain ⟨hbranch, hmemory⟩ := shown_targetRow
        ((labelsApart_perm hperm).mpr hlabels) hin p
      rw [Function.comp_apply, hbranch, hmemory]
  · obtain ⟨counts, hcounts, hrow⟩ := hdrawn s hs
    rw [selectedByLibraryRows, if_neg (List.ne_nil_of_mem hs)] at hnone
    dsimp only at hnone
    split at hnone
    · next htargets =>
      have hzero := total_of_no_targets hall htargets (hperm.mem_iff.mpr hs) hcounts
      rw [hrow]
      show (statusColumns.map counts.total).sum = 0
      rw [List.map_congr_left fun bucket _ => hzero bucket]
      decide
    · cases hnone

/-! ### The two selections -/

/-- What `_load_selected_configurations` passes to the reader of selections. -/
def summaryOptions (labels : Dict Text Text) (repr : Text → Text) (path : Text)
    (rows : List SummaryLine) : SelectionOptions SummaryLine where
  labels := labels
  repr := repr
  path := path
  lookup := Dict.setAll .empty (rows.map fun row => (strip row.configuration, row))
  comparisonTool := SummaryLine.comparisonTool

/-- The selection of `main`: the one that is read, or the automatic one. -/
def selectedConfigurations {F : Type} [LinearOrder F] [Zero F] (finiteFloat : Text → Option F)
    (labels : Dict Text Text) (repr : Text → Text) (path : Text) (selectionCsv : Option CsvFile)
    (candidates : List (Option CsvFile)) (rows : List SummaryLine) :
    Except Exc (List (Selected SummaryLine)) :=
  match selectionCsv with
  | some file => do
    let (selected, _) ←
      (summaryOptions labels repr path rows).loadSelectedConfigurations file
    return selected
  | none => .ok (automaticSelection finiteFloat labels candidates rows)

/-- No name of a configuration has white space around it. -/
def NamesStripped (summary : Dict Text ConfigurationCounts) : Prop :=
  ∀ name ∈ summary.keys, strip name = name

theorem drawn_of_row {row : SummaryLine} (hrow : row ∈ buildSummaryRows summary) :
    row.configuration ∈ summary.keys ∧ ∃ counts, summary.get? row.configuration = some counts ∧
      row = summaryLine row.configuration counts := by
  obtain ⟨item, hitem, rfl⟩ := List.mem_map.mp hrow
  exact ⟨List.mem_map_of_mem hitem, item.2, Dict.get?_of_mem _ hitem, rfl⟩

theorem drawn_selectedConfigurations {F : Type} [LinearOrder F] [Zero F]
    {finiteFloat : Text → Option F} {labels : Dict Text Text} {repr : Text → Text} {path : Text}
    {selectionCsv : Option CsvFile} {candidates : List (Option CsvFile)}
    {selected : List (Selected SummaryLine)} (hnames : NamesStripped summary)
    (h : selectedConfigurations finiteFloat labels repr path selectionCsv candidates
      (buildSummaryRows summary) = .ok selected) : Drawn summary selected := by
  intro s hs
  have hsource : s.row ∈ buildSummaryRows summary ∧ s.sourceColumn = strip s.row.configuration := by
    cases selectionCsv with
    | none =>
      obtain rfl := Except.ok.inj h
      obtain ⟨-, hbest, -⟩ := selection_of_times labels (loadLastTimesByConfiguration finiteFloat
        ((buildSummaryRows summary).map fun row => strip row.configuration) candidates)
        (buildSummaryRows summary)
      obtain ⟨row, hrow, rfl, -⟩ := hbest s hs
      exact ⟨hrow, rfl⟩
    | some file =>
      obtain ⟨⟨loaded, skipped⟩, hloaded, h⟩ := Sequence.bind_eq_ok_iff.mp h
      obtain rfl := Except.ok.inj h
      obtain ⟨-, rfl, -⟩ := (load_eq_ok_iff _ _ _ _).mp hloaded
      obtain ⟨record, -, hselect⟩ := List.mem_filterMap.mp hs
      obtain ⟨row, hknown, rfl⟩ := Option.map_eq_some_iff.mp hselect
      have hitem : (columnOf record, row) ∈
          (buildSummaryRows summary).map fun row => (strip row.configuration, row) := by
        rw [SelectionOptions.known?, summaryOptions, Dict.get?_setAll] at hknown
        rw [Dict.get?_empty, Option.or_none] at hknown
        exact List.mem_reverse.mp (Dict.mem_of_lookup hknown)
      obtain ⟨row', hrow', heq⟩ := List.mem_map.mp hitem
      obtain ⟨hname, rfl⟩ := Prod.mk.inj heq
      exact ⟨hrow', hname.symm⟩
  obtain ⟨hrow, hname⟩ := hsource
  obtain ⟨hkey, counts, hcounts, hline⟩ := drawn_of_row hrow
  rw [hnames _ hkey] at hname
  exact ⟨counts, hname ▸ hcounts, by rw [hname]; exact hline⟩

/-- Nothing is lost between the payloads and the tables. Whatever the payloads hold and however
the configurations are selected: if their names have no white space around them and the fields of
the table by library are different ones, the kept columns of the best-of table add up to the
findings that were counted, the table by library adds up to its successes, and that table is left
out only where nothing was counted. -/
theorem tables_conserve {F G : Type} [LinearOrder F] [Zero F] {readers : Readers G}
    {options : SummaryOptions} {runs : List ResultRun} {finiteFloat : Text → Option F}
    {labels : Dict Text Text} {repr : Text → Text} {path : Text} {selectionCsv : Option CsvFile}
    {candidates : List (Option CsvFile)} {selected : List (Selected SummaryLine)}
    (hcollect : collectReproductionStatusCounts readers options runs = .ok summary)
    (hselected : selectedConfigurations finiteFloat labels repr path selectionCsv candidates
      (buildSummaryRows summary) = .ok selected)
    (hnames : NamesStripped summary)
    (hlabels : LabelsApart (buildUniqueDisplayLabels selected) selected) :
    Accounted summary selected :=
  accounted_of_drawn (balanced_collect hcollect)
    (drawn_selectedConfigurations hnames hselected) hlabels

/-- A run of two payloads with one finding each. -/
def twoPayloads : List ResultRun := [kleeRun (oneRow "fix_pub" false) (oneRow "var_pub" false)]

/-- Its summary. -/
def twoPayloadsSummary : Dict Text ConfigurationCounts :=
  (collectReproductionStatusCounts wholeReaders noFilters twoPayloads).toOption.getD .empty

/-- The configuration that is chosen of it, without a merged table. -/
def twoPayloadsSelection : List (Selected SummaryLine) :=
  automaticSelection (F := Nat) (fun _ => none) .empty [] (buildSummaryRows twoPayloadsSummary)

theorem tables_conserve_twoPayloads :
    twoPayloadsSelection.map Selected.sourceColumn = ["klee_fix_pub".toList] ∧
      Accounted twoPayloadsSummary twoPayloadsSelection := by
  have hselected : selectedConfigurations (fun _ => (none : Option Nat)) .empty id [] none []
      (buildSummaryRows twoPayloadsSummary) = .ok twoPayloadsSelection := rfl
  have hcollect : collectReproductionStatusCounts wholeReaders noFilters twoPayloads =
      .ok twoPayloadsSummary := rfl
  refine ⟨by decide, tables_conserve hcollect hselected ?_ ?_⟩
  · unfold NamesStripped
    decide
  · unfold LabelsApart
    decide

end Conservation

end SummaryTables

end KleeDeps.Postprocess
