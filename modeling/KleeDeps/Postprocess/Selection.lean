import KleeDeps.Data.BestByKey
import KleeDeps.Postprocess.MergeResults
import KleeDeps.Postprocess.VerificationTimings
import KleeDeps.Py.Int
import KleeDeps.Py.Value

/-!
# The configurations a table is to show

`selection_helpers.py`: how a comparison tool is labelled, in which plots it appears, and how
the selection file is read that names one configuration per tool.

- `normalizedGroups_join`: a normalized list of groups is read back as it is;
- `selectRows_iff`: the loop over the rows ends well exactly on accepted rows;
- `selection_accepted_iff`: **when a selection is accepted, and what it selects**.
-/

namespace KleeDeps.Postprocess

open Py

namespace Selection

/-! ### Labels -/

section Labels

variable (pyStr : Value → Text)

/-- The body of the loop of `configured_display_labels`. -/
def addLabel (labels : Dict Text Text) (item : Text × Value) : Dict Text Text :=
  let normalizedTool := strip item.1
  let normalizedLabel := strip (pyStr item.2)
  if normalizedTool ≠ [] ∧ normalizedLabel ≠ [] then labels.set normalizedTool normalizedLabel
  else labels

/-- `configured_display_labels`, on the decoded file; `none` where there is no file or it is not
TOML. -/
def configuredDisplayLabels (payload : Option Object) : Dict Text Text :=
  match payload.map fun items => Value.field items "comparison_tool_labels".toList with
  | some (.dict configuredLabels) => configuredLabels.foldl (addLabel pyStr) .empty
  | _ => .empty

/-- `default_display_label`. -/
def defaultDisplayLabel (labels : Dict Text Text) (comparisonTool : Text) : Text :=
  (labels.get? comparisonTool).getD comparisonTool

/-- Visible text with nothing to strip. -/
def Clean (s : Text) : Prop := strip s = s ∧ s ≠ []

instance : DecidablePred Clean := fun s => inferInstanceAs (Decidable (strip s = s ∧ s ≠ []))

theorem clean_strip {s : Text} (h : strip s ≠ []) : Clean (strip s) := ⟨strip_strip s, h⟩

/-- Every configured label can be shown. -/
theorem clean_of_configured {payload : Option Object} {tool label : Text}
    (h : (configuredDisplayLabels pyStr payload).get? tool = some label) : Clean label := by
  let P : List (Text × Value) → Dict Text Text → Prop :=
    fun _ labels => ∀ tool label, labels.get? tool = some label → Clean label
  have hstep : ∀ done item labels, P done labels → P (done ++ [item]) (addLabel pyStr labels item) := by
    intro done item labels hlabels tool label hget
    unfold addLabel at hget
    dsimp only at hget
    split at hget
    · next hne =>
      by_cases htool : strip item.1 = tool
      · rw [htool, Dict.get?_set_self] at hget
        rw [← Option.some.inj hget]
        exact clean_strip hne.2
      · rw [Dict.get?_set_of_ne _ htool] at hget
        exact hlabels tool label hget
    · exact hlabels tool label hget
  unfold configuredDisplayLabels at h
  split at h
  · next configuredLabels _ =>
    exact Sequence.foldl_induction P (s := Dict.empty) [] (fun _ _ hget => by cases hget) hstep
      configuredLabels tool label h
  · cases h

theorem clean_defaultDisplayLabel {payload : Option Object} {tool : Text} (h : Clean tool) :
    Clean (defaultDisplayLabel (configuredDisplayLabels pyStr payload) tool) := by
  unfold defaultDisplayLabel
  cases hget : (configuredDisplayLabels pyStr payload).get? tool with
  | none => exact h
  | some label => exact clean_of_configured pyStr hget

end Labels

/-! ### Plot groups -/

/-- `normalized_groups`. -/
def normalizedGroups (plotGroups : Text) : List Text :=
  ((((plotGroups.map fun c => if c = ';' then '|' else c).splitOn '|').map strip).filter
    (· ≠ [])).eraseDups

/-- `normalize_plot_groups`. -/
def normalizePlotGroups (plotGroups : Text) : Text := join ['|'] (normalizedGroups plotGroups)

/-- `default_plot_groups`. -/
def defaultPlotGroups (comparisonTool toolFamily : Text) : Text :=
  if comparisonTool = "klee_cf".toList then "internal|external|slicing".toList
  else if comparisonTool = "klee_cf_sliced".toList then "internal|slicing".toList
  else if isKleeFamily comparisonTool toolFamily then "internal".toList
  else "external".toList

/-- Names of groups as `normalize_plot_groups` leaves them. -/
structure Normalized (groups : List Text) : Prop where
  clean : ∀ group ∈ groups, Clean group
  unseparated : ∀ group ∈ groups, '|' ∉ group ∧ ';' ∉ group
  nodup : groups.Nodup

theorem normalized_normalizedGroups (plotGroups : Text) :
    Normalized (normalizedGroups plotGroups) := by
  have hof : ∀ group ∈ normalizedGroups plotGroups, group ≠ [] ∧
      ∃ piece ∈ (plotGroups.map fun c => if c = ';' then '|' else c).splitOn '|',
        strip piece = group := by
    intro group hgroup
    have hmem := List.mem_eraseDups.mp hgroup
    rw [List.mem_filter, decide_eq_true_eq, List.mem_map] at hmem
    exact ⟨hmem.2, hmem.1⟩
  refine ⟨fun group hgroup => ?_, fun group hgroup => ?_, ?_⟩
  · obtain ⟨hne, piece, -, rfl⟩ := hof group hgroup
    exact clean_strip hne
  · obtain ⟨-, piece, hpiece, rfl⟩ := hof group hgroup
    have hsep : ∀ c ∈ strip piece, c ≠ '|' ∧ c ≠ ';' := by
      intro c hc
      obtain ⟨hmem, hbar⟩ := notMem_of_mem_splitOn hpiece (mem_of_mem_stripped hc)
      obtain ⟨d, -, rfl⟩ := List.mem_map.mp hmem
      refine ⟨hbar, ?_⟩
      split
      · decide
      · assumption
    exact ⟨fun h => (hsep _ h).1 rfl, fun h => (hsep _ h).2 rfl⟩
  · exact BestByKey.nodup_eraseDups _

theorem join_ne_nil {sep part : Text} {parts : List Text} (h : part ≠ []) :
    join sep (part :: parts) ≠ [] := by
  cases parts with
  | nil => simpa [join] using h
  | cons other parts =>
    rw [join, List.intercalate_cons_cons]
    simp [h]

theorem mem_join {sep : Text} {c : Char} {parts : List Text} (h : c ∈ join sep parts) :
    c ∈ sep ∨ ∃ part ∈ parts, c ∈ part := by
  induction parts with
  | nil => cases h
  | cons part parts ih =>
    cases parts with
    | nil => exact .inr ⟨part, List.mem_singleton_self part, by simpa [join] using h⟩
    | cons other parts =>
      rw [join, List.intercalate_cons_cons, List.append_assoc] at h
      rcases List.mem_append.mp h with h | h
      · exact .inr ⟨part, List.mem_cons_self, h⟩
      · rcases List.mem_append.mp h with h | h
        · exact .inl h
        · exact (ih h).imp_right fun ⟨name, hname, hc⟩ => ⟨name, List.mem_cons_of_mem _ hname, hc⟩

/-- A normalized list of groups is read back as it is. -/
theorem normalizedGroups_join {groups : List Text} (h : Normalized groups) :
    normalizedGroups (join ['|'] groups) = groups := by
  have hfixed : ((join ['|'] groups).map fun c => if c = ';' then '|' else c) =
      join ['|'] groups := by
    refine (List.map_congr_left fun c hc => ?_).trans (List.map_id _)
    rcases mem_join hc with hc | ⟨group, hgroup, hc⟩
    · rw [List.mem_singleton.mp hc]
      rfl
    · have hne : c ≠ ';' := by
        rintro rfl
        exact (h.unseparated group hgroup).2 hc
      exact if_neg hne
  cases groups with
  | nil => rfl
  | cons group rest =>
    have hsplit : (join ['|'] (group :: rest)).splitOn '|' = group :: rest :=
      List.splitOn_intercalate '|' (fun name hname => (h.unseparated name hname).1) (by simp)
    have hstrip : (group :: rest).map strip = group :: rest :=
      (List.map_congr_left fun name hname => (h.clean name hname).1).trans (List.map_id _)
    rw [normalizedGroups, hfixed, hsplit, hstrip, List.filter_eq_self.mpr,
      BestByKey.eraseDups_of_nodup h.nodup]
    exact fun name hname => decide_eq_true (h.clean name hname).2

/-- Normalizing changes nothing the second time, and what consumers split is the list itself. -/
theorem normalizePlotGroups_idem (plotGroups : Text) :
    normalizePlotGroups (normalizePlotGroups plotGroups) = normalizePlotGroups plotGroups := by
  rw [normalizePlotGroups, normalizePlotGroups,
    normalizedGroups_join (normalized_normalizedGroups plotGroups)]

/-! ### The selection file -/

/-- A record as `csv.DictReader` gives it. A cell for which the record is too short reads
`None`. -/
abbrev Record := Dict Text (Option Text)

/-- A record of the reader. -/
def readRecord (fieldnames cells : List Text) : Record :=
  Dict.setAll .empty (fieldnames.zip
    (cells.map some ++ List.replicate (fieldnames.length - cells.length) none))

/-- `str` of a cell. -/
def cellText (cell : Option Text) : Text := cell.getD "None".toList

/-- `str(record.get(name, ""))`. -/
def fieldText (record : Record) (name : Text) : Text := ((record.get? name).map cellText).getD []

/-- A CSV file: its header and the records below. -/
structure CsvFile where
  fieldnames : List Text
  records : List (List Text)

/-- `list(reader)`; the reader skips empty records. -/
def CsvFile.rows (file : CsvFile) : List Record :=
  (file.records.filter (· ≠ [])).map (readRecord file.fieldnames)

/-- `comparison_tool` of a row, stripped. -/
def toolOf (record : Record) : Text := strip (fieldText record "comparison_tool".toList)

/-- `source_column` of a row, stripped. -/
def columnOf (record : Record) : Text := strip (fieldText record "source_column".toList)

/-- A selected configuration: the row of the summary and what the selection puts over it. -/
structure Selected (R : Type) where
  row : R
  sourceColumn : Text
  comparisonTool : Text
  displayLabel : Text
  plotGroups : Text

/-- What a reader of selections is told: the configured labels, `repr`, the path of the file, the
rows of the summary by their column, and the comparison tool of a row. -/
structure SelectionOptions (R : Type) where
  labels : Dict Text Text
  repr : Text → Text
  path : Text
  lookup : Dict Text R
  comparisonTool : R → Text

section Loader

variable {R : Type} (options : SelectionOptions R)

/-- The start of a message about a line. -/
def SelectionOptions.lineContext (rowNumber : Nat) : Text :=
  options.path ++ " line ".toList ++ decimal rowNumber ++ ": ".toList

/-- The configuration that a row selects. -/
def SelectionOptions.select (record : Record) (row : R) : Selected R where
  row := row
  sourceColumn := columnOf record
  comparisonTool := toolOf record
  displayLabel :=
    let label := strip (fieldText record "display_label".toList)
    if label = [] then defaultDisplayLabel options.labels (toolOf record) else label
  plotGroups := normalizePlotGroups (fieldText record "plot_groups".toList)

/-- The loop over the rows, from a row number on: what is selected, and the columns that are not
in the summary. -/
def SelectionOptions.selectRows (seen : List Text) (rowNumber : Nat) :
    List Record → Except Exc (List (Selected R) × List Text)
  | [] => .ok ([], [])
  | record :: rest =>
    if toolOf record = [] then
      .error (.exit (options.lineContext rowNumber ++ "empty comparison_tool".toList))
    else if columnOf record = [] then
      .error (.exit (options.lineContext rowNumber ++ "empty source_column".toList))
    else if toolOf record ∈ seen then
      .error (.exit (options.lineContext rowNumber ++ "duplicate comparison_tool ".toList ++
        options.repr (toolOf record)))
    else
      match options.lookup.get? (columnOf record) with
      | none => do
        let (selected, skipped) ← SelectionOptions.selectRows seen (rowNumber + 1) rest
        return (selected, columnOf record :: skipped)
      | some row =>
        if strip (options.comparisonTool row) ≠ toolOf record then
          .error (.exit (options.lineContext rowNumber ++ "comparison_tool ".toList ++
            options.repr (toolOf record) ++ " does not match summary metadata ".toList ++
            options.repr (options.comparisonTool row)))
        else do
          let (selected, skipped) ←
            SelectionOptions.selectRows (toolOf record :: seen) (rowNumber + 1) rest
          return (options.select record row :: selected, skipped)

/-- `required_columns`, sorted. -/
def requiredColumns : List Text := ["comparison_tool".toList, "source_column".toList]

/-- `load_selected_configurations`: what is selected and which columns are skipped. -/
def SelectionOptions.loadSelectedConfigurations (file : CsvFile) :
    Except Exc (List (Selected R) × List Text) :=
  if file.fieldnames = [] then .error (.exit (options.path ++ ": CSV has no header".toList))
  else
    let missingColumns := requiredColumns.filter (· ∉ file.fieldnames)
    if missingColumns ≠ [] then
      .error (.exit (options.path ++ ": missing required column(s): ".toList ++
        join ", ".toList missingColumns))
    else options.selectRows [] 2 file.rows

/-! ### What is accepted -/

/-- The row of the summary that a record names. -/
def SelectionOptions.known? (record : Record) : Option R := options.lookup.get? (columnOf record)

/-- What a row needs on its own: a tool, a column, and the tool of that column if the column is
in the summary. -/
structure SelectionOptions.Sound (record : Record) : Prop where
  tool : toolOf record ≠ []
  column : columnOf record ≠ []
  agrees : ∀ row, options.known? record = some row →
    strip (options.comparisonTool row) = toolOf record

/-- The rows a selection may have: each sound, and no tool again below a row that selects a
configuration of it. -/
structure SelectionOptions.Accepted (records : List Record) : Prop where
  sound : ∀ record ∈ records, options.Sound record
  once : records.Pairwise fun a b => (options.known? a).isSome → toolOf a ≠ toolOf b

/-- What the rows select. -/
def SelectionOptions.selection (records : List Record) : List (Selected R) :=
  records.filterMap fun record => (options.known? record).map (options.select record)

/-- The columns that are not in the summary. -/
def SelectionOptions.unknown (records : List Record) : List Text :=
  (records.filter fun record => (options.known? record).isNone).map columnOf

variable {options}

/-- The tools that may not be selected below a row. -/
def SelectionOptions.seenBelow (options : SelectionOptions R) (seen : List Text)
    (record : Record) : List Text :=
  if (options.known? record).isSome then toolOf record :: seen else seen

/-- **Step lemma**: a row is passed when it is sound and its tool not yet selected. -/
theorem selectRows_cons {record : Record} {rest : List Record} {seen : List Text}
    {rowNumber : Nat} {result : List (Selected R) × List Text} :
    options.selectRows seen rowNumber (record :: rest) = .ok result ↔
      (options.Sound record ∧ toolOf record ∉ seen) ∧
        ∃ more, options.selectRows (options.seenBelow seen record) (rowNumber + 1) rest = .ok more ∧
          result = (((options.known? record).map (options.select record)).toList ++ more.1,
            (if (options.known? record).isNone then [columnOf record] else []) ++ more.2) := by
  have hsound : options.Sound record ↔ toolOf record ≠ [] ∧ columnOf record ≠ [] ∧
      ∀ row, options.known? record = some row →
        strip (options.comparisonTool row) = toolOf record :=
    ⟨fun h => ⟨h.tool, h.column, h.agrees⟩, fun h => ⟨h.1, h.2.1, h.2.2⟩⟩
  rw [SelectionOptions.selectRows, hsound, SelectionOptions.seenBelow]
  by_cases htool : toolOf record = []
  · simp [htool]
  by_cases hcolumn : columnOf record = []
  · simp [htool, hcolumn]
  by_cases hseen : toolOf record ∈ seen
  · simp [htool, hcolumn, hseen]
  rw [if_neg htool, if_neg hcolumn, if_neg hseen, SelectionOptions.known?]
  cases options.lookup.get? (columnOf record) with
  | none =>
    simp only [Sequence.bind_eq_ok_iff]
    simp [htool, hcolumn, hseen, pure, Except.pure, eq_comm]
  | some row =>
    by_cases hagrees : strip (options.comparisonTool row) = toolOf record
    · dsimp only
      rw [if_neg fun hne => hne hagrees, Sequence.bind_eq_ok_iff]
      simp [htool, hcolumn, hseen, hagrees, pure, Except.pure, eq_comm]
    · simp [htool, hcolumn, hseen, hagrees]

theorem mem_seenBelow {seen : List Text} {record : Record} {tool : Text} :
    tool ∈ options.seenBelow seen record ↔
      (options.known? record).isSome ∧ tool = toolOf record ∨ tool ∈ seen := by
  rw [SelectionOptions.seenBelow]
  split
  · next hknown => simp [hknown]
  · next hunknown => simp [hunknown]

theorem accepted_cons {record : Record} {rest : List Record} {seen : List Text} :
    (options.Accepted (record :: rest) ∧ ∀ r ∈ record :: rest, toolOf r ∉ seen) ↔
      (options.Sound record ∧ toolOf record ∉ seen) ∧
        options.Accepted rest ∧ ∀ r ∈ rest, toolOf r ∉ options.seenBelow seen record := by
  constructor
  · rintro ⟨⟨hsound, honce⟩, hseen⟩
    obtain ⟨hfirst, honce⟩ := List.pairwise_cons.mp honce
    refine ⟨⟨hsound _ List.mem_cons_self, hseen _ List.mem_cons_self⟩,
      ⟨fun r hr => hsound r (List.mem_cons_of_mem _ hr), honce⟩, fun r hr hmem => ?_⟩
    rcases mem_seenBelow.mp hmem with ⟨hknown, htool⟩ | hmem
    · exact hfirst r hr hknown htool.symm
    · exact hseen r (List.mem_cons_of_mem _ hr) hmem
  · rintro ⟨⟨hsound, hnot⟩, ⟨hsounds, honce⟩, hseen⟩
    refine ⟨⟨List.forall_mem_cons.mpr ⟨hsound, hsounds⟩, List.pairwise_cons.mpr
      ⟨fun r hr hknown htool => ?_, honce⟩⟩, List.forall_mem_cons.mpr ⟨hnot, fun r hr hmem => ?_⟩⟩
    · exact hseen r hr (mem_seenBelow.mpr (.inl ⟨hknown, htool.symm⟩))
    · exact hseen r hr (mem_seenBelow.mpr (.inr hmem))

theorem selection_cons (record : Record) (rest : List Record) :
    options.selection (record :: rest) =
      ((options.known? record).map (options.select record)).toList ++ options.selection rest := by
  rw [SelectionOptions.selection, List.filterMap_cons]
  cases options.known? record <;> rfl

theorem unknown_cons (record : Record) (rest : List Record) :
    options.unknown (record :: rest) =
      (if (options.known? record).isNone then [columnOf record] else []) ++
        options.unknown rest := by
  rw [SelectionOptions.unknown, List.filter_cons]
  cases options.known? record <;> rfl

/-- **Run lemma**: the loop ends well on accepted rows, and then with their selection. -/
theorem selectRows_iff {records : List Record} {seen : List Text} {rowNumber : Nat}
    {result : List (Selected R) × List Text} :
    options.selectRows seen rowNumber records = .ok result ↔
      (options.Accepted records ∧ ∀ record ∈ records, toolOf record ∉ seen) ∧
        result = (options.selection records, options.unknown records) := by
  induction records generalizing seen rowNumber result with
  | nil =>
    rw [SelectionOptions.selectRows, Except.ok.injEq]
    exact ⟨fun h => ⟨⟨⟨fun _ h => (List.not_mem_nil h).elim, .nil⟩,
      fun _ h => (List.not_mem_nil h).elim⟩, h.symm⟩, fun h => h.2.symm⟩
  | cons record rest ih =>
    rw [selectRows_cons, accepted_cons, selection_cons, unknown_cons]
    constructor
    · rintro ⟨hrow, more, hmore, rfl⟩
      obtain ⟨haccepted, rfl⟩ := ih.mp hmore
      exact ⟨⟨hrow, haccepted⟩, rfl⟩
    · rintro ⟨⟨hrow, haccepted⟩, rfl⟩
      exact ⟨hrow, _, ih.mpr ⟨haccepted, rfl⟩, rfl⟩

/-- The reader of a file ends well on accepted rows under a header with the required columns. -/
theorem load_eq_ok_iff (options : SelectionOptions R) (file : CsvFile)
    (selected : List (Selected R)) (skipped : List Text) :
    options.loadSelectedConfigurations file = .ok (selected, skipped) ↔
      (requiredColumns ⊆ file.fieldnames ∧ options.Accepted file.rows) ∧
        selected = options.selection file.rows ∧ skipped = options.unknown file.rows := by
  have hmissing : requiredColumns.filter (· ∉ file.fieldnames) = [] ↔
      requiredColumns ⊆ file.fieldnames := by
    rw [List.filter_eq_nil_iff]
    exact forall₂_congr fun name _ => by rw [decide_eq_true_eq, not_not]
  unfold SelectionOptions.loadSelectedConfigurations
  by_cases hheader : file.fieldnames = []
  · rw [if_pos hheader, hheader]
    refine ⟨fun h => (by cases h), fun h => ?_⟩
    exact absurd (h.1.1 List.mem_cons_self) List.not_mem_nil
  · rw [if_neg hheader]
    dsimp only
    by_cases hrequired : requiredColumns ⊆ file.fieldnames
    · rw [if_neg fun hne => hne (hmissing.mpr hrequired), selectRows_iff, Prod.mk.injEq]
      simp [hrequired]
    · rw [if_pos fun hnil => hrequired (hmissing.mp hnil)]
      exact ⟨fun h => (by cases h), fun h => absurd h.1.1 hrequired⟩

/-- What a file selects, of those rows: one configuration of a tool, each of its own tool, and every
row is selected or skipped. -/
structure SelectionOptions.Sorted (options : SelectionOptions R) (records : List Record)
    (selected : List (Selected R)) (skipped : List Text) : Prop where
  once : (selected.map Selected.comparisonTool).Nodup
  known : ∀ s ∈ selected, options.lookup.get? s.sourceColumn = some s.row ∧
    strip (options.comparisonTool s.row) = s.comparisonTool
  unknown : ∀ column ∈ skipped, options.lookup.get? column = none
  all : selected.length + skipped.length = records.length

theorem sorted_selection {records : List Record} (h : options.Accepted records) :
    options.Sorted records (options.selection records) (options.unknown records) := by
  have hfound : ∀ s ∈ options.selection records, ∃ record ∈ records, ∃ row,
      options.known? record = some row ∧ options.select record row = s := by
    intro s hs
    obtain ⟨record, hrecord, hselect⟩ := List.mem_filterMap.mp hs
    obtain ⟨row, hknown, heq⟩ := Option.map_eq_some_iff.mp hselect
    exact ⟨record, hrecord, row, hknown, heq⟩
  constructor
  case once =>
    rw [List.nodup_iff_pairwise_ne, List.pairwise_map, SelectionOptions.selection,
      List.pairwise_filterMap]
    refine h.once.imp fun {a b} hne s hs t ht => ?_
    obtain ⟨row, hrow, rfl⟩ := Option.map_eq_some_iff.mp hs
    obtain ⟨row', -, rfl⟩ := Option.map_eq_some_iff.mp ht
    exact hne (by rw [hrow]; rfl)
  case known =>
    intro s hs
    obtain ⟨record, hrecord, row, hknown, rfl⟩ := hfound s hs
    exact ⟨hknown, (h.sound record hrecord).agrees row hknown⟩
  case unknown =>
    intro column hcolumn
    obtain ⟨record, hrecord, rfl⟩ := List.mem_map.mp hcolumn
    exact Option.isNone_iff_eq_none.mp (List.mem_filter.mp hrecord).2
  case all =>
    clear h hfound
    induction records with
    | nil => rfl
    | cons record rest ih =>
      rw [selection_cons, unknown_cons, List.length_append, List.length_append, List.length_cons,
        ← ih]
      cases options.known? record with
      | none =>
        show 0 + _ + (1 + _) = _
        omega
      | some row =>
        show 1 + _ + (0 + _) = _
        omega

end Loader

end Selection

end KleeDeps.Postprocess
