import KleeDeps.Postprocess.SlicedTargets

/-!
# Which findings count

The campaign publishes a filtered table of its findings and, beside it, the counts of their
replays. Both leave out locations by the same filter table, and both take sliced locations
back by the same map, but each looks them up under its own keys.

- `mem_filterCsv`, `exists_shown`: a finding on its way to the filtered table;
- `countedPlace_eq`: a finding on its way to the counts;
- `paths_agree_iff`: **when the two agree**.
-/

namespace KleeDeps.Postprocess

open Py Shared

/-! ## The filter -/

section Filter

variable {limit : Nat} {filters : FilterConfiguration}

/-- The line of a row is read where it is needed. -/
theorem rowMatches_eq {row : TableRow} {line : Int} (hline : row.line = intText line) {kept : Bool}
    (h : rowMatches limit filters row = .ok kept) :
    kept = locationMatches filters row.library row.file line := by
  unfold rowMatches at h
  unfold locationMatches
  rw [hline] at h
  split at h
  · next hranges =>
    rw [hranges]
    exact (Except.ok.inj h).symm
  · next hranges =>
    rw [hranges]
    exact (Except.ok.inj h).symm
  · next range ranges hranges =>
    rw [hranges]
    simp only [bind, Except.bind] at h
    split at h
    · cases h
    · next n hn =>
      rw [← normalizeInt_intText hn]
      exact (Except.ok.inj h).symm

theorem mem_filterRows {path : Text} {rowNumber : Nat} {rows kept : List TableRow}
    (h : filterRows limit filters path rowNumber rows = .ok kept) {row : TableRow} {line : Int}
    (hline : row.line = intText line) :
    row ∈ kept ↔ row ∈ rows ∧ locationMatches filters row.library row.file line = true := by
  induction rows generalizing rowNumber kept with
  | nil =>
    obtain rfl := Except.ok.inj h
    simp
  | cons first rest ih =>
    unfold filterRows at h
    simp only [bind, Except.bind] at h
    split at h
    · cases h
    · next b hb =>
      split at h
      · cases h
      · next more hmore =>
        obtain rfl := Except.ok.inj h
        have hmatch : rowMatches limit filters first = .ok b := orInvalidRow_ok hb
        have hrest := ih hmore
        by_cases hfirst : row = first
        · subst hfirst
          have hb' := rowMatches_eq hline hmatch
          rw [← hb']
          cases b with
          | true => simp
          | false =>
            -- no later copy of the row is kept either
            rw [← hb'] at hrest
            simpa using hrest
        · rw [List.mem_cons, or_iff_right hfirst, ← hrest]
          cases b with
          | true => simp [hfirst]
          | false => simp

/-- The filtered table has the rows whose location matches. -/
theorem mem_filterCsv {path : Text} {all filtered : Table}
    (h : filterCsv limit filters path all = .ok filtered) {row : TableRow} {line : Int}
    (hline : row.line = intText line) :
    row ∈ filtered.rows ↔
      row ∈ all.rows ∧ locationMatches filters row.library row.file line = true := by
  unfold filterCsv at h
  simp only [bind, Except.bind] at h
  split at h
  · cases h
  · next kept hkept =>
    obtain rfl := Except.ok.inj h
    exact mem_filterRows hkept hline

end Filter

/-! ## Findings -/

/-- A finding of a campaign: a row of a payload with a line, a column and a time, in a
configuration of its own. -/
structure Finding {F : Type} (readers : Readers F) (runs : List ResultRun) where
  payload : ResultRun × (Text × Value)
  rows : List Object
  metadata : Object
  library : Text
  configuration : ColumnMetadata
  index : Nat
  row : Object
  location : Location
  column : Int
  time : F
  payload_mem : payload ∈ payloadsOf runs
  read : readPayload payload.2.1 payload.2.2 = .ok (rows, metadata)
  library_eq : libraryOf metadata = some library
  configuration_eq : buildColumnMetadata payload.1.metadata metadata = .ok configuration
  row_eq : rows[index]? = some row
  violation : rowViolation readers true library (targetOf metadata) row = some (location, time)
  column_eq : location.column = some column
  concrete : Value.field row "column".toList ≠ .null ∧ Value.field row "column".toList ≠ .str []

namespace Finding

variable {F : Type} {readers : Readers F} {runs : List ResultRun}

/-- Whether the finding is one in the sliced sources. -/
def sliced (finding : Finding readers runs) : Bool :=
  Experiments.truthy readers.floatTruth (Value.field finding.metadata "sliced".toList)

/-- The place of the finding as reported. -/
def place (finding : Finding readers runs) : Place :=
  ⟨finding.location.file, finding.location.line, finding.column⟩

theorem mergedColumn_eq (finding : Finding readers runs) :
    mergedColumn readers finding.sliced finding.payload = some finding.configuration := by
  unfold mergedColumn
  rw [finding.read]
  simp only [sliced, if_true, finding.configuration_eq]
  rfl

/-- The finding is reported in its mode. -/
theorem reported (finding : Finding readers runs) :
    (finding.configuration.sourceColumn, finding.location) ∈
      reportedBy readers finding.sliced true finding.payload := by
  unfold reportedBy
  rw [finding.read, finding.mergedColumn_eq]
  refine List.mem_map.mpr ⟨(finding.location, finding.time), ?_, rfl⟩
  refine List.mem_filterMap.mpr ⟨finding.row, List.mem_of_getElem? finding.row_eq, ?_⟩
  rw [finding.library_eq]
  exact finding.violation

/-- The location carries the library and the place. -/
theorem location_spec (finding : Finding readers runs) :
    finding.location.library = finding.library ∧
      (∃ filename, (Value.field finding.row "filename".toList).asStr? = some filename ∧
        basenameOnly filename ≠ [] ∧ finding.location.file = basenameOnly filename) ∧
      readers.toInt (Value.field finding.row "line".toList) = some finding.location.line ∧
      readers.toInt (Value.field finding.row "column".toList) = some finding.column := by
  obtain ⟨-, hlocation⟩ := rowViolation_eq_some finding.violation
  obtain ⟨filename, line, hfilename, hname, hline, heq⟩ := rowLocation_eq_some hlocation
  have heq : finding.location = _ := heq
  have hcolumn := finding.column_eq
  rw [heq] at hcolumn ⊢
  exact ⟨rfl, ⟨filename, hfilename, hname, rfl⟩, hline, hcolumn⟩

/-! ### In the table -/

/-- The place of the finding in the relabelled tables: the map is asked under the name of
the library. -/
def csvPlace (mapping : SlicedMap) (finding : Finding readers runs) : Place :=
  if finding.sliced then
    (mapping.get? (strip finding.library,
      ⟨normalizeFile finding.place.file, finding.place.line, finding.place.column⟩)).getD
        finding.place
  else finding.place

/-- The row of the finding in the relabelled tables, without its cells. -/
def csvRow (mapping : SlicedMap) (finding : Finding readers runs) : TableRow where
  library := finding.library
  target := finding.location.target
  file := (finding.csvPlace mapping).file
  line := intText (finding.csvPlace mapping).line
  column := intText (finding.csvPlace mapping).column
  kind := finding.location.kind.getD []
  cells := []

/-- The names of the finding as they come out of the join; without sliced results there is
none. -/
def csvNames (limit : Nat) (pandas : Pandas) (mapping : SlicedMap)
    (finding : Finding readers runs) : ReadNames :=
  match mergeResults readers false true runs, mergeResults readers true true runs with
  | .ok plain, .ok sliced =>
    readNames pandas
      (if finding.sliced then sliced.rows.map (underMap limit mapping) else plain.rows)
      (finding.csvRow mapping)
  | _, _ =>
    { library := some finding.library, file := some (finding.csvPlace mapping).file
      target := finding.location.target, kind := finding.location.kind.getD [] }

/-- The columns of a table of the campaign. -/
def columnsOf (readers : Readers F) (runs : List ResultRun) (sliced : Bool) : List Text :=
  ((mergeResults readers sliced true runs).toOption.map (·.columns)).getD []

/-- The position of the finding's column in the joined table. -/
def position (finding : Finding readers runs) : Nat :=
  (if finding.sliced then (columnsOf readers runs false).length else 0) +
    (columnsOf readers runs finding.sliced).idxOf finding.configuration.sourceColumn

/-- A row shows the finding: it has its names, its place and a value in its column. -/
structure ShownBy (limit : Nat) (pandas : Pandas) (mapping : SlicedMap)
    (finding : Finding readers runs) (row : TableRow) : Prop where
  names : finding.csvNames limit pandas mapping =
    { library := some row.library, file := some row.file, target := row.target, kind := row.kind }
  line : row.line = intText (finding.csvPlace mapping).line
  column : row.column = intText (finding.csvPlace mapping).column
  filled : (row.cell finding.position).isSome

theorem mergeResults_ok {slicedOnly allPositives : Bool} {table : Table}
    (h : mergeResults readers slicedOnly allPositives runs = .ok table) :
    ∃ merged, mergeRuns readers slicedOnly allPositives runs = .ok merged ∧
      writeCsv readers merged = .ok table := by
  unfold mergeResults at h
  simp only [bind, Except.bind] at h
  split at h
  · cases h
  · next merged hmerged =>
    split at h
    · cases h
    · exact ⟨merged, hmerged, h⟩

/-- The row of the finding in the table of its mode. -/
theorem exists_row (finding : Finding readers runs) {own : Table}
    (h : mergeResults readers finding.sliced true runs = .ok own) :
    Written own ∧ ∃ row ∈ own.rows, row.library = finding.library ∧
      row.target = finding.location.target ∧ row.file = finding.place.file ∧
      row.line = intText finding.place.line ∧ row.column = intText finding.place.column ∧
      row.kind = finding.location.kind.getD [] ∧
      own.columns.idxOf finding.configuration.sourceColumn < own.columns.length ∧
      (row.cell (own.columns.idxOf finding.configuration.sourceColumn)).isSome := by
  obtain ⟨merged, hmerged, htable⟩ := mergeResults_ok h
  obtain ⟨hmem, hname, hfilled⟩ := row_of_reportedBy hmerged htable finding.payload_mem
    finding.reported (by rw [finding.column_eq]; exact Option.some_ne_none _)
  have hindex := List.idxOf_lt_length_iff.mpr hname
  refine ⟨written_of_writeCsv htable, _, hmem, finding.location_spec.1, rfl, rfl, rfl, ?_, rfl,
    hindex, hfilled _ ?_⟩
  · show (finding.location.column.map intText).getD [] = _
    rw [finding.column_eq]
    rfl
  · rw [List.getElem?_eq_getElem hindex, List.getElem_idxOf]

theorem readNames_congr (pandas : Pandas) (rows : List TableRow) {row row' : TableRow}
    (hlibrary : row.library = row'.library) (hfile : row.file = row'.file)
    (htarget : row.target = row'.target) (hkind : row.kind = row'.kind) :
    readNames pandas rows row = readNames pandas rows row' := by
  unfold readNames
  rw [hlibrary, hfile, htarget, hkind]

theorem columnsOf_eq {slicedOnly : Bool} {table : Table}
    (h : mergeResults readers slicedOnly true runs = .ok table) :
    columnsOf readers runs slicedOnly = table.columns := by
  unfold columnsOf
  rw [h]
  rfl

variable {repr : Text → Text} {limit : Nat} {pandas : Pandas} {mapping : SlicedMap}

/-- Without sliced results the table is taken as it is, else the two are joined. -/
theorem allMergedResults_cases {allPositives : Bool} {all : Table}
    (h : allMergedResults readers repr limit pandas mapping allPositives runs = .ok all) :
    ∃ plain, mergeResults readers false allPositives runs = .ok plain ∧
      ((∃ e, mergeResults readers true allPositives runs = .error e ∧ all = plain) ∨
        ∃ sliced relabeled, mergeResults readers true allPositives runs = .ok sliced ∧
          relabelCsv repr limit mapping true "sliced_merged_results.csv".toList sliced =
            .ok relabeled ∧
          mergeOnLocation pandas plain relabeled = .ok all) := by
  unfold allMergedResults at h
  simp only [bind, Except.bind] at h
  split at h
  · cases h
  · next plain hplain =>
    refine ⟨plain, hplain, ?_⟩
    split at h
    · next message hmessage =>
      split at h
      · exact Or.inl ⟨_, hmessage, (Except.ok.inj h).symm⟩
      · cases h
    · cases h
    · next sliced hsliced =>
      split at h
      · cases h
      · next relabeled hrelabeled => exact Or.inr ⟨sliced, relabeled, hsliced, hrelabeled, h⟩

/-- Where the row of a sliced finding is moved to. -/
theorem underMap_row (finding : Finding readers runs) (hmode : finding.sliced = true)
    {path : Text} {table relabeled : Table}
    (hrelabel : relabelCsv repr limit mapping true path table = .ok relabeled) {row : TableRow}
    (hrow : row ∈ table.rows) (hlibrary : row.library = finding.library)
    (hfile : row.file = finding.place.file) (hline : row.line = intText finding.place.line)
    (hcolumn : row.column = intText finding.place.column) :
    ∃ moved ∈ relabeled.rows, moved.library = row.library ∧ moved.target = row.target ∧
      moved.kind = row.kind ∧ moved.cells = row.cells ∧
      moved.file = (finding.csvPlace mapping).file ∧
      moved.line = intText (finding.csvPlace mapping).line ∧
      moved.column = intText (finding.csvPlace mapping).column := by
  refine ⟨underMap limit mapping row, ?_, ?_⟩
  · rw [(relabelCsv_rows hrelabel).2.2.1]
    exact List.mem_map_of_mem hrow
  · rw [underMap_eq hrelabel hrow hline hcolumn, hlibrary, hfile]
    unfold csvPlace
    rw [if_pos hmode]
    cases mapping.get? (strip finding.library, ⟨normalizeFile finding.place.file,
      finding.place.line, finding.place.column⟩) with
    | none => exact ⟨hlibrary, rfl, rfl, rfl, hfile, hline, hcolumn⟩
    | some place => exact ⟨hlibrary, rfl, rfl, rfl, rfl, rfl, rfl⟩

/-- The finding comes into the table unless its names are read as missing. -/
theorem exists_shown (hpandas : pandas.Documented) {all own : Table}
    (hall : allMergedResults readers repr limit pandas mapping true runs = .ok all)
    (finding : Finding readers runs)
    (hown : mergeResults readers finding.sliced true runs = .ok own)
    (hlibrary : (finding.csvNames limit pandas mapping).library ≠ none)
    (hfile : (finding.csvNames limit pandas mapping).file ≠ none) :
    ∃ row ∈ all.rows, finding.ShownBy limit pandas mapping row := by
  obtain ⟨hwritten, row, hrow, hlib, htarget, hplaceFile, hline, hcolumn, hkind, hindex, hfilled⟩ :=
    finding.exists_row hown
  obtain ⟨plain, hplain, hcases⟩ := allMergedResults_cases hall
  have hposition : finding.position = (if finding.sliced then plain.columns.length else 0) +
      own.columns.idxOf finding.configuration.sourceColumn := by
    unfold position
    rw [columnsOf_eq hplain, columnsOf_eq hown]
  rcases hcases with ⟨e, hnone, rfl⟩ | ⟨sliced, relabeled, hsliced, hrelabel, hjoin⟩
  · -- no join: an unsliced finding, as it was written
    have hmode : finding.sliced = false := by
      by_contra hmode
      rw [Bool.not_eq_false] at hmode
      rw [hmode, hnone] at hown
      cases hown
    rw [hmode, hplain] at hown
    obtain rfl := Except.ok.inj hown
    have hplace : finding.csvPlace mapping = finding.place := by
      unfold csvPlace
      rw [if_neg (by simp [hmode])]
    refine ⟨row, hrow, ?_, by rw [hplace, hline], by rw [hplace, hcolumn], ?_⟩
    · unfold csvNames
      rw [hplain, hnone]
      simp only [hplace, hlib, hplaceFile, htarget, hkind]
    · rw [hposition, hmode]
      simpa using hfilled
  · have hnames : finding.csvNames limit pandas mapping = readNames pandas
        (if finding.sliced then sliced.rows.map (underMap limit mapping) else plain.rows)
        (finding.csvRow mapping) := by
      unfold csvNames
      rw [hplain, hsliced]
    cases hmode : finding.sliced with
    | false =>
      rw [hmode, hplain] at hown
      obtain rfl := Except.ok.inj hown
      have hplace : finding.csvPlace mapping = finding.place := by
        unfold csvPlace
        rw [if_neg (by simp [hmode])]
      rw [hmode] at hnames hposition
      have hsame : finding.csvNames limit pandas mapping = readNames pandas plain.rows row := by
        rw [hnames]
        refine readNames_congr _ _ hlib.symm ?_ htarget.symm hkind.symm
        show (finding.csvPlace mapping).file = _
        rw [hplace, hplaceFile]
      rw [hsame] at hlibrary hfile
      obtain ⟨shown, hshown, hshownAs, hcells⟩ :=
        exists_shown_left hpandas hwritten hjoin hrow ⟨hlibrary, hfile⟩
      refine ⟨shown, hshown, hsame.trans hshownAs.names, ?_, ?_, ?_⟩
      · rw [hshownAs.line, hplace, hline]
      · rw [hshownAs.column, hplace, hcolumn]
      · rw [hposition]
        simpa [hcells _ hindex] using hfilled
    | true =>
      rw [hmode, hsliced] at hown
      obtain rfl := Except.ok.inj hown
      obtain ⟨plainMerged, -, hplainCsv⟩ := mergeResults_ok hplain
      obtain ⟨moved, hmoved, hmlib, hmtarget, hmkind, hmcells, hmfile, hmline, hmcolumn⟩ :=
        finding.underMap_row hmode hrelabel hrow hlib hplaceFile hline hcolumn
      rw [hmode, if_pos rfl, ← (relabelCsv_rows hrelabel).2.2.1] at hnames
      rw [hmode] at hposition
      have hsame : finding.csvNames limit pandas mapping =
          readNames pandas relabeled.rows moved := by
        rw [hnames]
        exact readNames_congr _ _ (hmlib.trans hlib).symm hmfile.symm
          (hmtarget.trans htarget).symm (hmkind.trans hkind).symm
      rw [hsame] at hlibrary hfile
      obtain ⟨shown, hshown, hshownAs, hcells⟩ :=
        exists_shown_right hpandas (written_of_writeCsv hplainCsv) (hwritten.relabel hrelabel)
          hjoin hmoved ⟨hlibrary, hfile⟩
      refine ⟨shown, hshown, hsame.trans hshownAs.names, ?_, ?_, ?_⟩
      · rw [hshownAs.line, hmline]
      · rw [hshownAs.column, hmcolumn]
      · rw [hposition, if_pos rfl, hcells]
        unfold TableRow.cell at hfilled ⊢
        rw [hmcells]
        exact hfilled

/-- A finding survives iff it is read and the filter takes it under the names it is read
as. -/
theorem survives_iff (hpandas : pandas.Documented) {filters : FilterConfiguration} {path : Text}
    {all own filtered : Table}
    (hall : allMergedResults readers repr limit pandas mapping true runs = .ok all)
    (hfiltered : filterCsv limit filters path all = .ok filtered) (finding : Finding readers runs)
    (hown : mergeResults readers finding.sliced true runs = .ok own) :
    (∃ row ∈ filtered.rows, finding.ShownBy limit pandas mapping row) ↔
      ∃ library file, (finding.csvNames limit pandas mapping).library = some library ∧
        (finding.csvNames limit pandas mapping).file = some file ∧
        locationMatches filters library file (finding.csvPlace mapping).line = true := by
  constructor
  · rintro ⟨row, hrow, hshown⟩
    refine ⟨row.library, row.file, by rw [hshown.names], by rw [hshown.names], ?_⟩
    exact ((mem_filterCsv hfiltered hshown.line).mp hrow).2
  · rintro ⟨library, file, hlibrary, hfile, hmatches⟩
    obtain ⟨row, hrow, hshown⟩ := finding.exists_shown hpandas hall hown
      (by rw [hlibrary]; exact Option.some_ne_none _) (by rw [hfile]; exact Option.some_ne_none _)
    refine ⟨row, (mem_filterCsv hfiltered hshown.line).mpr ⟨hrow, ?_⟩, hshown⟩
    rw [hshown.names] at hlibrary hfile
    rw [Option.some.inj hlibrary, Option.some.inj hfile]
    exact hmatches

/-! ### In the counts -/

/-- The target of the finding in the summary. -/
def target (options : SummaryOptions) (finding : Finding readers runs) : Text :=
  options.targetKey finding.payload.2.1 finding.metadata

/-- The place of the finding in the summary: the map is asked under the keys of the target
first. -/
def summaryPlace (options : SummaryOptions) (mapping : SlicedMap)
    (finding : Finding readers runs) : Place :=
  if finding.sliced then
    (lookupPlace mapping (libraryLookupCandidates finding.library (finding.target options)
      options.configuredLibraries) finding.place).getD finding.place
  else finding.place

/-- The filter takes the finding under the key of its target, if that has filters. -/
def summaryMatches (options : SummaryOptions) (mapping : SlicedMap)
    (finding : Finding readers runs) : Bool :=
  (filterLookupCandidates finding.library (finding.target options)
    options.filters.librariesWithFilters).any
      (locationMatches options.filters · (finding.summaryPlace options mapping).file
        (finding.summaryPlace options mapping).line)

theorem readSummaryPayload_eq (finding : Finding readers runs) :
    readSummaryPayload finding.payload.2.1 finding.payload.2.2 =
      .ok (finding.rows, finding.metadata) := by
  have hlibrary := finding.library_eq
  have h := finding.read
  unfold readPayload at h
  unfold readSummaryPayload
  cases hpayload : finding.payload.2.2 with
  | dict items =>
    rw [hpayload] at h
    simp only [Value.asDict?] at h ⊢
    cases hdata : (Value.field items "data".toList).asList? with
    | none =>
      -- without rows there is no metadata, and so no library
      rw [hdata] at h
      obtain ⟨-, hmetadata⟩ := Prod.mk.inj (Except.ok.inj h)
      rw [← hmetadata] at hlibrary
      cases hlibrary
    | some rows =>
      rw [hdata] at h
      cases hmetadata : Value.field items "metadata".toList <;> rw [hmetadata] at h
      case null => exact h
      case dict metadata => exact h
      all_goals cases h
  | _ =>
    rw [hpayload] at h
    cases h

theorem countRows_ok {options : SummaryOptions} {path : Text} {sliced : Bool}
    {library target : Text} {rows : List Object} {counts counts' : ConfigurationCounts}
    {rowNumber : Nat}
    (h : countRows readers options path sliced library target counts rowNumber rows = .ok counts')
    {i : Nat} {row : Object} (hrow : rows[i]? = some row) :
    ∃ place, countedPlace readers options path sliced library target (rowNumber + i) row =
      .ok place := by
  induction rows generalizing counts rowNumber i with
  | nil => cases hrow
  | cons first rest ih =>
    unfold countRows at h
    obtain ⟨next, hnext, h⟩ := Sequence.bind_eq_ok_iff.mp h
    cases i with
    | zero =>
      obtain rfl := Option.some.inj hrow
      rcases countRow_cases hnext with ⟨hplace, -⟩ | ⟨_, _, _, _, _, hplace, -, -⟩
      · exact ⟨_, hplace⟩
      · exact ⟨_, hplace⟩
    | succ i =>
      have hrest := ih h hrow
      rw [show rowNumber + (i + 1) = rowNumber + 1 + i by omega]
      exact hrest

/-- The summary has looked at the finding. -/
theorem exists_countedPlace {options : SummaryOptions} {summary : Dict Text ConfigurationCounts}
    (h : collectReproductionStatusCounts readers options runs = .ok summary)
    (finding : Finding readers runs) :
    ∃ place, countedPlace readers options finding.payload.2.1 finding.sliced finding.library
      (finding.target options) (finding.index + 1) finding.row = .ok place := by
  have hcollected := collectReproductionStatusCounts_ok h
  let P : List (ResultRun × (Text × Value)) → Dict Text ConfigurationCounts → Prop :=
    fun done _ => ∀ p ∈ done, ∃ s t,
      collectPayload readers options p.1.metadata s p.2 = .ok t
  -- the run over the payloads raised nowhere, so it did not raise in this one
  have hall : P ([] ++ payloadsOf runs) summary := by
    refine Sequence.foldlM_ok_induction P (overRuns_ok hcollected) [] (by simp [P]) ?_
    intro done payload s t _ hdone hstep p hp
    rcases List.mem_append.mp hp with hp | hp
    · exact hdone p hp
    · obtain rfl := List.mem_singleton.mp hp
      exact ⟨s, t, hstep⟩
  obtain ⟨s, t, hstep⟩ := hall finding.payload finding.payload_mem
  obtain ⟨rows, metadata, column, library, before, after, hread, -, hlibrary, -, hcounts, -⟩ :=
    collectPayload_ok hstep
  obtain ⟨rfl, rfl⟩ := Prod.mk.inj (Except.ok.inj (finding.readSummaryPayload_eq.symm.trans hread))
  obtain rfl := Option.some.inj (finding.library_eq.symm.trans hlibrary)
  rw [Nat.add_comm]
  exact countRows_ok hcounts finding.row_eq

/-- The location of the finding as the summary reads it. -/
theorem readLocation_eq {path : Text} {rowNumber : Nat} (finding : Finding readers runs)
    {result : Text × Int × Option Int}
    (h : readLocation readers path rowNumber finding.row = .ok result) :
    result = (finding.place.file, finding.place.line, some finding.place.column) := by
  obtain ⟨-, ⟨filename, hfilename, hbasename, hfile⟩, hline, hcolumn⟩ := finding.location_spec
  unfold readLocation at h
  simp only [hfilename, hline] at h
  split at h
  · cases h
  · split at h
    · next hnull => exact absurd hnull finding.concrete.1
    · next hempty => exact absurd hempty finding.concrete.2
    · rw [hcolumn] at h
      simp only at h
      unfold readLocation.withBasename at h
      rw [if_neg hbasename] at h
      rw [← Except.ok.inj h]
      show (basenameOnly filename, _, _) = (finding.location.file, _, _)
      rw [hfile]
      rfl

theorem resolveLocation_eq {options : SummaryOptions} {path : Text} {rowNumber : Nat}
    (finding : Finding readers runs) {result : Text × Int × Option Int}
    (h : resolveLocation readers path rowNumber finding.library
      (libraryLookupCandidates finding.library (finding.target options)
        options.configuredLibraries) finding.sliced (some mapping) true finding.row =
        .ok result) :
    result = ((finding.summaryPlace options mapping).file,
      (finding.summaryPlace options mapping).line,
      some (finding.summaryPlace options mapping).column) := by
  unfold resolveLocation at h
  simp only [bind, Except.bind] at h
  split at h
  · cases h
  · next read hread =>
    obtain rfl := finding.readLocation_eq hread
    unfold summaryPlace
    split at h
    · next hmode =>
      rw [if_pos hmode]
      simp only at h
      split at h
      · next image himage =>
        simp only [himage]
        exact (Except.ok.inj h).symm
      · next himage =>
        simp only [himage]
        exact (Except.ok.inj h).symm
    · next hmode =>
      rw [if_neg hmode]
      exact (Except.ok.inj h).symm

/-- **Where the finding counts**, if it does. -/
theorem countedPlace_eq {options : SummaryOptions} (hmap : options.slicedMap = some mapping)
    (hkeep : options.keepUnmapped = true) {summary : Dict Text ConfigurationCounts}
    (h : collectReproductionStatusCounts readers options runs = .ok summary)
    (finding : Finding readers runs) :
    countedPlace readers options finding.payload.2.1 finding.sliced finding.library
        (finding.target options) (finding.index + 1) finding.row =
      .ok (if finding.summaryMatches options mapping then
        some ((finding.summaryPlace options mapping).file,
          (finding.summaryPlace options mapping).line,
          some (finding.summaryPlace options mapping).column)
      else none) := by
  obtain ⟨place, hplace⟩ := finding.exists_countedPlace h
  unfold countedPlace at hplace ⊢
  rw [hmap, hkeep] at hplace ⊢
  simp only [bind, Except.bind] at hplace ⊢
  split at hplace
  · cases hplace
  · next resolved hresolved =>
    obtain rfl := finding.resolveLocation_eq hresolved
    rfl

/-! ### Both -/

/-- The finding survives on its way to the table iff it counts in the summary, and both put
it at the same file, line and column. -/
def Agrees (limit : Nat) (pandas : Pandas) (mapping : SlicedMap) (options : SummaryOptions)
    (filtered : Table) (finding : Finding readers runs) : Prop :=
  ((∃ row ∈ filtered.rows, finding.ShownBy limit pandas mapping row) ↔
    ∃ place, countedPlace readers options finding.payload.2.1 finding.sliced finding.library
      (finding.target options) (finding.index + 1) finding.row = .ok (some place)) ∧
  ∀ place, countedPlace readers options finding.payload.2.1 finding.sliced finding.library
      (finding.target options) (finding.index + 1) finding.row = .ok (some place) →
    ∃ row ∈ filtered.rows, finding.ShownBy limit pandas mapping row ∧
      (row.file, row.line, some row.column) =
        (place.1, intText place.2.1, place.2.2.map intText)

/-- The filter table answers alike for the name of the library, at the place the map has
under that name, and for the key of the target, at the place the map has under the keys of
the target. -/
def FiltersAlike (limit : Nat) (pandas : Pandas) (mapping : SlicedMap) (options : SummaryOptions)
    (finding : Finding readers runs) : Prop :=
  (∃ library file, (finding.csvNames limit pandas mapping).library = some library ∧
      (finding.csvNames limit pandas mapping).file = some file ∧
      locationMatches options.filters library file (finding.csvPlace mapping).line = true) ↔
    finding.summaryMatches options mapping = true

/-- These two places are the same. -/
def PlacesAlike (limit : Nat) (pandas : Pandas) (mapping : SlicedMap) (options : SummaryOptions)
    (finding : Finding readers runs) : Prop :=
  (finding.csvNames limit pandas mapping).file = some (finding.summaryPlace options mapping).file ∧
    (finding.csvPlace mapping).line = (finding.summaryPlace options mapping).line ∧
    (finding.csvPlace mapping).column = (finding.summaryPlace options mapping).column

/-- A shown finding is at the place where it counts iff the places are alike. -/
theorem ShownBy.place_iff {options : SummaryOptions} {finding : Finding readers runs}
    {row : TableRow} (h : finding.ShownBy limit pandas mapping row) :
    (row.file, row.line, some row.column) =
        ((finding.summaryPlace options mapping).file,
          intText (finding.summaryPlace options mapping).line,
          (some (finding.summaryPlace options mapping).column).map intText) ↔
      finding.PlacesAlike limit pandas mapping options := by
  unfold PlacesAlike
  rw [h.names, h.line, h.column]
  simp only [Option.map_some, Prod.mk.injEq, Option.some.injEq, intText_injective.eq_iff]

/-- **Both paths.** For every campaign, filter table and map, and every finding with a line,
a column and a time: the filtered table and the counts agree on it iff the filter answers
alike for the library and for the target, and, where it takes the finding, the map has it at
the same place under either key. -/
theorem paths_agree_iff (hpandas : pandas.Documented) {options : SummaryOptions}
    (hmap : options.slicedMap = some mapping) (hkeep : options.keepUnmapped = true)
    {path : Text} {all own filtered : Table} {summary : Dict Text ConfigurationCounts}
    (hall : allMergedResults readers repr limit pandas mapping true runs = .ok all)
    (hfiltered : filterCsv limit options.filters path all = .ok filtered)
    (hcollect : collectReproductionStatusCounts readers options runs = .ok summary)
    (finding : Finding readers runs)
    (hown : mergeResults readers finding.sliced true runs = .ok own) :
    finding.Agrees limit pandas mapping options filtered ↔
      finding.FiltersAlike limit pandas mapping options ∧
        (finding.summaryMatches options mapping = true →
          finding.PlacesAlike limit pandas mapping options) := by
  -- the summary counts a finding exactly when its own filters let it through
  have hcounted : (∃ place, countedPlace readers options finding.payload.2.1 finding.sliced
      finding.library (finding.target options) (finding.index + 1) finding.row =
        .ok (some place)) ↔ finding.summaryMatches options mapping = true := by
    rw [finding.countedPlace_eq hmap hkeep hcollect]
    cases finding.summaryMatches options mapping <;> simp
  unfold Agrees FiltersAlike
  rw [hcounted, finding.survives_iff hpandas hall hfiltered hown]
  refine and_congr_right fun hfilters => ?_
  rw [finding.countedPlace_eq hmap hkeep hcollect]
  constructor
  · intro hplaces hmatches
    rw [if_pos hmatches] at hplaces
    obtain ⟨row, -, hshown, hplace⟩ := hplaces _ rfl
    exact hshown.place_iff.mp hplace
  · intro hplaces place hplace
    have hmatches : finding.summaryMatches options mapping = true := by
      by_contra hno
      rw [if_neg hno] at hplace
      cases hplace
    rw [if_pos hmatches] at hplace
    obtain rfl := Option.some.inj (Except.ok.inj hplace)
    obtain ⟨row, hrow, hshown⟩ :=
      (finding.survives_iff hpandas hall hfiltered hown).mpr (hfilters.mpr hmatches)
    exact ⟨row, hrow, hshown, hshown.place_iff.mpr (hplaces hmatches)⟩

end Finding

/-! ## One target of OpenSSL -/

/-- A branch of `openssl:mont` in `bn_exp.c`. -/
def montPayload (line : Int) : Value := branchPayload "openssl" "mont" "bn_exp.c" line 5 false

/-- A run with this finding alone. -/
def montRun (line : Int) : ResultRun where
  name := "klee".toList
  metadata :=
    { sourceColumnPrefix := "klee".toList, toolFamily := "klee_cf".toList
      searcher := "default".toList, symSize := "all".toList, cvModel := "all".toList }
  files := some [("a.json".toList, montPayload line)]

/-- The location of the finding. -/
def montLocation (line : Int) : Location where
  library := "openssl".toList
  target := "mont".toList
  file := "bn_exp.c".toList
  line := line
  column := some 5
  kind := some "branch".toList

/-- Its results. -/
def montResults (line : Int) : Merged Nat :=
  oneColumn (kleeColumn "fix_pub" false) [montLocation line]

/-- The row of `filtered_locations.csv` for `openssl_mont`. -/
def montFilterRow : FilterRow where
  library := "openssl_mont".toList
  file := "bn_exp.c".toList
  lineStart := "297".toList
  lineEnd := "471".toList

/-- The filters it makes. -/
def montFilters : FilterConfiguration where
  rangesByLocation := Dict.empty.set ("openssl_mont".toList, "bn_exp.c".toList) [(297, 471)]
  librariesWithFilters := ["openssl_mont".toList]

/-- The summary with this filter. -/
def montOptions : SummaryOptions where
  filters := montFilters
  slicedMap := some .empty
  keepUnmapped := true
  targetByFile := fun _ => []

/-- The finding. -/
def montFinding (line : Int) : Finding wholeReaders [montRun line] where
  payload := (montRun line, "a.json".toList, montPayload line)
  rows := _
  metadata := _
  library := _
  configuration := kleeColumn "fix_pub" false
  index := 0
  row := _
  location := montLocation line
  column := 5
  time := 1
  payload_mem := List.mem_cons_self
  read := rfl
  library_eq := rfl
  configuration_eq := rfl
  row_eq := rfl
  violation := rfl
  column_eq := rfl
  concrete := ⟨nofun, nofun⟩

theorem mergeResults_mont (line : Int) :
    mergeResults wholeReaders false true [montRun line] = .ok (tableOf (montResults line)) := by
  have hsorted : (montResults line).rowLocations.Pairwise fun a b =>
      sortedBefore a.sortKey b.sortKey := by
    show List.Pairwise _ [montLocation line]
    exact List.pairwise_singleton _ _
  exact writeCsv_tableOf rfl hsorted

/-- Without sliced results there is nothing to join. -/
theorem allMergedResults_mont (line : Int) :
    allMergedResults wholeReaders id 0 plainPandas .empty true [montRun line] =
      .ok (tableOf (montResults line)) := by
  have hsliced : mergeResults wholeReaders true true [montRun line] =
      .error (.exit (noResults true)) := rfl
  unfold allMergedResults
  rw [mergeResults_mont, hsliced]
  simp only [bind, Except.bind, List.prefix_refl, if_true]
  rfl

theorem csvNames_mont (line : Int) :
    (montFinding line).csvNames 0 plainPandas .empty =
      { library := some "openssl".toList, file := some "bn_exp.c".toList
        target := "mont".toList, kind := "branch".toList } := by
  have hsliced : mergeResults wholeReaders true true [montRun line] =
      .error (.exit (noResults true)) := rfl
  unfold Finding.csvNames
  rw [mergeResults_mont, hsliced]
  rfl

/-- A finding in the range of the filter. -/
theorem paths_agree_iff_mont :
    ∃ filtered, filterCsv 0 montFilters [] (tableOf (montResults 300)) = .ok filtered ∧
      (montFinding 300).Agrees 0 plainPandas .empty montOptions filtered := by
  refine ⟨_, rfl, ?_⟩
  refine (@Finding.paths_agree_iff Nat wholeReaders [montRun 300] id 0 plainPandas .empty
    documented_plainPandas montOptions rfl rfl [] _ _ _ _ (allMergedResults_mont 300) rfl rfl
    (montFinding 300) (mergeResults_mont 300)).mpr ⟨?_, fun _ => ⟨?_, rfl, rfl⟩⟩
  · unfold Finding.FiltersAlike
    rw [csvNames_mont]
    exact ⟨fun _ => by decide, fun _ => ⟨_, _, rfl, rfl, by decide⟩⟩
  · rw [csvNames_mont]
    rfl

/-- A finding outside the range of the filter for `openssl_mont` is in the table, since the
table asks for `openssl`, and not in the counts. -/
theorem mont_filter_ignored :
    loadFilters 0 [] [montFilterRow] = .ok montFilters ∧ ∃ filtered summary,
      allMergedResults wholeReaders id 0 plainPandas .empty true [montRun 100] =
        .ok (tableOf (montResults 100)) ∧
      filterCsv 0 montFilters [] (tableOf (montResults 100)) = .ok filtered ∧
      collectReproductionStatusCounts wholeReaders montOptions [montRun 100] = .ok summary ∧
      ¬ (montFinding 100).Agrees 0 plainPandas .empty montOptions filtered := by
  obtain ⟨filtered, hfiltered⟩ : ∃ filtered,
      filterCsv 0 montFilters [] (tableOf (montResults 100)) = .ok filtered := ⟨_, rfl⟩
  refine ⟨rfl, filtered, _, allMergedResults_mont 100, hfiltered, rfl, ?_⟩
  rintro ⟨hiff, -⟩
  have hsurvives := ((montFinding 100).survives_iff documented_plainPandas
    (allMergedResults_mont 100) hfiltered (mergeResults_mont 100)).mpr
      ⟨"openssl".toList, "bn_exp.c".toList, by rw [csvNames_mont], by rw [csvNames_mont],
        by decide⟩
  obtain ⟨place, hplace⟩ := hiff.mp hsurvives
  have hnone : countedPlace wholeReaders montOptions (montFinding 100).payload.2.1
      (montFinding 100).sliced (montFinding 100).library ((montFinding 100).target montOptions)
      ((montFinding 100).index + 1) (montFinding 100).row = .ok none := rfl
  rw [hnone] at hplace
  cases hplace

end KleeDeps.Postprocess
