import KleeDeps.Postprocess.Pooling
import KleeDeps.Postprocess.Tables

/-!
# Findings in the wide tables

What the payloads of a campaign report is what `merge_runs` collects, and every location
of it has a row in the table.

- `keysAt_mergeRuns`: the locations in a column are those that its payloads report;
- `Written`: what every table of `write_csv` satisfies (`written_of_writeCsv`);
- `nodup_mergeResults`: **a location has one row**.
-/

namespace KleeDeps.Postprocess

open Py Shared OuterJoin

/-! ## What is reported -/

section Reported

variable {F : Type} (readers : Readers F) (slicedOnly allPositives : Bool)

/-- The findings of a payload with the column they go to, as far as they are merged in this
mode. -/
def reportedBy (payload : ResultRun × (Text × Value)) : List (Text × Location) :=
  match readPayload payload.2.1 payload.2.2, mergedColumn readers slicedOnly payload with
  | .ok (rows, metadata), some column =>
    (rows.filterMap (rowViolation readers allPositives ((libraryOf metadata).getD [])
      (targetOf metadata))).map fun finding => (column.sourceColumn, finding.1)
  | _, _ => []

/-- The locations in a column. -/
def Merged.keysAt (merged : Merged F) (column : Text) : List Location :=
  ((merged.byColumn.get? column).getD .empty).keys

variable {readers slicedOnly allPositives}

theorem mem_keys_raise {findings : List (Location × F)} {found : Dict Location F}
    {location : Location} :
    location ∈ (findings.foldl (raise readers) found).keys ↔
      location ∈ found.keys ∨ location ∈ findings.map Prod.fst := by
  induction findings generalizing found with
  | nil => simp
  | cons finding findings ih =>
    rw [List.foldl_cons, ih, raise, Dict.mem_keys_set, List.map_cons, List.mem_cons]
    tauto

/-- A violation of a payload is the finding of a row. -/
theorem keys_loadViolations {path : Text} {payload : Value} {metadata : Object}
    {found : Dict Location F}
    (h : loadViolations readers allPositives path payload = .ok (metadata, found)) :
    ∃ rows, readPayload path payload = .ok (rows, metadata) ∧
      ∀ location, location ∈ found.keys ↔
        location ∈ (rows.filterMap (rowViolation readers allPositives
          ((libraryOf metadata).getD []) (targetOf metadata))).map Prod.fst := by
  obtain ⟨rows, library, hread, hlibrary, rfl⟩ := loadViolations_ok h
  refine ⟨rows, hread, fun location => ?_⟩
  rw [mem_keys_raise, hlibrary]
  simp [Dict.keys, Dict.empty]

/-- What holds between the tables of `merge_runs` at any time. -/
structure Merged.Sync (merged : Merged F) : Prop where
  undescribed : ∀ column, merged.metadata.get? column = none → merged.keysAt column = []
  described : ∀ column c, merged.metadata.get? column = some c → column ∈ merged.columns

theorem keysAt_openColumn {path : Text} {merged opened : Merged F} {column : ColumnMetadata}
    (hsync : merged.Sync) (h : openColumn path merged column = .ok opened) :
    opened.Sync ∧ column.sourceColumn ∈ opened.columns ∧
      (∀ name, opened.keysAt name = merged.keysAt name) ∧
      ∀ name ∈ merged.columns, name ∈ opened.columns := by
  rcases openColumn_cases h with ⟨hexisting, rfl⟩ | ⟨hnone, rfl⟩
  · exact ⟨hsync, hsync.described _ _ hexisting, fun name => rfl, fun name hname => hname⟩
  · have hkeys : ∀ name, Merged.keysAt
        { columns := merged.columns ++ [column.sourceColumn]
          byColumn := merged.byColumn.set column.sourceColumn .empty
          metadata := merged.metadata.set column.sourceColumn column } name =
            merged.keysAt name := by
      intro name
      unfold Merged.keysAt
      simp only [Dict.get?_set]
      by_cases hname : column.sourceColumn = name
      · -- a column without a description has no findings yet
        subst hname
        rw [if_pos rfl]
        exact (hsync.undescribed _ hnone).symm
      · rw [if_neg hname]
    refine ⟨⟨?_, ?_⟩, by simp, hkeys, fun name hname => by simp [hname]⟩
    · intro name hname
      rw [hkeys]
      refine hsync.undescribed name ?_
      simp only [Dict.get?_set] at hname
      split at hname
      · cases hname
      · exact hname
    · intro name c hc
      simp only [Dict.get?_set] at hc
      rw [List.mem_append, List.mem_singleton]
      split at hc
      · next heq => exact Or.inr heq.symm
      · exact Or.inl (hsync.described name c hc)

/-- **Step lemma**: a payload adds what it reports to its column. -/
theorem keysAt_mergePayload {payload : ResultRun × (Text × Value)} {merged merged' : Merged F}
    (hsync : merged.Sync)
    (h : mergePayload readers slicedOnly allPositives payload.1.metadata merged payload.2 =
      .ok merged') :
    merged'.Sync ∧
      (∀ name location, location ∈ merged'.keysAt name ↔ location ∈ merged.keysAt name ∨
        (name, location) ∈ reportedBy readers slicedOnly allPositives payload) ∧
      (∀ name ∈ merged.columns, name ∈ merged'.columns) ∧
      ∀ c, mergedColumn readers slicedOnly payload = some c → c.sourceColumn ∈ merged'.columns := by
  obtain ⟨metadata, found, hloaded, hcases⟩ := mergePayload_cases h
  obtain ⟨rows, hread, hkeys⟩ := keys_loadViolations hloaded
  rcases hcases with ⟨hcolumn, rfl⟩ | ⟨column, opened, hcolumn, -, hopened, rfl⟩
  · -- a payload of the other mode
    refine ⟨hsync, fun name location => ?_, fun name hname => hname, fun c hc => ?_⟩
    · unfold reportedBy
      rw [hread, hcolumn]
      simp
    · rw [hcolumn] at hc
      cases hc
  · obtain ⟨hopenedSync, hnew, hsame, hold⟩ := keysAt_openColumn hsync hopened
    have hkeysAt : ∀ name, Merged.keysAt { opened with
        byColumn := opened.byColumn.set column.sourceColumn
          (found.items.foldl (raise readers)
            ((opened.byColumn.get? column.sourceColumn).getD .empty)) } name =
        if column.sourceColumn = name then
          (found.items.foldl (raise readers)
            ((opened.byColumn.get? column.sourceColumn).getD .empty)).keys
        else opened.keysAt name := by
      intro name
      unfold Merged.keysAt
      simp only [Dict.get?_set]
      split <;> rfl
    refine ⟨⟨?_, hopenedSync.described⟩, ?_, hold, ?_⟩
    · intro name hnone
      have hne : column.sourceColumn ≠ name := by
        rintro rfl
        have := (openColumn_spec hopened).1
        rw [hnone] at this
        cases this
      rw [hkeysAt, if_neg hne]
      exact hopenedSync.undescribed name hnone
    · intro name location
      have hreported : (name, location) ∈ reportedBy readers slicedOnly allPositives payload ↔
          column.sourceColumn = name ∧ location ∈ found.keys := by
        unfold reportedBy
        rw [hread, hcolumn, hkeys]
        simp [and_comm]
      rw [hkeysAt, hreported, ← hsame name]
      split
      · next heq =>
        subst heq
        rw [mem_keys_raise]
        simp [Merged.keysAt, Dict.keys]
      · next hne => simp [hne]
    · intro c hc
      obtain rfl := Option.some.inj (hcolumn.symm.trans hc)
      exact hnew

/-- **Run lemma**: the locations in a column are those its payloads report. -/
theorem keysAt_mergeRuns {runs : List ResultRun} {merged : Merged F}
    (h : mergeRuns readers slicedOnly allPositives runs = .ok merged) :
    (∀ name location, location ∈ merged.keysAt name ↔ ∃ payload ∈ payloadsOf runs,
      (name, location) ∈ reportedBy readers slicedOnly allPositives payload) ∧
      ∀ payload ∈ payloadsOf runs, ∀ c, mergedColumn readers slicedOnly payload = some c →
        c.sourceColumn ∈ merged.columns := by
  let P : List (ResultRun × (Text × Value)) → Merged F → Prop := fun done merged =>
    merged.Sync ∧
      (∀ name location, location ∈ merged.keysAt name ↔ ∃ payload ∈ done,
        (name, location) ∈ reportedBy readers slicedOnly allPositives payload) ∧
      ∀ payload ∈ done, ∀ c, mergedColumn readers slicedOnly payload = some c →
        c.sourceColumn ∈ merged.columns
  refine (Sequence.foldlM_ok_induction P (overRuns_ok h) [] ?_ ?_).2
  · refine ⟨⟨fun name _ => rfl, fun name c hc => ?_⟩, fun name location => ?_, by simp⟩
    · cases hc
    · simp [Merged.keysAt, Dict.keys, Dict.empty, Dict.get?, Dict.lookup]
  · intro done payload s t _ hdone hstep
    obtain ⟨hsync, hkeys, hcolumns⟩ := hdone
    obtain ⟨hsync', hkeys', hold, hnew⟩ := keysAt_mergePayload hsync hstep
    refine ⟨hsync', fun name location => ?_, fun x hx c hc => ?_⟩
    · rw [hkeys', hkeys]
      simp only [List.mem_append, List.mem_singleton, or_and_right, exists_or, exists_eq_left]
    · rcases List.mem_append.mp hx with hx | hx
      · exact hold _ (hcolumns x hx c hc)
      · exact hnew c (List.mem_singleton.mp hx ▸ hc)

/-- A row counts with its location, its time, and in one of the two modes its status. -/
theorem rowViolation_eq_some {library target : Text} {row : Object} {finding : Location × F}
    (h : rowViolation readers allPositives library target row = some finding) :
    readers.toFloat (Value.field row "non_ct_time".toList) = some finding.2 ∧
      rowLocation readers library target row = some finding.1 := by
  unfold rowViolation at h
  split at h
  · cases h
  · next time htime =>
    split at h
    · obtain ⟨place, hplace, rfl⟩ := Option.map_eq_some_iff.mp h
      exact ⟨htime, hplace⟩
    · cases h

theorem rowLocation_eq_some {library target : Text} {row : Object} {location : Location}
    (h : rowLocation readers library target row = some location) :
    ∃ filename line, (Value.field row "filename".toList).asStr? = some filename ∧
      basenameOnly filename ≠ [] ∧
      readers.toInt (Value.field row "line".toList) = some line ∧
      location =
        { library := library, target := target, file := basenameOnly filename, line := line
          column := readers.toInt (Value.field row "column".toList)
          kind := normalizeKind (Value.field row "kind".toList) } := by
  unfold rowLocation at h
  split at h
  · cases h
  · next filename hfilename =>
    split at h
    · cases h
    · next hname =>
      split at h
      · cases h
      · next line hline =>
        exact ⟨filename, line, hfilename, hname, hline, (Option.some.inj h).symm⟩

theorem exists_of_reportedBy {payload : ResultRun × (Text × Value)} {name : Text}
    {location : Location}
    (h : (name, location) ∈ reportedBy readers slicedOnly allPositives payload) :
    (∃ c, mergedColumn readers slicedOnly payload = some c ∧ c.sourceColumn = name) ∧
      ∃ library target row, rowLocation readers library target row = some location := by
  unfold reportedBy at h
  split at h
  · next rows metadata column hread hcolumn =>
    obtain ⟨finding, hfinding, heq⟩ := List.mem_map.mp h
    obtain ⟨rfl, rfl⟩ := Prod.mk.inj heq
    refine ⟨⟨column, hcolumn, rfl⟩, (libraryOf metadata).getD [], targetOf metadata, ?_⟩
    obtain ⟨row, -, hrow⟩ := List.mem_filterMap.mp hfinding
    exact ⟨row, (rowViolation_eq_some hrow).2⟩
  · cases h

/-- A location names a kind or none, never an empty one. -/
theorem kind_ne_of_rowLocation {library target : Text} {row : Object} {location : Location}
    (h : rowLocation readers library target row = some location) : location.kind ≠ some [] := by
  obtain ⟨filename, line, -, -, -, rfl⟩ := rowLocation_eq_some h
  show normalizeKind _ ≠ some []
  unfold normalizeKind
  split
  · exact nofun
  · split
    · exact nofun
    · next hne => exact fun heq => hne (Option.some.inj heq)

end Reported

/-- The location of a row. -/
def TableRow.location (row : TableRow) : List Text :=
  [row.library, row.target, row.file, row.line, row.column, row.kind]

/-- A cell of a row. -/
def TableRow.cell (row : TableRow) (i : Nat) : Option Text := row.cells[i]?.join

/-- How many cells of a column are not empty. -/
def Table.filled (table : Table) (i : Nat) : Nat :=
  table.rows.countP fun row => (row.cell i).isSome

/-! ## Tables as they are written -/

/-- What `write_csv` promises of a table: lines and columns are numbers, and a row has a
cell for each column, some of them filled. -/
structure Written (table : Table) : Prop where
  numbers : ∀ row ∈ table.rows, ∃ line column, row.line = intText line ∧ row.column = intText column
  width : ∀ row ∈ table.rows, row.cells.length = table.columns.length
  filled : ∀ row ∈ table.rows, ∃ i < table.columns.length, (row.cell i).isSome

section Write

variable {F : Type} {readers : Readers F} {merged : Merged F}

theorem mem_locations {location : Location} :
    location ∈ merged.locations ↔ ∃ column ∈ merged.columns,
      location ∈ ((merged.byColumn.get? column).getD .empty).keys := List.mem_flatMap

/-- A location of the rows is a finding's, or stands for one without a column. -/
theorem mem_rowLocations {location : Location} (h : location ∈ merged.rowLocations) :
    (∃ n, location.column = some n) ∧
      (location ∈ merged.locations ∨ location.wildcard ∈ merged.locations) := by
  unfold Merged.rowLocations at h
  rw [List.mem_dedup, List.mem_append] at h
  rcases h with h | h
  · obtain ⟨hmem, hcolumn⟩ := List.mem_filter.mp h
    exact ⟨Option.ne_none_iff_exists'.mp (of_decide_eq_true hcolumn), Or.inl hmem⟩
  · obtain ⟨wild, hwild, rfl⟩ := List.mem_map.mp h
    obtain ⟨hmem, hnone⟩ := List.mem_filter.mp hwild
    have hcolumn : wild.column = none := (of_decide_eq_true hnone).1
    refine ⟨⟨0, rfl⟩, Or.inr ?_⟩
    have hself : Location.wildcard { wild with column := some 0 } = wild := by
      unfold Location.wildcard
      rw [← hcolumn]
    exact hself.symm ▸ hmem

/-- A concrete finding has a row. -/
theorem mem_rowLocations_of_concrete {location : Location} (h : location ∈ merged.locations)
    (hcolumn : location.column ≠ none) : location ∈ merged.rowLocations := by
  unfold Merged.rowLocations
  rw [List.mem_dedup]
  exact List.mem_append_left _ (List.mem_filter.mpr ⟨h, decide_eq_true hcolumn⟩)

theorem writeCsv_rows {table : Table} (h : writeCsv readers merged = .ok table) :
    table.columns = merged.columns ∧
      table.rows.Perm (merged.rowLocations.map (merged.row readers)) := by
  unfold writeCsv at h
  simp only [bind, Except.bind] at h
  split at h
  · cases h
  · obtain rfl := Except.ok.inj h
    exact ⟨rfl, (List.mergeSort_perm _ _).map _⟩

/-- The cell of a finding is filled. -/
theorem isSome_cell {location : Location} {column : Text}
    (h : location ∈ ((merged.byColumn.get? column).getD .empty).keys ∨
      location.wildcard ∈ ((merged.byColumn.get? column).getD .empty).keys) :
    (merged.cell readers location column).isSome := by
  unfold Merged.cell
  rw [Option.isSome_map]
  rcases h with h | h
  · obtain ⟨v, hv⟩ := Dict.exists_get?_of_mem_keys h
    rw [hv]
    rfl
  · obtain ⟨v, hv⟩ := Dict.exists_get?_of_mem_keys h
    rw [hv, Option.isSome_or]
    simp

theorem cell_row {location : Location} {i : Nat} {column : Text}
    (h : merged.columns[i]? = some column) :
    (merged.row readers location).cell i = merged.cell readers location column := by
  unfold TableRow.cell Merged.row
  rw [List.getElem?_map, h]
  rfl

theorem written_of_writeCsv {table : Table} (h : writeCsv readers merged = .ok table) :
    Written table := by
  obtain ⟨hcolumns, hrows⟩ := writeCsv_rows h
  have hrow : ∀ row ∈ table.rows, ∃ location ∈ merged.rowLocations,
      merged.row readers location = row := fun row hrow =>
    List.mem_map.mp (hrows.mem_iff.mp hrow)
  refine ⟨?_, ?_, ?_⟩
  · intro row hmem
    obtain ⟨location, hlocation, rfl⟩ := hrow row hmem
    obtain ⟨⟨n, hn⟩, -⟩ := mem_rowLocations hlocation
    refine ⟨location.line, n, rfl, ?_⟩
    show (location.column.map intText).getD [] = _
    rw [hn]
    rfl
  · intro row hmem
    obtain ⟨location, -, rfl⟩ := hrow row hmem
    rw [hcolumns]
    exact List.length_map _
  · intro row hmem
    obtain ⟨location, hlocation, rfl⟩ := hrow row hmem
    -- the column of the finding that the row stands for
    obtain ⟨column, hcolumn, hkeys⟩ : ∃ column ∈ merged.columns,
        location ∈ ((merged.byColumn.get? column).getD .empty).keys ∨
          location.wildcard ∈ ((merged.byColumn.get? column).getD .empty).keys := by
      rcases (mem_rowLocations hlocation).2 with hmem | hmem
      · obtain ⟨column, hcolumn, hkeys⟩ := mem_locations.mp hmem
        exact ⟨column, hcolumn, Or.inl hkeys⟩
      · obtain ⟨column, hcolumn, hkeys⟩ := mem_locations.mp hmem
        exact ⟨column, hcolumn, Or.inr hkeys⟩
    obtain ⟨i, hi⟩ := List.mem_iff_getElem?.mp hcolumn
    refine ⟨i, ?_, ?_⟩
    · rw [hcolumns]
      exact (List.getElem?_eq_some_iff.mp hi).1
    · rw [cell_row hi]
      exact isSome_cell hkeys

/-- The row of a location tells it apart from the others. -/
theorem location_injective {a b : Location} (ha : a.kind ≠ some []) (hb : b.kind ≠ some [])
    {n m : Int} (hn : a.column = some n) (hm : b.column = some m)
    (h : (merged.row readers a).location = (merged.row readers b).location) : a = b := by
  obtain ⟨library, target, file, line, column, kind⟩ := a
  obtain ⟨library', target', file', line', column', kind'⟩ := b
  obtain rfl : column = some n := hn
  obtain rfl : column' = some m := hm
  simp only [TableRow.location, Merged.row, Option.map_some, Option.getD_some, List.cons.injEq,
    and_true] at h
  obtain ⟨rfl, rfl, rfl, hline, hcolumn, hkind⟩ := h
  obtain rfl := intText_injective hline
  obtain rfl := intText_injective hcolumn
  have hsame : kind = kind' := by
    rcases kind with _ | kind <;> rcases kind' with _ | kind'
    · rfl
    · obtain rfl : kind' = [] := hkind.symm
      exact absurd rfl hb
    · obtain rfl : kind = [] := hkind
      exact absurd rfl ha
    · exact congrArg some hkind
  rw [hsame]

end Write

section Campaign

variable {F : Type} {readers : Readers F} {slicedOnly allPositives : Bool} {runs : List ResultRun}
  {merged : Merged F} {table : Table}

/-- **One row for each location** in the tables of a campaign. -/
theorem nodup_mergeResults (hmerged : mergeRuns readers slicedOnly allPositives runs = .ok merged)
    (htable : writeCsv readers merged = .ok table) :
    (table.rows.map TableRow.location).Nodup := by
  have hkinds : ∀ location ∈ merged.locations, location.kind ≠ some [] := by
    intro location hlocation
    obtain ⟨name, -, hkeys⟩ := mem_locations.mp hlocation
    obtain ⟨payload, -, hreported⟩ := ((keysAt_mergeRuns hmerged).1 name location).mp hkeys
    obtain ⟨-, library, target, row, hrow⟩ := exists_of_reportedBy hreported
    exact kind_ne_of_rowLocation hrow
  have hspec : ∀ location ∈ merged.rowLocations,
      location.kind ≠ some [] ∧ ∃ n, location.column = some n := by
    intro location hlocation
    obtain ⟨hcolumn, hmem⟩ := mem_rowLocations hlocation
    refine ⟨?_, hcolumn⟩
    rcases hmem with hmem | hmem
    · exact hkinds location hmem
    · exact hkinds location.wildcard hmem
  rw [((writeCsv_rows htable).2.map _).nodup_iff, List.map_map]
  refine List.Nodup.map_on ?_ (List.nodup_dedup _)
  intro a ha b hb hab
  obtain ⟨hakind, n, hn⟩ := hspec a ha
  obtain ⟨hbkind, m, hm⟩ := hspec b hb
  exact location_injective hakind hbkind hn hm hab

/-- Every concrete finding has its row, with a filled cell in its column. -/
theorem row_of_reportedBy (hmerged : mergeRuns readers slicedOnly allPositives runs = .ok merged)
    (htable : writeCsv readers merged = .ok table) {payload : ResultRun × (Text × Value)}
    (hpayload : payload ∈ payloadsOf runs) {name : Text} {location : Location}
    (hreported : (name, location) ∈ reportedBy readers slicedOnly allPositives payload)
    (hcolumn : location.column ≠ none) :
    merged.row readers location ∈ table.rows ∧ name ∈ table.columns ∧
      ∀ i, table.columns[i]? = some name → ((merged.row readers location).cell i).isSome := by
  obtain ⟨hkeys, hcolumns⟩ := keysAt_mergeRuns hmerged
  obtain ⟨⟨c, hc, rfl⟩, -⟩ := exists_of_reportedBy hreported
  have hname := hcolumns payload hpayload c hc
  have hmem := (hkeys c.sourceColumn location).mpr ⟨payload, hpayload, hreported⟩
  obtain ⟨htableColumns, hrows⟩ := writeCsv_rows htable
  refine ⟨?_, htableColumns ▸ hname, fun i hi => ?_⟩
  · rw [hrows.mem_iff]
    exact List.mem_map_of_mem
      (mem_rowLocations_of_concrete (mem_locations.mpr ⟨_, hname, hmem⟩) hcolumn)
  · rw [htableColumns] at hi
    rw [cell_row hi]
    exact isSome_cell (Or.inl hmem)

end Campaign

end KleeDeps.Postprocess
