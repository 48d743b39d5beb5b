import KleeDeps.Postprocess.Joining
import Mathlib.Order.Lattice
import Mathlib.Order.Defs.LinearOrder

/-!
# What the wide table says

The table of a campaign has a row for each location and a column for each configuration. A cell
holds the longest time of the findings of its column at its location; a finding without a source
column stands in every row of its line.

- `acceptedBy`, `times`: the rows that count, and the times they have at a location;
- `timeAt_mergeRuns`: **a column holds the maximum of the times**;
- `wide_table`: **every finding is in the table, and nothing else is**.
-/

namespace KleeDeps.Postprocess

open Py Shared

/-! ### Maxima -/

section Maxima

variable {F : Type} [LinearOrder F]

/-- The maximum of two parts of a list is that of their maxima. -/
theorem max?_append (xs ys : List F) : (xs ++ ys).max? = Option.merge max xs.max? ys.max? := by
  induction xs with
  | nil => rw [List.nil_append, List.max?_nil, Option.merge_none_left]
  | cons x xs ih =>
    rw [List.cons_append, List.max?_cons, List.max?_cons, ih]
    cases xs.max? with
    | none =>
      cases ys.max? with
      | none => rfl
      | some y => rfl
    | some m =>
      cases ys.max? with
      | none => rfl
      | some y => exact congrArg some (max_assoc x m y).symm

theorem max?_congr {xs ys : List F} (h : ∀ x, x ∈ xs ↔ x ∈ ys) : xs.max? = ys.max? := by
  refine Option.ext fun m => ?_
  rw [List.max?_eq_some_iff, List.max?_eq_some_iff, h]
  exact and_congr_right fun _ => forall_congr' fun x => by rw [h]

end Maxima

/-! ### The times of a column -/

section Times

variable {F : Type} (readers : Readers F) (slicedOnly allPositives : Bool)

/-- The times that findings have at a location. -/
def timesAt (findings : List (Location × F)) (location : Location) : List F :=
  findings.filterMap fun finding => if finding.1 = location then some finding.2 else none

/-- The accepted rows of a payload, with the column they go to. -/
def acceptedBy (payload : ResultRun × (Text × Value)) : List (Text × (Location × F)) :=
  match readPayload payload.2.1 payload.2.2, mergedColumn readers slicedOnly payload with
  | .ok (rows, metadata), some column =>
    (rows.filterMap (rowViolation readers allPositives ((libraryOf metadata).getD [])
      (targetOf metadata))).map fun finding => (column.sourceColumn, finding)
  | _, _ => []

/-- The times of the accepted rows of a payload, in a column and at a location. -/
def payloadTimes (name : Text) (location : Location) (payload : ResultRun × (Text × Value)) :
    List F :=
  timesAt (((acceptedBy readers slicedOnly allPositives payload).filter fun accepted =>
    decide (accepted.1 = name)).map Prod.snd) location

/-- The times of all accepted rows, in a column and at a location. -/
def times (runs : List ResultRun) (name : Text) (location : Location) : List F :=
  (payloadsOf runs).flatMap (payloadTimes readers slicedOnly allPositives name location)

/-- What a column holds at a location. -/
def Merged.timeAt (merged : Merged F) (name : Text) (location : Location) : Option F :=
  ((merged.byColumn.get? name).getD .empty).get? location

variable {readers slicedOnly allPositives}

theorem timesAt_append (xs ys : List (Location × F)) (location : Location) :
    timesAt (xs ++ ys) location = timesAt xs location ++ timesAt ys location :=
  List.filterMap_append

theorem timesAt_cons (finding : Location × F) (findings : List (Location × F))
    (location : Location) : timesAt (finding :: findings) location =
      if finding.1 = location then finding.2 :: timesAt findings location
      else timesAt findings location := by
  unfold timesAt
  rw [List.filterMap_cons]
  split
  · next hnone =>
    split at hnone
    · cases hnone
    · next hne => rw [if_neg hne]
  · next time hsome =>
    split at hsome
    · next heq => rw [if_pos heq, Option.some.inj hsome]
    · cases hsome

theorem timesAt_items (found : Dict Location F) (location : Location) :
    timesAt found.items location = (found.get? location).toList := by
  obtain ⟨items, hnodup⟩ := found
  show timesAt items location = (Dict.lookup location items).toList
  induction items with
  | nil => rfl
  | cons item items ih =>
    obtain ⟨key, value⟩ := item
    rw [List.map_cons, List.nodup_cons] at hnodup
    rw [Dict.lookup]
    by_cases hkey : key = location
    · subst hkey
      -- the key is not among the other items
      have hnone : timesAt items key = [] := by
        rw [timesAt, List.filterMap_eq_nil_iff]
        intro item hitem
        exact if_neg fun heq => hnodup.1 (List.mem_map.mpr ⟨item, hitem, heq⟩)
      rw [if_pos rfl, timesAt_cons, if_pos rfl, hnone]
      rfl
    · rw [if_neg hkey, timesAt_cons, if_neg hkey]
      exact ih hnodup.2

/-- A new column starts empty, and changes no other. -/
theorem timeAt_openColumn {path : Text} {merged opened : Merged F} {column : ColumnMetadata}
    (hsync : merged.Sync) (h : openColumn path merged column = .ok opened) (name : Text)
    (location : Location) : opened.timeAt name location = merged.timeAt name location := by
  rcases openColumn_cases h with ⟨-, rfl⟩ | ⟨hnone, rfl⟩
  · rfl
  · unfold Merged.timeAt
    dsimp only
    rw [Dict.get?_set]
    split
    · next hname =>
      subst hname
      -- a column that was not described holds no times
      have hkeys := hsync.undescribed _ hnone
      have hget : ((merged.byColumn.get? column.sourceColumn).getD .empty).get? location = none := by
        by_contra hne
        obtain ⟨time, htime⟩ := Option.ne_none_iff_exists'.mp hne
        have hmem : location ∈ merged.keysAt column.sourceColumn := Dict.mem_keys_of_get? htime
        rw [hkeys] at hmem
        cases hmem
      rw [hget]
      rfl
    · rfl

variable [LinearOrder F]

/-- Raising a location by findings makes it the maximum of what it was and of their times. -/
theorem get?_raise (hmax : ∀ a b, readers.max a b = max a b) (found : Dict Location F)
    (findings : List (Location × F)) (location : Location) :
    (findings.foldl (raise readers) found).get? location =
      Option.merge max (found.get? location) (timesAt findings location).max? := by
  induction findings using List.reverseRecOn with
  | nil => exact Option.merge_none_right.symm
  | append_singleton findings finding ih =>
    rw [List.foldl_append, List.foldl_cons, List.foldl_nil, raise, Dict.get?_set, timesAt_append,
      max?_append]
    by_cases hkey : finding.1 = location
    · subst hkey
      have hone : timesAt [finding] finding.1 = [finding.2] := by
        rw [timesAt_cons, if_pos rfl]
        rfl
      rw [if_pos rfl, ih, hone, List.max?_singleton]
      -- what was there, and the maximum of the times so far
      cases found.get? finding.1 with
      | none =>
        cases (timesAt findings finding.1).max? with
        | none => rfl
        | some m => exact congrArg some (hmax m finding.2)
      | some known =>
        cases (timesAt findings finding.1).max? with
        | none => exact congrArg some (hmax known finding.2)
        | some m =>
          show some (readers.max (max known m) finding.2) = some (max known (max m finding.2))
          rw [hmax, max_assoc]
    · have hnone : timesAt [finding] location = [] := by
        rw [timesAt_cons, if_neg hkey]
        rfl
      rw [if_neg hkey, ih, hnone, List.max?_nil, Option.merge_none_right]

theorem loadViolations_spec (hmax : ∀ a b, readers.max a b = max a b) {path : Text}
    {payload : Value} {metadata : Object} {found : Dict Location F}
    (h : loadViolations readers allPositives path payload = .ok (metadata, found)) :
    ∃ rows, readPayload path payload = .ok (rows, metadata) ∧
      ∀ location, found.get? location = (timesAt (rows.filterMap (rowViolation readers allPositives
        ((libraryOf metadata).getD []) (targetOf metadata))) location).max? := by
  obtain ⟨rows, library, hread, hlibrary, rfl⟩ := loadViolations_ok h
  refine ⟨rows, hread, fun location => ?_⟩
  rw [get?_raise hmax, hlibrary, Option.getD_some, Dict.get?_empty, Option.merge_none_left]

/-- **Step lemma**: a payload raises its column by the times of its accepted rows. -/
theorem timeAt_mergePayload (hmax : ∀ a b, readers.max a b = max a b)
    {payload : ResultRun × (Text × Value)} {merged merged' : Merged F} (hsync : merged.Sync)
    (h : mergePayload readers slicedOnly allPositives payload.1.metadata merged payload.2 =
      .ok merged') (name : Text) (location : Location) :
    merged'.timeAt name location = Option.merge max (merged.timeAt name location)
      (payloadTimes readers slicedOnly allPositives name location payload).max? := by
  obtain ⟨metadata, found, hloaded, hcases⟩ := mergePayload_cases h
  obtain ⟨rows, hread, hfound⟩ := loadViolations_spec hmax hloaded
  rcases hcases with ⟨hcolumn, rfl⟩ | ⟨column, opened, hcolumn, -, hopened, rfl⟩
  · -- a payload of the other mode
    have hnone : payloadTimes readers slicedOnly allPositives name location payload = [] := by
      unfold payloadTimes acceptedBy
      rw [hread, hcolumn]
      rfl
    rw [hnone, List.max?_nil, Option.merge_none_right]
  · have hsame := timeAt_openColumn hsync hopened
    have hpayload : payloadTimes readers slicedOnly allPositives name location payload =
        if column.sourceColumn = name then timesAt (rows.filterMap (rowViolation readers
          allPositives ((libraryOf metadata).getD []) (targetOf metadata))) location
        else [] := by
      unfold payloadTimes acceptedBy
      rw [hread, hcolumn]
      dsimp only
      by_cases hname : column.sourceColumn = name
      · rw [if_pos hname, List.filter_eq_self.mpr, List.map_map]
        · exact congrArg (timesAt · location) (List.map_id _)
        · intro accepted haccepted
          obtain ⟨finding, -, rfl⟩ := List.mem_map.mp haccepted
          exact decide_eq_true hname
      · rw [if_neg hname, List.filter_eq_nil_iff.mpr]
        · rfl
        · intro accepted haccepted
          obtain ⟨finding, -, rfl⟩ := List.mem_map.mp haccepted
          simpa using hname
    rw [hpayload, ← hsame]
    unfold Merged.timeAt
    dsimp only
    rw [Dict.get?_set]
    by_cases hname : column.sourceColumn = name
    · subst hname
      rw [if_pos rfl, if_pos rfl, Option.getD_some, get?_raise hmax, timesAt_items, ← hfound]
      cases found.get? location with
      | none => rfl
      | some time => rfl
    · rw [if_neg hname, if_neg hname, List.max?_nil, Option.merge_none_right]

/-- **Run lemma**: a column holds the maximum of the times of its accepted rows. -/
theorem timeAt_mergeRuns (hmax : ∀ a b, readers.max a b = max a b) {runs : List ResultRun}
    {merged : Merged F} (h : mergeRuns readers slicedOnly allPositives runs = .ok merged)
    (name : Text) (location : Location) : merged.timeAt name location =
      (times readers slicedOnly allPositives runs name location).max? := by
  let P : List (ResultRun × (Text × Value)) → Merged F → Prop := fun done merged =>
    merged.Sync ∧ merged.timeAt name location =
      (done.flatMap (payloadTimes readers slicedOnly allPositives name location)).max?
  refine (Sequence.foldlM_ok_induction P (overRuns_ok h) [] ?_ ?_).2
  · exact ⟨⟨fun name _ => rfl, fun name c hc => (by cases hc)⟩, rfl⟩
  · intro done payload s t _ hdone hstep
    obtain ⟨hsync, htime⟩ := hdone
    refine ⟨(keysAt_mergePayload hsync hstep).1, ?_⟩
    rw [timeAt_mergePayload hmax hsync hstep, htime, List.flatMap_append, List.flatMap_singleton,
      max?_append]

end Times

/-! ### The table -/

section Table

variable {F : Type} {readers : Readers F} {slicedOnly allPositives : Bool}
  {runs : List ResultRun} {merged : Merged F} {table : Table}

/-- A row is on the line of a location and of its kind. -/
structure TableRow.OnLine (row : TableRow) (location : Location) : Prop where
  library : row.library = location.library
  target : row.target = location.target
  file : row.file = location.file
  line : row.line = intText location.line
  kind : row.kind = location.kind.getD []

theorem onLine_of_wildcard {location place : Location} (h : place.wildcard = location.wildcard) :
    (merged.row readers place).OnLine location := by
  obtain ⟨library, target, file, line, column, kind⟩ := place
  obtain ⟨library', target', file', line', column', kind'⟩ := location
  simp only [Location.wildcard, Location.mk.injEq, true_and] at h
  obtain ⟨rfl, rfl, rfl, rfl, rfl⟩ := h
  exact ⟨rfl, rfl, rfl, rfl, rfl⟩

theorem mem_keysAt_iff {name : Text} {location : Location} :
    location ∈ merged.keysAt name ↔ ∃ time, merged.timeAt name location = some time :=
  ⟨Dict.exists_get?_of_mem_keys, fun ⟨_, htime⟩ => Dict.mem_keys_of_get? htime⟩

/-- A location with findings has a row of its line that shows them: its own, those of the line's
columns if it has none, or that of column 0. -/
theorem exists_row {name : Text} {location : Location} (hname : name ∈ merged.columns)
    (hmem : location ∈ merged.keysAt name) :
    ∃ place ∈ merged.rowLocations, place.wildcard = location.wildcard ∧
      (place = location ∨ location.column = none) ∧
      (merged.cell readers place name).isSome := by
  have hlocation : location ∈ merged.locations := mem_locations.mpr ⟨name, hname, hmem⟩
  by_cases hcolumn : location.column = none
  · have hwildcard : location.wildcard = location := by
      unfold Location.wildcard
      rw [← hcolumn]
    by_cases hconcrete : ∃ place ∈ merged.locations, place.column ≠ none ∧
        place.wildcard = location
    · -- the findings stand in the rows of the columns that others report
      obtain ⟨place, hplace, hsome, hwild⟩ := hconcrete
      refine ⟨place, mem_rowLocations_of_concrete hplace hsome, hwild.trans hwildcard.symm,
        .inr hcolumn, isSome_cell (.inr ?_)⟩
      rw [hwild]
      exact hmem
    · have hzero : Location.wildcard { location with column := some 0 } = location := by
        unfold Location.wildcard
        rw [← hcolumn]
      refine ⟨{ location with column := some 0 }, ?_, rfl, .inr hcolumn, isSome_cell (.inr ?_)⟩
      · unfold Merged.rowLocations
        rw [List.mem_dedup]
        refine List.mem_append_right _ (List.mem_map.mpr ⟨location, ?_, rfl⟩)
        refine List.mem_filter.mpr ⟨hlocation, decide_eq_true ⟨hcolumn, fun hin => ?_⟩⟩
        obtain ⟨place, hplace, hwild⟩ := List.mem_map.mp hin
        obtain ⟨hin, hsome⟩ := List.mem_filter.mp hplace
        exact hconcrete ⟨place, hin, of_decide_eq_true hsome, hwild⟩
      · rw [hzero]
        exact hmem
  · exact ⟨location, mem_rowLocations_of_concrete hlocation hcolumn, rfl, .inl rfl,
      isSome_cell (.inl hmem)⟩

/-- A cell shows what its column holds at the place of the row, or on its line without a
column. -/
theorem timeAt_of_cell {place : Location} {name text : Text}
    (h : merged.cell readers place name = some text) :
    ∃ location time, (location = place ∨ location = place.wildcard) ∧
      merged.timeAt name location = some time ∧ readers.fixed2 time = text := by
  unfold Merged.cell at h
  obtain ⟨time, htime, rfl⟩ := Option.map_eq_some_iff.mp h
  cases hown : ((merged.byColumn.get? name).getD .empty).get? place with
  | some own =>
    rw [hown, Option.some_or] at htime
    obtain rfl := Option.some.inj htime
    exact ⟨place, own, .inl rfl, hown, rfl⟩
  | none =>
    rw [hown, Option.none_or] at htime
    exact ⟨place.wildcard, time, .inr rfl, htime, rfl⟩

variable [LinearOrder F]

/-- **The wide table represents every finding and no other**: a column holds the maximum of the
times of its accepted rows at a location, whatever their order; in the table no location has two
rows, every finding of a column shows in a row of its line, and every cell shows a finding of its
column on its line, at its source column or without one. -/
theorem wide_table (hmax : ∀ a b, readers.max a b = max a b)
    (hmerged : mergeRuns readers slicedOnly allPositives runs = .ok merged)
    (htable : writeCsv readers merged = .ok table) :
    (∀ name location, merged.timeAt name location =
      (times readers slicedOnly allPositives runs name location).max?) ∧
    (∀ runs' merged', mergeRuns readers slicedOnly allPositives runs' = .ok merged' →
      (∀ name location time, time ∈ times readers slicedOnly allPositives runs name location ↔
        time ∈ times readers slicedOnly allPositives runs' name location) →
      ∀ name location, merged'.timeAt name location = merged.timeAt name location) ∧
    (table.rows.map TableRow.location).Nodup ∧
    (∀ name location, times readers slicedOnly allPositives runs name location ≠ [] →
      ∃ i, table.columns[i]? = some name ∧
        ∃ row ∈ table.rows, row.OnLine location ∧ (row.cell i).isSome) ∧
    ∀ i name, table.columns[i]? = some name → ∀ row ∈ table.rows, ∀ text,
      row.cell i = some text → ∃ location time,
        (times readers slicedOnly allPositives runs name location).max? = some time ∧
        readers.fixed2 time = text ∧ row.OnLine location ∧
        (location.column = none ∨ ∃ n, location.column = some n ∧ row.column = intText n) := by
  have htimes := timeAt_mergeRuns hmax hmerged
  obtain ⟨hcolumns, hrows⟩ := writeCsv_rows htable
  refine ⟨htimes, fun runs' merged' hmerged' hsame name location => ?_,
    nodup_mergeResults hmerged htable, fun name location hne => ?_,
    fun i name hi row hrow text hcell => ?_⟩
  · rw [htimes, timeAt_mergeRuns hmax hmerged']
    exact max?_congr fun time => (hsame name location time).symm
  · -- a time that was read makes its location a key of the merged column
    have hmem : location ∈ merged.keysAt name := by
      rw [mem_keysAt_iff, htimes]
      exact Option.isSome_iff_exists.mp (List.isSome_max?_of_ne_nil hne)
    have hname : name ∈ merged.columns := by
      obtain ⟨hkeys, hin⟩ := keysAt_mergeRuns hmerged
      obtain ⟨payload, hpayload, hreported⟩ := (hkeys name location).mp hmem
      obtain ⟨⟨c, hc, rfl⟩, -⟩ := exists_of_reportedBy hreported
      exact hin payload hpayload c hc
    obtain ⟨i, hi⟩ := List.mem_iff_getElem?.mp hname
    obtain ⟨place, hplace, hwild, -, hcell⟩ := @exists_row _ readers _ _ _ hname hmem
    refine ⟨i, by rw [hcolumns, hi], merged.row readers place, ?_, onLine_of_wildcard hwild, ?_⟩
    · rw [hrows.mem_iff]
      exact List.mem_map_of_mem hplace
    · rw [cell_row hi]
      exact hcell
  · obtain ⟨place, hplace, rfl⟩ := List.mem_map.mp (hrows.mem_iff.mp hrow)
    rw [hcolumns] at hi
    rw [cell_row hi] at hcell
    obtain ⟨location, time, hlocation, htime, htext⟩ := timeAt_of_cell hcell
    rw [htimes] at htime
    obtain ⟨⟨n, hn⟩, -⟩ := mem_rowLocations hplace
    refine ⟨location, time, htime, htext, ?_, ?_⟩
    · -- the cell comes from the place itself or from the wildcard of its line
      rcases hlocation with rfl | rfl
      · exact onLine_of_wildcard rfl
      · exact onLine_of_wildcard rfl
    · rcases hlocation with rfl | rfl
      · refine .inr ⟨n, hn, ?_⟩
        show (location.column.map intText).getD [] = intText n
        rw [hn]
        rfl
      · exact .inl rfl

end Table

/-- The table of a run with one finding under each of two configurations. -/
theorem wide_table_kleeRun :
    ∃ merged table, mergeRuns wholeReaders false true
        [kleeRun (oneRow "fix_pub" false) (oneRow "var_pub" false)] = .ok merged ∧
      writeCsv wholeReaders merged = .ok table ∧ (table.rows.map TableRow.location).Nodup := by
  obtain ⟨merged, hmerged⟩ : ∃ merged, mergeRuns wholeReaders false true
      [kleeRun (oneRow "fix_pub" false) (oneRow "var_pub" false)] = .ok merged := ⟨_, rfl⟩
  obtain ⟨table, htable⟩ : ∃ table, writeCsv wholeReaders merged = .ok table := by
    obtain ⟨sidecar, hsidecar⟩ : ∃ sidecar,
        writeColumnMetadata merged.columns merged.metadata = .ok sidecar := by
      obtain rfl := Except.ok.inj hmerged
      exact ⟨_, rfl⟩
    unfold writeCsv
    rw [hsidecar]
    exact ⟨_, rfl⟩
  exact ⟨merged, table, hmerged, htable, (wide_table (fun _ _ => rfl) hmerged htable).2.2.1⟩

end KleeDeps.Postprocess
