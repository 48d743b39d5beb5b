import KleeDeps.Data.Sequence
import KleeDeps.Postprocess.ReproductionStatus

/-!
# Which payloads are pooled

Both consumers of the merged payloads accumulate under the name of a column, which is the
destination name of the run, a marker and the name of the configuration, one behind the
other. Different payloads may come out with the same name.

- `nameClash_iff`: when two such names are equal;
- `mergedAgree`: `merge_runs` stops before it pools different configurations;
- `total_collect`: the counts of a configuration are the sum over all payloads of that
  name;
- `pooling_iff`: **the counts pool equal configurations only iff no two names clash**.
-/

namespace KleeDeps.Postprocess

open Py Shared Replay

/-! ## Names of columns -/

/-- What a column is named after. -/
structure ColumnName where
  destination : Text
  sliced : Bool
  config : Text
  deriving DecidableEq, Repr

/-- What stands behind the destination. -/
def ColumnName.tail (name : ColumnName) : Text :=
  (if name.sliced then "_sliced_".toList else ['_']) ++ name.config

/-- The text of the name. -/
def ColumnName.text (name : ColumnName) : Text := name.destination ++ name.tail

/-- The name of a column of a run. -/
def columnName (run : RunMetadata) (column : ColumnMetadata) : ColumnName where
  destination := run.sourceColumnPrefix
  sliced := column.sliced
  config := column.config

/-- Two different names, the destination of the second going on where the first has the
beginning of its tail. In one run: a sliced case of some configuration `c` and an unsliced
one of a configuration `sliced_c`. -/
def Clash (a b : ColumnName) : Prop :=
  a ≠ b ∧ ∃ rest, b.destination = a.destination ++ rest ∧ a.tail = rest ++ b.tail

theorem nameClash_iff {a b : ColumnName} (hne : a ≠ b) :
    a.text = b.text ↔ Clash a b ∨ Clash b a := by
  unfold ColumnName.text Clash
  rw [List.append_eq_append_iff]
  constructor
  · rintro (⟨rest, hdest, htail⟩ | ⟨rest, hdest, htail⟩)
    · exact Or.inl ⟨hne, rest, hdest, htail⟩
    · exact Or.inr ⟨hne.symm, rest, hdest, htail⟩
  · rintro (⟨-, rest, hdest, htail⟩ | ⟨-, rest, hdest, htail⟩)
    · exact Or.inl ⟨rest, hdest, htail⟩
    · exact Or.inr ⟨rest, hdest, htail⟩

theorem buildColumnMetadata_ok {run : RunMetadata} {items : Object} {column : ColumnMetadata}
    (h : buildColumnMetadata run items = .ok column) :
    ∃ case, column =
      { sourceColumn := buildSourceColumn run case
        toolFamily := run.toolFamily
        comparisonTool :=
          if case.sliced then run.toolFamily ++ "_sliced".toList else run.toolFamily
        sliced := case.sliced
        searcher := run.searcher
        symSize := run.symSize
        config := case.config
        cvModel := run.cvModel
        configurationLabel := configurationLabel run.searcher run.symSize case.config
          run.cvModel } := by
  unfold buildColumnMetadata at h
  split at h
  · cases h
  · next case _ => exact ⟨case, (Except.ok.inj h).symm⟩

/-- A column carries its name. -/
theorem sourceColumn_eq {run : RunMetadata} {items : Object} {column : ColumnMetadata}
    (h : buildColumnMetadata run items = .ok column) :
    column.sourceColumn = (columnName run column).text := by
  obtain ⟨case, rfl⟩ := buildColumnMetadata_ok h
  show buildSourceColumn run case = _
  unfold buildSourceColumn ColumnName.text ColumnName.tail columnName
  cases case.sliced <;> simp

/-- A column is determined by its run and its name. -/
theorem column_unique {run : RunMetadata} {items items' : Object} {c c' : ColumnMetadata}
    (h : buildColumnMetadata run items = .ok c) (h' : buildColumnMetadata run items' = .ok c')
    (hname : columnName run c = columnName run c') : c = c' := by
  obtain ⟨⟨config, sliced⟩, rfl⟩ := buildColumnMetadata_ok h
  obtain ⟨⟨config', sliced'⟩, rfl⟩ := buildColumnMetadata_ok h'
  obtain ⟨-, rfl, rfl⟩ := ColumnName.mk.inj hname
  rfl

/-! ## The loop over the payloads -/

theorem overRuns_ok {σ : Type} {step : RunMetadata → σ → Text × Value → Except Exc σ} {s t : σ}
    {runs : List ResultRun} (h : overRuns step s runs = .ok t) :
    (payloadsOf runs).foldlM (fun s p => step p.1.metadata s p.2) s = .ok t := by
  induction runs generalizing s with
  | nil => exact h
  | cons run rest ih =>
    unfold overRuns at h
    split at h
    · cases h
    · next files hfiles =>
      simp only [bind, Except.bind] at h
      split at h
      · cases h
      · next s' hs' =>
        have hflat : payloadsOf (run :: rest) = files.map (run, ·) ++ payloadsOf rest := by
          simp [payloadsOf, hfiles]
        rw [hflat, List.foldlM_append, List.foldlM_map, hs']
        exact ih h

/-- Two payloads that are pooled have the same description and come from the same run,
with the same configuration and the same `sliced` flag. -/
def Agree (a b : ResultRun × ColumnMetadata) : Prop :=
  a.2 = b.2 ∧ a.1 = b.1 ∧ a.2.config = b.2.config ∧ a.2.sliced = b.2.sliced

/-- With distinct destinations the description decides the run. -/
theorem agree_of_column {runs : List ResultRun}
    (hnames : (runs.map fun run => run.metadata.sourceColumnPrefix).Nodup)
    {r r' : ResultRun} (hr : r ∈ runs) (hr' : r' ∈ runs) {items items' : Object}
    {c : ColumnMetadata} (h : buildColumnMetadata r.metadata items = .ok c)
    (h' : buildColumnMetadata r'.metadata items' = .ok c) : Agree (r, c) (r', c) := by
  have htext : (columnName r.metadata c).text = (columnName r'.metadata c).text := by
    rw [← sourceColumn_eq h, ← sourceColumn_eq h']
  have hprefix : r.metadata.sourceColumnPrefix = r'.metadata.sourceColumnPrefix :=
    List.append_cancel_right htext
  exact ⟨rfl, List.inj_on_of_nodup_map hnames hr hr' hprefix, rfl, rfl⟩

/-! ## `merge_runs` -/

section Merge

variable {F : Type} (readers : Readers F) (slicedOnly : Bool)

/-- The column `merge_runs` adds a payload to: `none` if it leaves the payload out. -/
def mergedColumn (payload : ResultRun × (Text × Value)) : Option ColumnMetadata :=
  match readPayload payload.2.1 payload.2.2 with
  | .error _ => none
  | .ok (_, metadata) =>
    if Experiments.truthy readers.floatTruth (Value.field metadata "sliced".toList) = slicedOnly
    then (buildColumnMetadata payload.1.metadata metadata).toOption
    else none

variable {readers slicedOnly}

/-- A column is opened if it is new, and described alike if it is not. -/
theorem openColumn_cases {path : Text} {merged merged' : Merged F} {column : ColumnMetadata}
    (h : openColumn path merged column = .ok merged') :
    merged.metadata.get? column.sourceColumn = some column ∧ merged' = merged ∨
      merged.metadata.get? column.sourceColumn = none ∧
        merged' =
          { columns := merged.columns ++ [column.sourceColumn]
            byColumn := merged.byColumn.set column.sourceColumn .empty
            metadata := merged.metadata.set column.sourceColumn column } := by
  unfold openColumn at h
  split at h
  · next existing hexisting =>
    split at h
    · cases h
    · next hsame =>
      rw [not_not] at hsame
      exact Or.inl ⟨hsame ▸ hexisting, (Except.ok.inj h).symm⟩
  · next hnone => exact Or.inr ⟨hnone, (Except.ok.inj h).symm⟩

theorem openColumn_spec {path : Text} {merged merged' : Merged F} {column : ColumnMetadata}
    (h : openColumn path merged column = .ok merged') :
    merged'.metadata.get? column.sourceColumn = some column ∧
      ∀ k c, merged.metadata.get? k = some c → merged'.metadata.get? k = some c := by
  rcases openColumn_cases h with ⟨hexisting, rfl⟩ | ⟨hnone, rfl⟩
  · exact ⟨hexisting, fun k c hk => hk⟩
  · refine ⟨Dict.get?_set_self _ _ _, fun k c hk => ?_⟩
    rw [Dict.get?_set_of_ne, hk]
    rintro rfl
    rw [hnone] at hk
    cases hk

/-- The violations of a payload are raised over the findings of its rows. -/
theorem loadViolations_ok {allPositives : Bool} {path : Text} {payload : Value}
    {metadata : Object} {found : Dict Location F}
    (h : loadViolations readers allPositives path payload = .ok (metadata, found)) :
    ∃ rows library, readPayload path payload = .ok (rows, metadata) ∧
      libraryOf metadata = some library ∧
      found = (rows.filterMap (rowViolation readers allPositives library
        (targetOf metadata))).foldl (raise readers) .empty := by
  unfold loadViolations at h
  simp only [bind, Except.bind] at h
  split at h
  · cases h
  · next read hread =>
    split at h
    · cases h
    · split at h
      · cases h
      · next library hlibrary =>
        obtain ⟨rfl, rfl⟩ := Prod.mk.inj (Except.ok.inj h)
        exact ⟨read.1, library, hread, hlibrary, rfl⟩

/-- A payload of the other mode leaves the tables as they are; one of this mode opens its column
and raises the values there. -/
theorem mergePayload_cases {allPositives : Bool} {payload : ResultRun × (Text × Value)}
    {merged merged' : Merged F}
    (h : mergePayload readers slicedOnly allPositives payload.1.metadata merged payload.2 =
      .ok merged') :
    ∃ metadata found,
      loadViolations readers allPositives payload.2.1 payload.2.2 = .ok (metadata, found) ∧
      (mergedColumn readers slicedOnly payload = none ∧ merged' = merged ∨
        ∃ column opened, mergedColumn readers slicedOnly payload = some column ∧
          buildColumnMetadata payload.1.metadata metadata = .ok column ∧
          openColumn payload.2.1 merged column = .ok opened ∧
          merged' = { opened with
            byColumn := opened.byColumn.set column.sourceColumn
              (found.items.foldl (raise readers)
                ((opened.byColumn.get? column.sourceColumn).getD .empty)) }) := by
  unfold mergePayload at h
  simp only [bind, Except.bind] at h
  split at h
  · cases h
  · next loaded hloaded =>
    obtain ⟨metadata, found⟩ := loaded
    refine ⟨metadata, found, hloaded, ?_⟩
    obtain ⟨rows, -, hread, -, -⟩ := loadViolations_ok hloaded
    unfold mergedColumn
    rw [hread]
    dsimp only at h ⊢
    split at h
    · next hother =>
      rw [if_neg hother]
      exact Or.inl ⟨rfl, (Except.ok.inj h).symm⟩
    · next hmode =>
      rw [if_pos (not_not.mp hmode)]
      split at h
      · cases h
      · next column hcolumn =>
        rw [hcolumn]
        split at h
        · cases h
        · next opened hopened =>
          exact Or.inr ⟨column, opened, rfl, rfl, hopened, (Except.ok.inj h).symm⟩

/-- **Step lemma** of the loop: a payload leaves its own description behind, and none of
the earlier ones changes. -/
theorem mergePayload_spec {allPositives : Bool} {payload : ResultRun × (Text × Value)}
    {merged merged' : Merged F}
    (h : mergePayload readers slicedOnly allPositives payload.1.metadata merged payload.2 =
      .ok merged') :
    (∀ c, mergedColumn readers slicedOnly payload = some c →
        merged'.metadata.get? c.sourceColumn = some c) ∧
      ∀ k c, merged.metadata.get? k = some c → merged'.metadata.get? k = some c := by
  obtain ⟨_, _, -, ⟨hnone, rfl⟩ | ⟨column, opened, hcolumn, -, hopened, rfl⟩⟩ :=
    mergePayload_cases h
  · refine ⟨fun c hc => ?_, fun k c hk => hk⟩
    rw [hnone] at hc
    cases hc
  · -- the column is described when it is opened, and described columns stay
    obtain ⟨hown, hold⟩ := openColumn_spec hopened
    refine ⟨fun c hc => ?_, hold⟩
    obtain rfl := Option.some.inj (hcolumn.symm.trans hc)
    exact hown

/-- **Run lemma**: after the loop every payload finds its own description under its name. -/
theorem described_of_mergeRuns {allPositives : Bool} {runs : List ResultRun} {merged : Merged F}
    (h : mergeRuns readers slicedOnly allPositives runs = .ok merged) :
    ∀ payload ∈ payloadsOf runs, ∀ c, mergedColumn readers slicedOnly payload = some c →
      merged.metadata.get? c.sourceColumn = some c := by
  let P : List (ResultRun × (Text × Value)) → Merged F → Prop := fun done merged =>
    ∀ payload ∈ done, ∀ c, mergedColumn readers slicedOnly payload = some c →
      merged.metadata.get? c.sourceColumn = some c
  have hrun := Sequence.foldlM_ok_induction P (overRuns_ok h) [] (by simp [P]) ?_
  · exact hrun
  · intro done payload s t _ hdone hstep
    obtain ⟨hnew, hold⟩ := mergePayload_spec hstep
    intro x hx c hc
    rcases List.mem_append.mp hx with hx | hx
    · exact hold _ _ (hdone x hx c hc)
    · exact hnew c (List.mem_singleton.mp hx ▸ hc)

/-- Payloads that `merge_runs` adds to one column agree. -/
def MergedAgree (readers : Readers F) (slicedOnly : Bool) (runs : List ResultRun) : Prop :=
  ∀ p ∈ payloadsOf runs, ∀ q ∈ payloadsOf runs, ∀ c d,
    mergedColumn readers slicedOnly p = some c → mergedColumn readers slicedOnly q = some d →
    c.sourceColumn = d.sourceColumn → Agree (p.1, c) (q.1, d)

theorem mem_runs_of_mem_payloadsOf {runs : List ResultRun} {p : ResultRun × (Text × Value)}
    (h : p ∈ payloadsOf runs) : p.1 ∈ runs := by
  obtain ⟨run, hrun, hp⟩ := List.mem_flatMap.mp h
  obtain ⟨file, -, rfl⟩ := List.mem_map.mp hp
  exact hrun

theorem exists_items_of_mergedColumn {p : ResultRun × (Text × Value)} {c : ColumnMetadata}
    (h : mergedColumn readers slicedOnly p = some c) :
    ∃ items, buildColumnMetadata p.1.metadata items = .ok c := by
  unfold mergedColumn at h
  split at h
  · cases h
  · next metadata _ =>
    split at h
    · refine ⟨metadata, ?_⟩
      cases hbuild : buildColumnMetadata p.1.metadata metadata with
      | error e =>
        rw [hbuild] at h
        cases h
      | ok column =>
        rw [hbuild] at h
        rw [Option.some.inj h]
    · cases h

/-- **`merge_runs`** pools equal configurations only. -/
theorem mergedAgree {allPositives : Bool} {runs : List ResultRun} {merged : Merged F}
    (hnames : (runs.map fun run => run.metadata.sourceColumnPrefix).Nodup)
    (h : mergeRuns readers slicedOnly allPositives runs = .ok merged) :
    MergedAgree readers slicedOnly runs := by
  intro p hp q hq c d hc hd hsame
  have hdescribed := described_of_mergeRuns h
  have hcolumn : c = d := by
    have hleft := hdescribed p hp c hc
    rw [hsame, hdescribed q hq d hd] at hleft
    exact (Option.some.inj hleft).symm
  subst hcolumn
  obtain ⟨items, hitems⟩ := exists_items_of_mergedColumn hc
  obtain ⟨items', hitems'⟩ := exists_items_of_mergedColumn hd
  exact agree_of_column hnames (mem_runs_of_mem_payloadsOf hp) (mem_runs_of_mem_payloadsOf hq)
    hitems hitems'

end Merge

/-! ## `collect_reproduction_status_counts` -/

section Collect

variable {F : Type} (readers : Readers F) (options : SummaryOptions)

/-- The column a payload is counted under. -/
def countedColumn (payload : ResultRun × (Text × Value)) : Option ColumnMetadata :=
  match readSummaryPayload payload.2.1 payload.2.2 with
  | .error _ => none
  | .ok (_, metadata) => (buildColumnMetadata payload.1.metadata metadata).toOption

/-- The bucket a row counts in. -/
def rowBucket (path : Text) (sliced : Bool) (library target : Text) (rowNumber : Nat)
    (row : Object) : Option Bucket :=
  match countedPlace readers options path sliced library target rowNumber row with
  | .ok (some (file, line, column)) =>
    (resolveStatusBucket readers (locationContext path rowNumber library file line column)
      (Value.field row "reproduced_status".toList)).toOption
  | _ => none

/-- The buckets of the rows, from a row number on. -/
def rowBuckets (path : Text) (sliced : Bool) (library target : Text) (rowNumber : Nat) :
    List Object → List Bucket
  | [] => []
  | row :: rest =>
    (rowBucket readers options path sliced library target rowNumber row).toList ++
      rowBuckets path sliced library target (rowNumber + 1) rest

/-- The buckets of a payload. -/
def payloadBuckets (payload : ResultRun × (Text × Value)) : List Bucket :=
  match readSummaryPayload payload.2.1 payload.2.2 with
  | .error _ => []
  | .ok (rows, metadata) =>
    match libraryOf metadata with
    | none => []
    | some library =>
      rowBuckets readers options payload.2.1
        (Experiments.truthy readers.floatTruth (Value.field metadata "sliced".toList)) library
        (options.targetKey payload.2.1 metadata) 1 rows

/-- The counts under a name. -/
def totalUnder (summary : Dict Text ConfigurationCounts) (name : Text) (bucket : Bucket) : Nat :=
  match summary.get? name with
  | none => 0
  | some counts => counts.total bucket

/-- The payloads that are counted under a name. -/
def countedUnder (payloads : List (ResultRun × (Text × Value))) (name : Text) :
    List (ResultRun × (Text × Value)) :=
  payloads.filter fun payload => (countedColumn payload).map (·.sourceColumn) = some name

variable {readers options}

/-- A row is left out, or it is counted in its bucket. -/
theorem countRow_cases {path : Text} {sliced : Bool} {library target : Text}
    {counts counts' : ConfigurationCounts} {rowNumber : Nat} {row : Object}
    (h : countRow readers options path sliced library target counts rowNumber row = .ok counts') :
    countedPlace readers options path sliced library target rowNumber row = .ok none ∧
        counts' = counts ∨
      ∃ file line column bucket kind,
        countedPlace readers options path sliced library target rowNumber row =
          .ok (some (file, line, column)) ∧
        resolveStatusBucket readers (locationContext path rowNumber library file line column)
          (Value.field row "reproduced_status".toList) = .ok bucket ∧
        counts' = counts.count library target kind bucket := by
  unfold countRow at h
  obtain ⟨place, hplace, h⟩ := Sequence.bind_eq_ok_iff.mp h
  cases place with
  | none => exact Or.inl ⟨hplace, (Except.ok.inj h).symm⟩
  | some place =>
    obtain ⟨file, line, column⟩ := place
    obtain ⟨bucket, hbucket, h⟩ := Sequence.bind_eq_ok_iff.mp h
    obtain ⟨kind, -, h⟩ := Sequence.bind_eq_ok_iff.mp h
    exact Or.inr ⟨file, line, column, bucket, kind, hplace, hbucket, (Except.ok.inj h).symm⟩

theorem countRow_total {path : Text} {sliced : Bool} {library target : Text}
    {counts counts' : ConfigurationCounts} {rowNumber : Nat} {row : Object}
    (h : countRow readers options path sliced library target counts rowNumber row = .ok counts')
    (bucket : Bucket) :
    counts'.total bucket = counts.total bucket +
      (rowBucket readers options path sliced library target rowNumber row).toList.count
        bucket := by
  unfold rowBucket
  rcases countRow_cases h with ⟨hplace, rfl⟩ | ⟨_, _, _, found, _, hplace, hfound, rfl⟩
  · rw [hplace]
    rfl
  · rw [hplace]
    simp only [hfound, Except.toOption, Option.toList_some]
    show Function.update counts.total found (counts.total found + 1) bucket = _
    -- one bucket is raised by one
    by_cases hb : found = bucket
    · subst hb
      simp
    · rw [Function.update_of_ne (Ne.symm hb), List.count_singleton]
      simp [hb]

/-- **Run lemma** of the inner loop. -/
theorem countRows_total {path : Text} {sliced : Bool} {library target : Text} {rows : List Object}
    {counts counts' : ConfigurationCounts} {rowNumber : Nat}
    (h : countRows readers options path sliced library target counts rowNumber rows = .ok counts')
    (bucket : Bucket) :
    counts'.total bucket = counts.total bucket +
      (rowBuckets readers options path sliced library target rowNumber rows).count bucket := by
  induction rows generalizing counts rowNumber with
  | nil =>
    obtain rfl := Except.ok.inj h
    rfl
  | cons row rest ih =>
    unfold countRows at h
    simp only [bind, Except.bind] at h
    split at h
    · cases h
    · next next hnext =>
      rw [ih h, countRow_total hnext, rowBuckets, List.count_append, Nat.add_assoc]

/-- A payload is counted row by row, in the counts of its column. -/
theorem collectPayload_ok {run : RunMetadata} {file : Text × Value}
    {summary summary' : Dict Text ConfigurationCounts}
    (h : collectPayload readers options run summary file = .ok summary') :
    ∃ rows metadata column library before after,
      readSummaryPayload file.1 file.2 = .ok (rows, metadata) ∧
      buildColumnMetadata run metadata = .ok column ∧ libraryOf metadata = some library ∧
      (∀ bucket, before.total bucket = totalUnder summary column.sourceColumn bucket) ∧
      countRows readers options file.1
        (Experiments.truthy readers.floatTruth (Value.field metadata "sliced".toList)) library
        (options.targetKey file.1 metadata) before 1 rows = .ok after ∧
      summary' = summary.set column.sourceColumn after := by
  unfold collectPayload at h
  obtain ⟨⟨rows, metadata⟩, hread, h⟩ := Sequence.bind_eq_ok_iff.mp h
  dsimp only at h
  split at h
  · cases h
  · obtain ⟨column, hcolumn, h⟩ := Sequence.bind_eq_ok_iff.mp h
    split at h
    · cases h
    · next library hlibrary =>
      obtain ⟨after, hafter, h⟩ := Sequence.bind_eq_ok_iff.mp h
      refine ⟨rows, metadata, column, library, _, after, hread, hcolumn, hlibrary,
        fun bucket => ?_, hafter, (Except.ok.inj h).symm⟩
      unfold totalUnder
      cases summary.get? column.sourceColumn <;> rfl

/-- **Step lemma**: a payload adds its buckets under its own name. -/
theorem collectPayload_total {payload : ResultRun × (Text × Value)}
    {summary summary' : Dict Text ConfigurationCounts}
    (h : collectPayload readers options payload.1.metadata summary payload.2 = .ok summary')
    (name : Text) (bucket : Bucket) :
    totalUnder summary' name bucket = totalUnder summary name bucket +
      if (countedColumn payload).map (·.sourceColumn) = some name then
        (payloadBuckets readers options payload).count bucket
      else 0 := by
  obtain ⟨rows, metadata, column, library, before, after, hread, hcolumn, hlibrary, hbefore,
    hcounts, rfl⟩ := collectPayload_ok h
  have htotal := countRows_total hcounts bucket
  unfold countedColumn payloadBuckets
  rw [hread]
  simp only [hcolumn, hlibrary, Except.toOption, Option.map_some, Option.some.injEq]
  by_cases hname : column.sourceColumn = name
  · subst hname
    rw [if_pos rfl, ← hbefore, ← htotal, totalUnder, Dict.get?_set_self]
  · rw [if_neg hname, totalUnder, totalUnder, Dict.get?_set_of_ne _ hname, Nat.add_zero]

theorem collectReproductionStatusCounts_ok {runs : List ResultRun}
    {summary : Dict Text ConfigurationCounts}
    (h : collectReproductionStatusCounts readers options runs = .ok summary) :
    overRuns (collectPayload readers options) .empty runs = .ok summary := by
  unfold collectReproductionStatusCounts at h
  obtain ⟨collected, hcollected, h⟩ := Sequence.bind_eq_ok_iff.mp h
  split at h
  · cases h
  · obtain rfl := Except.ok.inj h
    exact hcollected

/-- **Run lemma**: the counts under a name are those of all payloads of that name. -/
theorem total_collect {runs : List ResultRun} {summary : Dict Text ConfigurationCounts}
    (h : collectReproductionStatusCounts readers options runs = .ok summary) (name : Text)
    (bucket : Bucket) :
    totalUnder summary name bucket =
      ((countedUnder (payloadsOf runs) name).flatMap
        (payloadBuckets readers options)).count bucket := by
  have hcollected := collectReproductionStatusCounts_ok h
  let P : List (ResultRun × (Text × Value)) → Dict Text ConfigurationCounts → Prop :=
    fun done summary => totalUnder summary name bucket =
      ((countedUnder done name).flatMap (payloadBuckets readers options)).count bucket
  refine Sequence.foldlM_ok_induction P (overRuns_ok hcollected) [] rfl ?_
  intro done payload s t _ hdone hstep
  show totalUnder t name bucket = _
  rw [collectPayload_total hstep, hdone, countedUnder, countedUnder, List.filter_append,
    List.flatMap_append, List.count_append, List.filter_singleton]
  congr 1
  split
  · next hname => simp [hname]
  · next hname => simp [hname]

/-- Payloads that are counted under one name agree. -/
def CountsAgree (runs : List ResultRun) : Prop :=
  ∀ name, ∀ p ∈ countedUnder (payloadsOf runs) name, ∀ q ∈ countedUnder (payloadsOf runs) name,
    ∀ c d, countedColumn p = some c → countedColumn q = some d → Agree (p.1, c) (q.1, d)

/-- No two payloads have clashing names. -/
def NoClash (runs : List ResultRun) : Prop :=
  ∀ p ∈ payloadsOf runs, ∀ q ∈ payloadsOf runs, ∀ c d, countedColumn p = some c →
    countedColumn q = some d → ¬ Clash (columnName p.1.metadata c) (columnName q.1.metadata d)

theorem exists_items_of_countedColumn {p : ResultRun × (Text × Value)} {c : ColumnMetadata}
    (h : countedColumn p = some c) :
    ∃ items, buildColumnMetadata p.1.metadata items = .ok c := by
  unfold countedColumn at h
  split at h
  · cases h
  · next metadata _ =>
    refine ⟨metadata, ?_⟩
    cases hbuild : buildColumnMetadata p.1.metadata metadata with
    | error e =>
      rw [hbuild] at h
      cases h
    | ok column =>
      rw [hbuild] at h
      rw [Option.some.inj h]

theorem mem_countedUnder {payloads : List (ResultRun × (Text × Value))} {name : Text}
    {p : ResultRun × (Text × Value)} {c : ColumnMetadata} (hc : countedColumn p = some c) :
    p ∈ countedUnder payloads name ↔ p ∈ payloads ∧ c.sourceColumn = name := by
  rw [countedUnder, List.mem_filter, decide_eq_true_eq, hc, Option.map_some, Option.some.injEq]

/-- **The counts** pool equal configurations only iff no names clash. -/
theorem countsAgree_iff {runs : List ResultRun}
    (hnames : (runs.map fun run => run.metadata.sourceColumnPrefix).Nodup) :
    CountsAgree runs ↔ NoClash runs := by
  constructor
  · intro hagree p hp q hq c d hc hd hclash
    obtain ⟨items, hitems⟩ := exists_items_of_countedColumn hc
    obtain ⟨items', hitems'⟩ := exists_items_of_countedColumn hd
    have htext : c.sourceColumn = d.sourceColumn := by
      rw [sourceColumn_eq hitems, sourceColumn_eq hitems']
      exact (nameClash_iff hclash.1).mpr (Or.inl hclash)
    obtain ⟨hcolumn, hrun, -⟩ := hagree d.sourceColumn p
      ((mem_countedUnder hc).mpr ⟨hp, htext⟩) q ((mem_countedUnder hd).mpr ⟨hq, rfl⟩) c d hc hd
    exact hclash.1 (by rw [show c = d from hcolumn, show p.1 = q.1 from hrun])
  · intro hno name p hp q hq c d hc hd
    obtain ⟨hp, hcname⟩ := (mem_countedUnder hc).mp hp
    obtain ⟨hq, hdname⟩ := (mem_countedUnder hd).mp hq
    obtain ⟨items, hitems⟩ := exists_items_of_countedColumn hc
    obtain ⟨items', hitems'⟩ := exists_items_of_countedColumn hd
    have htext : (columnName p.1.metadata c).text = (columnName q.1.metadata d).text := by
      rw [← sourceColumn_eq hitems, ← sourceColumn_eq hitems', hcname, hdname]
    have hname : columnName p.1.metadata c = columnName q.1.metadata d := by
      by_contra hne
      rcases (nameClash_iff hne).mp htext with hclash | hclash
      · exact hno p hp q hq c d hc hd hclash
      · exact hno q hq p hp d c hd hc hclash
    have hrun : p.1 = q.1 :=
      List.inj_on_of_nodup_map hnames (mem_runs_of_mem_payloadsOf hp)
        (mem_runs_of_mem_payloadsOf hq) (congrArg ColumnName.destination hname)
    rw [← hrun] at hitems' hname
    have hcolumn : c = d := column_unique hitems hitems' hname
    exact ⟨hcolumn, hrun, by rw [hcolumn], by rw [hcolumn]⟩

/-- **What is pooled.** For every set of runs with distinct destinations: whenever
`merge_runs` returns, it has pooled equal configurations only; whenever
`collect_reproduction_status_counts` returns, its counts are the sums over the payloads of
one name, and these are of equal configurations iff no two names clash. -/
theorem pooling_iff (readers : Readers F) (options : SummaryOptions) (runs : List ResultRun)
    (hnames : (runs.map fun run => run.metadata.sourceColumnPrefix).Nodup) :
    (∀ slicedOnly allPositives merged,
      mergeRuns readers slicedOnly allPositives runs = .ok merged →
      MergedAgree readers slicedOnly runs) ∧
    (∀ summary, collectReproductionStatusCounts readers options runs = .ok summary →
      (∀ name bucket, totalUnder summary name bucket =
        ((countedUnder (payloadsOf runs) name).flatMap
          (payloadBuckets readers options)).count bucket) ∧
      (CountsAgree runs ↔ NoClash runs)) :=
  ⟨fun _ _ _ h => mergedAgree hnames h,
    fun _ h => ⟨total_collect h, countsAgree_iff hnames⟩⟩

end Collect

/-! ## One run -/

/-- Whole numbers in place of floats. -/
def wholeReaders : Readers Nat where
  toFloat := fun value => value.asInt?.map Int.toNat
  toInt := Value.asInt?
  max := max
  fixed2 := decimal
  floatTruth := fun _ => true

/-- No filters, and an empty map. -/
def noFilters : SummaryOptions where
  filters := { rangesByLocation := .empty, librariesWithFilters := [] }
  slicedMap := some .empty
  keepUnmapped := true
  targetByFile := fun _ => []

/-- A payload with one reproduced finding. -/
def oneRow (config : String) (sliced : Bool) : Value :=
  .dict [("data".toList, .list [.dict
      [("filename".toList, .str "a.c".toList), ("line".toList, .int 1),
       ("column".toList, .int 1), ("kind".toList, .str "branch".toList),
       ("non_ct_time".toList, .int 1),
       ("reproduced_status".toList, .dict [("success".toList, .int 1)])]]),
    ("metadata".toList, .dict
      [("library".toList, .str "lib".toList), ("target".toList, .str "t".toList),
       ("config".toList, .str config.toList), ("sliced".toList, .bool sliced)])]

/-- A run with two payloads. -/
def kleeRun (first second : Value) : ResultRun where
  name := "klee".toList
  metadata :=
    { sourceColumnPrefix := "klee".toList, toolFamily := "klee_cf".toList
      searcher := "default".toList, symSize := "all".toList, cvModel := "all".toList }
  files := some [("a.json".toList, first), ("b.json".toList, second)]

/-- The column of such a payload. -/
def kleeColumn (config : String) (sliced : Bool) : ColumnMetadata where
  sourceColumn := (if sliced then "klee_sliced_".toList else "klee_".toList) ++ config.toList
  toolFamily := "klee_cf".toList
  comparisonTool := if sliced then "klee_cf_sliced".toList else "klee_cf".toList
  sliced := sliced
  searcher := "default".toList
  symSize := "all".toList
  config := config.toList
  cvModel := "all".toList
  configurationLabel := "searcher=default, config=".toList ++ config.toList

/-- Two payloads of two configurations are kept apart. -/
theorem pooling_iff_apart :
    CountsAgree [kleeRun (oneRow "fix_pub" false) (oneRow "var_pub" false)] := by
  let run := kleeRun (oneRow "fix_pub" false) (oneRow "var_pub" false)
  obtain ⟨summary, hsummary⟩ : ∃ summary,
      collectReproductionStatusCounts wholeReaders noFilters [run] = .ok summary := ⟨_, rfl⟩
  refine ((pooling_iff wholeReaders noFilters [run] (List.nodup_singleton _)).2 summary
    hsummary).2.mpr ?_
  have hfix : countedColumn (run, "a.json".toList, oneRow "fix_pub" false) =
      some (kleeColumn "fix_pub" false) := rfl
  have hvar : countedColumn (run, "b.json".toList, oneRow "var_pub" false) =
      some (kleeColumn "var_pub" false) := rfl
  have hcolumn : ∀ p ∈ payloadsOf [run], ∀ c, countedColumn p = some c →
      p.1 = run ∧ (c = kleeColumn "fix_pub" false ∨ c = kleeColumn "var_pub" false) := by
    intro p hp c hc
    rcases List.mem_cons.mp hp with rfl | hp
    · exact ⟨rfl, Or.inl (Option.some.inj (hc.symm.trans hfix))⟩
    · obtain rfl := List.mem_singleton.mp hp
      exact ⟨rfl, Or.inr (Option.some.inj (hc.symm.trans hvar))⟩
  intro p hp q hq c d hc hd hclash
  have htext := (nameClash_iff hclash.1).mpr (Or.inl hclash)
  obtain ⟨hp, hc⟩ := hcolumn p hp c hc
  obtain ⟨hq, hd⟩ := hcolumn q hq d hd
  rw [hp, hq] at hclash htext
  rcases hc with rfl | rfl <;> rcases hd with rfl | rfl
  · exact hclash.1 rfl
  · exact absurd htext (by decide)
  · exact absurd htext (by decide)
  · exact hclash.1 rfl

/-- A sliced case of `fix_pub` and an unsliced one of `sliced_fix_pub` are added up. -/
theorem clash_is_pooled :
    ∃ summary, collectReproductionStatusCounts wholeReaders noFilters
        [kleeRun (oneRow "fix_pub" true) (oneRow "sliced_fix_pub" false)] = .ok summary ∧
      totalUnder summary "klee_sliced_fix_pub".toList (.status .success) = 2 ∧
      ¬ CountsAgree [kleeRun (oneRow "fix_pub" true) (oneRow "sliced_fix_pub" false)] := by
  refine ⟨_, rfl, rfl, ?_⟩
  intro hagree
  let run := kleeRun (oneRow "fix_pub" true) (oneRow "sliced_fix_pub" false)
  have hsliced : countedColumn (run, "a.json".toList, oneRow "fix_pub" true) =
      some (kleeColumn "fix_pub" true) := rfl
  have hplain : countedColumn (run, "b.json".toList, oneRow "sliced_fix_pub" false) =
      some (kleeColumn "sliced_fix_pub" false) := rfl
  have hboth := hagree "klee_sliced_fix_pub".toList _
    ((mem_countedUnder hsliced).mpr ⟨List.mem_cons_self, by decide⟩) _
    ((mem_countedUnder hplain).mpr ⟨List.mem_cons_of_mem _ List.mem_cons_self, by decide⟩)
    _ _ hsliced hplain
  exact absurd hboth.2.2.2 (by decide)

end KleeDeps.Postprocess
