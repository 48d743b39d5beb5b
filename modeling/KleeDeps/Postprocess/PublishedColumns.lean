import KleeDeps.Postprocess.ConfigurationSummary
import KleeDeps.Postprocess.Joining
import KleeDeps.Postprocess.LatexTable
import KleeDeps.Postprocess.Pooling
import KleeDeps.Postprocess.SlicedTargets
import KleeDeps.Py.DictUnion
import KleeDeps.Shared.Registry

/-!
# What the published columns stand for

A campaign stores for each run what its arguments say, a payload says what its case is, and from
both `build_column_metadata` describes a column. The description goes with the tables, in a file
beside each, to the summary of the configurations.

- `deriveRunConfiguration`, `runMetadataByDestination`: what a campaign stores;
- `Described`: a table whose columns are named once, each described beside it;
- `described_join`: the tables of the plain and of the sliced cases have no column in common, or
  `merge_column_metadata` stops;
- `published_configurations`: **the summary of a campaign has one row for each configuration that
  was run, with the options it was run with**.
-/

namespace KleeDeps.Postprocess

open Py Shared Selection

/-! ## What a campaign stores -/

/-- `_option_value` -/
def optionValue (optionName : Text) : List Text → Option Text
  | [] => none
  | token :: rest =>
    if (optionName ++ ['=']) <+: token then some (token.drop (optionName.length + 1))
    else
      match rest with
      | [] => none
      | value :: _ => if token = optionName then some value else optionValue optionName rest

/-- `_option_value(args_template, option_name) or default` -/
def optionOr (default optionName : Text) (args : List Text) : Text :=
  match optionValue optionName args with
  | none | some [] => default
  | some (c :: value) => c :: value

/-- `derive_run_configuration` -/
def deriveRunConfiguration (toolName destinationName : Text) (args : List Text) : RunMetadata where
  sourceColumnPrefix := destinationName
  toolFamily := toolName
  searcher := optionOr "default".toList "--search".toList args
  symSize := optionOr "all".toList "--sym-size".toList args
  cvModel := optionOr "all".toList "--use-cv-model".toList args

/-- An enabled run definition, with its arguments rendered. -/
structure StartedRun where
  toolName : Text
  destinationName : Text
  runArgs : List Text

/-- What is stored about a run. -/
def StartedRun.metadata (run : StartedRun) : RunMetadata :=
  deriveRunConfiguration run.toolName run.destinationName run.runArgs

/-- `run_metadata_by_destination`, as it is written to `_run_metadata.json`. -/
def runMetadataByDestination (repr : Text → Text) (campaign : List StartedRun) :
    Except Exc (Dict Text RunMetadata) :=
  campaign.foldlM (fun byDestination run =>
    if run.destinationName ∈ byDestination.keys then
      .error (.exit ("duplicate run destination name ".toList ++ repr run.destinationName))
    else .ok (byDestination.set run.destinationName run.metadata)) .empty

/-- The runs as `merge_runs` takes them; `listing` is what their directories hold. -/
def resultRuns (listing : Text → Option (List (Text × Value))) (byRun : Dict Text RunMetadata) :
    List ResultRun :=
  (sortTexts byRun.keys).filterMap fun name =>
    (byRun.get? name).map fun metadata =>
      { name := name, metadata := metadata, files := listing name }

/-! ## Descriptions beside a table -/

/-- The columns of a table are named once, and each is described beside it, by the entry of that
name. -/
structure Described (entries : ColumnMetadata → Prop) (table : Table) : Prop where
  nodup : table.columns.Nodup
  keys : table.sidecar.keys = table.columns
  described : ∀ name entry, table.sidecar.get? name = some entry ↔
    entry.sourceColumn = name ∧ entries entry

theorem Described.congr {entries entries' : ColumnMetadata → Prop} {table table' : Table}
    (h : Described entries table) (hentries : ∀ entry, entries entry ↔ entries' entry)
    (hcolumns : table'.columns = table.columns) (hsidecar : table'.sidecar = table.sidecar) :
    Described entries' table' := by
  refine ⟨?_, ?_, fun name entry => ?_⟩
  · rw [hcolumns]
    exact h.nodup
  · rw [hcolumns, hsidecar]
    exact h.keys
  · rw [hsidecar, h.described, hentries]

/-- A column is described iff it is there. -/
theorem Described.exists_entry {entries : ColumnMetadata → Prop} {table : Table}
    (h : Described entries table) {name : Text} (hname : name ∈ table.columns) :
    ∃ entry, table.sidecar.get? name = some entry := by
  rw [← h.keys] at hname
  exact Dict.exists_get?_of_mem_keys hname

theorem Described.mem_columns {entries : ColumnMetadata → Prop} {table : Table}
    (h : Described entries table) {name : Text} {entry : ColumnMetadata}
    (hentry : table.sidecar.get? name = some entry) : name ∈ table.columns := by
  rw [← h.keys]
  exact Dict.mem_keys_of_get? hentry

/-! ### `merge_runs` and `write_csv` -/

section Merge

variable {F : Type} {readers : Readers F} {slicedOnly allPositives : Bool}
  {runs : List ResultRun} {merged : Merged F}

theorem openColumn_described {path : Text} {opened : Merged F} {column : ColumnMetadata}
    (hkeys : merged.metadata.keys = merged.columns)
    (h : openColumn path merged column = .ok opened) :
    opened.metadata.keys = opened.columns ∧
      ∀ name entry, opened.metadata.get? name = some entry ↔
        merged.metadata.get? name = some entry ∨ (name, entry) = (column.sourceColumn, column) := by
  have hadjoin : Dict.adjoin (fun _ => ()) merged.metadata (column.sourceColumn, column) =
      .ok opened.metadata := by
    rcases openColumn_cases h with ⟨hsame, rfl⟩ | ⟨hnone, rfl⟩
    · exact Dict.adjoin_ok_iff.mpr (Or.inl ⟨hsame, rfl⟩)
    · exact Dict.adjoin_ok_iff.mpr (Or.inr ⟨hnone, rfl⟩)
  refine ⟨?_, Dict.get?_adjoin hadjoin⟩
  rw [Dict.keys_adjoin hadjoin, hkeys]
  rcases openColumn_cases h with ⟨hsame, rfl⟩ | ⟨hnone, rfl⟩
  · rw [← hkeys]
    exact if_pos (Dict.mem_keys_of_get? hsame)
  · refine if_neg fun hmem => ?_
    rw [← hkeys] at hmem
    obtain ⟨entry, hentry⟩ := Dict.exists_get?_of_mem_keys hmem
    rw [hnone] at hentry
    cases hentry

/-- The columns that the payloads done so far have opened. -/
structure Opened (readers : Readers F) (slicedOnly : Bool)
    (done : List (ResultRun × (Text × Value))) (merged : Merged F) : Prop where
  keys : merged.metadata.keys = merged.columns
  described : ∀ name entry, merged.metadata.get? name = some entry ↔
    entry.sourceColumn = name ∧
      ∃ payload ∈ done, mergedColumn readers slicedOnly payload = some entry

/-- **Step lemma**: a payload opens its own column, if it is of this mode. -/
theorem Opened.mergePayload {done : List (ResultRun × (Text × Value))}
    {payload : ResultRun × (Text × Value)} {merged' : Merged F}
    (hdone : Opened readers slicedOnly done merged)
    (h : mergePayload readers slicedOnly allPositives payload.1.metadata merged payload.2 =
      .ok merged') : Opened readers slicedOnly (done ++ [payload]) merged' := by
  have hlast : ∀ entry,
      (∃ p ∈ done ++ [payload], mergedColumn readers slicedOnly p = some entry) ↔
        (∃ p ∈ done, mergedColumn readers slicedOnly p = some entry) ∨
          mergedColumn readers slicedOnly payload = some entry := fun entry => by
    simp [or_and_right, exists_or]
  obtain ⟨_, _, -, ⟨hnone, rfl⟩ | ⟨column, opened, hcolumn, -, hopened, rfl⟩⟩ :=
    mergePayload_cases h
  · refine ⟨hdone.keys, fun name entry => ?_⟩
    rw [hdone.described, hlast, hnone]
    simp
  · obtain ⟨hkeys, hget⟩ := openColumn_described hdone.keys hopened
    refine ⟨hkeys, fun name entry => ?_⟩
    show opened.metadata.get? name = some entry ↔ _
    rw [hget, hdone.described, hlast, hcolumn, and_or_left]
    refine or_congr_right ⟨fun hnew => ?_, fun hnew => ?_⟩
    · obtain ⟨rfl, rfl⟩ := Prod.mk.inj hnew
      exact ⟨rfl, rfl⟩
    · obtain ⟨rfl, hsame⟩ := hnew
      rw [Option.some.inj hsame]

/-- **Run lemma** -/
theorem opened_mergeRuns (h : mergeRuns readers slicedOnly allPositives runs = .ok merged) :
    Opened readers slicedOnly (payloadsOf runs) merged := by
  refine Sequence.foldlM_ok_induction (Opened readers slicedOnly) (overRuns_ok h) [] ?_ ?_
  · exact ⟨rfl, fun name entry => by simp⟩
  · exact fun _ _ _ _ _ hdone hstep => hdone.mergePayload hstep

/-- A sidecar holds the entries of the columns, in their order. -/
theorem writeColumnMetadata_spec {columns : List Text} {metadata sidecar : Dict Text ColumnMetadata}
    (hnodup : columns.Nodup) (h : writeColumnMetadata columns metadata = .ok sidecar) :
    sidecar.keys = columns ∧ ∀ name ∈ columns, sidecar.get? name = metadata.get? name := by
  let P : List Text → Dict Text ColumnMetadata → Prop := fun done sidecar =>
    done.Nodup → sidecar.keys = done ∧ ∀ name ∈ done, sidecar.get? name = metadata.get? name
  refine Sequence.foldlM_ok_induction P h [] (fun _ => ⟨rfl, fun _ => nofun⟩) ?_ hnodup
  intro done column s t _ hdone hstep hnodup
  obtain ⟨hold, -, hfresh⟩ := List.nodup_append.mp hnodup
  obtain ⟨hkeys, hget⟩ := hdone hold
  have hnew : column ∉ s.keys := by
    rw [hkeys]
    exact fun hmem => hfresh column hmem column (List.mem_singleton_self _) rfl
  split at hstep
  · next entry hentry =>
    obtain rfl := Except.ok.inj hstep
    refine ⟨?_, fun name hname => ?_⟩
    · rw [Dict.keys, Dict.items_set_of_notMem s entry hnew, List.map_append]
      exact congrArg (· ++ [column]) hkeys
    · rw [Dict.get?_set]
      split
      · next heq => rw [← heq, hentry]
      · next hne =>
        rcases List.mem_append.mp hname with hname | hname
        · exact hget name hname
        · exact absurd (List.mem_singleton.mp hname).symm hne
  · cases hstep

theorem sidecar_writeCsv {table : Table} (h : writeCsv readers merged = .ok table) :
    table.columns = merged.columns ∧
      writeColumnMetadata merged.columns merged.metadata = .ok table.sidecar := by
  obtain ⟨sidecar, hsidecar, h⟩ := Sequence.bind_eq_ok_iff.mp h
  obtain rfl := Except.ok.inj h
  exact ⟨rfl, hsidecar⟩

/-- A table that is written describes its columns. -/
theorem described_writeCsv {table : Table}
    (hmerged : mergeRuns readers slicedOnly allPositives runs = .ok merged)
    (htable : writeCsv readers merged = .ok table) :
    Described (fun entry => ∃ payload ∈ payloadsOf runs,
      mergedColumn readers slicedOnly payload = some entry) table := by
  have hopened := opened_mergeRuns hmerged
  have hnodup : merged.columns.Nodup := hopened.keys ▸ merged.metadata.nodup
  obtain ⟨hcolumns, hsidecar⟩ := sidecar_writeCsv htable
  obtain ⟨hkeys, hget⟩ := writeColumnMetadata_spec hnodup hsidecar
  rw [← hcolumns] at hkeys hget hnodup
  refine ⟨hnodup, hkeys, fun name entry => ?_⟩
  rw [← hopened.described]
  by_cases hname : name ∈ table.columns
  · rw [hget name hname]
  · -- neither has an entry
    have hmerged : ∀ d : Dict Text ColumnMetadata, d.keys = table.columns →
        d.get? name ≠ some entry := fun d hd hentry =>
      hname (hd ▸ Dict.mem_keys_of_get? hentry)
    exact iff_of_false (hmerged _ hkeys) (hmerged _ (hopened.keys.trans hcolumns.symm))

end Merge

/-! ### `merge_on_location` -/

theorem mergeColumnMetadata_eq (sidecars : List (Dict Text ColumnMetadata)) :
    mergeColumnMetadata sidecars = Dict.adjoinAll (fun column =>
      Exc.exit ("conflicting metadata for column '".toList ++ column ++
        "' while merging column metadata".toList)) .empty (sidecars.flatMap (·.items)) := by
  unfold mergeColumnMetadata Dict.adjoinAll
  congr 1
  funext merged ⟨column, described⟩
  dsimp only [Dict.adjoin]
  cases merged.get? column <;> rfl

theorem sidecar_mergeOnLocation {pandas : Pandas} {left right joined : Table}
    (h : mergeOnLocation pandas left right = .ok joined) :
    mergeColumnMetadata [left.sidecar, right.sidecar] = .ok joined.sidecar ∧
      joined.columns = left.columns ++ right.columns.map fun column =>
        if column ∈ left.columns then column ++ "_right".toList else column := by
  obtain ⟨leftRows, -, h⟩ := Sequence.bind_eq_ok_iff.mp h
  obtain ⟨rightRows, -, h⟩ := Sequence.bind_eq_ok_iff.mp h
  obtain ⟨sidecar, hsidecar, h⟩ := Sequence.bind_eq_ok_iff.mp h
  obtain rfl := Except.ok.inj h
  exact ⟨hsidecar, rfl⟩

/-- The tables of the plain and of the sliced cases have no column in common: its two entries
would not be equal, and `merge_column_metadata` stops. So no column is renamed. -/
theorem described_join {pandas : Pandas} {left right joined : Table}
    {plain sliced : ColumnMetadata → Prop} (hleft : Described plain left)
    (hright : Described sliced right) (hplain : ∀ entry, plain entry → entry.sliced = false)
    (hsliced : ∀ entry, sliced entry → entry.sliced = true)
    (h : mergeOnLocation pandas left right = .ok joined) :
    Described (fun entry => plain entry ∨ sliced entry) joined := by
  obtain ⟨hsidecar, hcolumns⟩ := sidecar_mergeOnLocation h
  rw [mergeColumnMetadata_eq] at hsidecar
  have hget : ∀ name entry, joined.sidecar.get? name = some entry ↔
      left.sidecar.get? name = some entry ∨ right.sidecar.get? name = some entry := by
    intro name entry
    rw [Dict.get?_adjoinAll hsidecar]
    simp [Dict.mem_items_iff]
  have hapart : ∀ name ∈ left.columns, name ∉ right.columns := by
    intro name hname hname'
    obtain ⟨entry, hentry⟩ := hleft.exists_entry hname
    obtain ⟨entry', hentry'⟩ := hright.exists_entry hname'
    have hsame : entry = entry' := Option.some.inj
      (((hget name entry).mpr (Or.inl hentry)).symm.trans
        ((hget name entry').mpr (Or.inr hentry')))
    have hfalse := hplain entry ((hleft.described name entry).mp hentry).2
    rw [hsame, hsliced entry' ((hright.described name entry').mp hentry').2] at hfalse
    cases hfalse
  have hnodup : (left.columns ++ right.columns).Nodup :=
    hleft.nodup.append hright.nodup fun name hname hname' => hapart name hname hname'
  have hrenamed : joined.columns = left.columns ++ right.columns := by
    rw [hcolumns]
    refine congrArg (left.columns ++ ·) ((List.map_congr_left fun name hname => ?_).trans
      (List.map_id _))
    exact if_neg fun hname' => hapart name hname' hname
  have hkeys : left.sidecar.items.map Prod.fst ++ right.sidecar.items.map Prod.fst =
      left.columns ++ right.columns := congrArg₂ (· ++ ·) hleft.keys hright.keys
  have hitems : joined.sidecar.items = left.sidecar.items ++ right.sidecar.items := by
    have hflat : [left.sidecar, right.sidecar].flatMap (·.items) =
        left.sidecar.items ++ right.sidecar.items := by simp
    rw [hflat] at hsidecar
    refine @Dict.items_adjoinAll _ _ _ _ _ _ Dict.empty _ _ hsidecar ?_
    show ((left.sidecar.items ++ right.sidecar.items).map Prod.fst).Nodup
    rwa [List.map_append, hkeys]
  refine ⟨hrenamed ▸ hnodup, ?_, fun name entry => ?_⟩
  · rw [Dict.keys, hitems, List.map_append, hkeys, hrenamed]
  · rw [hget, hleft.described, hright.described, ← and_or_left]

/-! ### The way of a campaign -/

/-- The entry of a payload. -/
def Published (runs : List ResultRun) (entry : ColumnMetadata) : Prop :=
  ∃ payload ∈ payloadsOf runs, ∃ rows items,
    readPayload payload.2.1 payload.2.2 = .ok (rows, items) ∧
      buildColumnMetadata payload.1.metadata items = .ok entry

section Modes

variable {F : Type} {readers : Readers F} {allPositives : Bool} {runs : List ResultRun}

/-- `merge_runs` and `build_column_metadata` agree on what is sliced. -/
theorem truthy_sliced {floatTruth : Text → Bool} {run : RunMetadata} {items : Object}
    {entry : ColumnMetadata} (h : buildColumnMetadata run items = .ok entry) :
    Experiments.truthy floatTruth (Value.field items "sliced".toList) = entry.sliced := by
  unfold buildColumnMetadata at h
  split at h
  · cases h
  · next case hcase =>
    obtain rfl := Except.ok.inj h
    show _ = case.sliced
    unfold caseOutputMetadata at hcase
    dsimp only at hcase
    split at hcase
    · next hnull =>
      rw [hnull]
      split at hcase
      · obtain rfl := Except.ok.inj hcase
        rfl
      · cases hcase
    · next sliced hbool =>
      rw [hbool]
      split at hcase
      · obtain rfl := Except.ok.inj hcase
        rfl
      · cases hcase
    · cases hcase

theorem mergedColumn_iff {slicedOnly : Bool} {payload : ResultRun × (Text × Value)}
    {entry : ColumnMetadata} : mergedColumn readers slicedOnly payload = some entry ↔
      (∃ rows items, readPayload payload.2.1 payload.2.2 = .ok (rows, items) ∧
        buildColumnMetadata payload.1.metadata items = .ok entry) ∧ entry.sliced = slicedOnly := by
  unfold mergedColumn
  cases hread : readPayload payload.2.1 payload.2.2 with
  | error e => simp
  | ok read =>
    obtain ⟨rows, items⟩ := read
    cases hbuild : buildColumnMetadata payload.1.metadata items with
    | error e =>
      have hnone : ¬ ∃ rows' items', (Except.ok (rows, items) : Except Exc _) =
          .ok (rows', items') ∧ buildColumnMetadata payload.1.metadata items' = .ok entry := by
        rintro ⟨_, _, hsame, hbuild'⟩
        obtain ⟨rfl, rfl⟩ := Prod.mk.inj (Except.ok.inj hsame)
        rw [hbuild] at hbuild'
        cases hbuild'
      refine iff_of_false ?_ fun h => hnone h.1
      simp [hbuild, Except.toOption]
    | ok column =>
      simp only [hbuild, truthy_sliced hbuild, Except.toOption]
      constructor
      · intro h
        split at h
        · next hsliced =>
          obtain rfl := Option.some.inj h
          exact ⟨⟨rows, items, rfl, hbuild⟩, hsliced⟩
        · cases h
      · rintro ⟨⟨_, _, hsame, hbuild'⟩, hsliced⟩
        obtain ⟨rfl, rfl⟩ := Prod.mk.inj (Except.ok.inj hsame)
        rw [hbuild] at hbuild'
        obtain rfl := Except.ok.inj hbuild'
        exact if_pos hsliced

/-- Every entry is of one mode. -/
theorem published_iff (entry : ColumnMetadata) : Published runs entry ↔
    (∃ payload ∈ payloadsOf runs, mergedColumn readers false payload = some entry) ∨
      ∃ payload ∈ payloadsOf runs, mergedColumn readers true payload = some entry := by
  simp only [mergedColumn_iff]
  constructor
  · rintro ⟨payload, hpayload, hbuild⟩
    cases hsliced : entry.sliced with
    | false => exact Or.inl ⟨payload, hpayload, hbuild, rfl⟩
    | true => exact Or.inr ⟨payload, hpayload, hbuild, rfl⟩
  · rintro (⟨payload, hpayload, hbuild, -⟩ | ⟨payload, hpayload, hbuild, -⟩)
    · exact ⟨payload, hpayload, hbuild⟩
    · exact ⟨payload, hpayload, hbuild⟩

theorem sliced_of_mergedColumn {slicedOnly : Bool} {entry : ColumnMetadata}
    (h : ∃ payload ∈ payloadsOf runs, mergedColumn readers slicedOnly payload = some entry) :
    entry.sliced = slicedOnly := by
  obtain ⟨payload, -, hcolumn⟩ := h
  exact (mergedColumn_iff.mp hcolumn).2

theorem described_mergeResults {slicedOnly : Bool} {table : Table}
    (h : mergeResults readers slicedOnly allPositives runs = .ok table) :
    Described (fun entry => ∃ payload ∈ payloadsOf runs,
      mergedColumn readers slicedOnly payload = some entry) table := by
  obtain ⟨merged, hmerged, h⟩ := Sequence.bind_eq_ok_iff.mp h
  split at h
  · cases h
  · exact described_writeCsv hmerged h

end Modes

/-! ### Without sliced results -/

theorem files_of_overRuns {σ : Type} {step : RunMetadata → σ → Text × Value → Except Exc σ}
    {s t : σ} {runs : List ResultRun} (h : overRuns step s runs = .ok t) :
    ∀ run ∈ runs, run.files ≠ none := by
  induction runs generalizing s with
  | nil => exact fun _ => nofun
  | cons run rest ih =>
    unfold overRuns at h
    split at h
    · cases h
    · next files hfiles =>
      obtain ⟨s', -, hrest⟩ := Sequence.bind_eq_ok_iff.mp h
      intro other hother
      rcases List.mem_cons.mp hother with rfl | hother
      · rw [hfiles]
        exact Option.some_ne_none _
      · exact ih hrest other hother

/-- Where no directory is missing, the loop fails as it fails at a payload. -/
theorem exists_of_overRuns_error {σ : Type} {step : RunMetadata → σ → Text × Value → Except Exc σ}
    {s : σ} {runs : List ResultRun} {e : Exc} (hfiles : ∀ run ∈ runs, run.files ≠ none)
    (h : overRuns step s runs = .error e) :
    ∃ payload ∈ payloadsOf runs, ∃ t, step payload.1.metadata t payload.2 = .error e := by
  induction runs generalizing s with
  | nil => cases h
  | cons run rest ih =>
    unfold overRuns at h
    split at h
    · next hnone => exact absurd hnone (hfiles run List.mem_cons_self)
    · next files hsome =>
      have hflat : payloadsOf (run :: rest) = files.map (run, ·) ++ payloadsOf rest := by
        simp [payloadsOf, hsome]
      rw [hflat]
      cases hfold : files.foldlM (step run.metadata) s with
      | error e' =>
        rw [hfold] at h
        obtain rfl := Except.error.inj h
        obtain ⟨file, hfile, t, ht⟩ := Sequence.exists_of_foldlM_error hfold
        exact ⟨(run, file), List.mem_append_left _ (List.mem_map_of_mem hfile), t, ht⟩
      | ok s' =>
        rw [hfold] at h
        obtain ⟨payload, hpayload, t, ht⟩ :=
          ih (fun other hother => hfiles other (List.mem_cons_of_mem _ hother)) h
        exact ⟨payload, List.mem_append_right _ hpayload, t, ht⟩

theorem buildColumnMetadata_error {run : RunMetadata} {items : Object} {e : Exc}
    (h : buildColumnMetadata run items = .error e) : ∃ message, e = .valueError message := by
  unfold buildColumnMetadata at h
  split at h
  · next e' hcase =>
    obtain rfl := Except.error.inj h
    unfold caseOutputMetadata at hcase
    dsimp only at hcase
    split at hcase
    · split at hcase
      · cases hcase
      · exact ⟨_, (Except.error.inj hcase).symm⟩
    · split at hcase
      · cases hcase
      · exact ⟨_, (Except.error.inj hcase).symm⟩
    · exact ⟨_, (Except.error.inj hcase).symm⟩
  · cases h

section NoSliced

variable {F : Type} {readers : Readers F} {allPositives : Bool} {runs : List ResultRun}

theorem loads_of_mergeRuns {slicedOnly : Bool} {merged : Merged F}
    (h : mergeRuns readers slicedOnly allPositives runs = .ok merged) :
    ∀ payload ∈ payloadsOf runs,
      ∃ loaded, loadViolations readers allPositives payload.2.1 payload.2.2 = .ok loaded := by
  let P : List (ResultRun × (Text × Value)) → Merged F → Prop := fun done _ =>
    ∀ payload ∈ done,
      ∃ loaded, loadViolations readers allPositives payload.2.1 payload.2.2 = .ok loaded
  refine Sequence.foldlM_ok_induction P (overRuns_ok h) [] (fun _ => nofun) ?_
  intro done payload s t _ hdone hstep other hother
  rcases List.mem_append.mp hother with hother | hother
  · exact hdone other hother
  · obtain ⟨metadata, found, hload, -⟩ := mergePayload_cases hstep
    exact ⟨_, List.mem_singleton.mp hother ▸ hload⟩

theorem openColumn_error {path : Text} {merged : Merged F} {column : ColumnMetadata} {e : Exc}
    (h : openColumn path merged column = .error e) : ∃ rest, e = .exit (path ++ rest) := by
  unfold openColumn at h
  split at h
  · split at h
    · obtain rfl := Except.error.inj h
      exact ⟨_, congrArg Exc.exit ((List.append_assoc _ _ _).trans (List.append_assoc _ _ _))⟩
    · cases h
  · cases h

/-- Behind the plain mode the sliced mode stops for a conflict only, with a message that begins
with a path, or with a `ValueError`. -/
theorem not_noResults (hpaths : ∀ payload ∈ payloadsOf runs, payload.2.1.head? = some '/')
    {plain : Merged F} (hplain : mergeRuns readers false allPositives runs = .ok plain)
    {message : Text} (h : mergeRuns readers true allPositives runs = .error (.exit message)) :
    ¬ noResults true <+: message := by
  obtain ⟨payload, hpayload, t, ht⟩ := exists_of_overRuns_error (files_of_overRuns hplain) h
  obtain ⟨loaded, hload⟩ := loads_of_mergeRuns hplain payload hpayload
  unfold mergePayload at ht
  rw [hload] at ht
  simp only [bind, Except.bind] at ht
  split at ht
  · cases ht
  · split at ht
    · next e hbuild =>
      obtain ⟨_, rfl⟩ := buildColumnMetadata_error hbuild
      cases ht
    · split at ht
      · next e hopen =>
        obtain ⟨rest, rfl⟩ := openColumn_error hopen
        obtain rfl := Exc.exit.inj (Except.error.inj ht)
        rintro ⟨_, hmessage⟩
        have hhead := congrArg List.head? hmessage
        rw [List.head?_append, List.head?_append, hpaths payload hpayload] at hhead
        have hfirst : some 'N' = some '/' := hhead
        exact absurd (Option.some.inj hfirst) (by decide)
      · cases ht

/-- When there is nothing to merge, no payload is sliced. -/
theorem no_sliced (hpaths : ∀ payload ∈ payloadsOf runs, payload.2.1.head? = some '/')
    {plain : Merged F} (hplain : mergeRuns readers false allPositives runs = .ok plain)
    {message : Text} (h : mergeResults readers true allPositives runs = .error (.exit message))
    (hmessage : noResults true <+: message) (entry : ColumnMetadata) :
    ¬ ∃ payload ∈ payloadsOf runs, mergedColumn readers true payload = some entry := by
  intro hentry
  cases hmerged : mergeRuns readers true allPositives runs with
  | error e =>
    rw [mergeResults, hmerged] at h
    obtain rfl := Except.error.inj h
    exact not_noResults hpaths hplain hmerged hmessage
  | ok merged =>
    have hopened := opened_mergeRuns hmerged
    rw [mergeResults, hmerged] at h
    simp only [bind, Except.bind] at h
    split at h
    · next hnone =>
      have hget := (hopened.described entry.sourceColumn entry).mpr ⟨rfl, hentry⟩
      have hmem := Dict.mem_keys_of_get? hget
      rw [hopened.keys, hnone] at hmem
      cases hmem
    · -- the other way to stop is a `KeyError`
      rw [writeCsv] at h
      cases hsidecar : writeColumnMetadata merged.columns merged.metadata with
      | error e =>
        rw [hsidecar] at h
        obtain rfl := Except.error.inj h
        obtain ⟨column, -, t, ht⟩ := Sequence.exists_of_foldlM_error hsidecar
        split at ht
        · cases ht
        · cases ht
      | ok sidecar =>
        rw [hsidecar] at h
        cases h

variable {repr : Text → Text} {limit : Nat} {pandas : Pandas} {mapping : SlicedMap}

/-- What is published describes its columns by the payloads. -/
theorem described_allMergedResults {table : Table}
    (hpaths : ∀ payload ∈ payloadsOf runs, payload.2.1.head? = some '/')
    (h : allMergedResults readers repr limit pandas mapping allPositives runs = .ok table) :
    Described (Published runs) table := by
  obtain ⟨plain, hplain, h⟩ := Sequence.bind_eq_ok_iff.mp h
  have hleft := described_mergeResults hplain
  obtain ⟨merged, hmerged, -⟩ := Sequence.bind_eq_ok_iff.mp hplain
  split at h
  · next message hsliced =>
    split at h
    · next hmessage =>
      obtain rfl := Except.ok.inj h
      refine hleft.congr (fun entry => ?_) rfl rfl
      rw [@published_iff F readers runs entry]
      exact (or_iff_left (no_sliced hpaths hmerged hsliced hmessage entry)).symm
    · cases h
  · cases h
  · next sliced hsliced =>
    obtain ⟨relabeled, hrelabel, hjoin⟩ := Sequence.bind_eq_ok_iff.mp h
    obtain ⟨hcolumns, hsidecar, -⟩ := relabelCsv_rows hrelabel
    have hright := (described_mergeResults hsliced).congr (fun _ => Iff.rfl) hcolumns hsidecar
    have hjoined := described_join hleft hright (fun _ => sliced_of_mergedColumn)
      (fun _ => sliced_of_mergedColumn) hjoin
    exact hjoined.congr (fun entry => (@published_iff F readers runs entry).symm) rfl rfl

theorem described_filteredResults {filters : FilterConfiguration} {table : Table}
    (hpaths : ∀ payload ∈ payloadsOf runs, payload.2.1.head? = some '/')
    (h : filteredResults readers repr limit pandas mapping filters allPositives runs = .ok table) :
    Described (Published runs) table := by
  obtain ⟨all, hall, h⟩ := Sequence.bind_eq_ok_iff.mp h
  obtain ⟨rows, -, h⟩ := Sequence.bind_eq_ok_iff.mp h
  obtain rfl := Except.ok.inj h
  exact (described_allMergedResults hpaths hall).congr (fun _ => Iff.rfl) rfl rfl

end NoSliced

/-! ## The summary of a campaign -/

section Summary

variable {F : Type} [LinearOrder F] {repr : Text → Text} {mean : F → F → F} {df : Frame F}
  {metadata : Dict Text StoredMetadata}

/-- The rows of a summary are those of the metric columns. -/
theorem configurations_summary {summary : List (SummaryRow F)}
    (h : summarizeConfigurations repr mean df metadata = .ok summary)
    (config : ColumnConfiguration) :
    (∃ row ∈ summary, row.config = config) ↔
      ∃ column ∈ metricColumns df, ∃ entry, metadata.get? column = some entry ∧
        config = columnConfigurationFromMetadata column entry := by
  obtain ⟨rows, hrows, hsummary⟩ := summarizeConfigurations_ok h
  have hmeasured : summary.map SummaryRow.toMeasured = sortValues rows := by
    rw [hsummary, map_toMeasured_ranked]
  have hperm : (sortValues rows).Perm rows := List.mergeSort_perm _ _
  constructor
  · rintro ⟨row, hrow, rfl⟩
    have hmem := hperm.mem_iff.mp (hmeasured ▸ List.mem_map_of_mem hrow)
    obtain ⟨column, hcolumn, hstep⟩ := Sequence.exists_left_of_mapM hrows hmem
    split at hstep
    · cases hstep
    · next entry hentry =>
      exact ⟨column, hcolumn, entry, hentry,
        (congrArg Measured.config (Except.ok.inj hstep)).symm⟩
  · rintro ⟨column, hcolumn, entry, hentry, rfl⟩
    obtain ⟨row, hrow, hstep⟩ := Sequence.exists_right_of_mapM hrows hcolumn
    simp only [hentry] at hstep
    have hmem := hperm.mem_iff.mpr hrow
    rw [← hmeasured] at hmem
    obtain ⟨ranked, hranked, rfl⟩ := List.mem_map.mp hmem
    exact ⟨ranked, hranked, (congrArg Measured.config (Except.ok.inj hstep)).symm⟩

/-- Where every metric column has metadata there is a summary. -/
theorem exists_summary
    (h : ∀ column ∈ metricColumns df, ∃ entry, metadata.get? column = some entry) :
    ∃ summary, summarizeConfigurations repr mean df metadata = .ok summary := by
  obtain ⟨rows, hrows⟩ : ∃ rows, measureColumns repr mean df metadata = .ok rows := by
    simp only [measureColumns, Sequence.mapM_eq_ok_iff]
    refine Sequence.exists_forall₂_iff.mpr fun column hcolumn => ?_
    obtain ⟨entry, hentry⟩ := h column hcolumn
    exact ⟨_, by rw [hentry]⟩
  rw [summarizeConfigurations, hrows]
  exact ⟨_, rfl⟩

omit [LinearOrder F] in
theorem metricColumns_perm {columns : List Text} (hdf : df.keys.Perm (metadataCols ++ columns))
    (hapart : ∀ name ∈ columns, name ∉ metadataCols) : (metricColumns df).Perm columns := by
  refine (hdf.filter _).trans (List.Perm.of_eq ?_)
  rw [List.filter_append, List.filter_eq_nil_iff.mpr (by simp), List.nil_append]
  exact List.filter_eq_self.mpr (by simpa using hapart)

end Summary

/-- The entry of a column as it is read back; it has none of the fields of older tables. -/
def stored (entry : ColumnMetadata) : StoredMetadata where
  toColumnMetadata := entry
  rawSuffix? := none
  normalizedSuffix? := none

section Published

variable {repr : Text → Text} {campaign : List StartedRun} {byRun : Dict Text RunMetadata}
  {listing : Text → Option (List (Text × Value))}

/-- A payload in the directory of a run is of this case. -/
def ReportsCase (listing : Text → Option (List (Text × Value))) (run : StartedRun)
    (case : CaseOutputMetadata) : Prop :=
  ∃ files, listing run.destinationName = some files ∧ ∃ file ∈ files, ∃ rows items,
    readPayload file.1 file.2 = .ok (rows, items) ∧ caseOutputMetadata items = .ok case

/-- The configuration that a run is for a case: its name, and the options of its arguments. -/
def StartedRun.configuration (run : StartedRun) (case : CaseOutputMetadata) :
    ColumnConfiguration where
  sourceColumn :=
    run.destinationName ++ (if case.sliced then "_sliced_".toList else ['_']) ++ case.config
  toolFamily := run.toolName
  comparisonTool := if case.sliced then run.toolName ++ "_sliced".toList else run.toolName
  sliced := case.sliced
  searcher := optionOr "default".toList "--search".toList run.runArgs
  symSize := optionOr "all".toList "--sym-size".toList run.runArgs
  config := case.config
  cvModel := optionOr "all".toList "--use-cv-model".toList run.runArgs
  rawSuffix := case.config
  normalizedSuffix := normalizeSuffix case.config
  configurationLabel :=
    configurationLabel (optionOr "default".toList "--search".toList run.runArgs)
      (optionOr "all".toList "--sym-size".toList run.runArgs) case.config
      (optionOr "all".toList "--use-cv-model".toList run.runArgs)

/-- The entry of a case of a run. -/
def StartedRun.entry (run : StartedRun) (case : CaseOutputMetadata) : ColumnMetadata where
  sourceColumn := buildSourceColumn run.metadata case
  toolFamily := run.metadata.toolFamily
  comparisonTool :=
    if case.sliced then run.metadata.toolFamily ++ "_sliced".toList else run.metadata.toolFamily
  sliced := case.sliced
  searcher := run.metadata.searcher
  symSize := run.metadata.symSize
  config := case.config
  cvModel := run.metadata.cvModel
  configurationLabel := configurationLabel run.metadata.searcher run.metadata.symSize case.config
    run.metadata.cvModel

theorem buildColumnMetadata_eq (run : StartedRun) (items : Object) :
    buildColumnMetadata run.metadata items = (caseOutputMetadata items).map run.entry := by
  unfold buildColumnMetadata
  cases caseOutputMetadata items <;> rfl

/-- The entry stands for the configuration. -/
theorem configuration_entry (run : StartedRun) (case : CaseOutputMetadata) :
    columnConfigurationFromMetadata (run.entry case).sourceColumn (stored (run.entry case)) =
      run.configuration case := by
  have hname : buildSourceColumn run.metadata case = (run.configuration case).sourceColumn := by
    rw [buildSourceColumn, StartedRun.configuration]
    cases case.sliced <;> simp [StartedRun.metadata, deriveRunConfiguration]
  unfold columnConfigurationFromMetadata
  simp only [StartedRun.entry, hname]
  rfl

/-- What is stored is what was derived of the runs. -/
theorem get?_runMetadataByDestination (h : runMetadataByDestination repr campaign = .ok byRun)
    (name : Text) (metadata : RunMetadata) : byRun.get? name = some metadata ↔
      ∃ run ∈ campaign, run.destinationName = name ∧ run.metadata = metadata := by
  let P : List StartedRun → Dict Text RunMetadata → Prop := fun done byRun =>
    ∀ name metadata, byRun.get? name = some metadata ↔
      ∃ run ∈ done, run.destinationName = name ∧ run.metadata = metadata
  have hall : P campaign byRun := by
    refine Sequence.foldlM_ok_induction P h [] (fun _ _ => by simp) ?_
    intro done run s t _ hdone hstep name metadata
    split at hstep
    · cases hstep
    · next hfresh =>
      obtain rfl := Except.ok.inj hstep
      rw [Dict.get?_set]
      split
      · next heq =>
        subst heq
        constructor
        · intro hsame
          exact ⟨run, List.mem_append_right _ (List.mem_singleton_self _), rfl,
            Option.some.inj hsame⟩
        · rintro ⟨other, hother, hname, rfl⟩
          rcases List.mem_append.mp hother with hother | hother
          · -- the name was taken before
            have hget := (hdone _ _).mpr ⟨other, hother, hname, rfl⟩
            exact absurd (Dict.mem_keys_of_get? hget) hfresh
          · rw [List.mem_singleton.mp hother]
      · next hne =>
        rw [hdone]
        constructor
        · rintro ⟨other, hother, hsame⟩
          exact ⟨other, List.mem_append_left _ hother, hsame⟩
        · rintro ⟨other, hother, hname, hsame⟩
          rcases List.mem_append.mp hother with hother | hother
          · exact ⟨other, hother, hname, hsame⟩
          · rw [List.mem_singleton.mp hother] at hname
            exact absurd hname hne
  exact hall name metadata

theorem mem_payloadsOf_resultRuns {payload : ResultRun × (Text × Value)} :
    payload ∈ payloadsOf (resultRuns listing byRun) ↔ ∃ name metadata files,
      byRun.get? name = some metadata ∧ listing name = some files ∧ payload.2 ∈ files ∧
        payload.1 = { name := name, metadata := metadata, files := some files } := by
  rw [payloadsOf, List.mem_flatMap]
  constructor
  · rintro ⟨run, hrun, hpayload⟩
    obtain ⟨name, -, hrun⟩ := List.mem_filterMap.mp hrun
    obtain ⟨metadata, hmetadata, rfl⟩ := Option.map_eq_some_iff.mp hrun
    obtain ⟨file, hfile, rfl⟩ := List.mem_map.mp hpayload
    cases hfiles : listing name with
    | none =>
      rw [hfiles] at hfile
      cases hfile
    | some files =>
      rw [hfiles] at hfile
      exact ⟨name, metadata, files, hmetadata, hfiles, hfile, rfl⟩
  · rintro ⟨name, metadata, files, hmetadata, hfiles, hfile, hrun⟩
    refine ⟨payload.1, List.mem_filterMap.mpr ⟨name, ?_, ?_⟩, ?_⟩
    · exact (List.mergeSort_perm _ _).mem_iff.mpr (Dict.mem_keys_of_get? hmetadata)
    · rw [hmetadata, hfiles, hrun]
      rfl
    · rw [hrun]
      exact List.mem_map.mpr ⟨payload.2, hfile, hrun ▸ rfl⟩

/-- What a campaign publishes. -/
theorem published_campaign (h : runMetadataByDestination repr campaign = .ok byRun)
    (entry : ColumnMetadata) : Published (resultRuns listing byRun) entry ↔
      ∃ run ∈ campaign, ∃ case, ReportsCase listing run case ∧ entry = run.entry case := by
  constructor
  · rintro ⟨⟨result, file⟩, hpayload, rows, items, hread, hbuild⟩
    obtain ⟨name, metadata, files, hmetadata, hfiles, hfile, hresult⟩ :=
      mem_payloadsOf_resultRuns.mp hpayload
    obtain ⟨run, hrun, rfl, rfl⟩ := (get?_runMetadataByDestination h _ _).mp hmetadata
    obtain rfl : result = _ := hresult
    rw [buildColumnMetadata_eq] at hbuild
    cases hcase : caseOutputMetadata items with
    | error e =>
      rw [hcase] at hbuild
      cases hbuild
    | ok case =>
      rw [hcase] at hbuild
      exact ⟨run, hrun, case, ⟨files, hfiles, file, hfile, rows, items, hread, hcase⟩,
        (Except.ok.inj hbuild).symm⟩
  · rintro ⟨run, hrun, case, ⟨files, hfiles, file, hfile, rows, items, hread, hcase⟩, rfl⟩
    have hmetadata := (get?_runMetadataByDestination h _ _).mpr ⟨run, hrun, rfl, rfl⟩
    refine ⟨(_, file), mem_payloadsOf_resultRuns.mpr
      ⟨_, _, files, hmetadata, hfiles, hfile, rfl⟩, rows, items, hread, ?_⟩
    rw [buildColumnMetadata_eq, hcase]
    rfl

/-- The names of the columns are not those of a location. -/
theorem notMem_metadataCols {table : Table} {runs : List ResultRun}
    (h : Described (Published runs) table) {name : Text} (hname : name ∈ table.columns) :
    name ∉ metadataCols := by
  obtain ⟨entry, hentry⟩ := h.exists_entry hname
  obtain ⟨rfl, _, -, _, _, -, hbuild⟩ := (h.described name entry).mp hentry
  have hunderscore := LatexTable.underscore_mem_of_buildColumnMetadata hbuild
  have hlocation : ∀ column ∈ metadataCols, '_' ∉ column := by decide +kernel
  exact fun hmem => hlocation _ hmem hunderscore

/-- The summary that is made of a published table: the table names each column once, every column
has its metadata, and the rows are exactly the configurations of which some run has reported a
case, each with the tool and the options of its run. The paths are those below the output
directory, which is an absolute path, and `df` is the table as it is read back. -/
theorem published_configurations {F F' : Type} [LinearOrder F'] (readers : Readers F)
    (limit : Nat) (pandas : Pandas) (mapping : SlicedMap) (filters : FilterConfiguration)
    (allPositives : Bool) (mean : F' → F' → F') {table : Table} {df : Frame F'}
    (hpaths : ∀ name files, listing name = some files → ∀ file ∈ files, file.1.head? = some '/')
    (hstored : runMetadataByDestination repr campaign = .ok byRun)
    (hpublished : filteredResults readers repr limit pandas mapping filters allPositives
      (resultRuns listing byRun) = .ok table)
    (hdf : df.keys.Perm (metadataCols ++ table.columns)) :
    table.columns.Nodup ∧
      ∃ summary, summarizeConfigurations repr mean df (table.sidecar.mapValues stored) =
          .ok summary ∧
        (summary.map fun row => row.config.sourceColumn).Perm table.columns ∧
        ∀ config, (∃ row ∈ summary, row.config = config) ↔
          ∃ run ∈ campaign, ∃ case, ReportsCase listing run case ∧
            config = run.configuration case := by
  have hpayloads : ∀ payload ∈ payloadsOf (resultRuns listing byRun),
      payload.2.1.head? = some '/' := fun payload hpayload => by
    obtain ⟨name, _, files, -, hfiles, hfile, -⟩ := mem_payloadsOf_resultRuns.mp hpayload
    exact hpaths name files hfiles payload.2 hfile
  have hdescribed := described_filteredResults hpayloads hpublished
  have hcolumns := metricColumns_perm hdf fun _ => notMem_metadataCols hdescribed
  have hget : ∀ name entry, (table.sidecar.mapValues stored).get? name = some entry ↔
      ∃ described, table.sidecar.get? name = some described ∧ stored described = entry :=
    fun name entry => by rw [Dict.get?_mapValues, Option.map_eq_some_iff]
  obtain ⟨summary, hsummary⟩ := @exists_summary F' _ repr mean df (table.sidecar.mapValues stored)
    fun column hcolumn => by
      obtain ⟨entry, hentry⟩ := hdescribed.exists_entry (hcolumns.mem_iff.mp hcolumn)
      exact ⟨_, (hget _ _).mpr ⟨entry, hentry, rfl⟩⟩
  refine ⟨hdescribed.nodup, summary, hsummary, (columns_perm hsummary).trans hcolumns,
    fun config => ?_⟩
  rw [configurations_summary hsummary]
  constructor
  · rintro ⟨column, -, entry, hentry, rfl⟩
    obtain ⟨described, hdescribes, rfl⟩ := (hget _ _).mp hentry
    obtain ⟨rfl, hentries⟩ := (hdescribed.described _ _).mp hdescribes
    obtain ⟨run, hrun, case, hcase, rfl⟩ := (published_campaign hstored described).mp hentries
    exact ⟨run, hrun, case, hcase, configuration_entry run case⟩
  · rintro ⟨run, hrun, case, hcase, rfl⟩
    have hentries := (published_campaign hstored _).mpr ⟨run, hrun, case, hcase, rfl⟩
    have hentry := (hdescribed.described _ _).mpr ⟨rfl, hentries⟩
    refine ⟨_, hcolumns.mem_iff.mpr (hdescribed.mem_columns hentry), _,
      (hget _ _).mpr ⟨_, hentry, rfl⟩, (configuration_entry run case).symm⟩

end Published

/-- Two runs of one tool, with different options. -/
def kleeCampaign : List StartedRun :=
  [⟨"klee_cf".toList, "klee_cf_default_4".toList,
    ["600".toList, "--sym-size".toList, "4".toList]⟩,
   ⟨"klee_cf".toList, "klee_cf_dfs_4".toList,
    ["600".toList, "--sym-size".toList, "4".toList, "--search".toList, "dfs".toList]⟩]

/-- There is one payload in each directory. -/
def kleeListing (name : Text) : Option (List (Text × Value)) :=
  some [("/results/".toList ++ name ++ "/modexp_fix_pub.json".toList,
    branchPayload "libgcrypt" "modexp" "mpi-pow.c" 641 15 false)]

/-- What the campaign stores about them. -/
def kleeStored : Dict Text RunMetadata :=
  Dict.setAll .empty (kleeCampaign.map fun run => (run.destinationName, run.metadata))

/-- What the two runs report. -/
def kleeResults : Merged Nat where
  columns := ["klee_cf_default_4_fix_pub".toList, "klee_cf_dfs_4_fix_pub".toList]
  byColumn := Dict.setAll .empty <|
    ["klee_cf_default_4_fix_pub".toList, "klee_cf_dfs_4_fix_pub".toList].map fun column =>
      (column, Dict.empty.set (libgcryptBranch "modexp" "mpi-pow.c" 641 15) 1)
  metadata := Dict.setAll .empty <| kleeCampaign.map fun run =>
    ((run.entry ⟨"fix_pub".toList, false⟩).sourceColumn, run.entry ⟨"fix_pub".toList, false⟩)

/-- The table of the two runs, read back. -/
def kleeFrame : Frame Nat :=
  Dict.setAll .empty <| (metadataCols ++ kleeResults.columns).map fun column => (column, [some 1])

theorem resultRuns_kleeStored : resultRuns kleeListing kleeStored =
    kleeCampaign.map fun run =>
      { name := run.destinationName, metadata := run.metadata,
        files := kleeListing run.destinationName } := by
  have hsorted : kleeStored.keys.Pairwise fun a b => (!decide (b < a)) = true := by
    decide
  rw [resultRuns, sortTexts, List.mergeSort_of_pairwise hsorted]
  rfl

theorem filteredResults_klee :
    filteredResults wholeReaders id 0 plainPandas mpiPowMap noFilters.filters true
      (resultRuns kleeListing kleeStored) = .ok (tableOf kleeResults) := by
  have hplain : mergeResults wholeReaders false true (resultRuns kleeListing kleeStored) =
      .ok (tableOf kleeResults) := by
    have hmerged : mergeRuns wholeReaders false true (resultRuns kleeListing kleeStored) =
        .ok kleeResults := by
      rw [resultRuns_kleeStored]
      rfl
    have hwritten : writeCsv wholeReaders kleeResults = .ok (tableOf kleeResults) :=
      writeCsv_tableOf rfl (by decide)
    rw [mergeResults, hmerged]
    exact hwritten
  have hsliced : mergeResults wholeReaders true true (resultRuns kleeListing kleeStored) =
      .error (.exit (noResults true)) := by
    rw [resultRuns_kleeStored]
    rfl
  rw [filteredResults, allMergedResults, hplain, hsliced]
  rfl

/-- The summary of the two runs. -/
theorem published_configurations_klee :
    (tableOf kleeResults).columns.Nodup ∧
      ∃ summary, summarizeConfigurations id Selection.wholeMean kleeFrame
          ((tableOf kleeResults).sidecar.mapValues stored) = .ok summary ∧
        (summary.map fun row => row.config.sourceColumn).Perm (tableOf kleeResults).columns ∧
        ∀ config, (∃ row ∈ summary, row.config = config) ↔
          ∃ run ∈ kleeCampaign, ∃ case, ReportsCase kleeListing run case ∧
            config = run.configuration case := by
  refine published_configurations wholeReaders 0 plainPandas mpiPowMap noFilters.filters true
    Selection.wholeMean ?_ (show runMetadataByDestination id kleeCampaign = .ok kleeStored from rfl)
    filteredResults_klee (List.Perm.refl _)
  intro name files hfiles file hfile
  obtain rfl := Option.some.inj hfiles
  obtain rfl := List.mem_singleton.mp hfile
  rfl

end KleeDeps.Postprocess
