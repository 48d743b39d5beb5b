import KleeDeps.Postprocess.VerificationTimings

/-!
# When a campaign reports "secure"

The verdict "secure" of a row goes back to the files of every repetition of the
case, through two folds: over the repetitions of a case, and over the rows that
share a cell of the table.

- `Clean`: the evidence one repetition has to give;
- `CleanCase`: a row whose repetitions all give it;
- `secure_only_if_clean`: **whatever the campaign directory holds, "secure" is
  reported for a KLEE case only on clean repetitions**, in the rows and in the
  table.
-/

namespace KleeDeps.Postprocess

open Py Shared Regex

/-! ## The evidence for a verdict -/

/-- The `info` file states zero partially completed paths, on a line of its own. -/
def StatesZero (limit : Nat) (text : Text) : Prop :=
  ∃ pre digits blank post, text = pre ++ ("KLEE: done: partially completed paths = ".toList ++
      (digits ++ (blank ++ post))) ∧
    (pre = [] ∨ pre.getLast? = some '\n') ∧ int10 limit digits = .ok 0 ∧
    (∀ c ∈ blank, isSpace c = true) ∧ (post = [] ∨ post.head? = some '\n')

/-- What a repetition has to show for a clean verdict of a KLEE case: no findings
in its result JSON, so far as that is an object with a list of them, and an `info`
file that states zero partial paths. A file that raises shows nothing. -/
structure Clean (limit : Nat) (repetition : Repetition) (caseId : Text) : Prop where
  noFindings : ∀ items findings, repetition.resultJson caseId = .holds (.dict items) →
    Value.field items "data".toList = .list findings → findings = []
  noException : ∀ e, repetition.resultJson caseId ≠ .raises e
  noPartialPaths : ∃ text, repetition.info caseId = some text ∧ StatesZero limit text

theorem statesZero_of_paths {limit : Nat} {info : Option Text}
    (h : kleePartiallyCompletedPaths limit info = .ok (some 0)) :
    ∃ text, info = some text ∧ StatesZero limit text := by
  unfold kleePartiallyCompletedPaths at h
  split at h
  · cases h
  · next text =>
    refine ⟨text, rfl, ?_⟩
    split at h
    · cases h
    · next m hm =>
      obtain ⟨pre, t, rfl, hpre, match₁, hmem, rfl⟩ := exists_mem_of_searchLines hm
      simp only [partialPathsRe, mem_matchAt_seq, mem_matchAt_lit, mem_matchAt_group_many,
        mem_matchAt_many, mem_matchAt_lineEnd] at hmem
      obtain ⟨m₁, ⟨hm₁, rfl⟩, m₂, ⟨m₃, ⟨digits, hs₃, hm₃, -, -⟩, m₄, ⟨m₅, ⟨hm₅, blank, hs₅, hblank,
        -⟩, m₆, ⟨rfl, hend⟩, rfl⟩, rfl⟩, rfl⟩ := hmem
      have hget : get (m₁.1 ++ (m₃.1 ++ (m₅.1 ++ []))) ['1'] = some digits := by
        simp [hm₁, hm₃, hm₅, Regex.get]
      refine ⟨pre, digits, blank, m₅.2, ?_, hpre, ?_, hblank, hend⟩
      · rw [hs₃, hs₅]
      · simp only [hget, Option.getD_some] at h
        split at h
        · next n hn => rw [hn, Option.some.inj (Except.ok.inj h)]
        · cases h

/-- **One repetition**: a KLEE verdict "secure" is clean. -/
theorem clean_of_secure {limit : Nat} {repetition : Repetition} {caseId : Text}
    (h : kleeProgramStatus limit repetition caseId = .ok .secure) :
    Clean limit repetition caseId := by
  unfold kleeProgramStatus at h
  split at h
  · cases h
  · cases h
  · next hpos =>
    split at h
    · cases h
    · next paths hpaths =>
      have hzero : paths = some 0 := by
        by_contra hne
        rw [if_neg hne] at h
        cases h
      refine ⟨fun items findings hjson hdata => ?_, fun e he => ?_, ?_⟩
      · rw [hjson] at hpos
        simp only [resultJsonHasPositives, Value.asDict?, hdata, Value.asList?] at hpos
        cases findings with
        | nil => rfl
        | cons x xs => cases hpos
      · rw [he] at hpos
        cases hpos
      · exact statesZero_of_paths (hzero ▸ hpaths)

/-- A folded verdict "secure" has a repetition, and only secure ones. -/
theorem mergeProgramStatuses_secure {statuses : List ProgramStatus}
    (h : mergeProgramStatuses statuses = .secure) :
    statuses ≠ [] ∧ ∀ status ∈ statuses, status = .secure := by
  unfold mergeProgramStatuses at h
  split at h
  · cases h
  · split at h
    · next hall => exact hall
    · cases h

/-! ## From a row to its repetitions -/

section Rows

variable {F : Type} {env : Environment F}

/-- The case id the timing files of a case state: the last one that is not blank. -/
def statedCaseId (files : List TimingFile) : Text :=
  files.foldl (fun caseId file =>
    match readTimingPayload file.payload with
    | .ok (some (row, _)) => nextCaseId caseId row
    | _ => caseId) []

/-- One iteration of the loop updates the case id, whatever else it does. -/
theorem caseId_of_foldTiming {acc acc' : CaseFold F} {file : TimingFile}
    (h : foldTiming env acc file = .ok acc') :
    acc'.caseId = match readTimingPayload file.payload with
      | .ok (some (row, _)) => nextCaseId acc.caseId row
      | _ => acc.caseId := by
  unfold foldTiming at h
  split at h
  · cases h
  · next hread =>
    obtain rfl := Except.ok.inj h
    rw [hread]
  · next row metadata hread =>
    rw [hread]
    split at h
    · cases h
    · split at h
      · obtain rfl := Except.ok.inj h
        rfl
      · obtain rfl := Except.ok.inj h
        rfl

theorem caseId_of_foldTimings {files : List TimingFile} {acc acc' : CaseFold F}
    (h : foldTimings env acc files = .ok acc') :
    acc'.caseId = files.foldl (fun caseId file =>
      match readTimingPayload file.payload with
      | .ok (some (row, _)) => nextCaseId caseId row
      | _ => caseId) acc.caseId := by
  induction files generalizing acc with
  | nil =>
    obtain rfl := Except.ok.inj h
    rfl
  | cons file files ih =>
    rw [foldTimings] at h
    split at h
    · cases h
    · next next hstep =>
      rw [ih h, List.foldl_cons, caseId_of_foldTiming hstep]

/-- If all collected statuses are secure, every repetition is. -/
theorem secure_of_programStatuses {column : ColumnMetadata} {caseId : Text}
    {files : List TimingFile} {statuses : List ProgramStatus}
    (h : programStatuses env column caseId files = .ok statuses)
    (hall : ∀ status ∈ statuses, status = .secure) :
    ∀ file ∈ files, programStatusForRepetition env.limit env.isWord file.repetition caseId
      column.comparisonTool column.toolFamily = .ok .secure := by
  induction files generalizing statuses with
  | nil => simp
  | cons file files ih =>
    rw [programStatuses] at h
    split at h
    · cases h
    · next status hstatus =>
      cases hrest : programStatuses env column caseId files with
      | error e =>
        rw [hrest] at h
        cases h
      | ok rest =>
        rw [hrest] at h
        obtain rfl := Except.ok.inj h
        intro f hf
        rcases List.mem_cons.mp hf with rfl | hf
        · rw [hstatus, hall status (by simp)]
        · exact ih hrest (fun s hs => hall s (by simp [hs])) f hf

/-- **One case**: a secure KLEE row has only clean repetitions. -/
theorem clean_of_mergeCaseTimings {run : RunMetadata} {files : List TimingFile}
    {row : TimingRow F} (h : mergeCaseTimings env run files = .ok (some row))
    (hsecure : row.programStatus = .secure)
    (hklee : isKleeFamily row.comparisonTool row.toolFamily = true) :
    ∀ file ∈ files, Clean env.limit file.repetition (statedCaseId files) := by
  unfold mergeCaseTimings at h
  split at h
  · cases h
  · next acc hacc =>
    split at h
    · next mergedTime metadata _ _ =>
      split at h
      · cases h
      · next column hcolumn =>
        split at h
        · cases h
        · next statuses hstatuses =>
          obtain rfl := Option.some.inj (Except.ok.inj h)
          obtain ⟨hne, hall⟩ := mergeProgramStatuses_secure hsecure
          -- without a case id the statuses would be empty, and an empty list is not secure
          have hid : acc.caseId ≠ [] := by
            intro hnil
            rw [if_pos hnil] at hstatuses
            exact hne (Except.ok.inj hstatuses).symm
          rw [if_neg hid] at hstatuses
          have hstated : acc.caseId = statedCaseId files := caseId_of_foldTimings hacc
          intro file hfile
          have hstatus := secure_of_programStatuses hstatuses hall file hfile
          rw [programStatusForRepetition, if_pos hklee, hstated] at hstatus
          exact clean_of_secure hstatus
    · cases h

/-! ## From the rows to the campaign -/

/-- A repetition has a timing file of the case. -/
def Repetition.HasTiming (repetition : Repetition) (stem : Text) : Prop :=
  ∃ payload, (stem, payload) ∈ repetition.timings.getD []

/-- The timing file is in its group. -/
def Grouped (grouped : Dict Text (List TimingFile)) (repetition : Repetition)
    (entry : Text × JsonFile) : Prop :=
  ∃ files, grouped.get? entry.1 = some files ∧ ⟨repetition, entry.2⟩ ∈ files

theorem grouped_addTiming {grouped : Dict Text (List TimingFile)} {repetition r : Repetition}
    {entry e : Text × JsonFile} (h : Grouped grouped r e ∨ (repetition = r ∧ entry = e)) :
    Grouped (addTiming repetition grouped entry) r e := by
  unfold Grouped addTiming
  rw [Dict.get?_set]
  rcases h with ⟨files, hfiles, hmem⟩ | ⟨rfl, rfl⟩
  · by_cases hkey : entry.1 = e.1
    · rw [if_pos hkey]
      refine ⟨_, rfl, ?_⟩
      rw [hkey, hfiles]
      exact List.mem_append_left _ hmem
    · rw [if_neg hkey]
      exact ⟨files, hfiles, hmem⟩
  · rw [if_pos rfl]
    exact ⟨_, rfl, List.mem_append_right _ (List.mem_singleton.mpr rfl)⟩

theorem grouped_foldl_addTiming {entries : List (Text × JsonFile)} {repetition r : Repetition}
    {e : Text × JsonFile} {grouped : Dict Text (List TimingFile)}
    (h : Grouped grouped r e ∨ (repetition = r ∧ e ∈ entries)) :
    Grouped (entries.foldl (addTiming repetition) grouped) r e := by
  induction entries generalizing grouped with
  | nil => exact h.elim id fun hmem => by simp at hmem
  | cons entry entries ih =>
    refine ih ?_
    rcases h with h | ⟨rfl, hmem⟩
    · exact Or.inl (grouped_addTiming (Or.inl h))
    · rcases List.mem_cons.mp hmem with rfl | hmem
      · exact Or.inl (grouped_addTiming (Or.inr ⟨rfl, rfl⟩))
      · exact Or.inr ⟨rfl, hmem⟩

/-- Every timing file of every repetition is in the group of its stem. -/
theorem grouped_timingFilesByCase {repetitions : List Repetition} {r : Repetition}
    {e : Text × JsonFile} (hr : r ∈ repetitions) (he : e ∈ r.timings.getD []) :
    Grouped (timingFilesByCase repetitions) r e := by
  have hfold : ∀ (reps : List Repetition) (grouped : Dict Text (List TimingFile)),
      Grouped grouped r e ∨ r ∈ reps →
      Grouped (reps.foldl (fun grouped repetition =>
        (repetition.timings.getD []).foldl (addTiming repetition) grouped) grouped) r e := by
    intro reps
    induction reps with
    | nil => exact fun grouped h => h.elim id fun hmem => by simp at hmem
    | cons rep reps ih =>
      intro grouped h
      refine ih _ ?_
      rcases h with h | hmem
      · exact Or.inl (grouped_foldl_addTiming (Or.inl h))
      · rcases List.mem_cons.mp hmem with rfl | hmem
        · exact Or.inl (grouped_foldl_addTiming (Or.inr ⟨rfl, he⟩))
        · exact Or.inr hmem
  exact hfold repetitions .empty (Or.inr hr)

theorem exists_of_collectCases {run : RunMetadata} {cases : List (Text × List TimingFile)}
    {rows : List (TimingRow F)} (h : collectCases env run cases = .ok rows) {row : TimingRow F}
    (hrow : row ∈ rows) :
    ∃ case ∈ cases, mergeCaseTimings env run case.2 = .ok (some row) := by
  induction cases generalizing rows with
  | nil =>
    obtain rfl := Except.ok.inj h
    simp at hrow
  | cons case cases ih =>
    obtain ⟨stem, files⟩ := case
    rw [collectCases] at h
    split at h
    · cases h
    · next merged hmerged =>
      cases hrest : collectCases env run cases with
      | error e =>
        rw [hrest] at h
        cases h
      | ok rest =>
        rw [hrest] at h
        obtain rfl := Except.ok.inj h
        rcases List.mem_append.mp hrow with hmem | hmem
        · refine ⟨(stem, files), by simp, ?_⟩
          rw [hmerged, Option.mem_toList.mp hmem]
        · obtain ⟨case, hcase, hrow'⟩ := ih hrest hmem
          exact ⟨case, List.mem_cons_of_mem _ hcase, hrow'⟩

theorem exists_of_collectRuns {runs : List Run} {rows : List (TimingRow F)}
    (h : collectRuns env runs = .ok rows) {row : TimingRow F} (hrow : row ∈ rows) :
    ∃ run ∈ runs, ∃ repetitions, run.repetitions = some repetitions ∧
      ∃ case ∈ (timingFilesByCase repetitions).items,
        mergeCaseTimings env run.metadata case.2 = .ok (some row) := by
  induction runs generalizing rows with
  | nil =>
    obtain rfl := Except.ok.inj h
    simp at hrow
  | cons run runs ih =>
    rw [collectRuns] at h
    split at h
    · cases h
    · next repetitions hreps =>
      split at h
      · cases h
      · next rows₁ hrows₁ =>
        cases hrest : collectRuns env runs with
        | error e =>
          rw [hrest] at h
          cases h
        | ok rest =>
          rw [hrest] at h
          obtain rfl := Except.ok.inj h
          rcases List.mem_append.mp hrow with hmem | hmem
          · obtain ⟨case, hcase, hmerge⟩ := exists_of_collectCases hrows₁ hmem
            exact ⟨run, by simp, repetitions, hreps, case, List.mem_mergeSort.mp hcase, hmerge⟩
          · obtain ⟨run', hrun', hrest'⟩ := ih hrest hmem
            exact ⟨run', List.mem_cons_of_mem _ hrun', hrest'⟩

variable (env) in
/-- The row of a case all of whose repetitions are clean: every repetition
directory of the run that has a timing file of the case. -/
def CleanCase (runs : List Run) (row : TimingRow F) : Prop :=
  ∃ run ∈ runs, ∃ repetitions stem files, run.repetitions = some repetitions ∧
    (timingFilesByCase repetitions).get? stem = some files ∧
    mergeCaseTimings env run.metadata files = .ok (some row) ∧
    ∀ repetition ∈ repetitions, repetition.HasTiming stem →
      Clean env.limit repetition (statedCaseId files)

/-- **The rows**: "secure" for a KLEE case only on clean repetitions. -/
theorem cleanCase_of_secure {runs : List Run} {rows : List (TimingRow F)}
    (h : collectTimingRows env runs = .ok rows) {row : TimingRow F} (hrow : row ∈ rows)
    (hsecure : row.programStatus = .secure)
    (hklee : isKleeFamily row.comparisonTool row.toolFamily = true) :
    CleanCase env runs row := by
  unfold collectTimingRows at h
  cases hruns : collectRuns env (runs.mergeSort fun a b => !decide (b.name < a.name)) with
  | error e =>
    rw [hruns] at h
    cases h
  | ok all =>
    rw [hruns] at h
    obtain rfl := Except.ok.inj h
    obtain ⟨run, hrun, repetitions, hreps, ⟨stem, files⟩, hcase, hmerge⟩ :=
      exists_of_collectRuns hruns (List.mem_mergeSort.mp hrow)
    have hget := Dict.get?_of_mem _ hcase
    refine ⟨run, List.mem_mergeSort.mp hrun, repetitions, stem, files, hreps, hget, hmerge, ?_⟩
    rintro repetition hrep ⟨payload, hpayload⟩
    obtain ⟨files', hget', hmem⟩ := grouped_timingFilesByCase hrep hpayload
    obtain rfl : files = files' := Option.some.inj (hget.symm.trans hget')
    exact clean_of_mergeCaseTimings hmerge hsecure hklee _ hmem

/-! ## From a cell of the table to its rows -/

/-- **Run lemma** of the loop over the rows: the statuses under a key are those of
the rows with that key. -/
theorem mem_collectCells {sources : List Text} (key : Text × Text × Text)
    (hkey : key.1 ∈ sources) (status : ProgramStatus) (rows : List (TimingRow F))
    (acc : Dict (Text × Text × Text) (List ProgramStatus) ×
      Dict (Text × Text × Text) (TimingRow F)) :
    status ∈ ((rows.foldl (collectCells env sources) acc).1.get? key).getD [] ↔
      status ∈ (acc.1.get? key).getD [] ∨
        ∃ row ∈ rows, row.cellKey = key ∧ row.programStatus = status := by
  induction rows generalizing acc with
  | nil => simp
  | cons row rows ih =>
    rw [List.foldl_cons, ih]
    have hstep : status ∈ ((collectCells env sources acc row).1.get? key).getD [] ↔
        status ∈ (acc.1.get? key).getD [] ∨ (row.cellKey = key ∧ row.programStatus = status) := by
      unfold collectCells
      split
      · next hnot =>
        have hne : row.cellKey ≠ key := fun he => hnot (by rw [← he] at hkey; exact hkey)
        simp [hne]
      · simp only [Dict.get?_set]
        by_cases he : row.cellKey = key
        · subst he
          simp [eq_comm]
        · simp [he]
    rw [hstep]
    simp only [List.mem_cons, exists_eq_or_imp]
    tauto

theorem getLast?_withNotes (time : Text) (notes : List Text) :
    (withNotes (time ++ ['s']) notes).getLast? = some ')' ∨
      (withNotes (time ++ ['s']) notes).getLast? = some 's' := by
  unfold withNotes
  split
  · exact Or.inr List.getLast?_concat
  · exact Or.inl List.getLast?_concat

/-- No timing cell reads "secure": it is a dash, or ends in `s` or `)`. -/
theorem formatTimingCell_ne_secure (row : Option (TimingRow F)) :
    formatTimingCell env row ≠ ProgramStatus.secure.token := by
  have hlast : (formatTimingCell env row).getLast? = some '-' ∨
      (formatTimingCell env row).getLast? = some ')' ∨
      (formatTimingCell env row).getLast? = some 's' := by
    cases row with
    | none => exact Or.inl rfl
    | some row =>
      unfold formatTimingCell
      simp only
      split
      · exact Or.inr (Or.inl List.getLast?_concat)
      · exact Or.inr (getLast?_withNotes _ _)
  intro he
  rw [he] at hlast
  revert hlast
  decide

theorem statusCell_secure {statuses : Option (List ProgramStatus)}
    (h : statusCell statuses = ProgramStatus.secure.token) :
    ∃ ss, statuses = some ss ∧ mergeProgramStatuses ss = .secure := by
  unfold statusCell at h
  split at h
  · cases h
  · next ss =>
    refine ⟨ss, rfl, ?_⟩
    cases hm : mergeProgramStatuses ss with
    | secure => rfl
    | insecure =>
      rw [hm] at h
      exact absurd h (by decide)
    | unknown =>
      rw [hm] at h
      exact absurd h (by decide)

/-- A cell of the row of a benchmark was there, or was set for some column. -/
theorem get?_foldl_addCells
    {cells : Dict (Text × Text × Text) (List ProgramStatus) ×
      Dict (Text × Text × Text) (TimingRow F)}
    {labels : Dict Text Text} {library variant : Text} {sources : List Text}
    {row : Dict Text Text} {key value : Text}
    (h : (sources.foldl (addCells env cells labels library variant) row).get? key = some value) :
    row.get? key = some value ∨ ∃ source ∈ sources,
      (key = (labels.get? source).getD [] ∧
        value = formatTimingCell env (cells.2.get? (source, library, variant))) ∨
      (key = (labels.get? source).getD [] ++ " status".toList ∧
        value = statusCell (cells.1.get? (source, library, variant))) := by
  induction sources generalizing row with
  | nil => exact Or.inl h
  | cons source sources ih =>
    rcases ih h with h | ⟨source', hmem, h⟩
    · rw [addCells, Dict.get?_set, Dict.get?_set] at h
      split at h
      · next hk => exact Or.inr ⟨source, by simp, Or.inr ⟨hk.symm, (Option.some.inj h).symm⟩⟩
      · split at h
        · next hk => exact Or.inr ⟨source, by simp, Or.inl ⟨hk.symm, (Option.some.inj h).symm⟩⟩
        · exact Or.inl h
    · exact Or.inr ⟨source', List.mem_cons_of_mem _ hmem, h⟩

/-- **The table**: "secure" in a cell only if all rows of the cell are secure, and
there is one. -/
theorem secure_of_table {rows : List (TimingRow F)} {selected : List Selection}
    {entry : (Text × Text × Text) × Dict Text Text}
    (hentry : entry ∈ buildBestTableRows env rows selected) {label : Text}
    (h : entry.2.get? (label ++ " status".toList) = some ProgramStatus.secure.token) :
    ∃ config ∈ selected,
      label = ((labelColumns env selected).get? config.sourceColumn).getD [] ∧
      (∃ row ∈ rows, row.cellKey = (config.sourceColumn, entry.1.1, entry.1.2.1)) ∧
      ∀ row ∈ rows, row.cellKey = (config.sourceColumn, entry.1.1, entry.1.2.1) →
        row.programStatus = .secure := by
  obtain ⟨b, -, rfl⟩ := List.mem_map.mp hentry
  rcases get?_foldl_addCells h with hnil | ⟨source, hsource, ⟨-, hcell⟩ | ⟨hlabel, hcell⟩⟩
  · -- the benchmark cell has another name
    rw [Dict.get?_set, Dict.get?_empty] at hnil
    split at hnil
    · next hk =>
      have hlast := congrArg List.getLast? hk
      simp [List.getLast?_append] at hlast
    · cases hnil
  · exact absurd hcell.symm (formatTimingCell_ne_secure _)
  · obtain ⟨config, hconfig, rfl⟩ := List.mem_map.mp hsource
    obtain ⟨ss, hss, hmerged⟩ := statusCell_secure hcell.symm
    obtain ⟨hne, hall⟩ := mergeProgramStatuses_secure hmerged
    have hmem : ∀ status, status ∈ ss ↔ ∃ row ∈ rows,
        row.cellKey = (config.sourceColumn, b.1, b.2.1) ∧ row.programStatus = status := by
      intro status
      have hiff : status ∈ ((rows.foldl (collectCells env (selected.map Selection.sourceColumn))
          (.empty, .empty)).1.get? (config.sourceColumn, b.1, b.2.1)).getD [] ↔ _ :=
        mem_collectCells (config.sourceColumn, b.1, b.2.1) hsource status rows (.empty, .empty)
      rw [hss] at hiff
      simpa using hiff
    refine ⟨config, hconfig, List.append_cancel_right hlabel, ?_, ?_⟩
    · obtain ⟨status, hstatus⟩ := List.exists_mem_of_ne_nil _ hne
      obtain ⟨row, hrow, hkey, -⟩ := (hmem status).mp hstatus
      exact ⟨row, hrow, hkey⟩
    · exact fun row hrow hkey => hall _ ((hmem _).mpr ⟨row, hrow, hkey, rfl⟩)

/-- **Soundness of the verdict.** For every campaign directory whose rows can be
collected: a row of a KLEE case that says "secure" has only clean repetitions, and
a cell of the table that says so has at least one row, and only such rows. -/
theorem secure_only_if_clean (env : Environment F) (runs : List Run) (rows : List (TimingRow F))
    (h : collectTimingRows env runs = .ok rows) :
    (∀ row ∈ rows, row.programStatus = .secure →
      isKleeFamily row.comparisonTool row.toolFamily = true → CleanCase env runs row) ∧
    ∀ selected, ∀ entry ∈ buildBestTableRows env rows selected, ∀ label,
      entry.2.get? (label ++ " status".toList) = some ProgramStatus.secure.token →
      ∃ config ∈ selected,
        label = ((labelColumns env selected).get? config.sourceColumn).getD [] ∧
        (∃ row ∈ rows, row.cellKey = (config.sourceColumn, entry.1.1, entry.1.2.1)) ∧
        ∀ row ∈ rows, row.cellKey = (config.sourceColumn, entry.1.1, entry.1.2.1) →
          row.programStatus = .secure ∧
          (isKleeFamily row.comparisonTool row.toolFamily = true → CleanCase env runs row) := by
  refine ⟨fun row hrow hsecure hklee => cleanCase_of_secure h hrow hsecure hklee, ?_⟩
  intro selected entry hentry label hcell
  obtain ⟨config, hconfig, hlabel, hex, hall⟩ := secure_of_table hentry hcell
  refine ⟨config, hconfig, hlabel, hex, fun row hrow hkey => ?_⟩
  have hsecure := hall row hrow hkey
  exact ⟨hsecure, fun hklee => cleanCase_of_secure h hrow hsecure hklee⟩

end Rows

/-! ## A case without a result file -/

/-- Whole seconds, and the mean of one value. -/
def wholeSeconds : Environment Nat where
  limit := 4300
  isWord c := c.isAlphanum || c == '_'
  toFloat v := v.asInt?.map Int.toNat
  toInt := Value.asInt?
  geometricMean
    | [value] => some value
    | _ => none
  lt a b := a < b
  fixed2 n := decimal n ++ ".00".toList
  statusName v := v.asStr?.getD "unknown".toList
  sameMetadata _ _ := true
  caseIdentity _ := none
  displayLabel tool := tool

/-- The timing file of a toy case. -/
def toyTiming : JsonFile :=
  .holds (.dict
    [("data".toList, .list [.dict
      [("case_id".toList, .str "toy_var_pub".toList),
        ("verification_time_seconds".toList, .int 1),
        ("status".toList, .str "completed".toList)]]),
     ("metadata".toList, .dict
      [("library".toList, .str "toy".toList), ("target".toList, .str "toy".toList),
        ("config".toList, .str "var_pub".toList)])])

/-- One repetition of the case, with a given result file. KLEE explored every path. -/
def toyRepetition (result : JsonFile) : Repetition where
  timings := some [("toy_var_pub".toList, toyTiming)]
  resultJson _ := result
  info _ := some "KLEE: done: partially completed paths = 0\n".toList
  workerLog _ := none

/-- A run of that repetition. -/
def toyRun (result : JsonFile) : Run where
  name := "klee_cf".toList
  metadata :=
    { sourceColumnPrefix := "klee_cf".toList, toolFamily := "klee_cf".toList
      searcher := "default".toList, symSize := "all".toList, cvModel := "all".toList }
  repetitions := some [toyRepetition result]

/-- The row of the case, if there are no positives. -/
theorem collectTimingRows_toyRun (result : JsonFile)
    (h : resultJsonHasPositives result = .ok false) :
    ∃ row, collectTimingRows wholeSeconds [toyRun result] = .ok [row] ∧
      row.programStatus = .secure ∧ row.comparisonTool = "klee_cf".toList := by
  have hpaths : kleePartiallyCompletedPaths 4300
      (some "KLEE: done: partially completed paths = 0\n".toList) = .ok (some 0) := by
    decide +kernel
  have hstatus : kleeProgramStatus 4300 (toyRepetition result) "toy_var_pub".toList =
      .ok .secure := by
    unfold kleeProgramStatus toyRepetition
    simp only [h, hpaths]
    rfl
  have hmerge : ∃ row, mergeCaseTimings wholeSeconds (toyRun result).metadata
      [⟨toyRepetition result, toyTiming⟩] = .ok (some row) ∧
      row.programStatus = .secure ∧ row.comparisonTool = "klee_cf".toList := by
    have hfold : ∃ acc, foldTimings wholeSeconds {} [⟨toyRepetition result, toyTiming⟩] =
        .ok acc ∧ acc.caseId = "toy_var_pub".toList ∧ acc.values = [1] ∧
        acc.caseMetadata = some [("library".toList, .str "toy".toList),
          ("target".toList, .str "toy".toList), ("config".toList, .str "var_pub".toList)] :=
      ⟨_, rfl, rfl, rfl, rfl⟩
    obtain ⟨acc, hacc, hid, hvalues, hmeta⟩ := hfold
    have hcolumn : ∃ column, buildColumnMetadata (toyRun result).metadata
        [("library".toList, .str "toy".toList), ("target".toList, .str "toy".toList),
          ("config".toList, .str "var_pub".toList)] = .ok column ∧
        column.comparisonTool = "klee_cf".toList ∧ column.toolFamily = "klee_cf".toList :=
      ⟨_, rfl, rfl, rfl⟩
    obtain ⟨column, hcol, htool, hfamily⟩ := hcolumn
    have hstatuses : programStatuses wholeSeconds column acc.caseId
        [⟨toyRepetition result, toyTiming⟩] = .ok [.secure] := by
      have hklee : isKleeFamily column.comparisonTool column.toolFamily = true := by
        rw [htool, hfamily]
        decide
      have hone : programStatusForRepetition 4300 wholeSeconds.isWord (toyRepetition result)
          acc.caseId column.comparisonTool column.toolFamily = .ok .secure := by
        rw [programStatusForRepetition, if_pos hklee, hid, hstatus]
      simp only [programStatuses, wholeSeconds] at hone ⊢
      rw [hone]
      rfl
    have hmean : wholeSeconds.geometricMean acc.values = some 1 := by
      rw [hvalues]
      rfl
    have hne : acc.caseId ≠ [] := by simp [hid]
    simp only [mergeCaseTimings, hacc, hmean, hmeta, hcol, if_neg hne, hstatuses]
    exact ⟨_, rfl, rfl, htool⟩
  obtain ⟨row, hrow, hsecure, htool⟩ := hmerge
  refine ⟨row, ?_, hsecure, htool⟩
  have hcases : collectCases wholeSeconds (toyRun result).metadata
      [("toy_var_pub".toList, [⟨toyRepetition result, toyTiming⟩])] = .ok [row] := by
    simp only [collectCases, hrow]
    rfl
  have hruns : collectRuns wholeSeconds [toyRun result] = .ok [row] := by
    have hitems : (timingFilesByCase [toyRepetition result]).items =
        [("toy_var_pub".toList, [⟨toyRepetition result, toyTiming⟩])] := rfl
    have hreps : (toyRun result).repetitions = some [toyRepetition result] := rfl
    simp only [collectRuns, hreps, hitems, List.mergeSort_singleton, hcases]
    rfl
  rw [collectTimingRows, List.mergeSort_singleton, hruns]
  simp [Except.map]

/-- The result of the case that the verdict is about: an object with an empty list. -/
def toyResult : JsonFile := .holds (.dict [("data".toList, .list [])])

theorem secure_only_if_clean_toy :
    ∃ row, collectTimingRows wholeSeconds [toyRun toyResult] = .ok [row] ∧
      row.programStatus = .secure ∧ CleanCase wholeSeconds [toyRun toyResult] row := by
  obtain ⟨row, hrows, hsecure, htool⟩ := collectTimingRows_toyRun toyResult rfl
  refine ⟨row, hrows, hsecure, ?_⟩
  refine (secure_only_if_clean wholeSeconds [toyRun toyResult] [row] hrows).1 row (by simp)
    hsecure ?_
  rw [isKleeFamily, htool]
  rfl

/-- Without a result file the same case is reported secure. -/
theorem secure_without_result :
    ∃ row, collectTimingRows wholeSeconds [toyRun .missing] = .ok [row] ∧
      row.programStatus = .secure ∧ row.comparisonTool = "klee_cf".toList ∧
      ¬ ∃ items, (toyRepetition .missing).resultJson "toy_var_pub".toList = .holds (.dict items) ∧
        Value.field items "data".toList = .list [] := by
  obtain ⟨row, hrows, hsecure, htool⟩ := collectTimingRows_toyRun .missing rfl
  refine ⟨row, hrows, hsecure, htool, ?_⟩
  rintro ⟨items, hitems, -⟩
  cases hitems

end KleeDeps.Postprocess
