import KleeDeps.Converters.CaseRows

/-!
# The location a replayed row keeps

Three front ends replay a finding and may put the column of the divergence into its row, each
under a guard of its own: `mode_dataframe` (KLEE) and `build_rows` (BINSEC) ask whether the
divergence is on the recorded line, `mode_abacus_json` does not.

- `Kept`: a stored location is the recorded one or that of the replay, and another column than
  the recorded one comes from the recorded line;
- `reported_is_replayed`: the place a BINSEC row takes from the output of its child is that of
  the divergence;
- `stored_location_kept_iff`: **no location is invented**, except by the ABACUS front end for a
  divergence on another line of the same expression.
-/

namespace KleeDeps.Converters

open Py Replay

/-- The stored line and column are the recorded ones or those of a replayed place, and a column
is replaced only if a replayed place is on the recorded line. -/
structure Kept (line column : Option Int) (replayed : SourceLocation → Prop)
    (stored : Option Int × Option Int) : Prop where
  origin : stored = (line, column) ∨
    ∃ place, replayed place ∧ stored = (some place.line, some place.column)
  sameLine : stored.2 ≠ column → ∃ place, replayed place ∧ line = some place.line

section Kept

variable {line column : Option Int} {replayed : SourceLocation → Prop} {place : SourceLocation}

theorem kept_recorded : Kept line column replayed (line, column) :=
  ⟨.inl rfl, fun h => absurd rfl h⟩

theorem kept_replayed (h : replayed place) (hline : line = some place.line) :
    Kept line column replayed (line, some place.column) :=
  ⟨.inr ⟨place, h, by rw [hline]⟩, fun _ => ⟨place, h, hline⟩⟩

end Kept

/-- The place of the divergence, if the replay found one. -/
def DivergedAt (outcome : ReplayOutcome) (place : SourceLocation) : Prop :=
  ∃ replay, outcome = .diverged replay ∧ replay.location = some place

/-! ### KLEE -/

section Klee

variable {readLines : Text → Option (List Text)} {row : FrameRow} {outcome : ReplayOutcome}
  {update : RowUpdate}

theorem dataframeRow_kept (h : dataframeRow readLines row outcome = some update) :
    Kept row.line row.column (DivergedAt outcome) (row.line, update.column) := by
  rw [dataframeRow] at h
  split at h
  · obtain rfl := Option.some.inj h
    exact kept_recorded
  · cases outcome with
    | timeout =>
      obtain rfl := Option.some.inj h
      exact kept_recorded
    | failed err => cases h
    | identical =>
      obtain rfl := Option.some.inj h
      exact kept_recorded
    | diverged replay =>
      dsimp only at h
      split at h
      · obtain rfl := Option.some.inj h
        exact kept_recorded
      · next actual hactual =>
        split at h
        · obtain rfl := Option.some.inj h
          exact kept_recorded
        · split at h
          · obtain rfl := Option.some.inj h
            -- a success: the column correction and its guard
            show Kept row.line row.column _ (row.line, ite _ _ _)
            split
            · next hguard => exact kept_replayed ⟨replay, rfl, hactual⟩ hguard.1
            · exact kept_recorded
          · obtain rfl := Option.some.inj h
            exact kept_recorded

end Klee

/-! ### BINSEC -/

/-- How `reproduce_positives --input` ends for a run of its validation. -/
def childExit (readLines : Text → Option (List Text)) (expectation : Expectation)
    (run : ChildRun) (stderr : Text) : ReplayExit :=
  let child := modeInputValues readLines expectation run
  { returncode := child.1, stdout := child.2, stderr := stderr }

section Binsec

variable {F : Type} {env : Surroundings F} {conv : Conversion} {models : Dict Int Model}
  {log : Text} {addr : Int}

/-- A place that a replay of the finding at an address reports. -/
def ReportedAt (env : Surroundings F) (conv : Conversion) (models : Dict Int Model) (log : Text)
    (addr : Int) (place : SourceLocation) : Prop :=
  ∃ location specs, env.addrInfo addr = some location ∧
    specStrings env.limit (findingCounterexamples conv models addr) conv.secretInputs
      conv.publicInputs = .ok specs ∧
    reportedPlace env (requestOf specs (expectationOf env conv log addr location)) =
      .ok (some place)

theorem buildRow_kept {row : Row F}
    (h : buildRow env conv models (Dict.empty.setAll (loggedLeaks env.round log)) addr =
      .ok row) :
    Kept ((env.addrInfo addr).map SourceLocation.line)
      ((env.addrInfo addr).map SourceLocation.column) (ReportedAt env conv models log addr)
      (row.line, row.column) := by
  obtain ⟨-, ⟨rfl, -⟩ | ⟨location, ⟨status, place⟩, -, hlocation, -, hreplay, rfl⟩⟩ :=
    buildRow_ok_iff.mp h
  · exact kept_recorded
  · obtain ⟨specs, hspecs⟩ :=
      exists_specStrings_iff.mpr (exists_replayFinding_iff.mp ⟨_, hreplay⟩).1
    have hplace := ((replayFinding_of_specs hspecs _).mp hreplay).1
    show Kept _ _ _ ((env.addrInfo addr).map SourceLocation.line,
      some (columnAfter _ location.line location.column status place))
    rcases columnAfter_cases (rowFilename env conv location) location.line location.column status
      place with hsame | ⟨found, rfl, -, hline, hcolumn⟩
    · rw [hsame, hlocation]
      exact kept_recorded
    · rw [hcolumn]
      refine kept_replayed ⟨location, specs, hlocation, hspecs, hplace⟩ ?_
      rw [hlocation, hline]
      rfl

/-- **What the child reports is where the replay diverged**, for the runs whose answer its
protocol transmits. -/
theorem reported_is_replayed (hlimit : env.limit = 0 ∨ 640 ≤ env.limit)
    {readLines : Text → Option (List Text)} {request : ReplayRequest} {run : ChildRun}
    {stderr : Text} (hchild : env.replay request =
      childExit readLines request.expectation run stderr)
    (hlocation : request.expectation.hasLocation = true) (hresolved : run.Resolved)
    (htransmits : Transmittable readLines request.expectation run) {place : SourceLocation}
    (h : reportedPlace env request = .ok (some place)) :
    ∃ outcome, run = .replayed outcome ∧ DivergedAt outcome place := by
  have hfaithful := (faithful_iff hlimit readLines _ hlocation run hresolved stderr).mpr
    htransmits
  rw [reportedPlace, hchild] at h
  change runReproduce env.limit (modeInputValues readLines request.expectation run).1
    (modeInputValues readLines request.expectation run).2 stderr = _ at h
  -- only a child that ends with 0 is asked for a place
  have hzero : (modeInputValues readLines request.expectation run).1 = 0 := by
    by_contra hne
    rw [runReproduce, if_pos hne] at h
    cases h
  have hstored : storedRow env.limit readLines request.expectation run stderr =
      .ok (.success, some place) := by
    rw [storedRow, h, hzero]
    rfl
  unfold Faithful at hfaithful
  cases run with
  | badInputs err =>
    obtain ⟨x, hx⟩ := hfaithful
    rw [hstored] at hx
    cases hx
  | escaped e =>
    obtain ⟨x, hx⟩ := hfaithful
    rw [hstored] at hx
    cases hx
  | replayed outcome =>
    have hvalidated : (ChildRun.replayed outcome).validation readLines request.expectation =
      .ok (validateOutcome readLines request.expectation outcome) := rfl
    rw [hvalidated] at hfaithful
    dsimp only at hfaithful
    cases hstatus : (validateOutcome readLines request.expectation outcome).status with
    | none =>
      rw [hstatus] at hfaithful
      obtain ⟨x, hx⟩ := hfaithful
      rw [hstored] at hx
      cases hx
    | some status =>
      rw [hstatus] at hfaithful
      obtain ⟨found, hfound, hreplayed⟩ := hfaithful
      obtain ⟨rfl, rfl⟩ := Prod.mk.inj (Except.ok.inj (hstored.symm.trans hfound))
      obtain ⟨replay, location, rfl, hloc, hvalidation, -⟩ := success_spec hlocation hstatus
      have hplace := hreplayed hzero
      rw [hvalidation] at hplace
      exact ⟨_, rfl, replay, rfl, hplace.symm⟩

end Binsec

/-! ### ABACUS -/

section Abacus

variable {readLines : Text → Option (List Text)} {row : FrameRow} {replay : ReplayResult}
  {place : SourceLocation}

/-- The replay confirms the row: same kind, same file, and the recorded line or one of the same
expression, as far as the row has them. -/
structure Confirms (readLines : Text → Option (List Text)) (row : FrameRow)
    (replay : ReplayResult) (place : SourceLocation) : Prop where
  kind : row.kind = none ∨ row.resultKind = some replay.divergenceKind
  file : ∀ name ∈ row.filename, basename name = basename place.file
  line : ∀ line ∈ row.line, line = place.line ∨
    sameExpressionMatch readLines place.file line place.line = true

theorem matchReplay_isMatch_iff :
    (matchReplay readLines row.filename row.line none replay place).isMatch = true ↔
      (∀ name ∈ row.filename, basename name = basename place.file) ∧
        ∀ line ∈ row.line, line = place.line ∨
          sameExpressionMatch readLines place.file line place.line = true := by
  unfold matchReplay locationMatches
  by_cases hfile : ∃ name ∈ row.filename, basename name ≠ basename place.file
  · rw [if_pos hfile]
    obtain ⟨name, hname, hne⟩ := hfile
    exact ⟨fun h => (by cases h), fun h => absurd (h.1 name hname) hne⟩
  · rw [if_neg hfile]
    have hsame : ∀ name ∈ row.filename, basename name = basename place.file := fun name hname =>
      not_not.mp fun hne => hfile ⟨name, hname, hne⟩
    rw [and_iff_right hsame]
    cases row.line with
    | none => exact ⟨fun _ line hline => (by cases hline), fun _ => rfl⟩
    | some line =>
      simp only [Option.mem_def, Option.some.injEq, forall_eq']
      by_cases hline : line = place.line
      · rw [if_neg (not_not.mpr hline)]
        exact ⟨fun _ => .inl hline, fun _ => rfl⟩
      · rw [if_pos hline, or_iff_right hline]
        split
        · next hexpression => exact ⟨fun _ => hexpression, fun _ => rfl⟩
        · next hexpression => exact ⟨fun h => (by cases h), fun h => absurd h hexpression⟩

theorem divergenceKindMatches_iff (hskip : ¬(row.kind ≠ none ∧ row.resultKind = none)) :
    divergenceKindMatches row.resultKind replay.divergenceKind = true ↔
      row.kind = none ∨ row.resultKind = some replay.divergenceKind := by
  cases hkind : row.resultKind with
  | none =>
    have hnone : row.kind = none := by
      by_contra hne
      exact hskip ⟨hne, hkind⟩
    exact ⟨fun _ => .inl hnone, fun _ => rfl⟩
  | some kind =>
    have hsome : row.kind ≠ none := by
      intro hnone
      rw [FrameRow.resultKind, hnone] at hkind
      cases hkind
    rw [or_iff_right hsome, divergenceKindMatches, decide_eq_true_iff, Option.some.injEq]

/-- A confirmed row gets the column of the divergence. -/
theorem abacusRow_of_confirms (hplace : replay.location = some place)
    (h : Confirms readLines row replay place) :
    abacusRow readLines row (.diverged replay) =
      some { status := .success, column := some place.column } := by
  have hskip : ¬(row.kind ≠ none ∧ row.resultKind = none) := by
    rintro ⟨hsome, hnone⟩
    rcases h.kind with hkind | hkind
    · exact hsome hkind
    · rw [hnone] at hkind
      cases hkind
  have hmatch := (@matchReplay_isMatch_iff readLines row replay place).mpr ⟨h.file, h.line⟩
  have hvalid : validateOutcome readLines { row.expectation with column := none }
      (.diverged replay) =
      { returnCode := 0, status := some .success, replay := some replay
        matchResult := some (matchReplay readLines row.filename row.line none replay place) } := by
    simp only [validateOutcome, FrameRow.expectation, (divergenceKindMatches_iff hskip).mpr h.kind,
      hplace, hmatch, not_true_eq_false, if_false, if_true]
  rw [abacusRow, if_neg hskip]
  simp only [hvalid, Option.bind_some, hplace, if_true]

/-- A validation that succeeds at a place has compared kind and place. -/
theorem diverged_of_zero {e : Expectation} {outcome : ReplayOutcome}
    (hzero : (validateOutcome readLines e outcome).returnCode = 0)
    (hplace : (validateOutcome readLines e outcome).replay.bind ReplayResult.location =
      some place) :
    ∃ replay, outcome = .diverged replay ∧ replay.location = some place ∧
      divergenceKindMatches e.kind replay.divergenceKind = true ∧
      (matchReplay readLines e.filename e.line e.column replay place).isMatch = true := by
  -- only a divergence of the expected kind at the expected place gives 0
  cases outcome with
  | timeout => cases hplace
  | failed err => cases hplace
  | identical => cases hplace
  | diverged replay =>
    rw [validateOutcome] at hzero hplace
    by_cases hkind : divergenceKindMatches e.kind replay.divergenceKind = true
    · rw [if_neg (not_not.mpr hkind)] at hzero hplace
      cases hlocation : replay.location with
      | none =>
        simp only [hlocation] at hplace
        split at hplace
        · rw [Option.bind_some, hlocation] at hplace
          cases hplace
        · rw [Option.bind_some, hlocation] at hplace
          cases hplace
      | some location =>
        simp only [hlocation] at hzero hplace
        split at hzero
        · next hmatch =>
          rw [if_pos hmatch, Option.bind_some, hlocation] at hplace
          obtain rfl := Option.some.inj hplace
          exact ⟨replay, rfl, hlocation, hkind, hmatch⟩
        · cases hzero
    · rw [if_pos hkind] at hzero
      cases hzero

/-- The column of any other row stays as it is. -/
theorem column_or_confirms {outcome : ReplayOutcome} {update : RowUpdate}
    (h : abacusRow readLines row outcome = some update) :
    update.column = row.column ∨ ∃ replay place, outcome = .diverged replay ∧
      replay.location = some place ∧ Confirms readLines row replay place := by
  rw [abacusRow] at h
  by_cases hskip : row.kind ≠ none ∧ row.resultKind = none
  · rw [if_pos hskip] at h
    exact .inl (congrArg RowUpdate.column (Option.some.inj h)).symm
  · rw [if_neg hskip] at h
    dsimp only at h
    split at h
    · next hzero =>
      obtain rfl := Option.some.inj h
      cases hplace : (validateOutcome readLines { row.expectation with column := none }
          outcome).replay.bind ReplayResult.location with
      | none => exact .inl rfl
      | some place =>
        obtain ⟨replay, hdiverged, hlocation, hkind, hmatch⟩ := diverged_of_zero hzero hplace
        obtain ⟨hfile, hline⟩ := matchReplay_isMatch_iff.mp hmatch
        exact .inr ⟨replay, place, hdiverged, hlocation,
          (divergenceKindMatches_iff hskip).mp hkind, hfile, hline⟩
    · -- every other return code leaves the column
      split_ifs at h
      all_goals
        obtain rfl := Option.some.inj h
        exact .inl rfl

/-- The column of the divergence belongs to the recorded line, or is the recorded one. -/
def SamePlace (row : FrameRow) (place : SourceLocation) : Prop :=
  row.line = some place.line ∨ row.column = some place.column

theorem abacusRow_kept_iff (outcome : ReplayOutcome) :
    (∀ update, abacusRow readLines row outcome = some update →
      Kept row.line row.column (DivergedAt outcome) (row.line, update.column)) ↔
    ∀ replay place, outcome = .diverged replay → replay.location = some place →
      Confirms readLines row replay place → SamePlace row place := by
  constructor
  · rintro h replay place rfl hplace hconfirms
    have hkept := h _ (abacusRow_of_confirms hplace hconfirms)
    by_cases hcolumn : some place.column = row.column
    · exact .inr hcolumn.symm
    · obtain ⟨found, ⟨replay', hreplay, hfound⟩, hline⟩ := hkept.sameLine hcolumn
      obtain rfl := ReplayOutcome.diverged.inj hreplay
      obtain rfl := Option.some.inj (hplace.symm.trans hfound)
      exact .inl hline
  · intro h update hupdate
    rcases column_or_confirms hupdate with hcolumn | ⟨replay, place, rfl, hplace, hconfirms⟩
    · rw [hcolumn]
      exact kept_recorded
    · rw [abacusRow_of_confirms hplace hconfirms] at hupdate
      obtain rfl := Option.some.inj hupdate
      rcases h replay place rfl hplace hconfirms with hline | hcolumn
      · exact kept_replayed ⟨replay, rfl, hplace⟩ hline
      · dsimp only
        rw [← hcolumn]
        exact kept_recorded

end Abacus

/-! ### All three -/

/-- **No location is invented**: the line and column of a replayed row are the recorded ones or
those of the divergence, and a column is replaced only on the recorded line; in the ABACUS front
end exactly if no replay that confirms its row does so on another line with another column. -/
theorem stored_location_kept_iff {F : Type} (env : Surroundings F)
    (conv : Conversion) (models : Dict Int Model) (log : Text) (addr : Int)
    (readLines : Text → Option (List Text)) (row : FrameRow) (outcome : ReplayOutcome) :
    ((∀ update, dataframeRow readLines row outcome = some update →
        Kept row.line row.column (DivergedAt outcome) (row.line, update.column)) ∧
      (∀ binsec, buildRow env conv models (Dict.empty.setAll (loggedLeaks env.round log)) addr =
          .ok binsec →
        Kept ((env.addrInfo addr).map SourceLocation.line)
          ((env.addrInfo addr).map SourceLocation.column) (ReportedAt env conv models log addr)
          (binsec.line, binsec.column)) ∧
      (∀ request run stderr place, env.limit = 0 ∨ 640 ≤ env.limit →
        env.replay request = childExit readLines request.expectation run stderr →
        request.expectation.hasLocation = true → run.Resolved →
        Transmittable readLines request.expectation run →
        reportedPlace env request = .ok (some place) →
        ∃ outcome, run = .replayed outcome ∧ DivergedAt outcome place) ∧
      ∀ update, abacusRow readLines row outcome = some update →
        Kept row.line row.column (DivergedAt outcome) (row.line, update.column)) ↔
    ∀ replay place, outcome = .diverged replay → replay.location = some place →
      Confirms readLines row replay place → SamePlace row place := by
  rw [← abacusRow_kept_iff]
  refine ⟨fun h => h.2.2.2, fun h => ⟨fun update => dataframeRow_kept, fun binsec => buildRow_kept,
    fun request run stderr place hlimit hchild hlocation hresolved htransmits => ?_, h⟩⟩
  exact reported_is_replayed hlimit hchild hlocation hresolved htransmits

/-- The finding is on the first line of a statement, the divergence on the second: the row gets
the column of the one and keeps the line of the other. -/
theorem expression_moves_column :
    let readLines : Text → Option (List Text) := fun _ =>
      some ["x = a +".toList, "    b;".toList]
    let row : FrameRow :=
      { filename := some "a.c".toList, line := some 1, column := none, kind := none }
    let place : SourceLocation := { file := "a.c".toList, line := 2, column := 5 }
    let replay : ReplayResult :=
      { culpritIp := some 16, resolvedIp := some 16, location := some place,
        divergenceKind := .memory, columnBounds := none }
    abacusRow readLines row (.diverged replay) =
        some { status := .success, column := some 5 } ∧
      ¬Kept row.line row.column (DivergedAt (.diverged replay)) (row.line, some 5) := by
  intro readLines row place replay
  have hends : endsScan ['x', ' ', '=', ' ', 'a', ' ', '+'] = false := by decide
  have hexpression : sameExpressionMatch readLines "a.c".toList 1 2 = true := by
    simp [sameExpressionMatch, readLines, statementBounds, scanUp, scanDown, hends]
  have hconfirms : Confirms readLines row replay place := by
    refine ⟨.inl rfl, fun name hname => ?_, fun line hline => ?_⟩
    · obtain rfl := Option.some.inj hname
      rfl
    · obtain rfl := Option.some.inj hline
      exact .inr hexpression
  refine ⟨abacusRow_of_confirms rfl hconfirms, fun hkept => ?_⟩
  obtain ⟨found, ⟨replay', hreplay, hfound⟩, hline⟩ :=
    hkept.sameLine (Option.some_ne_none (5 : Int))
  obtain rfl := ReplayOutcome.diverged.inj hreplay
  obtain rfl := Option.some.inj hfound
  exact absurd hline (by decide)

end KleeDeps.Converters
