import KleeDeps.Replay.Trace

/-!
# From a replay to a reproduction status

Three front ends of `reproduce_positives.py` turn a replay into the
`reproduced_status` of a row: `mode_dataframe` (KLEE rows) decides inline,
`mode_input_values` (BINSEC, through a child process) and `mode_abacus_json`
call `validate_input_values`. Both decisions use `divergence_kind_matches` and
`location_matches`, but in a different order.

- `statementBounds`, `sameExpressionMatch`, `locationMatches`: the location
  check, down to the source lines it reads;
- `validateOutcome`: the decision of `validate_input_values` on a finished
  replay; `abacusRow`: what `mode_abacus_json` stores;
- `dataframeRow`: what `mode_dataframe` stores;
- `dataframeRow_status_eq_iff`: **exactly when the two agree**.
-/

namespace KleeDeps.Replay

open Py

/-! ## The schema (`result_schema.py`) -/

/-- The `REPRODUCED_STATUSES`. -/
inductive Status where
  | success
  | timeout
  | identicalTrace
  | locationMismatch
  | kindMismatch
  | notReproduced
  deriving DecidableEq, Repr

/-- The text of `KIND_BRANCH` and `KIND_MEMORY`. -/
def DivergenceKind.token : DivergenceKind → Text
  | .branch => "branch".toList
  | .memory => "memory".toList

/-- `normalize_result_kind` on a string: `none` is its `ValueError`. `lower`
is only ever compared with the ASCII tokens, which the lower case of no other
letter can produce. -/
def normalizeResultKind (kind : Text) : Option DivergenceKind :=
  let normalized := (strip kind).map Char.toLower
  if normalized = DivergenceKind.branch.token then some .branch
  else if normalized = DivergenceKind.memory.token then some .memory
  else none

/-! ## Location matching -/

/-- `SourceLocation`: file, line, column. -/
structure SourceLocation where
  file : Text
  line : Int
  column : Int
  deriving DecidableEq, Repr

/-- `ReplayResult`. -/
structure ReplayResult where
  culpritIp : Option Int
  resolvedIp : Option Int
  location : Option SourceLocation
  divergenceKind : DivergenceKind
  columnBounds : Option (Option Int × Option Int)
  deriving DecidableEq, Repr

/-- `LocationMatchResult`. -/
structure LocationMatchResult where
  isMatch : Bool
  snapped : Bool := false
  sameExpression : Bool := false
  sameLineDifferentColumn : Bool := false
  deriving DecidableEq, Repr

/-- `os.path.basename`. -/
def basename (path : Text) : Text := path.rtakeWhile (· ≠ '/')

/-- Does a stripped line end a statement scan: blank, or ending in `;`, `{`, `}`? -/
def endsScan (line : Text) : Bool :=
  match (strip line).getLast? with
  | none => true
  | some c => c == ';' || c == '{' || c == '}'

/-- The first loop of `_statement_bounds`: go up while the line above does not
end a statement. -/
def scanUp (lines : List Text) : Nat → Nat
  | start + 2 => if endsScan (lines.getD start []) then start + 2 else scanUp lines (start + 1)
  | start => start

/-- The second loop of `_statement_bounds`: go down while the current line does
not end a statement. -/
def scanDown (lines : List Text) (stop : Nat) : Nat :=
  if stop < lines.length then
    if endsScan (lines.getD (stop - 1) []) then stop else scanDown lines (stop + 1)
  else stop
termination_by lines.length - stop

/-- `_statement_bounds`. -/
def statementBounds (lines : List Text) (lineNumber : Int) : Option (Nat × Nat) :=
  if lineNumber ≤ 0 ∨ (lines.length : Int) < lineNumber then none
  else
    let start := scanUp lines lineNumber.toNat
    let stop := scanDown lines lineNumber.toNat
    if start = stop then none else some (start, stop)

/-- `_same_expression_match`. `readLines` is the file system: the lines of a
readable file, `none` for an `OSError`. -/
def sameExpressionMatch (readLines : Text → Option (List Text)) (actualFile : Text)
    (expectedLine actualLine : Int) : Bool :=
  if expectedLine ≤ 0 ∨ actualLine ≤ 0 ∨ expectedLine = actualLine then false
  else match readLines actualFile with
    | none => false
    | some lines =>
      match statementBounds lines actualLine with
      | none => false
      | some (start, stop) => start ≤ expectedLine ∧ expectedLine ≤ stop

/-- The column part of `location_matches`: every column of the expected line is
accepted, the result only records how. -/
def columnMatches (expectedColumn : Option Int) (actualColumn : Int)
    (previousColumn nextColumn : Option Int) : LocationMatchResult :=
  match expectedColumn with
  | none => { isMatch := true }
  | some expected =>
    if expected = actualColumn then { isMatch := true }
    else
      let lowerBound := previousColumn.filter (· < actualColumn)
      let upperBound := nextColumn.filter (actualColumn < ·)
      if lowerBound = none ∧ upperBound = none then
        { isMatch := true, sameLineDifferentColumn := true }
      else if ∃ lower ∈ lowerBound, ¬ lower ≤ expected then
        { isMatch := true, sameLineDifferentColumn := true }
      else if ∃ upper ∈ upperBound, ¬ expected ≤ upper then
        { isMatch := true, sameLineDifferentColumn := true }
      else { isMatch := true, snapped := true }

/-- `location_matches`. -/
def locationMatches (readLines : Text → Option (List Text)) (expectedFilename : Option Text)
    (expectedLine expectedColumn : Option Int) (actual : SourceLocation)
    (previousColumn nextColumn : Option Int) : LocationMatchResult :=
  if ∃ name ∈ expectedFilename, basename name ≠ basename actual.file then { isMatch := false }
  else match expectedLine with
    | some line =>
      if line ≠ actual.line then
        if sameExpressionMatch readLines actual.file line actual.line then
          { isMatch := true, sameExpression := true }
        else { isMatch := false }
      else columnMatches expectedColumn actual.column previousColumn nextColumn
    | none => columnMatches expectedColumn actual.column previousColumn nextColumn

/-! ## `validate_input_values` -/

/-- What a finding expects of its replay. -/
structure Expectation where
  filename : Option Text
  line : Option Int
  column : Option Int
  kind : Option DivergenceKind
  deriving DecidableEq, Repr

/-- Does the finding name a place at all? -/
def Expectation.hasLocation (e : Expectation) : Bool :=
  e.filename.isSome || e.line.isSome || e.column.isSome

/-- How `analyze_input_bytes` ended: `TimeoutExpired`, a `RuntimeError` or
`CalledProcessError`, `None`, or a result. -/
inductive ReplayOutcome where
  | timeout
  | failed (err : Text)
  | identical
  | diverged (result : ReplayResult)
  deriving DecidableEq, Repr

/-- `InputValidationResult`. -/
structure InputValidationResult where
  returnCode : Int
  status : Option Status
  replay : Option ReplayResult := none
  matchResult : Option LocationMatchResult := none
  error : Option Text := none
  deriving DecidableEq, Repr

/-- `divergence_kind_matches`. -/
def divergenceKindMatches (expected : Option DivergenceKind) (actual : DivergenceKind) : Bool :=
  match expected with
  | none => true
  | some k => k = actual

/-- The call of `location_matches` both front ends make. -/
def matchReplay (readLines : Text → Option (List Text)) (filename : Option Text)
    (line column : Option Int) (replay : ReplayResult) (location : SourceLocation) :
    LocationMatchResult :=
  locationMatches readLines filename line column location
    (replay.columnBounds.bind Prod.fst) (replay.columnBounds.bind Prod.snd)

/-- `validate_input_values` once the inputs are parsed and the replay is over. -/
def validateOutcome (readLines : Text → Option (List Text)) (e : Expectation) :
    ReplayOutcome → InputValidationResult
  | .timeout =>
    { returnCode := 124, status := some .timeout,
      error := some "Timeout while running Pin traces".toList }
  | .failed err => { returnCode := 2, status := none, error := some ("Error: ".toList ++ err) }
  | .identical => { returnCode := 1, status := some .identicalTrace }
  | .diverged replay =>
    if ¬ divergenceKindMatches e.kind replay.divergenceKind then
      { returnCode := 42, status := some .kindMismatch, replay := some replay }
    else match replay.location with
      | none =>
        if e.hasLocation then
          { returnCode := 3, status := some .locationMismatch, replay := some replay }
        else { returnCode := 0, status := some .success, replay := some replay }
      | some location =>
        let matchResult := matchReplay readLines e.filename e.line e.column replay location
        if matchResult.isMatch then
          { returnCode := 0, status := some .success, replay := some replay,
            matchResult := some matchResult }
        else
          { returnCode := 3, status := some .locationMismatch, replay := some replay,
            matchResult := some matchResult }

/-! ## What the front ends store -/

/-- The cells of a result row that a front end reads: `filename` if it is a
string, `line` and `column` after `coerce_int`, and the raw `kind`. -/
structure FrameRow where
  filename : Option Text
  line : Option Int
  column : Option Int
  kind : Option Text
  deriving DecidableEq, Repr

/-- The kind of a row, where `normalize_result_kind` accepts the cell. -/
def FrameRow.resultKind (row : FrameRow) : Option DivergenceKind :=
  row.kind.bind normalizeResultKind

/-- The expectations of a row. -/
def FrameRow.expectation (row : FrameRow) : Expectation :=
  { filename := row.filename, line := row.line, column := row.column, kind := row.resultKind }

/-- The cells a front end writes. -/
structure RowUpdate where
  status : Status
  column : Option Int
  deriving DecidableEq, Repr

/-- The body of the `mode_dataframe` loop from `row_kind` on, for a row whose
KTest inputs could be extracted; `none` is the `return 2` of an operational
failure. -/
def dataframeRow (readLines : Text → Option (List Text)) (row : FrameRow)
    (outcome : ReplayOutcome) : Option RowUpdate :=
  match row.resultKind with
  | none => some { status := .locationMismatch, column := row.column }
  | some rowKind =>
    match outcome with
    | .timeout => some { status := .timeout, column := row.column }
    | .failed _ => none
    | .identical => some { status := .identicalTrace, column := row.column }
    | .diverged replay =>
      match replay.location with
      | none => some { status := .locationMismatch, column := row.column }
      | some actual =>
        if ¬ divergenceKindMatches (some rowKind) replay.divergenceKind then
          some { status := .kindMismatch, column := row.column }
        else if (matchReplay readLines row.filename row.line row.column replay actual).isMatch then
          some
            { status := .success
              column :=
                if row.line = some actual.line ∧ row.column ≠ none ∧
                    row.column ≠ some actual.column
                then some actual.column else row.column }
        else some { status := .locationMismatch, column := row.column }

/-- The body of the `mode_abacus_json` loop for a row with replay inputs: it
ignores the column of the row and reads the return code only. -/
def abacusRow (readLines : Text → Option (List Text)) (row : FrameRow)
    (outcome : ReplayOutcome) : Option RowUpdate :=
  if row.kind ≠ none ∧ row.resultKind = none then
    some { status := .locationMismatch, column := row.column }
  else
    let validation := validateOutcome readLines { row.expectation with column := none } outcome
    let column := match validation.replay.bind ReplayResult.location with
      | some location => some location.column
      | none => row.column
    if validation.returnCode = 0 then some { status := .success, column := column }
    else if validation.returnCode = 124 then some { status := .timeout, column := row.column }
    else if validation.returnCode = 1 then some { status := .identicalTrace, column := row.column }
    else if validation.returnCode = 42 then some { status := .kindMismatch, column := row.column }
    else if validation.returnCode = 3 then
      some { status := .locationMismatch, column := row.column }
    else none

/-! ## The return code carries the status -/

/-- The return code of a status; `none` is an operational failure. -/
def returnCodeOf : Option Status → Int
  | some .success => 0
  | some .timeout => 124
  | some .identicalTrace => 1
  | some .kindMismatch => 42
  | some .locationMismatch => 3
  | some .notReproduced => 2
  | none => 2

/-- `validate_input_values` never answers `not_reproduced`, and its return code
is the code of its status. -/
theorem validateOutcome_returnCode (readLines : Text → Option (List Text)) (e : Expectation)
    (o : ReplayOutcome) :
    (validateOutcome readLines e o).returnCode =
        returnCodeOf (validateOutcome readLines e o).status ∧
      (validateOutcome readLines e o).status ≠ some .notReproduced := by
  cases o with
  | timeout => exact ⟨rfl, by simp [validateOutcome]⟩
  | failed err => exact ⟨rfl, by simp [validateOutcome]⟩
  | identical => exact ⟨rfl, by simp [validateOutcome]⟩
  | diverged replay =>
    simp only [validateOutcome]
    split
    · exact ⟨rfl, by simp⟩
    · split
      · split
        · exact ⟨rfl, by simp⟩
        · exact ⟨rfl, by simp⟩
      · split
        · exact ⟨rfl, by simp⟩
        · exact ⟨rfl, by simp⟩

/-- So the ABACUS front end stores exactly the validation's status. -/
theorem abacusRow_status (readLines : Text → Option (List Text)) (row : FrameRow)
    (o : ReplayOutcome) (hkind : row.kind = none ∨ row.resultKind ≠ none) :
    (abacusRow readLines row o).map RowUpdate.status =
      (validateOutcome readLines { row.expectation with column := none } o).status := by
  have hskip : ¬ (row.kind ≠ none ∧ row.resultKind = none) := fun h =>
    hkind.elim h.1 fun hk => hk h.2
  obtain ⟨hcode, hnot⟩ :=
    validateOutcome_returnCode readLines { row.expectation with column := none } o
  rw [abacusRow, if_neg hskip]
  simp only [hcode]
  cases hs : (validateOutcome readLines { row.expectation with column := none } o).status with
  | none => rfl
  | some status =>
    cases status with
    | notReproduced => exact absurd hs hnot
    | _ => rfl

/-! ## When the two decisions agree -/

/-- The condition under which a KLEE row gets the status `validate_input_values`
would give it. A row without a valid kind is never replayed by `mode_dataframe`
and gets `location_mismatch`; for the others the two decisions part only at a
divergence without debug information, which `mode_dataframe` calls a location
mismatch before it looks at the kind or asks whether any location was expected. -/
def FrontEndsAgree (readLines : Text → Option (List Text)) (row : FrameRow)
    (o : ReplayOutcome) : Prop :=
  match row.resultKind with
  | some rowKind => ∀ replay, o = .diverged replay → replay.location = none →
      replay.divergenceKind = rowKind ∧ row.expectation.hasLocation = true
  | none => ∃ replay, o = .diverged replay ∧
      match replay.location with
      | none => row.expectation.hasLocation = true
      | some actual =>
        (matchReplay readLines row.filename row.line row.column replay actual).isMatch = false

/-- On a divergence, validation answers in this order: kind, then place. -/
theorem validateOutcome_diverged_status (readLines : Text → Option (List Text)) (e : Expectation)
    (replay : ReplayResult) :
    (validateOutcome readLines e (.diverged replay)).status =
      if ¬ divergenceKindMatches e.kind replay.divergenceKind then some .kindMismatch
      else match replay.location with
        | none => if e.hasLocation then some .locationMismatch else some .success
        | some actual =>
          if (matchReplay readLines e.filename e.line e.column replay actual).isMatch
          then some .success else some .locationMismatch := by
  simp only [validateOutcome]
  split
  · rfl
  · cases replay.location with
    | none => simp only; split <;> rfl
    | some actual => simp only; split <;> rfl

/-- A row that is never replayed agrees where validation sees a wrong place. -/
theorem agree_of_no_kind (readLines : Text → Option (List Text)) (row : FrameRow)
    (o : ReplayOutcome) (hkind : row.resultKind = none) :
    (dataframeRow readLines row o).map RowUpdate.status =
        (validateOutcome readLines row.expectation o).status ↔
      FrontEndsAgree readLines row o := by
  have hdf : (dataframeRow readLines row o).map RowUpdate.status = some .locationMismatch := by
    simp only [dataframeRow, hkind]
    rfl
  rw [hdf]
  simp only [FrontEndsAgree, hkind]
  cases o with
  | timeout => simp [validateOutcome]
  | failed err => simp [validateOutcome]
  | identical => simp [validateOutcome]
  | diverged replay =>
    have hk : divergenceKindMatches row.expectation.kind replay.divergenceKind = true := by
      simp only [FrameRow.expectation, hkind]
      rfl
    rw [validateOutcome_diverged_status]
    simp only [hk, not_true_eq_false, if_false, ReplayOutcome.diverged.injEq, exists_eq_left']
    cases replay.location with
    | none => cases row.expectation.hasLocation <;> simp
    | some actual =>
      by_cases hm : (matchReplay readLines row.filename row.line row.column replay actual).isMatch
      · simp [FrameRow.expectation, hm]
      · simp [FrameRow.expectation, hm]

/-- A replayed row agrees unless the divergence has no location. -/
theorem agree_of_kind (readLines : Text → Option (List Text)) (row : FrameRow)
    (o : ReplayOutcome) {rowKind : DivergenceKind} (hkind : row.resultKind = some rowKind) :
    (dataframeRow readLines row o).map RowUpdate.status =
        (validateOutcome readLines row.expectation o).status ↔
      FrontEndsAgree readLines row o := by
  simp only [FrontEndsAgree, hkind]
  cases o with
  | timeout => simp [dataframeRow, validateOutcome, hkind]
  | failed err => simp [dataframeRow, validateOutcome, hkind]
  | identical => simp [dataframeRow, validateOutcome, hkind]
  | diverged replay =>
    rw [validateOutcome_diverged_status]
    simp only [dataframeRow, hkind, ReplayOutcome.diverged.injEq, forall_eq']
    have hexp : row.expectation.kind = some rowKind := hkind
    rw [hexp]
    cases hloc : replay.location with
    | none =>
      -- `mode_dataframe` stops here, validation still looks at the kind
      by_cases hk : replay.divergenceKind = rowKind
      · cases row.expectation.hasLocation <;> simp [divergenceKindMatches, hk]
      · simp [divergenceKindMatches, hk, Ne.symm hk]
    | some actual =>
      -- with a location both look at the kind first and at the place second
      simp only [reduceCtorEq, false_imp_iff, iff_true]
      by_cases hk : divergenceKindMatches (some rowKind) replay.divergenceKind
      · by_cases hm : (matchReplay readLines row.filename row.line row.column replay actual).isMatch
        · simp [FrameRow.expectation, hk, hm]
        · simp [FrameRow.expectation, hk, hm]
      · simp [hk]

/-- **The two decisions agree exactly on `FrontEndsAgree`**, for every row and
every way a replay can end. -/
theorem dataframeRow_status_eq_iff (readLines : Text → Option (List Text)) (row : FrameRow)
    (o : ReplayOutcome) :
    (dataframeRow readLines row o).map RowUpdate.status =
        (validateOutcome readLines row.expectation o).status ↔
      FrontEndsAgree readLines row o := by
  cases hkind : row.resultKind with
  | none => exact agree_of_no_kind readLines row o hkind
  | some rowKind => exact agree_of_kind readLines row o hkind

/-- A branch finding whose replay diverges on a memory access at an address
without debug information: `location_mismatch` for a KLEE row, `kind_mismatch`
for the other tools. -/
theorem front_ends_disagree :
    (dataframeRow (fun _ => none)
        { filename := some "aes.c".toList, line := some 10, column := some 3,
          kind := some "branch".toList }
        (.diverged { culpritIp := some 4198400, resolvedIp := some 4198400, location := none,
                     divergenceKind := .memory, columnBounds := none })).map RowUpdate.status ≠
      (validateOutcome (fun _ => none)
        { filename := some "aes.c".toList, line := some 10, column := some 3,
          kind := some .branch }
        (.diverged { culpritIp := some 4198400, resolvedIp := some 4198400, location := none,
                     divergenceKind := .memory, columnBounds := none })).status := by
  decide

end KleeDeps.Replay
