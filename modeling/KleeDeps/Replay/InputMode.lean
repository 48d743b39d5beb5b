import KleeDeps.Replay.Verdict

/-!
# The replay child: `reproduce_positives --input`

BINSEC findings are replayed by a child process that has nothing but an exit
status and its output to answer with. This module is the child: what its run of
`validate_input_values` can end with, the exit status CPython turns that into,
and the lines `mode_input_values` prints.

- `resolveDivergenceLocation`, `runOfTraces`: from two traces to a run;
- `ChildRun`: everything `validate_input_values` can do, exceptions included;
- `modeInputValues`: the child's exit status and standard output;
- `runOfTraces_resolved`: a located divergence always has an address to print.
-/

namespace KleeDeps.Replay

open Py

/-! ## Resolving a divergence -/

/-- What `get_addr_info_context` returns: the location and the neighbouring
columns of its line. -/
structure AddrInfo where
  location : SourceLocation
  previousColumn : Option Int
  nextColumn : Option Int
  deriving DecidableEq, Repr

/-- The addresses `resolve_divergence_location` tries, in order: the culprit, then
the recent instructions from the newest on, each once. -/
def candidates (divergence : Divergence) : List Int :=
  divergence.recentIps.reverse.foldl (fun seen ip => if ip ∈ seen then seen else seen ++ [ip])
    divergence.culpritIp.toList

/-- `resolve_divergence_location`: address, location, column bounds. `lookup` is
`get_addr_info_context` on the executable (`none` if its import failed). -/
def resolveDivergenceLocation (lookup : Option (Int → Option AddrInfo))
    (divergence : Divergence) :
    Option Int × Option SourceLocation × Option (Option Int × Option Int) :=
  match lookup with
  | none => (divergence.culpritIp, none, none)
  | some lookup =>
    match (candidates divergence).find? fun ip => (lookup ip).isSome with
    | some ip =>
      match lookup ip with
      | some info =>
        (some ip, some info.location, some (info.previousColumn, info.nextColumn))
      | none => (divergence.culpritIp, none, none)
    | none => (divergence.culpritIp, none, none)

/-- The result `analyze_input_bytes` builds from a divergence. -/
def replayResult (lookup : Option (Int → Option AddrInfo)) (divergence : Divergence) :
    ReplayResult :=
  let resolved := resolveDivergenceLocation lookup divergence
  { culpritIp := divergence.culpritIp
    resolvedIp := resolved.1
    location := resolved.2.1
    divergenceKind := classifyDivergence divergence
    columnBounds := resolved.2.2 }

/-! ## What the child can do -/

/-- The ways `validate_input_values` can end: the specifications do not parse, the
replay is over, or an exception it does not handle. -/
inductive ChildRun where
  | badInputs (err : Text)
  | replayed (outcome : ReplayOutcome)
  | escaped (e : Exc)
  deriving DecidableEq, Repr

/-- The end of a run whose two traces were recorded. A `RuntimeError` is handled,
the `ValueError` of a number cut short is not. -/
def runOfTraces (limit : Nat) (lookup : Option (Int → Option AddrInfo))
    (traceA traceB : Text) : ChildRun :=
  match compareTraceFiles limit traceA traceB with
  | .ok none => .replayed .identical
  | .ok (some divergence) => .replayed (.diverged (replayResult lookup divergence))
  | .error (.runtimeError err) => .replayed (.failed err)
  | .error e => .escaped e

/-- The validation result of a run, or the exception it lets escape. -/
def ChildRun.validation (readLines : Text → Option (List Text)) (e : Expectation) :
    ChildRun → Except Exc InputValidationResult
  | .badInputs err =>
    .ok { returnCode := 2, status := none, error := some ("Error parsing inputs: ".toList ++ err) }
  | .replayed outcome => .ok (validateOutcome readLines e outcome)
  | .escaped x => .error x

/-- The exit status of an exception that leaves `mode_input_values`: `main` turns a
`RuntimeError` into `2`, `SystemExit(2)` is what it says, CPython exits with `1`
after a traceback otherwise. -/
def exitStatus : Exc → Int
  | .runtimeError _ => 2
  | .usageExit => 2
  | _ => 1

/-! ## What it prints -/

/-- `print_replay_location`, without the newline. -/
def printReplayLocation (result : ReplayResult) : Text :=
  match result.location with
  | none =>
    match result.culpritIp with
    | some ip => result.divergenceKind.token ++ " divergence after ".toList ++ hexText ip
    | none => result.divergenceKind.token ++
        " divergence observed but no instruction address was resolved".toList
  | some location =>
    let place := location.file ++ ':' :: (intText location.line ++ ':' :: intText location.column)
    match result.resolvedIp.or result.culpritIp with
    | none => result.divergenceKind.token ++ " divergence at ".toList ++ place
    | some address => result.divergenceKind.token ++ " divergence at ".toList ++
        (hexText address ++ ':' :: ' ' :: place)

/-- `format_snapped_success`. -/
def formatSnappedSuccess (actualColumn expectedColumn : Int)
    (previousColumn nextColumn : Option Int) : Text :=
  let window := match previousColumn, nextColumn with
    | some p, some n => intText p ++ " <= y <= ".toList ++ intText n
    | some p, none => intText p ++ " <= y".toList
    | none, some n => "y <= ".toList ++ intText n
    | none, none => "no DWARF column window".toList
  "Success (reported column ".toList ++ intText actualColumn ++ " vs expected ".toList ++
    intText expectedColumn ++ ", considered close enough within ".toList ++ window ++ [')']

/-- `format_location`. -/
def formatLocation (file : Option Text) (line column : Option Int) : Text :=
  match file, line, column with
  | some (c :: f), some l, some col => (c :: f) ++ ':' :: (intText l ++ ':' :: intText col)
  | _, _, _ => "<unknown>".toList

/-- `format_same_expression_success`. -/
def formatSameExpressionSuccess (actual : SourceLocation) (e : Expectation) : Text :=
  "Success (same expression span: expected ".toList ++
    formatLocation e.filename e.line e.column ++ ", got ".toList ++
    formatLocation (some actual.file) (some actual.line) (some actual.column) ++ [')']

/-- `format_same_line_column_success`. -/
def formatSameLineColumnSuccess (actualColumn expectedColumn : Int) : Text :=
  "Success (same line; using replay column ".toList ++ intText actualColumn ++
    " instead of reported column ".toList ++ intText expectedColumn ++ [')']

/-- `str(value)` of an optional expectation inside an f-string. -/
def optText (value : Option Text) : Text := value.getD "None".toList

/-- The line `mode_input_values` prints about the location match, if any. -/
def matchNote (e : Expectation) (replay : ReplayResult) (actual : SourceLocation)
    (matchResult : LocationMatchResult) : Option Text :=
  if matchResult.isMatch then
    match matchResult.snapped, matchResult.sameExpression, matchResult.sameLineDifferentColumn,
        e.column with
    | true, _, _, some expected => some (formatSnappedSuccess actual.column expected
        (replay.columnBounds.bind Prod.fst) (replay.columnBounds.bind Prod.snd))
    | _, true, _, _ => some (formatSameExpressionSuccess actual e)
    | _, _, true, some expected => some (formatSameLineColumnSuccess actual.column expected)
    | _, _, _, _ => none
  else some ("Location mismatch: expected ".toList ++ optText e.filename ++ ':' ::
    (optText (e.line.map intText) ++ ':' :: optText (e.column.map intText)) ++ ", got ".toList ++
    actual.file ++ ':' :: (intText actual.line ++ ':' :: intText actual.column))

/-- The standard output of `mode_input_values` for a returned validation; errors go
to standard error. -/
def modeInputValuesLines (e : Expectation) (validation : InputValidationResult) : List Text :=
  if validation.error ≠ none then []
  else if validation.status = some .identicalTrace then ["Identical traces".toList]
  else match validation.replay with
    | none => []
    | some replay =>
      printReplayLocation replay ::
        if validation.status = some .kindMismatch then
          ["Kind mismatch: expected ".toList ++ optText (e.kind.map DivergenceKind.token) ++
            ", got ".toList ++ replay.divergenceKind.token]
        else match replay.location, validation.matchResult with
          | some actual, some matchResult => (matchNote e replay actual matchResult).toList
          | _, _ => []

/-- The exit status and the standard output of the child. -/
def modeInputValues (readLines : Text → Option (List Text)) (e : Expectation) (run : ChildRun) :
    Int × Text :=
  match run.validation readLines e with
  | .error x => (exitStatus x, [])
  | .ok validation => (validation.returnCode, unlines (modeInputValuesLines e validation))

/-! ## Located divergences have an address -/

/-- What a located result carries: a printable address, and the line and column of
a DWARF line table — unsigned, and short enough for every digit limit. -/
def ReplayResult.Resolved (replay : ReplayResult) : Prop :=
  ∀ location, replay.location = some location →
    (∃ ip : Nat, replay.resolvedIp = some (ip : Int)) ∧
    ∃ line column : Nat, location.line = line ∧ location.column = column ∧
      (decimal line).length ≤ 640 ∧ (decimal column).length ≤ 640

/-- A run whose divergence, if any, is resolved. -/
def ChildRun.Resolved : ChildRun → Prop
  | .replayed (.diverged replay) => replay.Resolved
  | _ => True

/-- The line table the lookup reads has unsigned, short entries. -/
def LineTable (lookup : Option (Int → Option AddrInfo)) : Prop :=
  ∀ f ∈ lookup, ∀ ip info, f ip = some info → ∃ line column : Nat,
    info.location.line = line ∧ info.location.column = column ∧
      (decimal line).length ≤ 640 ∧ (decimal column).length ≤ 640

theorem mem_candidates {divergence : Divergence} {ip : Int} (h : ip ∈ candidates divergence) :
    divergence.culpritIp = some ip ∨ ip ∈ divergence.recentIps := by
  have hfold : ∀ (ips seen : List Int),
      ip ∈ ips.foldl (fun seen ip => if ip ∈ seen then seen else seen ++ [ip]) seen →
      ip ∈ seen ∨ ip ∈ ips := by
    intro ips
    induction ips with
    | nil => exact fun seen h => Or.inl h
    | cons x ips ih =>
      intro seen h
      rcases ih _ h with h | h
      · dsimp only at h
        split at h
        · exact Or.inl h
        · rcases List.mem_append.mp h with h | h
          · exact Or.inl h
          · exact Or.inr (by simp [List.mem_singleton.mp h])
      · exact Or.inr (by simp [h])
  rcases hfold _ _ h with h | h
  · exact Or.inl (by simpa [eq_comm] using h)
  · exact Or.inr (by simpa using h)

/-- Every address a tracer divergence mentions is unsigned. -/
theorem natural_of_divergenceOf {rs ss : List Record} {d : Divergence}
    (h : divergenceOf (events rs) (events ss) = some d) {ip : Int}
    (hip : d.culpritIp = some ip ∨ ip ∈ d.recentIps) : ∃ n : Nat, ip = n := by
  have hevent : ∀ {ts : List Record} {e : TraceEvent}, e ∈ events ts → ∃ n : Nat, e.ip = n := by
    intro ts e he
    obtain ⟨r, -, rfl⟩ := List.mem_map.mp he
    cases r <;> exact ⟨_, rfl⟩
  have hcommon : ∀ {x : Int}, x ∈ (Sequence.commonPrefix (events rs) (events ss)).map
      TraceEvent.ip → ∃ n : Nat, x = n := by
    intro x hx
    obtain ⟨e, he, rfl⟩ := List.mem_map.mp hx
    exact hevent ((Sequence.commonPrefix_prefix_left _ _).subset he)
  -- whichever side the culprit is taken from, it is an address of one of the two events
  -- or the last common one
  have hculprit : ∀ {last : Option Int} {a b : Option TraceEvent} {x : Int},
      (∀ y, last = some y → ∃ n : Nat, y = n) → (∀ e, a = some e → ∃ n : Nat, e.ip = n) →
      (∀ e, b = some e → ∃ n : Nat, e.ip = n) → culpritIp last a b = some x →
      ∃ n : Nat, x = n := by
    intro last a b x hlast ha hb hx
    cases a with
    | none =>
      cases b with
      | none => exact hlast x hx
      | some b =>
        simp only [culpritIp] at hx
        split at hx
        · exact Option.some.inj hx ▸ hb b rfl
        · exact hlast x hx
    | some a =>
      cases b with
      | none =>
        simp only [culpritIp] at hx
        split at hx
        · exact Option.some.inj hx ▸ ha a rfl
        · exact hlast x hx
      | some b =>
        simp only [culpritIp] at hx
        split at hx
        · exact Option.some.inj hx ▸ ha a rfl
        · exact hlast x hx
  unfold divergenceOf at h
  split at h
  · cases h
  · obtain rfl := Option.some.inj h
    rcases hip with hip | hip
    · refine hculprit (fun y hy => hcommon (List.mem_of_getLast? hy))
        (fun e he => hevent (List.mem_of_getElem? he))
        (fun e he => hevent (List.mem_of_getElem? he)) hip
    · exact hcommon (List.mem_of_mem_drop hip)

/-- **The child's results are resolved**: on tracer output and any line table, a
located divergence has an unsigned address and an unsigned place. -/
theorem runOfTraces_resolved (limit : Nat) {lookup : Option (Int → Option AddrInfo)}
    (htable : LineTable lookup) (rs ss : List Record) :
    (runOfTraces limit lookup (traceText rs) (traceText ss)).Resolved := by
  unfold runOfTraces
  rw [compareTraceFiles_traceText]
  cases hd : divergenceOf (events rs) (events ss) with
  | none => trivial
  | some d =>
    intro location hloc
    simp only [replayResult, resolveDivergenceLocation] at hloc ⊢
    cases lookup with
    | none => simp at hloc
    | some f =>
      simp only at hloc ⊢
      cases hfind : (candidates d).find? fun ip => (f ip).isSome with
      | none => simp [hfind] at hloc
      | some ip =>
        simp only [hfind] at hloc ⊢
        cases hinfo : f ip with
        | none => simp [hinfo] at hloc
        | some info =>
          simp only [hinfo, Option.some.injEq] at hloc ⊢
          subst hloc
          obtain ⟨n, hn⟩ := natural_of_divergenceOf hd
            (mem_candidates (List.mem_of_find?_eq_some hfind))
          exact ⟨⟨n, hn⟩, htable f rfl ip info hinfo⟩

end KleeDeps.Replay
