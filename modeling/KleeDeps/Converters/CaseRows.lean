import KleeDeps.Converters.OutputLog
import KleeDeps.Converters.ReplayProtocol
import KleeDeps.Converters.Counterexamples
import KleeDeps.Data.Sequence
import KleeDeps.Replay.AddressLookup

/-!
# The rows of a BINSEC case

`convert_binsec_toml` turns the stats of a case and its worker log into result rows, one for
each insecure address. `build_rows` tolerates an address without a result line and a model
without values for some inputs; `_run_reproduce` and `make_result_row` do not, and what they
raise ends the conversion of the whole case.

- `parseBinsecToml`, `buildRow`, `makeResultRow`, `convertBinsecToml`: the functions;
- `pickModelCounterexamples_ok_iff`, `specStrings_ok_iff`, `replayRow_ok_iff`: when each of
  them goes through, and with what;
- `RowOf`: what the row of an address should say;
- `converts_iff`: **exactly when a case has all its rows**.
-/

namespace KleeDeps.Converters

open Py Replay Sequence

/-! ## The stats (`parse_binsec_toml`) -/

/-- `_as_int`. -/
def asInt (limit : Nat) (value : Value) : Option Int :=
  match value.asInt? with
  | some n => some n
  | none =>
    match value with
    | .str s => (int0 limit s).toOption
    | _ => none

/-- `_extract_scalar_list_value`. -/
def extractScalarListValue (limit : Nat) (value : Value) : Option Int :=
  match value with
  | .list (first :: _) => asInt limit first
  | _ => none

/-- `value.get(key, {})`: what is no table has no `get`. -/
def getTable (value : Value) (key : String) : Except Exc Value :=
  match value with
  | .dict items => .ok ((Dict.lookup key.toList items).getD (.dict []))
  | _ => .error (.typeError "object has no attribute 'get'".toList)

/-- `models.setdefault(addr, {}).setdefault(section, {})[key] = scalar`. -/
def setScalar (addr : Int) (table : String) (models : Dict Int Model) (key : Text)
    (scalar : Int) : Dict Int Model :=
  let model := (models.get? addr).getD .empty
  models.set addr (model.set table.toList ((model.table table).set key scalar))

/-- The loop over a section of a model. -/
def addSection (limit : Nat) (addr : Int) (table : String) (models : Dict Int Model)
    (items : List (Text × Value)) : Dict Int Model :=
  items.foldl (fun models item =>
    match extractScalarListValue limit item.2 with
    | some scalar => setScalar addr table models item.1 scalar
    | none => models) models

/-- The loop over `Insecurity models`. -/
def addModel (limit : Nat) (models : Dict Int Model) (item : Text × Value) : Dict Int Model :=
  match asInt limit (.str item.1), item.2 with
  | some addr, .dict payload =>
    ["secret1", "secret2", "public"].foldl (fun models table =>
      match (Dict.lookup table.toList payload).getD (.dict []) with
      | .dict items => addSection limit addr table models items
      | _ => models) models
  | _, _ => models

/-- `parse_binsec_toml` on the decoded file: the insecure addresses and the models. -/
def parseBinsecToml (limit : Nat) (doc : Value) : Except Exc (List Int × Dict Int Model) := do
  let ctReport ← getTable doc "CT report"
  let status ← getTable ctReport "Instructions status"
  let insecureList ← getTable status "insecure"
  let insecure := (insecureList.asList?.getD []).filterMap (asInt limit)
  let insecModels ← getTable ctReport "Insecurity models"
  let models := (insecModels.asDict?.getD []).foldl (addModel limit) .empty
  return (if insecure = [] then SortedSearch.sortedSet models.keys else insecure, models)

/-! ## File names -/

/-- `os.path.abspath`. -/
def abspath (cwd path : Text) : Text := normpath (pathJoin cwd path)

/-- The components of an absolute path. -/
def pathComponents (path : Text) : List Text :=
  (path.splitOn '/').filter fun comp => comp ≠ [] ∧ comp ≠ ".".toList

/-- `os.path.commonpath` of two absolute paths. -/
def commonpath (path other : Text) : Text :=
  '/' :: join "/".toList (commonPrefix (pathComponents path) (pathComponents other))

/-- `os.path.relpath` of two absolute paths. -/
def relpath (path start : Text) : Text :=
  let shared := (commonPrefix (pathComponents start) (pathComponents path)).length
  let up := List.replicate ((pathComponents start).length - shared) "..".toList
  let parts := up ++ (pathComponents path).drop shared
  if parts = [] then ".".toList else join "/".toList parts

/-- `_relativize_to_code_root`. -/
def relativizeToCodeRoot (cwd debugPath : Text) (codeRoot : Option Text) : Text :=
  match codeRoot with
  | none => basename debugPath
  | some [] => basename debugPath
  | some (c :: cs) =>
    let codeRootAbs := abspath cwd (c :: cs)
    let debugAbs := abspath cwd debugPath
    if commonpath codeRootAbs debugAbs = codeRootAbs then relpath debugAbs codeRootAbs
    else basename debugPath

/-! ## The rows (`build_rows`) -/

/-- What `_run_reproduce` passes to the child: the specifications and the expectation. -/
structure ReplayRequest where
  secretSpec : Text
  publicSpec : Text
  expectation : Expectation

/-- How the child ended. -/
structure ReplayExit where
  returncode : Int
  stdout : Text
  stderr : Text

/-- What the conversion finds around it. -/
structure Surroundings (F : Type) where
  /-- the digit limit of the process -/
  limit : Nat
  round : ℚ → F
  cwd : Text
  /-- `get_addr_info` on the executable, `none` if it raises or is not there -/
  addrInfo : Int → Option SourceLocation
  isfile : Text → Bool
  /-- `_build_basename_index` -/
  codeIndex : Text → Option Text
  /-- `get_source_line` -/
  sourceLine : Text → Int → Option Text
  replay : ReplayRequest → ReplayExit

/-- The arguments of a conversion, layouts parsed. A conversion that replays has a replay
executable and a secret. -/
structure Conversion where
  secretInputs : List InputLayout
  publicInputs : List InputLayout
  modelByteorder : ByteOrder
  codeRoot : Option Text
  reproduce : Bool
  secret_of_reproduce : reproduce = true → secretInputs ≠ []

/-- A row of `build_rows`. -/
structure Row (F : Type) where
  filename : Option Text
  line : Option Int
  column : Option Int
  nonCtTime : Option F
  kind : Option DivergenceKind
  code : Option Text
  counterexamples : Option (Dict Text Int)
  reproducedStatus : Option Status

/-- `KIND_BRANCH if leak.leak_type == "control flow" else KIND_MEMORY`. -/
def LeakType.kind : LeakType → DivergenceKind
  | .controlFlow => .branch
  | .memoryAccess => .memory

section

variable {F : Type} (env : Surroundings F) (conv : Conversion)

/-- The exception of a number that is too long to print. -/
def SpecFailure.exc : SpecFailure → Exc
  | .missing output => .runtimeError output
  | .unprintable => IntError.exceedsLimit.exc

/-- The exception of `build_rows` for an exit status it does not know. -/
def unknownStatus (addr : Int) : Exc → Exc
  | .runtimeError msg => .runtimeError (msg ++ " for addr=".toList ++ hexText addr)
  | e => e

/-- The replay of a finding, and what it reports: the status, and the location found in the
output of the child. -/
def replayFinding (addr : Int) (expectation : Expectation) (counterexamples : Dict Text Int) :
    Except Exc (Status × Option SourceLocation) :=
  match specStrings env.limit counterexamples conv.secretInputs conv.publicInputs with
  | .error (.missing _) =>
    -- `_run_reproduce` returns `2` without a child
    match rowStatus none 2 with
    | .error e => .error (unknownStatus addr e)
    | .ok status => .ok (status, none)
  | .error .unprintable => .error SpecFailure.unprintable.exc
  | .ok (secretSpec, publicSpec) =>
    let child := env.replay
      { secretSpec := secretSpec, publicSpec := publicSpec, expectation := expectation }
    match runReproduce env.limit child.returncode child.stdout child.stderr with
    | .error e => .error e
    | .ok place =>
      match rowStatus place child.returncode with
      | .error e => .error (unknownStatus addr e)
      | .ok status => .ok (status, place)

/-- The column of a finding that was replayed: of the same line the replay knows better. -/
def columnAfter (filename : Text) (line column : Int) (status : Status)
    (place : Option SourceLocation) : Int :=
  match place with
  | none => column
  | some place =>
    if status = .success ∧ basename place.file = basename filename ∧ place.line = line ∧
        place.column ≠ column then place.column
    else column

/-- The source line of a finding. -/
def sourceCode (location : SourceLocation) (filename : Text) : Option Text :=
  if filename ≠ [] ∧ location.line ≠ 0 ∧ (conv.codeRoot.getD []) ≠ [] then
    let candidate :=
      if location.file ≠ [] ∧ env.isfile location.file = true then some location.file
      else env.codeIndex filename
    candidate.bind fun path => if path = [] then none else env.sourceLine path location.line
  else none

/-- What the replay of a finding should show. -/
def findingExpectation (filename : Text) (location : SourceLocation)
    (kind : Option DivergenceKind) : Expectation where
  filename := if filename = [] then none else some filename
  line := some location.line
  column := some location.column
  kind := kind

/-- The body of the loop of `build_rows`. -/
def buildRow (models : Dict Int Model) (leaks : Dict Int (LeakInfo F)) (addr : Int) :
    Except Exc (Row F) :=
  let leak := leaks.get? addr
  let kind := leak.map fun leak => leak.leakType.kind
  match pickModelCounterexamples models addr conv.secretInputs conv.publicInputs
      conv.modelByteorder with
  | .error e => .error e
  | .ok counterexamples =>
    match env.addrInfo addr with
    | none => .ok
        { filename := none, line := none, column := none
          nonCtTime := leak.map LeakInfo.seconds, kind := kind, code := none
          counterexamples := counterexamples, reproducedStatus := none }
    | some location =>
      let filename := relativizeToCodeRoot env.cwd location.file conv.codeRoot
      let row : Row F :=
        { filename := some filename, line := some location.line, column := some location.column
          nonCtTime := leak.map LeakInfo.seconds, kind := kind
          code := sourceCode env conv location filename
          counterexamples := counterexamples, reproducedStatus := none }
      match conv.reproduce, counterexamples with
      | true, some values =>
        match replayFinding env conv addr (findingExpectation filename location kind) values with
        | .error e => .error e
        | .ok (status, place) => .ok
            { row with
              column := some (columnAfter filename location.line location.column status place)
              reproducedStatus := some status }
      | _, _ => .ok row

/-! ## The schema (`make_result_row`) -/

/-- A validated row. -/
structure ResultRow (F : Type) where
  filename : Option Text
  line : Option Int
  nonCtTime : F
  counterexamples : Dict Text Int
  reproducedStatus : Status
  column : Option Int
  kind : Option DivergenceKind
  code : Option Text

/-- `make_result_row` on a row of `build_rows`: the checks that its types leave open. -/
def makeResultRow (row : Row F) : Except Exc (ResultRow F) :=
  if row.filename = some [] then
    .error (.typeError "filename must be None or a non-empty str".toList)
  else
    match row.nonCtTime with
    | none => .error (.typeError "non_ct_time must be a float".toList)
    | some nonCtTime => .ok
        { filename := row.filename
          line := row.line
          nonCtTime := nonCtTime
          counterexamples := row.counterexamples.getD .empty
          reproducedStatus := row.reproducedStatus.getD .notReproduced
          column := row.column
          kind := row.kind
          code := row.code }

/-- `convert_binsec_toml`, from the decoded stats and the log to the rows of the payload. -/
def convertBinsecToml (doc : Value) (log : Text) : Except Exc (List (ResultRow F)) := do
  let (insecureAddrs, models) ← parseBinsecToml env.limit doc
  let leaks ← parseOutputLog env.round log
  let rows ← insecureAddrs.mapM (buildRow env conv models leaks)
  rows.mapM makeResultRow

end

/-! ## The evidence for an address -/

section Evidence

variable {F : Type}

/-- The lines of a log. -/
def logLines (log : Text) : List Text := readlines (universalNewlines log)

/-- No result line has seconds that are no number. -/
def Readable (round : ℚ → F) (log : Text) : Prop :=
  ∀ line ∈ logLines log, ∀ e, resultLine round line ≠ some (.error e)

/-- The leaks of the result lines, in order. -/
def loggedLeaks (round : ℚ → F) (log : Text) : List (Int × LeakInfo F) :=
  (logLines log).filterMap fun line => (resultLine round line).bind Except.toOption

/-- The last result line of an address. -/
def leakOf (round : ℚ → F) (log : Text) (addr : Int) : Option (LeakInfo F) :=
  Dict.lookup addr (loggedLeaks round log).reverse

theorem results_ok_iff (round : ℚ → F) {lines : List Text} {leaks : List (Int × LeakInfo F)} :
    results round lines = .ok leaks ↔
      (∀ line ∈ lines, ∀ e, resultLine round line ≠ some (.error e)) ∧
      leaks = lines.filterMap fun line => (resultLine round line).bind Except.toOption := by
  induction lines generalizing leaks with
  | nil =>
    constructor
    · exact fun h => ⟨fun line hline => absurd hline List.not_mem_nil, (Except.ok.inj h).symm⟩
    · rintro ⟨-, rfl⟩
      rfl
  | cons line rest ih =>
    rw [results, List.filterMap_cons]
    cases hline : resultLine round line with
    | none =>
      show results round rest = .ok leaks ↔ _
      rw [ih, List.forall_mem_cons, hline]
      refine and_congr_left fun _ => (and_iff_right ?_).symm
      intro e he
      cases he
    | some result =>
      cases result with
      | error e =>
        constructor
        · intro h
          cases h
        · rintro ⟨h, -⟩
          exact absurd hline (h line List.mem_cons_self e)
      | ok leak =>
        show (results round rest).map (leak :: ·) = .ok leaks ↔ _
        rw [List.forall_mem_cons, hline]
        constructor
        · intro h
          cases hrest : results round rest with
          | error e =>
            rw [hrest] at h
            cases h
          | ok leaks' =>
            rw [hrest] at h
            obtain ⟨hreadable, rfl⟩ := ih.mp hrest
            refine ⟨⟨fun e he => ?_, hreadable⟩, (Except.ok.inj h).symm⟩
            cases he
        · rintro ⟨⟨-, hreadable⟩, rfl⟩
          rw [ih.mpr ⟨hreadable, rfl⟩]
          rfl

theorem parseOutputLog_ok_iff (round : ℚ → F) {log : Text} {leaks : Dict Int (LeakInfo F)} :
    parseOutputLog round log = .ok leaks ↔
      Readable round log ∧ leaks = Dict.empty.setAll (loggedLeaks round log) := by
  rw [parseOutputLog, parseLines_eq]
  constructor
  · intro h
    cases hresults : results round (readlines (universalNewlines log)) with
    | error e =>
      rw [hresults] at h
      cases h
    | ok found =>
      rw [hresults] at h
      obtain ⟨hreadable, rfl⟩ := (results_ok_iff round).mp hresults
      exact ⟨hreadable, (Except.ok.inj h).symm⟩
  · rintro ⟨hreadable, rfl⟩
    show (results round (logLines log)).map _ = _
    rw [(results_ok_iff round).mpr ⟨hreadable, rfl⟩]
    rfl

theorem get?_loggedLeaks (round : ℚ → F) (log : Text) (addr : Int) :
    (Dict.empty.setAll (loggedLeaks round log)).get? addr = leakOf round log addr := by
  rw [Dict.get?_setAll]
  exact Option.or_none

end Evidence

/-- A model value that its layout has room for. -/
def Fits (size : Nat) (value : Int) : Prop := size ≤ maxSize ∧ 0 ≤ value ∧ value < 256 ^ size

/-- The number whose big-endian bytes are the bytes of a model value. -/
def canonicalValue (byteorder : ByteOrder) (size : Nat) (value : Int) : Int :=
  bigEndian (packBytes byteorder size value.toNat)

/-- What the secrets of a finding contribute: those with both values. -/
def secretValues (s1 s2 : Dict Text Int) (byteorder : ByteOrder) (inputs : List InputLayout) :
    List (Text × Int) :=
  inputs.flatMap fun inp =>
    match s1.get? inp.modelKey, s2.get? inp.modelKey with
    | some value, some primeValue =>
      [(inp.name, canonicalValue byteorder inp.size value),
        (primeName inp.name, canonicalValue byteorder inp.size primeValue)]
    | _, _ => []

/-- What the public inputs of a finding contribute: those with a value. -/
def publicValues (pub : Dict Text Int) (byteorder : ByteOrder) (inputs : List InputLayout) :
    List (Text × Int) :=
  inputs.flatMap fun inp =>
    match pub.get? inp.modelKey with
    | some value => [(inp.name, canonicalValue byteorder inp.size value)]
    | none => []

/-- The counterexample values of an address. -/
def findingValues (conv : Conversion) (models : Dict Int Model) (addr : Int) :
    List (Text × Int) :=
  let model := (models.get? addr).getD .empty
  secretValues (model.table "secret1") (model.table "secret2") conv.modelByteorder
      conv.secretInputs ++
    publicValues (model.table "public") conv.modelByteorder conv.publicInputs

/-- The counterexamples of an address. -/
def findingCounterexamples (conv : Conversion) (models : Dict Int Model) (addr : Int) :
    Dict Text Int :=
  Dict.empty.setAll (findingValues conv models addr)

/-- Every value of the model that a layout asks for fits. -/
structure ModelFits (conv : Conversion) (models : Dict Int Model) (addr : Int) : Prop where
  secrets : ∀ inp ∈ conv.secretInputs, ∀ value primeValue,
    (((models.get? addr).getD .empty).table "secret1").get? inp.modelKey = some value →
    (((models.get? addr).getD .empty).table "secret2").get? inp.modelKey = some primeValue →
    Fits inp.size value ∧ Fits inp.size primeValue
  publics : ∀ inp ∈ conv.publicInputs, ∀ value,
    (((models.get? addr).getD .empty).table "public").get? inp.modelKey = some value →
    Fits inp.size value

theorem canonicalizeInputValue_ok_iff {value canonical : Int} {size : Nat}
    {byteorder : ByteOrder} :
    canonicalizeInputValue value size byteorder = .ok canonical ↔
      Fits size value ∧ canonical = canonicalValue byteorder size value := by
  rw [canonicalizeInputValue, toBytes]
  by_cases hfits : size ≤ maxSize ∧ 0 ≤ value ∧ value < 256 ^ size
  · rw [if_pos hfits]
    constructor
    · exact fun h => ⟨hfits, (Except.ok.inj h).symm⟩
    · rintro ⟨-, rfl⟩
      rfl
  · rw [if_neg hfits]
    constructor
    · intro h
      cases h
    · exact fun h => absurd h.1 hfits

theorem pickSecrets_ok_iff {s1 s2 : Dict Text Int} {byteorder : ByteOrder}
    {inputs : List InputLayout} {d picked : Dict Text Int} :
    pickSecrets s1 s2 byteorder d inputs = .ok picked ↔
      (∀ inp ∈ inputs, ∀ value primeValue, s1.get? inp.modelKey = some value →
        s2.get? inp.modelKey = some primeValue →
        Fits inp.size value ∧ Fits inp.size primeValue) ∧
      picked = d.setAll (secretValues s1 s2 byteorder inputs) := by
  induction inputs generalizing d with
  | nil =>
    constructor
    · exact fun h => ⟨fun inp hinp => absurd hinp List.not_mem_nil, (Except.ok.inj h).symm⟩
    · rintro ⟨-, rfl⟩
      rfl
  | cons inp rest ih =>
    rw [List.forall_mem_cons, secretValues, List.flatMap_cons, pickSecrets]
    -- an input that either table lacks is skipped, whatever the other one holds
    cases hvalue : s1.get? inp.modelKey with
    | none =>
      refine ih.trans (and_congr_left fun _ => (and_iff_right ?_).symm)
      intro _ _ h
      cases h
    | some value =>
      cases hprime : s2.get? inp.modelKey with
      | none =>
        refine ih.trans (and_congr_left fun _ => (and_iff_right ?_).symm)
        intro _ _ _ h
        cases h
      | some primeValue =>
        dsimp only
        constructor
        · intro h
          cases hcanonical : canonicalizeInputValue value inp.size byteorder with
          | error e => simp only [hcanonical, reduceCtorEq] at h
          | ok canonical =>
            cases hcanonicalPrime : canonicalizeInputValue primeValue inp.size byteorder with
            | error e => simp only [hcanonical, hcanonicalPrime, reduceCtorEq] at h
            | ok canonicalPrime =>
              simp only [hcanonical, hcanonicalPrime] at h
              obtain ⟨hfits, rfl⟩ := canonicalizeInputValue_ok_iff.mp hcanonical
              obtain ⟨hfitsPrime, rfl⟩ := canonicalizeInputValue_ok_iff.mp hcanonicalPrime
              obtain ⟨hrest, rfl⟩ := ih.mp h
              refine ⟨⟨fun v v' hv hv' => ?_, hrest⟩, ?_⟩
              · rw [← Option.some.inj hv, ← Option.some.inj hv']
                exact ⟨hfits, hfitsPrime⟩
              · rw [Dict.setAll_append]
                rfl
        · rintro ⟨⟨hfits, hrest⟩, rfl⟩
          obtain ⟨hfits, hfitsPrime⟩ := hfits value primeValue rfl rfl
          rw [canonicalizeInputValue_ok_iff.mpr ⟨hfits, rfl⟩,
            canonicalizeInputValue_ok_iff.mpr ⟨hfitsPrime, rfl⟩, Dict.setAll_append]
          exact ih.mpr ⟨hrest, rfl⟩

theorem pickPublics_ok_iff {pub : Dict Text Int} {byteorder : ByteOrder}
    {inputs : List InputLayout} {d picked : Dict Text Int} :
    pickPublics pub byteorder d inputs = .ok picked ↔
      (∀ inp ∈ inputs, ∀ value, pub.get? inp.modelKey = some value → Fits inp.size value) ∧
      picked = d.setAll (publicValues pub byteorder inputs) := by
  induction inputs generalizing d with
  | nil =>
    constructor
    · exact fun h => ⟨fun inp hinp => absurd hinp List.not_mem_nil, (Except.ok.inj h).symm⟩
    · rintro ⟨-, rfl⟩
      rfl
  | cons inp rest ih =>
    rw [List.forall_mem_cons, publicValues, List.flatMap_cons, pickPublics]
    cases hvalue : pub.get? inp.modelKey with
    | none =>
      refine ih.trans (and_congr_left fun _ => (and_iff_right ?_).symm)
      intro _ h
      cases h
    | some value =>
      dsimp only
      constructor
      · intro h
        cases hcanonical : canonicalizeInputValue value inp.size byteorder with
        | error e => simp only [hcanonical, reduceCtorEq] at h
        | ok canonical =>
          simp only [hcanonical] at h
          obtain ⟨hfits, rfl⟩ := canonicalizeInputValue_ok_iff.mp hcanonical
          obtain ⟨hrest, rfl⟩ := ih.mp h
          refine ⟨⟨fun v hv => ?_, hrest⟩, ?_⟩
          · rw [← Option.some.inj hv]
            exact hfits
          · rw [Dict.setAll_append]
            rfl
      · rintro ⟨⟨hfits, hrest⟩, rfl⟩
        rw [canonicalizeInputValue_ok_iff.mpr ⟨hfits value rfl, rfl⟩, Dict.setAll_append]
        exact ih.mpr ⟨hrest, rfl⟩

theorem items_setAll_empty_eq_nil_iff {items : List (Text × Int)} :
    ((Dict.empty : Dict Text Int).setAll items).items = [] ↔ items = [] := by
  constructor
  · intro h
    cases items with
    | nil => rfl
    | cons item items =>
      have hkey : item.1 ∈ ((Dict.empty : Dict Text Int).setAll (item :: items)).keys :=
        (Dict.mem_keys_setAll _ _ _).mpr (Or.inr (List.mem_cons_self))
      rw [Dict.keys, h] at hkey
      exact absurd hkey List.not_mem_nil
  · rintro rfl
    rfl

/-- The counterexamples of an address are picked iff every value fits. -/
theorem pickModelCounterexamples_ok_iff {conv : Conversion} {models : Dict Int Model}
    {addr : Int} {counterexamples : Option (Dict Text Int)} :
    pickModelCounterexamples models addr conv.secretInputs conv.publicInputs
        conv.modelByteorder = .ok counterexamples ↔
      ModelFits conv models addr ∧
        counterexamples = if findingValues conv models addr = [] then none
          else some (findingCounterexamples conv models addr) := by
  -- a model with no table is read like a missing one
  have hnone : ∀ model : Model, model.items = [] → (models.get? addr).getD .empty = model →
      ModelFits conv models addr ∧ findingValues conv models addr = [] := by
    intro model hitems hmodel
    have htable : ∀ table, (model.table table).get? = fun _ => none := by
      intro table
      have hget : model.get? table.toList = none := by
        show Dict.lookup _ model.items = none
        rw [hitems]
        rfl
      rw [Model.table, hget]
      rfl
    constructor
    · refine ⟨fun inp _ value primeValue h => ?_, fun inp _ value h => ?_⟩
      · rw [hmodel, htable] at h
        cases h
      · rw [hmodel, htable] at h
        cases h
    · rw [findingValues, hmodel, secretValues, publicValues, htable "secret1", htable "public",
        List.flatMap_eq_nil_iff.mpr fun _ _ => rfl, List.flatMap_eq_nil_iff.mpr fun _ _ => rfl]
      rfl
  rw [pickModelCounterexamples]
  cases hmodel : models.get? addr with
  | none =>
    obtain ⟨hfits, hvalues⟩ := hnone .empty rfl (by rw [hmodel]; rfl)
    rw [if_pos hvalues]
    exact ⟨fun h => ⟨hfits, (Except.ok.inj h).symm⟩, fun h => congrArg Except.ok h.2.symm⟩
  | some model =>
    have hgetD : (models.get? addr).getD .empty = model := by
      rw [hmodel]
      rfl
    dsimp only
    by_cases hitems : model.items = []
    · obtain ⟨hfits, hvalues⟩ := hnone model hitems hgetD
      rw [if_pos hitems, if_pos hvalues]
      exact ⟨fun h => ⟨hfits, (Except.ok.inj h).symm⟩, fun h => congrArg Except.ok h.2.symm⟩
    · rw [if_neg hitems]
      have hvalues : findingCounterexamples conv models addr =
          (Dict.empty.setAll (secretValues (model.table "secret1") (model.table "secret2")
            conv.modelByteorder conv.secretInputs)).setAll
            (publicValues (model.table "public") conv.modelByteorder conv.publicInputs) := by
        rw [findingCounterexamples, findingValues, hgetD, Dict.setAll_append]
      -- the source tests the dictionary for emptiness, `findingValues` is the list it
      -- was filled from
      have hchoice : (if (findingCounterexamples conv models addr).items = [] then none
            else some (findingCounterexamples conv models addr)) =
          if findingValues conv models addr = [] then none
            else some (findingCounterexamples conv models addr) :=
        if_congr items_setAll_empty_eq_nil_iff rfl rfl
      rw [← hchoice, hvalues]
      constructor
      · intro h
        cases hsecrets : pickSecrets (model.table "secret1") (model.table "secret2")
            conv.modelByteorder .empty conv.secretInputs with
        | error e => simp only [hsecrets, reduceCtorEq] at h
        | ok picked =>
          cases hpublics : pickPublics (model.table "public") conv.modelByteorder picked
              conv.publicInputs with
          | error e => simp only [hsecrets, hpublics, reduceCtorEq] at h
          | ok all =>
            simp only [hsecrets, hpublics] at h
            obtain ⟨hfits, rfl⟩ := pickSecrets_ok_iff.mp hsecrets
            obtain ⟨hfits', rfl⟩ := pickPublics_ok_iff.mp hpublics
            exact ⟨⟨hgetD ▸ hfits, hgetD ▸ hfits'⟩, (Except.ok.inj h).symm⟩
      · rintro ⟨hfits, rfl⟩
        have hsecrets := hfits.secrets
        have hpublics := hfits.publics
        rw [hgetD] at hsecrets hpublics
        rw [pickSecrets_ok_iff.mpr ⟨hsecrets, rfl⟩]
        dsimp only
        rw [pickPublics_ok_iff.mpr ⟨hpublics, rfl⟩]

/-! ## The replay -/

/-- A number short enough for `str` under the digit limit. -/
def Prints (limit : Nat) (n : Int) : Prop := limit = 0 ∨ (decimal n.natAbs).length ≤ limit

theorem exists_formatInt_iff {limit : Nat} {n : Int} :
    (∃ text, formatInt limit n = .ok text) ↔ Prints limit n := by
  rw [formatInt, strInt]
  by_cases hlong : limit ≠ 0 ∧ limit < (decimal n.natAbs).length
  · rw [if_pos hlong]
    constructor
    · rintro ⟨text, h⟩
      cases h
    · rintro (hzero | hle)
      · exact absurd hzero hlong.1
      · exact absurd hlong.2 (Nat.not_lt_of_le hle)
  · rw [if_neg hlong]
    refine ⟨fun _ => ?_, fun _ => ⟨_, rfl⟩⟩
    rw [Prints]
    omega

/-- Every layout has its values, and they can be printed. -/
structure Complete (limit : Nat) (conv : Conversion) (values : Dict Text Int) : Prop where
  secrets : ∀ inp ∈ conv.secretInputs, Prints limit inp.size ∧ ∃ value primeValue,
    values.get? inp.name = some value ∧ values.get? (primeName inp.name) = some primeValue ∧
      Prints limit value ∧ Prints limit primeValue
  publics : ∀ inp ∈ conv.publicInputs, Prints limit inp.size ∧ ∃ value,
    values.get? inp.name = some value ∧ Prints limit value

theorem exists_formatSecret_iff {limit : Nat} {name : Text} {size value primeValue : Int} :
    (∃ text, formatSecret limit name size value primeValue = .ok text) ↔
      Prints limit size ∧ Prints limit value ∧ Prints limit primeValue := by
  simp only [formatSecret, bind_eq_ok_iff, ← exists_formatInt_iff]
  constructor
  · rintro ⟨text, sizeText, hsize, valueText, hvalue, primeText, hprime, -⟩
    exact ⟨⟨sizeText, hsize⟩, ⟨valueText, hvalue⟩, primeText, hprime⟩
  · rintro ⟨⟨sizeText, hsize⟩, ⟨valueText, hvalue⟩, primeText, hprime⟩
    exact ⟨_, sizeText, hsize, valueText, hvalue, primeText, hprime, rfl⟩

theorem exists_formatPublic_iff {limit : Nat} {name : Text} {size value : Int} :
    (∃ text, formatPublic limit name size value = .ok text) ↔
      Prints limit size ∧ Prints limit value := by
  simp only [formatPublic, bind_eq_ok_iff, ← exists_formatInt_iff]
  constructor
  · rintro ⟨text, sizeText, hsize, valueText, hvalue, -⟩
    exact ⟨⟨sizeText, hsize⟩, valueText, hvalue⟩
  · rintro ⟨⟨sizeText, hsize⟩, valueText, hvalue⟩
    exact ⟨_, sizeText, hsize, valueText, hvalue, rfl⟩

theorem exists_secretParts_iff {limit : Nat} {values : Dict Text Int}
    {inputs : List InputLayout} :
    (∃ parts, secretParts limit values inputs = .ok parts) ↔
      ∀ inp ∈ inputs, Prints limit inp.size ∧ ∃ value primeValue,
        values.get? inp.name = some value ∧ values.get? (primeName inp.name) = some primeValue ∧
          Prints limit value ∧ Prints limit primeValue := by
  induction inputs with
  | nil => exact ⟨fun _ inp hinp => absurd hinp List.not_mem_nil, fun _ => ⟨[], rfl⟩⟩
  | cons inp rest ih =>
    rw [List.forall_mem_cons, ← ih, secretParts]
    constructor
    · rintro ⟨parts, h⟩
      cases hvalue : values.get? inp.name with
      | none => simp only [hvalue, reduceCtorEq] at h
      | some value =>
        cases hprime : values.get? (primeName inp.name) with
        | none => simp only [hvalue, hprime, reduceCtorEq] at h
        | some primeValue =>
          simp only [hvalue, hprime, bind_eq_ok_iff] at h
          obtain ⟨part, hpart, rest', hrest, -⟩ := h
          obtain ⟨hsize, hprints, hprintsPrime⟩ := exists_formatSecret_iff.mp ⟨part, hpart⟩
          exact ⟨⟨hsize, value, primeValue, rfl, rfl, hprints, hprintsPrime⟩, rest', hrest⟩
    · rintro ⟨⟨hsize, value, primeValue, hvalue, hprime, hprints, hprintsPrime⟩, rest', hrest⟩
      obtain ⟨part, hpart⟩ := (@exists_formatSecret_iff limit inp.name _ _ _).mpr
        ⟨hsize, hprints, hprintsPrime⟩
      simp only [hvalue, hprime, bind_eq_ok_iff]
      exact ⟨_, part, hpart, rest', hrest, rfl⟩

theorem exists_publicParts_iff {limit : Nat} {values : Dict Text Int}
    {inputs : List InputLayout} :
    (∃ parts, publicParts limit values inputs = .ok parts) ↔
      ∀ inp ∈ inputs, Prints limit inp.size ∧ ∃ value,
        values.get? inp.name = some value ∧ Prints limit value := by
  induction inputs with
  | nil => exact ⟨fun _ inp hinp => absurd hinp List.not_mem_nil, fun _ => ⟨[], rfl⟩⟩
  | cons inp rest ih =>
    rw [List.forall_mem_cons, ← ih, publicParts]
    constructor
    · rintro ⟨parts, h⟩
      cases hvalue : values.get? inp.name with
      | none => simp only [hvalue, reduceCtorEq] at h
      | some value =>
        simp only [hvalue, bind_eq_ok_iff] at h
        obtain ⟨part, hpart, rest', hrest, -⟩ := h
        obtain ⟨hsize, hprints⟩ := exists_formatPublic_iff.mp ⟨part, hpart⟩
        exact ⟨⟨hsize, value, rfl, hprints⟩, rest', hrest⟩
    · rintro ⟨⟨hsize, value, hvalue, hprints⟩, rest', hrest⟩
      obtain ⟨part, hpart⟩ :=
        (@exists_formatPublic_iff limit inp.name _ _).mpr ⟨hsize, hprints⟩
      simp only [hvalue, bind_eq_ok_iff]
      exact ⟨_, part, hpart, rest', hrest, rfl⟩

theorem exists_specStrings_iff {limit : Nat} {conv : Conversion} {values : Dict Text Int} :
    (∃ specs, specStrings limit values conv.secretInputs conv.publicInputs = .ok specs) ↔
      Complete limit conv values := by
  simp only [specStrings, bind_eq_ok_iff]
  constructor
  · rintro ⟨specs, secrets, hsecrets, publics, hpublics, -⟩
    exact ⟨exists_secretParts_iff.mp ⟨secrets, hsecrets⟩,
      exists_publicParts_iff.mp ⟨publics, hpublics⟩⟩
  · intro h
    obtain ⟨secrets, hsecrets⟩ := exists_secretParts_iff.mpr h.secrets
    obtain ⟨publics, hpublics⟩ := exists_publicParts_iff.mpr h.publics
    exact ⟨_, secrets, hsecrets, publics, hpublics, rfl⟩

/-- A child that ends with the exit status of a verdict, and whose output, if it reports a
place, gives numbers that can be read. -/
structure Answers (limit : Nat) (child : ReplayExit) : Prop where
  verdict : child.returncode ∈ [0, 1, 3, 42, 124]
  place : child.returncode = 0 → ∃ place,
    firstLocation limit (splitlines (child.stdout ++ '\n' :: child.stderr)) = .ok place

theorem exists_rowStatus_none_iff {rc : Int} :
    (∃ status, rowStatus none rc = .ok status) ↔ rc ∈ [0, 1, 3, 42, 124] := by
  simp only [rowStatus, List.mem_cons, List.not_mem_nil, or_false]
  split_ifs with h124 h1 h42 h03
  · exact ⟨fun _ => by omega, fun _ => ⟨_, rfl⟩⟩
  · exact ⟨fun _ => by omega, fun _ => ⟨_, rfl⟩⟩
  · exact ⟨fun _ => by omega, fun _ => ⟨_, rfl⟩⟩
  · exact ⟨fun _ => by omega, fun _ => ⟨_, rfl⟩⟩
  · refine ⟨?_, fun h => by omega⟩
    rintro ⟨status, h⟩
    cases h

section Replaying

variable {F : Type} {env : Surroundings F} {conv : Conversion} {addr : Int}
  {expectation : Expectation} {values : Dict Text Int}

/-- The request for a finding whose specifications are printed. -/
def requestOf (specs : Text × Text) (expectation : Expectation) : ReplayRequest where
  secretSpec := specs.1
  publicSpec := specs.2
  expectation := expectation

theorem replayFinding_of_specs {specs : Text × Text}
    (h : specStrings env.limit values conv.secretInputs conv.publicInputs = .ok specs)
    (result : Status × Option SourceLocation) :
    replayFinding env conv addr expectation values = .ok result ↔
      runReproduce env.limit (env.replay (requestOf specs expectation)).returncode
          (env.replay (requestOf specs expectation)).stdout
          (env.replay (requestOf specs expectation)).stderr = .ok result.2 ∧
        rowStatus result.2 (env.replay (requestOf specs expectation)).returncode =
          .ok result.1 := by
  obtain ⟨secretSpec, publicSpec⟩ := specs
  rw [replayFinding, h]
  dsimp only [requestOf]
  generalize env.replay (ReplayRequest.mk secretSpec publicSpec expectation) = child
  cases runReproduce env.limit child.returncode child.stdout child.stderr with
  | error e =>
    constructor
    · intro h
      cases h
    · rintro ⟨h, -⟩
      cases h
  | ok place =>
    dsimp only
    constructor
    · intro hresult
      cases hstatus : rowStatus place child.returncode with
      | error e =>
        rw [hstatus] at hresult
        cases hresult
      | ok status =>
        rw [hstatus] at hresult
        obtain rfl := Except.ok.inj hresult
        exact ⟨rfl, hstatus⟩
    · rintro ⟨hplace, hstatus⟩
      rw [← Except.ok.inj hplace] at hstatus
      rw [hstatus, Except.ok.inj hplace]

/-- A replay goes through iff its specifications are complete and the child answers. -/
theorem exists_replayFinding_iff :
    (∃ result, replayFinding env conv addr expectation values = .ok result) ↔
      Complete env.limit conv values ∧
      ∀ specs, specStrings env.limit values conv.secretInputs conv.publicInputs = .ok specs →
        Answers env.limit (env.replay (requestOf specs expectation)) := by
  rw [← exists_specStrings_iff]
  cases hspecs : specStrings env.limit values conv.secretInputs conv.publicInputs with
  | error failure =>
    constructor
    · rintro ⟨result, h⟩
      rw [replayFinding, hspecs] at h
      cases failure with
      | missing output => cases h
      | unprintable => cases h
    · rintro ⟨⟨specs, h⟩, -⟩
      cases h
  | ok specs =>
    simp only [replayFinding_of_specs hspecs]
    -- the specs are determined by the values, so the quantifier over them is one instance
    have hforall : (∀ specs', Except.ok specs = (.ok specs' : Except SpecFailure _) →
        Answers env.limit (env.replay (requestOf specs' expectation))) ↔
          Answers env.limit (env.replay (requestOf specs expectation)) := by
      constructor
      · exact fun h => h specs rfl
      · intro h specs' heq
        rw [← Except.ok.inj heq]
        exact h
    rw [hforall, and_iff_right ⟨specs, rfl⟩]
    generalize env.replay (requestOf specs expectation) = child
    -- only a child that exits with 0 has its output searched for a place
    by_cases hzero : child.returncode = 0
    · constructor
      · rintro ⟨⟨status, place⟩, hplace, -⟩
        rw [runReproduce, if_neg (not_not_intro hzero)] at hplace
        exact ⟨by rw [hzero]; decide, fun _ => ⟨place, hplace⟩⟩
      · intro h
        obtain ⟨place, hplace⟩ := h.place hzero
        have hstatus : ∃ status, rowStatus place child.returncode = .ok status := by
          cases place with
          | none => exact exists_rowStatus_none_iff.mpr h.verdict
          | some place =>
            rw [hzero]
            exact ⟨.success, rfl⟩
        obtain ⟨status, hstatus⟩ := hstatus
        refine ⟨(status, place), ?_, hstatus⟩
        rw [runReproduce, if_neg (not_not_intro hzero)]
        exact hplace
    · have hnone : runReproduce env.limit child.returncode child.stdout child.stderr = .ok none :=
        if_pos hzero
      constructor
      · rintro ⟨⟨status, place⟩, hplace, hstatus⟩
        rw [hnone] at hplace
        rw [← Except.ok.inj hplace] at hstatus
        exact ⟨exists_rowStatus_none_iff.mp ⟨status, hstatus⟩, fun h => absurd h hzero⟩
      · intro h
        obtain ⟨status, hstatus⟩ := exists_rowStatus_none_iff.mpr h.verdict
        exact ⟨(status, none), hnone, hstatus⟩

end Replaying

/-! ## The rows of a case -/

section Rows

variable {F : Type} (env : Surroundings F) (conv : Conversion) (models : Dict Int Model)
  (log : Text)

/-- The file name of a location in a row. -/
def rowFilename (location : SourceLocation) : Text :=
  relativizeToCodeRoot env.cwd location.file conv.codeRoot

/-- What the replay of an address should show. -/
def expectationOf (addr : Int) (location : SourceLocation) : Expectation :=
  findingExpectation (rowFilename env conv location) location
    ((leakOf env.round log addr).map fun leak => leak.leakType.kind)

/-- The place a replay reports. -/
def reportedPlace (request : ReplayRequest) : Except Exc (Option SourceLocation) :=
  let child := env.replay request
  runReproduce env.limit child.returncode child.stdout child.stderr

/-- What the row of an address should say: the location of the address (the column may be one
that a replay reported for the same line), kind and time of its last result line, and the
values of its model. -/
structure RowOf (addr : Int) (row : ResultRow F) : Prop where
  filename : row.filename = (env.addrInfo addr).map (rowFilename env conv)
  line : row.line = (env.addrInfo addr).map SourceLocation.line
  column : row.column = (env.addrInfo addr).map SourceLocation.column ∨
    ∃ location specs place, env.addrInfo addr = some location ∧
      reportedPlace env (requestOf specs (expectationOf env conv log addr location)) =
        .ok (some place) ∧
      basename place.file = basename (rowFilename env conv location) ∧
      place.line = location.line ∧ row.column = some place.column
  kind : row.kind = (leakOf env.round log addr).map fun leak => leak.leakType.kind
  time : ∀ leak, leakOf env.round log addr = some leak → row.nonCtTime = leak.seconds
  counterexamples : row.counterexamples = findingCounterexamples conv models addr

/-- What an address needs for its row to be made. -/
structure Supported (addr : Int) : Prop where
  logged : leakOf env.round log addr ≠ none
  fits : ModelFits conv models addr
  named : ∀ location, env.addrInfo addr = some location → rowFilename env conv location ≠ []
  replayed : conv.reproduce = true → ∀ location, env.addrInfo addr = some location →
    findingValues conv models addr ≠ [] →
    Complete env.limit conv (findingCounterexamples conv models addr) ∧
      ∀ specs, specStrings env.limit (findingCounterexamples conv models addr)
          conv.secretInputs conv.publicInputs = .ok specs →
        Answers env.limit (env.replay (requestOf specs (expectationOf env conv log addr location)))

variable {env conv models log}

theorem makeResultRow_ok_iff {row : Row F} {out : ResultRow F} :
    makeResultRow row = .ok out ↔ row.filename ≠ some [] ∧ ∃ nonCtTime,
      row.nonCtTime = some nonCtTime ∧ out =
        { filename := row.filename
          line := row.line
          nonCtTime := nonCtTime
          counterexamples := row.counterexamples.getD .empty
          reproducedStatus := row.reproducedStatus.getD .notReproduced
          column := row.column
          kind := row.kind
          code := row.code } := by
  rw [makeResultRow]
  by_cases hname : row.filename = some []
  · rw [if_pos hname]
    constructor
    · intro h
      cases h
    · exact fun h => absurd hname h.1
  · rw [if_neg hname, and_iff_right hname]
    cases row.nonCtTime with
    | none =>
      constructor
      · intro h
        cases h
      · rintro ⟨nonCtTime, h, -⟩
        cases h
    | some nonCtTime =>
      constructor
      · exact fun h => ⟨nonCtTime, rfl, (Except.ok.inj h).symm⟩
      · rintro ⟨nonCtTime', h, rfl⟩
        rw [Option.some.inj h]

/-- The row of `build_rows` before the replay. -/
def plainRow (env : Surroundings F) (conv : Conversion) (models : Dict Int Model) (log : Text)
    (addr : Int) : Row F where
  filename := (env.addrInfo addr).map (rowFilename env conv)
  line := (env.addrInfo addr).map SourceLocation.line
  column := (env.addrInfo addr).map SourceLocation.column
  nonCtTime := (leakOf env.round log addr).map LeakInfo.seconds
  kind := (leakOf env.round log addr).map fun leak => leak.leakType.kind
  code := (env.addrInfo addr).bind fun location =>
    sourceCode env conv location (rowFilename env conv location)
  counterexamples := if findingValues conv models addr = [] then none
    else some (findingCounterexamples conv models addr)
  reproducedStatus := none

/-- The column after a replay is the one of the address, or one the replay reported for the
same line. -/
theorem columnAfter_cases (filename : Text) (line column : Int) (status : Status)
    (place : Option SourceLocation) :
    columnAfter filename line column status place = column ∨
      ∃ found, place = some found ∧ basename found.file = basename filename ∧
        found.line = line ∧ columnAfter filename line column status place = found.column := by
  cases place with
  | none => exact Or.inl rfl
  | some found =>
    rw [columnAfter]
    by_cases h : status = .success ∧ basename found.file = basename filename ∧
        found.line = line ∧ found.column ≠ column
    · rw [if_pos h]
      exact Or.inr ⟨found, rfl, h.2.1, h.2.2.1, rfl⟩
    · rw [if_neg h]
      exact Or.inl rfl

/-- Everything the body of the loop can return: a row without a replay, or one with it. -/
theorem buildRow_ok_iff {addr : Int} {row : Row F} :
    buildRow env conv models (Dict.empty.setAll (loggedLeaks env.round log)) addr = .ok row ↔
      ModelFits conv models addr ∧
        ((row = plainRow env conv models log addr ∧
            (conv.reproduce = true → env.addrInfo addr ≠ none →
              findingValues conv models addr = [])) ∨
          ∃ location result, conv.reproduce = true ∧ env.addrInfo addr = some location ∧
            findingValues conv models addr ≠ [] ∧
            replayFinding env conv addr (expectationOf env conv log addr location)
              (findingCounterexamples conv models addr) = .ok result ∧
            row = { plainRow env conv models log addr with
              column := some (columnAfter (rowFilename env conv location) location.line
                location.column result.1 result.2)
              reproducedStatus := some result.1 }) := by
  rw [buildRow]
  simp only [get?_loggedLeaks]
  -- the counterexamples are picked before the address is resolved, so a value that does
  -- not fit fails first
  cases hpick : pickModelCounterexamples models addr conv.secretInputs conv.publicInputs
      conv.modelByteorder with
  | error e =>
    constructor
    · intro h
      cases h
    · rintro ⟨hfits, -⟩
      rw [pickModelCounterexamples_ok_iff.mpr ⟨hfits, rfl⟩] at hpick
      cases hpick
  | ok counterexamples =>
    obtain ⟨hfits, hvalues⟩ := pickModelCounterexamples_ok_iff.mp hpick
    rw [and_iff_right hfits]
    dsimp only
    -- no line table entry: the row is written without a place and nothing is replayed
    cases hinfo : env.addrInfo addr with
    | none =>
      dsimp only
      have hplain : plainRow env conv models log addr =
          { filename := none, line := none, column := none
            nonCtTime := (leakOf env.round log addr).map LeakInfo.seconds
            kind := (leakOf env.round log addr).map fun leak => leak.leakType.kind
            code := none, counterexamples := counterexamples, reproducedStatus := none } := by
        rw [plainRow, hinfo, hvalues]
        rfl
      rw [← hplain]
      constructor
      · exact fun h => Or.inl ⟨(Except.ok.inj h).symm, fun _ h => absurd rfl h⟩
      · rintro (⟨rfl, -⟩ | ⟨location, result, -, h, -⟩)
        · rfl
        · cases h
    | some location =>
      have hplain : plainRow env conv models log addr =
          { filename := some (relativizeToCodeRoot env.cwd location.file conv.codeRoot)
            line := some location.line, column := some location.column
            nonCtTime := (leakOf env.round log addr).map LeakInfo.seconds
            kind := (leakOf env.round log addr).map fun leak => leak.leakType.kind
            code := sourceCode env conv location
              (relativizeToCodeRoot env.cwd location.file conv.codeRoot)
            counterexamples := counterexamples, reproducedStatus := none } := by
        rw [plainRow, hinfo, hvalues]
        rfl
      dsimp only
      rw [← hplain]
      cases hreproduce : conv.reproduce with
      | false =>
        constructor
        · exact fun h => Or.inl ⟨(Except.ok.inj h).symm, Bool.noConfusion⟩
        · rintro (⟨rfl, -⟩ | ⟨_, _, h, -⟩)
          · rfl
          · cases h
      | true =>
        -- a replay needs a value to replay: without counterexamples the plain row stands
        by_cases hnil : findingValues conv models addr = []
        · rw [if_pos hnil] at hvalues
          subst hvalues
          constructor
          · exact fun h => Or.inl ⟨(Except.ok.inj h).symm, fun _ _ => hnil⟩
          · rintro (⟨rfl, -⟩ | ⟨_, _, -, -, h, -⟩)
            · rfl
            · exact absurd hnil h
        · rw [if_neg hnil] at hvalues
          subst hvalues
          dsimp only
          constructor
          · intro h
            -- the replay runs inside the row: its failure is the failure of the row
            cases hreplay : replayFinding env conv addr
                (expectationOf env conv log addr location)
                (findingCounterexamples conv models addr) with
            | error e =>
              rw [expectationOf, rowFilename] at hreplay
              simp only [hreplay, reduceCtorEq] at h
            | ok result =>
              have hreplay' := hreplay
              rw [expectationOf, rowFilename] at hreplay'
              simp only [hreplay'] at h
              refine Or.inr ⟨location, result, rfl, rfl, hnil, hreplay, ?_⟩
              rw [hplain]
              exact (Except.ok.inj h).symm
          · rintro (⟨-, h⟩ | ⟨location', result, -, hlocation, -, hreplay, rfl⟩)
            · exact absurd (h rfl (Option.some_ne_none location)) hnil
            · obtain rfl := Option.some.inj hlocation
              rw [expectationOf, rowFilename] at hreplay
              rw [hplain]
              simp only [hreplay]
              rfl

/-- An address gets a row iff it has what a row needs. -/
theorem exists_row_iff {addr : Int} :
    (∃ out row, buildRow env conv models (Dict.empty.setAll (loggedLeaks env.round log)) addr =
        .ok row ∧ makeResultRow row = .ok out) ↔ Supported env conv models log addr := by
  -- `makeResultRow` reads only the name and the time of a row, which both kinds of row share
  have hmake : ∀ row : Row F, row.filename = (env.addrInfo addr).map (rowFilename env conv) →
      row.nonCtTime = (leakOf env.round log addr).map LeakInfo.seconds →
      ((∃ out, makeResultRow row = .ok out) ↔ leakOf env.round log addr ≠ none ∧
        ∀ location, env.addrInfo addr = some location → rowFilename env conv location ≠ []) := by
    intro row hfilename htime
    simp only [makeResultRow_ok_iff, hfilename, htime]
    constructor
    · rintro ⟨out, hname, nonCtTime, hleak, -⟩
      refine ⟨fun hnone => ?_, fun location hlocation hnil => ?_⟩
      · rw [hnone] at hleak
        cases hleak
      · rw [hlocation, Option.map_some, hnil] at hname
        exact hname rfl
    · rintro ⟨hleak, hname⟩
      obtain ⟨leak, hleak⟩ := Option.ne_none_iff_exists'.mp hleak
      refine ⟨_, fun hnil => ?_, leak.seconds, by rw [hleak]; rfl, rfl⟩
      obtain ⟨location, hlocation, hempty⟩ := Option.map_eq_some_iff.mp hnil
      exact hname location hlocation hempty
  constructor
  · rintro ⟨out, row, hrow, hout⟩
    obtain ⟨hfits, hcases⟩ := buildRow_ok_iff.mp hrow
    rcases hcases with ⟨rfl, hnone⟩ | ⟨location, result, -, hlocation, hvalues, hreplay, rfl⟩
    · obtain ⟨hlogged, hnamed⟩ := (hmake _ rfl rfl).mp ⟨out, hout⟩
      refine ⟨hlogged, hfits, hnamed, fun hreproduce location hlocation hvalues => ?_⟩
      exact absurd (hnone hreproduce (hlocation ▸ Option.some_ne_none location)) hvalues
    · obtain ⟨hlogged, hnamed⟩ := (hmake _ rfl rfl).mp ⟨out, hout⟩
      refine ⟨hlogged, hfits, hnamed, fun _ location' hlocation' _ => ?_⟩
      obtain rfl := Option.some.inj (hlocation.symm.trans hlocation')
      exact exists_replayFinding_iff.mp ⟨result, hreplay⟩
  · intro h
    -- the witness row is the replayed one exactly when the source replays
    by_cases hreplays : conv.reproduce = true ∧ env.addrInfo addr ≠ none ∧
        findingValues conv models addr ≠ []
    · obtain ⟨hreproduce, hlocation, hvalues⟩ := hreplays
      obtain ⟨location, hlocation⟩ := Option.ne_none_iff_exists'.mp hlocation
      obtain ⟨result, hreplay⟩ :
          ∃ result, replayFinding env conv addr (expectationOf env conv log addr location)
            (findingCounterexamples conv models addr) = .ok result :=
        exists_replayFinding_iff.mpr (h.replayed hreproduce location hlocation hvalues)
      let row : Row F := { plainRow env conv models log addr with
        column := some (columnAfter (rowFilename env conv location) location.line
          location.column result.1 result.2)
        reproducedStatus := some result.1 }
      have hrow := buildRow_ok_iff.mpr ⟨h.fits, Or.inr ⟨location, result, hreproduce, hlocation,
        hvalues, hreplay, (rfl : row = _)⟩⟩
      obtain ⟨out, hout⟩ := (hmake row rfl rfl).mpr ⟨h.logged, h.named⟩
      exact ⟨out, row, hrow, hout⟩
    · have hrow : buildRow env conv models (Dict.empty.setAll (loggedLeaks env.round log)) addr =
          .ok (plainRow env conv models log addr) := by
        refine buildRow_ok_iff.mpr ⟨h.fits, Or.inl ⟨rfl, fun hreproduce hlocation => ?_⟩⟩
        by_contra hvalues
        exact hreplays ⟨hreproduce, hlocation, hvalues⟩
      obtain ⟨out, hout⟩ := (hmake (plainRow env conv models log addr) rfl rfl).mpr
        ⟨h.logged, h.named⟩
      exact ⟨out, _, hrow, hout⟩

/-- A row that is made says what it should. -/
theorem rowOf_of_ok {addr : Int} {row : Row F} {out : ResultRow F}
    (hrow : buildRow env conv models (Dict.empty.setAll (loggedLeaks env.round log)) addr =
      .ok row) (hout : makeResultRow row = .ok out) : RowOf env conv models log addr out := by
  obtain ⟨-, nonCtTime, htime, rfl⟩ := makeResultRow_ok_iff.mp hout
  have hcounterexamples : ((if findingValues conv models addr = [] then none
      else some (findingCounterexamples conv models addr)) : Option (Dict Text Int)).getD .empty =
      findingCounterexamples conv models addr := by
    by_cases hnil : findingValues conv models addr = []
    · rw [if_pos hnil, findingCounterexamples, hnil]
      rfl
    · rw [if_neg hnil]
      rfl
  have hseconds : ∀ leak, (leakOf env.round log addr).map LeakInfo.seconds = some nonCtTime →
      leakOf env.round log addr = some leak → nonCtTime = leak.seconds := by
    intro leak hmap hleak
    rw [hleak] at hmap
    exact (Option.some.inj hmap).symm
  obtain ⟨-, ⟨rfl, -⟩ | ⟨location, ⟨status, place⟩, -, hlocation, -, hreplay, rfl⟩⟩ :=
    buildRow_ok_iff.mp hrow
  · exact ⟨rfl, rfl, Or.inl rfl, rfl, fun leak => hseconds leak htime, hcounterexamples⟩
  · refine ⟨rfl, rfl, ?_, rfl, fun leak => hseconds leak htime, hcounterexamples⟩
    obtain ⟨specs, hspecs⟩ :=
      exists_specStrings_iff.mpr (exists_replayFinding_iff.mp ⟨_, hreplay⟩).1
    have hplace := ((replayFinding_of_specs hspecs _).mp hreplay).1
    rcases columnAfter_cases (rowFilename env conv location) location.line location.column status
      place with hsame | ⟨found, rfl, hfile, hline, hcolumn⟩
    · refine Or.inl ?_
      show some (columnAfter _ _ _ status place) = _
      rw [hsame, hlocation]
      rfl
    · exact Or.inr ⟨location, specs, found, hlocation, hplace, hfile, hline,
        congrArg some hcolumn⟩

theorem convertBinsecToml_ok_iff {doc : Value} {addrs : List Int}
    (hdoc : parseBinsecToml env.limit doc = .ok (addrs, models)) {rows : List (ResultRow F)} :
    convertBinsecToml env conv doc log = .ok rows ↔ Readable env.round log ∧
      List.Forall₂ (fun addr out => ∃ row, buildRow env conv models
        (Dict.empty.setAll (loggedLeaks env.round log)) addr = .ok row ∧
        makeResultRow row = .ok out) addrs rows := by
  simp only [convertBinsecToml, bind_eq_ok_iff, hdoc, ← exists_mapM_mapM_iff]
  constructor
  · rintro ⟨_, hparsed, leaks, hleaks, hrows⟩
    obtain rfl := Except.ok.inj hparsed
    obtain ⟨hreadable, rfl⟩ := (parseOutputLog_ok_iff env.round).mp hleaks
    exact ⟨hreadable, hrows⟩
  · rintro ⟨hreadable, hrows⟩
    exact ⟨_, rfl, _, (parseOutputLog_ok_iff env.round).mpr ⟨hreadable, rfl⟩, hrows⟩

/-- Every insecure address has its row, in order. -/
def Converts (env : Surroundings F) (conv : Conversion) (models : Dict Int Model) (log : Text)
    (doc : Value) (addrs : List Int) : Prop :=
  ∃ rows, convertBinsecToml env conv doc log = .ok rows ∧
    List.Forall₂ (RowOf env conv models log) addrs rows

/-- **A case has all its rows** iff its log can be read and every address has what its row
needs: one address without it takes the rows of all others away. -/
theorem converts_iff (env : Surroundings F) (conv : Conversion) (doc : Value) (addrs : List Int)
    (models : Dict Int Model) (log : Text)
    (hdoc : parseBinsecToml env.limit doc = .ok (addrs, models)) :
    Converts env conv models log doc addrs ↔
      Readable env.round log ∧ ∀ addr ∈ addrs, Supported env conv models log addr := by
  simp only [← exists_row_iff, ← exists_forall₂_iff]
  constructor
  · rintro ⟨rows, hrows, -⟩
    obtain ⟨hreadable, hall⟩ := (convertBinsecToml_ok_iff hdoc).mp hrows
    exact ⟨hreadable, rows, hall⟩
  · rintro ⟨hreadable, rows, hall⟩
    refine ⟨rows, (convertBinsecToml_ok_iff hdoc).mpr ⟨hreadable, hall⟩, ?_⟩
    exact hall.imp fun _ _ ⟨_, hrow, hout⟩ => rowOf_of_ok hrow hout

end Rows

/-- A conversion without layouts and without a replay, where no address has line information. -/
def bareConversion : Conversion where
  secretInputs := []
  publicInputs := []
  modelByteorder := .little
  codeRoot := none
  reproduce := false
  secret_of_reproduce h := nomatch h

def bareSurroundings : Surroundings ℚ where
  limit := 100000
  round := id
  cwd := "/".toList
  addrInfo _ := none
  isfile _ := false
  codeIndex _ := none
  sourceLine _ _ := none
  replay _ := { returncode := 0, stdout := [], stderr := [] }

/-- The stats of a case with some insecure addresses and no models. -/
def statsOf (insecure : List String) : Value :=
  .dict [("CT report".toList, .dict [("Instructions status".toList, .dict
    [("insecure".toList, .list (insecure.map fun addr => .str addr.toList))])])]

theorem converts_iff_one :
    parseBinsecToml 100000 (statsOf ["0x401136"]) = .ok ([0x401136], .empty) ∧
      (Converts bareSurroundings bareConversion .empty [] (statsOf ["0x401136"]) [0x401136] ↔
        Readable bareSurroundings.round [] ∧ ∀ addr ∈ [(0x401136 : Int)],
          Supported bareSurroundings bareConversion .empty [] addr) := by
  have hdoc : parseBinsecToml 100000 (statsOf ["0x401136"]) = .ok ([0x401136], .empty) := rfl
  exact ⟨hdoc, converts_iff bareSurroundings bareConversion _ _ _ [] hdoc⟩

/-- The log of a case with two insecure addresses, one of them reported. -/
def oneOfTwoLog : Text :=
  "[checkct:result] Instruction 0x401136 has control flow leak (0.5s)\n".toList

/-- The second address has no result line: the row of the first is lost as well. -/
theorem finding_discards_case :
    parseBinsecToml 100000 (statsOf ["0x401136", "0x401200"]) =
        .ok ([0x401136, 0x401200], .empty) ∧
      leakOf id oneOfTwoLog 0x401136 = some { leakType := .controlFlow, seconds := 1 / 2 } ∧
      convertBinsecToml bareSurroundings bareConversion (statsOf ["0x401136", "0x401200"])
        oneOfTwoLog = .error (.typeError "non_ct_time must be a float".toList) ∧
      ¬Converts bareSurroundings bareConversion .empty oneOfTwoLog
        (statsOf ["0x401136", "0x401200"]) [0x401136, 0x401200] := by
  have hdoc : parseBinsecToml 100000 (statsOf ["0x401136", "0x401200"]) =
      .ok ([0x401136, 0x401200], .empty) := rfl
  have hleaks : parseOutputLog id oneOfTwoLog =
      .ok (.set .empty 0x401136 { leakType := .controlFlow, seconds := 1 / 2 }) := by
    decide +kernel
  have hconvert : convertBinsecToml bareSurroundings bareConversion
      (statsOf ["0x401136", "0x401200"]) oneOfTwoLog =
      .error (.typeError "non_ct_time must be a float".toList) := by
    have hdoc' : parseBinsecToml bareSurroundings.limit (statsOf ["0x401136", "0x401200"]) =
        .ok ([0x401136, 0x401200], .empty) := hdoc
    have hleaks' : parseOutputLog bareSurroundings.round oneOfTwoLog =
        .ok (.set .empty 0x401136 { leakType := .controlFlow, seconds := 1 / 2 }) := hleaks
    rw [convertBinsecToml, hdoc', hleaks']
    rfl
  refine ⟨hdoc, ?_, hconvert, ?_⟩
  · obtain ⟨-, hdict⟩ := (parseOutputLog_ok_iff id).mp hleaks
    rw [← get?_loggedLeaks, ← hdict]
    exact Dict.get?_set_self _ _ _
  · rintro ⟨rows, hrows, -⟩
    rw [hconvert] at hrows
    cases hrows

end KleeDeps.Converters
