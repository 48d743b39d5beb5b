import KleeDeps.Converters.SpecSizes
import KleeDeps.Experiments.LayoutSizes
import KleeDeps.Replay.Verdict

/-!
# Replay executables of the ABACUS validation

`validate_abacus.py` replays the rows of a results directory with the replay executable of
each benchmark. The executable is one file for all sizes: it stays in the artifacts
directory from call to call, and the builder runs only when it is missing. The loader in
the executable takes as many bytes of each file as its buffer has.

- `Artifacts`: the state, one executable at each path;
- `ensureReplayExecutable`: the lookup, or the build;
- `validateResultsDir`, `validateAll`: one call, and a run of calls, with every row that
  was replayed;
- `replayed_with_own_size`: **in a run whose calls all find and build executables of the
  sizes of their rows, every row is replayed with the executable of its own size, and every
  file is loaded completely**.
-/

namespace KleeDeps.Validation

open Py Runner Shared Experiments Converters Replay

/-- What the program finds around it: the registry, the runner configs, the digit limit,
and Python's own `repr`, `str.format`, truth of floats and digits that are no decimals. -/
structure Host where
  root : Text
  definitions : List BenchmarkDefinition
  files : Text → List (Text × Value)
  limit : Nat
  repr : Value → Text
  format : Text → Int → Except Exc Text
  floatTruth : Text → Bool
  otherDigit : Char → Bool
  readLines : Text → Option (List Text)

section Model

variable (host : Host)

/-! ## Sizes -/

/-- `text.isdigit()`. -/
def isDigitText (text : Text) : Bool :=
  !text.isEmpty && text.all fun c => (decimal? c).isSome || host.otherDigit c

/-- The loop of `_infer_config_sym_size`; `seen` are the sizes so far. -/
def layoutSymSize (location : Text) : List Int → List Text → Except Exc (Option Int)
  | [size], [] => .ok (some size)
  | _, [] => .ok none
  | seen, raw :: rest =>
    match (strip raw).splitOn ':' with
    | name :: size :: _ =>
      if name = [] ∨ size = [] then
        .error (.exit (location ++ ".secret_layout has invalid entry ".toList ++
          host.repr (.str raw)))
      else if size = "\x7bsym_size\x7d".toList then .ok none
      else if isDigitText host size = false then
        .error (.exit (location ++ ".secret_layout entry ".toList ++ host.repr (.str raw) ++
          " has non-numeric size".toList))
      else match int10 host.limit size with
        | .error e => .error e.exc
        | .ok n => layoutSymSize location (if n ∈ seen then seen else seen ++ [n]) rest
    | _ =>
      .error (.exit (location ++ ".secret_layout has invalid entry ".toList ++
        host.repr (.str raw)))

/-- `_infer_config_sym_size`. -/
def inferConfigSymSize (d : BenchmarkDefinition) : Except Exc (Option Int) :=
  match Value.field d.extraConfig "secret_layout".toList with
  | .null => .ok none
  | _ => do
    let layout ← expectString d.extraConfig "secret_layout".toList d.configLocation
    layoutSymSize host d.configLocation [] (layout.splitOn ',')

/-- `text.removeprefix(start)`. -/
def removeStart (start text : Text) : Text :=
  if start.isPrefixOf text then text.drop start.length else text

/-- `_infer_sym_size`. -/
def inferSymSize (resultsDir : Text) (symSizeOverride : Option Int) : Except Exc (Option Int) :=
  match symSizeOverride with
  | some size => .ok (some size)
  | none =>
    let suffix := removeStart "abacus_".toList (basename resultsDir)
    if isDigitText host suffix then
      match int10 host.limit suffix with
      | .error e => .error e.exc
      | .ok size => .ok (some size)
    else .ok none

/-! ## Cases -/

/-- `AbacusValidationCase`. The builder finds `definition` by the selector. -/
structure ValidationCase where
  outputStem : Text
  replayExecutable : Text
  definition : BenchmarkDefinition
  buildPreset : Text
  configSymSize : Option Int

/-- The replay executable of a public mode. -/
def replayPath (d : BenchmarkDefinition) (artifactConfig : Text) : Text :=
  d.codePath ++ "/artifacts/klee/".toList ++ d.targetId ++ '/' :: (artifactConfig ++
    "_replay".toList)

/-- `canonical_case_id`. -/
def canonicalCaseId (libraryId targetId configId : Text) : Text :=
  join ['_'] [libraryId ++ '_' :: targetId, configId]

/-- The loop over the expanded cases of a definition. -/
def indexCases (d : BenchmarkDefinition) (buildPreset : Text) :
    List ValidationCase → List ExpandedCase → Except Exc (List ValidationCase)
  | seen, [] => .ok seen
  | seen, expanded :: rest =>
    let outputStem := canonicalCaseId d.libraryId d.targetId expanded.configId
    if outputStem ∈ seen.map ValidationCase.outputStem then
      .error (.valueError ("duplicate ABACUS validation case id: ".toList ++ outputStem))
    else do
      let configSymSize ← inferConfigSymSize host d
      indexCases d buildPreset (seen ++
        [{ outputStem := outputStem
           replayExecutable := replayPath d expanded.artifactConfig
           definition := d
           buildPreset := buildPreset
           configSymSize := configSymSize }]) rest

/-- The loop over the benchmarks. -/
def indexDefinitions :
    List ValidationCase → List BenchmarkDefinition → Except Exc (List ValidationCase)
  | seen, [] => .ok seen
  | seen, d :: rest => do
    let buildPreset ← buildForTool host.repr d "klee_cf".toList
    let cases ← expandBenchmarkCases host.floatTruth d.toDefinition "abacus".toList
    let seen ← indexCases host d buildPreset seen cases
    indexDefinitions seen rest

/-- `_build_case_index`, over `selected_benchmarks("abacus", None)`. -/
def buildCaseIndex : Except Exc (List ValidationCase) :=
  let selected := host.definitions.filter ("abacus".toList ∈ ·.tools)
  if selected = [] then
    .error (.valueError ("unknown tool ".toList ++ host.repr (.str "abacus".toList) ++
      "; expected one of ".toList ++
      join ", ".toList (sortTexts (host.definitions.flatMap (·.tools)).dedup)))
  else indexDefinitions host [] selected

/-- `case_index[output_stem]`. -/
def findCase (index : List ValidationCase) (stem : Text) : Option ValidationCase :=
  index.find? (·.outputStem = stem)

/-! ## Executables -/

/-- A replay executable: the preset it was built with, and the sizes of the buffers it
loads, in the order of its arguments. -/
structure Executable where
  preset : Text
  buffers : List Nat
  deriving DecidableEq, Repr

/-- `load_bytes`: a file that is too short is an error, of a longer one the rest is not
read. -/
def loadBytes (file : List UInt8) (size : Nat) : Option (List UInt8) :=
  if (file.take size).length ≠ size then none else some (file.take size)

/-- `main` of a replay executable up to the benchmark: the assertion on `argc`, then the
buffers. -/
def Executable.load (exe : Executable) (args : List (List UInt8)) :
    Option (List (List UInt8)) :=
  if args.length ≠ exe.buffers.length then none
  else (args.zip exe.buffers).mapM fun arg => loadBytes arg.1 arg.2

/-- The executable that is compiled with a header. -/
def executableOf (header : Resolved) (concretePubs : Bool) : Executable where
  preset := header.presetName
  buffers := (header.inputs.replayBuffers concretePubs).map (sizeofInput header.macros)

/-- The executables in the artifacts directory; `none` where there is no executable file. -/
abbrev Artifacts := Text → Option Executable

/-- The last two of the six commands of a KLEE build write the replay executables.
`commands` of the commands succeed. -/
def writeReplays (d : BenchmarkDefinition) (header : Resolved) (commands : Nat)
    (artifacts : Artifacts) : Artifacts := fun path =>
  if path = replayPath d "fix_pub".toList ∧ 6 ≤ commands then some (executableOf header true)
  else if path = replayPath d "var_pub".toList ∧ 5 ≤ commands then
    some (executableOf header false)
  else artifacts path

/-- The preset the builder is called with. -/
def replayPreset (case : ValidationCase) (symSize : Option Int) : Except Exc Text :=
  resolvePresetName host.repr host.format case.buildPreset
    (symSize.or case.configSymSize)
    ("ABACUS replay build preset for ".toList ++ case.outputStem)

/-- The header of a build. -/
def replayHeader (case : ValidationCase) (symSize : Option Int) : Except Exc Resolved := do
  let preset ← replayPreset host case symSize
  let generated ← generateRunnerArtifacts host.repr host.files case.definition preset
  return generated.2

/-- What a complete build for a size leaves at a path. -/
def builtFor (case : ValidationCase) (symSize : Option Int) (path : Text) : Option Executable :=
  match replayHeader host case symSize with
  | .error _ => none
  | .ok header => writeReplays case.definition header 6 (fun _ => none) path

/-- `_ensure_replay_executable`, with the artifacts afterwards. -/
def ensureReplayExecutable (case : ValidationCase) (symSize : Option Int) (commands : Nat)
    (artifacts : Artifacts) : Except Exc Executable × Artifacts :=
  match artifacts case.replayExecutable with
  | some exe => (.ok exe, artifacts)
  | none =>
    match replayPreset host case symSize with
    | .error e => (.error e, artifacts)
    | .ok preset =>
      let failed : Exc := .exit ("failed building replay executable for ".toList ++
        case.outputStem)
      match generateRunnerArtifacts host.repr host.files case.definition preset with
      | .error _ => (.error failed, artifacts)
      | .ok generated =>
        let after := writeReplays case.definition generated.2 commands artifacts
        if commands < 6 then (.error failed, after)
        else match after case.replayExecutable with
          | some exe => (.ok exe, after)
          | none => (.error (.exit ("Missing replay executable after build attempt: ".toList ++
              host.root ++ '/' :: case.replayExecutable)), after)

/-! ## Rows -/

/-- A row of a result: its counterexample (empty where the cell is no object), the cells
that are compared with the replay, and how the two Pin runs of a replay end. -/
structure ResultRow where
  counterexamples : Dict Text Int
  frame : FrameRow
  outcome : ReplayOutcome

/-- A JSON file of a results directory. `commands` is how many commands of a build would
succeed, `size` the symbol size the counterexamples were produced for. -/
structure ResultsJson where
  stem : Text
  notes : List (Text × Value)
  rows : List ResultRow
  commands : Nat
  size : Option Int

/-- `_count_replayable_rows`. -/
def countReplayableRows (json : ResultsJson) : Nat :=
  json.rows.countP fun row => row.counterexamples.keys.any fun key =>
    "__prime".toList.isSuffixOf key || "_prime".toList.isSuffixOf key

/-- A row that was replayed: for which case and size, with which executable and which
files. -/
structure Replayed where
  case : ValidationCase
  size : Option Int
  executable : Executable
  inputs : InputBytes

/-- The body of the loop in `mode_abacus_json`; `none` is a row without a counterexample or
with an unknown kind, an error is the `return 2`. -/
def replayRow (case : ValidationCase) (json : ResultsJson) (symSize : Int) (exe : Executable)
    (row : ResultRow) : Except Exc (Option Replayed) :=
  match buildAbacusSpecs host.limit row.counterexamples json.notes symSize with
  | .error e => .error e
  | .ok none => .ok none
  | .ok (some _) =>
    if row.frame.kind ≠ none ∧ row.frame.resultKind = none then .ok none
    else match rowInputs host.limit row.counterexamples json.notes symSize with
      | .error e => .error e
      | .ok none => .ok none
      | .ok (some inputs) =>
        match abacusRow host.readLines row.frame row.outcome with
        | none => .error (.exit "unexpected rc=2".toList)
        | some _ =>
          .ok (some { case := case, size := json.size, executable := exe, inputs := inputs })

/-- `mode_abacus_json`: the rows that were replayed, and the return code. -/
def modeAbacusJson (case : ValidationCase) (json : ResultsJson) (symSize : Int)
    (exe : Executable) : List ResultRow → List Replayed × Int
  | [] => ([], 0)
  | row :: rest =>
    match replayRow host case json symSize exe row with
    | .error _ => ([], 2)
    | .ok none => modeAbacusJson case json symSize exe rest
    | .ok (some replayed) =>
      let result := modeAbacusJson case json symSize exe rest
      (replayed :: result.1, result.2)

/-! ## Calls -/

/-- How a call ends: the artifacts, the rows that were replayed, and the return code or the
error. -/
structure CallResult where
  artifacts : Artifacts
  replayed : List Replayed
  result : Except Exc Int

/-- The loop of `validate_results_dir` over the files, in sorted order. -/
def validateJsons (index : List ValidationCase) (symSize : Option Int) :
    Artifacts → List ResultsJson → CallResult
  | artifacts, [] => { artifacts := artifacts, replayed := [], result := .ok 0 }
  | artifacts, json :: rest =>
    match findCase index json.stem with
    | none =>
      { artifacts := artifacts, replayed := []
        result := .error (.exit ("unknown ABACUS JSON output ".toList ++
          host.repr (.str (json.stem ++ ".json".toList)) ++
          "; no registry-backed case matches this stem".toList)) }
    | some case =>
      if countReplayableRows json = 0 then validateJsons index symSize artifacts rest
      else
        let effective := ((symSize.or case.configSymSize).getD 0)
        let ensured := ensureReplayExecutable host case symSize json.commands artifacts
        match ensured.1 with
        | .error e => { artifacts := ensured.2, replayed := [], result := .error e }
        | .ok exe =>
          let replay := modeAbacusJson host case json effective exe json.rows
          if replay.2 ≠ 0 then
            { artifacts := ensured.2, replayed := replay.1, result := .ok replay.2 }
          else
            let others := validateJsons index symSize ensured.2 rest
            { others with replayed := replay.1 ++ others.replayed }

/-- A call of `validate_results_dir` on an existing directory. -/
structure Call where
  resultsDir : Text
  symSizeOverride : Option Int
  jsons : List ResultsJson

/-- `validate_results_dir`. -/
def validateResultsDir (artifacts : Artifacts) (call : Call) : CallResult :=
  let stop (e : Exc) : CallResult :=
    { artifacts := artifacts, replayed := [], result := .error e }
  match buildCaseIndex host with
  | .error e => stop e
  | .ok index =>
    match inferSymSize host call.resultsDir call.symSizeOverride with
    | .error e => stop e
    | .ok symSize =>
      if call.jsons.isEmpty then
        stop (.exit ("No JSON files found in ".toList ++ call.resultsDir))
      else validateJsons host index symSize artifacts call.jsons

/-- A run of calls: every row that was replayed. -/
def validateAll : Artifacts → List Call → List Replayed
  | _, [] => []
  | artifacts, call :: rest =>
    let result := validateResultsDir host artifacts call
    result.replayed ++ validateAll result.artifacts rest

/-! ## The property and its condition -/

/-- The files of one run, in the order of the arguments. Secrets and public inputs are
written into one directory, so a public input replaces a secret of its name. -/
def argFiles (secrets publics : Dict Text (List UInt8)) : List (List UInt8) :=
  let directory := (Dict.empty.setAll secrets.items).setAll publics.items
  (secrets.keys ++ publics.keys).map fun name => (directory.get? name).getD []

/-- The row was replayed with the executable of its own size, and both runs had every file
in its buffer, complete. -/
structure Replayed.Own (e : Replayed) : Prop where
  built : builtFor host e.case e.size e.case.replayExecutable = some e.executable
  orig : e.executable.load (argFiles e.inputs.secretOrig e.inputs.publicValues) =
    some (argFiles e.inputs.secretOrig e.inputs.publicValues)
  prime : e.executable.load (argFiles e.inputs.secretPrime e.inputs.publicValues) =
    some (argFiles e.inputs.secretPrime e.inputs.publicValues)

/-- The call replays rows of this file, for this case. -/
def Handles (index : List ValidationCase) (json : ResultsJson) (case : ValidationCase) : Prop :=
  findCase index json.stem = some case ∧ countReplayableRows json ≠ 0

/-- The inputs recorded for a row have plain, distinct names and the sizes of the buffers. -/
def Recorded (json : ResultsJson) (symSize : Int) (row : ResultRow) (exe : Executable) : Prop :=
  let entries := secretEntries json.notes symSize ++
    publicEntries row.counterexamples json.notes symSize
  PlainNames entries ∧ entries.map Prod.snd = exe.buffers.map Int.ofNat

/-- The condition on a call, before it starts. For every file with replayable rows:

- an executable that stands at its path is the one of the size of its rows;
- so is an executable that a build with the size of the call writes there;
- what is recorded for its counterexamples has the sizes of the buffers of that
  executable. -/
structure Meets (index : List ValidationCase) (symSize : Option Int) (artifacts : Artifacts)
    (jsons : List ResultsJson) : Prop where
  standing : ∀ json ∈ jsons, ∀ case, Handles index json case →
    ∀ exe, artifacts case.replayExecutable = some exe →
      builtFor host case json.size case.replayExecutable = some exe
  building : ∀ json ∈ jsons, ∀ case, Handles index json case →
    ∀ json' ∈ jsons, ∀ case', Handles index json' case' →
      ∀ exe, builtFor host case' symSize case.replayExecutable = some exe →
        builtFor host case json.size case.replayExecutable = some exe
  recorded : ∀ json ∈ jsons, ∀ case, Handles index json case →
    ∀ exe, builtFor host case json.size case.replayExecutable = some exe →
      ∀ row ∈ json.rows, ∀ specs,
        buildAbacusSpecs host.limit row.counterexamples json.notes
          ((symSize.or case.configSymSize).getD 0) = .ok (some specs) →
        Recorded json ((symSize.or case.configSymSize).getD 0) row exe

/-- The condition on a call, with the cases and the size it infers. -/
def CallMeets (artifacts : Artifacts) (call : Call) : Prop :=
  ∀ index symSize, buildCaseIndex host = .ok index →
    inferSymSize host call.resultsDir call.symSizeOverride = .ok symSize →
      Meets host index symSize artifacts call.jsons

/-- Every call of a run meets the condition in the artifacts it finds. -/
def AllMeet : Artifacts → List Call → Prop
  | _, [] => True
  | artifacts, call :: rest =>
    CallMeets host artifacts call ∧ AllMeet (validateResultsDir host artifacts call).artifacts rest

end Model

/-! ## Loading -/

theorem loadBytes_self (file : List UInt8) : loadBytes file file.length = some file := by
  rw [loadBytes, List.take_length, if_neg (by simp)]

theorem mapM_loadBytes (args : List (List UInt8)) :
    (args.zip (args.map List.length)).mapM (fun arg => loadBytes arg.1 arg.2) = some args := by
  induction args with
  | nil => rfl
  | cons file args ih =>
    rw [List.map_cons, List.zip_cons_cons, List.mapM_cons]
    dsimp only
    rw [loadBytes_self, ih]
    rfl

/-- Files of the sizes of the buffers are loaded completely. -/
theorem Executable.load_of_sizes {exe : Executable} {args : List (List UInt8)}
    (h : args.map List.length = exe.buffers) : exe.load args = some args := by
  rw [Executable.load, ← h, List.length_map, if_neg (by simp)]
  exact mapM_loadBytes args

/-- Under distinct names every file has its own content. -/
theorem argFiles_eq {secrets publics : Dict Text (List UInt8)}
    (h : (secrets.keys ++ publics.keys).Nodup) :
    argFiles secrets publics = (secrets.items ++ publics.items).map Prod.snd := by
  have hmap : (secrets.items ++ publics.items).map Prod.fst = secrets.keys ++ publics.keys :=
    List.map_append
  unfold argFiles
  dsimp only
  rw [← Dict.setAll_append, ← hmap, List.map_map]
  refine List.map_congr_left fun file hfile => ?_
  have hitems : (Dict.empty.setAll (secrets.items ++ publics.items)).items =
      secrets.items ++ publics.items := Dict.items_setAll_empty (by rw [hmap]; exact h)
  have hget : (Dict.empty.setAll (secrets.items ++ publics.items)).get? file.1 = some file.2 :=
    Dict.get?_of_mem _ (by rw [hitems]; exact hfile)
  show (Dict.get? _ file.1).getD [] = file.2
  rw [hget]
  rfl

theorem lengths_argFiles {secrets publics : Dict Text (List UInt8)}
    {entries entries' : List (Text × Int)} {buffers : List Nat}
    (hsecrets : fileSizes secrets = entries) (hpublics : fileSizes publics = entries')
    (hnames : PlainNames (entries ++ entries'))
    (hsizes : (entries ++ entries').map Prod.snd = buffers.map Int.ofNat) :
    (argFiles secrets publics).map List.length = buffers := by
  subst hsecrets hpublics
  have hnodup : (secrets.keys ++ publics.keys).Nodup := by
    have hkeys := hnames.nodup
    rw [List.map_append, fileSizes, fileSizes, List.map_map, List.map_map] at hkeys
    exact hkeys
  rw [argFiles_eq hnodup]
  have hinj : Function.Injective (List.map Int.ofNat) :=
    List.map_injective_iff.mpr fun _ _ => Int.ofNat.inj
  apply hinj
  rw [← hsizes, fileSizes, fileSizes, ← List.map_append, List.map_map, List.map_map, List.map_map]
  rfl

section Runs

variable {host : Host}

/-! ## Rows -/

theorem replayRow_spec {case : ValidationCase} {json : ResultsJson} {symSize : Int}
    {exe : Executable} {row : ResultRow} {e : Replayed}
    (h : replayRow host case json symSize exe row = .ok (some e)) :
    (∃ specs, buildAbacusSpecs host.limit row.counterexamples json.notes symSize =
      .ok (some specs)) ∧
    ∃ inputs, rowInputs host.limit row.counterexamples json.notes symSize = .ok (some inputs) ∧
      e = { case := case, size := json.size, executable := exe, inputs := inputs } := by
  unfold replayRow at h
  cases hspecs : buildAbacusSpecs host.limit row.counterexamples json.notes symSize with
  | error err =>
    rw [hspecs] at h
    cases h
  | ok specs =>
    cases specs with
    | none =>
      rw [hspecs] at h
      cases h
    | some specs =>
      rw [hspecs] at h
      dsimp only at h
      refine ⟨⟨specs, rfl⟩, ?_⟩
      -- a row whose kind is none of the known ones is skipped
      by_cases hkind : row.frame.kind ≠ none ∧ row.frame.resultKind = none
      · rw [if_pos hkind] at h
        cases h
      · rw [if_neg hkind] at h
        cases hinputs : rowInputs host.limit row.counterexamples json.notes symSize with
        | error err =>
          rw [hinputs] at h
          cases h
        | ok inputs =>
          cases inputs with
          | none =>
            rw [hinputs] at h
            cases h
          | some inputs =>
            rw [hinputs] at h
            dsimp only at h
            refine ⟨inputs, rfl, ?_⟩
            cases hrow : abacusRow host.readLines row.frame row.outcome with
            | none =>
              rw [hrow] at h
              cases h
            | some update =>
              rw [hrow] at h
              exact (Option.some.inj (Except.ok.inj h)).symm

/-- Every row that was replayed is a row of the file. -/
theorem exists_row_of_mem {case : ValidationCase} {json : ResultsJson} {symSize : Int}
    {exe : Executable} {rows : List ResultRow} {e : Replayed}
    (h : e ∈ (modeAbacusJson host case json symSize exe rows).1) :
    ∃ row ∈ rows, replayRow host case json symSize exe row = .ok (some e) := by
  induction rows with
  | nil => cases h
  | cons row rest ih =>
    unfold modeAbacusJson at h
    cases hrow : replayRow host case json symSize exe row with
    | error err =>
      rw [hrow] at h
      cases h
    | ok replayed =>
      rw [hrow] at h
      cases replayed with
      | none =>
        obtain ⟨row', hmem, hrow'⟩ := ih h
        exact ⟨row', List.mem_cons_of_mem _ hmem, hrow'⟩
      | some e' =>
        rcases List.mem_cons.mp h with rfl | h
        · exact ⟨row, by simp, hrow⟩
        · obtain ⟨row', hmem, hrow'⟩ := ih h
          exact ⟨row', List.mem_cons_of_mem _ hmem, hrow'⟩

/-- A row with recorded sizes that is replayed with the executable of its own size. -/
theorem own_of_row {case : ValidationCase} {json : ResultsJson} {symSize : Int}
    {exe : Executable} {row : ResultRow} {e : Replayed}
    (hexe : builtFor host case json.size case.replayExecutable = some exe)
    (hrecorded : ∀ specs, buildAbacusSpecs host.limit row.counterexamples json.notes symSize =
      .ok (some specs) → Recorded json symSize row exe)
    (h : replayRow host case json symSize exe row = .ok (some e)) : e.Own host := by
  obtain ⟨⟨specs, hspecs⟩, inputs, hinputs, rfl⟩ := replayRow_spec h
  obtain ⟨hnames, hsizes⟩ := hrecorded specs hspecs
  have hsecrets : PlainNames (secretEntries json.notes symSize) := by
    refine ⟨fun entry he => hnames.plain entry (List.mem_append_left _ he), ?_⟩
    have hnodup := hnames.nodup
    rw [List.map_append] at hnodup
    exact hnodup.of_append_left
  have hpublics : PlainNames (publicEntries row.counterexamples json.notes symSize) := by
    refine ⟨fun entry he => hnames.plain entry (List.mem_append_right _ he), ?_⟩
    have hnodup := hnames.nodup
    rw [List.map_append] at hnodup
    exact hnodup.of_append_right
  obtain ⟨horig, hprime, hpub⟩ := rowInputs_sizes hinputs hsecrets hpublics
  exact
    { built := hexe
      orig := Executable.load_of_sizes (lengths_argFiles horig hpub hnames hsizes)
      prime := Executable.load_of_sizes (lengths_argFiles hprime hpub hnames hsizes) }

/-! ## The artifacts -/

theorem replayPath_ne (d : BenchmarkDefinition) :
    replayPath d "var_pub".toList ≠ replayPath d "fix_pub".toList := by
  intro h
  unfold replayPath at h
  have hsame := List.append_cancel_left h
  exact absurd hsame (by decide)

/-- What a build leaves at a path was there before, or a complete build writes it. -/
theorem writeReplays_cases {d : BenchmarkDefinition} {header : Resolved} {commands : Nat}
    {artifacts : Artifacts} {path : Text} {exe : Executable}
    (h : writeReplays d header commands artifacts path = some exe) :
    artifacts path = some exe ∨ writeReplays d header 6 (fun _ => none) path = some exe := by
  unfold writeReplays at h ⊢
  by_cases hfix : path = replayPath d "fix_pub".toList ∧ 6 ≤ commands
  · rw [if_pos hfix] at h
    right
    rw [if_pos ⟨hfix.1, le_refl 6⟩]
    exact h
  · rw [if_neg hfix] at h
    by_cases hvar : path = replayPath d "var_pub".toList ∧ 5 ≤ commands
    · rw [if_pos hvar] at h
      right
      have hne : ¬ (path = replayPath d "fix_pub".toList ∧ 6 ≤ 6) := by
        rintro ⟨hpath, -⟩
        exact replayPath_ne d (hvar.1.symm.trans hpath)
      rw [if_neg hne, if_pos ⟨hvar.1, by omega⟩]
      exact h
    · rw [if_neg hvar] at h
      exact Or.inl h

/-- **Step lemma**: an executable in the artifacts after the lookup was there before, or is
the one of a build with the size of the call; the executable that is returned stands at the
path of the case. -/
theorem ensureReplayExecutable_spec (case : ValidationCase) (symSize : Option Int)
    (commands : Nat) (artifacts : Artifacts) :
    (∀ path exe, (ensureReplayExecutable host case symSize commands artifacts).2 path = some exe →
      artifacts path = some exe ∨ builtFor host case symSize path = some exe) ∧
    ∀ exe, (ensureReplayExecutable host case symSize commands artifacts).1 = .ok exe →
      (ensureReplayExecutable host case symSize commands artifacts).2 case.replayExecutable =
        some exe := by
  unfold ensureReplayExecutable
  -- an executable that stands is used as it is, whatever it was built for
  cases hstanding : artifacts case.replayExecutable with
  | some standing =>
    refine ⟨fun path exe h => Or.inl h, fun exe h => ?_⟩
    rw [← Except.ok.inj h]
    exact hstanding
  | none =>
    dsimp only
    cases hpreset : replayPreset host case symSize with
    | error e => exact ⟨fun path exe h => Or.inl h, fun exe h => by cases h⟩
    | ok preset =>
      dsimp only
      cases hgen : generateRunnerArtifacts host.repr host.files case.definition preset with
      | error e => exact ⟨fun path exe h => Or.inl h, fun exe h => by cases h⟩
      | ok generated =>
        dsimp only
        have hheader : replayHeader host case symSize = .ok generated.2 := by
          unfold replayHeader
          rw [hpreset]
          show (generateRunnerArtifacts _ _ _ preset).bind _ = _
          rw [hgen]
          rfl
        have hwritten : ∀ path exe,
            writeReplays case.definition generated.2 commands artifacts path = some exe →
              artifacts path = some exe ∨ builtFor host case symSize path = some exe := by
          intro path exe h
          rcases writeReplays_cases h with h | h
          · exact Or.inl h
          · right
            unfold builtFor
            rw [hheader]
            exact h
        -- a command failed: what the ones before it wrote stays
        by_cases hcommands : commands < 6
        · rw [if_pos hcommands]
          exact ⟨hwritten, fun exe h => by cases h⟩
        · rw [if_neg hcommands]
          cases hafter : writeReplays case.definition generated.2 commands artifacts
              case.replayExecutable with
          | none => exact ⟨hwritten, fun exe h => by cases h⟩
          | some exe =>
            refine ⟨hwritten, fun exe' h => ?_⟩
            rw [← Except.ok.inj h]
            exact hafter

/-! ## Calls -/

/-- The condition survives the step for one file. -/
theorem Meets.ensure {index : List ValidationCase} {symSize : Option Int} {artifacts : Artifacts}
    {jsons : List ResultsJson} {json : ResultsJson} {case : ValidationCase}
    (h : Meets host index symSize artifacts jsons) (hjson : json ∈ jsons)
    (hcase : Handles index json case) :
    Meets host index symSize
      (ensureReplayExecutable host case symSize json.commands artifacts).2 jsons where
  standing := by
    intro json' hjson' case' hcase' exe hexe
    rcases (ensureReplayExecutable_spec case symSize json.commands artifacts).1 _ _ hexe with
      hbefore | hbuilt
    · exact h.standing json' hjson' case' hcase' exe hbefore
    · exact h.building json' hjson' case' hcase' json hjson case hcase exe hbuilt
  building := h.building
  recorded := h.recorded

/-- **Within a call**: every row is replayed with the executable of its own size. The
induction is on the files still to come; the condition is kept for all files of the
call. -/
theorem own_of_validateJsons {index : List ValidationCase} {symSize : Option Int}
    {jsons : List ResultsJson} :
    ∀ (rest : List ResultsJson) (artifacts : Artifacts), (∀ json ∈ rest, json ∈ jsons) →
      Meets host index symSize artifacts jsons →
        ∀ e ∈ (validateJsons host index symSize artifacts rest).replayed, e.Own host := by
  intro rest
  induction rest with
  | nil =>
    intro artifacts _ _ e he
    cases he
  | cons json rest ih =>
    intro artifacts hsub hmeets e he
    have hrest : ∀ json' ∈ rest, json' ∈ jsons := fun json' h =>
      hsub json' (List.mem_cons_of_mem _ h)
    unfold validateJsons at he
    cases hfind : findCase index json.stem with
    | none =>
      rw [hfind] at he
      cases he
    | some case =>
      rw [hfind] at he
      dsimp only at he
      by_cases hcount : countReplayableRows json = 0
      · rw [if_pos hcount] at he
        exact ih artifacts hrest hmeets e he
      · rw [if_neg hcount] at he
        have hhandles : Handles index json case := ⟨hfind, hcount⟩
        have hjson : json ∈ jsons := hsub json (by simp)
        -- the executables on disk still meet every results file after this one is ensured
        have hafter := hmeets.ensure hjson hhandles
        obtain ⟨-, hstands⟩ :=
          @ensureReplayExecutable_spec host case symSize json.commands artifacts
        cases hensure : (ensureReplayExecutable host case symSize json.commands artifacts).1 with
        | error err =>
          rw [hensure] at he
          cases he
        | ok exe =>
          rw [hensure] at he
          dsimp only at he
          have hexe := hafter.standing json hjson case hhandles exe (hstands exe hensure)
          have hrows : ∀ e' ∈ (modeAbacusJson host case json
              ((symSize.or case.configSymSize).getD 0) exe json.rows).1, e'.Own host := by
            intro e' he'
            obtain ⟨row, hrow, hreplay⟩ := exists_row_of_mem he'
            exact own_of_row hexe (hmeets.recorded json hjson case hhandles exe hexe row hrow)
              hreplay
          -- a row that raises ends the run, so the rest is reached only behind clean rows
          split at he
          · exact hrows e he
          · rcases List.mem_append.mp he with he | he
            · exact hrows e he
            · exact ih _ hrest hafter e he

theorem own_of_validateResultsDir {artifacts : Artifacts} {call : Call}
    (h : CallMeets host artifacts call) :
    ∀ e ∈ (validateResultsDir host artifacts call).replayed, e.Own host := by
  intro e he
  unfold validateResultsDir at he
  cases hindex : buildCaseIndex host with
  | error err =>
    rw [hindex] at he
    cases he
  | ok index =>
    rw [hindex] at he
    dsimp only at he
    cases hsize : inferSymSize host call.resultsDir call.symSizeOverride with
    | error err =>
      rw [hsize] at he
      cases he
    | ok symSize =>
      rw [hsize] at he
      dsimp only at he
      split at he
      · cases he
      · exact own_of_validateJsons call.jsons artifacts (fun _ h => h)
          (h index symSize hindex hsize) e he

end Runs

/-- **Every row is replayed with the executable of its own size**, from any state of the
artifacts directory and in any sequence of calls, if every call meets the condition in the
artifacts it finds. -/
theorem replayed_with_own_size (host : Host) (calls : List Call) (artifacts : Artifacts)
    (h : AllMeet host artifacts calls) : ∀ e ∈ validateAll host artifacts calls, e.Own host := by
  induction calls generalizing artifacts with
  | nil =>
    intro e he
    cases he
  | cons call rest ih =>
    obtain ⟨hcall, hrest⟩ := h
    intro e he
    rcases List.mem_append.mp he with he | he
    · exact own_of_validateResultsDir hcall e he
    · exact ih _ hrest e he

/-- A benchmark whose build preset depends on the symbol size. -/
def sizedBenchmark : BenchmarkDefinition :=
  { libraryId := "lib".toList, targetId := "aes".toList, configLocation := "lib.toml".toList
    tools := ["klee_cf".toList, "abacus".toList]
    extraConfig :=
      [("build".toList, .dict [("preset".toList, .str "size_\x7bsym_size\x7d".toList)]),
       ("runner_profile".toList, .str "main".toList),
       ("configs".toList, .list [.dict [("config".toList, .str "fix".toList),
         ("public_mode".toList, .str "fix_pub".toList)]])]
    codePath := "lib".toList
    runnerProfiles := [("main".toList,
      { config := "aes.toml".toList, preset := "size_\x7bsym_size\x7d".toList })] }

/-- One preset of `sizedConfig`. -/
def sizedPreset (n : Int) : Text × Value :=
  ("size_".toList ++ intText n, .dict [("macros".toList, .dict [("N".toList, .int n)]),
    ("abacus_secrets".toList, .dict [("a".toList, .int 1)])])

/-- A runner config with one secret of four or of eight bytes. -/
def sizedConfig : List (Text × Value) :=
  [("inputs".toList, .list
      [.dict [("id".toList, .str "a".toList), ("name".toList, .str "key".toList),
        ("kind".toList, .str "secret".toList), ("size".toList, .str "N".toList)]]),
   ("mode_policy".toList, .dict
      [("var_pub".toList, .dict [("public_symbolic".toList, .bool true)]),
       ("fix_pub".toList, .dict [("public_symbolic".toList, .bool false)]),
       ("abacus".toList, .dict [("public_fixed".toList, .bool true),
         ("secret_inputs".toList, .list [.str "a".toList])])]),
   ("presets".toList, .dict [sizedPreset 4, sizedPreset 8])]

/-- A host with this benchmark. -/
def sizedHost : Host where
  root := "/repo".toList
  definitions := [sizedBenchmark]
  files := fun _ => sizedConfig
  limit := 4300
  repr := fun _ => []
  format := formatSize
  floatTruth := fun _ => false
  otherDigit := fun _ => false
  readLines := fun _ => none

/-- The case of the benchmark. -/
def sizedCase : ValidationCase where
  outputStem := "lib_aes_fix".toList
  replayExecutable := "lib/artifacts/klee/aes/fix_pub_replay".toList
  definition := sizedBenchmark
  buildPreset := "size_\x7bsym_size\x7d".toList
  configSymSize := none

/-- A result with one counterexample: the key is 1 or 2, in `n` bytes. -/
def sizedJson (n : Nat) : ResultsJson where
  stem := "lib_aes_fix".toList
  notes := abacusNotes [{ name := "key".toList, seedBytes := packBytes .big n 1 }]
  rows := [{ counterexamples := .set (.set .empty "key".toList 1) "key__prime".toList 2
             frame := { filename := none, line := none, column := none, kind := none }
             outcome := .identical }]
  commands := 6
  size := some n

/-- The validation of the directory of a size. -/
def sizedCall (name : Text) (n : Nat) : Call where
  resultsDir := "results/".toList ++ name
  symSizeOverride := none
  jsons := [sizedJson n]

theorem buildCaseIndex_sized : buildCaseIndex sizedHost = .ok [sizedCase] := rfl

theorem builtFor_four : builtFor sizedHost sizedCase (some 4) sizedCase.replayExecutable =
    some { preset := "size_4".toList, buffers := [4] } := rfl

/-- A call for four bytes meets the condition where nothing or the executable for four bytes
stands. -/
theorem callMeets_four {artifacts : Artifacts}
    (h : ∀ exe, artifacts sizedCase.replayExecutable = some exe →
      exe = { preset := "size_4".toList, buffers := [4] }) :
    CallMeets sizedHost artifacts (sizedCall "abacus_4".toList 4) := by
  intro index symSize hindex hsize
  obtain rfl : [sizedCase] = index := Except.ok.inj (buildCaseIndex_sized.symm.trans hindex)
  obtain rfl : some 4 = symSize := Except.ok.inj hsize
  have hcase : ∀ json ∈ [sizedJson 4], ∀ case, Handles [sizedCase] json case →
      json = sizedJson 4 ∧ case = sizedCase := by
    intro json hjson case hhandles
    obtain rfl := List.mem_singleton.mp hjson
    exact ⟨rfl, (Option.some.inj hhandles.1).symm⟩
  constructor
  · intro json hjson case hhandles exe hexe
    obtain ⟨rfl, rfl⟩ := hcase json hjson case hhandles
    rw [h exe hexe]
    exact builtFor_four
  · intro json hjson case hhandles json' hjson' case' hhandles' exe hexe
    obtain ⟨rfl, rfl⟩ := hcase json hjson case hhandles
    obtain ⟨rfl, rfl⟩ := hcase json' hjson' case' hhandles'
    exact hexe
  · intro json hjson case hhandles exe hexe row hrow specs hspecs
    obtain ⟨rfl, rfl⟩ := hcase json hjson case hhandles
    obtain rfl : { preset := "size_4".toList, buffers := [4] } = exe :=
      Option.some.inj (builtFor_four.symm.trans hexe)
    obtain rfl := List.mem_singleton.mp hrow
    refine ⟨⟨?_, List.nodup_singleton _⟩, rfl⟩
    intro entry hentry c hc
    obtain rfl := List.mem_singleton.mp hentry
    have hplain : "key".toList.all isPlain = true := rfl
    exact List.all_eq_true.mp hplain c hc

/-- Two validations of four bytes, the first of which builds: both rows are replayed with
the executable for four bytes. -/
theorem replayed_with_own_size_twice :
    (validateAll sizedHost (fun _ => none)
      [sizedCall "abacus_4".toList 4, sizedCall "abacus_4".toList 4]).length = 2 ∧
    ∀ e ∈ validateAll sizedHost (fun _ => none)
      [sizedCall "abacus_4".toList 4, sizedCall "abacus_4".toList 4], e.Own sizedHost := by
  refine ⟨rfl, replayed_with_own_size sizedHost _ _ ⟨callMeets_four ?_, callMeets_four ?_, trivial⟩⟩
  · intro exe hexe
    cases hexe
  · intro exe hexe
    exact (Option.some.inj hexe).symm

/-- After a validation of four bytes, eight-byte files are replayed with the executable for
four bytes: it stands, so nothing is built. The loader takes the first four bytes of each
file, which are the same in both runs, and the call ends with return code 0. -/
theorem eight_bytes_replayed_in_four :
    (∃ e ∈ validateAll sizedHost (fun _ => none)
        [sizedCall "abacus_4".toList 4, sizedCall "abacus_8".toList 8],
      e.size = some 8 ∧ e.executable = { preset := "size_4".toList, buffers := [4] } ∧
      ¬ e.Own sizedHost ∧
      e.executable.load (argFiles e.inputs.secretOrig e.inputs.publicValues) =
        some [[0, 0, 0, 0]] ∧
      e.executable.load (argFiles e.inputs.secretPrime e.inputs.publicValues) =
        some [[0, 0, 0, 0]]) ∧
    ∀ exe, (validateResultsDir sizedHost (fun _ => some exe)
      (sizedCall "abacus_8".toList 8)).result.toOption = some 0 := by
  refine ⟨⟨_, List.mem_cons_of_mem _ (List.mem_singleton_self _), rfl, rfl, ?_, rfl, rfl⟩, ?_⟩
  · intro hown
    exact absurd hown.built (by decide)
  · intro exe
    rfl

end KleeDeps.Validation
