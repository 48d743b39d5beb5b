import Mathlib.Data.List.Infix
import KleeDeps.Experiments.Cases

/-!
# The benchmark registry

`experiment_registry.py` reads every benchmark descriptor and multiplies the targets of
a library into definitions. Converters and runners come back from a path to the
definition it belongs to by `definition_for_path`, a search for the first definition
whose code path occurs in the path.

- `loadRegistry`: all descriptors, in the order of their file names;
- `definitionForPath`: the search;
- `definitionForPath_iff`: **it finds the right code path iff no code path loaded
  earlier occurs in the path**.
-/

namespace KleeDeps.Shared

open Py Experiments

/-! ## Descriptors -/

/-- `BenchmarkRunnerProfile`. -/
structure RunnerProfile where
  config : Text
  preset : Text
  deriving DecidableEq, Repr

/-- `BenchmarkDefinition`. -/
structure BenchmarkDefinition extends Definition where
  codePath : Text
  runnerProfiles : List (Text × RunnerProfile)

/-- `_expect_string_list`. -/
def expectStringList (table : Table) (key location : Text) : Except Exc (List Text) := do
  let values ← expectArray (Value.field table key) (fieldPath location key)
  if values.isEmpty then
    .error (.valueError (fieldPath location key ++ " must not be empty".toList))
  else
    match nonEmptyStrings values with
    | some strings => return strings
    | none =>
      .error (.valueError (fieldPath location key ++ " must contain only non-empty strings".toList))

/-- One profile of `_parse_runner_profiles`. -/
def parseRunnerProfile (location : Text) (item : Text × Value) :
    Except Exc (Text × RunnerProfile) := do
  let profileLocation := fieldPath (fieldPath location "runner_profiles".toList) item.1
  if item.1 = [] then
    .error (.valueError
      (fieldPath location "runner_profiles contains an empty profile key".toList))
  else
    let table ← expectTable item.2 profileLocation
    let config ← expectString table "config".toList profileLocation
    let preset ← expectString table "preset".toList profileLocation
    return (item.1, { config := config, preset := preset })

/-- `_parse_runner_profiles`. -/
def parseRunnerProfiles (value : Value) (location : Text) :
    Except Exc (List (Text × RunnerProfile)) :=
  match value with
  | .null => .ok []
  | value => do
    let profiles ← expectTable value (fieldPath location "runner_profiles".toList)
    profiles.mapM (parseRunnerProfile location)

/-- `_ParsedTarget`. -/
structure ParsedTarget where
  targetId : Text
  tools : List Text
  overrides : Table

/-- `sorted` on texts: by code points. -/
def sortTexts (texts : List Text) : List Text := texts.mergeSort fun a b => !decide (b < a)

/-- `_parse_target`. -/
def parseTarget (location : Text) (defaultTools : List Text) (item : Text × Value) :
    Except Exc ParsedTarget := do
  let targetLocation := fieldPath (fieldPath location "targets".toList) item.1
  if item.1 = [] then
    .error (.valueError (targetLocation ++ ".targets contains an empty target key".toList))
  else
    let table ← expectTable item.2 targetLocation
    let tools ← match Value.field table "tools".toList with
      | .null => pure defaultTools
      | _ => expectStringList table "tools".toList targetLocation
    let invalid := (tools.filter (· ∉ defaultTools)).dedup
    if invalid ≠ [] then
      .error (.valueError (targetLocation ++ ".tools lists unsupported tools: ".toList ++
        join ", ".toList (sortTexts invalid)))
    else
      return { targetId := item.1, tools := tools
               overrides := table.filter (·.1 ≠ "tools".toList) }

/-- `generic_fields`. -/
def genericFields : List Text :=
  ["library".toList, "code_path".toList, "tools".toList, "runner_profiles".toList,
   "targets".toList]

/-- `dict(table)` with `update(overrides)`, without the generic fields. -/
def mergedExtraConfig (table overrides : Table) : Table :=
  (overrides.foldl (fun merged item => Dict.insert item.1 item.2 merged) table).filter
    (·.1 ∉ genericFields)

/-- `_generated_definitions`. -/
def generatedDefinitions (table : Table) (location : Text) :
    Except Exc (List BenchmarkDefinition) := do
  let libraryId ← expectString table "library".toList location
  let codePath ← expectString table "code_path".toList location
  let tools ← expectStringList table "tools".toList location
  let runnerProfiles ← parseRunnerProfiles (Value.field table "runner_profiles".toList) location
  let targets ← expectTable (Value.field table "targets".toList)
    (fieldPath location "targets".toList)
  if targets.isEmpty then
    .error (.valueError (location ++ ".targets must not be empty".toList))
  else
    let parsed ← targets.mapM (parseTarget location tools)
    return parsed.map fun target =>
      { libraryId := libraryId, targetId := target.targetId, configLocation := location
        tools := target.tools, extraConfig := mergedExtraConfig table target.overrides
        codePath := codePath, runnerProfiles := runnerProfiles }

/-! ## The registry -/

/-- The identity of a definition. -/
def BenchmarkDefinition.identity (d : BenchmarkDefinition) : Text × Text :=
  (d.libraryId, d.targetId)

/-- `format_benchmark_selector`. -/
def formatBenchmarkSelector (identity : Text × Text) : Text := identity.1 ++ ':' :: identity.2

/-- The loop over the definitions of one table; `seen` are the definitions so far. -/
def addDefinitions (file : Text) (seen : List BenchmarkDefinition) :
    List BenchmarkDefinition → Except Exc (List BenchmarkDefinition)
  | [] => .ok seen
  | d :: rest =>
    if d.identity ∈ seen.map BenchmarkDefinition.identity then
      .error (.valueError ("duplicate benchmark selector '".toList ++
        formatBenchmarkSelector d.identity ++ "' in ".toList ++ file))
    else addDefinitions file (seen ++ [d]) rest

/-- The loop over the tables of one file, from an index on. -/
def addTables (file : Text) (seen : List BenchmarkDefinition) (index : Nat) :
    List Value → Except Exc (List BenchmarkDefinition)
  | [] => .ok seen
  | raw :: rest => do
    let location := itemPath (fieldPath file "benchmarks".toList) index
    let table ← expectTable raw location
    if Dict.lookup "targets".toList table = none then
      .error (.valueError (location ++ " must define targets".toList))
    else
      let definitions ← generatedDefinitions table location
      let seen ← addDefinitions file seen definitions
      addTables file seen (index + 1) rest

/-- The loop over the descriptor files. -/
def addFiles (seen : List BenchmarkDefinition) :
    List (Text × Table) → Except Exc (List BenchmarkDefinition)
  | [] => .ok seen
  | (file, config) :: rest => do
    let benchmarks ← expectArray (Value.field config "benchmarks".toList)
      (fieldPath file "benchmarks".toList)
    let seen ← addTables file seen 0 benchmarks
    addFiles seen rest

/-- `_load_registry`: the definitions, from the files of `directory` with their decoded
contents. -/
def loadRegistry (directory : Text) (files : List (Text × Table)) :
    Except Exc (List BenchmarkDefinition) := do
  let definitions ← addFiles [] (files.mergeSort fun a b => !decide (b.1 < a.1))
  if definitions.isEmpty then
    .error (.valueError ("no benchmark descriptors found in ".toList ++ directory))
  else return definitions

/-- `path.replace("\\", "/")`. -/
def normalizeSeparators (path : Text) : Text := path.map fun c => if c = '\\' then '/' else c

/-- `definition_for_path`. -/
def definitionForPath (definitions : List BenchmarkDefinition) (path : Text) :
    Option BenchmarkDefinition :=
  definitions.find? fun d => normalizeSeparators d.codePath <:+: normalizeSeparators path

/-! ## Which definition a path finds -/

/-- A path below the directory a code path names, in the tree that starts at `root`. -/
def LiesUnder (root path codePath : Text) : Prop :=
  ∃ rest, normalizeSeparators path =
    normalizeSeparators root ++ normalizeSeparators codePath ++ '/' :: rest

theorem LiesUnder.infix {root path codePath : Text} (h : LiesUnder root path codePath) :
    normalizeSeparators codePath <:+: normalizeSeparators path := by
  obtain ⟨rest, hrest⟩ := h
  exact ⟨_, _, hrest.symm⟩

/-- The definitions that are loaded before the first one of a code path. -/
def loadedBefore (definitions : List BenchmarkDefinition) (codePath : Text) :
    List BenchmarkDefinition :=
  definitions.takeWhile (·.codePath ≠ codePath)

/-- The search in a list that has a hit of the code path. -/
theorem find_codePath_iff {codePath path : Text}
    (hpath : normalizeSeparators codePath <:+: normalizeSeparators path)
    {definitions : List BenchmarkDefinition} (hd : ∃ d ∈ definitions, d.codePath = codePath) :
    (∃ e, definitionForPath definitions path = some e ∧ e.codePath = codePath) ↔
      ∀ e ∈ loadedBefore definitions codePath,
        ¬ normalizeSeparators e.codePath <:+: normalizeSeparators path := by
  unfold loadedBefore
  induction definitions with
  | nil =>
    obtain ⟨d, hd, -⟩ := hd
    cases hd
  | cons e rest ih =>
    by_cases hcode : e.codePath = codePath
    · -- the first definition has the code path: it is found, and nothing is earlier
      have hfound : definitionForPath (e :: rest) path = some e := by
        refine List.find?_cons_of_pos ?_
        rw [hcode]
        exact decide_eq_true hpath
      rw [List.takeWhile_cons_of_neg (by simpa using hcode)]
      exact ⟨fun _ x hx => absurd hx List.not_mem_nil, fun _ => ⟨e, hfound, hcode⟩⟩
    · rw [List.takeWhile_cons_of_pos (by simpa using hcode), List.forall_mem_cons]
      by_cases hocc : normalizeSeparators e.codePath <:+: normalizeSeparators path
      · -- a foreign code path that occurs is found instead
        have hfound : definitionForPath (e :: rest) path = some e :=
          List.find?_cons_of_pos (decide_eq_true hocc)
        constructor
        · rintro ⟨x, hx, hxcode⟩
          rw [hfound] at hx
          exact absurd (Option.some.inj hx ▸ hxcode) hcode
        · intro hnone
          exact absurd hocc hnone.1
      · have hskip : definitionForPath (e :: rest) path = definitionForPath rest path :=
          List.find?_cons_of_neg (by simpa using hocc)
        have hrest : ∃ d ∈ rest, d.codePath = codePath := by
          obtain ⟨d, hmem, hdcode⟩ := hd
          rcases List.mem_cons.mp hmem with rfl | hmem
          · exact absurd hdcode hcode
          · exact ⟨d, hmem, hdcode⟩
        rw [hskip, ih hrest]
        exact (and_iff_right hocc).symm

/-- **The search is right exactly when nothing earlier occurs.** In every list of
definitions, for every path below the directory of one of them: the definition that is
found has its code path iff no code path that is loaded before it occurs in the path. -/
theorem definitionForPath_iff (definitions : List BenchmarkDefinition) {d : BenchmarkDefinition}
    (hd : d ∈ definitions) (root path : Text) (hunder : LiesUnder root path d.codePath) :
    (∃ e, definitionForPath definitions path = some e ∧ e.codePath = d.codePath) ↔
      ∀ e ∈ loadedBefore definitions d.codePath,
        ¬ normalizeSeparators e.codePath <:+: normalizeSeparators path :=
  find_codePath_iff hunder.infix ⟨d, hd, rfl⟩

/-! ## Two libraries -/

/-- A descriptor with one target. -/
def oneTarget (library codePath : String) : Table :=
  [("benchmarks".toList, .list [.dict
    [("library".toList, .str library.toList), ("code_path".toList, .str codePath.toList),
     ("tools".toList, .list [.str "klee_cf".toList]),
     ("targets".toList, .dict [("des".toList, .dict [])])]])]

/-- The descriptors of `libg` and `libgcrypt`. -/
def twoLibraries : List (Text × Table) :=
  [("configs/benchmarks/libg.toml".toList, oneTarget "libg" "benchmarks/libg"),
   ("configs/benchmarks/libgcrypt.toml".toList,
    oneTarget "libgcrypt" "benchmarks/libgcrypt-and-libgpg-error")]

/-- The definition of such a descriptor. -/
def desDefinition (library file codePath : String) : BenchmarkDefinition where
  libraryId := library.toList
  targetId := "des".toList
  configLocation := file.toList ++ ".benchmarks[0]".toList
  tools := ["klee_cf".toList]
  extraConfig := []
  codePath := codePath.toList
  runnerProfiles := []

/-- Their registry. -/
def twoDefinitions : List BenchmarkDefinition :=
  [desDefinition "libg" "configs/benchmarks/libg.toml" "benchmarks/libg",
   desDefinition "libgcrypt" "configs/benchmarks/libgcrypt.toml"
    "benchmarks/libgcrypt-and-libgpg-error"]

theorem loadRegistry_twoLibraries :
    loadRegistry "configs/benchmarks".toList twoLibraries = .ok twoDefinitions := by
  have hsorted : twoLibraries.mergeSort (fun a b => !decide (b.1 < a.1)) = twoLibraries := by
    refine List.mergeSort_of_pairwise (List.pairwise_cons.mpr ⟨fun b hb => ?_, ?_⟩)
    · rw [List.mem_singleton.mp hb]
      decide
    · exact List.pairwise_singleton _ _
  unfold loadRegistry
  rw [hsorted]
  rfl

/-- A file of `libg`. -/
def libgFile : Text := "/work/benchmarks/libg/des.c".toList

/-- Files of `libg` are found. -/
theorem definitionForPath_iff_libg :
    ∃ e, definitionForPath twoDefinitions libgFile = some e ∧
      e.codePath = "benchmarks/libg".toList := by
  refine (definitionForPath_iff twoDefinitions List.mem_cons_self "/work/".toList libgFile
    ⟨"des.c".toList, by decide⟩).mpr ?_
  intro e he
  cases he

/-- Files of `libgcrypt` are taken for files of `libg`. -/
theorem libg_captures_libgcrypt :
    ∃ d ∈ twoDefinitions,
      loadRegistry "configs/benchmarks".toList twoLibraries = .ok twoDefinitions ∧
      LiesUnder "/work/".toList
        "/work/benchmarks/libgcrypt-and-libgpg-error/mpi.c".toList d.codePath ∧
      (∀ e ∈ twoDefinitions, LiesUnder "/work/".toList
        "/work/benchmarks/libgcrypt-and-libgpg-error/mpi.c".toList e.codePath →
          e.codePath = d.codePath) ∧
      ¬ ∃ e, definitionForPath twoDefinitions
          "/work/benchmarks/libgcrypt-and-libgpg-error/mpi.c".toList = some e ∧
        e.codePath = d.codePath := by
  refine ⟨_, List.mem_cons_of_mem _ List.mem_cons_self, loadRegistry_twoLibraries,
    ⟨"mpi.c".toList, by decide⟩, ?_, ?_⟩
  · intro e he hunder
    rcases List.mem_cons.mp he with rfl | he
    · obtain ⟨rest, hrest⟩ := hunder
      -- behind `benchmarks/libg` the path goes on with a letter
      have hchar : some 'c' = some '/' := congrArg (·[21]?) hrest
      cases hchar
    · rw [List.mem_singleton.mp he]
  · rintro ⟨e, he, hcode⟩
    have hfound : definitionForPath twoDefinitions
        "/work/benchmarks/libgcrypt-and-libgpg-error/mpi.c".toList = twoDefinitions.head? := by
      have hocc : normalizeSeparators "benchmarks/libg".toList <:+: normalizeSeparators
          "/work/benchmarks/libgcrypt-and-libgpg-error/mpi.c".toList :=
        ⟨"/work/".toList, "crypt-and-libgpg-error/mpi.c".toList, by decide⟩
      exact List.find?_cons_of_pos (decide_eq_true hocc)
    rw [hfound] at he
    rw [← Option.some.inj he] at hcode
    exact absurd hcode (by decide)

end KleeDeps.Shared
