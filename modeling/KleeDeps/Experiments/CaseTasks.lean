import KleeDeps.Postprocess.Locations
import KleeDeps.Shared.BenchmarkSelection
import KleeDeps.Validation.ReplayExecutables

/-!
# The case tasks of a runner

A runner goes over the selected benchmarks and their cases and starts one process for each. A
campaign asks the runner for the same cases (`campaign_case_tasks`) and starts them itself. Both
name a case by its benchmark and its index only; the process reads the descriptor again and picks
the case for itself.

- `CaseKind`: what the runners differ in; `kleeCases`, `binsecCases`, `abacusCases`;
- `enumerate`: the loop over the benchmarks and their cases;
- `workerCase`: the case a process picks;
- `enumerate_iff`: what the loop yields;
- `campaign_case_tasks`: **a campaign and a runner start the same processes, and each runs the case
  it was started for**.
-/

namespace KleeDeps.Experiments

open Py Shared Validation Postprocess

/-- `CampaignCaseTask`, without what all cases of a runner share. -/
structure CaseTask where
  tag : Text
  logStem : Text
  libraryId : Text
  targetId : Text
  caseIndex : Nat
  deriving DecidableEq

/-- What a process is told. -/
def CaseTask.address (task : CaseTask) : (Text × Text) × Nat :=
  ((task.libraryId, task.targetId), task.caseIndex)

/-! ## The cases of a benchmark -/

/-- `canonical_case_title` -/
def canonicalCaseTitle (libraryId targetId configId : Text) : Text :=
  formatBenchmarkSelector (libraryId, targetId) ++ " (".toList ++ configId ++ [')']

/-- A list of the table that is left out when it is empty. -/
def optionalList (key : Text) (values : List Text) : Table :=
  if values = [] then [] else [(key, .list (values.map .str))]

/-- A path below the artifacts of a target. -/
def artifactPath (d : BenchmarkDefinition) (tool file : Text) : Text :=
  d.codePath ++ "/artifacts/".toList ++ tool ++ '/' :: (d.targetId ++ '/' :: file)

/-- `target_id.endswith("_sliced")` -/
def isSliced (d : BenchmarkDefinition) : Bool := "_sliced".toList.isSuffixOf d.targetId

section Loading

variable (floatTruth : Text → Bool)

/-- The entry of an expanded case in `_load_klee_cases`. -/
def kleeCaseTable (d : BenchmarkDefinition) (codePath : Text)
    (extraArgs modExpExtraArgs : List Text) (case : ExpandedCase) (inputs : KleeCase) : Table :=
  [("title".toList, .str (canonicalCaseTitle d.libraryId d.targetId case.configId)),
   ("config_id".toList, .str case.configId),
   ("bitcode".toList, .str (artifactPath d "klee".toList (case.configId ++ ".bc".toList))),
   ("result_name".toList, .str (canonicalCaseId d.libraryId d.targetId case.configId)),
   ("replay_script".toList,
     .str (artifactPath d "klee".toList (case.artifactConfig ++ "_replay".toList))),
   ("code_path".toList, .str codePath),
   ("replay_opts".toList, .str inputs.replayOpts),
   ("config".toList, .str case.configId),
   ("sliced".toList, .bool (isSliced d))] ++
  optionalList "public_inputs".toList inputs.publicInputs ++
  optionalList "secret_inputs".toList inputs.secretInputs ++
  optionalList "extra_args".toList extraArgs ++
  optionalList "mod_exp_extra_args".toList modExpExtraArgs

/-- `_load_klee_cases` -/
def loadKleeEntries (toolId : Text) (d : BenchmarkDefinition) : Except Exc (List Value) :=
  match Value.field d.extraConfig "klee_cases".toList with
  | .null => do
    let location := fieldPath d.configLocation "tool_defaults".toList
    let kleeLocation := fieldPath location "klee".toList
    let toolDefaults ← subTable floatTruth d.extraConfig "tool_defaults".toList d.configLocation
    let klee ← subTable floatTruth toolDefaults "klee".toList location
    let secretInputs ← optionalStringList klee "secret_inputs".toList kleeLocation
    let publicInputs ← optionalStringList klee "public_inputs".toList kleeLocation
    let codePath ← optionalString klee "code_path".toList kleeLocation
    let extraArgs ← optionalStringList klee "extra_args".toList kleeLocation
    let modExpExtraArgs ← optionalStringList klee "mod_exp_extra_args".toList kleeLocation
    let cases ← expandBenchmarkCases floatTruth d.toDefinition toolId
    cases.mapM fun case => do
      let inputs ← kleeCase secretInputs publicInputs case
      return .dict
        (kleeCaseTable d (codePath.getD d.codePath) extraArgs modExpExtraArgs case inputs)
  | rawCases => expectArray rawCases (fieldPath d.configLocation "klee_cases".toList)

/-- The loop of `_filter_klee_cases`, from an index on. -/
def filterCases (configFilter location : Text) (index : Nat) :
    List Value → Except Exc (List Value)
  | [] => .ok []
  | raw :: rest => do
    let table ← expectTable raw (itemPath location index)
    let configId ← expectString table "config_id".toList (itemPath location index)
    let filtered ← filterCases configFilter location (index + 1) rest
    return if configId = configFilter then .dict table :: filtered else filtered

/-- `_filter_klee_cases` -/
def filterKleeCases (entries : List Value) (configFilter : Option Text) (location : Text) :
    Except Exc (List Value) :=
  match configFilter with
  | none | some [] => .ok entries
  | some (c :: config) => filterCases (c :: config) location 0 entries

/-- The entry of an expanded case in `_load_binsec_cases`. -/
def binsecCaseTable (d : BenchmarkDefinition) (case : ExpandedCase) (inputs : BinsecCase) : Table :=
  [("title".toList, .str (canonicalCaseTitle d.libraryId d.targetId case.configId)),
   ("sse_script".toList, .str (d.codePath ++ "/generated/".toList ++ d.targetId ++
     "/binsec_".toList ++ case.artifactConfig ++ ".cfg".toList)),
   ("stats_file".toList,
     .str (canonicalCaseId d.libraryId d.targetId case.configId ++ ".toml".toList)),
   ("executable".toList, .str (artifactPath d "binsec".toList case.artifactConfig)),
   ("config".toList, .str case.configId),
   ("sliced".toList, .bool (isSliced d))] ++
  (match inputs.runnerProfile with
    | none => []
    | some profile => [("runner_profile".toList, .str profile)]) ++
  optionalList "secret_inputs".toList inputs.secretInputs ++
  optionalList "public_inputs".toList inputs.publicInputs

/-- `_load_binsec_cases` -/
def loadBinsecEntries (d : BenchmarkDefinition) : Except Exc (List Value) :=
  match Value.field d.extraConfig "binsec_cases".toList with
  | .null => do
    let cases ← expandBenchmarkCases floatTruth d.toDefinition "binsec".toList
    cases.mapM fun case => do
      let inputs ← binsecCase floatTruth case
      return .dict (binsecCaseTable d case inputs)
  | rawCases => expectArray rawCases (fieldPath d.configLocation "binsec_cases".toList)

/-- The entry of an expanded case in `_load_abacus_cases`. -/
def abacusCaseTable (d : BenchmarkDefinition) (case : ExpandedCase) (runnerProfile : Option Text) :
    Table :=
  [("executable".toList, .str (artifactPath d "abacus".toList case.artifactConfig)),
   ("outfile".toList,
     .str (canonicalCaseId d.libraryId d.targetId case.configId ++ ".txt".toList)),
   ("config".toList, .str case.configId),
   ("sliced".toList, .bool (isSliced d))] ++
  match runnerProfile with
    | none => []
    | some profile => [("runner_profile".toList, .str profile)]

/-- `_load_abacus_cases` -/
def loadAbacusEntries (d : BenchmarkDefinition) : Except Exc (List Value) :=
  match Value.field d.extraConfig "abacus_cases".toList with
  | .null => do
    let cases ← expandBenchmarkCases floatTruth d.toDefinition "abacus".toList
    cases.mapM fun case => do
      let runnerProfile ← binsecRunnerProfile case
      return .dict (abacusCaseTable d case runnerProfile)
  | rawCases => expectArray rawCases (fieldPath d.configLocation "abacus_cases".toList)

end Loading

/-! ## What the runners differ in -/

/-- `Path(text).stem`: the name without its last suffix, if a character that is not a dot stands
before the suffix. -/
def pathStem (text : Text) : Text :=
  let name := pathName text
  let stem := (name.rdropWhile (· ≠ '.')).dropLast
  if '.' ∈ name ∧ stem.any (· ≠ '.') then stem else name

/-- Where a runner finds the cases of a benchmark, and what it reads from the table of one. -/
structure CaseSource where
  toolId : Text
  casesKey : Text
  /-- The definition must list the tool. -/
  restricted : Bool
  load : BenchmarkDefinition → Except Exc (List Value)
  /-- The message of a process that finds no case, for a selector. -/
  missing : Text → Exc
  /-- The message of a process with an index behind the last case. -/
  outOfRange : Nat → Text → Exc
  tag : BenchmarkDefinition → Text → Table → Except Exc Text
  stem : Text → Table → Except Exc Text

/-- A runner. `names` is what its loop does with the table of a case; `seen` are the stems so
far. -/
structure CaseKind extends CaseSource where
  names : BenchmarkDefinition → List Text → Text → Table → Except Exc (Text × Text)
  names_iff : ∀ d seen location table title name,
    names d seen location table = .ok (title, name) ↔
      tag d location table = .ok title ∧ stem location table = .ok name ∧ name ∉ seen

/-- The modes of the KLEE family. -/
inductive KleeMode where
  | cf
  | eager
  | selfComp
  deriving DecidableEq, Repr

/-- `MODE_PROFILES`: the tools. -/
def KleeMode.toolId : KleeMode → Text
  | .cf => "klee_cf".toList
  | .eager => "klee_eager".toList
  | .selfComp => "klee_self_comp".toList

section Kinds

variable (repr : Text → Text) (floatTruth : Text → Bool)

/-- The message of a process with an index behind the last case. -/
def indexMessage (index : Nat) (selector : Text) : Text :=
  "internal worker case index ".toList ++ decimal index ++
    " is out of range for benchmark ".toList ++ repr selector

/-- The loop body of the KLEE family, in `campaign_case_tasks_for_mode` and in `main_for_mode`. -/
def kleeNames (seen : List Text) (location : Text) (table : Table) : Except Exc (Text × Text) := do
  let resultName ← expectString table "result_name".toList location
  if resultName ∈ seen then
    .error (.exit ("duplicate KLEE result_name across selected cases: ".toList ++ resultName))
  else
    let title ← expectString table "title".toList location
    return (title, resultName)

/-- The stem of a file the table names. -/
def fileStem (key location : Text) (table : Table) : Except Exc Text := do
  let file ← expectString table key location
  return pathStem file

/-- The loop body of `campaign_case_tasks` of BINSEC. -/
def binsecCampaignNames (seen : List Text) (location : Text) (table : Table) :
    Except Exc (Text × Text) := do
  let statsStem ← fileStem "stats_file".toList location table
  if statsStem ∈ seen then
    .error (.exit ("duplicate BINSEC stats stem across selected cases: ".toList ++ statsStem))
  else
    let title ← expectString table "title".toList location
    return (title, statsStem)

/-- The loop body of `main` of BINSEC: the title is read first. -/
def binsecNames (seen : List Text) (location : Text) (table : Table) :
    Except Exc (Text × Text) := do
  let title ← expectString table "title".toList location
  let statsStem ← fileStem "stats_file".toList location table
  if statsStem ∈ seen then
    .error (.exit ("duplicate BINSEC stats stem across selected cases: ".toList ++ statsStem))
  else return (title, statsStem)

/-- The title of an ABACUS case. -/
def abacusTag (d : BenchmarkDefinition) (location : Text) (table : Table) : Except Exc Text := do
  let executable ← expectString table "executable".toList location
  return formatBenchmarkSelector d.identity ++ " (".toList ++ pathName executable ++ [')']

/-- The loop body of `main` of ABACUS. -/
def abacusNames (d : BenchmarkDefinition) (seen : List Text) (location : Text) (table : Table) :
    Except Exc (Text × Text) := do
  let tag ← abacusTag d location table
  let outputStem ← fileStem "outfile".toList location table
  if outputStem ∈ seen then
    .error (.exit ("duplicate ABACUS output stem across selected cases: ".toList ++ outputStem))
  else return (tag, outputStem)

/-- The title is read behind the check of the name. -/
theorem nameFirst_iff {title name : Except Exc Text} {seen : List Text} {duplicate : Text → Exc}
    {t n : Text} :
    ((do
      let n ← name
      if n ∈ seen then .error (duplicate n)
      else
        let t ← title
        return (t, n)) : Except Exc (Text × Text)) = .ok (t, n) ↔
      title = .ok t ∧ name = .ok n ∧ n ∉ seen := by
  rw [Sequence.bind_eq_ok_iff]
  constructor
  · rintro ⟨n', hname, h⟩
    split at h
    · cases h
    · next hfree =>
      obtain ⟨t', htitle, h⟩ := Sequence.bind_eq_ok_iff.mp h
      obtain ⟨rfl, rfl⟩ := Prod.mk.inj (Except.ok.inj h)
      exact ⟨htitle, hname, hfree⟩
  · rintro ⟨htitle, hname, hfree⟩
    refine ⟨n, hname, ?_⟩
    rw [if_neg hfree, Sequence.bind_eq_ok_iff]
    exact ⟨t, htitle, rfl⟩

/-- The title is read first. -/
theorem titleFirst_iff {title name : Except Exc Text} {seen : List Text} {duplicate : Text → Exc}
    {t n : Text} :
    ((do
      let t ← title
      let n ← name
      if n ∈ seen then .error (duplicate n)
      else return (t, n)) : Except Exc (Text × Text)) = .ok (t, n) ↔
      title = .ok t ∧ name = .ok n ∧ n ∉ seen := by
  rw [Sequence.bind_eq_ok_iff]
  constructor
  · rintro ⟨t', htitle, h⟩
    obtain ⟨n', hname, h⟩ := Sequence.bind_eq_ok_iff.mp h
    split at h
    · cases h
    · next hfree =>
      obtain ⟨rfl, rfl⟩ := Prod.mk.inj (Except.ok.inj h)
      exact ⟨htitle, hname, hfree⟩
  · rintro ⟨htitle, hname, hfree⟩
    refine ⟨t, htitle, ?_⟩
    rw [Sequence.bind_eq_ok_iff]
    exact ⟨n, hname, if_neg hfree⟩

/-- The message of a process that finds no case. -/
def missingMessage (tool selector : Text) : Text :=
  "benchmark ".toList ++ repr selector ++ " does not define ".toList ++ tool ++ " cases".toList

/-- The KLEE family; `config` is the value of `--config`. -/
def kleeCases (mode : KleeMode) (config : Option Text) : CaseKind where
  toolId := mode.toolId
  casesKey := "klee_cases".toList
  restricted := true
  load d := do
    let entries ← loadKleeEntries floatTruth mode.toolId d
    filterKleeCases entries config (fieldPath d.configLocation "klee_cases".toList)
  missing selector :=
    match config with
    | none | some [] => .exit (missingMessage repr "KLEE".toList selector)
    | some (c :: config) => .exit (missingMessage repr "KLEE".toList selector ++
        " for config ".toList ++ repr (c :: config))
  outOfRange index selector := .exit (indexMessage repr index selector)
  tag _ location table := expectString table "title".toList location
  stem location table := expectString table "result_name".toList location
  names _ := kleeNames
  names_iff _ _ _ _ _ _ := nameFirst_iff

/-- The cases of BINSEC. -/
def binsecSource : CaseSource where
  toolId := "binsec".toList
  casesKey := "binsec_cases".toList
  restricted := true
  load := loadBinsecEntries floatTruth
  missing selector := .exit (missingMessage repr "BINSEC".toList selector)
  outOfRange index selector := .valueError (indexMessage repr index selector)
  tag _ location table := expectString table "title".toList location
  stem location table := fileStem "stats_file".toList location table

/-- BINSEC, as a campaign reads its cases. -/
def binsecCampaignCases : CaseKind where
  toCaseSource := binsecSource repr floatTruth
  names _ := binsecCampaignNames
  names_iff _ _ _ _ _ _ := nameFirst_iff

/-- BINSEC, as its runner reads them. -/
def binsecCases : CaseKind where
  toCaseSource := binsecSource repr floatTruth
  names _ := binsecNames
  names_iff _ _ _ _ _ _ := titleFirst_iff

/-- ABACUS; a campaign has no access to its cases. -/
def abacusCases : CaseKind where
  toolId := "abacus".toList
  casesKey := "abacus_cases".toList
  restricted := false
  load := loadAbacusEntries floatTruth
  missing selector := .exit (missingMessage repr "ABACUS".toList selector)
  outOfRange index selector := .exit (indexMessage repr index selector)
  tag := abacusTag
  stem location table := fileStem "outfile".toList location table
  names := abacusNames
  names_iff _ _ _ _ _ _ := titleFirst_iff

end Kinds

/-! ## The loop -/

/-- What a loop has yielded, and the exception that has ended it. -/
structure Enumeration where
  tasks : List CaseTask
  error : Option Exc

namespace CaseSource

variable (source : CaseSource)

/-- Where a case stands. -/
def location (d : BenchmarkDefinition) (index : Nat) : Text :=
  itemPath (fieldPath d.configLocation source.casesKey) index

/-- `… requires … in tools` -/
def checkTools (d : BenchmarkDefinition) : Except Exc Unit :=
  if source.restricted ∧ source.toolId ∉ d.tools then
    .error (.valueError (fieldPath d.configLocation source.casesKey ++ " requires '".toList ++
      source.toolId ++ "' in tools".toList))
  else .ok ()

variable (repr : Text → Text) (definitions : List BenchmarkDefinition)

/-- The definition and the cases of a benchmark. -/
def benchmarkCases (p : Text × Text) : Except Exc (BenchmarkDefinition × List Value) := do
  let d ← definition repr definitions p.1 p.2
  let entries ← source.load d
  if entries.isEmpty then return (d, entries)
  else
    source.checkTools d
    return (d, entries)

/-- What a process does first (`run_benchmark`): the table of its case. -/
def workerCase (address : (Text × Text) × Nat) : Except Exc Table := do
  let d ← definition repr definitions address.1.1 address.1.2
  let entries ← source.load d
  if entries.isEmpty then .error (source.missing (formatBenchmarkSelector address.1))
  else
    source.checkTools d
    match entries[address.2]? with
    | none => .error (source.outOfRange address.2 (formatBenchmarkSelector address.1))
    | some raw => expectTable raw (source.location d address.2)

/-- The cases of the selected benchmarks, each with its index. -/
def caseAddresses : List (Text × Text) → Except Exc (List ((Text × Text) × Nat))
  | [] => .ok []
  | p :: rest => do
    let cases ← source.benchmarkCases repr definitions p
    let later ← caseAddresses rest
    return (List.range cases.2.length).map (p, ·) ++ later

/-- The task stands for a case of a benchmark, given with its index. -/
def Describes (d : BenchmarkDefinition) (p : Text × Text) (item : Value × Nat)
    (task : CaseTask) : Prop :=
  task.address = (p, item.2) ∧ ∃ table, expectTable item.1 (source.location d item.2) = .ok table ∧
    source.tag d (source.location d item.2) table = .ok task.tag ∧
    source.stem (source.location d item.2) table = .ok task.logStem

/-- The process of the task picks a case that has the title and the stem of the task. -/
def Runs (task : CaseTask) : Prop :=
  ∃ d table, definition repr definitions task.libraryId task.targetId = .ok d ∧
    source.workerCase repr definitions task.address = .ok table ∧
    source.tag d (source.location d task.caseIndex) table = .ok task.tag ∧
    source.stem (source.location d task.caseIndex) table = .ok task.logStem

variable {source repr definitions}

theorem benchmarkCases_eq_ok_iff {p : Text × Text} {d : BenchmarkDefinition}
    {entries : List Value} :
    source.benchmarkCases repr definitions p = .ok (d, entries) ↔
      definition repr definitions p.1 p.2 = .ok d ∧ source.load d = .ok entries ∧
        (entries.isEmpty = false → source.checkTools d = .ok ()) := by
  rw [benchmarkCases, Sequence.bind_eq_ok_iff]
  constructor
  · rintro ⟨d', hd, h⟩
    obtain ⟨entries', hentries, h⟩ := Sequence.bind_eq_ok_iff.mp h
    split at h
    · next hempty =>
      obtain ⟨rfl, rfl⟩ := Prod.mk.inj (Except.ok.inj h)
      exact ⟨hd, hentries, fun hne => absurd hempty (by rw [hne]; exact Bool.false_ne_true)⟩
    · obtain ⟨_, htools, h⟩ := Sequence.bind_eq_ok_iff.mp h
      obtain ⟨rfl, rfl⟩ := Prod.mk.inj (Except.ok.inj h)
      exact ⟨hd, hentries, fun _ => htools⟩
  · rintro ⟨hd, hentries, htools⟩
    refine ⟨d, hd, ?_⟩
    rw [Sequence.bind_eq_ok_iff]
    refine ⟨entries, hentries, ?_⟩
    split
    · rfl
    · next hne =>
      rw [Sequence.bind_eq_ok_iff]
      exact ⟨(), htools (by simpa using hne), rfl⟩

/-- A process picks the case with its index. -/
theorem workerCase_of_cases {p : Text × Text} {d : BenchmarkDefinition} {entries : List Value}
    (h : source.benchmarkCases repr definitions p = .ok (d, entries)) {raw : Value} {index : Nat}
    (hraw : entries[index]? = some raw) :
    source.workerCase repr definitions (p, index) = expectTable raw (source.location d index) := by
  obtain ⟨hd, hentries, htools⟩ := benchmarkCases_eq_ok_iff.mp h
  have hne : entries.isEmpty = false := by
    cases entries with
    | nil => cases hraw
    | cons _ _ => rfl
  rw [workerCase, hd]
  simp only [bind, Except.bind, hentries, hne, htools hne, hraw, Bool.false_eq_true, if_false]

theorem runs_iff_describes {p : Text × Text} {d : BenchmarkDefinition} {entries : List Value}
    (h : source.benchmarkCases repr definitions p = .ok (d, entries)) {item : Value × Nat}
    (hitem : item ∈ entries.zipIdx) {task : CaseTask} (haddress : task.address = (p, item.2)) :
    source.Runs repr definitions task ↔ source.Describes d p item task := by
  have hworker := workerCase_of_cases h (List.mem_zipIdx_iff_getElem?.mp hitem)
  have hd := (benchmarkCases_eq_ok_iff.mp h).1
  obtain ⟨tag, stem, libraryId, targetId, index⟩ := task
  obtain ⟨rfl, rfl⟩ := Prod.mk.inj haddress
  constructor
  · rintro ⟨d', table, hd', htable, htitle, hname⟩
    obtain rfl := Except.ok.inj (hd.symm.trans hd')
    exact ⟨rfl, table, hworker.symm.trans htable, htitle, hname⟩
  · rintro ⟨-, table, htable, htitle, hname⟩
    exact ⟨d, table, hd, hworker.trans htable, htitle, hname⟩

theorem map_address {d : BenchmarkDefinition} {p : Text × Text} {items : List (Value × Nat)}
    {tasks : List CaseTask} (h : List.Forall₂ (source.Describes d p) items tasks) :
    tasks.map CaseTask.address = (items.map Prod.snd).map (p, ·) := by
  induction h with
  | nil => rfl
  | cons hdescribes _ ih => rw [List.map_cons, List.map_cons, List.map_cons, hdescribes.1, ih]

/-- Tasks that stand for the cases of a benchmark one by one describe them. -/
theorem describes_of_runs {p : Text × Text} {d : BenchmarkDefinition} {entries : List Value}
    (hcases : source.benchmarkCases repr definitions p = .ok (d, entries)) {tasks : List CaseTask}
    (haddresses : tasks.map CaseTask.address = (List.range entries.length).map (p, ·))
    (hruns : ∀ task ∈ tasks, source.Runs repr definitions task) :
    List.Forall₂ (source.Describes d p) entries.zipIdx tasks := by
  have hlength : tasks.length = entries.length := by
    simpa using congrArg List.length haddresses
  refine List.forall₂_of_length_eq_of_get (by rw [List.length_zipIdx, hlength]) ?_
  intro i hitem htask
  have haddress : (tasks[i]).address = (p, i) := by
    have hat := congrArg (fun l => l[i]?) haddresses
    simp only [List.getElem?_map, List.getElem?_eq_getElem htask, Option.map_some,
      List.getElem?_range (hlength ▸ htask)] at hat
    exact Option.some.inj hat
  have hmem : (entries.zipIdx[i]) ∈ entries.zipIdx := List.getElem_mem hitem
  have hindex : (entries.zipIdx[i]).2 = i := by
    rw [List.getElem_zipIdx]
    exact Nat.zero_add i
  refine (runs_iff_describes hcases hmem ?_).mp (hruns _ (List.getElem_mem htask))
  rw [List.get_eq_getElem, haddress, hindex]

end CaseSource

namespace CaseKind

variable (kind : CaseKind)

/-- The task of a case. -/
def caseTask (d : BenchmarkDefinition) (p : Text × Text) (seen : List Text) (index : Nat)
    (raw : Value) : Except Exc CaseTask := do
  let table ← expectTable raw (kind.location d index)
  let names ← kind.names d seen (kind.location d index) table
  return { tag := names.1, logStem := names.2, libraryId := p.1, targetId := p.2
           caseIndex := index }

/-- The loop over the cases of a benchmark, from an index on. -/
def caseLoop (d : BenchmarkDefinition) (p : Text × Text) (seen : List Text) (index : Nat) :
    List Value → Enumeration
  | [] => { tasks := [], error := none }
  | raw :: rest =>
    match kind.caseTask d p seen index raw with
    | .error e => { tasks := [], error := some e }
    | .ok task =>
      let later := caseLoop d p (seen ++ [task.logStem]) (index + 1) rest
      { later with tasks := task :: later.tasks }

variable (repr : Text → Text) (definitions : List BenchmarkDefinition)

/-- The loop over the benchmarks. -/
def benchmarkLoop (seen : List Text) : List (Text × Text) → Enumeration
  | [] => { tasks := [], error := none }
  | p :: rest =>
    match kind.benchmarkCases repr definitions p with
    | .error e => { tasks := [], error := some e }
    | .ok (d, entries) =>
      let now := kind.caseLoop d p seen 0 entries
      match now.error with
      | some e => { now with error := some e }
      | none =>
        let later := benchmarkLoop (seen ++ now.tasks.map CaseTask.logStem) rest
        { later with tasks := now.tasks ++ later.tasks }

/-- The cases of the selected benchmarks, up to the first exception. -/
def enumerate (benchmarks : List (Text × Text)) : Enumeration :=
  kind.benchmarkLoop repr definitions [] benchmarks

/-- `campaign_case_tasks`: the whole list or the exception. -/
def campaignTasks (benchmarks : List (Text × Text)) : Except Exc (List CaseTask) :=
  match (kind.enumerate repr definitions benchmarks).error with
  | some e => .error e
  | none => .ok (kind.enumerate repr definitions benchmarks).tasks

/-! ## What the loop yields -/

variable {kind repr definitions}

theorem caseTask_eq_ok_iff {d : BenchmarkDefinition} {p : Text × Text} {seen : List Text}
    {index : Nat} {raw : Value} {task : CaseTask} :
    kind.caseTask d p seen index raw = .ok task ↔
      kind.Describes d p (raw, index) task ∧ task.logStem ∉ seen := by
  rw [caseTask, Sequence.bind_eq_ok_iff]
  constructor
  · rintro ⟨table, htable, h⟩
    obtain ⟨⟨title, name⟩, hnames, h⟩ := Sequence.bind_eq_ok_iff.mp h
    obtain rfl := Except.ok.inj h
    obtain ⟨htitle, hname, hfree⟩ := (kind.names_iff _ _ _ _ _ _).mp hnames
    exact ⟨⟨rfl, table, htable, htitle, hname⟩, hfree⟩
  · rintro ⟨⟨haddress, table, htable, htitle, hname⟩, hfree⟩
    refine ⟨table, htable, ?_⟩
    rw [Sequence.bind_eq_ok_iff]
    refine ⟨_, (kind.names_iff _ _ _ _ _ _).mpr ⟨htitle, hname, hfree⟩, ?_⟩
    obtain ⟨title, name, libraryId, targetId, index'⟩ := task
    obtain ⟨rfl, rfl⟩ := Prod.mk.inj haddress
    rfl

/-- The names of the tasks are new, and no two are the same. -/
def Fresh (seen : List Text) (tasks : List CaseTask) : Prop :=
  (seen ++ tasks.map CaseTask.logStem).Nodup

theorem fresh_cons {seen : List Text} {task : CaseTask} {tasks : List CaseTask} :
    Fresh seen (task :: tasks) ↔ Fresh (seen ++ [task.logStem]) tasks := by
  rw [Fresh, Fresh, List.map_cons, List.append_assoc, List.singleton_append]

theorem fresh_append {seen : List Text} {tasks more : List CaseTask} :
    Fresh seen (tasks ++ more) ↔ Fresh (seen ++ tasks.map CaseTask.logStem) more := by
  rw [Fresh, Fresh, List.map_append, List.append_assoc]

theorem Fresh.head {seen : List Text} {task : CaseTask} {tasks : List CaseTask}
    (h : Fresh seen (task :: tasks)) : task.logStem ∉ seen := fun hseen =>
  (List.nodup_append'.mp h).2.2 hseen List.mem_cons_self

/-- The loop over the cases yields tasks for the first cases, for all if it is not ended. -/
theorem caseLoop_spec {d : BenchmarkDefinition} {p : Text × Text} {seen : List Text} {index : Nat}
    {entries : List Value} (hseen : seen.Nodup) :
    ∃ reached, reached <+: entries.zipIdx index ∧
      List.Forall₂ (kind.Describes d p) reached (kind.caseLoop d p seen index entries).tasks ∧
      Fresh seen (kind.caseLoop d p seen index entries).tasks ∧
      ((kind.caseLoop d p seen index entries).error = none → reached = entries.zipIdx index) := by
  have hempty : Fresh seen [] := by
    rw [Fresh, List.map_nil, List.append_nil]
    exact hseen
  induction entries generalizing seen index with
  | nil => exact ⟨[], List.nil_prefix, .nil, hempty, fun _ => rfl⟩
  | cons raw rest ih =>
    rw [caseLoop]
    split
    · exact ⟨[], List.nil_prefix, .nil, hempty, fun h => nomatch h⟩
    · next task htask =>
      obtain ⟨hdescribes, hfree⟩ := caseTask_eq_ok_iff.mp htask
      have hseen' : (seen ++ [task.logStem]).Nodup := List.nodup_append'.mpr
        ⟨hseen, List.nodup_singleton _, fun s hs hlast => hfree (List.mem_singleton.mp hlast ▸ hs)⟩
      obtain ⟨reached, hreached, htasks, hfresh, hall⟩ := @ih _ (index + 1) hseen'
        (by rw [Fresh, List.map_nil, List.append_nil]; exact hseen')
      refine ⟨(raw, index) :: reached, ?_, .cons hdescribes htasks, fresh_cons.mpr hfresh, ?_⟩
      · rw [List.zipIdx_cons]
        exact (List.cons_prefix_cons).mpr ⟨rfl, hreached⟩
      · intro h
        rw [List.zipIdx_cons, hall h]

/-- The loop over the cases yields what describes them all, if the names are new. -/
theorem caseLoop_of_describes {d : BenchmarkDefinition} {p : Text × Text} {seen : List Text}
    {index : Nat} {entries : List Value} {tasks : List CaseTask}
    (h : List.Forall₂ (kind.Describes d p) (entries.zipIdx index) tasks)
    (hfresh : Fresh seen tasks) :
    kind.caseLoop d p seen index entries = { tasks := tasks, error := none } := by
  induction entries generalizing seen index tasks with
  | nil =>
    obtain rfl := List.forall₂_nil_left_iff.mp h
    rfl
  | cons raw rest ih =>
    rw [List.zipIdx_cons] at h
    obtain ⟨task, later, hdescribes, hlater, rfl⟩ := List.forall₂_cons_left_iff.mp h
    rw [caseLoop, caseTask_eq_ok_iff.mpr ⟨hdescribes, hfresh.head⟩]
    simp only [ih hlater (fresh_cons.mp hfresh)]

/-! ### All benchmarks -/

theorem benchmarkLoop_spec {seen : List Text} {benchmarks : List (Text × Text)}
    (hseen : seen.Nodup) :
    Fresh seen (kind.benchmarkLoop repr definitions seen benchmarks).tasks ∧
      (∀ task ∈ (kind.benchmarkLoop repr definitions seen benchmarks).tasks,
        kind.Runs repr definitions task) ∧
      ((kind.benchmarkLoop repr definitions seen benchmarks).error = none →
        kind.caseAddresses repr definitions benchmarks =
          .ok ((kind.benchmarkLoop repr definitions seen benchmarks).tasks.map
            CaseTask.address)) := by
  have hempty : Fresh seen [] := by
    rw [Fresh, List.map_nil, List.append_nil]
    exact hseen
  induction benchmarks generalizing seen with
  | nil => exact ⟨hempty, fun _ h => absurd h List.not_mem_nil, fun _ => rfl⟩
  | cons p rest ih =>
    rw [benchmarkLoop]
    split
    · exact ⟨hempty, fun _ h => absurd h List.not_mem_nil, fun h => nomatch h⟩
    · next d entries hcases =>
      obtain ⟨reached, hreached, htasks, hfresh, hall⟩ :=
        @caseLoop_spec kind d p seen 0 entries hseen
      have hruns : ∀ task ∈ (kind.caseLoop d p seen 0 entries).tasks,
          kind.Runs repr definitions task := by
        intro task htask
        obtain ⟨item, hitem, hdescribes⟩ := Sequence.exists_left_of_forall₂ htasks htask
        exact (CaseSource.runs_iff_describes hcases (hreached.subset hitem) hdescribes.1).mpr
          hdescribes
      simp only
      split
      · exact ⟨hfresh, hruns, fun h => nomatch h⟩
      · next hnone =>
        obtain ⟨hlater, hlaterRuns, haddresses⟩ := ih hfresh
          (by rw [Fresh, List.map_nil, List.append_nil]; exact hfresh)
        refine ⟨fresh_append.mpr hlater, List.forall_mem_append.mpr ⟨hruns, hlaterRuns⟩, ?_⟩
        intro h
        rw [CaseSource.caseAddresses, Sequence.bind_eq_ok_iff]
        refine ⟨_, hcases, ?_⟩
        rw [Sequence.bind_eq_ok_iff]
        refine ⟨_, haddresses h, ?_⟩
        rw [List.map_append, CaseSource.map_address htasks, hall hnone, List.zipIdx_map_snd,
          List.range_eq_range']
        rfl

theorem benchmarkLoop_of_runs {seen : List Text} {benchmarks : List (Text × Text)}
    {tasks : List CaseTask}
    (haddresses : kind.caseAddresses repr definitions benchmarks =
      .ok (tasks.map CaseTask.address))
    (hfresh : Fresh seen tasks) (hruns : ∀ task ∈ tasks, kind.Runs repr definitions task) :
    kind.benchmarkLoop repr definitions seen benchmarks = { tasks := tasks, error := none } := by
  induction benchmarks generalizing seen tasks with
  | nil =>
    obtain rfl := List.map_eq_nil_iff.mp (Except.ok.inj haddresses).symm
    rfl
  | cons p rest ih =>
    rw [CaseSource.caseAddresses] at haddresses
    obtain ⟨⟨d, entries⟩, hcases, haddresses⟩ := Sequence.bind_eq_ok_iff.mp haddresses
    obtain ⟨later, hlater, haddresses⟩ := Sequence.bind_eq_ok_iff.mp haddresses
    obtain ⟨now, more, rfl, hnow, rfl⟩ :=
      List.map_eq_append_iff.mp (Except.ok.inj haddresses).symm
    have hdescribes := CaseSource.describes_of_runs hcases hnow fun task htask =>
      hruns task (List.mem_append_left _ htask)
    have hloop := caseLoop_of_describes hdescribes (List.Nodup.sublist (by
      rw [List.map_append, ← List.append_assoc]
      exact List.sublist_append_left _ _) hfresh)
    rw [benchmarkLoop, hcases]
    simp only [hloop]
    rw [ih hlater (fresh_append.mp hfresh) fun task htask =>
      hruns task (List.mem_append_right _ htask)]

/-- What a loop over the cases that is not ended yields: for every case of every selected benchmark
one task, in their order, under names that are all different; each process picks its case. -/
theorem enumerate_iff {benchmarks : List (Text × Text)} {tasks : List CaseTask} :
    kind.enumerate repr definitions benchmarks = { tasks := tasks, error := none } ↔
      kind.caseAddresses repr definitions benchmarks = .ok (tasks.map CaseTask.address) ∧
        (tasks.map CaseTask.logStem).Nodup ∧ ∀ task ∈ tasks, kind.Runs repr definitions task := by
  constructor
  · intro h
    obtain ⟨hfresh, hruns, haddresses⟩ :=
      @benchmarkLoop_spec kind repr definitions [] benchmarks List.nodup_nil
    rw [enumerate] at h
    rw [h] at hfresh hruns haddresses
    exact ⟨haddresses rfl, hfresh, hruns⟩
  · rintro ⟨haddresses, hfresh, hruns⟩
    exact benchmarkLoop_of_runs haddresses hfresh hruns

theorem campaignTasks_eq_ok_iff {benchmarks : List (Text × Text)} {tasks : List CaseTask} :
    kind.campaignTasks repr definitions benchmarks = .ok tasks ↔
      kind.enumerate repr definitions benchmarks = { tasks := tasks, error := none } := by
  rw [campaignTasks]
  rcases kind.enumerate repr definitions benchmarks with ⟨tasks', _ | e⟩
  · simp
  · simp

end CaseKind

/-! ## Campaigns -/

/-- A tool with case tasks. -/
inductive CaseTool where
  | klee (mode : KleeMode) (config : Option Text)
  | binsec

section Campaigns

variable (repr : Text → Text) (floatTruth : Text → Bool)

/-- The cases as a campaign reads them. -/
def CaseTool.campaignKind : CaseTool → CaseKind
  | .klee mode config => kleeCases repr floatTruth mode config
  | .binsec => binsecCampaignCases repr floatTruth

/-- The cases as the runner reads them. -/
def CaseTool.runnerKind : CaseTool → CaseKind
  | .klee mode config => kleeCases repr floatTruth mode config
  | .binsec => binsecCases repr floatTruth

theorem campaign_iff_runner {tool : CaseTool} {definitions : List BenchmarkDefinition}
    {benchmarks : List (Text × Text)} {tasks : List CaseTask} :
    (tool.campaignKind repr floatTruth).campaignTasks repr definitions benchmarks = .ok tasks ↔
      (tool.runnerKind repr floatTruth).enumerate repr definitions benchmarks =
        { tasks := tasks, error := none } := by
  rw [CaseKind.campaignTasks_eq_ok_iff]
  cases tool with
  | klee mode config => exact Iff.rfl
  | binsec =>
    -- the two differ in the order of their checks only
    rw [CaseKind.enumerate_iff, CaseKind.enumerate_iff]
    exact Iff.rfl

end Campaigns

/-- A campaign and the runner itself start the same processes: the campaign gets tasks exactly if
the runner goes through its loop without an exception, and then both have the same ones, one for
every case of every selected benchmark, in their order. No two have the same name, and each
process picks the case whose title and name its task has. -/
theorem campaign_case_tasks (repr : Text → Text) (floatTruth : Text → Bool) (tool : CaseTool)
    (definitions : List BenchmarkDefinition) (benchmarks : List (Text × Text))
    (tasks : List CaseTask) :
    ((tool.campaignKind repr floatTruth).campaignTasks repr definitions benchmarks = .ok tasks ↔
      (tool.runnerKind repr floatTruth).enumerate repr definitions benchmarks =
        { tasks := tasks, error := none }) ∧
    ((tool.campaignKind repr floatTruth).campaignTasks repr definitions benchmarks = .ok tasks ↔
      (tool.campaignKind repr floatTruth).caseAddresses repr definitions benchmarks =
          .ok (tasks.map CaseTask.address) ∧
        (tasks.map CaseTask.logStem).Nodup ∧
        ∀ task ∈ tasks, (tool.campaignKind repr floatTruth).Runs repr definitions task) :=
  ⟨campaign_iff_runner repr floatTruth,
    CaseKind.campaignTasks_eq_ok_iff.trans CaseKind.enumerate_iff⟩

end KleeDeps.Experiments
