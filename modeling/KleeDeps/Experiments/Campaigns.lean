import KleeDeps.Data.FileTree
import KleeDeps.Postprocess.Repetitions
import Mathlib.Data.List.Sort

/-!
# Campaigns in one output directory

`run_experiments.py` starts `num_copies` workers for each enabled run, every one in a
repetition directory of its own, and merges what it then finds. Campaigns may share an
output directory, so the state before a campaign is any tree of files.

- `workerOps`, `IsTrace`: what the workers of a campaign do to the tree, in any
  interleaving;
- `mergeAll`, `timingFilesByCase`: the two merge steps, and the files they read;
- `merged_ours_iff`: **everything that is merged is from this campaign iff** there was
  nothing to merge in the directories beside its repetition directories.
-/

namespace KleeDeps.Experiments

open Py FileTree Postprocess

/-! ## Runs and workers (`run_experiments.py`) -/

/-- The tools with a runner module. -/
inductive Tool where
  | kleeCf
  | kleeEager
  | kleeSelfComp
  | binsec
  | abacus
  deriving DecidableEq, Repr

/-- `callable(getattr(module, "campaign_case_tasks", None))`. -/
def Tool.enumeratesCaseTasks : Tool → Bool
  | .abacus => false
  | _ => true

/-- The name stands for one directory below the output directory, also in a pattern of
`glob`. -/
def isDirectoryName (name : Text) : Bool :=
  name ≠ [] && name ≠ ['.'] && name ≠ ['.', '.'] && name.all (· ∉ ['/', '*', '?', '['])

/-- An enabled `RunDefinition`. -/
structure RunDefinition where
  tool : Tool
  destination : Text
  plain : isDirectoryName destination = true

/-- A campaign that is not `postprocess-only`, after the checks of its config: a positive
number of copies, and no destination twice. -/
structure Campaign where
  numCopies : Nat
  runs : List RunDefinition
  positive : 0 < numCopies
  distinct : (runs.map RunDefinition.destination).Nodup

/-- One copy of a run. -/
structure Worker where
  destination : Text
  copy : Nat
  deriving DecidableEq, Repr

/-- `worker_destination`: the repetition directory. -/
def Worker.directory (w : Worker) : List Text := [w.destination, decimal w.copy]

/-- The workers of a campaign. -/
def Campaign.IsWorker (campaign : Campaign) (run : RunDefinition) (w : Worker) : Prop :=
  run ∈ campaign.runs ∧ w.destination = run.destination ∧ w.copy < campaign.numCopies

/-- A file: the worker of this campaign that wrote it, if one did, and its decoded
content. -/
structure File where
  origin : Option Worker
  content : Value

/-- The files below the output directory. -/
abbrev Files := Tree Text File

/-- What a campaign finds. -/
def filesOf (prior : Tree Text Value) : Files where
  items := prior.items.map fun file => (file.1, { origin := none, content := file.2 })
  nodup := by
    rw [List.map_map]
    exact prior.nodup

/-- The files of a worker, below its directory. -/
def Worker.writes (w : Worker) (results : List (List Text × Value)) : List (Op Text File) :=
  results.map fun file =>
    .write (w.directory ++ file.1) { origin := some w, content := file.2 }

/-- What is done for a worker. For a tool with case tasks, `launch_run` empties the
directory before it starts the tasks; else it opens the log and starts the module, and
`run_abacus` empties the directory itself. -/
def workerOps (tool : Tool) (w : Worker) (results : List (List Text × Value)) :
    List (Op Text File) :=
  if tool.enumeratesCaseTasks then .remove w.directory :: w.writes results
  else
    .write [w.destination, "_worker_logs".toList, decimal w.copy ++ ".log".toList]
        { origin := some w, content := .null } ::
      .remove w.directory :: w.writes results

/-- A trace of the workers of a campaign, every one up to its end: an interleaving of what
is done for them. -/
structure IsTrace (campaign : Campaign) (results : Worker → List (List Text × Value))
    (trace : List (Worker × Op Text File)) : Prop where
  workers : ∀ step ∈ trace, ∃ run, campaign.IsWorker run step.1
  order : ∀ run w, campaign.IsWorker run w →
    (trace.filter (·.1 = w)).map Prod.snd = workerOps run.tool w (results w)

/-! ## The merge of the results (`merge_json_runs_by_experiment.py`) -/

/-- The name matches `*.json`. -/
def isJson (name : Text) : Bool := ".json".toList.isSuffixOf name

/-- `glob` leaves out hidden names. -/
def visible (name : Text) : Bool := name.head? ≠ some '.'

/-- The path matches `dst_dir/*/*.json`. -/
def isInput (destination : Text) : List Text → Bool
  | [d, sub, base] => d = destination && visible sub && visible base && isJson base
  | _ => false

/-- The path matches `dst_dir/*.json`. -/
def isMergedOutput (destination : Text) : List Text → Bool
  | [d, base] => d = destination && visible base && isJson base
  | _ => false

/-- The name of a file. -/
def fileName (file : List Text × File) : Text := file.1.getLast?.getD []

/-- The name of the directory of a file. -/
def directoryName (file : List Text × File) : Text := file.1.dropLast.getLast?.getD []

/-- What the merge takes from outside this model: numbers, the equality of objects, the
order of `_natural_key`, and the JSON text of merged rows. -/
structure MergeEnvironment (F : Type) where
  readers : Readers F
  geometricMean : List F → Option F
  same : Object → Object → Bool
  naturalBefore : Text → Text → Bool
  render : List (MergedRow F) × Object × Object → Value

section Merging

variable {F : Type} (env : MergeEnvironment F)

/-- `sorted` by `_natural_key` of a name. -/
def naturalSort {α : Type} (name : α → Text) (xs : List α) : List α :=
  xs.insertionSort fun a b => env.naturalBefore (name b) (name a) = false

/-- The groups of `_group_input_files`, in the order of the merge. -/
def groupInputFiles (files : Files) (destination : Text) :
    List (Text × List (List Text × File)) :=
  naturalSort env Prod.fst
    (((Dict.group fileName (files.items.filter (isInput destination ·.1))).items).map
      fun group => (group.1, naturalSort env directoryName group.2))

/-- `_remove_previous_merged_outputs`. -/
def removePreviousMergedOutputs (files : Files) (destination : Text) : Files where
  items := files.items.filter fun file => !isMergedOutput destination file.1
  nodup := files.nodup.sublist (List.filter_sublist.map Prod.fst)

/-- One experiment of `merge_all`. -/
def mergeGroup (destination : Text) (files : Files) (group : Text × List (List Text × File)) :
    Except Exc Files := do
  let merged ← mergeSingleExperiment env.readers env.geometricMean env.same
    (group.2.map fun file => (join ['/'] file.1, file.2.content))
  return files.set [destination, group.1] { origin := none, content := env.render merged }

/-- `merge_all`. -/
def mergeAll (files : Files) (destination : Text) : Except Exc Files :=
  (groupInputFiles env files destination).foldlM (mergeGroup env destination)
    (removePreviousMergedOutputs files destination)

/-- The rows of a file that the merge keeps. -/
def mergedRows (file : List Text × Value) : List Object :=
  match readRepetition (join ['/'] file.1) file.2 with
  | .error _ => []
  | .ok (rows, metadata, _) =>
    rows.filter fun row => (rowKey env.readers (libraryOrUnknown metadata) row).isSome

/-- The merge step for one run after the other: the files that were read, and the tree
afterwards. -/
def mergeRuns : Files → List RunDefinition → Except Exc (List (List Text × File) × Files)
  | files, [] => .ok ([], files)
  | files, run :: rest => do
    let after ← mergeAll env files run.destination
    let merged ← mergeRuns after rest
    return ((groupInputFiles env files run.destination).flatMap Prod.snd ++ merged.1, merged.2)

end Merging

/-! ## The merge of the timings (`merge_verification_timings.py`) -/

/-- The path is that of a timing file of a run: `run_dir/*/_timings/*.json`, hidden names
included. -/
def isTiming (destination : Text) : List Text → Bool
  | [d, _, timings, base] => d = destination && timings = "_timings".toList && isJson base
  | _ => false

/-- `path.stem` of a JSON file. -/
def jsonStem (file : List Text × File) : Text := (fileName file).rdrop ".json".toList.length

/-- `_timing_files_by_case`. -/
def timingFilesByCase (files : Files) (destination : Text) :
    Dict Text (List (List Text × File)) :=
  Dict.group jsonStem ((files.items.filter (isTiming destination ·.1)).insertionSort
    fun a b => ¬ b.1 < a.1)

/-- The files the two merge steps of a campaign have read. -/
structure Report where
  inputs : List (List Text × File)
  timings : List (List Text × File)

section Ownership

variable {F : Type} (env : MergeEnvironment F) (campaign : Campaign)

/-- The two merge steps of `run_postprocess`. -/
def postprocess (files : Files) : Except Exc Report := do
  let merged ← mergeRuns env files campaign.runs
  return { inputs := merged.1
           timings := campaign.runs.flatMap fun run =>
             (timingFilesByCase merged.2 run.destination).items.flatMap Prod.snd }

/-! ## The property and its condition -/

/-- The file was written by this campaign, in a repetition directory. -/
def Campaign.Ours (file : List Text × File) : Prop :=
  ∃ run w, campaign.IsWorker run w ∧ file.2.origin = some w ∧ w.directory <+: file.1

/-- Every merged row and every timing file is from this campaign. -/
structure Report.Ours (report : Report) : Prop where
  rows : ∀ file ∈ report.inputs, ∀ _row ∈ mergedRows env (file.1, file.2.content),
    campaign.Ours file
  timings : ∀ file ∈ report.timings, campaign.Ours file

/-- The name of a repetition directory of the campaign. -/
def Campaign.IsRepetition (sub : Text) : Prop := ∃ copy < campaign.numCopies, sub = decimal copy

/-- Before the campaign, the other directories of its runs hold no result with a row that
would be merged, and no timing file. -/
structure NoStale (prior : Tree Text Value) : Prop where
  rows : ∀ run ∈ campaign.runs, ∀ sub base content,
    prior.get? [run.destination, sub, base] = some content →
    isInput run.destination [run.destination, sub, base] = true →
    ¬ campaign.IsRepetition sub → mergedRows env ([run.destination, sub, base], content) = []
  timings : ∀ run ∈ campaign.runs, ∀ sub base content,
    prior.get? [run.destination, sub, "_timings".toList, base] = some content →
    isJson base = true → campaign.IsRepetition sub

end Ownership

/-! ## What the merge steps read -/

section Reading

variable {F : Type} {env : MergeEnvironment F}

theorem mem_naturalSort {α : Type} {name : α → Text} {xs : List α} {x : α} :
    x ∈ naturalSort env name xs ↔ x ∈ xs :=
  (List.perm_insertionSort _ xs).mem_iff

theorem mem_matching {files : Files} {pattern : List Text → Bool} {file : List Text × File} :
    file ∈ files.items.filter (fun file => pattern file.1) ↔
      pattern file.1 = true ∧ files.get? file.1 = some file.2 := by
  have hitems : file ∈ files.items ↔ files.get? file.1 = some file.2 := Dict.mem_items_iff
  rw [List.mem_filter, hitems, and_comm]

theorem mem_groupInputFiles {files : Files} {destination : Text} {file : List Text × File} :
    file ∈ (groupInputFiles env files destination).flatMap Prod.snd ↔
      isInput destination file.1 = true ∧ files.get? file.1 = some file.2 := by
  rw [← mem_matching, List.mem_flatMap]
  refine Iff.trans ?_ (@Dict.mem_group_iff _ _ _ fileName _ _)
  constructor
  · rintro ⟨sorted, hsorted, hfile⟩
    obtain ⟨group, hgroup, rfl⟩ := List.mem_map.mp (mem_naturalSort.mp hsorted)
    exact ⟨group, hgroup, mem_naturalSort.mp hfile⟩
  · rintro ⟨group, hgroup, hfile⟩
    exact ⟨_, mem_naturalSort.mpr (List.mem_map.mpr ⟨group, hgroup, rfl⟩),
      mem_naturalSort.mpr hfile⟩

theorem mem_timingFilesByCase {files : Files} {destination : Text} {file : List Text × File} :
    file ∈ (timingFilesByCase files destination).items.flatMap Prod.snd ↔
      isTiming destination file.1 = true ∧ files.get? file.1 = some file.2 := by
  rw [← mem_matching, List.mem_flatMap]
  exact Dict.mem_group_iff.trans (List.perm_insertionSort _ _).mem_iff

/-! ## The merge keeps the repetition directories -/

theorem get?_removePreviousMergedOutputs {files : Files} {destination : Text} {path : List Text}
    (h : path.length ≠ 2) :
    (removePreviousMergedOutputs files destination).get? path = files.get? path := by
  apply lookup_filter
  intro content
  show (!isMergedOutput destination path) = true
  match path, h with
  | [], _ => rfl
  | [_], _ => rfl
  | [_, _], h => exact absurd rfl h
  | _ :: _ :: _ :: _, _ => rfl

/-- **Step lemma**: the merge of an experiment writes beside the repetition directories. -/
theorem get?_mergeGroup {destination : Text} {files after : Files}
    {group : Text × List (List Text × File)} {path : List Text} (hpath : path.length ≠ 2)
    (h : mergeGroup env destination files group = .ok after) :
    after.get? path = files.get? path := by
  obtain ⟨merged, -, h⟩ := Sequence.bind_eq_ok_iff.mp h
  obtain rfl := Except.ok.inj h
  refine Dict.get?_set_of_ne _ ?_ _
  rintro rfl
  exact hpath rfl

theorem get?_mergeGroups {destination : Text} {groups : List (Text × List (List Text × File))}
    {files after : Files} {path : List Text} (hpath : path.length ≠ 2)
    (h : groups.foldlM (mergeGroup env destination) files = .ok after) :
    after.get? path = files.get? path := by
  induction groups generalizing files with
  | nil => rw [Except.ok.inj h]
  | cons group groups ih =>
    rw [List.foldlM_cons] at h
    obtain ⟨next, hnext, h⟩ := Sequence.bind_eq_ok_iff.mp h
    rw [ih h, get?_mergeGroup hpath hnext]

theorem get?_mergeAll {destination : Text} {files after : Files} {path : List Text}
    (hpath : path.length ≠ 2) (h : mergeAll env files destination = .ok after) :
    after.get? path = files.get? path :=
  (get?_mergeGroups hpath h).trans (get?_removePreviousMergedOutputs hpath)

theorem length_of_isInput {destination : Text} {path : List Text}
    (h : isInput destination path = true) : path.length = 3 := by
  match path, h with
  | [_, _, _], _ => rfl

/-- **Run lemma** of the merge step: it reads what matches, in the tree the workers left. -/
theorem mergeRuns_spec {runs : List RunDefinition} {files : Files}
    {merged : List (List Text × File) × Files} (h : mergeRuns env files runs = .ok merged) :
    (∀ file, file ∈ merged.1 ↔ ∃ run ∈ runs, isInput run.destination file.1 = true ∧
      files.get? file.1 = some file.2) ∧
    ∀ path : List Text, path.length ≠ 2 → merged.2.get? path = files.get? path := by
  induction runs generalizing files merged with
  | nil =>
    obtain rfl := Except.ok.inj h
    simp
  | cons run rest ih =>
    obtain ⟨after, hafter, h⟩ := Sequence.bind_eq_ok_iff.mp h
    obtain ⟨others, hothers, h⟩ := Sequence.bind_eq_ok_iff.mp h
    obtain rfl := Except.ok.inj h
    obtain ⟨hinputs, hkept⟩ := ih hothers
    constructor
    · intro file
      rw [List.mem_append, mem_groupInputFiles, hinputs]
      constructor
      · rintro (hfile | ⟨run', hrun', hmatch, hget⟩)
        · exact ⟨run, by simp, hfile⟩
        · -- a merge writes results files, whose paths are shorter than those of the inputs
          rw [get?_mergeAll (by rw [length_of_isInput hmatch]; decide) hafter] at hget
          exact ⟨run', List.mem_cons_of_mem _ hrun', hmatch, hget⟩
      · rintro ⟨run', hrun', hmatch, hget⟩
        rcases List.mem_cons.mp hrun' with rfl | hrun'
        · exact Or.inl ⟨hmatch, hget⟩
        · right
          rw [← get?_mergeAll (by rw [length_of_isInput hmatch]; decide) hafter] at hget
          exact ⟨run', hrun', hmatch, hget⟩
    · intro path hpath
      rw [hkept path hpath, get?_mergeAll hpath hafter]

end Reading

/-! ## What the workers leave -/

section Workers

variable {campaign : Campaign} {results : Worker → List (List Text × Value)}
  {trace : List (Worker × Op Text File)}

/-- The log of a worker that is no case task. -/
def Worker.log (w : Worker) : List Text :=
  [w.destination, "_worker_logs".toList, decimal w.copy ++ ".log".toList]

theorem mem_workerOps {tool : Tool} {w : Worker} {written : List (List Text × Value)}
    {op : Op Text File} (h : op ∈ workerOps tool w written) :
    op = .remove w.directory ∨
      ∃ path content, op = .write path { origin := some w, content := content } ∧
        (w.directory <+: path ∨ path = w.log) := by
  have hwrites : ∀ op' ∈ w.writes written, ∃ path content,
      op' = .write path { origin := some w, content := content } ∧
        (w.directory <+: path ∨ path = w.log) := by
    intro op' hop
    obtain ⟨file, -, rfl⟩ := List.mem_map.mp hop
    exact ⟨_, _, rfl, Or.inl (List.prefix_append _ _)⟩
  unfold workerOps at h
  split at h
  · rcases List.mem_cons.mp h with rfl | h
    · exact Or.inl rfl
    · exact Or.inr (hwrites op h)
  · rcases List.mem_cons.mp h with rfl | h
    · exact Or.inr ⟨_, _, rfl, Or.inr rfl⟩
    · rcases List.mem_cons.mp h with rfl | h
      · exact Or.inl rfl
      · exact Or.inr (hwrites op h)

theorem remove_mem_workerOps (tool : Tool) (w : Worker) (written : List (List Text × Value)) :
    Op.remove w.directory ∈ workerOps tool w written := by
  unfold workerOps
  split
  · exact List.mem_cons_self
  · exact List.mem_cons_of_mem _ List.mem_cons_self

/-- A step of a trace is one of the operations of its worker. -/
theorem IsTrace.step_mem (h : IsTrace campaign results trace) {step : Worker × Op Text File}
    (hstep : step ∈ trace) :
    ∃ run, campaign.IsWorker run step.1 ∧
      step.2 ∈ workerOps run.tool step.1 (results step.1) := by
  obtain ⟨run, hrun⟩ := h.workers step hstep
  refine ⟨run, hrun, ?_⟩
  rw [← h.order run step.1 hrun]
  exact List.mem_map.mpr ⟨step, List.mem_filter.mpr ⟨hstep, by simp⟩, rfl⟩

/-- Every repetition directory is emptied. -/
theorem IsTrace.removed (h : IsTrace campaign results trace) {run : RunDefinition} {w : Worker}
    (hw : campaign.IsWorker run w) : ∃ step ∈ trace, step.2 = .remove w.directory := by
  have hmem := remove_mem_workerOps run.tool w (results w)
  rw [← h.order run w hw] at hmem
  obtain ⟨step, hstep, heq⟩ := List.mem_map.mp hmem
  exact ⟨step, (List.mem_filter.mp hstep).1, heq⟩

theorem get?_filesOf (prior : Tree Text Value) (path : List Text) :
    (filesOf prior).get? path =
      (prior.get? path).map fun content => { origin := none, content := content } := by
  show Dict.lookup path (prior.items.map _) = (Dict.lookup path prior.items).map _
  induction prior.items with
  | nil => rfl
  | cons item items ih =>
    rw [List.map_cons, Dict.lookup, Dict.lookup]
    by_cases hkey : item.1 = path
    · rw [if_pos hkey, if_pos hkey]
      rfl
    · rw [if_neg hkey, if_neg hkey, ih]

/-- A file that the workers leave is theirs, or was there before and stands in no repetition
directory of the campaign. -/
theorem ours_or_prior (h : IsTrace campaign results trace) {prior : Tree Text Value}
    {path : List Text} {file : File} (hlog : ∀ w : Worker, path ≠ w.log)
    (hfile : (FileTree.run trace (filesOf prior)).get? path = some file) :
    campaign.Ours (path, file) ∨
      (prior.get? path = some file.content ∧ ∀ run w, campaign.IsWorker run w →
        ¬ w.directory <+: path) := by
  rcases get?_run_cases hfile with ⟨step, hstep, hwrite⟩ | ⟨hprior, hreach⟩
  · left
    obtain ⟨run, hrun, hop⟩ := h.step_mem hstep
    rcases mem_workerOps hop with hremove | ⟨path', content, hop, hpath⟩
    · rw [hwrite] at hremove
      cases hremove
    · rw [hwrite] at hop
      obtain ⟨rfl, rfl⟩ := Op.write.inj hop
      rcases hpath with hpath | hpath
      · exact ⟨run, step.1, hrun, rfl, hpath⟩
      · exact absurd hpath (hlog step.1)
  · right
    rw [get?_filesOf] at hprior
    obtain ⟨content, hcontent, rfl⟩ := Option.map_eq_some_iff.mp hprior
    refine ⟨hcontent, fun run w hw hprefix => ?_⟩
    obtain ⟨step, hstep, hremove⟩ := h.removed hw
    apply hreach step hstep
    rw [hremove]
    exact hprefix

/-- A file in no repetition directory of the campaign stays. -/
theorem prior_kept (h : IsTrace campaign results trace) {prior : Tree Text Value}
    {path : List Text} {content : Value} (hlog : ∀ w : Worker, path ≠ w.log)
    (hprior : prior.get? path = some content)
    (hapart : ∀ run w, campaign.IsWorker run w → ¬ w.directory <+: path) :
    (FileTree.run trace (filesOf prior)).get? path =
      some { origin := none, content := content } := by
  rw [get?_run_of_untouched, get?_filesOf, hprior]
  · rfl
  · intro step hstep hreach
    obtain ⟨run, hrun, hop⟩ := h.step_mem hstep
    rcases mem_workerOps hop with hremove | ⟨path', content', hop, hpath⟩
    · rw [hremove] at hreach
      exact hapart run step.1 hrun hreach
    · rw [hop] at hreach
      obtain rfl : path' = path := hreach
      rcases hpath with hpath | hpath
      · exact hapart run step.1 hrun hpath
      · exact hlog step.1 hpath

end Workers

/-! ## Repetition directories -/

theorem isJson_log (name : Text) : isJson (name ++ ".log".toList) = false := by
  cases h : isJson (name ++ ".log".toList) with
  | false => rfl
  | true =>
    obtain ⟨stem, hstem⟩ := List.isSuffixOf_iff_suffix.mp h
    have hlast := congrArg List.getLast? hstem
    rw [List.getLast?_append_of_ne_nil _ (by decide), List.getLast?_append_of_ne_nil _ (by decide)]
      at hlast
    exact absurd hlast (by decide)

theorem isInput_spec {destination : Text} {path : List Text}
    (h : isInput destination path = true) :
    ∃ sub base, path = [destination, sub, base] ∧ isJson base = true := by
  match path, h with
  | [d, sub, base], h =>
    simp only [isInput, Bool.and_eq_true, decide_eq_true_eq] at h
    obtain ⟨⟨⟨rfl, -⟩, -⟩, hbase⟩ := h
    exact ⟨sub, base, rfl, hbase⟩

theorem isTiming_spec {destination : Text} {path : List Text}
    (h : isTiming destination path = true) :
    ∃ sub base, path = [destination, sub, "_timings".toList, base] ∧ isJson base = true := by
  match path, h with
  | [d, sub, timings, base], h =>
    simp only [isTiming, Bool.and_eq_true, decide_eq_true_eq] at h
    obtain ⟨⟨rfl, rfl⟩, hbase⟩ := h
    exact ⟨sub, base, rfl, hbase⟩

/-- A path below the destination of a run is in a repetition directory iff its second name
is the number of a copy. -/
theorem exists_directory_iff {campaign : Campaign} {run : RunDefinition} (hrun : run ∈ campaign.runs)
    {sub : Text} {rest : List Text} :
    (∃ run' w, campaign.IsWorker run' w ∧ w.directory <+: run.destination :: sub :: rest) ↔
      campaign.IsRepetition sub := by
  constructor
  · rintro ⟨run', w, hw, hprefix⟩
    obtain ⟨hdest, hprefix⟩ := List.cons_prefix_cons.mp hprefix
    obtain ⟨hsub, -⟩ := List.cons_prefix_cons.mp hprefix
    exact ⟨w.copy, hw.2.2, hsub.symm⟩
  · rintro ⟨copy, hcopy, rfl⟩
    refine ⟨run, ⟨run.destination, copy⟩, ⟨hrun, rfl, hcopy⟩, ?_⟩
    exact List.prefix_append [run.destination, decimal copy] rest

theorem ne_log_of_isInput {destination : Text} {path : List Text}
    (h : isInput destination path = true) (w : Worker) : path ≠ w.log := by
  rintro rfl
  obtain ⟨sub, base, hpath, hbase⟩ := isInput_spec h
  obtain ⟨-, hrest⟩ := List.cons.inj hpath
  obtain ⟨-, hrest⟩ := List.cons.inj hrest
  obtain ⟨rfl, -⟩ := List.cons.inj hrest
  rw [isJson_log] at hbase
  cases hbase

theorem ne_log_of_isTiming {destination : Text} {path : List Text}
    (h : isTiming destination path = true) (w : Worker) : path ≠ w.log := by
  rintro rfl
  obtain ⟨sub, base, hpath, -⟩ := isTiming_spec h
  exact absurd (congrArg List.length hpath) (by simp [Worker.log])

section Main

variable {F : Type} {env : MergeEnvironment F} {campaign : Campaign}
  {results : Worker → List (List Text × Value)} {trace : List (Worker × Op Text File)}
  {prior : Tree Text Value} {report : Report}

/-- The files of a report, in the tree the workers left. -/
theorem postprocess_spec {files : Files} (h : postprocess env campaign files = .ok report) :
    (∀ file, file ∈ report.inputs ↔ ∃ run ∈ campaign.runs,
      isInput run.destination file.1 = true ∧ files.get? file.1 = some file.2) ∧
    ∀ file, file ∈ report.timings ↔ ∃ run ∈ campaign.runs,
      isTiming run.destination file.1 = true ∧ files.get? file.1 = some file.2 := by
  obtain ⟨merged, hmerged, h⟩ := Sequence.bind_eq_ok_iff.mp h
  obtain rfl := Except.ok.inj h
  obtain ⟨hinputs, hkept⟩ := mergeRuns_spec hmerged
  refine ⟨hinputs, fun file => ?_⟩
  rw [List.mem_flatMap]
  refine exists_congr fun run => and_congr_right fun _ => ?_
  rw [mem_timingFilesByCase]
  refine and_congr_right fun hmatch => ?_
  obtain ⟨sub, base, hpath, -⟩ := isTiming_spec hmatch
  rw [hkept file.1 (by rw [hpath]; simp)]

theorem ours_of_noStale (htrace : IsTrace campaign results trace)
    (hreport : postprocess env campaign (FileTree.run trace (filesOf prior)) = .ok report)
    (h : NoStale env campaign prior) : report.Ours env campaign := by
  obtain ⟨hinputs, htimings⟩ := postprocess_spec hreport
  constructor
  · intro file hfile row hrow
    obtain ⟨run, hrun, hmatch, hget⟩ := (hinputs file).mp hfile
    obtain ⟨sub, base, hpath, -⟩ := isInput_spec hmatch
    rcases ours_or_prior htrace (ne_log_of_isInput hmatch) hget with hours | ⟨hprior, hapart⟩
    · exact hours
    · exfalso
      rw [hpath] at hprior hapart hmatch hrow
      have hrepetition : ¬ campaign.IsRepetition sub := by
        rw [← @exists_directory_iff campaign run hrun sub [base]]
        rintro ⟨run', w, hw, hprefix⟩
        exact hapart run' w hw hprefix
      rw [h.rows run hrun sub base _ hprior hmatch hrepetition] at hrow
      cases hrow
  · intro file hfile
    obtain ⟨run, hrun, hmatch, hget⟩ := (htimings file).mp hfile
    obtain ⟨sub, base, hpath, hbase⟩ := isTiming_spec hmatch
    rcases ours_or_prior htrace (ne_log_of_isTiming hmatch) hget with hours | ⟨hprior, hapart⟩
    · exact hours
    · exfalso
      rw [hpath] at hprior hapart
      obtain ⟨run', w, hw, hprefix⟩ :=
        (exists_directory_iff hrun).mpr (h.timings run hrun sub base _ hprior hbase)
      exact hapart run' w hw hprefix

theorem noStale_of_ours (htrace : IsTrace campaign results trace)
    (hreport : postprocess env campaign (FileTree.run trace (filesOf prior)) = .ok report)
    (h : report.Ours env campaign) : NoStale env campaign prior := by
  obtain ⟨hinputs, htimings⟩ := postprocess_spec hreport
  -- a file beside the repetition directories stays, and is nobody's
  have hstays : ∀ run ∈ campaign.runs, ∀ sub rest content,
      (∀ w : Worker, run.destination :: sub :: rest ≠ w.log) →
      prior.get? (run.destination :: sub :: rest) = some content →
      ¬ campaign.IsRepetition sub →
        (FileTree.run trace (filesOf prior)).get? (run.destination :: sub :: rest) =
          some { origin := none, content := content } := by
    intro run hrun sub rest content hlog hprior hsub
    refine prior_kept htrace hlog hprior fun run' w hw hprefix => ?_
    exact hsub ((exists_directory_iff hrun).mp ⟨run', w, hw, hprefix⟩)
  have hnobody : ∀ path content,
      ¬ campaign.Ours (path, { origin := none, content := content }) := by
    rintro path content ⟨run, w, -, horigin, -⟩
    cases horigin
  constructor
  · intro run hrun sub base content hprior hmatch hsub
    by_contra hrows
    obtain ⟨row, hrow⟩ := List.exists_mem_of_ne_nil _ hrows
    have hfile := hstays run hrun sub [base] content (ne_log_of_isInput hmatch) hprior hsub
    have hmem := (hinputs ([run.destination, sub, base], _)).mpr ⟨run, hrun, hmatch, hfile⟩
    exact hnobody _ _ (h.rows _ hmem row hrow)
  · intro run hrun sub base content hprior hbase
    by_contra hsub
    have hmatch : isTiming run.destination
        [run.destination, sub, "_timings".toList, base] = true := by
      simp [isTiming, hbase]
    have hfile := hstays run hrun sub ["_timings".toList, base] content
      (ne_log_of_isTiming hmatch) hprior hsub
    have hmem := (htimings ([run.destination, sub, "_timings".toList, base], _)).mpr
      ⟨run, hrun, hmatch, hfile⟩
    exact hnobody _ _ (h.timings _ hmem)

end Main

/-- **Everything that is merged is from this campaign iff** before it the directories of its
runs held nothing to merge beside its own repetition directories: whatever else was in the
output directory, whatever the workers write and however they interleave. -/
theorem merged_ours_iff {F : Type} (env : MergeEnvironment F) (campaign : Campaign)
    (results : Worker → List (List Text × Value)) (trace : List (Worker × Op Text File))
    (prior : Tree Text Value) (report : Report) (htrace : IsTrace campaign results trace)
    (hreport : postprocess env campaign (FileTree.run trace (filesOf prior)) = .ok report) :
    report.Ours env campaign ↔ NoStale env campaign prior :=
  ⟨noStale_of_ours htrace hreport, ours_of_noStale htrace hreport⟩

/-- Numbers as they are, the first of the times as their mean. -/
def plainEnvironment : MergeEnvironment Int where
  readers :=
    { toFloat := Value.asInt?, toInt := Value.asInt?, max := max, fixed2 := intText
      floatTruth := fun _ => false }
  geometricMean := List.head?
  same := fun _ _ => true
  naturalBefore := fun a b => decide (a < b)
  render := fun _ => .null

/-- A campaign with one BINSEC run. -/
def binsecCampaign (numCopies : Nat) (h : 0 < numCopies) : Campaign where
  numCopies := numCopies
  runs := [{ tool := .binsec, destination := "binsec".toList, plain := rfl }]
  positive := h
  distinct := List.nodup_singleton _

/-- A worker of it. -/
def binsecWorker (copy : Nat) : Worker := { destination := "binsec".toList, copy := copy }

/-- The result of a worker: one finding, and a timing file. -/
def aesResults (_ : Worker) : List (List Text × Value) :=
  [(["aes.json".toList], .dict [("data".toList, .list [.dict
      [("filename".toList, .str "aes.c".toList), ("line".toList, .int 7),
       ("non_ct_time".toList, .int 1)]])]),
   (["_timings".toList, "aes.json".toList], .null)]

/-- The workers one after the other. -/
def binsecTrace (numCopies : Nat) : List (Worker × Op Text File) :=
  (List.range numCopies).flatMap fun copy =>
    (workerOps .binsec (binsecWorker copy) (aesResults (binsecWorker copy))).map
      (binsecWorker copy, ·)

theorem workers_binsecTrace (numCopies : Nat) (h : 0 < numCopies) :
    ∀ step ∈ binsecTrace numCopies, ∃ run, (binsecCampaign numCopies h).IsWorker run step.1 := by
  intro step hstep
  obtain ⟨copy, hcopy, hstep⟩ := List.mem_flatMap.mp hstep
  obtain ⟨op, -, rfl⟩ := List.mem_map.mp hstep
  exact ⟨_, List.mem_singleton_self _, rfl, List.mem_range.mp hcopy⟩

theorem isTrace_binsecTrace_two :
    IsTrace (binsecCampaign 2 (by decide)) aesResults (binsecTrace 2) where
  workers := workers_binsecTrace 2 _
  order := by
    rintro run ⟨destination, copy⟩ ⟨hrun, rfl, hcopy⟩
    obtain rfl := List.mem_singleton.mp hrun
    have hcases : copy = 0 ∨ copy = 1 := by
      have hlt : copy < 2 := hcopy
      omega
    rcases hcases with rfl | rfl
    · rfl
    · rfl

theorem isTrace_binsecTrace_one :
    IsTrace (binsecCampaign 1 (by decide)) aesResults (binsecTrace 1) where
  workers := workers_binsecTrace 1 _
  order := by
    rintro run ⟨destination, copy⟩ ⟨hrun, rfl, hcopy⟩
    obtain rfl := List.mem_singleton.mp hrun
    obtain rfl : copy = 0 := by
      have hlt : copy < 1 := hcopy
      omega
    rfl

/-- What a campaign leaves to the next one. -/
def contentsOf (files : Files) : Tree Text Value where
  items := files.items.map fun file => (file.1, file.2.content)
  nodup := by
    rw [List.map_map]
    exact files.nodup

/-- What a campaign with two copies leaves in an empty output directory. -/
def leftBehind : Tree Text Value := contentsOf (FileTree.run (binsecTrace 2) (filesOf .empty))

theorem isRepetition_leftBehind {sub : Text} {rest : List Text} {content : Value}
    (h : leftBehind.get? ("binsec".toList :: sub :: rest) = some content) :
    (binsecCampaign 2 (by decide)).IsRepetition sub := by
  have hall : leftBehind.items.all (fun file =>
      file.1.tail.head? == some (decimal 0) || file.1.tail.head? == some (decimal 1)) = true := rfl
  have hsub := List.all_eq_true.mp hall _ (Dict.mem_of_lookup h)
  rcases Bool.or_eq_true _ _ |>.mp hsub with hsub | hsub
  · exact ⟨0, by decide, Option.some.inj (eq_of_beq hsub)⟩
  · exact ⟨1, by decide, Option.some.inj (eq_of_beq hsub)⟩

/-- A campaign with two copies after one with two copies: everything is its own. -/
theorem merged_ours_iff_two :
    ∃ report, postprocess plainEnvironment (binsecCampaign 2 (by decide))
        (FileTree.run (binsecTrace 2) (filesOf leftBehind)) = .ok report ∧
      report.inputs.length = 2 ∧
      report.Ours plainEnvironment (binsecCampaign 2 (by decide)) := by
  refine ⟨_, rfl, rfl,
    (merged_ours_iff _ _ aesResults _ leftBehind _ isTrace_binsecTrace_two rfl).mpr ⟨?_, ?_⟩⟩
  · intro run hrun sub base content hprior _ hsub
    obtain rfl := List.mem_singleton.mp hrun
    exact absurd (isRepetition_leftBehind hprior) hsub
  · intro run hrun sub base content hprior _
    obtain rfl := List.mem_singleton.mp hrun
    exact isRepetition_leftBehind hprior

/-- A campaign with one copy after one with two copies: the second copy of the earlier
campaign is merged again, its findings and its timings. -/
theorem second_copy_merged_again :
    IsTrace (binsecCampaign 2 (by decide)) aesResults (binsecTrace 2) ∧
    IsTrace (binsecCampaign 1 (by decide)) aesResults (binsecTrace 1) ∧
    ∃ report, postprocess plainEnvironment (binsecCampaign 1 (by decide))
        (FileTree.run (binsecTrace 1) (filesOf leftBehind)) = .ok report ∧
      report.inputs.length = 2 ∧ report.timings.length = 2 ∧
      ¬ report.Ours plainEnvironment (binsecCampaign 1 (by decide)) := by
  refine ⟨isTrace_binsecTrace_two, isTrace_binsecTrace_one, _, rfl, rfl, rfl, ?_⟩
  intro hours
  obtain ⟨run, w, -, horigin, -⟩ := hours.timings
    (["binsec".toList, decimal 1, "_timings".toList, "aes.json".toList],
      { origin := none, content := .null })
    (List.mem_cons_of_mem _ (List.mem_singleton_self _))
  cases horigin

end KleeDeps.Experiments
