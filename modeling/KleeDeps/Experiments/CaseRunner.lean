import KleeDeps.Data.Runs
import KleeDeps.Data.Writers
import KleeDeps.Experiments.CaseTasks
import KleeDeps.Experiments.Scheduler

/-!
# The cases of a runner, side by side

`main` of a runner starts a process for each case, at most `--max-parallel-cases` at a time, and
waits for them all. The processes write below one results directory; a case is recognised there by
its name. An exception in the loop over the cases ends the loop, and the processes that run are
stopped.

- `RunnerState`, `runnerStep`: the loop, the processes, and what they write;
- `Runner.Owns`: the files of a case, by its name;
- `RunnerInvariant`: what holds after any run;
- `cases_side_by_side`: **the results are those of the cases one after another**, and those of a
  case that went well are there whatever becomes of the others.
-/

namespace KleeDeps.Experiments

open Py Shared Postprocess FileTree

/-! ## The runners -/

/-- A script that runs cases. -/
inductive Runner where
  | klee (mode : KleeMode) (config : Option Text)
  | binsec
  | abacus

/-- The cases of the runner. -/
def Runner.kind (repr : Text → Text) (floatTruth : Text → Bool) : Runner → CaseKind
  | .klee mode config => kleeCases repr floatTruth mode config
  | .binsec => binsecCases repr floatTruth
  | .abacus => abacusCases repr floatTruth

/-- The field that names the output of a case. -/
def Runner.outputKey : Runner → Text
  | .klee .. => "result_name".toList
  | .binsec => "stats_file".toList
  | .abacus => "outfile".toList

/-- `TIMING_DIR_NAME` -/
def timings : Text := "_timings".toList

def workerLogs : Text := "_worker_logs".toList

/-- The components of `Path(text)`. -/
def pathParts (text : Text) : List Text :=
  (if text.head? = some '/' then [['/']] else []) ++
    (text.splitOn '/').filter fun part => part ≠ [] ∧ part ≠ ['.']

section Writes

variable {κ : Type}

/-- What a KLEE case does below the results directory, and the reader of its log. -/
inductive KleeWrites (resultName : Text) : Op Text κ → Prop
  | log (content : κ) :
    KleeWrites resultName (.write [workerLogs, resultName ++ ".log".toList] content)
  | timing (content : κ) :
    KleeWrites resultName (.write [timings, resultName ++ ".json".toList] content)
  /-- `shutil.rmtree(destination)` -/
  | clear : KleeWrites resultName (.remove [resultName])
  /-- `shutil.move(source_output, destination)` -/
  | output (file : List Text) (content : κ) :
    KleeWrites resultName (.write (resultName :: file) content)
  /-- `case_json`, written by the converter and by the replay -/
  | findings (content : κ) : KleeWrites resultName (.write [resultName ++ ".json".toList] content)

/-- What a BINSEC case does. -/
inductive BinsecWrites (statsFile : Text) : Op Text κ → Prop
  | log (content : κ) :
    BinsecWrites statsFile (.write [workerLogs, pathStem statsFile ++ ".log".toList] content)
  | stats (content : κ) : BinsecWrites statsFile (.write (pathParts statsFile) content)
  | timing (content : κ) :
    BinsecWrites statsFile (.write [timings, pathStem statsFile ++ ".json".toList] content)
  | findings (content : κ) :
    BinsecWrites statsFile (.write [pathStem statsFile ++ ".json".toList] content)

/-- What an ABACUS case does. -/
inductive AbacusWrites (outfile : Text) : Op Text κ → Prop
  | log (content : κ) :
    AbacusWrites outfile (.write [workerLogs, pathStem outfile ++ ".log".toList] content)
  /-- `case_log` -/
  | output (content : κ) : AbacusWrites outfile (.write [pathStem outfile ++ ".log".toList] content)
  | leaks (content : κ) : AbacusWrites outfile (.write (pathParts outfile) content)
  | findings (content : κ) :
    AbacusWrites outfile (.write [pathStem outfile ++ ".json".toList] content)

/-- What a case does whose table names the output `file`. -/
def Runner.Writes (file : Text) (op : Op Text κ) : Runner → Prop
  | .klee .. => KleeWrites file op
  | .binsec => BinsecWrites file op
  | .abacus => AbacusWrites file op

end Writes

/-! ### The files of a case -/

/-- The path belongs to the case with this name. -/
def Runner.Owns (name : Text) (path : List Text) : Runner → Prop
  | .klee .. => path.head? = some name ∨ path = [name ++ ".json".toList] ∨
      path = [timings, name ++ ".json".toList] ∨ path = [workerLogs, name ++ ".log".toList]
  | .binsec | .abacus => ∃ file, path.getLast? = some file ∧ pathStem file = name

/-- The name is one component of a path. -/
def IsComponent (name : Text) : Prop := '/' ∉ name ∧ name ≠ ['.'] ∧ name ≠ ['.', '.']

instance (name : Text) : Decidable (IsComponent name) :=
  inferInstanceAs (Decidable ('/' ∉ name ∧ name ≠ ['.'] ∧ name ≠ ['.', '.']))

/-- The names tell the cases apart. With BINSEC and ABACUS they are stems, and the runner has seen
to it that these are different; it is enough that none is made of dots. A KLEE name is a directory
beside the files of the others. -/
def Runner.Separates (names : List Text) : Runner → Prop
  | .klee .. => ∀ name ∈ names, IsComponent name ∧ name ≠ timings ∧ name ≠ workerLogs ∧
      ∀ other ∈ names, name ≠ other ++ ".json".toList
  | .binsec | .abacus => ∀ name ∈ names, ∃ c ∈ name, c ≠ '.'

instance decidableSeparates (names : List Text) :
    (runner : Runner) → Decidable (runner.Separates names)
  | .klee .. => inferInstanceAs (Decidable (∀ name ∈ names, IsComponent name ∧ name ≠ timings ∧
      name ≠ workerLogs ∧ ∀ other ∈ names, name ≠ other ++ ".json".toList))
  | .binsec | .abacus =>
    haveI (name : Text) : Decidable (∃ c ∈ name, c ≠ '.') := List.decidableBEx (· ≠ '.') name
    inferInstanceAs (Decidable (∀ name ∈ names, ∃ c ∈ name, c ≠ '.'))

theorem pathName_spec (text : Text) : '/' ∉ pathName text ∧ pathName text ≠ ['.'] := by
  rw [pathName]
  rcases hlast : ((text.splitOn '/').filter fun part => part ≠ [] ∧ part ≠ ['.']).getLast? with
    _ | name
  · exact ⟨List.not_mem_nil, (List.cons_ne_nil _ _).symm⟩
  · obtain ⟨hmem, hname⟩ := List.mem_filter.mp (List.mem_of_getLast? hlast)
    exact ⟨fun h => (notMem_of_mem_splitOn hmem h).2 rfl, (of_decide_eq_true hname).2⟩

/-- A single component is its own name. -/
theorem pathName_of_component {name : Text} (hslash : '/' ∉ name) (hdot : name ≠ ['.']) :
    pathName name = name := by
  rw [pathName, List.splitOn_eq_singleton hslash]
  by_cases hne : name = []
  · subst hne
    rfl
  · rw [List.filter_eq_self.mpr (by simpa using ⟨hne, hdot⟩)]
    rfl

theorem notMem_pathStem (text : Text) : '/' ∉ pathStem text := by
  have hname := (pathName_spec text).1
  rw [pathStem]
  split
  · exact fun h => hname ((List.rdropWhile_prefix _ _).subset (List.dropLast_subset _ h))
  · exact hname

/-- A stem is read back from behind it. -/
theorem pathStem_append {stem extension : Text} (hslash : '/' ∉ stem) (hdot : ∃ c ∈ stem, c ≠ '.')
    (hslash' : '/' ∉ extension) (hdot' : '.' ∉ extension) :
    pathStem (stem ++ '.' :: extension) = stem := by
  obtain ⟨c, hc, hne⟩ := hdot
  have hname : pathName (stem ++ '.' :: extension) = stem ++ '.' :: extension := by
    refine pathName_of_component ?_ fun h => ?_
    · simpa [hslash] using hslash'
    · have hmem : c ∈ stem ++ '.' :: extension := List.mem_append_left _ hc
      rw [h] at hmem
      exact hne (List.mem_singleton.mp hmem)
  have hdrop : (stem ++ '.' :: extension).rdropWhile (· ≠ '.') = stem ++ ['.'] := by
    have hextension : ∀ d ∈ extension.reverse, decide (d ≠ '.') = true := fun d hd =>
      decide_eq_true fun h => hdot' (h ▸ List.mem_reverse.mp hd)
    rw [List.rdropWhile, List.reverse_append, List.reverse_cons, List.append_assoc,
      List.dropWhile_append_of_pos hextension]
    simp
  rw [pathStem]
  simp only [hname, hdrop, List.dropLast_concat]
  exact if_pos ⟨List.mem_append_right _ List.mem_cons_self,
    List.any_eq_true.mpr ⟨c, hc, decide_eq_true hne⟩⟩

/-- The last component of a path has the stem of the path. -/
theorem getLast?_pathParts {text : Text} (h : ∃ c ∈ pathStem text, c ≠ '.') :
    ∃ file, (pathParts text).getLast? = some file ∧ pathStem file = pathStem text := by
  obtain ⟨hslash, hdot⟩ := pathName_spec text
  have hfixed : pathName (pathName text) = pathName text := pathName_of_component hslash hdot
  refine ⟨pathName text, ?_, by rw [pathStem, pathStem, hfixed]⟩
  have hne : pathName text ≠ [] := by
    intro hempty
    obtain ⟨c, hc, -⟩ := h
    rw [pathStem, hempty] at hc
    simp at hc
  rw [pathParts, List.getLast?_append]
  rw [pathName] at hne ⊢
  rcases hlast : ((text.splitOn '/').filter fun part => part ≠ [] ∧ part ≠ ['.']).getLast? with
    _ | name
  · rw [hlast] at hne
    exact absurd rfl hne
  · rfl

section Writes

variable {κ : Type} {op : Op Text κ} {path : List Text}

theorem KleeWrites.owns {name : Text} (h : KleeWrites name op) (hreach : op.Reaches path) :
    path.head? = some name ∨ path = [name ++ ".json".toList] ∨
      path = [timings, name ++ ".json".toList] ∨ path = [workerLogs, name ++ ".log".toList] := by
  cases h with
  | log => exact .inr (.inr (.inr hreach.symm))
  | timing => exact .inr (.inr (.inl hreach.symm))
  | clear =>
    obtain ⟨rest, rfl⟩ := hreach
    exact .inl rfl
  | output file =>
    obtain rfl := hreach
    exact .inl rfl
  | findings => exact .inr (.inl hreach.symm)

/-- A file that has the stem and an extension. -/
theorem stem_of_extension (above : List Text) {name : Text} (hslash : '/' ∉ name)
    (hdot : ∃ c ∈ name, c ≠ '.') (extension : Text) (hslash' : '/' ∉ extension)
    (hdot' : '.' ∉ extension) :
    ∃ file, (above ++ [name ++ '.' :: extension]).getLast? = some file ∧ pathStem file = name :=
  ⟨_, List.getLast?_concat, pathStem_append hslash hdot hslash' hdot'⟩

theorem BinsecWrites.owns {file : Text} (hdot : ∃ c ∈ pathStem file, c ≠ '.')
    (h : BinsecWrites file op) (hreach : op.Reaches path) :
    ∃ last, path.getLast? = some last ∧ pathStem last = pathStem file := by
  have hslash := notMem_pathStem file
  cases h with
  | log =>
    obtain rfl := hreach
    exact stem_of_extension [workerLogs] hslash hdot "log".toList (by decide) (by decide)
  | stats =>
    obtain rfl := hreach
    exact getLast?_pathParts hdot
  | timing =>
    obtain rfl := hreach
    exact stem_of_extension [timings] hslash hdot "json".toList (by decide) (by decide)
  | findings =>
    obtain rfl := hreach
    exact stem_of_extension [] hslash hdot "json".toList (by decide) (by decide)

theorem AbacusWrites.owns {file : Text} (hdot : ∃ c ∈ pathStem file, c ≠ '.')
    (h : AbacusWrites file op) (hreach : op.Reaches path) :
    ∃ last, path.getLast? = some last ∧ pathStem last = pathStem file := by
  have hslash := notMem_pathStem file
  cases h with
  | log =>
    obtain rfl := hreach
    exact stem_of_extension [workerLogs] hslash hdot "log".toList (by decide) (by decide)
  | output =>
    obtain rfl := hreach
    exact stem_of_extension [] hslash hdot "log".toList (by decide) (by decide)
  | leaks =>
    obtain rfl := hreach
    exact getLast?_pathParts hdot
  | findings =>
    obtain rfl := hreach
    exact stem_of_extension [] hslash hdot "json".toList (by decide) (by decide)

end Writes

/-- A path belongs to one case. -/
theorem owner_unique {runner : Runner} {names : List Text} (h : runner.Separates names)
    {a b : Text} (ha : a ∈ names) (hb : b ∈ names) {path : List Text}
    (howns : runner.Owns a path) (howns' : runner.Owns b path) : a = b := by
  have hstem : (∃ file, path.getLast? = some file ∧ pathStem file = a) →
      (∃ file, path.getLast? = some file ∧ pathStem file = b) → a = b := by
    rintro ⟨file, hfile, rfl⟩ ⟨file', hfile', rfl⟩
    rw [Option.some.inj (hfile.symm.trans hfile')]
  cases runner with
  | binsec => exact hstem howns howns'
  | abacus => exact hstem howns howns'
  | klee =>
    -- a directory is not a file beside it: the names say so
    have hhead : ∀ {a b : Text}, a ∈ names → b ∈ names → path.head? = some a →
        ¬ (path = [b ++ ".json".toList] ∨ path = [timings, b ++ ".json".toList] ∨
          path = [workerLogs, b ++ ".log".toList]) := by
      rintro a b ha hb hdirectory (rfl | rfl | rfl)
      · exact (h a ha).2.2.2 b hb (Option.some.inj hdirectory).symm
      · exact (h a ha).2.1 (Option.some.inj hdirectory).symm
      · exact (h a ha).2.2.1 (Option.some.inj hdirectory).symm
    rcases howns with hdirectory | hfile
    · rcases howns' with hdirectory' | hfile'
      · exact Option.some.inj (hdirectory.symm.trans hdirectory')
      · exact absurd hfile' (hhead ha hb hdirectory)
    · rcases howns' with hdirectory' | hfile'
      · exact absurd hfile (hhead hb ha hdirectory')
      · rcases hfile with rfl | rfl | rfl <;> rcases hfile' with h' | h' | h'
        · exact List.append_cancel_right (List.cons.inj h').1
        · exact absurd (congrArg List.length h') (by simp)
        · exact absurd (congrArg List.length h') (by simp)
        · exact absurd (congrArg List.length h') (by simp)
        · exact List.append_cancel_right (List.cons.inj (List.cons.inj h').2).1
        · exact absurd (List.cons.inj h').1 (by decide)
        · exact absurd (congrArg List.length h') (by simp)
        · exact absurd (List.cons.inj h').1 (by decide)
        · exact List.append_cancel_right (List.cons.inj (List.cons.inj h').2).1

/-! ## The runner -/

/-- The runner: the loop over the cases with its processes, what these have done to the results
directory, and the exception that has ended the loop. -/
structure RunnerState (κ : Type) where
  sched : Scheduler.State CaseTask
  /-- the file operations, each with the number of its process -/
  trace : List (Nat × Op Text κ)
  raised : Option Exc

/-- The results directory is empty. -/
def RunnerState.start {κ : Type} (tasks : List CaseTask) : RunnerState κ where
  sched := .start (tasks.map .fallback)
  trace := []
  raised := none

inductive RunnerAction where
  | main
  /-- the next operation of a process, or of the reader of its log -/
  | write (process : Nat)
  /-- the end of a process, with the reader of its log -/
  | exit (process : Nat) (code : Int)

/-- How a runner ends: `return 0`, `SystemExit(1)`, or an exception from the loop. -/
inductive Ending where
  | done
  | failed
  | raised (e : Exc)

section Runner

variable {κ : Type} (limit : Option Nat) (cases : Enumeration)
  (script : CaseTask → List (Op Text κ))

/-- What a process does in all, if it is left to it. -/
def scriptOf (s : RunnerState κ) (process : Nat) : List (Op Text κ) :=
  (s.sched.launched[process]?).elim [] script

/-- What it has done. -/
def progress (s : RunnerState κ) (process : Nat) : List (Op Text κ) :=
  (stepsOf process s.trace).map Prod.snd

/-- One turn of `main`: when the enumeration ends with an exception, so does the loop; the processes
that are left are stopped (`terminate_processes`), and `main` does nothing more. -/
def runnerTurn (s : RunnerState κ) : RunnerState κ :=
  match s.raised with
  | some _ => s
  | none =>
    match s.sched.items, cases.error with
    | [], some e => { s with raised := some e }
    | _, _ => { s with sched := Scheduler.mainStep limit s.sched }

/-- A process ends with 0 only behind its last operation. -/
def runnerStep : RunnerAction → RunnerState κ → Option (RunnerState κ)
  | .main, s => some (runnerTurn limit cases s)
  | .write process, s =>
    if s.sched.exitCode process = none then
      ((scriptOf script s process)[(progress s process).length]?).map fun op =>
        { s with trace := s.trace ++ [(process, op)] }
    else none
  | .exit process code, s =>
    if code = 0 ∧ (progress s process).length < (scriptOf script s process).length then none
    else (Scheduler.step limit s.sched (.exit process code)).map fun sched =>
      { s with sched := sched }

end Runner

/-- The end of the runner. -/
def RunnerState.ending {κ : Type} (s : RunnerState κ) : Option Ending :=
  match s.raised with
  | some e => some (.raised e)
  | none => s.sched.outcome.map fun
    | .postprocess => .done
    | .failed => .failed

section Endings

variable {κ : Type} {s : RunnerState κ}

theorem ending_cases {ending : Option Ending} (h : s.ending = ending) :
    (∃ e, s.raised = some e ∧ ending = some (.raised e)) ∨
    (s.raised = none ∧ s.sched.outcome = none ∧ ending = none) ∨
    (s.raised = none ∧ s.sched.outcome = some .postprocess ∧ ending = some .done) ∨
    (s.raised = none ∧ s.sched.outcome = some .failed ∧ ending = some .failed) := by
  subst h
  rw [RunnerState.ending]
  cases s.raised with
  | some e => exact .inl ⟨e, rfl, rfl⟩
  | none =>
    cases s.sched.outcome with
    | none => exact .inr (.inl ⟨rfl, rfl, rfl⟩)
    | some outcome =>
      cases outcome with
      | postprocess => exact .inr (.inr (.inl ⟨rfl, rfl, rfl⟩))
      | failed => exact .inr (.inr (.inr ⟨rfl, rfl, rfl⟩))

theorem outcome_of_done (h : s.ending = some .done) : s.sched.outcome = some .postprocess := by
  rcases ending_cases h with ⟨e, -, hend⟩ | ⟨-, -, hend⟩ | ⟨-, houtcome, -⟩ | ⟨-, -, hend⟩
  · cases hend
  · cases hend
  · exact houtcome
  · cases hend

theorem outcome_of_failed (h : s.ending = some .failed) : s.sched.outcome = some .failed := by
  rcases ending_cases h with ⟨e, -, hend⟩ | ⟨-, -, hend⟩ | ⟨-, -, hend⟩ | ⟨-, houtcome, -⟩
  · cases hend
  · cases hend
  · cases hend
  · exact houtcome

theorem raised_of_ending {e : Exc} (h : s.ending = some (.raised e)) : s.raised = some e := by
  rcases ending_cases h with ⟨e', hraised, hend⟩ | ⟨-, -, hend⟩ | ⟨-, -, hend⟩ | ⟨-, -, hend⟩
  · rw [hraised, Ending.raised.inj (Option.some.inj hend)]
  · cases hend
  · cases hend
  · cases hend

theorem running_of_ending (h : s.ending = none) : s.raised = none ∧ s.sched.outcome = none := by
  rcases ending_cases h with ⟨e, -, hend⟩ | ⟨hraised, houtcome, -⟩ | ⟨-, -, hend⟩ | ⟨-, -, hend⟩
  · cases hend
  · exact ⟨hraised, houtcome⟩
  · cases hend
  · cases hend

end Endings

/-! ### What holds after any run -/

/-- The scheduler of a runner has no groups: the first cases are launched, in their order. -/
structure Direct (tasks : List CaseTask) (s : Scheduler.State CaseTask) : Prop where
  items : ∃ rest, s.items = rest.map .fallback ∧ s.launched ++ rest = tasks
  round : s.round = []
  pending : s.pending = []

theorem direct_start (tasks : List CaseTask) :
    Direct tasks (Scheduler.State.start (tasks.map .fallback)) :=
  ⟨⟨tasks, rfl, rfl⟩, rfl, rfl⟩

/-- A turn of the scheduler launches the next case, or changes nothing here. -/
theorem Direct.mainStep {tasks : List CaseTask} {s : Scheduler.State CaseTask} (h : Direct tasks s)
    (limit : Option Nat) :
    Direct tasks (Scheduler.mainStep limit s) ∧
      (Scheduler.mainStep limit s).exitCode = s.exitCode ∧
      s.launched <+: (Scheduler.mainStep limit s).launched ∧
      ((Scheduler.mainStep limit s).outcome ≠ none → s.items = [] ∨ s.outcome ≠ none) := by
  obtain ⟨⟨rest, hitems, htasks⟩, hround, hpending⟩ := h
  have hturn := Scheduler.turn_mainStep limit s
  generalize Scheduler.mainStep limit s = s' at hturn ⊢
  cases hturn with
  | stopped houtcome =>
    exact ⟨⟨⟨rest, hitems, htasks⟩, hround, hpending⟩, rfl, List.prefix_rfl, fun _ => .inr houtcome⟩
  | reap hnone =>
    by_cases hfinished : Scheduler.finished s = []
    · rw [Scheduler.reap_of_nil hfinished]
      exact ⟨⟨⟨rest, hitems, htasks⟩, hround, hpending⟩, rfl, List.prefix_rfl, .inr⟩
    · rw [Scheduler.reap_of_ne_nil hfinished]
      exact ⟨⟨⟨rest, hitems, htasks⟩, hround, hpending⟩, rfl, List.prefix_rfl, .inr⟩
  | @fallback task items hnone hnext =>
    rw [hitems] at hnext
    cases rest with
    | nil => cases hnext
    | cons next rest =>
      obtain ⟨heq, rfl⟩ := List.cons.inj hnext
      obtain rfl : next = task := by
        cases heq
        rfl
      refine ⟨⟨⟨rest, rfl, ?_⟩, hround, hpending⟩, rfl, List.prefix_append _ _, fun houtcome =>
        absurd hnone houtcome⟩
      rw [← htasks]
      exact List.append_assoc _ _ _
  | queue hnone hnext =>
    rw [hitems] at hnext
    cases rest with
    | nil => cases hnext
    | cons next rest => cases hnext
  | task hnone hempty hnext =>
    rw [hround] at hnext
    cases hnext
  | nextRound hnone hempty hnext hne => exact absurd hpending hne
  | finish hnone hempty =>
    exact ⟨⟨⟨rest, hitems, htasks⟩, hround, hpending⟩, rfl, List.prefix_rfl, fun _ => .inl hempty⟩

section Invariant

variable {κ : Type} {limit : Option Nat} {cases : Enumeration}
  {script : CaseTask → List (Op Text κ)} {s s' : RunnerState κ}

/-- **Inversion**: everything a turn of `main` can do. -/
theorem runnerTurn_cases (limit : Option Nat) (cases : Enumeration) (s : RunnerState κ) :
    runnerTurn limit cases s = s ∧ s.raised ≠ none ∨
    (∃ e, s.raised = none ∧ s.sched.items = [] ∧ cases.error = some e ∧
      runnerTurn limit cases s = { s with raised := some e }) ∨
    (s.raised = none ∧ (s.sched.items ≠ [] ∨ cases.error = none) ∧
      runnerTurn limit cases s = { s with sched := Scheduler.mainStep limit s.sched }) := by
  rw [runnerTurn]
  cases hraised : s.raised with
  | some e => exact .inl ⟨rfl, Option.some_ne_none e⟩
  | none =>
    cases hitems : s.sched.items with
    | cons item items => exact .inr (.inr ⟨rfl, .inl (List.cons_ne_nil _ _), rfl⟩)
    | nil =>
      cases herror : cases.error with
      | none => exact .inr (.inr ⟨rfl, .inr rfl, rfl⟩)
      | some e => exact .inr (.inl ⟨e, rfl, rfl, rfl, rfl⟩)

/-- The scheduler below, the cases launched in their order, the processes at their operations. -/
structure RunnerInvariant (limit : Option Nat) (cases : Enumeration)
    (script : CaseTask → List (Op Text κ)) (s : RunnerState κ) : Prop where
  sched : Scheduler.Invariant limit (cases.tasks.map .fallback) s.sched
  direct : Direct cases.tasks s.sched
  partly : ∀ i, progress s i <+: scriptOf script s i
  whole : ∀ i, s.sched.exitCode i = some 0 → progress s i = scriptOf script s i
  raised : ∀ e, s.raised = some e → cases.error = some e ∧ s.sched.items = []
  exhausted : s.sched.outcome ≠ none → cases.error = none

theorem runnerInvariant_start (limit : Option Nat) (cases : Enumeration)
    (script : CaseTask → List (Op Text κ)) :
    RunnerInvariant limit cases script (.start cases.tasks) where
  sched := Scheduler.invariant_start limit _
  direct := direct_start _
  partly _ := List.prefix_rfl
  whole _ h := nomatch h
  raised _ h := nomatch h
  exhausted h := absurd rfl h

/-- A launch gives no process another script. -/
theorem scriptOf_launched {s : RunnerState κ} {sched : Scheduler.State CaseTask}
    (h : s.sched.launched <+: sched.launched) {i : Nat} (hi : i < s.sched.launched.length) :
    scriptOf script { s with sched := sched } i = scriptOf script s i := by
  obtain ⟨more, hmore⟩ := h
  rw [scriptOf, scriptOf, ← hmore, List.getElem?_append_left hi]

theorem scriptOf_of_le {s : RunnerState κ} {i : Nat} (hi : s.sched.launched.length ≤ i) :
    scriptOf script s i = [] := by
  rw [scriptOf, List.getElem?_eq_none hi]
  rfl

theorem RunnerInvariant.turn (h : RunnerInvariant limit cases script s) :
    RunnerInvariant limit cases script (runnerTurn limit cases s) := by
  rcases runnerTurn_cases limit cases s with ⟨hsame, -⟩ | ⟨e, hnone, hitems, herror, hturn⟩ |
    ⟨hnone, hgoes, hturn⟩
  · rw [hsame]
    exact h
  · rw [hturn]
    refine { h with raised := fun e' he => ?_ }
    rw [← Option.some.inj he]
    exact ⟨herror, hitems⟩
  · obtain ⟨hdirect, hcode, hlaunched, houtcome⟩ := h.direct.mainStep limit
    have hscript : ∀ i, progress s i <+:
        scriptOf script { s with sched := Scheduler.mainStep limit s.sched } i := by
      intro i
      rcases Nat.lt_or_ge i s.sched.launched.length with hi | hi
      · rw [scriptOf_launched hlaunched hi]
        exact h.partly i
      · have hpart := h.partly i
        rw [scriptOf_of_le hi] at hpart
        rw [List.prefix_nil.mp hpart]
        exact List.nil_prefix
    rw [hturn]
    refine ⟨Scheduler.invariant_mainStep h.sched, hdirect, hscript, fun i hi => ?_,
      fun e he => absurd (hnone.symm.trans he) (Option.some_ne_none e).symm, fun hover => ?_⟩
    · have hexit : s.sched.exitCode i = some 0 := hcode ▸ hi
      have hlt : i < s.sched.launched.length := by
        by_contra hge
        rw [h.sched.processes.unborn i (Nat.le_of_not_lt hge)] at hexit
        cases hexit
      rw [scriptOf_launched hlaunched hlt]
      exact h.whole i hexit
    · rcases houtcome hover with hempty | hbefore
      · exact hgoes.resolve_left (not_not_intro hempty)
      · exact h.exhausted hbefore

theorem progress_write (s : RunnerState κ) (process : Nat) (op : Op Text κ) (i : Nat) :
    progress { s with trace := s.trace ++ [(process, op)] } i =
      if process = i then progress s i ++ [op] else progress s i := by
  rw [progress, stepsOf, List.filter_append, List.map_append]
  show progress s i ++ _ = _
  split
  · next heq =>
    rw [List.filter_eq_self.mpr (by simpa using heq)]
    rfl
  · next hne =>
    rw [List.filter_eq_nil_iff.mpr (by simpa using hne)]
    exact List.append_nil _

theorem RunnerInvariant.write (h : RunnerInvariant limit cases script s) {process : Nat}
    {op : Op Text κ} (hruns : s.sched.exitCode process = none)
    (hop : (scriptOf script s process)[(progress s process).length]? = some op) :
    RunnerInvariant limit cases script { s with trace := s.trace ++ [(process, op)] } := by
  refine { sched := h.sched, direct := h.direct, raised := h.raised, exhausted := h.exhausted
           partly := fun i => ?_, whole := fun i hi => ?_ }
  · show progress { s with trace := s.trace ++ [(process, op)] } i <+: scriptOf script s i
    rw [progress_write]
    split
    · next heq =>
      subst heq
      obtain ⟨rest, hrest⟩ := h.partly process
      rw [← hrest, List.getElem?_append_right (Nat.le_refl _), Nat.sub_self] at hop
      obtain ⟨next, rest, rfl⟩ := List.exists_cons_of_ne_nil (l := rest) (by
        rintro rfl
        cases hop)
      obtain rfl := Option.some.inj hop
      exact ⟨rest, by rw [← hrest, List.append_assoc]; rfl⟩
    · exact h.partly i
  · show progress { s with trace := s.trace ++ [(process, op)] } i = scriptOf script s i
    have hi' : s.sched.exitCode i = some 0 := hi
    rw [progress_write, if_neg]
    · exact h.whole i hi'
    · rintro rfl
      rw [hruns] at hi'
      cases hi'

theorem RunnerInvariant.exit (h : RunnerInvariant limit cases script s) {process : Nat} {code : Int}
    (hdone : code = 0 → (scriptOf script s process).length ≤ (progress s process).length)
    {sched : Scheduler.State CaseTask}
    (hsched : Scheduler.step limit s.sched (.exit process code) = some sched) :
    RunnerInvariant limit cases script { s with sched := sched } := by
  have hinvariant := Scheduler.invariant_step h.sched hsched
  rw [Scheduler.step] at hsched
  split at hsched
  · obtain rfl := Option.some.inj hsched
    refine { sched := hinvariant, direct := ⟨h.direct.items, h.direct.round, h.direct.pending⟩
             partly := h.partly, raised := h.raised, exhausted := h.exhausted, whole := fun i hi => ?_ }
    show progress s i = scriptOf script s i
    have hi' : (if i = process then some code else s.sched.exitCode i) = some 0 := hi
    split at hi'
    · next heq =>
      subst heq
      exact (h.partly i).eq_of_length_le (hdone (Option.some.inj hi'))
    · exact h.whole i hi'
  · cases hsched

/-- **Step lemma**: a turn, an operation or an exit keeps the invariant. -/
theorem RunnerInvariant.step (h : RunnerInvariant limit cases script s) {action : RunnerAction}
    (hstep : runnerStep limit cases script action s = some s') :
    RunnerInvariant limit cases script s' := by
  cases action with
  | main =>
    rw [← Option.some.inj hstep]
    exact h.turn
  | write process =>
    rw [runnerStep] at hstep
    split at hstep
    · next hruns =>
      obtain ⟨op, hop, rfl⟩ := Option.map_eq_some_iff.mp hstep
      exact h.write hruns hop
    · cases hstep
  | exit process code =>
    rw [runnerStep] at hstep
    split at hstep
    · cases hstep
    · next hdone =>
      obtain ⟨sched, hsched, rfl⟩ := Option.map_eq_some_iff.mp hstep
      exact h.exit (fun hzero => Nat.le_of_not_lt fun hlt => hdone ⟨hzero, hlt⟩) hsched

theorem runnerInvariant_run {actions : List RunnerAction} {s : RunnerState κ}
    (hrun : Runs.run (runnerStep limit cases script) actions (.start cases.tasks) = some s) :
    RunnerInvariant limit cases script s :=
  Runs.invariant_of_run (fun _ _ _ h hstep => h.step hstep)
    (runnerInvariant_start limit cases script) hrun

end Invariant

/-! ## What a runner guarantees -/

section Results

variable {κ : Type}

/-- What the process of a task does is what the runner does for the output that the table of its
case names. -/
def Runner.IsScript (repr : Text → Text) (floatTruth : Text → Bool)
    (definitions : List BenchmarkDefinition) (script : CaseTask → List (Op Text κ))
    (task : CaseTask) (runner : Runner) : Prop :=
  ∃ d table file, definition repr definitions task.libraryId task.targetId = .ok d ∧
    (runner.kind repr floatTruth).workerCase repr definitions task.address = .ok table ∧
    expectString table runner.outputKey
      ((runner.kind repr floatTruth).location d task.caseIndex) = .ok file ∧
    ∀ op ∈ script task, runner.Writes file op

/-- What is left for `main` to do. -/
def runnerLeft (s : RunnerState κ) : Nat := Scheduler.left s.sched + s.raised.isNone.toNat

/-- What holds at any time. -/
structure SideBySide (runner : Runner) (limit : Option Nat) (cases : Enumeration)
    (script : CaseTask → List (Op Text κ)) (s : RunnerState κ) : Prop where
  /-- `--max-parallel-cases` -/
  bound : ∀ n, limit = some n → s.sched.active.length ≤ n ∧
    (Scheduler.processesRunning s.sched).length ≤ n
  inOrder : s.sched.launched <+: cases.tasks
  /-- What a case that went well has written is there, whatever the others did. -/
  kept : ∀ i task, s.sched.launched[i]? = some task → s.sched.exitCode i = some 0 →
    ∀ path, runner.Owns task.logStem path →
      (run s.trace .empty).get? path = (alone (script task) .empty).get? path
  /-- `return 0`: every case went well, and the results are those of the cases one after another. -/
  done : s.ending = some .done → cases.error = none ∧ s.sched.launched = cases.tasks ∧
    (∀ i < cases.tasks.length, s.sched.exitCode i = some 0) ∧
    Same (run s.trace .empty) (alone (cases.tasks.flatMap script) .empty)
  /-- `SystemExit(1)`: every case was run up to its end, and one went wrong. -/
  failed : s.ending = some .failed → cases.error = none ∧ s.sched.launched = cases.tasks ∧
    (∀ i < cases.tasks.length, s.sched.exitCode i ≠ none) ∧
    ∃ i < cases.tasks.length, s.sched.exitCode i ≠ some 0
  /-- An exception from the loop comes behind the cases before it. -/
  raised : ∀ e, s.ending = some (.raised e) →
    cases.error = some e ∧ s.sched.launched = cases.tasks
  /-- `main` waits only for a process that runs. -/
  goesOn : s.ending = none → (∀ i ∈ s.sched.active, s.sched.exitCode i ≠ none) →
    runnerLeft (runnerTurn limit cases s) < runnerLeft s

variable {repr : Text → Text} {floatTruth : Text → Bool} {definitions : List BenchmarkDefinition}
  {runner : Runner} {limit : Option Nat} {cases : Enumeration}
  {script : CaseTask → List (Op Text κ)} {s : RunnerState κ}

/-- What a process reaches belongs to its case. -/
theorem owns_of_isScript {names : List Text} (hnames : runner.Separates names) {task : CaseTask}
    (hname : task.logStem ∈ names)
    (hruns : (runner.kind repr floatTruth).Runs repr definitions task)
    (hscript : runner.IsScript repr floatTruth definitions script task) {op : Op Text κ}
    (hop : op ∈ script task) {path : List Text} (hreach : op.Reaches path) :
    runner.Owns task.logStem path := by
  obtain ⟨d, table, hd, htable, -, hstem⟩ := hruns
  obtain ⟨d', table', file, hd', htable', hfile, hwrites⟩ := hscript
  obtain rfl := Except.ok.inj (hd.symm.trans hd')
  obtain rfl := Except.ok.inj (htable.symm.trans htable')
  have hwrite := hwrites op hop
  cases runner with
  | klee mode config =>
    obtain rfl := Except.ok.inj (hfile.symm.trans hstem)
    exact KleeWrites.owns hwrite hreach
  | binsec =>
    obtain ⟨file', hfile', hname'⟩ := Sequence.bind_eq_ok_iff.mp hstem
    obtain rfl := Except.ok.inj (hfile.symm.trans hfile')
    have heq : pathStem file = task.logStem := Except.ok.inj hname'
    rw [Runner.Owns, ← heq]
    exact BinsecWrites.owns (heq ▸ hnames _ hname) hwrite hreach
  | abacus =>
    obtain ⟨file', hfile', hname'⟩ := Sequence.bind_eq_ok_iff.mp hstem
    obtain rfl := Except.ok.inj (hfile.symm.trans hfile')
    have heq : pathStem file = task.logStem := Except.ok.inj hname'
    rw [Runner.Owns, ← heq]
    exact AbacusWrites.owns (heq ▸ hnames _ hname) hwrite hreach

/-- An operation is one of the script of its process. -/
theorem RunnerInvariant.mem_script (h : RunnerInvariant limit cases script s)
    {step : Nat × Op Text κ} (hstep : step ∈ s.trace) :
    ∃ task, s.sched.launched[step.1]? = some task ∧ step.2 ∈ script task := by
  have hmem : step.2 ∈ scriptOf script s step.1 := (h.partly step.1).subset
    (List.mem_map_of_mem (mem_stepsOf.mpr ⟨hstep, rfl⟩))
  rw [scriptOf] at hmem
  cases htask : s.sched.launched[step.1]? with
  | none =>
    rw [htask] at hmem
    exact absurd hmem List.not_mem_nil
  | some task =>
    rw [htask] at hmem
    exact ⟨task, rfl, hmem⟩

theorem RunnerInvariant.launched_prefix (h : RunnerInvariant limit cases script s) :
    s.sched.launched <+: cases.tasks := by
  obtain ⟨rest, -, htasks⟩ := h.direct.items
  exact ⟨rest, htasks⟩

theorem RunnerInvariant.getElem?_tasks (h : RunnerInvariant limit cases script s) {i : Nat}
    {task : CaseTask} (htask : s.sched.launched[i]? = some task) : cases.tasks[i]? = some task := by
  obtain ⟨rest, hrest⟩ := h.launched_prefix
  rw [← hrest, List.getElem?_append_left (List.getElem?_eq_some_iff.mp htask).1, htask]

theorem RunnerInvariant.launched_all (h : RunnerInvariant limit cases script s)
    (hitems : s.sched.items = []) : s.sched.launched = cases.tasks := by
  obtain ⟨rest, hrest, htasks⟩ := h.direct.items
  rw [hitems] at hrest
  rw [← htasks, List.map_eq_nil_iff.mp hrest.symm, List.append_nil]

/-- When the scheduler is over, the cases were all launched and have all ended. -/
theorem RunnerInvariant.ended (h : RunnerInvariant limit cases script s)
    {outcome : Scheduler.Outcome} (houtcome : s.sched.outcome = some outcome) :
    cases.error = none ∧ s.sched.launched = cases.tasks ∧
      (∀ i < cases.tasks.length, s.sched.exitCode i ≠ none) ∧
      (outcome = .postprocess ↔ ∀ i < cases.tasks.length, s.sched.exitCode i = some 0) := by
  obtain ⟨hqueued, hactive, hiff⟩ := h.sched.outcome outcome houtcome
  have herror : cases.error = none := h.exhausted (by rw [houtcome]; exact Option.some_ne_none _)
  have hlaunched : s.sched.launched = cases.tasks := by
    obtain ⟨rest, hrest, htasks⟩ := h.direct.items
    have hnil : s.sched.items.flatMap Scheduler.Item.tasks = [] :=
      (List.append_eq_nil_iff.mp (List.append_eq_nil_iff.mp hqueued).1).1
    rw [hrest, List.flatMap_map] at hnil
    cases rest with
    | nil => rw [← htasks, List.append_nil]
    | cons task rest => cases hnil
  rw [← hlaunched]
  refine ⟨herror, rfl, fun i hi => ?_, hiff.trans (Scheduler.failures_eq_false_iff h.sched.processes
    hactive)⟩
  obtain ⟨code, hcode, -⟩ := h.sched.processes.reaped i hi (hactive ▸ List.not_mem_nil)
  rw [hcode]
  exact Option.some_ne_none code

/-- Processes that write apart and are all done leave the files they leave one after another. -/
theorem RunnerInvariant.same (h : RunnerInvariant limit cases script s) (hapart : Apart s.trace)
    (hlaunched : s.sched.launched = cases.tasks)
    (hzero : ∀ i < cases.tasks.length, s.sched.exitCode i = some 0) :
    Same (run s.trace .empty) (alone (cases.tasks.flatMap script) .empty) := by
  rw [List.flatMap_def]
  refine same_one_by_one hapart (fun i => ?_) _
  have hscripts : (cases.tasks.map script).getD i [] = scriptOf script s i := by
    rw [scriptOf, hlaunched, List.getD_eq_getElem?_getD, List.getElem?_map]
    cases cases.tasks[i]? <;> rfl
  rw [hscripts]
  rcases Nat.lt_or_ge i cases.tasks.length with hi | hi
  · exact h.whole i (hzero i hi)
  · have hpart := h.partly i
    rw [scriptOf_of_le (hlaunched ▸ hi)] at hpart ⊢
    exact List.prefix_nil.mp hpart

/-- `main` waits only for a process that runs. -/
theorem left_runnerTurn (hlimit : ∀ n, limit = some n → 1 ≤ n) (hend : s.ending = none)
    (hexited : ∀ i ∈ s.sched.active, s.sched.exitCode i ≠ none) :
    runnerLeft (runnerTurn limit cases s) < runnerLeft s := by
  obtain ⟨hraised, houtcome⟩ := running_of_ending hend
  rcases runnerTurn_cases limit cases s with ⟨-, hne⟩ | ⟨e, -, -, -, hturn⟩ | ⟨-, -, hturn⟩
  · exact absurd hraised hne
  · rw [hturn, runnerLeft, runnerLeft, hraised]
    exact Nat.lt_succ_self _
  · rw [hturn, runnerLeft, runnerLeft]
    refine Nat.add_lt_add_right ((Scheduler.left_mainStep hlimit s.sched).resolve_right ?_) _
    rintro ⟨-, hover | ⟨i, hi, hruns⟩⟩
    · exact hover houtcome
    · exact hexited i hi hruns

/-- The path belongs to the case of the process. -/
def ProcessOwns (runner : Runner) (s : RunnerState κ) (process : Nat) (path : List Text) : Prop :=
  ∃ task, s.sched.launched[process]? = some task ∧ runner.Owns task.logStem path

/-- A path belongs to one process. -/
theorem RunnerInvariant.owner_unique (h : RunnerInvariant limit cases script s)
    (hnodup : (cases.tasks.map CaseTask.logStem).Nodup)
    (hnames : runner.Separates (cases.tasks.map CaseTask.logStem)) {i j : Nat} {path : List Text}
    (hi : ProcessOwns runner s i path) (hj : ProcessOwns runner s j path) : i = j := by
  obtain ⟨a, ha, howns⟩ := hi
  obtain ⟨b, hb, howns'⟩ := hj
  have hname : ∀ {k : Nat} {task : CaseTask}, s.sched.launched[k]? = some task →
      (cases.tasks.map CaseTask.logStem)[k]? = some task.logStem := by
    intro k task htask
    rw [List.getElem?_map, h.getElem?_tasks htask]
    rfl
  have hsame := Experiments.owner_unique hnames (List.mem_of_getElem? (hname ha))
    (List.mem_of_getElem? (hname hb)) howns howns'
  refine (List.getElem?_inj (List.getElem?_eq_some_iff.mp (hname ha)).1 hnodup).mp ?_
  rw [hname ha, hname hb, hsame]

/-- What the processes reach is their own. -/
theorem RunnerInvariant.owns (h : RunnerInvariant limit cases script s)
    (hruns : ∀ task ∈ cases.tasks, (runner.kind repr floatTruth).Runs repr definitions task)
    (hscript : ∀ task ∈ cases.tasks, runner.IsScript repr floatTruth definitions script task)
    (hnames : runner.Separates (cases.tasks.map CaseTask.logStem)) {step : Nat × Op Text κ}
    (hstep : step ∈ s.trace) {path : List Text} (hreach : step.2.Reaches path) :
    ProcessOwns runner s step.1 path := by
  obtain ⟨task, htask, hop⟩ := h.mem_script hstep
  have hmem : task ∈ cases.tasks := h.launched_prefix.subset (List.mem_of_getElem? htask)
  exact ⟨task, htask, owns_of_isScript hnames (List.mem_map_of_mem hmem) (hruns task hmem)
    (hscript task hmem) hop hreach⟩

end Results

/-- A target with two configurations. -/
def aesDefinition : BenchmarkDefinition where
  libraryId := "mbedtls".toList
  targetId := "aes".toList
  configLocation := "mbedtls.toml".toList
  tools := ["binsec".toList]
  extraConfig := [("configs".toList, .list [
    .dict [("config".toList, .str "ecb".toList), ("public_mode".toList, .str "fix_pub".toList)],
    .dict [("config".toList, .str "cbc".toList), ("public_mode".toList, .str "var_pub".toList)]])]
  codePath := "benchmarks/mbedtls".toList
  runnerProfiles := []

/-- Its cases. -/
def aesCases : Enumeration where
  tasks := [
    { tag := "mbedtls:aes (ecb)".toList, logStem := "mbedtls_aes_ecb".toList
      libraryId := "mbedtls".toList, targetId := "aes".toList, caseIndex := 0 },
    { tag := "mbedtls:aes (cbc)".toList, logStem := "mbedtls_aes_cbc".toList
      libraryId := "mbedtls".toList, targetId := "aes".toList, caseIndex := 1 }]
  error := none

/-- A log, the output of the tool, and the findings, each with the title in it. -/
def aesScript (task : CaseTask) : List (Op Text Text) :=
  [.write [workerLogs, task.logStem ++ ".log".toList] task.tag,
   .write [task.logStem ++ ".toml".toList] task.tag,
   .write [task.logStem ++ ".json".toList] task.tag]

theorem enumerate_aes :
    (Runner.binsec.kind id fun _ => true).enumerate id [aesDefinition]
      [("mbedtls".toList, "aes".toList)] = aesCases := rfl

theorem aesScript_writes {task : CaseTask} {file : Text} (hstem : pathStem file = task.logStem)
    (hparts : pathParts file = [task.logStem ++ ".toml".toList]) {op : Op Text Text}
    (hop : op ∈ aesScript task) : BinsecWrites file op := by
  rw [aesScript, ← hstem] at hop
  rw [← hstem] at hparts
  rcases List.mem_cons.mp hop with rfl | hop
  · exact .log _
  rcases List.mem_cons.mp hop with rfl | hop
  · rw [← hparts]
    exact .stats _
  · rw [List.mem_singleton.mp hop]
    exact .findings _

theorem isScript_aes : ∀ task ∈ aesCases.tasks,
    Runner.binsec.IsScript id (fun _ => true) [aesDefinition] aesScript task := by
  intro task htask
  rcases List.mem_cons.mp htask with rfl | htask
  · exact ⟨aesDefinition, _, "mbedtls_aes_ecb.toml".toList, rfl, rfl, rfl, fun op hop =>
      aesScript_writes (by decide) (by decide) hop⟩
  · rw [List.mem_singleton.mp htask]
    exact ⟨aesDefinition, _, "mbedtls_aes_cbc.toml".toList, rfl, rfl, rfl, fun op hop =>
      aesScript_writes (by decide) (by decide) hop⟩

end KleeDeps.Experiments
