import Mathlib.Algebra.Order.Group.Multiset
import Mathlib.Data.List.Flatten
import Mathlib.Order.WellFounded
import Mathlib.Tactic.Abel

/-!
# The campaign scheduler

The scheduling of `main` in `scripts/experiments/run_experiments.py`: `launch_run` launches a
fallback run at once or queues the case tasks of a run as a group, `launch_pending_case_tasks`
goes over the groups in rounds and launches one task of each, and a last loop waits for the
processes that are left. At the worker limit each launch waits in `reap_finished`.

`mainStep` is one turn of the scheduler; worker processes exit between its turns in any order
(`Action`, `run`). A process that exits behind the scan of `reap_finished` is seen by the next
scan.

- `invariant_run`: what holds after any run;
- `left_mainStep`: a turn changes nothing only while a worker still runs;
- `campaign_schedule`: the limit, every task once and in the order of its group, the end of
  the loop, and when postprocessing is reached.
-/

namespace KleeDeps.Experiments

namespace Scheduler

variable {τ : Type}

/-- A pending group: case tasks, at least one. -/
structure Group (τ : Type) where
  first : τ
  rest : List τ

/-- The tasks of a group, in the order of the list. -/
def Group.tasks (group : Group τ) : List τ := group.first :: group.rest

/-- `group[1:]`, if there is anything in it. -/
def Group.later (group : Group τ) : List (Group τ) :=
  match group.rest with
  | [] => []
  | task :: tasks => [⟨task, tasks⟩]

/-- What `launch_run` does for one copy of a run. -/
inductive Item (τ : Type) where
  | fallback (task : τ)
  | group (queue : Group τ)

def Item.tasks : Item τ → List τ
  | .fallback task => [task]
  | .group queue => queue.tasks

def Item.groups : Item τ → List (Group τ)
  | .fallback _ => []
  | .group queue => [queue]

inductive Outcome where
  | postprocess
  | failed
  deriving DecidableEq

structure State (τ : Type) where
  /-- the runs that `launch_run` still has to see -/
  items : List (Item τ)
  /-- what is left of the round over `pending_case_task_groups` -/
  round : List (Group τ)
  /-- the groups of the next round -/
  pending : List (Group τ)
  /-- the tasks launched, by process number -/
  launched : List τ
  /-- `process.exitcode` -/
  exitCode : Nat → Option Int
  /-- `active_runs` -/
  active : List Nat
  /-- `launch_failures` -/
  failures : Bool
  outcome : Option Outcome

def State.start (items : List (Item τ)) : State τ where
  items := items
  round := []
  pending := []
  launched := []
  exitCode := fun _ => none
  active := []
  failures := false
  outcome := none

/-- `len(active_runs) >= global_worker_limit`. -/
def full (limit : Option Nat) (s : State τ) : Bool :=
  match limit with
  | none => false
  | some n => n ≤ s.active.length

/-- The active processes seen to have exited. -/
def finished (s : State τ) : List Nat := s.active.filter fun i => (s.exitCode i).isSome

/-- One scan of `reap_finished`; without a finished process it sleeps and scans again. -/
def reap (s : State τ) : State τ :=
  if finished s = [] then s
  else { s with
    active := s.active.filter fun i => (s.exitCode i).isNone
    failures := s.failures || (finished s).any fun i => s.exitCode i ≠ some 0 }

/-- A launch: the new process is active. -/
def launch (task : τ) (s : State τ) : State τ :=
  { s with
    launched := s.launched ++ [task]
    active := s.active ++ [s.launched.length] }

/-- One turn of the scheduler. -/
def mainStep (limit : Option Nat) (s : State τ) : State τ :=
  match s.outcome with
  | some _ => s
  | none =>
    match s.items with
    | .fallback task :: items =>
      if full limit s then reap s else launch task { s with items := items }
    | .group group :: items => { s with items := items, pending := s.pending ++ [group] }
    | [] =>
      match s.round with
      | group :: round =>
        if full limit s then reap s
        else launch group.first
          { s with round := round, pending := s.pending ++ group.later }
      | [] =>
        if s.pending ≠ [] then { s with round := s.pending, pending := [] }
        else if s.active ≠ [] then reap s
        else { s with outcome := some (if s.failures then .failed else .postprocess) }

inductive Action where
  | main
  | exit (process : Nat) (code : Int)

/-- One turn of the scheduler, or the exit of a process that runs. -/
def step (limit : Option Nat) (s : State τ) : Action → Option (State τ)
  | .main => some (mainStep limit s)
  | .exit process code =>
    if process < s.launched.length ∧ s.exitCode process = none then
      some { s with exitCode := fun i => if i = process then some code else s.exitCode i }
    else none

/-- A run: turns in any order. -/
def run (limit : Option Nat) : List Action → State τ → Option (State τ)
  | [], s => some s
  | action :: actions, s => (step limit s action).bind (run limit actions)

/-! ### What a turn does -/

/-- The tasks not yet launched. -/
def queued (s : State τ) : List τ :=
  s.items.flatMap Item.tasks ++ s.round.flatMap Group.tasks ++ s.pending.flatMap Group.tasks

/-- The groups not yet used up. -/
def groups (s : State τ) : List (Group τ) :=
  s.items.flatMap Item.groups ++ s.round ++ s.pending

theorem tasks_later (group : Group τ) : group.later.flatMap Group.tasks = group.rest := by
  obtain ⟨first, rest⟩ := group
  cases rest with
  | nil => rfl
  | cons task tasks => exact List.append_nil _

/-- **Inversion**: everything a turn can do. -/
inductive Turn (limit : Option Nat) (s : State τ) : State τ → Prop
  | stopped (h : s.outcome ≠ none) : Turn limit s s
  | reap (h : s.outcome = none) (hactive : full limit s = true ∨ s.active ≠ []) :
      Turn limit s (reap s)
  | fallback {task : τ} {items : List (Item τ)} (h : s.outcome = none)
      (hitems : s.items = .fallback task :: items) (hfull : full limit s = false) :
      Turn limit s (launch task { s with items := items })
  | queue {group : Group τ} {items : List (Item τ)} (h : s.outcome = none)
      (hitems : s.items = .group group :: items) :
      Turn limit s { s with items := items, pending := s.pending ++ [group] }
  | task {group : Group τ} {round : List (Group τ)} (h : s.outcome = none)
      (hitems : s.items = []) (hround : s.round = group :: round)
      (hfull : full limit s = false) :
      Turn limit s (launch group.first
        { s with round := round, pending := s.pending ++ group.later })
  | nextRound (h : s.outcome = none) (hitems : s.items = []) (hround : s.round = [])
      (hpending : s.pending ≠ []) : Turn limit s { s with round := s.pending, pending := [] }
  | finish (h : s.outcome = none) (hitems : s.items = []) (hround : s.round = [])
      (hpending : s.pending = []) (hactive : s.active = []) :
      Turn limit s
        { s with outcome := some (if s.failures then .failed else .postprocess) }

theorem turn_mainStep (limit : Option Nat) (s : State τ) : Turn limit s (mainStep limit s) := by
  obtain ⟨items, round, pending, launched, exitCode, active, failures, outcome⟩ := s
  cases outcome with
  | some outcome => exact .stopped (Option.some_ne_none outcome)
  | none =>
    -- fallbacks and groups first, then the rounds; the end only when nothing is active
    cases items with
    | cons item items =>
      cases item with
      | fallback task =>
        by_cases hfull : full limit (State.mk (.fallback task :: items) round pending launched
            exitCode active failures none) = true
        · simp only [mainStep, if_pos hfull]
          exact .reap rfl (Or.inl hfull)
        · simp only [mainStep, if_neg hfull]
          exact .fallback rfl rfl (Bool.eq_false_iff.mpr hfull)
      | group queue => exact .queue rfl rfl
    | nil =>
      cases round with
      | cons group round =>
        by_cases hfull : full limit (State.mk [] (group :: round) pending launched exitCode
            active failures none) = true
        · simp only [mainStep, if_pos hfull]
          exact .reap rfl (Or.inl hfull)
        · simp only [mainStep, if_neg hfull]
          exact .task rfl rfl rfl (Bool.eq_false_iff.mpr hfull)
      | nil =>
        by_cases hpending : pending = []
        · by_cases hactive : active = []
          · simp only [mainStep, if_neg (not_not_intro hpending), if_neg (not_not_intro hactive)]
            exact .finish rfl rfl rfl hpending hactive
          · simp only [mainStep, if_neg (not_not_intro hpending), if_pos hactive]
            exact .reap rfl (Or.inr hactive)
        · simp only [mainStep, if_pos hpending]
          exact .nextRound rfl rfl rfl hpending

/-! ### The processes -/

/-- What holds of the processes: the active ones are the launched ones that were not reaped,
and the failure flag is set by the exit codes that were reaped. -/
structure Processes (limit : Option Nat) (s : State τ) : Prop where
  bound : ∀ n, limit = some n → s.active.length ≤ n
  nodup : s.active.Nodup
  active_lt : ∀ i ∈ s.active, i < s.launched.length
  unborn : ∀ i, s.launched.length ≤ i → s.exitCode i = none
  reaped : ∀ i < s.launched.length, i ∉ s.active →
    ∃ code, s.exitCode i = some code ∧ (code ≠ 0 → s.failures = true)
  failed : s.failures = true → ∃ i < s.launched.length, ∃ code,
    s.exitCode i = some code ∧ code ≠ 0

theorem mem_finished {s : State τ} {i : Nat} :
    i ∈ finished s ↔ i ∈ s.active ∧ ∃ code, s.exitCode i = some code := by
  show i ∈ s.active.filter _ ↔ _
  rw [List.mem_filter, Option.isSome_iff_exists]

theorem reap_of_nil {s : State τ} (h : finished s = []) : reap s = s := if_pos h

theorem reap_of_ne_nil {s : State τ} (h : finished s ≠ []) :
    reap s = { s with
      active := s.active.filter fun i => (s.exitCode i).isNone
      failures := s.failures || (finished s).any fun i => s.exitCode i ≠ some 0 } := if_neg h

theorem processes_start (limit : Option Nat) (items : List (Item τ)) :
    Processes limit (State.start items) where
  bound n _ := Nat.zero_le n
  nodup := List.nodup_nil
  active_lt _ hi := absurd hi List.not_mem_nil
  unborn _ _ := rfl
  reaped i hi := absurd hi (Nat.not_lt_zero i)
  failed h := absurd h Bool.false_ne_true

theorem Processes.reap {limit : Option Nat} {s : State τ} (h : Processes limit s) :
    Processes limit (reap s) := by
  by_cases hfinished : finished s = []
  · rw [reap_of_nil hfinished]
    exact h
  rw [reap_of_ne_nil hfinished]
  refine ⟨fun n hn => ?_, h.nodup.filter _, fun i hi => h.active_lt i (List.mem_of_mem_filter hi),
    h.unborn, fun i hi hnot => ?_, fun hfailures => ?_⟩
  · exact Nat.le_trans (List.length_filter_le _ _) (h.bound n hn)
  · show ∃ code, s.exitCode i = some code ∧ (code ≠ 0 → (s.failures || _) = true)
    by_cases hactive : i ∈ s.active
    · -- reaped by this scan
      cases hcode : s.exitCode i with
      | none => exact absurd (List.mem_filter.mpr ⟨hactive, by rw [hcode]; rfl⟩) hnot
      | some code =>
        refine ⟨code, rfl, fun hne => ?_⟩
        rw [Bool.or_eq_true]
        refine Or.inr (List.any_eq_true.mpr ⟨i, mem_finished.mpr ⟨hactive, code, hcode⟩, ?_⟩)
        simpa [hcode] using hne
    · obtain ⟨code, hcode, hfailures⟩ := h.reaped i hi hactive
      refine ⟨code, hcode, fun hne => ?_⟩
      rw [hfailures hne, Bool.true_or]
  · rcases Bool.or_eq_true _ _ ▸ hfailures with hbefore | hnow
    · exact h.failed hbefore
    · obtain ⟨i, hi, hne⟩ := List.any_eq_true.mp hnow
      obtain ⟨hactive, code, hcode⟩ := mem_finished.mp hi
      refine ⟨i, h.active_lt i hactive, code, hcode, fun hzero => ?_⟩
      rw [hcode, hzero] at hne
      exact absurd hne (by decide)

theorem full_eq_false {limit : Option Nat} {s : State τ} (h : full limit s = false) (n : Nat)
    (hn : limit = some n) : s.active.length < n := by
  subst hn
  exact Nat.lt_of_not_le (of_decide_eq_false h)

theorem Processes.launch {limit : Option Nat} {s : State τ} (h : Processes limit s)
    (hfull : full limit s = false) (task : τ) : Processes limit (launch task s) := by
  have hlength : (s.launched ++ [task]).length = s.launched.length + 1 := List.length_append
  refine ⟨fun n hn => ?_, ?_, fun i hi => ?_, fun i hi => ?_, fun i hi hnot => ?_,
    fun hfailures => ?_⟩
  · show (s.active ++ [s.launched.length]).length ≤ n
    rw [List.length_append]
    exact full_eq_false hfull n hn
  · show (s.active ++ [s.launched.length]).Nodup
    refine List.nodup_append'.mpr ⟨h.nodup, List.nodup_singleton _, fun i hi hlast => ?_⟩
    rw [List.mem_singleton.mp hlast] at hi
    exact Nat.lt_irrefl _ (h.active_lt _ hi)
  · show i < (s.launched ++ [task]).length
    rw [hlength]
    rcases List.mem_append.mp hi with hold | hlast
    · exact Nat.lt_succ_of_lt (h.active_lt i hold)
    · rw [List.mem_singleton.mp hlast]
      exact Nat.lt_succ_self _
  · have hi' : (s.launched ++ [task]).length ≤ i := hi
    exact h.unborn i (by omega)
  · have hi' : i < (s.launched ++ [task]).length := hi
    have hne : i ≠ s.launched.length := fun heq =>
      hnot (List.mem_append_right _ (List.mem_singleton.mpr heq))
    exact h.reaped i (by omega) fun hold => hnot (List.mem_append_left _ hold)
  · obtain ⟨i, hi, hcode⟩ := h.failed hfailures
    refine ⟨i, ?_, hcode⟩
    show i < (s.launched ++ [task]).length
    omega

/-- Frame: the processes do not see the queues. -/
theorem Processes.congr {limit : Option Nat} {s s' : State τ} (h : Processes limit s)
    (hlaunched : s'.launched = s.launched) (hcode : s'.exitCode = s.exitCode)
    (hactive : s'.active = s.active) (hfailures : s'.failures = s.failures) :
    Processes limit s' := by
  obtain ⟨items, round, pending, launched, exitCode, active, failures, outcome⟩ := s'
  dsimp only at hlaunched hcode hactive hfailures
  subst hlaunched hcode hactive hfailures
  exact ⟨h.bound, h.nodup, h.active_lt, h.unborn, h.reaped, h.failed⟩

theorem Processes.exit {limit : Option Nat} {s : State τ} (h : Processes limit s)
    {process : Nat} (code : Int) (hlt : process < s.launched.length)
    (hruns : s.exitCode process = none) :
    Processes limit
      { s with exitCode := fun i => if i = process then some code else s.exitCode i } := by
  have hother : ∀ i code', s.exitCode i = some code' → i ≠ process := by
    rintro i code' hcode rfl
    rw [hruns] at hcode
    cases hcode
  refine ⟨h.bound, h.nodup, h.active_lt, fun i hi => ?_, fun i hi hnot => ?_,
    fun hfailures => ?_⟩
  · show (if i = process then some code else s.exitCode i) = none
    have hi' : s.launched.length ≤ i := hi
    rw [if_neg (by omega)]
    exact h.unborn i hi
  · obtain ⟨code', hcode, hfailures⟩ := h.reaped i hi hnot
    refine ⟨code', ?_, hfailures⟩
    show (if i = process then some code else s.exitCode i) = some code'
    rw [if_neg (hother i code' hcode), hcode]
  · obtain ⟨i, hi, code', hcode, hne⟩ := h.failed hfailures
    refine ⟨i, hi, code', ?_, hne⟩
    show (if i = process then some code else s.exitCode i) = some code'
    rw [if_neg (hother i code' hcode), hcode]

/-! ### The tasks -/

/-- What holds of the tasks: none is lost or repeated, and of each group a first part is
launched, in order, while the rest is a pending group. -/
structure Tasks (items : List (Item τ)) (s : State τ) : Prop where
  once : (s.launched ++ queued s).Perm (items.flatMap Item.tasks)
  inOrder : ∀ group, .group group ∈ items → ∃ done todo,
    group.tasks = done ++ todo ∧ done.Sublist s.launched ∧
    (todo = [] ∨ ∃ live ∈ groups s, live.tasks = todo)

theorem tasks_start (items : List (Item τ)) : Tasks items (State.start items) where
  once := by
    show ([] ++ (items.flatMap Item.tasks ++ [] ++ [])).Perm _
    rw [List.append_nil, List.append_nil, List.nil_append]
  inOrder group hgroup := by
    refine ⟨[], group.tasks, rfl, List.nil_sublist _, Or.inr ⟨group, ?_, rfl⟩⟩
    show group ∈ items.flatMap Item.groups ++ [] ++ []
    rw [List.append_nil, List.append_nil]
    exact List.mem_flatMap.mpr ⟨.group group, hgroup, List.mem_singleton_self group⟩

/-- Frame: the tasks stay as they are when the queues keep their tasks and their groups. -/
theorem Tasks.requeue {items : List (Item τ)} {s s' : State τ} (h : Tasks items s)
    (hlaunched : s'.launched = s.launched) (hqueued : (queued s').Perm (queued s))
    (hgroups : ∀ live ∈ groups s, live ∈ groups s') : Tasks items s' := by
  refine ⟨?_, fun group hgroup => ?_⟩
  · rw [hlaunched]
    exact (hqueued.append_left s.launched).trans h.once
  · obtain ⟨done, todo, hparts, hdone, htodo⟩ := h.inOrder group hgroup
    refine ⟨done, todo, hparts, hlaunched ▸ hdone, htodo.imp_right ?_⟩
    rintro ⟨live, hlive, heq⟩
    exact ⟨live, hgroups live hlive, heq⟩

/-- A fallback run is launched. -/
theorem Tasks.fallback {items rest : List (Item τ)} {s : State τ} {task : τ}
    (h : Tasks items s) (hitems : s.items = .fallback task :: rest) :
    Tasks items (launch task { s with items := rest }) := by
  refine ⟨?_, fun group hgroup => ?_⟩
  · refine List.Perm.trans ?_ h.once
    show ((s.launched ++ [task]) ++ queued { s with items := rest }).Perm
      (s.launched ++ queued s)
    have hqueued : queued s = task :: queued { s with items := rest } := by
      show s.items.flatMap Item.tasks ++ _ ++ _ = _
      rw [hitems]
      rfl
    rw [hqueued, List.append_assoc]
    rfl
  · obtain ⟨done, todo, hparts, hdone, htodo⟩ := h.inOrder group hgroup
    refine ⟨done, todo, hparts, hdone.trans (List.sublist_append_left _ _),
      htodo.imp_right ?_⟩
    rintro ⟨live, hlive, heq⟩
    refine ⟨live, ?_, heq⟩
    have hgroups : groups s = groups { s with items := rest } := by
      show s.items.flatMap Item.groups ++ _ ++ _ = _
      rw [hitems]
      rfl
    exact hgroups ▸ hlive

/-- The first task of the next group of the round is launched, the others wait for the next
round. -/
theorem Tasks.task {items : List (Item τ)} {round : List (Group τ)} {s : State τ}
    {next : Group τ} (h : Tasks items s) (hround : s.round = next :: round) :
    Tasks items (launch next.first
      { s with round := round, pending := s.pending ++ next.later }) := by
  refine ⟨?_, fun group hgroup => ?_⟩
  · refine List.Perm.trans ?_ h.once
    show ((s.launched ++ [next.first]) ++ (s.items.flatMap Item.tasks ++
        round.flatMap Group.tasks ++ (s.pending ++ next.later).flatMap Group.tasks)).Perm
      (s.launched ++ (s.items.flatMap Item.tasks ++ s.round.flatMap Group.tasks ++
        s.pending.flatMap Group.tasks))
    rw [hround, List.flatMap_cons, List.flatMap_append, tasks_later, List.append_assoc]
    refine List.Perm.append_left _ ?_
    show ([next.first] ++ (s.items.flatMap Item.tasks ++ round.flatMap Group.tasks ++
        (s.pending.flatMap Group.tasks ++ next.rest))).Perm
      (s.items.flatMap Item.tasks ++ (([next.first] ++ next.rest) ++
        round.flatMap Group.tasks) ++ s.pending.flatMap Group.tasks)
    generalize s.items.flatMap Item.tasks = a
    generalize round.flatMap Group.tasks = b
    generalize s.pending.flatMap Group.tasks = c
    simp only [← Multiset.coe_eq_coe, ← Multiset.coe_add]
    abel
  · obtain ⟨done, todo, hparts, hdone, htodo⟩ := h.inOrder group hgroup
    rcases htodo with hnil | ⟨live, hlive, heq⟩
    · exact ⟨done, todo, hparts, hdone.trans (List.sublist_append_left _ _), Or.inl hnil⟩
    by_cases hsame : live = next
    · -- the group moves on by one task
      subst hsame
      refine ⟨done ++ [live.first], live.rest, ?_, hdone.append_right _, ?_⟩
      · rw [hparts, ← heq, List.append_assoc]
        rfl
      · cases hrest : live.rest with
        | nil => exact Or.inl rfl
        | cons task tasks =>
          refine Or.inr ⟨⟨task, tasks⟩, ?_, rfl⟩
          refine List.mem_append_right _ (List.mem_append_right _ ?_)
          rw [Group.later, hrest]
          exact List.mem_singleton_self _
    · refine ⟨done, todo, hparts, hdone.trans (List.sublist_append_left _ _),
        Or.inr ⟨live, ?_, heq⟩⟩
      show live ∈ s.items.flatMap Item.groups ++ round ++ (s.pending ++ next.later)
      have hlive' : live ∈ s.items.flatMap Item.groups ++ s.round ++ s.pending := hlive
      rw [hround] at hlive'
      simp only [List.mem_append, List.mem_cons] at hlive' ⊢
      rcases hlive' with (hitem | hnext | hother) | hpending
      · exact Or.inl (Or.inl hitem)
      · exact absurd hnext hsame
      · exact Or.inl (Or.inr hother)
      · exact Or.inr (Or.inl hpending)

/-! ### Every run -/

/-- The invariant of the scheduler. -/
structure Invariant (limit : Option Nat) (items : List (Item τ)) (s : State τ) : Prop where
  processes : Processes limit s
  tasks : Tasks items s
  outcome : ∀ outcome, s.outcome = some outcome →
    queued s = [] ∧ s.active = [] ∧ (outcome = .postprocess ↔ s.failures = false)

theorem invariant_start (limit : Option Nat) (items : List (Item τ)) :
    Invariant limit items (State.start items) where
  processes := processes_start limit items
  tasks := tasks_start items
  outcome _ h := nomatch h

theorem outcome_reap (s : State τ) : (reap s).outcome = s.outcome := by
  by_cases hfinished : finished s = []
  · rw [reap_of_nil hfinished]
  · rw [reap_of_ne_nil hfinished]

theorem Tasks.reap {items : List (Item τ)} {s : State τ} (h : Tasks items s) :
    Tasks items (reap s) := by
  by_cases hfinished : finished s = []
  · rw [reap_of_nil hfinished]
    exact h
  · rw [reap_of_ne_nil hfinished]
    exact h.requeue rfl (List.Perm.refl _) fun _ hlive => hlive

/-- Before the end of the loop there is nothing to show of its end. -/
theorem Invariant.running {limit : Option Nat} {items : List (Item τ)} {s : State τ}
    (hprocesses : Processes limit s) (htasks : Tasks items s) (h : s.outcome = none) :
    Invariant limit items s :=
  ⟨hprocesses, htasks, fun _ hover => absurd (h.symm.trans hover) (Option.some_ne_none _).symm⟩

theorem invariant_mainStep {limit : Option Nat} {items : List (Item τ)} {s : State τ}
    (h : Invariant limit items s) : Invariant limit items (mainStep limit s) := by
  have hturn := turn_mainStep limit s
  generalize mainStep limit s = s' at hturn ⊢
  cases hturn with
  | stopped => exact h
  | reap hnone =>
    exact .running h.processes.reap h.tasks.reap ((outcome_reap s).trans hnone)
  | @fallback task rest hnone hitems hfull =>
    refine .running ?_ (h.tasks.fallback hitems) hnone
    -- the launch is the only step that adds a process, and it is guarded by the limit
    exact Processes.launch (s := { s with items := rest })
      (h.processes.congr rfl rfl rfl rfl) hfull task
  | @queue group rest hnone hitems =>
    refine .running (h.processes.congr rfl rfl rfl rfl) (h.tasks.requeue rfl ?_ ?_) hnone
    · show (rest.flatMap Item.tasks ++ s.round.flatMap Group.tasks ++
          (s.pending ++ [group]).flatMap Group.tasks).Perm
        (s.items.flatMap Item.tasks ++ s.round.flatMap Group.tasks ++
          s.pending.flatMap Group.tasks)
      rw [hitems, List.flatMap_cons, List.flatMap_append, List.flatMap_singleton]
      show (rest.flatMap Item.tasks ++ s.round.flatMap Group.tasks ++
          (s.pending.flatMap Group.tasks ++ group.tasks)).Perm
        (group.tasks ++ rest.flatMap Item.tasks ++ s.round.flatMap Group.tasks ++
          s.pending.flatMap Group.tasks)
      -- the group moves from the items to the pending ones: the three lists are
      -- permuted, no task is lost
      generalize rest.flatMap Item.tasks = a
      generalize s.round.flatMap Group.tasks = b
      generalize s.pending.flatMap Group.tasks = c
      simp only [← Multiset.coe_eq_coe, ← Multiset.coe_add]
      abel
    · intro live hlive
      show live ∈ rest.flatMap Item.groups ++ s.round ++ (s.pending ++ [group])
      have hlive' : live ∈ s.items.flatMap Item.groups ++ s.round ++ s.pending := hlive
      rw [hitems, List.flatMap_cons] at hlive'
      simp only [Item.groups, List.mem_append, List.mem_singleton] at hlive' ⊢
      tauto
  | @task next round hnone hitems hround hfull =>
    refine .running ?_ (h.tasks.task hround) hnone
    exact Processes.launch (s := { s with round := round, pending := s.pending ++ next.later })
      (h.processes.congr rfl rfl rfl rfl) hfull next.first
  | nextRound hnone hitems hround hpending =>
    refine .running (h.processes.congr rfl rfl rfl rfl) (h.tasks.requeue rfl ?_ ?_) hnone
    · show (s.items.flatMap Item.tasks ++ s.pending.flatMap Group.tasks ++ []).Perm
        (s.items.flatMap Item.tasks ++ s.round.flatMap Group.tasks ++
          s.pending.flatMap Group.tasks)
      rw [hround, List.flatMap_nil, List.append_nil, List.append_nil]
    · intro live hlive
      show live ∈ s.items.flatMap Item.groups ++ s.pending ++ []
      have hlive' : live ∈ s.items.flatMap Item.groups ++ s.round ++ s.pending := hlive
      rw [hround, List.append_nil] at hlive'
      rwa [List.append_nil]
  | finish hnone hitems hround hpending hactive =>
    refine ⟨h.processes.congr rfl rfl rfl rfl,
      h.tasks.requeue rfl (List.Perm.refl _) fun _ hlive => hlive, fun outcome houtcome => ?_⟩
    refine ⟨?_, hactive, ?_⟩
    · show s.items.flatMap Item.tasks ++ s.round.flatMap Group.tasks ++
        s.pending.flatMap Group.tasks = []
      rw [hitems, hround, hpending]
      rfl
    · show outcome = .postprocess ↔ s.failures = false
      have houtcome' : (if s.failures then Outcome.failed else .postprocess) = outcome :=
        Option.some.inj houtcome
      rw [← houtcome']
      cases s.failures <;> decide

/-- **Step lemma**: a turn of the scheduler or the exit of a process keeps the invariant. -/
theorem invariant_step {limit : Option Nat} {items : List (Item τ)} {s s' : State τ}
    {action : Action} (h : Invariant limit items s) (hstep : step limit s action = some s') :
    Invariant limit items s' := by
  cases action with
  | main =>
    rw [← Option.some.inj hstep]
    exact invariant_mainStep h
  | exit process code =>
    simp only [step] at hstep
    split at hstep
    · rename_i hruns
      rw [← Option.some.inj hstep]
      exact ⟨h.processes.exit code hruns.1 hruns.2,
        h.tasks.requeue rfl (List.Perm.refl _) fun _ hlive => hlive, h.outcome⟩
    · cases hstep

theorem invariant_run {limit : Option Nat} {items : List (Item τ)} {actions : List Action} :
    ∀ {s s' : State τ}, Invariant limit items s → run limit actions s = some s' →
      Invariant limit items s' := by
  induction actions with
  | nil =>
    intro s s' h hrun
    rw [← Option.some.inj hrun]
    exact h
  | cons action actions ih =>
    intro s s' h hrun
    obtain ⟨next, hstep, hrest⟩ := Option.bind_eq_some_iff.mp hrun
    exact ih (invariant_step h hstep) hrest

/-! ### The end of the loop -/

/-- What the scheduler has left to do. -/
def left (s : State τ) : Nat :=
  3 * (queued s).length + 2 * s.items.length + s.pending.length + s.active.length +
    s.outcome.isNone.toNat

theorem left_reap {s : State τ} (h : finished s ≠ []) : left (reap s) < left s := by
  obtain ⟨i, hi⟩ := List.exists_mem_of_ne_nil _ h
  obtain ⟨hactive, code, hcode⟩ := mem_finished.mp hi
  rw [reap_of_ne_nil h]
  have hlength : (s.active.filter fun i => (s.exitCode i).isNone).length < s.active.length := by
    refine List.length_filter_lt_length_iff_exists.mpr ⟨i, hactive, ?_⟩
    rw [hcode]
    exact Bool.false_ne_true
  show 3 * (queued s).length + 2 * s.items.length + s.pending.length +
    (s.active.filter fun i => (s.exitCode i).isNone).length +
    s.outcome.isNone.toNat < left s
  rw [left]
  omega

/-- A turn has less left to do, or it changes nothing because the loop is over or because an
active process still runs. -/
theorem left_mainStep {limit : Option Nat} (hlimit : ∀ n, limit = some n → 1 ≤ n)
    (s : State τ) : left (mainStep limit s) < left s ∨
      mainStep limit s = s ∧ (s.outcome ≠ none ∨ ∃ i ∈ s.active, s.exitCode i = none) := by
  have hturn := turn_mainStep limit s
  generalize mainStep limit s = s' at hturn ⊢
  cases hturn with
  | stopped h => exact Or.inr ⟨rfl, Or.inl h⟩
  | reap h hwaits =>
    by_cases hfinished : finished s = []
    · -- nothing to reap: whoever is active still runs
      rw [reap_of_nil hfinished]
      have hactive : s.active ≠ [] := by
        rcases hwaits with hfull | hactive
        · intro hnil
          cases hlim : limit with
          | none =>
            rw [hlim] at hfull
            exact Bool.false_ne_true hfull
          | some n =>
            rw [hlim] at hfull
            have hle : n ≤ s.active.length := of_decide_eq_true hfull
            rw [hnil] at hle
            exact absurd (hlimit n hlim) (Nat.not_le_of_lt (Nat.lt_succ_of_le hle))
        · exact hactive
      obtain ⟨i, hi⟩ := List.exists_mem_of_ne_nil _ hactive
      refine Or.inr ⟨rfl, Or.inr ⟨i, hi, ?_⟩⟩
      cases hcode : s.exitCode i with
      | none => rfl
      | some code =>
        have hmem := mem_finished.mpr ⟨hi, code, hcode⟩
        rw [hfinished] at hmem
        exact absurd hmem List.not_mem_nil
    · exact Or.inl (left_reap hfinished)
  | @fallback task rest h hitems =>
    refine Or.inl ?_
    simp only [left, launch, queued, hitems, List.flatMap_cons, Item.tasks, List.length_append,
      List.length_cons, List.length_nil]
    omega
  | @queue group rest h hitems =>
    refine Or.inl ?_
    simp only [left, queued, hitems, List.flatMap_cons, List.flatMap_append,
      Item.tasks, List.flatMap_nil, List.length_append, List.length_cons, List.length_nil]
    omega
  | @task next round h hitems hround =>
    refine Or.inl ?_
    have hlater : next.later.length ≤ 1 := by
      rw [Group.later]
      split
      · exact Nat.zero_le 1
      · exact Nat.le_refl 1
    simp only [left, launch, queued, hround, List.flatMap_cons, List.flatMap_append,
      tasks_later, Group.tasks, List.length_append, List.length_cons, List.length_nil]
    omega
  | nextRound h hitems hround hpending =>
    refine Or.inl ?_
    have hlength := List.length_pos_of_ne_nil hpending
    simp only [left, queued, hround, List.flatMap_nil, List.append_nil, List.length_append,
      List.length_nil]
    omega
  | finish h =>
    refine Or.inl ?_
    show 3 * (queued s).length + 2 * s.items.length + s.pending.length + s.active.length + 0 <
      left s
    rw [left, h]
    exact Nat.lt_succ_self _

/-- An unending run of the scheduler. -/
structure Execution (limit : Option Nat) (items : List (Item τ)) where
  state : Nat → State τ
  action : Nat → Action
  start : state 0 = State.start items
  next : ∀ n, step limit (state n) (action n) = some (state (n + 1))

/-- The scheduler keeps taking turns, and each process it launches exits some time. -/
structure Execution.Fair {limit : Option Nat} {items : List (Item τ)}
    (e : Execution limit items) : Prop where
  turns : ∀ n, ∃ m, n ≤ m ∧ e.action m = .main
  exits : ∀ n, ∀ i < (e.state n).launched.length, ∃ m, n ≤ m ∧ (e.state m).exitCode i ≠ none

theorem left_step {limit : Option Nat} (hlimit : ∀ n, limit = some n → 1 ≤ n)
    {s s' : State τ} {action : Action} (hstep : step limit s action = some s') :
    left s' < left s ∨
      left s' = left s ∧ s'.active = s.active ∧
        ∀ i, s.exitCode i ≠ none → s'.exitCode i ≠ none := by
  cases action with
  | main =>
    rw [← Option.some.inj hstep]
    rcases left_mainStep hlimit s with hless | ⟨hsame, -⟩
    · exact Or.inl hless
    · rw [hsame]
      exact Or.inr ⟨rfl, rfl, fun _ h => h⟩
  | exit process code =>
    simp only [step] at hstep
    split at hstep
    · rw [← Option.some.inj hstep]
      refine Or.inr ⟨rfl, rfl, fun i hi => ?_⟩
      show (if i = process then some code else s.exitCode i) ≠ none
      by_cases heq : i = process
      · rw [if_pos heq]
        exact Option.some_ne_none code
      · rwa [if_neg heq]
    · cases hstep

namespace Execution

variable {limit : Option Nat} {items : List (Item τ)} (e : Execution limit items)

theorem invariant (n : Nat) : Invariant limit items (e.state n) := by
  induction n with
  | zero =>
    rw [e.start]
    exact invariant_start limit items
  | succ n ih => exact invariant_step ih (e.next n)

theorem left_antitone (hlimit : ∀ n, limit = some n → 1 ≤ n) {n m : Nat} (h : n ≤ m) :
    left (e.state m) ≤ left (e.state n) := by
  induction m, h using Nat.le_induction with
  | base => exact Nat.le_refl _
  | succ m _ ih =>
    rcases left_step hlimit (e.next m) with hless | ⟨hsame, -⟩
    · exact Nat.le_of_lt (Nat.lt_of_lt_of_le hless ih)
    · rw [hsame]
      exact ih

/-- From where on nothing more gets done, nothing changes but that processes exit. -/
theorem settled (hlimit : ∀ n, limit = some n → 1 ≤ n) {n : Nat}
    (hmin : ∀ m, left (e.state n) ≤ left (e.state m)) {m k : Nat} (hnm : n ≤ m) (hmk : m ≤ k) :
    (e.state k).active = (e.state m).active ∧
      ∀ i, (e.state m).exitCode i ≠ none → (e.state k).exitCode i ≠ none := by
  induction k, hmk using Nat.le_induction with
  | base => exact ⟨rfl, fun _ h => h⟩
  | succ k hmk ih =>
    rcases left_step hlimit (e.next k) with hless | ⟨-, hactive, hexited⟩
    · have hle := e.left_antitone hlimit (Nat.le_trans hnm hmk)
      have hge := hmin (k + 1)
      omega
    · exact ⟨hactive.trans ih.1, fun i hi => hexited i (ih.2 i hi)⟩

/-- Some time all processes of a list of active ones have exited. -/
theorem all_exited (hfair : e.Fair) (hlimit : ∀ n, limit = some n → 1 ≤ n) {n : Nat}
    (hmin : ∀ m, left (e.state n) ≤ left (e.state m)) (processes : List Nat)
    (hactive : ∀ i ∈ processes, i ∈ (e.state n).active) :
    ∃ m, n ≤ m ∧ ∀ i ∈ processes, (e.state m).exitCode i ≠ none := by
  induction processes with
  | nil => exact ⟨n, Nat.le_refl n, fun i hi => absurd hi List.not_mem_nil⟩
  | cons process processes ih =>
    obtain ⟨m, hnm, hothers⟩ := ih fun i hi => hactive i (List.mem_cons_of_mem _ hi)
    have hlt := (e.invariant n).processes.active_lt process (hactive process List.mem_cons_self)
    obtain ⟨k, hnk, hexited⟩ := hfair.exits n process hlt
    refine ⟨max m k, Nat.le_trans hnm (Nat.le_max_left m k), fun i hi => ?_⟩
    rcases List.mem_cons.mp hi with rfl | hi
    · exact (e.settled hlimit hmin hnk (Nat.le_max_right m k)).2 i hexited
    · exact (e.settled hlimit hmin hnm (Nat.le_max_left m k)).2 i (hothers i hi)

/-- Every fair run of the scheduler comes to its end. -/
theorem ends (hfair : e.Fair) (hlimit : ∀ n, limit = some n → 1 ≤ n) :
    ∃ n, (e.state n).outcome ≠ none := by
  obtain ⟨_, ⟨n, rfl⟩, hleast⟩ := wellFounded_lt.has_min
    (Set.range fun n => left (e.state n)) ⟨_, 0, rfl⟩
  have hmin : ∀ m, left (e.state n) ≤ left (e.state m) := fun m =>
    Nat.le_of_not_lt (hleast _ ⟨m, rfl⟩)
  obtain ⟨m, hnm, hexited⟩ := e.all_exited hfair hlimit hmin (e.state n).active fun _ h => h
  obtain ⟨k, hmk, hmain⟩ := hfair.turns m
  refine ⟨k, ?_⟩
  have hnext : e.state (k + 1) = mainStep limit (e.state k) := by
    have h := e.next k
    rw [hmain] at h
    exact (Option.some.inj h).symm
  rcases left_mainStep hlimit (e.state k) with hless | ⟨-, hover | ⟨i, hi, hruns⟩⟩
  · rw [← hnext] at hless
    have hle := e.left_antitone hlimit (Nat.le_trans hnm hmk)
    have hge := hmin (k + 1)
    omega
  · exact hover
  · rw [(e.settled hlimit hmin (Nat.le_refl n) (Nat.le_trans hnm hmk)).1] at hi
    exact absurd hruns ((e.settled hlimit hmin hnm hmk).2 i (hexited i hi))

end Execution

/-! ### What the scheduler guarantees -/

/-- The processes that run. -/
def processesRunning (s : State τ) : List Nat :=
  (List.range s.launched.length).filter fun i => (s.exitCode i).isNone

theorem processesRunning_length {limit : Option Nat} {s : State τ} (h : Processes limit s) :
    (processesRunning s).length ≤ s.active.length := by
  refine (List.Nodup.subperm (List.nodup_range.filter _) fun i hi => ?_).length_le
  obtain ⟨hrange, hnone⟩ := List.mem_filter.mp hi
  by_contra hnot
  obtain ⟨code, hcode, -⟩ := h.reaped i (List.mem_range.mp hrange) hnot
  rw [hcode] at hnone
  exact Bool.false_ne_true hnone

theorem live_tasks_sublist {s : State τ} {live : Group τ} (h : live ∈ groups s) :
    live.tasks.Sublist (queued s) := by
  have hitems : ∀ items : List (Item τ), live ∈ items.flatMap Item.groups →
      live.tasks.Sublist (items.flatMap Item.tasks) := by
    intro items hmem
    obtain ⟨item, hitem, hgroup⟩ := List.mem_flatMap.mp hmem
    cases item with
    | fallback task => exact absurd hgroup List.not_mem_nil
    | group queue =>
      rw [List.mem_singleton.mp hgroup]
      exact List.sublist_flatten_of_mem (List.mem_map_of_mem hitem)
  have hlists : ∀ pending : List (Group τ), live ∈ pending →
      live.tasks.Sublist (pending.flatMap Group.tasks) := fun pending hmem =>
    List.sublist_flatten_of_mem (List.mem_map_of_mem hmem)
  rcases List.mem_append.mp h with hfirst | hpending
  · rcases List.mem_append.mp hfirst with hitem | hround
    · exact ((hitems _ hitem).trans (List.sublist_append_left _ _)).trans
        (List.sublist_append_left _ _)
    · exact ((hlists _ hround).trans (List.sublist_append_right _ _)).trans
        (List.sublist_append_left _ _)
  · exact (hlists _ hpending).trans (List.sublist_append_right _ _)

theorem Tasks.group_parts {items : List (Item τ)} {s : State τ} (h : Tasks items s)
    {group : Group τ} (hgroup : .group group ∈ items) :
    ∃ done todo, group.tasks = done ++ todo ∧ done.Sublist s.launched ∧
      todo.Sublist (queued s) := by
  obtain ⟨done, todo, hparts, hdone, htodo⟩ := h.inOrder group hgroup
  refine ⟨done, todo, hparts, hdone, ?_⟩
  rcases htodo with rfl | ⟨live, hlive, rfl⟩
  · exact List.nil_sublist _
  · exact live_tasks_sublist hlive

/-- The failure flag at the end of the loop. -/
theorem failures_eq_false_iff {limit : Option Nat} {s : State τ} (h : Processes limit s)
    (hactive : s.active = []) :
    s.failures = false ↔ ∀ i < s.launched.length, s.exitCode i = some 0 := by
  constructor
  · intro hfailures i hi
    obtain ⟨code, hcode, hfailed⟩ := h.reaped i hi (hactive ▸ List.not_mem_nil)
    by_cases hzero : code = 0
    · rw [hcode, hzero]
    · rw [hfailed hzero] at hfailures
      exact absurd hfailures.symm Bool.false_ne_true
  · intro hzero
    rw [Bool.eq_false_iff]
    intro hfailures
    obtain ⟨i, hi, code, hcode, hne⟩ := h.failed hfailures
    rw [hzero i hi] at hcode
    exact hne (Option.some.inj hcode).symm

/-- **The campaign schedule**: in every run at most `limit` processes are active and run, every
task is launched or queued, exactly once, of each group a first part is launched in its order,
and when the loop is over everything was launched, every process has exited, and
postprocessing is reached iff every exit code was 0. A fair run comes to the end of the loop. -/
theorem campaign_schedule (limit : Option Nat) (items : List (Item τ))
    (hlimit : ∀ n, limit = some n → 1 ≤ n) :
    (∀ actions s, run limit actions (State.start items) = some s →
      (∀ n, limit = some n → s.active.length ≤ n ∧ (processesRunning s).length ≤ n) ∧
      (s.launched ++ queued s).Perm (items.flatMap Item.tasks) ∧
      (∀ group, .group group ∈ items → ∃ done todo, group.tasks = done ++ todo ∧
        done.Sublist s.launched ∧ todo.Sublist (queued s)) ∧
      ∀ outcome, s.outcome = some outcome →
        s.launched.Perm (items.flatMap Item.tasks) ∧
        (∀ group, .group group ∈ items → group.tasks.Sublist s.launched) ∧
        (∀ i < s.launched.length, s.exitCode i ≠ none) ∧
        (outcome = .postprocess ↔ ∀ i < s.launched.length, s.exitCode i = some 0)) ∧
    ∀ e : Execution limit items, e.Fair → ∃ n, (e.state n).outcome ≠ none := by
  refine ⟨fun actions s hrun => ?_, fun e hfair => e.ends hfair hlimit⟩
  have h := invariant_run (invariant_start limit items) hrun
  refine ⟨fun n hn => ?_, h.tasks.once, fun group hgroup => h.tasks.group_parts hgroup,
    fun outcome houtcome => ?_⟩
  · -- at most `limit` slots are taken, and every process that runs holds one
    have hbound := h.processes.bound n hn
    exact ⟨hbound, Nat.le_trans (processesRunning_length h.processes) hbound⟩
  · obtain ⟨hqueued, hactive, hiff⟩ := h.outcome outcome houtcome
    refine ⟨?_, fun group hgroup => ?_, fun i hi => ?_, ?_⟩
    · have honce := h.tasks.once
      rwa [hqueued, List.append_nil] at honce
    · obtain ⟨done, todo, hparts, hdone, htodo⟩ := h.tasks.group_parts hgroup
      rw [hqueued] at htodo
      rw [hparts, List.sublist_nil.mp htodo, List.append_nil]
      exact hdone
    · obtain ⟨code, hcode, -⟩ := h.processes.reaped i hi (hactive ▸ List.not_mem_nil)
      rw [hcode]
      exact Option.some_ne_none code
    · exact hiff.trans (failures_eq_false_iff h.processes hactive)

/-- One worker at a time: a fallback run, then a group of two. -/
theorem campaign_schedule_one :
    (∃ actions s, run (some 1) actions (State.start [.fallback 0, .group ⟨1, [2]⟩]) = some s ∧
      s.outcome = some .failed ∧ s.launched.Perm [0, 1, 2]) ∧
      ∀ e : Execution (some 1) [.fallback 0, .group ⟨1, [2]⟩],
        e.Fair → ∃ n, (e.state n).outcome ≠ none := by
  have hlimit : ∀ n, some 1 = some n → 1 ≤ n := fun n hn => by
    rw [Option.some.inj hn]
  have h := campaign_schedule (some 1) [.fallback 0, .group ⟨1, [2]⟩] hlimit
  let actions : List Action := [.main, .main, .main, .exit 0 0, .main, .main, .main, .exit 1 0,
    .main, .main, .main, .exit 2 7, .main, .main]
  exact ⟨⟨actions, _, rfl, rfl, ((h.1 actions _ rfl).2.2.2 _ rfl).1⟩, h.2⟩

end Scheduler

end KleeDeps.Experiments
