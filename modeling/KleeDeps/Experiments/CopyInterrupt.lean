import KleeDeps.Experiments.CopyOrder

/-!
# After an interrupt

The handler sends a signal to every process that a worker holds and waits until all of them have
exited; the `finally` block then goes on with the loop of before. That loop starts the command
of any worker whose copy has ended well, and a signal can also come between the start of a
process and its assignment, where the handler does not see it.

- `Undisturbed`: neither of the two happens;
- `Running`, `Ending`, `Quiet`: the invariants before the signal, in the handler and after it;
- `interrupt_stops`: **nothing starts after the handler and nothing runs on at the end**, in
  every run whose steps are all undisturbed;
- `interrupt_starts_command`: a copy that ends just before the signal has its command started
  after it, and the command outlives `main`.
-/

namespace KleeDeps.Experiments

namespace Copies

open Runs

/-- The handler has run to its end. -/
def Handled (s : State) : Prop :=
  s.interrupted = true ∧ s.exception = false ∧ s.phase ≠ .handling

/-- The exit status of the copy of a worker, seen or not. -/
def Worker.copyExit (children : List Child) (x : Worker) : Option Int :=
  x.copyProcess.bind fun p => exitOf children p.child

/-- The loop would start the command of the worker. -/
def Worker.Ready (children : List Child) (x : Worker) : Prop :=
  x.notCopying = false ∧ x.copyExit children = some 0

instance (children : List Child) (x : Worker) : Decidable (x.Ready children) :=
  inferInstanceAs (Decidable (_ ∧ _))

/-- No signal comes between the start of a process and its assignment, and no worker is ready
when the handler ends. -/
def Undisturbed (n : Nat) (choice : Choice) (s : State) : Prop :=
  (choice = .signal → ∀ t ∈ s.todo.head?, t.creates = none) ∧
    (choice = .main → s.todo.head? = some .handlerEnd →
      ∀ w < n, ¬ (s.workers w).Ready s.children)

instance (n : Nat) (choice : Choice) (s : State) : Decidable (Undisturbed n choice s) :=
  inferInstanceAs (Decidable (_ ∧ _))

/-! ### Exit statuses -/

theorem exitOf_extends {cs ds : List Child} (h : Extends cs ds) {i : Nat} {code : Int}
    (hexit : exitOf cs i = some code) : exitOf ds i = some code := by
  obtain ⟨c, hc, hcode⟩ := Option.bind_eq_some_iff.mp hexit
  obtain ⟨d, hd, -, -, hkept⟩ := h i c hc
  exact Option.bind_eq_some_iff.mpr ⟨d, hd, hkept code hcode⟩

/-- What has exited does not exit again. -/
theorem exitOf_of_extends {cs ds : List Child} (h : Extends cs ds) (hlength : ds.length = cs.length)
    (hexited : ∀ c ∈ cs, c.exit ≠ none) (i : Nat) : exitOf ds i = exitOf cs i := by
  cases hc : cs[i]? with
  | none =>
    have hd : ds[i]? = none :=
      List.getElem?_eq_none (hlength ▸ List.getElem?_eq_none_iff.mp hc)
    rw [exitOf, exitOf, hc, hd]
  | some c =>
    obtain ⟨code, hcode⟩ := Option.ne_none_iff_exists'.mp (hexited c (List.mem_of_getElem? hc))
    have hexit : exitOf cs i = some code := by
      rw [exitOf, hc]
      exact hcode
    rw [hexit]
    exact exitOf_extends h hexit

/-- Children that have exited stay so. -/
theorem exited_of_extends {cs ds : List Child} (h : Extends cs ds) (hlength : ds.length = cs.length)
    (hexited : ∀ c ∈ cs, c.exit ≠ none) : ∀ d ∈ ds, d.exit ≠ none := by
  intro d hd hnone
  obtain ⟨i, hi⟩ := List.mem_iff_getElem?.mp hd
  have hlt : i < cs.length := hlength ▸ (List.getElem?_eq_some_iff.mp hi).1
  have hexit := exitOf_of_extends h hlength hexited i
  rw [exitOf, exitOf, hi, List.getElem?_eq_getElem hlt] at hexit
  exact hexited _ (List.getElem_mem hlt) (hexit.symm.trans hnone)

/-- The exit status that a worker has seen is that of its process. -/
theorem exitOf_of_returncode {children : List Child} {w : Nat} {x : Worker}
    (h : x.Linked children w) {command : Bool} {p : Popen} {code : Int}
    (hp : x.popen command = some p) (hcode : p.returncode = some code) :
    exitOf children p.child = some code := by
  obtain ⟨c, hc, -, -, hexit⟩ := h command p hp
  rw [exitOf, hc]
  exact hexit code hcode

theorem copyExit_poll (children : List Child) (x : Worker) (command : Bool) :
    (x.poll children command).copyExit children = x.copyExit children := by
  cases command with
  | true => rfl
  | false =>
    show (x.copyProcess.map (Popen.poll children)).bind (fun p => exitOf children p.child) =
      x.copyProcess.bind fun p => exitOf children p.child
    cases x.copyProcess with
    | none => rfl
    | some p =>
      show exitOf children (p.poll children).child = exitOf children p.child
      rw [child_poll]

/-! ### After the handler -/

/-- The invariant after the handler: all processes have exited and none will be started. -/
structure Quiet (s : State) : Prop where
  running : s.phase ≠ .running
  handling : s.phase ≠ .handling
  exited : ∀ c ∈ s.children, c.exit ≠ none
  stopped : ∀ w, ¬ (s.workers w).Ready s.children
  todo : ∀ t ∈ s.todo, t.starts = false

/-- After the handler no worker becomes ready. -/
theorem stopped_statement {n : Nat} {s s' : State} (hordered : Ordered n s) (h : Quiet s)
    (hs : Statement n s s') : ∀ w, ¬ (s'.workers w).Ready s.children := by
  intro w
  have hold := h.stopped w
  have hstarts : ∀ {t : Task} {rest : List Task}, s.todo = t :: rest → t.starts = false := by
    intro t rest htodo
    exact h.todo t (htodo ▸ List.mem_cons_self)
  have hchoose : ∀ default, ¬ ((s.workers w).chooseCode default).Ready s.children := by
    intro default hready
    obtain ⟨hcopy, -, hdone, hfinal⟩ := stage_chooseCode (s.workers w) default
    rw [Worker.Ready, Worker.notCopying, Worker.copyExit, hcopy, hdone, hfinal] at hready
    exact hold hready
  have hupdate := update_statement hs w
  generalize s'.workers w = x at hupdate ⊢
  cases hupdate with
  | recordCopy htodo => cases hstarts htodo
  | recordProcess htodo => cases hstarts htodo
  -- the one statement that would start a command: its copy has exited with 0, which no
  -- worker has now
  | copyReady htodo hcode =>
    obtain ⟨hcopying, -⟩ := hordered.head (.judgeCopy w) (by rw [htodo]; rfl)
    obtain ⟨p, hp, hzero⟩ := Option.bind_eq_some_iff.mp hcode
    refine absurd ⟨hcopying, ?_⟩ hold
    exact Option.bind_eq_some_iff.mpr
      ⟨p, hp, exitOf_of_returncode (hordered.linked.popen w) hp hzero⟩
  | setFinalized =>
    intro hready
    cases (notCopying_eq_false hready.1).1
  | poll command =>
    -- what a poll sees was there before: the exit status is read from the child
    intro hready
    rw [Worker.Ready, notCopying_poll, copyExit_poll] at hready
    exact hold hready
  | chooseCode => exact hchoose _
  | forceFinalize => exact hchoose _
  | _ => exact hold

/-- What has exited stays so, and with it the workers that are not ready. -/
theorem Quiet.of_extends {s s' : State} (h : Quiet s) (hextends : Extends s.children s'.children)
    (hlength : s'.children.length = s.children.length) (hrunning : s'.phase ≠ .running)
    (hhandling : s'.phase ≠ .handling) (hstopped : ∀ w, ¬ (s'.workers w).Ready s.children)
    (htodo : ∀ t ∈ s'.todo, t.starts = false) : Quiet s' where
  running := hrunning
  handling := hhandling
  exited := exited_of_extends hextends hlength h.exited
  stopped w hready := by
    refine hstopped w ⟨hready.1, ?_⟩
    have hexit : ∀ i, exitOf s'.children i = exitOf s.children i :=
      exitOf_of_extends hextends hlength h.exited
    rw [← hready.2, Worker.copyExit, Worker.copyExit]
    simp only [hexit]
  todo := htodo

/-- **Step lemma**: after the handler all stays quiet, and no process is started. -/
theorem quiet_step {n capacity : Nat} {choice : Choice} {s s' : State} (hordered : Ordered n s)
    (h : Quiet s) (hstep : step n capacity choice s = some s') :
    Quiet s' ∧ s'.children.length = s.children.length := by
  have hextends := extends_step hstep
  have hstarts : ∀ {t : Task} {rest : List Task}, s.todo = t :: rest → t.starts = false := by
    intro t rest htodo
    exact h.todo t (htodo ▸ List.mem_cons_self)
  cases change_step hstep with
  | statement hs =>
    have hlength := length_statement hs
    have hphase : s'.phase ≠ .running ∧ s'.phase ≠ .handling := by
      rcases phase_statement hs with hphase | ⟨hrunning, hhandling, -⟩
      · rw [hphase]
        exact ⟨h.running, h.handling⟩
      · exact ⟨hrunning, hhandling⟩
    refine ⟨h.of_extends hextends hlength hphase.1 hphase.2 (stopped_statement hordered h hs) ?_,
      hlength⟩
    intro t ht
    obtain ⟨new, old, htodo, hold, hnew⟩ := todo_statement hs
    rw [htodo] at ht
    rcases List.mem_append.mp ht with ht | ht
    · rcases (hnew t ht).starts with hplain | ⟨w, rfl, hhead, hcode⟩
      · exact hplain
      · -- the copy of a worker that is not ready has not succeeded
        obtain ⟨p, hp, hzero⟩ := Option.bind_eq_some_iff.mp hcode
        refine absurd ⟨(hordered.head _ hhead).1, ?_⟩ (h.stopped w)
        exact Option.bind_eq_some_iff.mpr
          ⟨p, hp, exitOf_of_returncode (hordered.linked.popen w) hp hzero⟩
    · exact h.todo t (hold.subset ht)
  | newCopy htodo => cases hstarts htodo
  | noCopy htodo => cases hstarts htodo
  | newCommand htodo => cases hstarts htodo
  | noCommand htodo => cases hstarts htodo
  | deadline =>
    refine ⟨h.of_extends hextends rfl Phase.noConfusion Phase.noConfusion h.stopped ?_, rfl⟩
    intro t ht
    rcases List.mem_append.mp ht with ht | ht
    · exact forall_forceFinalizeWorkers (P := fun t => t.starts = false) (fun _ _ _ => rfl)
        (fun _ _ => rfl) t ht
    · exact forall_finish (P := fun t => t.starts = false) (fun _ _ _ => rfl)
        (fun _ _ => rfl) rfl t ht
  | interrupt hphase => exact absurd hphase h.running
  | second hphase => exact absurd hphase h.handling
  | fault hphase => exact absurd hphase h.running
  | child =>
    exact ⟨h.of_extends hextends List.length_set h.running h.handling h.stopped h.todo,
      List.length_set⟩

/-! ### In the handler -/

/-- A worker holds the process. -/
def Held (s : State) (child : Nat) : Prop :=
  ∃ w command p, (s.workers w).popen command = some p ∧ p.child = child

/-- The process of a worker has exited, if it has one. -/
def Worker.Ended (children : List Child) (command : Bool) (x : Worker) : Prop :=
  ∀ p, x.popen command = some p → exitOf children p.child ≠ none

theorem Worker.Ended.extend {cs ds : List Child} (h : Extends cs ds) {command : Bool} {x : Worker}
    (hx : x.Ended cs command) : x.Ended ds command := by
  intro p hp
  obtain ⟨code, hcode⟩ := Option.ne_none_iff_exists'.mp (hx p hp)
  rw [exitOf_extends h hcode]
  exact Option.some_ne_none code

theorem Worker.Ended.poll {children : List Child} {command : Bool} {x : Worker}
    (h : x.Ended children command) (other : Bool) :
    (x.poll children other).Ended children command := by
  intro p hp
  rw [popen_poll] at hp
  split at hp
  · obtain ⟨q, hq, rfl⟩ := Option.map_eq_some_iff.mp hp
    rw [child_poll]
    exact h q hq
  · exact h p hp

/-- Only the workers there are hold processes. -/
theorem lt_of_popen {n w : Nat} {x : Worker} (h : x.Staged n w) {command : Bool} {p : Popen}
    (hp : x.popen command = some p) : w < n := by
  cases command with
  | true =>
    have hprocess : x.process ≠ none := fun hnone => nomatch hnone.symm.trans hp
    exact h.index (h.success (h.command hprocess))
  | false => exact h.index fun hnone => nomatch hnone.symm.trans hp

/-- The invariant in the handler: it waits for every process, or that has exited. -/
structure Ending (n : Nat) (s : State) : Prop where
  phase : s.phase = .handling
  interrupted : s.interrupted = true
  exception : s.exception = false
  todo : s.todo.IsSuffix (handler n)
  held : ∀ i < s.children.length, Held s i
  awaited : ∀ w < n, ∀ command,
    .waitOrKill w command ∈ s.todo ∨ (s.workers w).Ended s.children command

/-- The statements of the handler. -/
def Task.ends : Task → Bool
  | .terminate .. | .waitOrKill .. | .handlerEnd => true
  | _ => false

theorem ends_handler (n : Nat) : ∀ t ∈ handler n, t.ends = true :=
  forall_handler (fun _ _ _ => rfl) (fun _ _ _ => rfl) rfl

/-- The handler ends with its last statement. -/
theorem suffix_handlerEnd {n : Nat} {rest : List Task}
    (h : (Task.handlerEnd :: rest).IsSuffix (handler n)) : rest = [] := by
  obtain ⟨before, hbefore⟩ := h
  rcases List.eq_nil_or_concat rest with hnil | ⟨init, last, rfl⟩
  · exact hnil
  · rw [handler, ← List.append_assoc, List.concat_eq_append, ← List.cons_append,
      ← List.append_assoc] at hbefore
    have hmem : Task.handlerEnd ∈ before ++ Task.handlerEnd :: init :=
      List.mem_append_right _ List.mem_cons_self
    rw [(List.append_inj' hbefore rfl).1] at hmem
    simp only [List.mem_append, List.mem_flatMap, List.mem_cons, List.not_mem_nil, reduceCtorEq,
      or_self, and_false, exists_false] at hmem

theorem held_of_keeps {s s' : State} (h : ∀ w, (s.workers w).Keeps (s'.workers w)) {i : Nat}
    (hi : Held s i) : Held s' i := by
  obtain ⟨w, command, p, hp, hchild⟩ := hi
  obtain ⟨p', hp', hsame⟩ := h w command p hp
  exact ⟨w, command, p', hp', hsame.trans hchild⟩

theorem keeps_of_ordered {n : Nat} {s s' : State} (h : Ordered n s) (hs : Statement n s s') :
    ∀ w, (s.workers w).Keeps (s'.workers w) := by
  refine keeps_statement hs (fun w child rest htodo => ?_) fun w child rest htodo => ?_
  · obtain ⟨-, hnone, -⟩ := h.head (.recordCopy w child) (by rw [htodo]; rfl)
    exact hnone
  · obtain ⟨-, hnone⟩ := h.head (.recordProcess w child) (by rw [htodo]; rfl)
    exact hnone

/-- When the handler ends, all processes have exited. -/
theorem Ending.exited {n : Nat} {s : State} {rest : List Task} (hordered : Ordered n s)
    (h : Ending n s) (htodo : s.todo = .handlerEnd :: rest) : ∀ c ∈ s.children, c.exit ≠ none := by
  intro c hc
  obtain ⟨i, hi⟩ := List.mem_iff_getElem?.mp hc
  obtain ⟨w, command, p, hp, rfl⟩ := h.held i (List.getElem?_eq_some_iff.mp hi).1
  have hw : w < n := lt_of_popen (hordered.staged w) hp
  have hrest : rest = [] := suffix_handlerEnd (htodo ▸ h.todo)
  rcases h.awaited w hw command with hwait | hended
  · rw [htodo, hrest] at hwait
    cases List.mem_singleton.mp hwait
  · have hexit := hended p hp
    rw [exitOf, hi] at hexit
    exact hexit

/-- A statement of the handler: it waits for every process still, or it has ended. -/
theorem ending_statement {n : Nat} {s s' : State} (hordered : Ordered n s) (h : Ending n s)
    (hs : Statement n s s') (hextends : Extends s.children s'.children)
    (hready : ∀ rest, s.todo = .handlerEnd :: rest → ∀ w < n, ¬ (s.workers w).Ready s.children) :
    Ending n s' ∨ Quiet s' := by
  have hkeeps := keeps_of_ordered hordered hs
  have hlength := length_statement hs
  have hheld : ∀ i < s'.children.length, Held s' i := fun i hi =>
    held_of_keeps hkeeps (h.held i (hlength ▸ hi))
  have hends : ∀ {t : Task} {rest : List Task}, s.todo = t :: rest → t.ends = true := by
    intro t rest htodo
    exact ends_handler n t (h.todo.subset (htodo ▸ List.mem_cons_self))
  have hrest : ∀ {t : Task} {rest : List Task}, s.todo = t :: rest →
      rest.IsSuffix (handler n) := by
    intro t rest htodo
    exact (List.suffix_cons t rest).trans (htodo ▸ h.todo)
  have hworkers : ∀ w command, (s.workers w).Ended s.children command →
      (s.workers w).Ended s'.children command := fun w command hended => hended.extend hextends
  -- a statement that is not the last wait for a process leaves that wait in place
  have hleft : ∀ {t : Task} {rest : List Task}, s.todo = t :: rest → ∀ w < n, ∀ command,
      t ≠ .waitOrKill w command →
      .waitOrKill w command ∈ rest ∨ (s.workers w).Ended s.children command := by
    intro t rest htodo w hw command hne
    rcases h.awaited w hw command with hwait | hended
    · rw [htodo] at hwait
      rcases List.mem_cons.mp hwait with rfl | hwait
      · exact absurd rfl hne
      · exact Or.inl hwait
    · exact Or.inr hended
  -- polling a process does not undo its end
  have hpoll : ∀ (v : Nat) (other : Bool) (w : Nat) (command : Bool),
      (s.workers w).Ended s.children command →
      (if w = v then (s.workers v).poll s.children other else s.workers w).Ended s.children
        command := by
    intro v other w command hended
    by_cases hw : w = v
    · rw [if_pos hw]
      exact (hw ▸ hended).poll other
    · rw [if_neg hw]
      exact hended
  cases hs with
  | @idle t rest htodo hidle =>
    refine Or.inl ⟨h.phase, h.interrupted, h.exception, hrest htodo, hheld,
      fun w hw command => ?_⟩
    by_cases ht : t = .waitOrKill w command
    · rw [ht] at hidle
      refine Or.inr fun p hp => ?_
      cases (show (s.workers w).popen command = none from hidle).symm.trans hp
    · exact hleft htodo w hw command ht
  | @terminated v other rest htodo =>
    refine Or.inl ⟨h.phase, h.interrupted, h.exception, hrest htodo, hheld,
      fun w hw command => ?_⟩
    exact (hleft htodo w hw command Task.noConfusion).imp_right (hpoll v other w command)
  | @terminate v other rest child htodo =>
    refine Or.inl ⟨h.phase, h.interrupted, h.exception, hrest htodo, hheld,
      fun w hw command => ?_⟩
    exact (hleft htodo w hw command Task.noConfusion).imp_right
      fun hended => (hpoll v other w command hended).extend hextends
  | @waited v other rest p htodo hp hcode =>
    refine Or.inl ⟨h.phase, h.interrupted, h.exception, hrest htodo, hheld,
      fun w hw command => ?_⟩
    by_cases ht : Task.waitOrKill v other = .waitOrKill w command
    · obtain ⟨rfl, rfl⟩ := Task.waitOrKill.inj ht
      refine Or.inr fun q hq => ?_
      have hq : ((s.workers v).poll s.children other).popen other = some q := by
        rw [← hq]
        exact congrArg (Worker.popen · other) (if_pos rfl).symm
      obtain rfl := Option.some.inj (hp.symm.trans hq)
      obtain ⟨code, hcode⟩ := Option.ne_none_iff_exists'.mp hcode
      have hlinked : ((s.workers v).poll s.children other).Linked s.children v :=
        Worker.Linked.poll (hordered.linked.popen v) other
      show exitOf s.children p.child ≠ none
      rw [exitOf_of_returncode hlinked hp hcode]
      exact Option.some_ne_none code
    · exact (hleft htodo w hw command ht).imp_right (hpoll v other w command)
  | waits htodo =>
    refine Or.inl ⟨h.phase, h.interrupted, h.exception, h.todo, hheld, fun w hw command => ?_⟩
    exact (h.awaited w hw command).imp_right (hworkers w command)
  | @handlerEnd rest htodo =>
    have hexited := h.exited hordered htodo
    refine Or.inr ⟨Phase.noConfusion, Phase.noConfusion, hexited, fun w hw => ?_,
      List.forall_mem_singleton.mpr rfl⟩
    -- a worker that is ready has a copy, so it is one of those there are
    obtain ⟨-, hcopy, -⟩ := notCopying_eq_false hw.1
    exact hready rest htodo w ((hordered.staged w).index hcopy) hw
  | recordCopy htodo => cases hends htodo
  | failStart htodo => cases hends htodo
  | loopOver htodo => cases hends htodo
  | loopBody htodo => cases hends htodo
  | copyRuns htodo => cases hends htodo
  | copyExited htodo => cases hends htodo
  | communicateWait htodo => cases hends htodo
  | communicateDone htodo => cases hends htodo
  | copyFailed htodo => cases hends htodo
  | copyReady htodo => cases hends htodo
  | recordProcess htodo => cases hends htodo
  | registerStdout htodo => cases hends htodo
  | registerStderr htodo => cases hends htodo
  | openStreams htodo => cases hends htodo
  | drain htodo => cases hends htodo
  | readChunk htodo => cases hends htodo
  | readEnd htodo => cases hends htodo
  | commandRuns htodo => cases hends htodo
  | commandExited htodo => cases hends htodo
  | chooseCode htodo => cases hends htodo
  | writeStatus htodo => cases hends htodo
  | setFinalized htodo => cases hends htodo
  | loopEnd htodo => cases hends htodo
  | closeStream htodo => cases hends htodo
  | forceFinalize htodo => cases hends htodo
  | collect htodo => cases hends htodo

/-! ### Before the signal, and the whole run -/

/-- The invariant before the signal: every process is held, or about to be. -/
structure Running (s : State) : Prop where
  phase : s.phase = .running
  interrupted : s.interrupted = false
  exception : s.exception = false
  held : ∀ i < s.children.length, Held s i ∨
    ∃ t ∈ s.todo.head?, ∃ w command, t.creates = some (w, command, i)

/-- The four parts of a run. -/
inductive Stage (n : Nat) (s : State) : Prop
  | running (h : Running s)
  | ending (h : Ending n s)
  | quiet (h : Quiet s)
  /-- no interrupt, or one whose handler did not run to its end -/
  | other (hrunning : s.phase ≠ .running) (hhandling : s.phase ≠ .handling)
      (hreturned : s.phase ≠ .returned 130) (h : s.interrupted = false ∨ s.exception = true)

/-- What was about to be recorded is held after the statement. -/
theorem held_of_creates {n : Nat} {s s' : State} (hstep : mainStep n s = some s') {t : Task}
    (ht : t ∈ s.todo.head?) {w i : Nat} {command : Bool}
    (hcreates : t.creates = some (w, command, i)) : Held s' i := by
  obtain ⟨workers, children, todo, made, phase, interrupted, exception⟩ := s
  obtain ⟨rest, rfl⟩ : ∃ rest, todo = t :: rest := by
    cases todo with
    | nil => cases ht
    | cons u rest => exact ⟨rest, congrArg (· :: rest) (Option.some.inj ht)⟩
  cases t with
  | recordCopy v child =>
    obtain rfl := Option.some.inj hstep
    obtain ⟨rfl, rfl, rfl⟩ : v = w ∧ false = command ∧ child = i := by
      simpa only [Task.creates, Option.some.injEq, Prod.mk.injEq] using hcreates
    refine ⟨v, false, ⟨child, none⟩, ?_, rfl⟩
    show (if v = v then _ else _ : Worker).popen false = _
    rw [if_pos rfl]
    rfl
  | recordProcess v child =>
    obtain rfl := Option.some.inj hstep
    obtain ⟨rfl, rfl, rfl⟩ : v = w ∧ true = command ∧ child = i := by
      simpa only [Task.creates, Option.some.injEq, Prod.mk.injEq] using hcreates
    refine ⟨v, true, ⟨child, none⟩, ?_, rfl⟩
    show (if v = v then _ else _ : Worker).popen true = _
    rw [if_pos rfl]
    rfl
  | _ => cases hcreates

/-- A new process is about to be recorded. -/
theorem Running.spawn {s : State} (h : Running s) {t : Task} {rest : List Task}
    (htodo : s.todo = t :: rest) (ht : t.creates = none) (c : Child) {u : Task} {w : Nat}
    {command : Bool} (hu : u.creates = some (w, command, s.children.length)) :
    Running { s with children := s.children ++ [c], todo := u :: rest } where
  phase := h.phase
  interrupted := h.interrupted
  exception := h.exception
  held i hi := by
    have hi : i < (s.children ++ [c]).length := hi
    rw [List.length_append, List.length_singleton, Nat.lt_add_one_iff_lt_or_eq] at hi
    rcases hi with hi | rfl
    · rcases h.held i hi with hheld | ⟨v, hv, w, command, hcreates⟩
      · exact Or.inl hheld
      · rw [htodo] at hv
        obtain rfl := Option.some.inj hv
        cases ht.symm.trans hcreates
    · exact Or.inr ⟨u, rfl, w, command, hu⟩

/-- The invariant does not depend on statements that create nothing. -/
theorem Running.todo {s : State} (h : Running s) {t : Task} {rest : List Task}
    (htodo : s.todo = t :: rest) (ht : t.creates = none) (todo : List Task) :
    Running { s with todo := todo } where
  phase := h.phase
  interrupted := h.interrupted
  exception := h.exception
  held i hi := by
    rcases h.held i hi with hheld | ⟨v, hv, w, command, hcreates⟩
    · exact Or.inl hheld
    · rw [htodo] at hv
      obtain rfl := Option.some.inj hv
      cases ht.symm.trans hcreates

theorem stage_start (n : Nat) : Stage n (State.start n) :=
  .running ⟨rfl, rfl, rfl, fun _ hi => absurd hi (Nat.not_lt_zero _)⟩

/-- The step before the signal. -/
theorem running_step {n capacity : Nat} {choice : Choice} {s s' : State} (hordered : Ordered n s)
    (h : Running s) (hcondition : Undisturbed n choice s)
    (hstep : step n capacity choice s = some s') : Stage n s' := by
  cases change_step hstep with
  | statement hs =>
    obtain ⟨hinterrupted, hexception⟩ := flags_statement hs
    rcases phase_statement hs with hphase | ⟨hrunning, hhandling, hreturned⟩
    · refine .running ⟨hphase.trans h.phase, hinterrupted.trans h.interrupted,
        hexception.trans h.exception, fun i hi => Or.inl ?_⟩
      rcases h.held i (length_statement hs ▸ hi) with hheld | ⟨t, ht, w, command, hcreates⟩
      · exact held_of_keeps (keeps_of_ordered hordered hs) hheld
      · exact held_of_creates hstep ht hcreates
    · refine .other hrunning hhandling (fun hcode => ?_) (Or.inl (hinterrupted.trans h.interrupted))
      cases h.interrupted.symm.trans (hreturned hcode).1
  | newCopy htodo => exact .running (h.spawn htodo rfl _ rfl)
  | noCopy htodo => exact .running (h.todo htodo rfl _)
  | newCommand htodo => exact .running (h.spawn htodo rfl _ rfl)
  | noCommand htodo => exact .running (h.todo htodo rfl _)
  | deadline _ hphase => cases h.phase.symm.trans hphase
  -- the handler terminates for every worker its command and its copy
  | interrupt =>
    refine .ending ⟨rfl, rfl, h.exception, List.suffix_refl _, fun i hi => ?_,
      fun w hw command => Or.inl ?_⟩
    · rcases h.held i hi with hheld | ⟨t, ht, w, command, hcreates⟩
      · exact hheld
      · cases (hcondition.1 rfl t ht).symm.trans hcreates
    · refine List.mem_append_right _ (List.mem_append_left _ ?_)
      refine List.mem_flatMap.mpr ⟨w, List.mem_range.mpr hw, ?_⟩
      cases command with
      | true => exact List.mem_cons_self
      | false => exact List.mem_cons_of_mem _ List.mem_cons_self
  | second hphase => cases h.phase.symm.trans hphase
  | fault => exact .other Phase.noConfusion Phase.noConfusion Phase.noConfusion (Or.inl h.interrupted)
  | child =>
    refine .running ⟨h.phase, h.interrupted, h.exception, fun i hi => h.held i ?_⟩
    exact lt_of_lt_of_eq hi List.length_set

/-- The step in the handler. -/
theorem ending_step {n capacity : Nat} {choice : Choice} {s s' : State} (hordered : Ordered n s)
    (h : Ending n s) (hcondition : Undisturbed n choice s)
    (hstep : step n capacity choice s = some s') : Stage n s' := by
  have hextends := extends_step hstep
  have hends : ∀ {t : Task} {rest : List Task}, s.todo = t :: rest → t.ends = true := by
    intro t rest htodo
    exact ends_handler n t (h.todo.subset (htodo ▸ List.mem_cons_self))
  cases change_step hstep with
  | statement hs =>
    rcases ending_statement hordered h hs hextends fun rest htodo =>
      hcondition.2 rfl (congrArg List.head? htodo) with hending | hquiet
    · exact .ending hending
    · exact .quiet hquiet
  | newCopy htodo => cases hends htodo
  | noCopy htodo => cases hends htodo
  | newCommand htodo => cases hends htodo
  | noCommand htodo => cases hends htodo
  | deadline htodo => cases hends htodo
  | interrupt hphase => cases h.phase.symm.trans hphase
  | second => exact .other Phase.noConfusion Phase.noConfusion Phase.noConfusion (Or.inr rfl)
  | fault hphase => cases h.phase.symm.trans hphase
  | child =>
    refine .ending ⟨h.phase, h.interrupted, h.exception, h.todo, fun i hi => h.held i ?_,
      fun w hw command => ?_⟩
    · exact lt_of_lt_of_eq hi List.length_set
    · exact (h.awaited w hw command).imp_right fun hended => hended.extend hextends

/-- **Step lemma**: every part of a run is followed by itself or by a later one. -/
theorem stage_step {n capacity : Nat} {choice : Choice} {s s' : State} (hordered : Ordered n s)
    (h : Stage n s) (hcondition : Undisturbed n choice s)
    (hstep : step n capacity choice s = some s') : Stage n s' := by
  cases h with
  | running h => exact running_step hordered h hcondition hstep
  | ending h => exact ending_step hordered h hcondition hstep
  | quiet h => exact .quiet (quiet_step hordered h hstep).1
  | other hrunning hhandling hreturned h =>
    cases change_step hstep with
    | statement hs =>
      obtain ⟨hinterrupted, hexception⟩ := flags_statement hs
      -- statements leave both flags, so the phase they decide is the one they decided
      have hflags : s'.interrupted = false ∨ s'.exception = true := by
        rw [hinterrupted, hexception]
        exact h
      rcases phase_statement hs with hphase | ⟨hrunning', hhandling', hcode⟩
      · exact .other (hphase ▸ hrunning) (hphase ▸ hhandling) (hphase ▸ hreturned) hflags
      · refine .other hrunning' hhandling' (fun hphase => ?_) hflags
        obtain ⟨hset, hclear⟩ := hcode hphase
        rcases h with h | h
        · cases h.symm.trans hset
        · cases hclear.symm.trans h
    | newCopy => exact .other hrunning hhandling hreturned h
    | noCopy => exact .other hrunning hhandling hreturned h
    | newCommand => exact .other hrunning hhandling hreturned h
    | noCommand => exact .other hrunning hhandling hreturned h
    | deadline => exact .other Phase.noConfusion Phase.noConfusion Phase.noConfusion h
    | interrupt hphase => exact absurd hphase hrunning
    | second hphase => exact absurd hphase hhandling
    | fault hphase => exact absurd hphase hrunning
    | child => exact .other hrunning hhandling hreturned h

/-- The run up to a state. -/
theorem stage_of_run {n capacity : Nat} {choices : List Choice} {s : State}
    (hrun : run (step n capacity) choices (State.start n) = some s)
    (hmeets : Meets (step n capacity) (Undisturbed n) choices (State.start n)) :
    Ordered n s ∧ Stage n s := by
  let inv : State → Prop := fun u => Ordered n u ∧ Stage n u
  have hinv : inv s := invariant_of_meets
    (fun choice u v (h : inv u) hcondition hstep =>
      show inv v from ⟨ordered_step h.1 hstep, stage_step h.1 h.2 hcondition hstep⟩)
    ⟨ordered_start n, stage_start n⟩ hmeets hrun
  exact hinv

/-- Once the handler has run, all is quiet. -/
theorem Stage.quiet_of_handled {n : Nat} {s : State} (h : Stage n s) (hhandled : Handled s) :
    Quiet s := by
  obtain ⟨hinterrupted, hexception, hphase⟩ := hhandled
  cases h with
  | running h => cases h.interrupted.symm.trans hinterrupted
  | ending h => exact absurd h.phase hphase
  | quiet h => exact h
  | other _ _ _ h =>
    rcases h with h | h
    · cases h.symm.trans hinterrupted
    · cases hexception.symm.trans h

/-- **Nothing starts after the handler, and nothing runs on when 130 is returned**, in a run
whose steps are all undisturbed. -/
theorem interrupt_stops {n capacity : Nat} {before after : List Choice} {t s : State}
    (hbefore : run (step n capacity) before (State.start n) = some t)
    (hafter : run (step n capacity) after t = some s)
    (hmeets : Meets (step n capacity) (Undisturbed n) (before ++ after) (State.start n)) :
    (Handled t → s.children.length = t.children.length) ∧
      (s.phase = .returned 130 → ∀ c ∈ s.children, c.exit ≠ none) := by
  constructor
  · intro hhandled
    obtain ⟨hmeetsBefore, hmeetsAfter⟩ := meets_of_append hmeets hbefore
    obtain ⟨hordered, hstage⟩ := stage_of_run hbefore hmeetsBefore
    let inv : State → Prop := fun u =>
      Ordered n u ∧ Quiet u ∧ u.children.length = t.children.length
    have hinv : inv s := by
      refine invariant_of_meets (fun choice u v (h : inv u) _ hstep => ?_)
        (show inv t from ⟨hordered, hstage.quiet_of_handled hhandled, rfl⟩) hmeetsAfter hafter
      obtain ⟨hquiet, hlength⟩ := quiet_step h.1 h.2.1 hstep
      exact ⟨ordered_step h.1 hstep, hquiet, hlength.trans h.2.2⟩
    exact hinv.2.2
  · intro hphase
    have hrun : run (step n capacity) (before ++ after) (State.start n) = some s :=
      run_append.mpr ⟨t, hbefore, hafter⟩
    cases (stage_of_run hrun hmeets).2 with
    | running h => cases h.phase.symm.trans hphase
    | ending h => cases h.phase.symm.trans hphase
    | quiet h => exact h.exited
    | other _ _ hreturned _ => exact absurd hphase hreturned

/-- A signal while the copy of the only worker runs, and the handler that waits for it. -/
def stoppedRun : List Choice :=
  [.popen (some []), .main, .signal, .main, .main, .main, .main, .exit 0 (-15), .main, .main]

/-- The loop notes that the copy has failed, and ends. -/
def stoppedLoop : List Choice :=
  [.main, .close 0 .stdout, .close 0 .stderr, .main, .main, .main, .main, .main, .main, .main,
    .main, .main, .main, .main, .main, .main, .main]

theorem interrupt_stops_one : ∃ t s,
    run (step 1 65536) stoppedRun (State.start 1) = some t ∧
    run (step 1 65536) stoppedLoop t = some s ∧ Handled t ∧ s.phase = .returned 130 ∧
    (Handled t → s.children.length = t.children.length) ∧
    (s.phase = .returned 130 → ∀ c ∈ s.children, c.exit ≠ none) :=
  ⟨_, _, rfl, rfl, ⟨rfl, rfl, Phase.noConfusion⟩, rfl,
    @interrupt_stops 1 65536 stoppedRun stoppedLoop _ _ rfl rfl (by decide)⟩

/-- The copy of the only worker ends well just before the signal. -/
def signalledRun : List Choice :=
  [.popen (some []), .main, .exit 0 0, .close 0 .stdout, .close 0 .stderr, .signal, .main, .main,
    .main, .main, .main]

/-- The loop starts the command, and the five seconds end. -/
def lateCommand : List Choice :=
  [.main, .main, .main, .main, .popen (some []), .main, .main, .main, .main, .main, .main,
    .deadline, .main, .main, .main, .main, .main, .main, .main, .main, .main, .main]

/-- After the handler a command is started, and it still runs when 130 is returned. -/
theorem interrupt_starts_command : ∃ t s,
    run (step 1 65536) signalledRun (State.start 1) = some t ∧
    run (step 1 65536) lateCommand t = some s ∧ Handled t ∧ s.phase = .returned 130 ∧
    t.children.length < s.children.length ∧
    ∃ c ∈ s.children, c.command = true ∧ c.exit = none :=
  ⟨_, _, rfl, rfl, ⟨rfl, rfl, Phase.noConfusion⟩, rfl, Nat.lt_succ_self 1, _,
    List.mem_cons_of_mem _ List.mem_cons_self, rfl, rfl⟩

end Copies

end KleeDeps.Experiments
