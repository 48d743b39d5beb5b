import KleeDeps.Experiments.WorkspaceCopies

/-!
# The status of a worker

A return code comes from the command of the worker, from its workspace copy, or from the place
that gives up on it. The copy is asked where the command has left nothing, and a copy that
succeeded answers 0.

- `Succeeded`: the command of the worker was started and exited with 0;
- `CodesOk`: a return code or a status of 0 comes from such a command;
- `status_zero_succeeded`: **a recorded 0 means success**, in every run where nobody is finalised
  by force on the word of a successful copy alone;
- `status_zero_of_interrupt`: an interrupt between the copy and the command records 0.
-/

namespace KleeDeps.Experiments

namespace Copies

open Runs

/-- The command of the worker was started and exited with 0. -/
def Succeeded (children : List Child) (w : Nat) : Prop :=
  ∃ c ∈ children, c.owner = w ∧ c.command = true ∧ c.exit = some 0

theorem Succeeded.extend {cs ds : List Child} (h : Extends cs ds) {w : Nat}
    (hw : Succeeded cs w) : Succeeded ds w := by
  obtain ⟨c, hc, howner, hcommand, hexit⟩ := hw
  obtain ⟨i, hi⟩ := List.mem_iff_getElem?.mp hc
  obtain ⟨d, hd, howner', hcommand', hexit'⟩ := h i c hi
  exact ⟨d, List.mem_of_getElem? hd, howner'.trans howner, hcommand'.trans hcommand,
    hexit' 0 hexit⟩

/-- A command that was seen to exit with 0 did. -/
theorem succeeded_of_returncode {children : List Child} {w : Nat} {x : Worker}
    (h : x.Linked children w) (hcode : x.returncode true = some 0) : Succeeded children w := by
  obtain ⟨p, hp, hcode⟩ := Option.bind_eq_some_iff.mp hcode
  obtain ⟨c, hc, howner, hcommand, hexit⟩ := h true p hp
  exact ⟨c, List.mem_of_getElem? hc, howner, hcommand, hexit 0 hcode⟩

/-- Where a return code of 0 comes from. -/
theorem chooseCode_zero {x : Worker} {default : Int} (hdefault : default ≠ 0)
    (h : (x.chooseCode default).returnCode = some 0) :
    x.returnCode = some 0 ∨ x.returncode true = some 0 ∨
      (x.returnCode = none ∧ x.returncode true = none ∧ x.returncode false = some 0) := by
  rw [Worker.chooseCode] at h
  cases hcode : x.returnCode with
  | some code =>
    simp only [hcode] at h
    exact Or.inl h
  | none =>
    cases hcommand : x.returncode true with
    | some code =>
      simp only [hcode, hcommand] at h
      exact Or.inr (Or.inl h)
    | none =>
      cases hcopy : x.returncode false with
      | some code =>
        simp only [hcode, hcommand, hcopy] at h
        exact Or.inr (Or.inr ⟨rfl, rfl, h⟩)
      | none =>
        simp only [hcode, hcommand, hcopy] at h
        exact absurd (Option.some.inj h) hdefault

/-- After the choice there is a return code. -/
theorem chooseCode_ne_none (x : Worker) (default : Int) :
    (x.chooseCode default).returnCode ≠ none := by
  rw [Worker.chooseCode]
  split
  · rename_i code hcode
    rw [hcode]
    exact Option.some_ne_none code
  · split
    · exact Option.some_ne_none _
    · split
      · exact Option.some_ne_none _
      · exact Option.some_ne_none _

theorem status_chooseCode (x : Worker) (default : Int) :
    (x.chooseCode default).status = x.status := by
  rw [Worker.chooseCode]
  split
  · rfl
  · split
    · rfl
    · split
      · rfl
      · rfl

/-- A code of 0 is earned. -/
def Worker.Earned (children : List Child) (w : Nat) (x : Worker) : Prop :=
  x.returnCode = some 0 ∨ x.status = some 0 → Succeeded children w

/-- What `finalize_worker` and what leads up to it can rely on: the exit status of the copy was
seen, or the return code is there or comes from the command. -/
def Task.Chosen (s : State) : Task → Prop
  | .communicate w => (s.workers w).returncode false ≠ none
  | .judgeCopy w => (s.workers w).returncode false ≠ none
  | .finalizeWorker w => (s.workers w).finalized = true ∨ (s.workers w).returnCode ≠ none ∨
      (s.workers w).returncode true ≠ none
  | _ => True

theorem chosen_of_follows {s : State} {t : Task} (h : t.follows = false) : t.Chosen s := by
  cases t with
  | communicate => cases h
  | judgeCopy => cases h
  | finalizeWorker => cases h
  | _ => trivial

/-- The invariant: codes of 0 are earned. -/
structure CodesOk (s : State) : Prop where
  linked : Linked s
  earned : ∀ w, (s.workers w).Earned s.children w
  chosen : ∀ t, s.todo.head? = some t → t.Chosen s

/-- The worker a statement finalises by force. -/
def Task.forced : Task → Option Nat
  | .forceFinalize w => some w
  | _ => none

/-- Nobody is finalised by force whose command has left no exit status while the copy has
left a 0. -/
def ForcedKnown (choice : Choice) (s : State) : Prop :=
  choice = .main → ∀ w ∈ s.todo.head?.bind Task.forced,
    (s.workers w).finalized = true ∨ (s.workers w).returnCode ≠ none ∨
      (s.workers w).returncode true ≠ none ∨ (s.workers w).returncode false ≠ some 0

instance (choice : Choice) (s : State) : Decidable (ForcedKnown choice s) :=
  inferInstanceAs (Decidable (_ → _))

theorem codesOk_start (n : Nat) : CodesOk (State.start n) where
  linked := linked_start n
  earned w h := by rcases h with h | h <;> cases h
  chosen t ht := forall_start (fun _ _ => trivial) trivial t (List.mem_of_mem_head? ht)

/-- What the choice of a return code keeps. -/
theorem Worker.Earned.chooseCode {children : List Child} {w : Nat} {x : Worker} {default : Int}
    (h : x.Earned children w) (hlinked : x.Linked children w) (hdefault : default ≠ 0)
    (hknown : x.returnCode ≠ none ∨ x.returncode true ≠ none ∨ x.returncode false ≠ some 0) :
    (x.chooseCode default).Earned children w := by
  rintro (hcode | hstatus)
  · rcases chooseCode_zero hdefault hcode with hcode | hcode | ⟨hnone, hcommand, hcopy⟩
    · exact h (Or.inl hcode)
    · exact succeeded_of_returncode hlinked hcode
    · rcases hknown with hknown | hknown | hknown
      · exact absurd hnone hknown
      · exact absurd hcommand hknown
      · exact absurd hcopy hknown
  · rw [status_chooseCode] at hstatus
    exact h (Or.inr hstatus)

/-- A statement keeps codes earned. -/
theorem earned_statement {n : Nat} {s s' : State} (h : CodesOk s) (hs : Statement n s s')
    (hknown : ForcedKnown .main s) (hextends : Extends s.children s'.children) :
    ∀ w, (s'.workers w).Earned s'.children w := by
  -- the workers first, over the children there were
  suffices hold : ∀ w, (s'.workers w).Earned s.children w from
    fun w hzero => (hold w hzero).extend hextends
  intro w
  have hold := h.earned w
  have hhead : ∀ {t : Task} {rest : List Task}, s.todo = t :: rest → s.todo.head? = some t := by
    intro t rest htodo
    rw [htodo]
    rfl
  have hupdate := update_statement hs w
  generalize s'.workers w = x at hupdate ⊢
  cases hupdate with
  | fail hcode =>
    -- a start that failed gives 1, and a copy has failed because its code is not 0
    rintro (hzero | hstatus)
    · exact absurd hzero hcode
    · exact hold (Or.inr hstatus)
  | chooseCode htodo hfinal =>
    refine hold.chooseCode (h.linked.popen w) (by decide) ?_
    -- where the code is chosen, one is known to be there
    rcases h.chosen _ (hhead htodo) with hdone | hcode | hcode
    · rw [hfinal] at hdone
      cases hdone
    · exact Or.inl hcode
    · exact Or.inr (Or.inl hcode)
  | forceFinalize htodo hfinal =>
    refine hold.chooseCode (h.linked.popen w) ?_ ?_
    · split
      · decide
      · decide
    · -- a forced end has to know one; this is the condition on the run
      have hforced : w ∈ s.todo.head?.bind Task.forced := by
        rw [htodo]
        rfl
      rcases hknown rfl w hforced with hdone | hcode
      · rw [hfinal] at hdone
        cases hdone
      · exact hcode
  | writeStatus =>
    rintro (hcode | hcode)
    · exact hold (Or.inl hcode)
    · exact hold (Or.inl hcode)
  | poll command =>
    cases command with
    | true => exact hold
    | false => exact hold
  -- the others touch neither codes nor status
  | _ => exact hold

/-- What the next statement can rely on. -/
theorem chosen_statement {n : Nat} {s s' : State} (h : CodesOk s) (hs : Statement n s s') :
    ∀ t, s'.todo.head? = some t → t.Chosen s' := by
  -- of what does not follow at once nothing is asked
  have hplain : ∀ {todo : List Task}, (∀ t ∈ todo, t.follows = false) →
      ∀ t, todo.head? = some t → t.Chosen s' := fun htodo t ht =>
    chosen_of_follows (htodo t (List.mem_of_mem_head? ht))
  have hrest : ∀ {t : Task} {rest : List Task}, s.todo = t :: rest →
      ∀ u ∈ rest, u.follows = false := by
    intro t rest htodo u hu
    refine h.linked.tail u ?_
    rw [htodo]
    exact hu
  have hhead : ∀ {t : Task} {rest : List Task}, s.todo = t :: rest → t.Chosen s := by
    intro t rest htodo
    refine h.chosen t ?_
    rw [htodo]
    rfl
  have hcons : ∀ {t : Task} {rest : List Task}, t.Chosen s' →
      ∀ u, (t :: rest).head? = some u → u.Chosen s' := by
    intro t rest ht u hu
    rw [← Option.some.inj hu]
    exact ht
  have hset : ∀ (w : Nat) (x : Worker) (todo : List Task), (setWorker s w x todo).workers w = x :=
    fun w x todo => if_pos rfl
  cases hs with
  | idle htodo => exact hplain (hrest htodo)
  | recordCopy htodo => exact hplain (hrest htodo)
  | @failStart w rest htodo =>
    refine hcons (Or.inr (Or.inl ?_))
    rw [hset]
    exact Option.some_ne_none 1
  | loopOver => exact hplain (follows_finish n)
  | loopBody => exact hplain (follows_iteration n)
  | copyRuns htodo => exact hplain (hrest htodo)
  | @copyExited w rest htodo hcopying hcode =>
    refine hcons ?_
    show (if w = w then (s.workers w).poll s.children false else s.workers w).returncode
      false ≠ none
    rw [if_pos rfl]
    exact hcode
  | communicateWait htodo =>
    intro t ht
    rw [show t = _ from Option.some.inj (ht.symm.trans (congrArg List.head? htodo))]
    exact hhead htodo
  | @communicateDone w rest p c htodo =>
    exact hcons (hhead htodo)
  | @copyFailed w rest htodo hcode =>
    refine hcons (Or.inr (Or.inl ?_))
    rw [hset]
    exact hhead htodo
  | copyReady => exact hcons trivial
  | recordProcess => exact hcons trivial
  | registerStdout => exact hcons trivial
  | registerStderr => exact hcons trivial
  | openStreams htodo => exact hplain (hrest htodo)
  | drain htodo hkeys =>
    refine hplain fun t ht => ?_
    rcases List.mem_append.mp ht with ht | ht
    · obtain ⟨w, stream, rfl⟩ := hkeys t ht
      rfl
    · exact hrest htodo t ht
  | readChunk htodo => exact hplain (hrest htodo)
  | readEnd htodo => exact hplain (hrest htodo)
  | commandRuns htodo => exact hplain (hrest htodo)
  | @commandExited w rest htodo hcode =>
    refine hcons (Or.inr (Or.inr ?_))
    show (if w = w then (s.workers w).poll s.children true else s.workers w).returncode
      true ≠ none
    rw [if_pos rfl]
    exact hcode
  | chooseCode => exact hcons trivial
  | writeStatus => exact hcons trivial
  | setFinalized htodo => exact hplain (hrest htodo)
  | loopEnd => exact hcons trivial
  | terminated htodo => exact hplain (hrest htodo)
  | terminate htodo => exact hplain (hrest htodo)
  | waited htodo => exact hplain (hrest htodo)
  | waits htodo =>
    intro t ht
    rw [show t = _ from Option.some.inj (ht.symm.trans (congrArg List.head? htodo))]
    trivial
  | handlerEnd => exact hcons trivial
  | closeStream htodo => exact hplain (hrest htodo)
  | @forceFinalize w rest htodo hfinal =>
    refine hcons (Or.inr (Or.inl ?_))
    rw [hset]
    exact chooseCode_ne_none _ _
  | collect =>
    intro t ht
    cases ht

/-- **Step lemma**: codes of 0 stay earned. -/
theorem codesOk_step {n capacity : Nat} {choice : Choice} {s s' : State} (h : CodesOk s)
    (hknown : ForcedKnown choice s) (hstep : step n capacity choice s = some s') : CodesOk s' := by
  have hextends := extends_step hstep
  have hlinked := linked_step h.linked hstep
  have hearned : ∀ w, (s.workers w).Earned s'.children w := fun w hzero =>
    (h.earned w hzero).extend hextends
  have hplain : ∀ {todo : List Task}, (∀ t ∈ todo, t.follows = false) →
      ∀ t, todo.head? = some t → t.Chosen s' := fun htodo t ht =>
    chosen_of_follows (htodo t (List.mem_of_mem_head? ht))
  cases change_step hstep with
  | statement hs => exact ⟨hlinked, earned_statement h hs hknown hextends, chosen_statement h hs⟩
  | newCopy =>
    refine ⟨hlinked, hearned, fun t ht => ?_⟩
    obtain rfl := Option.some.inj ht
    trivial
  | noCopy =>
    refine ⟨hlinked, hearned, fun t ht => ?_⟩
    obtain rfl := Option.some.inj ht
    trivial
  | newCommand =>
    refine ⟨hlinked, hearned, fun t ht => ?_⟩
    obtain rfl := Option.some.inj ht
    trivial
  | noCommand =>
    refine ⟨hlinked, hearned, fun t ht => ?_⟩
    obtain rfl := Option.some.inj ht
    trivial
  | deadline =>
    refine ⟨hlinked, hearned, hplain fun t ht => ?_⟩
    exact (List.mem_append.mp ht).elim (follows_forceFinalizeWorkers n t) (follows_finish n t)
  | interrupt => exact ⟨hlinked, hearned, hplain (follows_handler n)⟩
  | second =>
    refine ⟨hlinked, hearned, fun t ht => ?_⟩
    obtain rfl := Option.some.inj ht
    trivial
  | fault => exact ⟨hlinked, hearned, hplain (follows_finish n)⟩
  | child => exact ⟨hlinked, hearned, h.chosen⟩

/-- **A recorded 0 means success**: in a run where nobody is finalised by force on the word of a
successful copy alone, a status or a return code of 0 belongs to a worker whose command was
started and exited with 0. -/
theorem status_zero_succeeded (n capacity : Nat) (choices : List Choice) (s : State)
    (hrun : run (step n capacity) choices (State.start n) = some s)
    (hmeets : Meets (step n capacity) ForcedKnown choices (State.start n)) (w : Nat)
    (hzero : (s.workers w).status = some 0 ∨ (s.workers w).returnCode = some 0) :
    Succeeded s.children w :=
  (invariant_of_meets (fun _ _ _ h hok hstep => codesOk_step h hok hstep) (codesOk_start n)
    hmeets hrun).earned w hzero.symm

/-- One worker whose copy and whose command succeed. -/
def successfulRun : List Choice :=
  [.popen (some []), .main, .exit 0 0, .close 0 .stdout, .close 0 .stderr, .main, .main, .main,
    .main, .popen (some []), .main, .main, .main, .main, .exit 1 0, .close 1 .stdout,
    .close 1 .stderr, .main, .main, .main, .main, .main, .main]

theorem status_zero_succeeded_one : ∃ s, run (step 1 65536) successfulRun (State.start 1) = some s ∧
    (s.workers 0).status = some 0 ∧ Succeeded s.children 0 :=
  ⟨_, rfl, rfl, status_zero_succeeded 1 65536 successfulRun _ rfl (by decide) 0 (Or.inl rfl)⟩

/-- One worker whose copy succeeds; the signal comes just before `Popen` starts its command,
and the five seconds end. -/
def interruptedRun : List Choice :=
  [.popen (some []), .main, .exit 0 0, .close 0 .stdout, .close 0 .stderr, .main, .main, .main,
    .main, .signal, .main, .main, .main, .main, .main, .main, .main, .main, .main, .deadline,
    .main, .main, .main, .main, .main, .main, .main, .main, .main, .main]

/-- A worker whose command was never started has the status 0. -/
theorem status_zero_of_interrupt : ¬ ∀ (n capacity : Nat) (choices : List Choice) (s : State),
    run (step n capacity) choices (State.start n) = some s →
    ∀ w, (s.workers w).status = some 0 → Succeeded s.children w := by
  intro h
  obtain ⟨c, hc, -, hcommand, -⟩ := h 1 65536 interruptedRun _ rfl 0 rfl
  rw [List.mem_singleton.mp hc] at hcommand
  cases hcommand

end Copies

end KleeDeps.Experiments
