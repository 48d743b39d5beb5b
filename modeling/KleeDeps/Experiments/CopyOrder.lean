import KleeDeps.Experiments.WorkspaceCopies

/-!
# The order of the statements for one worker

A worker gets its copy once, its command once and after a copy that succeeded, and no process
that a worker holds is ever replaced.

- `Worker.Keeps`, `keeps_statement`: processes stay;
- `Worker.Staged`, `Task.Fresh`, `Ordered`: the invariant, which every run keeps
  (`ordered_step`).
-/

namespace KleeDeps.Experiments

namespace Copies

open Runs

/-! ### What the statements do to a worker and to the children -/

/-- The processes of a worker stay. -/
def Worker.Keeps (x x' : Worker) : Prop :=
  ∀ command p, x.popen command = some p → ∃ p', x'.popen command = some p' ∧ p'.child = p.child

theorem Worker.Keeps.refl (x : Worker) : x.Keeps x := fun _ p hp => ⟨p, hp, rfl⟩

theorem child_poll (children : List Child) (p : Popen) : (p.poll children).child = p.child := by
  rw [Popen.poll]
  split
  · rfl
  · rfl

theorem keeps_poll (children : List Child) (x : Worker) (command : Bool) :
    x.Keeps (x.poll children command) := by
  intro other p hp
  rw [popen_poll, hp]
  split
  · exact ⟨p.poll children, rfl, child_poll children p⟩
  · exact ⟨p, rfl, rfl⟩

theorem keeps_chooseCode (x : Worker) (default : Int) : x.Keeps (x.chooseCode default) := by
  intro command p hp
  exact ⟨p, (popen_chooseCode x default command).trans hp, rfl⟩

/-- A statement takes no process from a worker, if none is assigned over another. -/
theorem keeps_statement {n : Nat} {s s' : State} (hs : Statement n s s')
    (hcopy : ∀ w child rest, s.todo = .recordCopy w child :: rest →
      (s.workers w).copyProcess = none)
    (hcommand : ∀ w child rest, s.todo = .recordProcess w child :: rest →
      (s.workers w).process = none) :
    ∀ w, (s.workers w).Keeps (s'.workers w) := by
  intro w
  have hupdate := update_statement hs w
  generalize s'.workers w = x at hupdate ⊢
  cases hupdate with
  | @recordCopy child rest htodo =>
    intro command p hp
    cases command with
    | true => exact ⟨p, hp, rfl⟩
    | false => cases (hcopy w child rest htodo).symm.trans hp
  | @recordProcess child rest htodo =>
    intro command p hp
    cases command with
    | true => cases (hcommand w child rest htodo).symm.trans hp
    | false => exact ⟨p, hp, rfl⟩
  | poll command => exact keeps_poll _ _ command
  | chooseCode => exact keeps_chooseCode _ _
  | forceFinalize => exact keeps_chooseCode _ _
  | _ => exact Worker.Keeps.refl _

/-- A statement starts no process. -/
theorem length_statement {n : Nat} {s s' : State} (hs : Statement n s s') :
    s'.children.length = s.children.length := by
  cases hs with
  | communicateWait => exact List.length_set
  | communicateDone => exact List.length_set
  | readChunk => exact List.length_set
  | terminate => exact List.length_modify _ _ _
  | waits => exact List.length_modify _ _ _
  | _ => rfl

/-- Statements leave the interrupt and the exception as they are. -/
theorem flags_statement {n : Nat} {s s' : State} (hs : Statement n s s') :
    s'.interrupted = s.interrupted ∧ s'.exception = s.exception := by
  cases hs <;> exact ⟨rfl, rfl⟩

/-- The phase changes at the end of the loop, of the handler and of the `finally` block. -/
theorem phase_statement {n : Nat} {s s' : State} (hs : Statement n s s') :
    s'.phase = s.phase ∨ (s'.phase ≠ .running ∧ s'.phase ≠ .handling ∧
      (s'.phase = .returned 130 → s.interrupted = true ∧ s.exception = false)) := by
  cases hs with
  | loopOver => exact Or.inr ⟨Phase.noConfusion, Phase.noConfusion, Phase.noConfusion⟩
  | handlerEnd => exact Or.inr ⟨Phase.noConfusion, Phase.noConfusion, Phase.noConfusion⟩
  | collect =>
    refine Or.inr ?_
    show (if s.exception = true then Phase.raised
      else if s.interrupted = true then .returned 130 else .returned (overallCode n s)) ≠ .running ∧
      (if s.exception = true then Phase.raised
      else if s.interrupted = true then .returned 130 else .returned (overallCode n s)) ≠
        .handling ∧
      ((if s.exception = true then Phase.raised
      else if s.interrupted = true then .returned 130 else .returned (overallCode n s)) =
        .returned 130 → s.interrupted = true ∧ s.exception = false)
    by_cases hexception : s.exception = true
    · rw [if_pos hexception]
      exact ⟨Phase.noConfusion, Phase.noConfusion, Phase.noConfusion⟩
    · rw [if_neg hexception]
      by_cases hinterrupted : s.interrupted = true
      · rw [if_pos hinterrupted]
        exact ⟨Phase.noConfusion, Phase.noConfusion,
          fun _ => ⟨hinterrupted, Bool.eq_false_iff.mpr hexception⟩⟩
      · rw [if_neg hinterrupted]
        refine ⟨Phase.noConfusion, Phase.noConfusion, fun h => ?_⟩
        rw [overallCode] at h
        split at h
        · cases h
        · cases h
  | _ => exact Or.inl rfl

/-- What the choice of a code leaves to a worker. -/
theorem stage_chooseCode (x : Worker) (default : Int) :
    (x.chooseCode default).copyProcess = x.copyProcess ∧
      (x.chooseCode default).process = x.process ∧
      (x.chooseCode default).copySucceeded = x.copySucceeded ∧
      (x.chooseCode default).finalized = x.finalized := by
  rw [Worker.chooseCode]
  split
  · exact ⟨rfl, rfl, rfl, rfl⟩
  · split
    · exact ⟨rfl, rfl, rfl, rfl⟩
    · split
      · exact ⟨rfl, rfl, rfl, rfl⟩
      · exact ⟨rfl, rfl, rfl, rfl⟩

/-! ### The order -/

/-- The command comes after the success of the copy, and that after the copy; only the workers
there are have one. -/
structure Worker.Staged (n w : Nat) (x : Worker) : Prop where
  command : x.process ≠ none → x.copySucceeded = true
  success : x.copySucceeded = true → x.copyProcess ≠ none
  index : x.copyProcess ≠ none → w < n

theorem Worker.Staged.poll {n w : Nat} {x : Worker} (h : x.Staged n w) (children : List Child)
    (command : Bool) : (x.poll children command).Staged n w := by
  cases command with
  | true =>
    exact ⟨fun hp => h.command fun hnone => hp (Option.map_eq_none_iff.mpr hnone), h.success,
      h.index⟩
  | false =>
    exact ⟨h.command, fun hdone hnone => h.success hdone (Option.map_eq_none_iff.mp hnone),
      fun hp => h.index fun hnone => hp (Option.map_eq_none_iff.mpr hnone)⟩

theorem Worker.Staged.chooseCode {n w : Nat} {x : Worker} (h : x.Staged n w) (default : Int) :
    (x.chooseCode default).Staged n w := by
  obtain ⟨hcopy, hprocess, hdone, -⟩ := stage_chooseCode x default
  refine ⟨?_, ?_, ?_⟩
  · rw [hprocess, hdone]
    exact h.command
  · rw [hcopy, hdone]
    exact h.success
  · rw [hcopy]
    exact h.index

theorem notCopying_eq_false {x : Worker} (h : x.notCopying = false) :
    x.finalized = false ∧ x.copyProcess ≠ none ∧ x.copySucceeded = false := by
  rw [Worker.notCopying, Bool.or_eq_false_iff, Bool.or_eq_false_iff] at h
  obtain ⟨⟨hfinal, hcopy⟩, hdone⟩ := h
  refine ⟨hfinal, ?_, hdone⟩
  intro hnone
  rw [hnone] at hcopy
  cases hcopy

theorem notCopying_poll (children : List Child) (x : Worker) (command : Bool) :
    (x.poll children command).notCopying = x.notCopying := by
  cases command with
  | true => rfl
  | false =>
    show (x.finalized || (x.copyProcess.map (Popen.poll children)).isNone || x.copySucceeded) =
      x.notCopying
    rw [Option.isNone_map]
    rfl

/-- What the start of a copy, the end of a copy, the start of a command and the registration of
its pipes can rely on. -/
def Task.Fresh (n : Nat) (s : State) : Task → Prop
  | .recordCopy w _ => w < n ∧ (s.workers w).copyProcess = none ∧ .startCopy w ∉ s.todo
  | .communicate w => (s.workers w).notCopying = false ∧ (s.workers w).returncode false ≠ none
  | .judgeCopy w => (s.workers w).notCopying = false ∧ (s.workers w).returncode false ≠ none
  | .startWorker w => (s.workers w).copySucceeded = true ∧ (s.workers w).process = none
  | .recordProcess w _ => (s.workers w).copySucceeded = true ∧ (s.workers w).process = none
  | .register w .stdout => (s.workers w).process ≠ none
  | .register w .stderr => (s.workers w).process ≠ none ∧ (s.workers w).registered .stdout = true
  | .openStreams w => (s.workers w).process ≠ none ∧ (s.workers w).registered .stdout = true ∧
      (s.workers w).registered .stderr = true
  | _ => True

theorem fresh_of_follows {n : Nat} {s : State} {t : Task} (h : t.follows = false) :
    t.Fresh n s := by
  cases t with
  | recordCopy => cases h
  | communicate => cases h
  | judgeCopy => cases h
  | startWorker => cases h
  | recordProcess => cases h
  | register => cases h
  | openStreams => cases h
  | _ => trivial

/-- The copies that `main` still has to start. -/
def Task.copies : Task → Option Nat
  | .startCopy w => some w
  | _ => none

/-- The invariant: copies and commands are started once, in order. -/
structure Ordered (n : Nat) (s : State) : Prop where
  linked : Linked s
  staged : ∀ w, (s.workers w).Staged n w
  pending : ∀ w ∈ s.todo.filterMap Task.copies, w < n ∧ (s.workers w).copyProcess = none
  nodup : (s.todo.filterMap Task.copies).Nodup
  head : ∀ t ∈ s.todo.head?, t.Fresh n s

theorem filterMap_copies_eq_nil {todo : List Task} (h : ∀ t ∈ todo, t.copies = none) :
    todo.filterMap Task.copies = [] := List.filterMap_eq_nil_iff.mpr h

/-- The statements that start a process, and those that record one. -/
def Task.starts : Task → Bool
  | .startCopy _ | .recordCopy .. | .startWorker _ | .recordProcess .. => true
  | _ => false

/-- The statements of the handler and of the end of the `finally` block. -/
def Task.ending : Task → Bool
  | .terminate .. | .waitOrKill .. | .handlerEnd | .closeStream .. | .forceFinalize _
  | .collect => true
  | _ => false

/-- A statement that another puts in front starts nothing, but for the command of a worker whose
copy has succeeded; it follows at once if that one did; and the loop puts in front none that
belong to its end. -/
structure Task.NewIn (s s' : State) (t : Task) : Prop where
  starts : t.starts = false ∨ ∃ w, t = .startWorker w ∧ s.todo.head? = some (.judgeCopy w) ∧
    (s.workers w).returncode false = some 0
  follows : t.follows = true ∨ ∀ u ∈ s.todo.head?, u.follows = false
  ending : t.ending = false ∨ s'.phase ≠ .running

/-- What remains after a statement: something new, and some of what remained before. -/
theorem todo_statement {n : Nat} {s s' : State} (hs : Statement n s s') :
    ∃ new old, s'.todo = new ++ old ∧ old.IsSuffix s.todo ∧ ∀ t ∈ new, t.NewIn s s' := by
  -- a statement that only goes away
  have hrest : ∀ {t : Task} {rest : List Task}, s.todo = t :: rest →
      ∃ new old, rest = new ++ old ∧ old.IsSuffix s.todo ∧ ∀ t ∈ new, t.NewIn s s' := by
    intro t rest h
    exact ⟨[], rest, rfl, h ▸ List.suffix_cons t rest, fun u hu => absurd hu List.not_mem_nil⟩
  -- a statement followed by another one of the same worker
  have hnext : ∀ {t u : Task} {rest : List Task}, s.todo = t :: rest → u.starts = false →
      u.follows = true → u.ending = false →
      ∃ new old, u :: rest = new ++ old ∧ old.IsSuffix s.todo ∧ ∀ t ∈ new, t.NewIn s s' := by
    intro t u rest h hstarts hfollows hending
    refine ⟨[u], rest, rfl, h ▸ List.suffix_cons t rest, fun v hv => ?_⟩
    rw [List.mem_singleton.mp hv]
    exact ⟨Or.inl hstarts, Or.inl hfollows, Or.inl hending⟩
  have hhead : ∀ {t : Task} {rest : List Task}, s.todo = t :: rest → t.follows = false →
      ∀ u ∈ s.todo.head?, u.follows = false := by
    intro t rest h ht u hu
    rw [h] at hu
    rw [← Option.some.inj hu]
    exact ht
  -- back to the head of the loop
  have hloop : ∀ {t : Task} {rest : List Task}, s.todo = t :: rest → t.follows = false →
      ∃ new old, [Task.loopHead] = new ++ old ∧ old.IsSuffix s.todo ∧
        ∀ t ∈ new, t.NewIn s s' := by
    intro t rest h ht
    refine ⟨[.loopHead], [], rfl, List.nil_suffix, fun u hu => ?_⟩
    rw [List.mem_singleton.mp hu]
    exact ⟨Or.inl rfl, Or.inr (hhead h ht), Or.inl rfl⟩
  -- a statement that waits stays in place
  have hsame : ∃ new old, s.todo = new ++ old ∧ old.IsSuffix s.todo ∧ ∀ t ∈ new, t.NewIn s s' :=
    ⟨[], s.todo, rfl, List.suffix_refl _, fun t ht => absurd ht List.not_mem_nil⟩
  cases hs with
  | idle h => exact hrest h
  | recordCopy h => exact hrest h
  | failStart h => exact hnext h rfl rfl rfl
  | loopOver h =>
    have hend : ∀ {t : Task}, t.starts = false →
        t.NewIn s { s with phase := .finishing, todo := finish n } := fun ht =>
      ⟨Or.inl ht, Or.inr (hhead h rfl), Or.inr Phase.noConfusion⟩
    exact ⟨finish n, [], (List.append_nil _).symm, List.nil_suffix,
      forall_finish (fun _ _ _ => hend rfl) (fun _ _ => hend rfl) (hend rfl)⟩
  | loopBody h =>
    have hbody : ∀ {t : Task}, t.starts = false → t.ending = false →
        t.NewIn s { s with made := false, todo := iteration n } := fun ht hending =>
      ⟨Or.inl ht, Or.inr (hhead h rfl), Or.inl hending⟩
    exact ⟨iteration n, [], (List.append_nil _).symm, List.nil_suffix,
      forall_iteration (fun _ _ => hbody rfl rfl) (hbody rfl rfl) (fun _ _ => hbody rfl rfl)
        (hbody rfl rfl)⟩
  | copyRuns h => exact hrest h
  | copyExited h => exact hnext h rfl rfl rfl
  | communicateWait => exact hsame
  | communicateDone h => exact hnext h rfl rfl rfl
  | copyFailed h => exact hnext h rfl rfl rfl
  | @copyReady w rest h hcode =>
    -- the only new start: the command of a copy that exited with 0
    refine ⟨[.startWorker w], rest, rfl, h ▸ List.suffix_cons _ rest, fun t ht => ?_⟩
    rw [List.mem_singleton.mp ht]
    exact ⟨Or.inr ⟨w, rfl, congrArg List.head? h, hcode⟩, Or.inl rfl, Or.inl rfl⟩
  | recordProcess h => exact hnext h rfl rfl rfl
  | registerStdout h => exact hnext h rfl rfl rfl
  | registerStderr h => exact hnext h rfl rfl rfl
  | openStreams h => exact hrest h
  | @drain rest keys h hkeys =>
    refine ⟨keys, rest, rfl, h ▸ List.suffix_cons _ rest, fun t ht => ?_⟩
    obtain ⟨w, stream, rfl⟩ := hkeys t ht
    exact ⟨Or.inl rfl, Or.inr (hhead h rfl), Or.inl rfl⟩
  | readChunk h => exact hrest h
  | readEnd h => exact hrest h
  | commandRuns h => exact hrest h
  | commandExited h => exact hnext h rfl rfl rfl
  | chooseCode h => exact hnext h rfl rfl rfl
  | writeStatus h => exact hnext h rfl rfl rfl
  | setFinalized h => exact hrest h
  | loopEnd h => exact hloop h rfl
  | terminated h => exact hrest h
  | terminate h => exact hrest h
  | waited h => exact hrest h
  | waits => exact hsame
  | handlerEnd h => exact hloop h rfl
  | closeStream h => exact hrest h
  | forceFinalize h => exact hnext h rfl rfl rfl
  | collect =>
    exact ⟨[], [], rfl, List.nil_suffix, fun t ht => absurd ht List.not_mem_nil⟩

/-- The copies still to be started are some of those before. -/
theorem copies_statement {n : Nat} {s s' : State} (hs : Statement n s s') :
    (s'.todo.filterMap Task.copies).Sublist (s.todo.filterMap Task.copies) := by
  obtain ⟨new, old, htodo, hold, hnew⟩ := todo_statement hs
  have hnone : ∀ t ∈ new, t.copies = none := by
    intro t ht
    rcases (hnew t ht).starts with hstarts | ⟨w, rfl, -, -⟩
    · cases t with
      | startCopy => cases hstarts
      | _ => rfl
    · rfl
  rw [htodo, List.filterMap_append, filterMap_copies_eq_nil hnone]
  exact hold.sublist.filterMap Task.copies

theorem staged_statement {n : Nat} {s s' : State} (h : Ordered n s) (hs : Statement n s s') :
    ∀ w, (s'.workers w).Staged n w := by
  intro w
  have hold := h.staged w
  have hhead : ∀ {t : Task} {rest : List Task}, s.todo = t :: rest → t.Fresh n s := by
    intro t rest htodo
    refine h.head t ?_
    rw [htodo]
    rfl
  have hupdate := update_statement hs w
  generalize s'.workers w = x at hupdate ⊢
  cases hupdate with
  | recordCopy htodo =>
    obtain ⟨hw, hnone, -⟩ := hhead htodo
    exact ⟨hold.command, fun _ => Option.some_ne_none _, fun _ => hw⟩
  | recordProcess htodo =>
    obtain ⟨hdone, -⟩ := hhead htodo
    exact ⟨fun _ => hdone, hold.success, hold.index⟩
  | copyReady htodo =>
    obtain ⟨-, hcopy, -⟩ := notCopying_eq_false (hhead htodo).1
    exact ⟨fun _ => rfl, fun _ => hcopy, hold.index⟩
  | poll command => exact hold.poll _ command
  | chooseCode => exact hold.chooseCode _
  | forceFinalize => exact hold.chooseCode _
  | _ => exact { hold with }

theorem fresh_statement {n : Nat} {s s' : State} (h : Ordered n s) (hs : Statement n s s') :
    ∀ t ∈ s'.todo.head?, t.Fresh n s' := by
  -- of what does not follow at once nothing is asked
  have hplain : ∀ {todo : List Task}, (∀ t ∈ todo, t.follows = false) →
      ∀ t ∈ todo.head?, t.Fresh n s' := fun htodo t ht =>
    fresh_of_follows (htodo t (List.mem_of_mem_head? ht))
  have hrest : ∀ {t : Task} {rest : List Task}, s.todo = t :: rest →
      ∀ u ∈ rest, u.follows = false := by
    intro t rest htodo u hu
    refine h.linked.tail u ?_
    rw [htodo]
    exact hu
  have hhead : ∀ {t : Task} {rest : List Task}, s.todo = t :: rest → t.Fresh n s := by
    intro t rest htodo
    refine h.head t ?_
    rw [htodo]
    rfl
  have hcons : ∀ {t : Task} {rest : List Task}, t.Fresh n s' →
      ∀ u ∈ (t :: rest).head?, u.Fresh n s' := by
    intro t rest ht u hu
    rw [← Option.some.inj hu]
    exact ht
  cases hs with
  | idle htodo => exact hplain (hrest htodo)
  | recordCopy htodo => exact hplain (hrest htodo)
  | failStart => exact hcons trivial
  | loopOver => exact hplain (follows_finish n)
  | loopBody => exact hplain (follows_iteration n)
  | copyRuns htodo => exact hplain (hrest htodo)
  | @copyExited w rest htodo hcopying hcode =>
    refine hcons ?_
    show (if w = w then (s.workers w).poll s.children false else s.workers w).notCopying = false ∧
      (if w = w then (s.workers w).poll s.children false else s.workers w).returncode false ≠ none
    rw [if_pos rfl, notCopying_poll]
    exact ⟨hcopying, hcode⟩
  | communicateWait htodo =>
    intro t ht
    obtain rfl := Option.some.inj ((congrArg List.head? htodo).symm.trans ht)
    exact hhead htodo
  | communicateDone htodo => exact hcons (hhead htodo)
  | copyFailed => exact hcons trivial
  | @copyReady w rest htodo =>
    refine hcons ?_
    show (if w = w then { s.workers w with copySucceeded := true } else s.workers w).copySucceeded
        = true ∧
      (if w = w then { s.workers w with copySucceeded := true } else s.workers w).process = none
    rw [if_pos rfl]
    refine ⟨rfl, ?_⟩
    -- a copy that was just polled had not succeeded before, so there is no command yet
    obtain ⟨-, -, hdone⟩ := notCopying_eq_false (hhead htodo).1
    by_contra hprocess
    cases hdone.symm.trans ((h.staged w).command hprocess)
  | @recordProcess w child rest =>
    refine hcons ?_
    show (if w = w then { s.workers w with process := some ⟨child, none⟩ }
      else s.workers w).process ≠ none
    rw [if_pos rfl]
    exact Option.some_ne_none _
  | @registerStdout w rest htodo =>
    refine hcons ?_
    let x : Worker := { s.workers w with
      registered := fun other => if other = .stdout then true else (s.workers w).registered other }
    show (if w = w then x else s.workers w).process ≠ none ∧
      (if w = w then x else s.workers w).registered .stdout = true
    rw [if_pos rfl]
    exact ⟨hhead htodo, rfl⟩
  | @registerStderr w rest htodo =>
    refine hcons ?_
    let x : Worker := { s.workers w with
      registered := fun other => if other = .stderr then true else (s.workers w).registered other }
    show (if w = w then x else s.workers w).process ≠ none ∧
      (if w = w then x else s.workers w).registered .stdout = true ∧
      (if w = w then x else s.workers w).registered .stderr = true
    rw [if_pos rfl]
    obtain ⟨hprocess, hstdout⟩ := hhead htodo
    exact ⟨hprocess, hstdout, rfl⟩
  | openStreams htodo => exact hplain (hrest htodo)
  | drain htodo hkeys =>
    refine hplain fun t ht => ?_
    rcases List.mem_append.mp ht with ht | ht
    · obtain ⟨w, stream, rfl⟩ := hkeys t ht
      rfl
    · exact hrest htodo t ht
  | readChunk htodo => exact hplain (hrest htodo)
  | readEnd htodo => exact hplain (hrest htodo)
  | commandRuns htodo => exact hplain (hrest htodo)
  | commandExited => exact hcons trivial
  | chooseCode => exact hcons trivial
  | writeStatus => exact hcons trivial
  | setFinalized htodo => exact hplain (hrest htodo)
  | loopEnd => exact hcons trivial
  | terminated htodo => exact hplain (hrest htodo)
  | terminate htodo => exact hplain (hrest htodo)
  | waited htodo => exact hplain (hrest htodo)
  | waits htodo =>
    intro t ht
    obtain rfl := Option.some.inj ((congrArg List.head? htodo).symm.trans ht)
    trivial
  | handlerEnd => exact hcons trivial
  | closeStream htodo => exact hplain (hrest htodo)
  | forceFinalize => exact hcons trivial
  | collect =>
    intro t ht
    cases ht

/-- A worker whose copy is still to be started has none. -/
def Worker.Copyless (pending : List Nat) (w : Nat) (x : Worker) : Prop :=
  w ∈ pending → x.copyProcess = none

theorem Worker.Copyless.poll {pending : List Nat} {w : Nat} {x : Worker}
    (h : x.Copyless pending w) (children : List Child) (command : Bool) :
    (x.poll children command).Copyless pending w := by
  intro hw
  cases command with
  | true => exact h hw
  | false => exact Option.map_eq_none_iff.mpr (h hw)

theorem Worker.Copyless.chooseCode {pending : List Nat} {w : Nat} {x : Worker}
    (h : x.Copyless pending w) (default : Int) : (x.chooseCode default).Copyless pending w := by
  intro hw
  rw [(stage_chooseCode x default).1]
  exact h hw

theorem pending_statement {n : Nat} {s s' : State} (h : Ordered n s) (hs : Statement n s s') :
    ∀ w ∈ s'.todo.filterMap Task.copies, w < n ∧ (s'.workers w).copyProcess = none := by
  -- no statement but an assignment gives a copy to a worker that has none
  suffices hnone : ∀ w, (s'.workers w).Copyless (s.todo.filterMap Task.copies) w by
    intro w hw
    have hw := (copies_statement hs).subset hw
    exact ⟨(h.pending w hw).1, hnone w hw⟩
  intro w
  have hold : (s.workers w).Copyless (s.todo.filterMap Task.copies) w :=
    fun hw => (h.pending w hw).2
  have hupdate := update_statement hs w
  generalize s'.workers w = x at hupdate ⊢
  cases hupdate with
  | @recordCopy child rest htodo =>
    intro hw
    obtain ⟨-, -, hstarted⟩ := h.head (.recordCopy w child) (by rw [htodo]; rfl)
    obtain ⟨t, ht, hcopies⟩ := List.mem_filterMap.mp hw
    cases t with
    | startCopy v =>
      obtain rfl := Option.some.inj hcopies
      exact absurd ht hstarted
    | _ => cases hcopies
  | poll command => exact hold.poll _ command
  | chooseCode => exact hold.chooseCode _
  | forceFinalize => exact hold.chooseCode _
  | _ => exact hold

theorem ordered_start (n : Nat) : Ordered n (State.start n) := by
  have hcopies : (State.start n).todo.filterMap Task.copies = List.range n := by
    show ((List.range n).map Task.startCopy ++ [Task.loopHead]).filterMap Task.copies = List.range n
    rw [List.filterMap_append, List.filterMap_map]
    show (List.range n).filterMap some ++ [] = List.range n
    rw [List.filterMap_some, List.append_nil]
  refine ⟨linked_start n, fun w => ?_, fun w hw => ?_, ?_, fun t ht => ?_⟩
  · refine ⟨fun h => absurd rfl h, fun h => ?_, fun h => absurd rfl h⟩
    cases h
  · rw [hcopies] at hw
    exact ⟨List.mem_range.mp hw, rfl⟩
  · rw [hcopies]
    exact List.nodup_range
  · exact forall_start (P := Task.Fresh n (State.start n)) (fun _ _ => trivial) trivial t
      (List.mem_of_mem_head? ht)

/-- **Step lemma**: the order holds after every step. -/
theorem ordered_step {n capacity : Nat} {choice : Choice} {s s' : State} (h : Ordered n s)
    (hstep : step n capacity choice s = some s') : Ordered n s' := by
  have hlinked := linked_step h.linked hstep
  -- the lists that a deadline or a signal puts in place start no copy
  have hnil : ∀ {todo : List Task}, (∀ t ∈ todo, t.copies = none) →
      (∀ w ∈ todo.filterMap Task.copies, w < n ∧ (s.workers w).copyProcess = none) ∧
        (todo.filterMap Task.copies).Nodup := by
    intro todo htodo
    rw [filterMap_copies_eq_nil htodo]
    exact ⟨fun w hw => absurd hw List.not_mem_nil, List.nodup_nil⟩
  -- and nothing in them follows a `Popen`, so their head owes nothing
  have hplain : ∀ {todo : List Task}, (∀ t ∈ todo, t.follows = false) →
      ∀ t ∈ todo.head?, t.Fresh n s' := fun htodo t ht =>
    fresh_of_follows (htodo t (List.mem_of_mem_head? ht))
  have hcons : ∀ {t : Task} {rest : List Task}, t.Fresh n s' →
      ∀ u ∈ (t :: rest).head?, u.Fresh n s' := by
    intro t rest ht u hu
    rw [← Option.some.inj hu]
    exact ht
  have hfinish : ∀ t ∈ finish n, t.copies = none :=
    forall_finish (fun _ _ _ => rfl) (fun _ _ => rfl) rfl
  cases change_step hstep with
  | statement hs =>
    exact ⟨hlinked, staged_statement h hs, pending_statement h hs,
      h.nodup.sublist (copies_statement hs), fresh_statement h hs⟩
  | @newCopy w rest script htodo =>
    have hpending := h.pending
    have hnodup := h.nodup
    rw [htodo, List.filterMap_cons_some (show Task.copies (.startCopy w) = some w from rfl)]
      at hpending hnodup
    obtain ⟨hw, hnone⟩ := hpending w List.mem_cons_self
    obtain ⟨hnotin, hnodup⟩ := List.nodup_cons.mp hnodup
    refine ⟨hlinked, h.staged, fun v hv => hpending v (List.mem_cons_of_mem _ hv), hnodup,
      hcons ⟨hw, hnone, fun hmem => ?_⟩⟩
    -- a second `startCopy w` behind this one would be a duplicate of `pending`
    rcases List.mem_cons.mp hmem with hmem | hmem
    · cases hmem
    · exact hnotin (List.mem_filterMap.mpr ⟨.startCopy w, hmem, rfl⟩)
  | @noCopy w rest htodo =>
    have hpending := h.pending
    have hnodup := h.nodup
    rw [htodo, List.filterMap_cons_some (show Task.copies (.startCopy w) = some w from rfl)]
      at hpending hnodup
    exact ⟨hlinked, h.staged, fun v hv => hpending v (List.mem_cons_of_mem _ hv),
      (List.nodup_cons.mp hnodup).2, hcons trivial⟩
  | @newCommand w rest script htodo =>
    have hpending := h.pending
    have hnodup := h.nodup
    have hfresh : Task.Fresh n s (.startWorker w) := h.head _ (by rw [htodo]; rfl)
    rw [htodo] at hpending hnodup
    exact ⟨hlinked, h.staged, hpending, hnodup, hcons hfresh⟩
  | @noCommand w rest htodo =>
    have hpending := h.pending
    have hnodup := h.nodup
    rw [htodo] at hpending hnodup
    exact ⟨hlinked, h.staged, hpending, hnodup, hcons trivial⟩
  | deadline =>
    obtain ⟨hpending, hnodup⟩ := hnil fun t ht => (List.mem_append.mp ht).elim
      (forall_forceFinalizeWorkers (n := n) (P := fun t => t.copies = none)
        (fun _ _ _ => rfl) (fun _ _ => rfl) t) (hfinish t)
    exact ⟨hlinked, h.staged, hpending, hnodup, hplain fun t ht =>
      (List.mem_append.mp ht).elim (follows_forceFinalizeWorkers n t) (follows_finish n t)⟩
  | interrupt =>
    obtain ⟨hpending, hnodup⟩ := hnil (forall_handler (n := n) (fun _ _ _ => rfl)
      (fun _ _ _ => rfl) rfl)
    exact ⟨hlinked, h.staged, hpending, hnodup, hplain (follows_handler n)⟩
  | second =>
    obtain ⟨hpending, hnodup⟩ := hnil (List.forall_mem_singleton.mpr
      (show Task.copies .loopHead = none from rfl))
    exact ⟨hlinked, h.staged, hpending, hnodup, hcons trivial⟩
  | fault =>
    obtain ⟨hpending, hnodup⟩ := hnil hfinish
    exact ⟨hlinked, h.staged, hpending, hnodup, hplain (follows_finish n)⟩
  | child => exact ⟨hlinked, h.staged, h.pending, h.nodup, h.head⟩

end Copies

end KleeDeps.Experiments
