import KleeDeps.Data.Runs
import Mathlib.Data.List.Basic
import Mathlib.Tactic.TypeStar

/-!
# Parallel runs in workspace copies

`scripts/experiments/parallel_klee_copies.py`: one event loop that copies the repository for
each worker, starts a command in each copy that is ready, drains the output of the commands
and finalises the workers whose command has exited; an interrupt handler that ends all
processes, and a `finally` block that goes on with the loop for five seconds after an
interrupt and then finalises what is left by force.

The loop is a machine whose `todo` list holds the statements that remain (`Task`); between any
two statements a signal can arrive, an exception can be raised, and the child processes can
write to their pipes, close them and exit (`Choice`, `step`). The handles of the log files,
the texts that are printed, and what the signal handlers of the caller do once the `finally`
block has put them back are not part of it.

- `Worker.poll`, `Worker.chooseCode`: what the statements do to one worker;
- `mainStep`: one statement of `main`;
- `step`: a statement, a signal, or a child process;
- `Extends`, `extends_step`: children only come, exit once and keep their owners.
-/

namespace KleeDeps.Experiments

namespace Copies

open Runs

inductive Stream where
  | stdout
  | stderr
  deriving DecidableEq

/-- A child process: the copy or the command of a worker, the bytes it still writes, and its
two pipes. -/
structure Child where
  owner : Nat
  command : Bool
  script : List Stream
  pipe : Stream → Nat
  closed : Stream → Bool
  /-- a signal was sent to its process group -/
  signalled : Bool
  exit : Option Int

def Child.spawn (owner : Nat) (command : Bool) (script : List Stream) : Child where
  owner := owner
  command := command
  script := script
  pipe := fun _ => 0
  closed := fun _ => false
  signalled := false
  exit := none

/-- A `subprocess.Popen`: the process, and its exit status once it was seen. -/
structure Popen where
  child : Nat
  returncode : Option Int

/-- `Worker`; `registered` are its entries in the selector, `status` is what the status log
holds. -/
structure Worker where
  copyProcess : Option Popen
  process : Option Popen
  copySucceeded : Bool
  returnCode : Option Int
  finalized : Bool
  registered : Stream → Bool
  openStreams : Stream → Bool
  status : Option Int

def Worker.new : Worker where
  copyProcess := none
  process := none
  copySucceeded := false
  returnCode := none
  finalized := false
  registered := fun _ => false
  openStreams := fun _ => false
  status := none

/-- The statements of `main` and of the functions it calls. -/
inductive Task where
  /-- `Popen` of `start_copy`, and the assignment of what it returns -/
  | startCopy (w : Nat)
  | recordCopy (w child : Nat)
  /-- `return_code = 1` after an `OSError` -/
  | failStart (w : Nat)
  | loopHead
  | pollCopy (w : Nat)
  | communicate (w : Nat)
  | judgeCopy (w : Nat)
  /-- `Popen` of `start_worker_process`, the assignment and what follows it -/
  | startWorker (w : Nat)
  | recordProcess (w child : Nat)
  | register (w : Nat) (stream : Stream)
  | openStreams (w : Nat)
  | drain
  | readStream (w : Nat) (stream : Stream)
  | finalizeExited (w : Nat)
  /-- `finalize_worker`: the return code, the status log, the flag -/
  | finalizeWorker (w : Nat)
  | writeStatus (w : Nat)
  | setFinalized (w : Nat)
  | loopEnd
  | terminate (w : Nat) (command : Bool)
  | waitOrKill (w : Nat) (command : Bool)
  | handlerEnd
  | closeStream (w : Nat) (stream : Stream)
  | forceFinalize (w : Nat)
  | collect
  deriving DecidableEq

/-- Where `main` is: in the `try` block, in the handler, in the loop after an interrupt, at
the end; or it has returned or ended with an exception. -/
inductive Phase where
  | running
  | handling
  | draining
  | finishing
  | returned (code : Int)
  | raised
  deriving DecidableEq

structure State where
  workers : Nat → Worker
  children : List Child
  todo : List Task
  /-- `made_progress` -/
  made : Bool
  phase : Phase
  interrupted : Bool
  /-- an exception that the `finally` block lets through at its end -/
  exception : Bool

/-! ### One worker -/

def exitOf (children : List Child) (child : Nat) : Option Int :=
  children[child]?.bind Child.exit

/-- `Popen.poll`: the exit status, if there is one, is kept. -/
def Popen.poll (children : List Child) (p : Popen) : Popen :=
  match p.returncode with
  | some _ => p
  | none => { p with returncode := exitOf children p.child }

/-- The command or the copy of a worker. -/
def Worker.popen (x : Worker) (command : Bool) : Option Popen :=
  if command then x.process else x.copyProcess

/-- `poll` on the command or the copy. -/
def Worker.poll (children : List Child) (x : Worker) (command : Bool) : Worker :=
  if command then { x with process := x.process.map (Popen.poll children) }
  else { x with copyProcess := x.copyProcess.map (Popen.poll children) }

/-- The exit status a `Popen` has seen. -/
def Worker.returncode (x : Worker) (command : Bool) : Option Int :=
  (x.popen command).bind Popen.returncode

/-- The choice of `finalize_worker` and of `force_finalize_workers`, with what the latter was
given. -/
def Worker.chooseCode (x : Worker) (default : Int) : Worker :=
  match x.returnCode with
  | some _ => x
  | none =>
    match x.returncode true with
    | some code => { x with returnCode := some code }
    | none =>
      match x.returncode false with
      | some code => { x with returnCode := some code }
      | none => { x with returnCode := some default }

/-- `close_worker_stream`. -/
def Worker.closeStream (x : Worker) (stream : Stream) : Worker :=
  { x with
    registered := fun other => if other = stream then false else x.registered other
    openStreams := fun other => if other = stream then false else x.openStreams other }

/-- Does `poll_copy_processes` pass over the worker at once? -/
def Worker.notCopying (x : Worker) : Bool :=
  x.finalized || x.copyProcess.isNone || x.copySucceeded

/-- The pipes of a child as the parent sees them: something to read, or the end. -/
def Child.readable (c : Child) (stream : Stream) : Bool := 0 < c.pipe stream || c.closed stream

/-- The command of a worker. -/
def commandOf (s : State) (w : Nat) : Option Child :=
  (s.workers w).process.bind fun p => s.children[p.child]?

/-- What `selector.select` reports. -/
def ready (s : State) (w : Nat) (stream : Stream) : Bool :=
  (s.workers w).registered stream && (commandOf s w).any fun c => c.readable stream

/-! ### The statements -/

section

variable (n : Nat)

def State.start : State where
  workers := fun _ => .new
  children := []
  todo := (List.range n).map .startCopy ++ [.loopHead]
  made := false
  phase := .running
  interrupted := false
  exception := false

/-- `all(worker.finalized for worker in workers)`. -/
def allFinalized (s : State) : Bool := (List.range n).all fun w => (s.workers w).finalized

/-- The body of the loop. -/
def iteration : List Task :=
  (List.range n).map .pollCopy ++ .drain :: ((List.range n).map .finalizeExited ++ [.loopEnd])

/-- `terminate_workers`, and the end of the handler. -/
def handler : List Task :=
  (List.range n).flatMap (fun w => [.terminate w true, .terminate w false]) ++
    ((List.range n).flatMap (fun w => [.waitOrKill w true, .waitOrKill w false]) ++
      [.handlerEnd])

/-- `force_finalize_workers`. -/
def forceFinalizeWorkers : List Task :=
  (List.range n).flatMap (fun w => [.closeStream w .stdout, .closeStream w .stderr]) ++
    (List.range n).map .forceFinalize

/-- The end of the `finally` block. -/
def finish : List Task := forceFinalizeWorkers n ++ [.collect]

/-- `collect_results`: is there a failed worker? -/
def overallCode (s : State) : Int :=
  if (List.range n).all fun w => (s.workers w).returnCode = some 0 then 0 else 1

def setWorker (s : State) (w : Nat) (x : Worker) (todo : List Task) : State :=
  { s with workers := fun v => if v = w then x else s.workers v, todo := todo }

/-- One statement. `Popen` has choices (`step`), and waiting statements stay in place. -/
def mainStep (s : State) : Option State :=
  match s.todo with
  | [] => none
  | .startCopy _ :: _ => none
  | .startWorker _ :: _ => none
  | .recordCopy w child :: rest =>
    some (setWorker s w { s.workers w with copyProcess := some ⟨child, none⟩ } rest)
  | .failStart w :: rest =>
    some (setWorker s w { s.workers w with returnCode := some 1 } (.finalizeWorker w :: rest))
  | .loopHead :: _ =>
    if allFinalized n s then some { s with phase := .finishing, todo := finish n }
    else some { s with made := false, todo := iteration n }
  | .pollCopy w :: rest =>
    if (s.workers w).notCopying then some { s with todo := rest }
    else
      let x := (s.workers w).poll s.children false
      if x.returncode false = none then some (setWorker s w x rest)
      -- `made_progress` is noted here, it is read at the end of the iteration
      else some { setWorker s w x (.communicate w :: rest) with made := true }
  | .communicate w :: rest =>
    match (s.workers w).copyProcess with
    | none => some { s with todo := rest }
    | some p =>
      match s.children[p.child]? with
      | none => some { s with todo := rest }
      | some c =>
        let children := s.children.set p.child { c with pipe := fun _ => 0 }
        if c.closed .stdout && c.closed .stderr then
          some { s with children := children, todo := .judgeCopy w :: rest }
        else some { s with children := children }
  | .judgeCopy w :: rest =>
    let code := (s.workers w).returncode false
    if code ≠ some 0 then
      some (setWorker s w { s.workers w with returnCode := code } (.finalizeWorker w :: rest))
    else
      some (setWorker s w { s.workers w with copySucceeded := true } (.startWorker w :: rest))
  | .recordProcess w child :: rest =>
    some (setWorker s w { s.workers w with process := some ⟨child, none⟩ }
      (.register w .stdout :: rest))
  | .register w stream :: rest =>
    let x := s.workers w
    some (setWorker s w
      { x with registered := fun other => if other = stream then true else x.registered other }
      ((match stream with
        | .stdout => .register w .stderr
        | .stderr => .openStreams w) :: rest))
  | .openStreams w :: rest =>
    some (setWorker s w { s.workers w with openStreams := fun _ => true } rest)
  | .drain :: rest =>
    let keys := (List.range n).flatMap fun w =>
      ([.stdout, .stderr] : List Stream).filterMap fun stream =>
        if ready s w stream then some (Task.readStream w stream) else none
    some { s with made := s.made || !keys.isEmpty, todo := keys ++ rest }
  | .readStream w stream :: rest =>
    match (s.workers w).process with
    | none => some { s with todo := rest }
    | some p =>
      match s.children[p.child]? with
      | none => some { s with todo := rest }
      | some c =>
        if 0 < c.pipe stream then
          let pipe := fun other =>
            if other = stream then c.pipe stream - 4096 else c.pipe other
          some { s with children := s.children.set p.child { c with pipe := pipe }, todo := rest }
        else if c.closed stream then
          some (setWorker s w ((s.workers w).closeStream stream) rest)
        else some { s with todo := rest }
  | .finalizeExited w :: rest =>
    let x := s.workers w
    if x.finalized || x.process.isNone then some { s with todo := rest }
    else
      let x := x.poll s.children true
      if x.returncode true = none ∨ x.openStreams .stdout = true ∨ x.openStreams .stderr = true then
        some (setWorker s w x rest)
      else some { setWorker s w x (.finalizeWorker w :: rest) with made := true }
  | .finalizeWorker w :: rest =>
    if (s.workers w).finalized then some { s with todo := rest }
    else some (setWorker s w ((s.workers w).chooseCode 1) (.writeStatus w :: rest))
  | .writeStatus w :: rest =>
    some (setWorker s w { s.workers w with status := (s.workers w).returnCode }
      (.setFinalized w :: rest))
  | .setFinalized w :: rest =>
    some (setWorker s w { s.workers w with finalized := true } rest)
  | .loopEnd :: _ => some { s with todo := [.loopHead] }
  | .terminate w command :: rest =>
    let x := (s.workers w).poll s.children command
    match x.popen command with
    | none => some { s with todo := rest }
    | some p =>
      if p.returncode ≠ none then some (setWorker s w x rest)
      else
        some { setWorker s w x rest with
          children := s.children.modify p.child fun c => { c with signalled := true } }
  | .waitOrKill w command :: rest =>
    let x := (s.workers w).poll s.children command
    match x.popen command with
    | none => some { s with todo := rest }
    | some p =>
      if p.returncode ≠ none then some (setWorker s w x rest)
      else
        -- it waits; after two seconds it kills the group and waits on
        some { s with
          children := s.children.modify p.child fun c => { c with signalled := true } }
  | .handlerEnd :: _ => some { s with phase := .draining, todo := [.loopHead] }
  | .closeStream w stream :: rest =>
    if (s.workers w).registered stream then
      some (setWorker s w ((s.workers w).closeStream stream) rest)
    else some { s with todo := rest }
  | .forceFinalize w :: rest =>
    if (s.workers w).finalized then some { s with todo := rest }
    else
      some (setWorker s w ((s.workers w).chooseCode (if s.interrupted then 130 else 1))
        (.finalizeWorker w :: rest))
  | .collect :: _ =>
    some { s with
      todo := []
      phase :=
        if s.exception then .raised
        else if s.interrupted then .returned 130
        else .returned (overallCode n s) }

/-- What can happen next. -/
inductive Choice where
  | main
  /-- `Popen` starts a process, which will write these bytes, or it fails -/
  | popen (script : Option (List Stream))
  /-- the five seconds are over -/
  | deadline
  /-- SIGINT or SIGTERM -/
  | signal
  /-- another exception in the `try` block or in the handler -/
  | fault
  | write (child : Nat)
  | close (child : Nat) (stream : Stream)
  | exit (child : Nat) (code : Int)
  deriving DecidableEq

/-- A child writes a byte, if its pipe has room. -/
def Child.write (capacity : Nat) (c : Child) : Option Child :=
  match c.script with
  | [] => none
  | stream :: script =>
    if c.exit = none ∧ c.closed stream = false ∧ c.pipe stream < capacity then
      some { c with
        script := script
        pipe := fun other => if other = stream then c.pipe stream + 1 else c.pipe other }
    else none

/-- A child that writes no more to a pipe closes it; of one that has exited, whoever holds
the pipe. -/
def Child.close (stream : Stream) (c : Child) : Option Child :=
  if c.closed stream = false ∧ (c.exit ≠ none ∨ stream ∉ c.script) then
    some { c with closed := fun other => if other = stream then true else c.closed other }
  else none

/-- A child exits once its writes are done, or when a signal ends it. -/
def Child.leave (code : Int) (c : Child) : Option Child :=
  if c.exit = none ∧ (c.script = [] ∨ c.signalled = true) then some { c with exit := some code }
  else none

/-- A step of a child. -/
def childStep (s : State) (child : Nat) (f : Child → Option Child) : Option State :=
  (s.children[child]?.bind f).map fun c => { s with children := s.children.set child c }

/-- One step of everything, with pipes of some capacity. -/
def step (capacity : Nat) (choice : Choice) (s : State) : Option State :=
  match choice with
  | .main => mainStep n s
  | .popen result =>
    match s.todo with
    | .startCopy w :: rest =>
      match result with
      | some script => some { s with
          children := s.children ++ [.spawn w false script]
          todo := .recordCopy w s.children.length :: rest }
      | none => some { s with todo := .failStart w :: rest }
    | .startWorker w :: rest =>
      match result with
      | some script => some { s with
          children := s.children ++ [.spawn w true script]
          todo := .recordProcess w s.children.length :: rest }
      | none => some { s with todo := .failStart w :: rest }
    | _ => none
  | .deadline =>
    match s.todo with
    | .loopEnd :: _ =>
      if s.phase = .draining ∧ allFinalized n s = false then
        some { s with phase := .finishing, todo := forceFinalizeWorkers n ++ finish n }
      else none
    | _ => none
  | .signal =>
    match s.phase with
    | .running => some { s with interrupted := true, phase := .handling, todo := handler n }
    | .handling => some { s with exception := true, phase := .draining, todo := [.loopHead] }
    | _ => none
  | .fault =>
    match s.phase with
    | .running => some { s with exception := true, phase := .finishing, todo := finish n }
    | .handling => some { s with exception := true, phase := .draining, todo := [.loopHead] }
    | _ => none
  | .write child => childStep s child (Child.write capacity)
  | .close child stream => childStep s child (Child.close stream)
  | .exit child code => childStep s child (Child.leave code)

end

/-! ### What every step keeps -/

/-- Children only come, exit at most once, and stay whose they are. -/
def Extends (children children' : List Child) : Prop :=
  ∀ (i : Nat) (c : Child), children[i]? = some c → ∃ c', children'[i]? = some c' ∧
    c'.owner = c.owner ∧ c'.command = c.command ∧ ∀ code, c.exit = some code → c'.exit = some code

theorem Extends.refl (children : List Child) : Extends children children :=
  fun _ c h => ⟨c, h, rfl, rfl, fun _ h => h⟩

theorem Extends.trans {cs ds es : List Child} (h : Extends cs ds) (h' : Extends ds es) :
    Extends cs es := by
  intro i c hc
  obtain ⟨d, hd, howner, hcommand, hexit⟩ := h i c hc
  obtain ⟨e, he, howner', hcommand', hexit'⟩ := h' i d hd
  exact ⟨e, he, howner'.trans howner, hcommand'.trans hcommand,
    fun code hcode => hexit' code (hexit code hcode)⟩

theorem extends_append (children : List Child) (c : Child) : Extends children (children ++ [c]) := by
  intro i d hd
  refine ⟨d, ?_, rfl, rfl, fun _ h => h⟩
  rw [List.getElem?_append_left (List.getElem?_eq_some_iff.mp hd).1]
  exact hd

theorem extends_set {children : List Child} {i : Nat} {c c' : Child} (hc : children[i]? = some c)
    (howner : c'.owner = c.owner) (hcommand : c'.command = c.command)
    (hexit : ∀ code, c.exit = some code → c'.exit = some code) :
    Extends children (children.set i c') := by
  intro j d hd
  by_cases hij : i = j
  · subst hij
    obtain rfl := Option.some.inj (hc.symm.trans hd)
    refine ⟨c', ?_, howner, hcommand, hexit⟩
    exact List.getElem?_set_self (List.getElem?_eq_some_iff.mp hd).1
  · refine ⟨d, ?_, rfl, rfl, fun _ h => h⟩
    rw [List.getElem?_set_ne hij]
    exact hd

theorem extends_modify (children : List Child) (i : Nat) :
    Extends children (children.modify i fun c => { c with signalled := true }) := by
  intro j d hd
  rw [List.getElem?_modify, hd]
  by_cases hij : i = j
  · refine ⟨{ d with signalled := true }, ?_, rfl, rfl, fun _ h => h⟩
    exact congrArg some (if_pos hij)
  · refine ⟨d, ?_, rfl, rfl, fun _ h => h⟩
    exact congrArg some (if_neg hij)

/-! ### What a statement does -/

/-- The statements that do nothing in a state. -/
def Task.Idle (s : State) : Task → Prop
  | .pollCopy w => (s.workers w).notCopying = true
  | .communicate w => (s.workers w).copyProcess.bind (fun p => s.children[p.child]?) = none
  | .readStream w stream => ∀ c, commandOf s w = some c → c.readable stream = false
  | .finalizeExited w => (s.workers w).finalized = true ∨ (s.workers w).process = none
  | .finalizeWorker w => (s.workers w).finalized = true
  | .forceFinalize w => (s.workers w).finalized = true
  | .closeStream w stream => (s.workers w).registered stream = false
  | .terminate w command => (s.workers w).popen command = none
  | .waitOrKill w command => (s.workers w).popen command = none
  | _ => False

/-- **Inversion**: everything a statement can do. -/
inductive Statement (n : Nat) (s : State) : State → Prop
  | idle {t : Task} {rest : List Task} (h : s.todo = t :: rest) (ht : t.Idle s) :
      Statement n s { s with todo := rest }
  | recordCopy {w child : Nat} {rest : List Task} (h : s.todo = .recordCopy w child :: rest) :
      Statement n s
        (setWorker s w { s.workers w with copyProcess := some ⟨child, none⟩ } rest)
  | failStart {w : Nat} {rest : List Task} (h : s.todo = .failStart w :: rest) :
      Statement n s (setWorker s w { s.workers w with returnCode := some 1 }
        (.finalizeWorker w :: rest))
  | loopOver {rest : List Task} (h : s.todo = .loopHead :: rest)
      (hall : allFinalized n s = true) :
      Statement n s { s with phase := .finishing, todo := finish n }
  | loopBody {rest : List Task} (h : s.todo = .loopHead :: rest)
      (hall : allFinalized n s = false) :
      Statement n s { s with made := false, todo := iteration n }
  | copyRuns {w : Nat} {rest : List Task} (h : s.todo = .pollCopy w :: rest)
      (hcopying : (s.workers w).notCopying = false)
      (hcode : ((s.workers w).poll s.children false).returncode false = none) :
      Statement n s (setWorker s w ((s.workers w).poll s.children false) rest)
  | copyExited {w : Nat} {rest : List Task} (h : s.todo = .pollCopy w :: rest)
      (hcopying : (s.workers w).notCopying = false)
      (hcode : ((s.workers w).poll s.children false).returncode false ≠ none) :
      Statement n s { setWorker s w ((s.workers w).poll s.children false)
        (.communicate w :: rest) with made := true }
  | communicateWait {w : Nat} {rest : List Task} {p : Popen} {c : Child}
      (h : s.todo = .communicate w :: rest) (hp : (s.workers w).copyProcess = some p)
      (hc : s.children[p.child]? = some c) :
      Statement n s
        { s with children := s.children.set p.child { c with pipe := fun _ => 0 } }
  | communicateDone {w : Nat} {rest : List Task} {p : Popen} {c : Child}
      (h : s.todo = .communicate w :: rest) (hp : (s.workers w).copyProcess = some p)
      (hc : s.children[p.child]? = some c) :
      Statement n s
        { s with
          children := s.children.set p.child { c with pipe := fun _ => 0 }
          todo := .judgeCopy w :: rest }
  | copyFailed {w : Nat} {rest : List Task} (h : s.todo = .judgeCopy w :: rest)
      (hcode : (s.workers w).returncode false ≠ some 0) :
      Statement n s (setWorker s w
        { s.workers w with returnCode := (s.workers w).returncode false }
        (.finalizeWorker w :: rest))
  | copyReady {w : Nat} {rest : List Task} (h : s.todo = .judgeCopy w :: rest)
      (hcode : (s.workers w).returncode false = some 0) :
      Statement n s (setWorker s w { s.workers w with copySucceeded := true }
        (.startWorker w :: rest))
  | recordProcess {w child : Nat} {rest : List Task}
      (h : s.todo = .recordProcess w child :: rest) :
      Statement n s (setWorker s w { s.workers w with process := some ⟨child, none⟩ }
        (.register w .stdout :: rest))
  | registerStdout {w : Nat} {rest : List Task} (h : s.todo = .register w .stdout :: rest) :
      Statement n s (setWorker s w
        { s.workers w with
          registered := fun other =>
            if other = .stdout then true else (s.workers w).registered other }
        (.register w .stderr :: rest))
  | registerStderr {w : Nat} {rest : List Task} (h : s.todo = .register w .stderr :: rest) :
      Statement n s (setWorker s w
        { s.workers w with
          registered := fun other =>
            if other = .stderr then true else (s.workers w).registered other }
        (.openStreams w :: rest))
  | openStreams {w : Nat} {rest : List Task} (h : s.todo = .openStreams w :: rest) :
      Statement n s (setWorker s w { s.workers w with openStreams := fun _ => true } rest)
  | drain {rest keys : List Task} (h : s.todo = .drain :: rest)
      (hkeys : ∀ t ∈ keys, ∃ w stream, t = .readStream w stream) :
      Statement n s { s with made := s.made || !keys.isEmpty, todo := keys ++ rest }
  | readChunk {w : Nat} {stream : Stream} {rest : List Task} {p : Popen} {c : Child}
      {pipe : Stream → Nat} (h : s.todo = .readStream w stream :: rest)
      (hp : (s.workers w).process = some p) (hc : s.children[p.child]? = some c)
      (hpipe : ∀ other, pipe other ≤ c.pipe other) :
      Statement n s
        { s with children := s.children.set p.child { c with pipe := pipe }, todo := rest }
  | readEnd {w : Nat} {stream : Stream} {rest : List Task} {c : Child}
      (h : s.todo = .readStream w stream :: rest) (hc : commandOf s w = some c)
      (hclosed : c.closed stream = true) (hempty : c.pipe stream = 0) :
      Statement n s (setWorker s w ((s.workers w).closeStream stream) rest)
  | commandRuns {w : Nat} {rest : List Task} (h : s.todo = .finalizeExited w :: rest) :
      Statement n s (setWorker s w ((s.workers w).poll s.children true) rest)
  | commandExited {w : Nat} {rest : List Task} (h : s.todo = .finalizeExited w :: rest)
      (hcode : ((s.workers w).poll s.children true).returncode true ≠ none) :
      Statement n s { setWorker s w ((s.workers w).poll s.children true)
        (.finalizeWorker w :: rest) with made := true }
  | chooseCode {w : Nat} {rest : List Task} (h : s.todo = .finalizeWorker w :: rest)
      (hfinal : (s.workers w).finalized = false) :
      Statement n s (setWorker s w ((s.workers w).chooseCode 1) (.writeStatus w :: rest))
  | writeStatus {w : Nat} {rest : List Task} (h : s.todo = .writeStatus w :: rest) :
      Statement n s (setWorker s w { s.workers w with status := (s.workers w).returnCode }
        (.setFinalized w :: rest))
  | setFinalized {w : Nat} {rest : List Task} (h : s.todo = .setFinalized w :: rest) :
      Statement n s (setWorker s w { s.workers w with finalized := true } rest)
  | loopEnd {rest : List Task} (h : s.todo = .loopEnd :: rest) :
      Statement n s { s with todo := [.loopHead] }
  | terminated {w : Nat} {command : Bool} {rest : List Task}
      (h : s.todo = .terminate w command :: rest) :
      Statement n s (setWorker s w ((s.workers w).poll s.children command) rest)
  | terminate {w : Nat} {command : Bool} {rest : List Task} {child : Nat}
      (h : s.todo = .terminate w command :: rest) :
      Statement n s { setWorker s w ((s.workers w).poll s.children command) rest with
        children := s.children.modify child fun c => { c with signalled := true } }
  | waited {w : Nat} {command : Bool} {rest : List Task} {p : Popen}
      (h : s.todo = .waitOrKill w command :: rest)
      (hp : ((s.workers w).poll s.children command).popen command = some p)
      (hcode : p.returncode ≠ none) :
      Statement n s (setWorker s w ((s.workers w).poll s.children command) rest)
  | waits {w : Nat} {command : Bool} {rest : List Task} {child : Nat}
      (h : s.todo = .waitOrKill w command :: rest) :
      Statement n s
        { s with children := s.children.modify child fun c => { c with signalled := true } }
  | handlerEnd {rest : List Task} (h : s.todo = .handlerEnd :: rest) :
      Statement n s { s with phase := .draining, todo := [.loopHead] }
  | closeStream {w : Nat} {stream : Stream} {rest : List Task}
      (h : s.todo = .closeStream w stream :: rest) :
      Statement n s (setWorker s w ((s.workers w).closeStream stream) rest)
  | forceFinalize {w : Nat} {rest : List Task} (h : s.todo = .forceFinalize w :: rest)
      (hfinal : (s.workers w).finalized = false) :
      Statement n s (setWorker s w
        ((s.workers w).chooseCode (if s.interrupted then 130 else 1)) (.finalizeWorker w :: rest))
  | collect {rest : List Task} (h : s.todo = .collect :: rest) :
      Statement n s { s with
        todo := []
        phase :=
          if s.exception then .raised
          else if s.interrupted then .returned 130
          else .returned (overallCode n s) }

theorem popen_poll (children : List Child) (x : Worker) (command other : Bool) :
    (x.poll children command).popen other =
      if other = command then (x.popen other).map (Popen.poll children) else x.popen other := by
  cases command <;> cases other <;> rfl

theorem statement_mainStep {n : Nat} {s s' : State} (h : mainStep n s = some s') :
    Statement n s s' := by
  obtain ⟨workers, children, todo, made, phase, interrupted, exception⟩ := s
  cases todo with
  | nil => cases h
  | cons t rest =>
    cases t with
    -- `Popen` is a choice of its own, not a statement of `mainStep`
    | startCopy w => cases h
    | startWorker w => cases h
    | recordCopy w child =>
      obtain rfl := Option.some.inj h
      exact .recordCopy rfl
    | failStart w =>
      obtain rfl := Option.some.inj h
      exact .failStart rfl
    | loopHead =>
      simp only [mainStep] at h
      split at h
      · rename_i hall
        obtain rfl := Option.some.inj h
        exact .loopOver rfl hall
      · rename_i hall
        obtain rfl := Option.some.inj h
        exact .loopBody rfl (Bool.eq_false_iff.mpr hall)
    | pollCopy w =>
      simp only [mainStep] at h
      split at h
      · rename_i hidle
        obtain rfl := Option.some.inj h
        exact .idle rfl hidle
      · rename_i hcopying
        split at h
        · rename_i hcode
          obtain rfl := Option.some.inj h
          exact .copyRuns rfl (Bool.eq_false_iff.mpr hcopying) hcode
        · rename_i hcode
          obtain rfl := Option.some.inj h
          exact .copyExited rfl (Bool.eq_false_iff.mpr hcopying) hcode
    | communicate w =>
      simp only [mainStep] at h
      split at h
      · rename_i hp
        obtain rfl := Option.some.inj h
        exact .idle rfl (by simp only [Task.Idle, hp, Option.bind_none])
      · rename_i p hp
        split at h
        · rename_i hc
          obtain rfl := Option.some.inj h
          exact .idle rfl (by simp only [Task.Idle, hp, Option.bind_some, hc])
        · rename_i c hc
          split at h
          · obtain rfl := Option.some.inj h
            exact .communicateDone rfl hp hc
          · obtain rfl := Option.some.inj h
            exact .communicateWait rfl hp hc
    | judgeCopy w =>
      simp only [mainStep] at h
      split at h
      · rename_i hcode
        obtain rfl := Option.some.inj h
        exact .copyFailed rfl hcode
      · rename_i hcode
        obtain rfl := Option.some.inj h
        exact .copyReady rfl (not_not.mp hcode)
    | recordProcess w child =>
      obtain rfl := Option.some.inj h
      exact .recordProcess rfl
    | register w stream =>
      obtain rfl := Option.some.inj h
      cases stream with
      | stdout => exact .registerStdout rfl
      | stderr => exact .registerStderr rfl
    | openStreams w =>
      obtain rfl := Option.some.inj h
      exact .openStreams rfl
    | drain =>
      obtain rfl := Option.some.inj h
      -- the selector reports streams only, so what is new are reads
      refine .drain rfl fun t ht => ?_
      obtain ⟨w, -, hw⟩ := List.mem_flatMap.mp ht
      obtain ⟨stream, -, hstream⟩ := List.mem_filterMap.mp hw
      split at hstream
      · exact ⟨w, stream, (Option.some.inj hstream).symm⟩
      · cases hstream
    | readStream w stream =>
      simp only [mainStep] at h
      split at h
      · rename_i hp
        obtain rfl := Option.some.inj h
        refine .idle rfl fun c hc => ?_
        simp only [commandOf, hp, Option.bind_none, reduceCtorEq] at hc
      · rename_i p hp
        split at h
        · rename_i hc
          obtain rfl := Option.some.inj h
          refine .idle rfl fun c' hc' => ?_
          simp only [commandOf, hp, Option.bind_some, hc, reduceCtorEq] at hc'
        · rename_i c hc
          -- the child the read looks at is the command of the worker
          have hcommand : ∀ c', commandOf (State.mk workers children
              (.readStream w stream :: rest) made phase interrupted exception) w = some c' →
              c' = c := fun c' hc' => by
            simp only [commandOf, hp, Option.bind_some, hc, Option.some.injEq] at hc'
            exact hc'.symm
          split at h
          · obtain rfl := Option.some.inj h
            refine .readChunk rfl hp hc fun other => ?_
            split
            · rename_i hother
              rw [hother]
              exact Nat.sub_le _ _
            · exact Nat.le_refl _
          · rename_i hempty
            split at h
            · rename_i hclosed
              obtain rfl := Option.some.inj h
              refine .readEnd rfl ?_ hclosed (Nat.eq_zero_of_not_pos hempty)
              simp only [commandOf, hp, Option.bind_some, hc]
            · rename_i hclosed
              obtain rfl := Option.some.inj h
              -- neither bytes nor an end: the pipe is not readable
              refine .idle rfl fun c' hc' => ?_
              rw [hcommand c' hc', Child.readable, decide_eq_false hempty,
                Bool.eq_false_iff.mpr hclosed]
              rfl
    | finalizeExited w =>
      simp only [mainStep] at h
      split at h
      · rename_i hidle
        obtain rfl := Option.some.inj h
        refine .idle rfl ?_
        rw [Bool.or_eq_true, Option.isNone_iff_eq_none] at hidle
        exact hidle
      · split at h
        · obtain rfl := Option.some.inj h
          exact .commandRuns rfl
        · rename_i hcode
          obtain rfl := Option.some.inj h
          exact .commandExited rfl fun hnone => hcode (Or.inl hnone)
    | finalizeWorker w =>
      simp only [mainStep] at h
      split at h
      · rename_i hfinal
        obtain rfl := Option.some.inj h
        exact .idle rfl hfinal
      · rename_i hfinal
        obtain rfl := Option.some.inj h
        exact .chooseCode rfl (Bool.eq_false_iff.mpr hfinal)
    | writeStatus w =>
      obtain rfl := Option.some.inj h
      exact .writeStatus rfl
    | setFinalized w =>
      obtain rfl := Option.some.inj h
      exact .setFinalized rfl
    | loopEnd =>
      obtain rfl := Option.some.inj h
      exact .loopEnd rfl
    | terminate w command =>
      simp only [mainStep] at h
      split at h
      · rename_i hp
        obtain rfl := Option.some.inj h
        refine .idle rfl ?_
        rw [popen_poll, if_pos rfl, Option.map_eq_none_iff] at hp
        exact hp
      · split at h
        · obtain rfl := Option.some.inj h
          exact .terminated rfl
        · obtain rfl := Option.some.inj h
          exact .terminate rfl
    | waitOrKill w command =>
      simp only [mainStep] at h
      split at h
      · rename_i hp
        obtain rfl := Option.some.inj h
        refine .idle rfl ?_
        rw [popen_poll, if_pos rfl, Option.map_eq_none_iff] at hp
        exact hp
      · rename_i p hp
        split at h
        · rename_i hcode
          obtain rfl := Option.some.inj h
          exact .waited rfl hp hcode
        · obtain rfl := Option.some.inj h
          exact .waits rfl
    | handlerEnd =>
      obtain rfl := Option.some.inj h
      exact .handlerEnd rfl
    | closeStream w stream =>
      simp only [mainStep] at h
      split at h
      · obtain rfl := Option.some.inj h
        exact .closeStream rfl
      · rename_i hopen
        obtain rfl := Option.some.inj h
        exact .idle rfl (Bool.eq_false_iff.mpr hopen)
    | forceFinalize w =>
      simp only [mainStep] at h
      split at h
      · rename_i hfinal
        obtain rfl := Option.some.inj h
        exact .idle rfl hfinal
      · rename_i hfinal
        obtain rfl := Option.some.inj h
        exact .forceFinalize rfl (Bool.eq_false_iff.mpr hfinal)
    | collect =>
      obtain rfl := Option.some.inj h
      exact .collect rfl

/-! ### Children, tasks and links -/

theorem extends_mainStep {n : Nat} {s s' : State} (h : mainStep n s = some s') :
    Extends s.children s'.children := by
  cases statement_mainStep h with
  | communicateWait _ _ hc => exact extends_set hc rfl rfl fun _ h => h
  | communicateDone _ _ hc => exact extends_set hc rfl rfl fun _ h => h
  | readChunk _ _ hc => exact extends_set hc rfl rfl fun _ h => h
  | terminate => exact extends_modify _ _
  | waits => exact extends_modify _ _
  | _ => exact Extends.refl _

theorem childStep_eq_some {s s' : State} {child : Nat} {f : Child → Option Child}
    (h : childStep s child f = some s') : ∃ c c', s.children[child]? = some c ∧ f c = some c' ∧
      s' = { s with children := s.children.set child c' } := by
  obtain ⟨c', hbind, rfl⟩ := Option.map_eq_some_iff.mp h
  obtain ⟨c, hc, hf⟩ := Option.bind_eq_some_iff.mp hbind
  exact ⟨c, c', hc, hf, rfl⟩

theorem Child.write_eq_some {capacity : Nat} {c c' : Child} (h : c.write capacity = some c') :
    ∃ stream script, c.script = stream :: script ∧ c.exit = none ∧ c.closed stream = false ∧
      c.pipe stream < capacity ∧ c' = { c with
        script := script
        pipe := fun other => if other = stream then c.pipe stream + 1 else c.pipe other } := by
  rw [Child.write] at h
  split at h
  · cases h
  · rename_i stream script hscript
    split at h
    · rename_i hroom
      exact ⟨stream, script, hscript, hroom.1, hroom.2.1, hroom.2.2, (Option.some.inj h).symm⟩
    · cases h

theorem Child.close_eq_some {stream : Stream} {c c' : Child} (h : c.close stream = some c') :
    c.closed stream = false ∧ (c.exit ≠ none ∨ stream ∉ c.script) ∧
      c' = { c with closed := fun other => if other = stream then true else c.closed other } := by
  rw [Child.close] at h
  split at h
  · rename_i hclose
    exact ⟨hclose.1, hclose.2, (Option.some.inj h).symm⟩
  · cases h

theorem Child.leave_eq_some {code : Int} {c c' : Child} (h : c.leave code = some c') :
    c.exit = none ∧ (c.script = [] ∨ c.signalled = true) ∧ c' = { c with exit := some code } := by
  rw [Child.leave] at h
  split at h
  · rename_i hleave
    exact ⟨hleave.1, hleave.2, (Option.some.inj h).symm⟩
  · cases h

/-- A step of a child: it writes a byte, closes a pipe or exits. -/
inductive Child.Moves (c : Child) : Child → Prop
  | write {stream : Stream} {script : List Stream} (hscript : c.script = stream :: script)
      (hclosed : c.closed stream = false) :
      c.Moves { c with
        script := script
        pipe := fun other => if other = stream then c.pipe stream + 1 else c.pipe other }
  | close {stream : Stream} (hdone : c.exit ≠ none ∨ stream ∉ c.script) :
      c.Moves { c with closed := fun other => if other = stream then true else c.closed other }
  | leave {code : Int} (hexit : c.exit = none) : c.Moves { c with exit := some code }

theorem Child.Moves.keeps {c c' : Child} (h : c.Moves c') : c'.owner = c.owner ∧
    c'.command = c.command ∧ ∀ code, c.exit = some code → c'.exit = some code := by
  cases h with
  | write => exact ⟨rfl, rfl, fun _ h => h⟩
  | close => exact ⟨rfl, rfl, fun _ h => h⟩
  | leave hexit => exact ⟨rfl, rfl, fun code hcode => nomatch hexit.symm.trans hcode⟩

/-- What a step is: a statement, a new process, a turn of `main` that is no statement, or a
step of a child, which `main` does not notice. -/
inductive Change (n : Nat) (s : State) : Choice → State → Prop
  | statement {s' : State} (h : Statement n s s') : Change n s .main s'
  | newCopy {w : Nat} {rest : List Task} {script : List Stream}
      (h : s.todo = .startCopy w :: rest) :
      Change n s (.popen (some script)) { s with
        children := s.children ++ [.spawn w false script]
        todo := .recordCopy w s.children.length :: rest }
  | noCopy {w : Nat} {rest : List Task} (h : s.todo = .startCopy w :: rest) :
      Change n s (.popen none) { s with todo := .failStart w :: rest }
  | newCommand {w : Nat} {rest : List Task} {script : List Stream}
      (h : s.todo = .startWorker w :: rest) :
      Change n s (.popen (some script)) { s with
        children := s.children ++ [.spawn w true script]
        todo := .recordProcess w s.children.length :: rest }
  | noCommand {w : Nat} {rest : List Task} (h : s.todo = .startWorker w :: rest) :
      Change n s (.popen none) { s with todo := .failStart w :: rest }
  | deadline {rest : List Task} (h : s.todo = .loopEnd :: rest) (hphase : s.phase = .draining) :
      Change n s .deadline
        { s with phase := .finishing, todo := forceFinalizeWorkers n ++ finish n }
  | interrupt (hphase : s.phase = .running) :
      Change n s .signal { s with interrupted := true, phase := .handling, todo := handler n }
  | second (hphase : s.phase = .handling) (choice : Choice)
      (hchoice : choice = .signal ∨ choice = .fault) :
      Change n s choice { s with exception := true, phase := .draining, todo := [.loopHead] }
  | fault (hphase : s.phase = .running) :
      Change n s .fault { s with exception := true, phase := .finishing, todo := finish n }
  | child {choice : Choice} {i : Nat} {c c' : Child} (hc : s.children[i]? = some c)
      (hmoves : c.Moves c') (hchoice : choice ≠ .main) :
      Change n s choice { s with children := s.children.set i c' }

theorem change_step {n capacity : Nat} {choice : Choice} {s s' : State}
    (h : step n capacity choice s = some s') : Change n s choice s' := by
  -- a statement of `main` has its own inversion; the other choices are taken one by one
  cases choice with
  | main => exact .statement (statement_mainStep h)
  | popen result =>
    simp only [step] at h
    split at h
    · rename_i w rest htodo
      cases result with
      | some script =>
        obtain rfl := Option.some.inj h
        exact .newCopy htodo
      | none =>
        obtain rfl := Option.some.inj h
        exact .noCopy htodo
    · rename_i w rest htodo
      cases result with
      | some script =>
        obtain rfl := Option.some.inj h
        exact .newCommand htodo
      | none =>
        obtain rfl := Option.some.inj h
        exact .noCommand htodo
    · cases h
  | deadline =>
    simp only [step] at h
    split at h
    · rename_i rest htodo
      split at h
      · rename_i hdue
        obtain rfl := Option.some.inj h
        exact .deadline htodo hdue.1
      · cases h
    · cases h
  | signal =>
    -- the handler is entered once: a second signal unwinds to the head of the loop
    simp only [step] at h
    split at h
    · rename_i hphase
      obtain rfl := Option.some.inj h
      exact .interrupt hphase
    · rename_i hphase
      obtain rfl := Option.some.inj h
      exact .second hphase .signal (Or.inl rfl)
    · cases h
  | fault =>
    simp only [step] at h
    split at h
    · rename_i hphase
      obtain rfl := Option.some.inj h
      exact .fault hphase
    · rename_i hphase
      obtain rfl := Option.some.inj h
      exact .second hphase .fault (Or.inr rfl)
    · cases h
  | write child =>
    obtain ⟨c, c', hc, hwrite, rfl⟩ := childStep_eq_some h
    obtain ⟨stream, script, hscript, -, hclosed, -, rfl⟩ := Child.write_eq_some hwrite
    exact .child hc (.write hscript hclosed) Choice.noConfusion
  | close child stream =>
    obtain ⟨c, c', hc, hclose, rfl⟩ := childStep_eq_some h
    obtain ⟨-, hdone, rfl⟩ := Child.close_eq_some hclose
    exact .child hc (.close hdone) Choice.noConfusion
  | exit child code =>
    obtain ⟨c, c', hc, hleave, rfl⟩ := childStep_eq_some h
    obtain ⟨hnone, -, rfl⟩ := Child.leave_eq_some hleave
    exact .child hc (.leave hnone) Choice.noConfusion

theorem extends_step {n capacity : Nat} {choice : Choice} {s s' : State}
    (h : step n capacity choice s = some s') : Extends s.children s'.children := by
  cases change_step h with
  | statement => exact extends_mainStep h
  | newCopy => exact extends_append _ _
  | newCommand => exact extends_append _ _
  | child hc hmoves =>
    obtain ⟨howner, hcommand, hexit⟩ := hmoves.keeps
    exact extends_set hc howner hcommand hexit
  | _ => exact Extends.refl _

/-- A process of a worker: the exit status a `Popen` has seen is that of its child. -/
def Popen.Of (children : List Child) (w : Nat) (command : Bool) (p : Popen) : Prop :=
  ∃ c, children[p.child]? = some c ∧ c.owner = w ∧ c.command = command ∧
    ∀ code, p.returncode = some code → c.exit = some code

theorem Popen.Of.extend {cs ds : List Child} (h : Extends cs ds) {w : Nat} {command : Bool}
    {p : Popen} (hp : p.Of cs w command) : p.Of ds w command := by
  obtain ⟨c, hc, howner, hcommand, hcode⟩ := hp
  obtain ⟨d, hd, howner', hcommand', hexit⟩ := h _ c hc
  exact ⟨d, hd, howner'.trans howner, hcommand'.trans hcommand,
    fun code h => hexit code (hcode code h)⟩

theorem Popen.Of.poll {cs : List Child} {w : Nat} {command : Bool} {p : Popen}
    (hp : p.Of cs w command) : (p.poll cs).Of cs w command := by
  obtain ⟨c, hc, howner, hcommand, hcode⟩ := hp
  rw [Popen.poll]
  cases hreturncode : p.returncode with
  | some code => exact ⟨c, hc, howner, hcommand, hcode⟩
  | none =>
    refine ⟨c, hc, howner, hcommand, fun code h => ?_⟩
    have hexit : (cs[p.child]?.bind Child.exit) = some code := h
    rw [hc] at hexit
    exact hexit

/-- The process a statement is about to record. -/
def Task.creates : Task → Option (Nat × Bool × Nat)
  | .recordCopy w child => some (w, false, child)
  | .recordProcess w child => some (w, true, child)
  | _ => none

/-- The statements that follow the one before them at once. -/
def Task.follows : Task → Bool
  | .recordCopy .. | .failStart _ | .communicate _ | .judgeCopy _ | .startWorker _
  | .recordProcess .. | .register .. | .openStreams _ | .finalizeWorker _ | .writeStatus _
  | .setFinalized _ => true
  | _ => false

/-- All processes that workers hold are theirs, and so is the one about to be recorded; what
follows at once stands first. -/
structure Linked (s : State) : Prop where
  popen : ∀ w command p, (s.workers w).popen command = some p → p.Of s.children w command
  created : ∀ t w command child, s.todo.head? = some t → t.creates = some (w, command, child) →
    Popen.Of s.children w command ⟨child, none⟩
  tail : ∀ t ∈ s.todo.tail, t.follows = false

theorem creates_of_follows {t : Task} (h : t.follows = false) : t.creates = none := by
  cases t with
  | recordCopy => cases h
  | recordProcess => cases h
  | _ => rfl

theorem forall_iteration {n : Nat} {P : Task → Prop} (hpoll : ∀ w < n, P (.pollCopy w))
    (hdrain : P .drain) (hexited : ∀ w < n, P (.finalizeExited w)) (hend : P .loopEnd) :
    ∀ t ∈ iteration n, P t := by
  intro t ht
  simp only [iteration, List.mem_append, List.mem_cons, List.mem_map, List.mem_range,
    List.not_mem_nil, or_false] at ht
  rcases ht with ⟨w, hw, rfl⟩ | rfl | ⟨w, hw, rfl⟩ | rfl
  · exact hpoll w hw
  · exact hdrain
  · exact hexited w hw
  · exact hend

theorem forall_handler {n : Nat} {P : Task → Prop}
    (hterminate : ∀ w < n, ∀ command, P (.terminate w command))
    (hwait : ∀ w < n, ∀ command, P (.waitOrKill w command)) (hend : P .handlerEnd) :
    ∀ t ∈ handler n, P t := by
  intro t ht
  simp only [handler, List.mem_append, List.mem_flatMap, List.mem_cons, List.mem_range,
    List.not_mem_nil, or_false] at ht
  rcases ht with ⟨w, hw, rfl | rfl⟩ | ⟨w, hw, rfl | rfl⟩ | rfl
  · exact hterminate w hw true
  · exact hterminate w hw false
  · exact hwait w hw true
  · exact hwait w hw false
  · exact hend

theorem forall_forceFinalizeWorkers {n : Nat} {P : Task → Prop}
    (hclose : ∀ w < n, ∀ stream, P (.closeStream w stream))
    (hforce : ∀ w < n, P (.forceFinalize w)) : ∀ t ∈ forceFinalizeWorkers n, P t := by
  intro t ht
  simp only [forceFinalizeWorkers, List.mem_append, List.mem_flatMap, List.mem_cons,
    List.mem_map, List.mem_range, List.not_mem_nil, or_false] at ht
  rcases ht with ⟨w, hw, rfl | rfl⟩ | ⟨w, hw, rfl⟩
  · exact hclose w hw .stdout
  · exact hclose w hw .stderr
  · exact hforce w hw

theorem forall_finish {n : Nat} {P : Task → Prop}
    (hclose : ∀ w < n, ∀ stream, P (.closeStream w stream))
    (hforce : ∀ w < n, P (.forceFinalize w)) (hcollect : P .collect) : ∀ t ∈ finish n, P t := by
  intro t ht
  rcases List.mem_append.mp ht with ht | ht
  · exact forall_forceFinalizeWorkers hclose hforce t ht
  · rw [List.mem_singleton.mp ht]
    exact hcollect

theorem forall_start {n : Nat} {P : Task → Prop} (hstart : ∀ w < n, P (.startCopy w))
    (hloop : P .loopHead) : ∀ t ∈ (State.start n).todo, P t := by
  intro t ht
  rcases List.mem_append.mp ht with ht | ht
  · obtain ⟨w, hw, rfl⟩ := List.mem_map.mp ht
    exact hstart w (List.mem_range.mp hw)
  · rw [List.mem_singleton.mp ht]
    exact hloop

theorem follows_iteration (n : Nat) : ∀ t ∈ iteration n, t.follows = false :=
  forall_iteration (fun _ _ => rfl) rfl (fun _ _ => rfl) rfl

theorem follows_handler (n : Nat) : ∀ t ∈ handler n, t.follows = false :=
  forall_handler (fun _ _ _ => rfl) (fun _ _ _ => rfl) rfl

theorem follows_forceFinalizeWorkers (n : Nat) :
    ∀ t ∈ forceFinalizeWorkers n, t.follows = false :=
  forall_forceFinalizeWorkers (fun _ _ _ => rfl) (fun _ _ => rfl)

theorem follows_finish (n : Nat) : ∀ t ∈ finish n, t.follows = false :=
  forall_finish (fun _ _ _ => rfl) (fun _ _ => rfl) rfl

/-- The statements that remain: what follows at once stands first, and creates nothing. -/
def Settled (todo : List Task) : Prop :=
  (∀ t ∈ todo.tail, t.follows = false) ∧ ∀ t, todo.head? = some t → t.creates = none

theorem settled_of_forall {todo : List Task} (h : ∀ t ∈ todo, t.follows = false) :
    Settled todo := by
  refine ⟨fun t ht => h t (List.mem_of_mem_tail ht), fun t ht => ?_⟩
  exact creates_of_follows (h t (List.mem_of_mem_head? ht))

theorem settled_cons {t : Task} {rest : List Task} (ht : t.creates = none)
    (h : ∀ t ∈ rest, t.follows = false) : Settled (t :: rest) := by
  refine ⟨h, fun u hu => ?_⟩
  rw [← Option.some.inj hu]
  exact ht

theorem settled_statement {n : Nat} {s s' : State} (hs : Statement n s s')
    (hlinked : ∀ t ∈ s.todo.tail, t.follows = false) : Settled s'.todo := by
  have hrest : ∀ {t : Task} {rest : List Task}, s.todo = t :: rest →
      ∀ u ∈ rest, u.follows = false := by
    intro t rest h u hu
    refine hlinked u ?_
    rw [h]
    exact hu
  -- a wait that is not over leaves the list as it stands
  have hsame : ∀ {t : Task} {rest : List Task}, s.todo = t :: rest → t.creates = none →
      Settled s.todo := by
    intro t rest h ht
    rw [h]
    exact settled_cons ht (hrest h)
  cases hs with
  | idle h => exact settled_of_forall (hrest h)
  | recordCopy h => exact settled_of_forall (hrest h)
  | failStart h => exact settled_cons rfl (hrest h)
  | loopOver => exact settled_of_forall (follows_finish n)
  | loopBody => exact settled_of_forall (follows_iteration n)
  | copyRuns h => exact settled_of_forall (hrest h)
  | copyExited h => exact settled_cons rfl (hrest h)
  | communicateWait h => exact hsame h rfl
  | communicateDone h => exact settled_cons rfl (hrest h)
  | copyFailed h => exact settled_cons rfl (hrest h)
  | copyReady h => exact settled_cons rfl (hrest h)
  | recordProcess h => exact settled_cons rfl (hrest h)
  | registerStdout h => exact settled_cons rfl (hrest h)
  | registerStderr h => exact settled_cons rfl (hrest h)
  | openStreams h => exact settled_of_forall (hrest h)
  | drain h hkeys =>
    refine settled_of_forall fun t ht => ?_
    rcases List.mem_append.mp ht with ht | ht
    · obtain ⟨w, stream, rfl⟩ := hkeys t ht
      rfl
    · exact hrest h t ht
  | readChunk h => exact settled_of_forall (hrest h)
  | readEnd h => exact settled_of_forall (hrest h)
  | commandRuns h => exact settled_of_forall (hrest h)
  | commandExited h => exact settled_cons rfl (hrest h)
  | chooseCode h => exact settled_cons rfl (hrest h)
  | writeStatus h => exact settled_cons rfl (hrest h)
  | setFinalized h => exact settled_of_forall (hrest h)
  | loopEnd => exact settled_cons rfl fun t ht => absurd ht List.not_mem_nil
  | terminated h => exact settled_of_forall (hrest h)
  | terminate h => exact settled_of_forall (hrest h)
  | waited h => exact settled_of_forall (hrest h)
  | waits h => exact hsame h rfl
  | handlerEnd => exact settled_cons rfl fun t ht => absurd ht List.not_mem_nil
  | closeStream h => exact settled_of_forall (hrest h)
  | forceFinalize h => exact settled_cons rfl (hrest h)
  | collect => exact settled_of_forall fun t ht => absurd ht List.not_mem_nil

theorem forall_setWorker {P : Nat → Worker → Prop} {s : State} (h : ∀ v, P v (s.workers v))
    {w : Nat} {x : Worker} (hx : P w x) : ∀ v, P v (if v = w then x else s.workers v) := by
  intro v
  by_cases hv : v = w
  · rw [if_pos hv, hv]
    exact hx
  · rw [if_neg hv]
    exact h v

/-- What a statement does to one worker. -/
inductive Worker.Update (s : State) (w : Nat) : Worker → Prop
  | same : Worker.Update s w (s.workers w)
  | recordCopy {child : Nat} {rest : List Task} (h : s.todo = .recordCopy w child :: rest) :
      Worker.Update s w { s.workers w with copyProcess := some ⟨child, none⟩ }
  | recordProcess {child : Nat} {rest : List Task} (h : s.todo = .recordProcess w child :: rest) :
      Worker.Update s w { s.workers w with process := some ⟨child, none⟩ }
  | copyReady {rest : List Task} (h : s.todo = .judgeCopy w :: rest)
      (hcode : (s.workers w).returncode false = some 0) :
      Worker.Update s w { s.workers w with copySucceeded := true }
  | fail {code : Option Int} (hcode : code ≠ some 0) :
      Worker.Update s w { s.workers w with returnCode := code }
  | streams (registered openStreams : Stream → Bool) :
      Worker.Update s w { s.workers w with registered := registered, openStreams := openStreams }
  | poll (command : Bool) : Worker.Update s w ((s.workers w).poll s.children command)
  | chooseCode {rest : List Task} (h : s.todo = .finalizeWorker w :: rest)
      (hfinal : (s.workers w).finalized = false) :
      Worker.Update s w ((s.workers w).chooseCode 1)
  | forceFinalize {rest : List Task} (h : s.todo = .forceFinalize w :: rest)
      (hfinal : (s.workers w).finalized = false) :
      Worker.Update s w ((s.workers w).chooseCode (if s.interrupted then 130 else 1))
  | writeStatus : Worker.Update s w { s.workers w with status := (s.workers w).returnCode }
  | setFinalized : Worker.Update s w { s.workers w with finalized := true }

/-- A statement is about one worker at most. -/
theorem update_statement {n : Nat} {s s' : State} (hs : Statement n s s') :
    ∀ w, Worker.Update s w (s'.workers w) := by
  have hsame : ∀ w, Worker.Update s w (s.workers w) := fun _ => .same
  cases hs with
  | recordCopy htodo => exact forall_setWorker hsame (.recordCopy htodo)
  | recordProcess htodo => exact forall_setWorker hsame (.recordProcess htodo)
  | copyReady htodo hcode => exact forall_setWorker hsame (.copyReady htodo hcode)
  | failStart => exact forall_setWorker hsame (.fail (by decide))
  | copyFailed _ hcode => exact forall_setWorker hsame (.fail hcode)
  | registerStdout => exact forall_setWorker hsame (.streams _ _)
  | registerStderr => exact forall_setWorker hsame (.streams _ _)
  | openStreams => exact forall_setWorker hsame (.streams _ _)
  | readEnd => exact forall_setWorker hsame (.streams _ _)
  | closeStream => exact forall_setWorker hsame (.streams _ _)
  | copyRuns => exact forall_setWorker hsame (.poll _)
  | copyExited => exact forall_setWorker hsame (.poll _)
  | commandRuns => exact forall_setWorker hsame (.poll _)
  | commandExited => exact forall_setWorker hsame (.poll _)
  | terminated => exact forall_setWorker hsame (.poll _)
  | terminate => exact forall_setWorker hsame (.poll _)
  | waited => exact forall_setWorker hsame (.poll _)
  | chooseCode htodo hfinal => exact forall_setWorker hsame (.chooseCode htodo hfinal)
  | forceFinalize htodo hfinal => exact forall_setWorker hsame (.forceFinalize htodo hfinal)
  | writeStatus => exact forall_setWorker hsame .writeStatus
  | setFinalized => exact forall_setWorker hsame .setFinalized
  | _ => exact hsame

theorem popen_chooseCode (x : Worker) (default : Int) (command : Bool) :
    (x.chooseCode default).popen command = x.popen command := by
  rw [Worker.chooseCode]
  split
  · rfl
  · split
    · rfl
    · split
      · rfl
      · rfl

/-- The processes a worker holds are its own. -/
def Worker.Linked (children : List Child) (w : Nat) (x : Worker) : Prop :=
  ∀ command p, x.popen command = some p → p.Of children w command

theorem Worker.Linked.poll {children : List Child} {w : Nat} {x : Worker}
    (h : x.Linked children w) (command : Bool) : (x.poll children command).Linked children w := by
  intro other p hp
  rw [popen_poll] at hp
  split at hp
  · obtain ⟨q, hq, rfl⟩ := Option.map_eq_some_iff.mp hp
    exact (h other q hq).poll
  · exact h other p hp

theorem Worker.Linked.chooseCode {children : List Child} {w : Nat} {x : Worker}
    (h : x.Linked children w) (default : Int) : (x.chooseCode default).Linked children w := by
  intro command p hp
  rw [popen_chooseCode] at hp
  exact h command p hp

theorem linked_statement {n : Nat} {s s' : State} (h : Linked s) (hs : Statement n s s')
    (hextends : Extends s.children s'.children) : Linked s' := by
  obtain ⟨htail, hhead⟩ := settled_statement hs h.tail
  refine ⟨?_, fun t w command child ht hcreates => ?_, htail⟩
  · -- the workers first, over the children there were
    suffices hold : ∀ w, (s'.workers w).Linked s.children w from
      fun w command p hp => (hold w command p hp).extend hextends
    intro w
    have hold : (s.workers w).Linked s.children w := h.popen w
    have hupdate := update_statement hs w
    generalize s'.workers w = x at hupdate ⊢
    cases hupdate with
    | @recordCopy child rest htodo =>
      intro command p hp
      cases command with
      | true => exact hold true p hp
      | false =>
        obtain rfl := Option.some.inj hp
        exact h.created (.recordCopy w child) w false child (by rw [htodo]; rfl) rfl
    | @recordProcess child rest htodo =>
      intro command p hp
      cases command with
      | true =>
        obtain rfl := Option.some.inj hp
        exact h.created (.recordProcess w child) w true child (by rw [htodo]; rfl) rfl
      | false => exact hold false p hp
    | poll command => exact hold.poll command
    | chooseCode => exact hold.chooseCode _
    | forceFinalize => exact hold.chooseCode _
    -- the others leave the processes of the worker as they are
    | _ => exact hold
  · rw [hhead t ht] at hcreates
    cases hcreates

theorem linked_start (n : Nat) : Linked (State.start n) := by
  have hfollows : ∀ t ∈ (State.start n).todo, t.follows = false :=
    forall_start (fun _ _ => rfl) rfl
  obtain ⟨htail, hhead⟩ := settled_of_forall hfollows
  refine ⟨fun w command p hp => ?_, fun t w command child ht hcreates => ?_, htail⟩
  · cases command <;> cases hp
  · rw [hhead t ht] at hcreates
    cases hcreates

/-- **Step lemma**: the links hold after every step. -/
theorem linked_step {n capacity : Nat} {choice : Choice} {s s' : State} (h : Linked s)
    (hstep : step n capacity choice s = some s') : Linked s' := by
  have hextends := extends_step hstep
  have hpopen : ∀ w command p, (s.workers w).popen command = some p →
      p.Of s'.children w command := fun w command p hp => (h.popen w command p hp).extend hextends
  have hplain : ∀ todo : List Task, (∀ t ∈ todo, t.follows = false) → ∀ t w command child,
      todo.head? = some t → t.creates = some (w, command, child) →
      Popen.Of s'.children w command ⟨child, none⟩ := by
    intro todo htodo t w command child ht hcreates
    rw [(settled_of_forall htodo).2 t ht] at hcreates
    cases hcreates
  have hrest : ∀ {t : Task} {rest : List Task}, s.todo = t :: rest →
      ∀ u ∈ rest, u.follows = false := by
    intro t rest htodo u hu
    refine h.tail u ?_
    rw [htodo]
    exact hu
  -- the child just spawned is the last of the list
  have hspawned : ∀ w command script, Popen.Of (s.children ++ [.spawn w command script]) w command
      ⟨s.children.length, none⟩ := fun w command script =>
    ⟨.spawn w command script, List.getElem?_concat_length, rfl, rfl, fun _ h => nomatch h⟩
  cases change_step hstep with
  | statement hs => exact linked_statement h hs hextends
  | @newCopy w rest script htodo =>
    refine ⟨hpopen, fun t v command child ht hcreates => ?_, hrest htodo⟩
    obtain rfl := Option.some.inj ht
    obtain ⟨rfl, rfl, rfl⟩ : w = v ∧ false = command ∧ s.children.length = child := by
      simpa only [Task.creates, Option.some.injEq, Prod.mk.injEq] using hcreates
    exact hspawned w false script
  | @newCommand w rest script htodo =>
    refine ⟨hpopen, fun t v command child ht hcreates => ?_, hrest htodo⟩
    obtain rfl := Option.some.inj ht
    obtain ⟨rfl, rfl, rfl⟩ : w = v ∧ true = command ∧ s.children.length = child := by
      simpa only [Task.creates, Option.some.injEq, Prod.mk.injEq] using hcreates
    exact hspawned w true script
  | @noCopy w rest htodo =>
    refine ⟨hpopen, fun t v command child ht hcreates => ?_, hrest htodo⟩
    obtain rfl := Option.some.inj ht
    cases hcreates
  | @noCommand w rest htodo =>
    refine ⟨hpopen, fun t v command child ht hcreates => ?_, hrest htodo⟩
    obtain rfl := Option.some.inj ht
    cases hcreates
  -- from here on the main list is replaced by one in which nothing follows a `Popen`
  | deadline =>
    have htodo : ∀ t ∈ forceFinalizeWorkers n ++ finish n, t.follows = false := fun t ht =>
      (List.mem_append.mp ht).elim (follows_forceFinalizeWorkers n t) (follows_finish n t)
    exact ⟨hpopen, hplain _ htodo, (settled_of_forall htodo).1⟩
  | interrupt =>
    exact ⟨hpopen, hplain _ (follows_handler n), (settled_of_forall (follows_handler n)).1⟩
  | second =>
    exact ⟨hpopen, hplain [.loopHead] fun t ht => by rw [List.mem_singleton.mp ht]; rfl,
      fun t ht => absurd ht List.not_mem_nil⟩
  | fault =>
    exact ⟨hpopen, hplain _ (follows_finish n), (settled_of_forall (follows_finish n)).1⟩
  | child =>
    exact ⟨hpopen, fun t w command child ht hcreates =>
      (h.created t w command child ht hcreates).extend hextends, h.tail⟩

end Copies

end KleeDeps.Experiments
