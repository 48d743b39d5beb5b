import KleeDeps.Experiments.CopyOrder

/-!
# The loop is not stuck

A command is drained while it runs, its copy only once it has exited. So a copy whose output is
more than a pipe holds waits for a reader that waits for its exit; if no copy writes that much,
there is always a child that can go on or something for the loop to do.

- `CopyFits`: what a copy writes fits into its pipes;
- `Worker.Serviced`, `Live`, `Lively`: every worker that is not finalised is looked after;
- `no_stuck_state`: **the loop has no stuck state**, in every run whose copies fit;
- `copy_stuck`: a copy that writes one byte too many is never read.
-/

namespace KleeDeps.Experiments

namespace Copies

open Runs

/-- What a copy writes fits into its pipes. -/
def CopyFits (capacity : Nat) (choice : Choice) (s : State) : Prop :=
  ∀ w script, s.todo.head? = some (.startCopy w) → choice = .popen (some script) →
    ∀ stream, script.count stream ≤ capacity

/-- Executed now, the statement notes progress. -/
def Productive (n : Nat) (s : State) (t : Task) : Prop :=
  ∃ s', mainStep n { s with made := false, todo := [t] } = some s' ∧ s'.made = true

/-- The steps of the children. -/
def Choice.ofChild : Choice → Bool
  | .write _ | .close .. | .exit .. => true
  | _ => false

/-- Some child can take a step. -/
def ChildSteps (n capacity : Nat) (s : State) : Prop :=
  ∃ choice : Choice, choice.ofChild = true ∧ (step n capacity choice s).isSome = true

/-- The function that `main` is in, and that has made progress, goes on. -/
def GoesOn (n capacity : Nat) (s : State) : Prop :=
  (∃ t ∈ s.todo.head?, t.follows = true) ∧
    ∃ choice s', (choice = .main ∨ choice = .popen none) ∧ step n capacity choice s = some s' ∧
      s'.todo ≠ s.todo

/-- `main` is in the loop: all copies have been started. -/
def InLoop (s : State) : Prop := s.phase = .running ∧ ∀ t ∈ s.todo, t.copies = none

/-! ### The children -/

/-- Nothing more will come out of the pipe. -/
def Child.Ended (c : Child) (stream : Stream) : Prop := c.closed stream = true ∧ c.pipe stream = 0

/-- A child that closes a pipe while it runs writes no more to it, and what a copy still writes
has room. -/
structure Child.Sound (capacity : Nat) (c : Child) : Prop where
  closed : ∀ stream, c.closed stream = true → c.exit ≠ none ∨ stream ∉ c.script
  fits : c.command = false → ∀ stream, c.pipe stream + c.script.count stream ≤ capacity

/-- What a child keeps. -/
structure Child.Leads (capacity : Nat) (c d : Child) : Prop where
  sound : c.Sound capacity → d.Sound capacity
  ended : ∀ stream, c.Ended stream → d.Ended stream

theorem Child.Leads.refl {capacity : Nat} (c : Child) : c.Leads capacity c :=
  ⟨fun h => h, fun _ h => h⟩

/-- A pipe that was read. -/
theorem leads_of_pipe {capacity : Nat} (c : Child) {pipe : Stream → Nat}
    (hpipe : ∀ stream, pipe stream ≤ c.pipe stream) :
    c.Leads capacity { c with pipe := pipe } where
  sound h := by
    refine ⟨h.closed, fun hcopy stream => ?_⟩
    exact Nat.le_trans (Nat.add_le_add_right (hpipe stream) _) (h.fits hcopy stream)
  ended stream h := by
    refine ⟨h.1, Nat.le_zero.mp ?_⟩
    exact h.2 ▸ hpipe stream

theorem Child.Moves.leads {capacity : Nat} {c c' : Child} (h : c.Moves c') :
    c.Leads capacity c' := by
  cases h with
  | @write stream script hscript hclosed =>
    refine ⟨fun h => ⟨fun other hother => ?_, fun hcopy other => ?_⟩, fun other hother => ?_⟩
    · refine (h.closed other hother).imp_right fun hnot hmem => hnot ?_
      rw [hscript]
      exact List.mem_cons_of_mem stream hmem
    · have hfits := h.fits hcopy other
      rw [hscript, List.count_cons] at hfits
      show (if other = stream then c.pipe stream + 1 else c.pipe other) + script.count other ≤ _
      by_cases hsame : other = stream
      · rw [if_pos hsame]
        rw [hsame, if_pos (beq_self_eq_true stream)] at hfits
        rw [hsame]
        omega
      · rw [if_neg hsame]
        omega
    · have hsame : other ≠ stream := by
        rintro rfl
        cases hclosed.symm.trans hother.1
      exact ⟨hother.1, (if_neg hsame).trans hother.2⟩
  | @close stream hdone =>
    refine ⟨fun h => ⟨fun other hother => ?_, h.fits⟩, fun other hother => ⟨?_, hother.2⟩⟩
    · by_cases hsame : other = stream
      · exact hsame ▸ hdone
      · exact h.closed other ((if_neg hsame).symm.trans hother)
    · show (if other = stream then true else c.closed other) = true
      rw [hother.1, ite_self]
  | leave =>
    exact ⟨fun h => ⟨fun _ _ => Or.inl (Option.some_ne_none _), h.fits⟩, fun _ h => h⟩

/-- The children of one state and the same ones later. -/
def Lead (capacity : Nat) (cs ds : List Child) : Prop :=
  ∀ (i : Nat) (c : Child), cs[i]? = some c → ∃ d, ds[i]? = some d ∧ c.Leads capacity d

theorem Lead.refl {capacity : Nat} (cs : List Child) : Lead capacity cs cs :=
  fun _ c hc => ⟨c, hc, Child.Leads.refl c⟩

theorem lead_set {capacity : Nat} {cs : List Child} {i : Nat} {c c' : Child}
    (hc : cs[i]? = some c) (h : c.Leads capacity c') : Lead capacity cs (cs.set i c') := by
  intro j d hd
  by_cases hij : i = j
  · subst hij
    obtain rfl := Option.some.inj (hc.symm.trans hd)
    exact ⟨c', List.getElem?_set_self (List.getElem?_eq_some_iff.mp hd).1, h⟩
  · exact ⟨d, (List.getElem?_set_ne hij).trans hd, Child.Leads.refl d⟩

theorem lead_modify {capacity : Nat} (cs : List Child) (i : Nat) :
    Lead capacity cs (cs.modify i fun c => { c with signalled := true }) := by
  intro j d hd
  rw [List.getElem?_modify, hd]
  by_cases hij : i = j
  · refine ⟨{ d with signalled := true }, congrArg some (if_pos hij), ?_, fun _ h => h⟩
    exact fun h => ⟨h.closed, h.fits⟩
  · exact ⟨d, congrArg some (if_neg hij), Child.Leads.refl d⟩

theorem lead_append {capacity : Nat} (cs : List Child) (c : Child) :
    Lead capacity cs (cs ++ [c]) := by
  intro i d hd
  refine ⟨d, ?_, Child.Leads.refl d⟩
  rw [List.getElem?_append_left (List.getElem?_eq_some_iff.mp hd).1]
  exact hd

theorem lead_statement {n capacity : Nat} {s s' : State} (hs : Statement n s s') :
    Lead capacity s.children s'.children := by
  cases hs with
  | communicateWait _ _ hc => exact lead_set hc (leads_of_pipe _ fun _ => Nat.zero_le _)
  | communicateDone _ _ hc => exact lead_set hc (leads_of_pipe _ fun _ => Nat.zero_le _)
  | readChunk _ _ hc hpipe => exact lead_set hc (leads_of_pipe _ hpipe)
  | terminate => exact lead_modify _ _
  | waits => exact lead_modify _ _
  | _ => exact Lead.refl _

/-- Children stay sound. -/
theorem sound_of_lead {capacity : Nat} {cs ds : List Child} (h : Lead capacity cs ds)
    (hlength : ds.length = cs.length) (hsound : ∀ c ∈ cs, c.Sound capacity) :
    ∀ d ∈ ds, d.Sound capacity := by
  intro d hd
  obtain ⟨i, hi⟩ := List.mem_iff_getElem?.mp hd
  have hlt : i < cs.length := hlength ▸ (List.getElem?_eq_some_iff.mp hi).1
  obtain ⟨d', hd', hleads⟩ := h i cs[i] (List.getElem?_eq_getElem hlt)
  obtain rfl := Option.some.inj (hi.symm.trans hd')
  exact hleads.sound (hsound _ (List.getElem_mem hlt))

theorem sound_append {capacity : Nat} {cs : List Child} (hsound : ∀ c ∈ cs, c.Sound capacity)
    {c : Child} (hc : c.Sound capacity) : ∀ d ∈ cs ++ [c], d.Sound capacity := by
  intro d hd
  rcases List.mem_append.mp hd with hd | hd
  · exact hsound d hd
  · rw [List.mem_singleton.mp hd]
    exact hc

theorem sound_spawn {capacity : Nat} {w : Nat} {command : Bool} {script : List Stream}
    (h : command = false → ∀ stream, script.count stream ≤ capacity) :
    (Child.spawn w command script).Sound capacity := by
  refine ⟨fun stream hclosed => ?_, fun hcopy stream => ?_⟩
  · cases hclosed
  · show 0 + script.count stream ≤ capacity
    rw [Nat.zero_add]
    exact h hcopy stream

/-! ### The workers -/

/-- The command of a worker. -/
def Worker.command (children : List Child) (x : Worker) : Option Child :=
  x.process.bind fun p => children[p.child]?

/-- The loop looks after the worker, if it has to: its copy will be polled; or the pipes of its
command are read until they end. -/
def Worker.Serviced (children : List Child) (x : Worker) : Prop :=
  x.finalized = true ∨ (x.copySucceeded = false ∧ x.copyProcess ≠ none) ∨
    ∃ c, x.command children = some c ∧ ∀ stream, x.registered stream = x.openStreams stream ∧
      (x.registered stream = false → c.Ended stream)

/-- The worker a statement is about that follows another at once. -/
def Task.subject : Task → Option Nat
  | .recordCopy w _ | .failStart w | .communicate w | .judgeCopy w | .startWorker w
  | .recordProcess w _ | .register w _ | .openStreams w | .finalizeWorker w | .writeStatus w
  | .setFinalized w => some w
  | _ => none

/-- The worker is looked after, or its copy is still to be started. -/
def Settles (todo : List Task) (children : List Child) (w : Nat) (x : Worker) : Prop :=
  .startCopy w ∈ todo ∨ x.Serviced children

/-- The worker is looked after, or `main` is busy with it. -/
def Live (todo : List Task) (children : List Child) (w : Nat) (x : Worker) : Prop :=
  (∃ t ∈ todo.head?, t.subject = some w) ∨ Settles todo children w x

theorem command_poll (children cs : List Child) (x : Worker) (command : Bool) :
    (x.poll cs command).command children = x.command children := by
  cases command with
  | false => rfl
  | true =>
    show (x.process.map (Popen.poll cs)).bind (fun p => children[p.child]?) =
      x.process.bind fun p => children[p.child]?
    cases x.process with
    | none => rfl
    | some p =>
      show children[(p.poll cs).child]? = children[p.child]?
      rw [child_poll]

theorem Worker.Serviced.poll {children : List Child} {x : Worker} (h : x.Serviced children)
    (cs : List Child) (command : Bool) : (x.poll cs command).Serviced children := by
  rcases h with hfinal | ⟨hdone, hcopy⟩ | ⟨c, hc, hstreams⟩
  · cases command <;> exact Or.inl hfinal
  · refine Or.inr (Or.inl ?_)
    cases command with
    | true => exact ⟨hdone, hcopy⟩
    | false => exact ⟨hdone, fun hnone => hcopy (Option.map_eq_none_iff.mp hnone)⟩
  · refine Or.inr (Or.inr ⟨c, (command_poll children cs x command).trans hc, ?_⟩)
    cases command <;> exact hstreams

theorem Worker.Serviced.lead {capacity : Nat} {cs ds : List Child} (h : Lead capacity cs ds)
    {x : Worker} (hx : x.Serviced cs) : x.Serviced ds := by
  rcases hx with hfinal | hcopy | ⟨c, hc, hstreams⟩
  · exact Or.inl hfinal
  · exact Or.inr (Or.inl hcopy)
  · obtain ⟨p, hp, hc⟩ := Option.bind_eq_some_iff.mp hc
    obtain ⟨d, hd, hleads⟩ := h p.child c hc
    refine Or.inr (Or.inr ⟨d, Option.bind_eq_some_iff.mpr ⟨p, hp, hd⟩, fun stream => ?_⟩)
    exact ⟨(hstreams stream).1, fun hclosed => hleads.ended stream ((hstreams stream).2 hclosed)⟩

/-- A pipe that has ended need not be read any more. -/
theorem Worker.Serviced.closeStream {children : List Child} {x : Worker}
    (h : x.Serviced children) {c : Child} (hc : x.command children = some c) {stream : Stream}
    (hended : c.Ended stream) : (x.closeStream stream).Serviced children := by
  rcases h with hfinal | hcopy | ⟨c', hc', hstreams⟩
  · exact Or.inl hfinal
  · exact Or.inr (Or.inl hcopy)
  · obtain rfl := Option.some.inj (hc.symm.trans hc')
    refine Or.inr (Or.inr ⟨c, hc, fun other => ?_⟩)
    show (if other = stream then false else x.registered other) =
        (if other = stream then false else x.openStreams other) ∧
      ((if other = stream then false else x.registered other) = false → c.Ended other)
    by_cases hsame : other = stream
    · rw [if_pos hsame, if_pos hsame, hsame]
      exact ⟨rfl, fun _ => hended⟩
    · rw [if_neg hsame, if_neg hsame]
      exact hstreams other

/-- The invariant: copies come first, the loop has its own statements, and every worker that is
not finalised is looked after. -/
structure Lively (n capacity : Nat) (s : State) : Prop where
  ordered : Ordered n s
  sound : ∀ c ∈ s.children, c.Sound capacity
  early : s.todo.Pairwise fun t u => u.copies ≠ none → t.follows = true ∨ t.copies ≠ none
  loops : s.phase = .running → ∀ t ∈ s.todo, t.ending = false
  live : s.phase = .running → ∀ w < n, Live s.todo s.children w (s.workers w)

/-- Another worker than the one a statement is about. -/
theorem forall_setWorker_ne {P : Nat → Worker → Prop} {s : State} {w : Nat} {x : Worker}
    (h : ∀ v, v ≠ w → P v (s.workers v)) (hx : P w x) :
    ∀ v, P v (if v = w then x else s.workers v) := by
  intro v
  by_cases hv : v = w
  · rw [if_pos hv, hv]
    exact hx
  · rw [if_neg hv]
    exact h v hv

/-- A statement starts no copy. -/
theorem head_statement {n : Nat} {s s' : State} (hs : Statement n s s') :
    ∃ t rest, s.todo = t :: rest ∧ t.copies = none := by
  cases hs with
  | @idle t rest h ht =>
    refine ⟨t, rest, h, ?_⟩
    cases t with
    | startCopy => cases ht
    | _ => rfl
  | _ => exact ⟨_, _, ‹_›, rfl⟩

/-- **A statement leaves no worker alone.** -/
theorem live_statement {n capacity : Nat} {s s' : State} (h : Lively n capacity s)
    (hs : Statement n s s') (hrunning : s'.phase = .running) :
    ∀ w, w < n → Live s'.todo s'.children w (s'.workers w) := by
  have hphase : s.phase = .running := by
    rcases phase_statement hs with hsame | ⟨hstop, -⟩
    · exact hsame ▸ hrunning
    · exact absurd hrunning hstop
  have hlead : Lead capacity s.children s'.children := lead_statement hs
  have hloops : ∀ {t : Task} {rest : List Task}, s.todo = t :: rest → t.ending = false := by
    intro t rest htodo
    exact h.loops hphase t (htodo ▸ List.mem_cons_self)
  -- a statement is not the start of a copy
  have hcopies : ∀ {t : Task} {rest : List Task}, s.todo = t :: rest → t.copies = none := by
    intro t rest htodo
    obtain ⟨u, rest', htodo', hu⟩ := head_statement hs
    rw [(List.cons.inj (htodo.symm.trans htodo')).1]
    exact hu
  -- a worker that the statement is not about is looked after, or will be once its copy is started
  have hother : ∀ {t : Task} {rest : List Task}, s.todo = t :: rest →
      ∀ w, t.subject ≠ some w → w < n → Settles rest s'.children w (s.workers w) := by
    intro t rest htodo w hsubject hw
    have hlive := h.live hphase w hw
    rw [htodo] at hlive
    rcases hlive with ⟨u, hu, hbusy⟩ | hstart | hserviced
    · rw [← Option.some.inj hu] at hbusy
      exact absurd hbusy hsubject
    · rcases List.mem_cons.mp hstart with rfl | hstart
      · cases hcopies htodo
      · exact Or.inl hstart
    · exact Or.inr (hserviced.lead hlead)
  -- the statements of the loop come after all copies were started
  have hlate : ∀ {t : Task} {rest todo : List Task}, s.todo = t :: rest → t.follows = false →
      t.subject = none → ∀ w, w < n → Settles todo s'.children w (s.workers w) := by
    intro t rest todo htodo hfollows hsubject w hw
    have hne : t.subject ≠ some w := by
      rw [hsubject]
      exact Option.some_ne_none w |>.symm
    rcases hother htodo w hne hw with hstart | hserviced
    · have hearly := h.early
      rw [htodo] at hearly
      rcases (List.pairwise_cons.mp hearly).1 _ hstart (Option.some_ne_none w) with htrue | hsome
      · cases hfollows.symm.trans htrue
      · exact absurd (hcopies htodo) hsome
    · exact Or.inr hserviced
  have hcons : ∀ {u : Task} {rest : List Task} {w : Nat} {x : Worker},
      Settles rest s'.children w x → Settles (u :: rest) s'.children w x :=
    fun hsettles => hsettles.imp_left (List.mem_cons_of_mem _)
  have hbusy : ∀ {u : Task} {rest : List Task} {w : Nat} {x : Worker}, u.subject = some w →
      Live (u :: rest) s'.children w x := fun hsubject => Or.inl ⟨_, rfl, hsubject⟩
  -- a statement about one worker: the others settle, this one stays alive
  have hset : ∀ {todo : List Task} {v : Nat} {x : Worker},
      (∀ w, w < n → w ≠ v → Settles todo s'.children w (s.workers w)) →
      (v < n → Live todo s'.children v x) →
      ∀ w, w < n → Live todo s'.children w (if w = v then x else s.workers w) :=
    fun {todo v x} hrest hx => @forall_setWorker_ne
      (fun w x => w < n → Live todo s'.children w x) s v x
      (fun w hv hw => Or.inr (hrest w hw hv)) hx
  have hne : ∀ {v w : Nat}, w ≠ v → some v ≠ some w := fun hw heq => hw (Option.some.inj heq).symm
  have hnone : ∀ {w : Nat}, (none : Option Nat) ≠ some w := fun heq => nomatch heq
  have hfresh : ∀ {t : Task} {rest : List Task}, s.todo = t :: rest → t.Fresh n s := by
    intro t rest htodo
    refine h.ordered.head t ?_
    rw [htodo]
    rfl
  cases hs with
  | @idle t rest htodo hidle =>
    intro w hw
    by_cases hsubject : t.subject = some w
    · refine Or.inr (Or.inr ?_)
      cases t with
      | communicate v =>
        obtain rfl := Option.some.inj hsubject
        -- without a copy there is nothing to wait for
        obtain ⟨-, hcopy, hdone⟩ := notCopying_eq_false (hfresh htodo).1
        exact Or.inr (Or.inl ⟨hdone, hcopy⟩)
      | finalizeWorker v =>
        obtain rfl := Option.some.inj hsubject
        exact Or.inl hidle
      | pollCopy | readStream | finalizeExited | forceFinalize | closeStream | terminate
      | waitOrKill => cases hsubject
      | _ => cases hidle
    · exact Or.inr (hother htodo w hsubject hw)
  | @recordCopy v child rest htodo =>
    refine hset (fun w hw hv => hother htodo w (hne hv) hw) fun _ => ?_
    -- from now on the copy is polled
    refine Or.inr (Or.inr (Or.inr (Or.inl ⟨?_, Option.some_ne_none _⟩)))
    obtain ⟨-, hcopy, -⟩ := hfresh htodo
    refine Bool.eq_false_iff.mpr fun hdone => ?_
    exact (h.ordered.staged v).success hdone hcopy
  | failStart htodo =>
    exact hset (fun w hw hv => hcons (hother htodo w (hne hv) hw)) fun _ => hbusy rfl
  | loopOver => cases hrunning
  | loopBody htodo => exact fun w hw => Or.inr (hlate htodo rfl rfl w hw)
  | copyRuns htodo =>
    exact hset (fun w hw _ => hother htodo w hnone hw) fun hv =>
      Or.inr ((hother htodo _ hnone hv).imp_right fun hserviced => hserviced.poll _ _)
  | copyExited htodo =>
    exact hset (fun w hw _ => hcons (hother htodo w hnone hw)) fun _ => hbusy rfl
  | communicateWait htodo =>
    intro w hw
    rcases h.live hphase w hw with hhead | hstart | hserviced
    · exact Or.inl hhead
    · exact Or.inr (Or.inl hstart)
    · exact Or.inr (Or.inr (hserviced.lead hlead))
  | @communicateDone v rest p c htodo =>
    intro w hw
    by_cases hv : w = v
    · exact hbusy (congrArg some hv.symm)
    · exact Or.inr (hcons (hother htodo w (hne hv) hw))
  | copyFailed htodo =>
    exact hset (fun w hw hv => hcons (hother htodo w (hne hv) hw)) fun _ => hbusy rfl
  | copyReady htodo =>
    exact hset (fun w hw hv => hcons (hother htodo w (hne hv) hw)) fun _ => hbusy rfl
  | recordProcess htodo =>
    exact hset (fun w hw hv => hcons (hother htodo w (hne hv) hw)) fun _ => hbusy rfl
  | registerStdout htodo =>
    exact hset (fun w hw hv => hcons (hother htodo w (hne hv) hw)) fun _ => hbusy rfl
  | registerStderr htodo =>
    exact hset (fun w hw hv => hcons (hother htodo w (hne hv) hw)) fun _ => hbusy rfl
  | @openStreams v rest htodo =>
    refine hset (fun w hw hv => hother htodo w (hne hv) hw) fun _ => ?_
    obtain ⟨hprocess, hstdout, hstderr⟩ := hfresh htodo
    obtain ⟨p, hp⟩ := Option.ne_none_iff_exists'.mp hprocess
    obtain ⟨c, hc, -⟩ := h.ordered.linked.popen v true p hp
    -- from now on the command is drained: both streams are registered
    refine Or.inr (Or.inr (Or.inr (Or.inr ⟨c, Option.bind_eq_some_iff.mpr ⟨p, hp, hc⟩, ?_⟩)))
    have hregistered : ∀ stream, (s.workers v).registered stream = true := by
      intro stream
      cases stream with
      | stdout => exact hstdout
      | stderr => exact hstderr
    exact fun stream =>
      ⟨hregistered stream, fun hclosed => nomatch (hregistered stream).symm.trans hclosed⟩
  | @drain rest keys htodo hkeys =>
    intro w hw
    exact Or.inr ((hother htodo w hnone hw).imp_left (List.mem_append_right keys))
  | readChunk htodo => exact fun w hw => Or.inr (hother htodo w hnone hw)
  | @readEnd v stream rest c htodo hc hclosed hempty =>
    refine hset (fun w hw _ => hother htodo w hnone hw) fun hv => ?_
    refine Or.inr ((hother htodo v hnone hv).imp_right fun hserviced => ?_)
    exact hserviced.closeStream hc ⟨hclosed, hempty⟩
  | commandRuns htodo =>
    exact hset (fun w hw _ => hother htodo w hnone hw) fun hv =>
      Or.inr ((hother htodo _ hnone hv).imp_right fun hserviced => hserviced.poll _ _)
  | commandExited htodo =>
    exact hset (fun w hw _ => hcons (hother htodo w hnone hw)) fun _ => hbusy rfl
  | chooseCode htodo =>
    exact hset (fun w hw hv => hcons (hother htodo w (hne hv) hw)) fun _ => hbusy rfl
  | writeStatus htodo =>
    exact hset (fun w hw hv => hcons (hother htodo w (hne hv) hw)) fun _ => hbusy rfl
  | setFinalized htodo =>
    exact hset (fun w hw hv => hother htodo w (hne hv) hw) fun _ =>
      Or.inr (Or.inr (Or.inl rfl))
  | loopEnd htodo => exact fun w hw => Or.inr (hlate htodo rfl rfl w hw)
  -- statements of the end are not reached while the loop runs
  | terminated htodo => cases hloops htodo
  | terminate htodo => cases hloops htodo
  | waited htodo => cases hloops htodo
  | waits htodo => cases hloops htodo
  | handlerEnd htodo => cases hloops htodo
  | closeStream htodo => cases hloops htodo
  | forceFinalize htodo => cases hloops htodo
  | collect htodo => cases hloops htodo

theorem pairwise_of_copies {P : Task → Prop} {todo : List Task} (h : ∀ t ∈ todo, t.copies = none) :
    todo.Pairwise fun t u => u.copies ≠ none → P t :=
  List.pairwise_of_forall_mem_list fun _ _ u hu hsome => absurd (h u hu) hsome

/-- The copies still come first after a statement. -/
theorem early_statement {n capacity : Nat} {s s' : State} (h : Lively n capacity s)
    (hs : Statement n s s') :
    s'.todo.Pairwise fun t u => u.copies ≠ none → t.follows = true ∨ t.copies ≠ none := by
  obtain ⟨new, old, htodo, hold, hnew⟩ := todo_statement hs
  obtain ⟨t₀, rest, hs₀, hcopies⟩ := head_statement hs
  have hplain : ∀ t ∈ new, t.copies = none := by
    intro t ht
    rcases (hnew t ht).starts with hstarts | ⟨w, rfl, -, -⟩
    · cases t with
      | startCopy => cases hstarts
      | _ => rfl
    · rfl
  rw [htodo]
  refine List.pairwise_append.mpr
    ⟨pairwise_of_copies hplain, h.early.sublist hold.sublist, fun t ht u hu hsome => Or.inl ?_⟩
  -- a copy is still to be started, so the statement before it was one that follows at once
  rcases (hnew t ht).follows with hfollows | hhead
  · exact hfollows
  · have hearly := h.early
    have hu := hold.subset hu
    rw [hs₀] at hearly hu hhead
    rcases List.mem_cons.mp hu with rfl | hu
    · exact absurd hcopies hsome
    · rcases (List.pairwise_cons.mp hearly).1 u hu hsome with htrue | hstart
      · cases (hhead t₀ rfl).symm.trans htrue
      · exact absurd hcopies hstart

theorem lively_start (n capacity : Nat) : Lively n capacity (State.start n) where
  ordered := ordered_start n
  sound c hc := absurd hc List.not_mem_nil
  early := by
    refine List.pairwise_append.mpr ⟨List.pairwise_of_forall_mem_list fun t ht u _ _ => ?_,
      List.pairwise_singleton _ _, fun t _ u hu hsome => ?_⟩
    · obtain ⟨w, -, rfl⟩ := List.mem_map.mp ht
      exact Or.inr (Option.some_ne_none w)
    · rw [List.mem_singleton.mp hu] at hsome
      exact absurd rfl hsome
  loops _ := forall_start (fun _ _ => rfl) rfl
  live _ w hw := by
    refine Or.inr (Or.inl (List.mem_append_left _ ?_))
    exact List.mem_map_of_mem (List.mem_range.mpr hw)

/-- **Step lemma**: if the copy fits that is started, every worker is still looked after. -/
theorem lively_step {n capacity : Nat} {choice : Choice} {s s' : State}
    (h : Lively n capacity s) (hfits : CopyFits capacity choice s)
    (hstep : step n capacity choice s = some s') : Lively n capacity s' := by
  have hordered := ordered_step h.ordered hstep
  -- the start of a process, or of none, puts the worker in front
  have hstart : ∀ {t u : Task} {rest : List Task} {w : Nat} {ds : List Child},
      s.todo = t :: rest → (∀ v, t = .startCopy v → v = w) → (∀ v, t.subject = some v → v = w) →
      u.subject = some w → Lead capacity s.children ds → s.phase = .running →
      ∀ v, v < n → Live (u :: rest) ds v (s.workers v) := by
    intro t u rest w ds htodo hcopy hsubject hu hlead hphase v hv
    by_cases hvw : v = w
    · exact Or.inl ⟨u, rfl, hvw ▸ hu⟩
    · have hlive := h.live hphase v hv
      rw [htodo] at hlive
      rcases hlive with ⟨x, hx, hbusy⟩ | hpending | hserviced
      · rw [← Option.some.inj hx] at hbusy
        exact absurd (hsubject v hbusy) hvw
      · rcases List.mem_cons.mp hpending with heq | hpending
        · exact absurd (hcopy v heq.symm) hvw
        · exact Or.inr (Or.inl (List.mem_cons_of_mem u hpending))
      · exact Or.inr (Or.inr (hserviced.lead hlead))
  -- what follows a start at once keeps the copies in front
  have hearly : ∀ {t u : Task} {rest : List Task}, s.todo = t :: rest → u.follows = true →
      (u :: rest).Pairwise fun t u => u.copies ≠ none → t.follows = true ∨ t.copies ≠ none := by
    intro t u rest htodo hu
    have hearly := h.early
    rw [htodo] at hearly
    exact List.pairwise_cons.mpr ⟨fun _ _ _ => Or.inl hu, (List.pairwise_cons.mp hearly).2⟩
  have hloops : ∀ {t u : Task} {rest : List Task}, s.todo = t :: rest → u.ending = false →
      s.phase = .running → ∀ v ∈ u :: rest, v.ending = false := by
    intro t u rest htodo hu hphase v hv
    rcases List.mem_cons.mp hv with rfl | hv
    · exact hu
    · exact h.loops hphase v (htodo ▸ List.mem_cons_of_mem t hv)
  cases change_step hstep with
  | statement hs =>
    refine ⟨hordered, sound_of_lead (lead_statement hs) (length_statement hs) h.sound,
      early_statement h hs, fun hrunning t ht => ?_, live_statement h hs⟩
    have hphase : s.phase = .running := by
      rcases phase_statement hs with hsame | ⟨hstop, -⟩
      · exact hsame ▸ hrunning
      · exact absurd hrunning hstop
    obtain ⟨new, old, htodo, hold, hnew⟩ := todo_statement hs
    rw [htodo] at ht
    rcases List.mem_append.mp ht with ht | ht
    · exact (hnew t ht).ending.resolve_right fun hstop => hstop hrunning
    · exact h.loops hphase t (hold.subset ht)
  | @newCopy w rest script htodo =>
    refine ⟨hordered, sound_append h.sound (sound_spawn fun _ => ?_), hearly htodo rfl,
      hloops htodo rfl, hstart htodo (fun v hv => ?_) (fun v hv => nomatch hv) rfl
      (lead_append _ _)⟩
    · exact hfits w script (congrArg List.head? htodo) rfl
    · exact (Task.startCopy.inj hv).symm
  | @noCopy w rest htodo =>
    refine ⟨hordered, h.sound, hearly htodo rfl, hloops htodo rfl,
      hstart htodo (fun v hv => ?_) (fun v hv => nomatch hv) rfl (Lead.refl _)⟩
    exact (Task.startCopy.inj hv).symm
  | @newCommand w rest script htodo =>
    refine ⟨hordered, sound_append h.sound (sound_spawn fun hcopy => nomatch hcopy),
      hearly htodo rfl, hloops htodo rfl, hstart htodo (fun v hv => nomatch hv) (fun v hv => ?_)
      rfl (lead_append _ _)⟩
    exact (Option.some.inj hv).symm
  | @noCommand w rest htodo =>
    refine ⟨hordered, h.sound, hearly htodo rfl, hloops htodo rfl,
      hstart htodo (fun v hv => nomatch hv) (fun v hv => ?_) rfl (Lead.refl _)⟩
    exact (Option.some.inj hv).symm
  -- the rest leaves the loop, so there is nothing to show of its workers
  | deadline =>
    refine ⟨hordered, h.sound, pairwise_of_copies fun t ht => ?_, by nofun,
      by nofun⟩
    rcases List.mem_append.mp ht with ht | ht
    · exact forall_forceFinalizeWorkers (P := fun t => t.copies = none) (fun _ _ _ => rfl)
        (fun _ _ => rfl) t ht
    · exact forall_finish (P := fun t => t.copies = none) (fun _ _ _ => rfl)
        (fun _ _ => rfl) rfl t ht
  | interrupt =>
    exact ⟨hordered, h.sound, pairwise_of_copies (forall_handler (fun _ _ _ => rfl)
      (fun _ _ _ => rfl) rfl), by nofun, by nofun⟩
  | second =>
    exact ⟨hordered, h.sound, List.pairwise_singleton _ _, by nofun,
      by nofun⟩
  | fault =>
    exact ⟨hordered, h.sound, pairwise_of_copies (forall_finish (fun _ _ _ => rfl)
      (fun _ _ => rfl) rfl), by nofun, by nofun⟩
  | child hc hmoves =>
    have hlead : Lead capacity s.children _ := lead_set hc hmoves.leads
    refine ⟨hordered, sound_of_lead hlead List.length_set h.sound, h.early, h.loops,
      fun hphase w hw => ?_⟩
    rcases h.live hphase w hw with hbusy | hpending | hserviced
    · exact Or.inl hbusy
    · exact Or.inr (Or.inl hpending)
    · exact Or.inr (Or.inr (hserviced.lead hlead))

/-! ### Somebody can go on -/

/-- A child that runs can exit or write, or a pipe it writes to is full. -/
theorem Child.Sound.cases {capacity : Nat} {c : Child} (h : c.Sound capacity)
    (hexit : c.exit = none) : (c.leave 0).isSome = true ∨ (c.write capacity).isSome = true ∨
      ∃ stream ∈ c.script, capacity ≤ c.pipe stream := by
  cases hscript : c.script with
  | nil =>
    refine Or.inl ?_
    rw [Child.leave, if_pos ⟨hexit, Or.inl hscript⟩]
    rfl
  | cons stream script =>
    refine Or.inr ?_
    by_cases hroom : c.pipe stream < capacity
    · refine Or.inl ?_
      have hopen : c.closed stream = false := by
        refine Bool.eq_false_iff.mpr fun hclosed => ?_
        rcases h.closed stream hclosed with hdone | hnot
        · exact hdone hexit
        · exact hnot (hscript ▸ List.mem_cons_self)
      rw [Child.write, hscript]
      dsimp only
      rw [if_pos ⟨hexit, hopen, hroom⟩]
      rfl
    · exact Or.inr ⟨stream, List.mem_cons_self, Nat.le_of_not_lt hroom⟩

/-- The pipes of a copy are never full. -/
theorem Child.Sound.room {capacity : Nat} {c : Child} (h : c.Sound capacity)
    (hcopy : c.command = false) {stream : Stream} (hstream : stream ∈ c.script) :
    c.pipe stream < capacity := by
  have hfits := h.fits hcopy stream
  have hcount : 0 < c.script.count stream := List.count_pos_iff.mpr hstream
  omega

theorem childStep_isSome {s : State} {i : Nat} {c : Child} {f : Child → Option Child}
    (hc : s.children[i]? = some c) (h : (f c).isSome = true) : (childStep s i f).isSome = true := by
  obtain ⟨c', hc'⟩ := Option.isSome_iff_exists.mp h
  rw [childStep, hc, Option.bind_some, hc']
  rfl

/-- A child that runs can go on, or a pipe it writes to is full. -/
theorem childSteps_of_running {n capacity : Nat} {s : State} {i : Nat} {c : Child}
    (hc : s.children[i]? = some c) (h : c.Sound capacity) (hexit : c.exit = none) :
    ChildSteps n capacity s ∨ ∃ stream ∈ c.script, capacity ≤ c.pipe stream := by
  rcases h.cases hexit with hleave | hwrite | hfull
  · exact Or.inl ⟨.exit i 0, rfl, childStep_isSome hc hleave⟩
  · exact Or.inl ⟨.write i, rfl, childStep_isSome hc hwrite⟩
  · exact Or.inr hfull

/-- The pipes of a child that has exited can be closed. -/
theorem childSteps_of_exited {n capacity : Nat} {s : State} {i : Nat} {c : Child}
    (hc : s.children[i]? = some c) (hexit : c.exit ≠ none) {stream : Stream}
    (hclosed : c.closed stream = false) : ChildSteps n capacity s := by
  refine ⟨.close i stream, rfl, childStep_isSome hc ?_⟩
  rw [Child.close, if_pos ⟨hclosed, Or.inl hexit⟩]
  rfl

/-- `Popen.poll` sees the exit of its child. -/
theorem returncode_poll {children : List Child} {p : Popen} {c : Child}
    (hc : children[p.child]? = some c) (hexit : c.exit ≠ none) :
    (p.poll children).returncode ≠ none := by
  rw [Popen.poll]
  split
  · rename_i code hcode
    rw [hcode]
    exact Option.some_ne_none code
  · show exitOf children p.child ≠ none
    rw [exitOf, hc]
    exact hexit

/-- `poll_copy_processes` goes on with a copy that has exited. -/
theorem productive_pollCopy {n : Nat} {s : State} {w : Nat} {p : Popen} {c : Child}
    (hcopying : (s.workers w).notCopying = false) (hp : (s.workers w).copyProcess = some p)
    (hc : s.children[p.child]? = some c) (hexit : c.exit ≠ none) :
    Productive n s (.pollCopy w) := by
  have hcode : ((s.workers w).poll s.children false).returncode false ≠ none := by
    show ((s.workers w).copyProcess.map (Popen.poll s.children)).bind Popen.returncode ≠ none
    rw [hp]
    exact returncode_poll hc hexit
  rw [Productive, mainStep]
  dsimp only
  rw [hcopying, if_neg Bool.false_ne_true, if_neg hcode]
  exact ⟨_, rfl, rfl⟩

/-- `drain_worker_streams` reads a pipe that is ready. -/
theorem productive_drain {n : Nat} {s : State} {w : Nat} (hw : w < n) {stream : Stream}
    (hready : ready s w stream = true) : Productive n s .drain := by
  refine ⟨_, rfl, ?_⟩
  have hmem : Task.readStream w stream ∈ (List.range n).flatMap fun w =>
      ([.stdout, .stderr] : List Stream).filterMap fun stream =>
        if ready s w stream then some (Task.readStream w stream) else none := by
    refine List.mem_flatMap.mpr ⟨w, List.mem_range.mpr hw, List.mem_filterMap.mpr ⟨stream, ?_, ?_⟩⟩
    · cases stream with
      | stdout => exact List.mem_cons_self
      | stderr => exact List.mem_cons_of_mem _ List.mem_cons_self
    · rw [if_pos hready]
  show (false || !((List.range n).flatMap fun w =>
      ([.stdout, .stderr] : List Stream).filterMap fun stream =>
        if ready s w stream then some (Task.readStream w stream) else none).isEmpty) = true
  rw [Bool.false_or, Bool.not_eq_true', List.isEmpty_eq_false_iff]
  exact List.ne_nil_of_mem hmem

/-- `finalize_exited_workers` finalises a worker whose command has exited and whose pipes have
ended. -/
theorem productive_finalizeExited {n : Nat} {s : State} {w : Nat} {p : Popen} {c : Child}
    (hfinal : (s.workers w).finalized = false) (hp : (s.workers w).process = some p)
    (hc : s.children[p.child]? = some c) (hexit : c.exit ≠ none)
    (hopen : ∀ stream, (s.workers w).openStreams stream = false) :
    Productive n s (.finalizeExited w) := by
  have hcode : ((s.workers w).poll s.children true).returncode true ≠ none := by
    show ((s.workers w).process.map (Popen.poll s.children)).bind Popen.returncode ≠ none
    rw [hp]
    exact returncode_poll hc hexit
  have hidle : ((s.workers w).finalized || (s.workers w).process.isNone) = false := by
    rw [hfinal, hp]
    rfl
  have hwait : ¬ (((s.workers w).poll s.children true).returncode true = none ∨
      ((s.workers w).poll s.children true).openStreams .stdout = true ∨
      ((s.workers w).poll s.children true).openStreams .stderr = true) := by
    rintro (hnone | hstdout | hstderr)
    · exact hcode hnone
    · cases (hopen .stdout).symm.trans hstdout
    · cases (hopen .stderr).symm.trans hstderr
  rw [Productive, mainStep]
  dsimp only
  rw [hidle, if_neg Bool.false_ne_true, if_neg hwait]
  exact ⟨_, rfl, rfl⟩

/-- What follows at once goes on, or waits for the pipes of a copy that has exited. -/
theorem goesOn_of_follows {n capacity : Nat} {s : State} (h : Ordered n s) {t : Task}
    (ht : t ∈ s.todo.head?) (hfollows : t.follows = true) :
    ChildSteps n capacity s ∨ GoesOn n capacity s := by
  have hhead := h.head t ht
  have hlinked := h.linked
  obtain ⟨workers, children, todo, made, phase, interrupted, exception⟩ := s
  obtain ⟨rest, rfl⟩ : ∃ rest, todo = t :: rest := by
    cases todo with
    | nil => cases ht
    | cons u rest => exact ⟨rest, congrArg (· :: rest) (Option.some.inj ht)⟩
  have hmain : ∀ s', mainStep n ⟨workers, children, t :: rest, made, phase, interrupted,
      exception⟩ = some s' → s'.todo ≠ t :: rest → GoesOn n capacity ⟨workers, children, t :: rest,
      made, phase, interrupted, exception⟩ :=
    fun s' hstep hne => ⟨⟨t, ht, hfollows⟩, .main, s', Or.inl rfl, hstep, hne⟩
  have hnext : ∀ {u : Task}, u ≠ t → u :: rest ≠ t :: rest := fun hne heq =>
    hne (List.cons.inj heq).1
  cases t with
  | recordCopy w child => exact Or.inr (hmain _ rfl (List.cons_ne_self _ _).symm)
  | failStart w => exact Or.inr (hmain _ rfl (hnext Task.noConfusion))
  | communicate w =>
    -- `communicate` was entered after an exit code was seen, so only the pipes can keep it
    obtain ⟨code, hcode⟩ := Option.ne_none_iff_exists'.mp hhead.2
    obtain ⟨p, hp, hcode⟩ := Option.bind_eq_some_iff.mp hcode
    obtain ⟨c, hc, -, -, hexit⟩ := hlinked.popen w false p hp
    have hexited : c.exit ≠ none := by
      rw [hexit code hcode]
      exact Option.some_ne_none code
    by_cases hclosed : (c.closed .stdout && c.closed .stderr) = true
    · have hp : (workers w).copyProcess = some p := hp
      have hc : children[p.child]? = some c := hc
      have hstep : mainStep n ⟨workers, children, .communicate w :: rest, made, phase, interrupted,
          exception⟩ = some ⟨workers, children.set p.child { c with pipe := fun _ => 0 },
          .judgeCopy w :: rest, made, phase, interrupted, exception⟩ := by
        simp only [mainStep, hp, hc]
        exact if_pos hclosed
      exact Or.inr (hmain _ hstep (hnext Task.noConfusion))
    · refine Or.inl ?_
      cases hstdout : c.closed .stdout with
      | false => exact childSteps_of_exited hc hexited hstdout
      | true =>
        rw [hstdout, Bool.true_and] at hclosed
        exact childSteps_of_exited hc hexited (Bool.eq_false_iff.mpr hclosed)
  | judgeCopy w =>
    by_cases hcode : (workers w).returncode false ≠ some 0
    · exact Or.inr (hmain _ (if_pos hcode) (hnext Task.noConfusion))
    · exact Or.inr (hmain _ (if_neg hcode) (hnext Task.noConfusion))
  | startWorker w =>
    -- if nothing else, the start can fail
    exact Or.inr ⟨⟨_, ht, hfollows⟩, .popen none, _, Or.inr rfl, rfl, hnext Task.noConfusion⟩
  | recordProcess w child => exact Or.inr (hmain _ rfl (hnext Task.noConfusion))
  | register w stream =>
    cases stream with
    | stdout => exact Or.inr (hmain _ rfl (hnext (u := .register w .stderr) (by simp)))
    | stderr => exact Or.inr (hmain _ rfl (hnext (u := .openStreams w) Task.noConfusion))
  | openStreams w => exact Or.inr (hmain _ rfl (List.cons_ne_self _ _).symm)
  | finalizeWorker w =>
    by_cases hfinal : (workers w).finalized = true
    · exact Or.inr (hmain _ (if_pos hfinal) (List.cons_ne_self _ _).symm)
    · exact Or.inr (hmain _ (if_neg hfinal) (hnext Task.noConfusion))
  | writeStatus w => exact Or.inr (hmain _ rfl (hnext Task.noConfusion))
  | setFinalized w => exact Or.inr (hmain _ rfl (List.cons_ne_self _ _).symm)
  | _ => cases hfollows

/-- A command that has written something, and that is looked after, is read. -/
theorem ready_of_serviced {s : State} {w : Nat} {c : Child} (hc : commandOf s w = some c)
    (hstreams : ∀ stream, (s.workers w).registered stream = (s.workers w).openStreams stream ∧
      ((s.workers w).registered stream = false → c.Ended stream)) {stream : Stream}
    (hpipe : 0 < c.pipe stream) : ready s w stream = true := by
  have hregistered : (s.workers w).registered stream = true := by
    by_contra hnot
    have hended := (hstreams stream).2 (Bool.eq_false_iff.mpr hnot)
    exact absurd hended.2 (Nat.pos_iff_ne_zero.mp hpipe)
  rw [ready, hregistered, hc]
  show (true && (decide (0 < c.pipe stream) || c.closed stream)) = true
  rw [decide_eq_true hpipe]
  rfl

/-- For a worker that is looked after, a child or the loop can go on. -/
theorem progress_of_serviced {n capacity : Nat} (hcapacity : 0 < capacity) {s : State}
    (h : Lively n capacity s) {w : Nat} (hw : w < n)
    (hserviced : (s.workers w).Serviced s.children)
    (hfinal : (s.workers w).finalized = false) :
    ChildSteps n capacity s ∨ ∃ t ∈ iteration n, Productive n s t := by
  have hpolled : .pollCopy w ∈ iteration n :=
    List.mem_append_left _ (List.mem_map_of_mem (List.mem_range.mpr hw))
  have hdrained : .drain ∈ iteration n := List.mem_append_right _ List.mem_cons_self
  have hexited : .finalizeExited w ∈ iteration n :=
    List.mem_append_right _ (List.mem_cons_of_mem _ (List.mem_append_left _
      (List.mem_map_of_mem (List.mem_range.mpr hw))))
  rcases hserviced with hdone | ⟨hcopying, hcopy⟩ | ⟨c, hc, hstreams⟩
  · cases hfinal.symm.trans hdone
  · -- the copy runs and has room, or it has exited and is polled
    obtain ⟨p, hp⟩ := Option.ne_none_iff_exists'.mp hcopy
    obtain ⟨c, hc, -, hcommand, -⟩ := h.ordered.linked.popen w false p hp
    have hsound := h.sound c (List.mem_of_getElem? hc)
    by_cases hexit : c.exit = none
    · rcases childSteps_of_running (n := n) hc hsound hexit with hsteps | ⟨stream, hstream, hfull⟩
      · exact Or.inl hsteps
      · exact absurd (hsound.room hcommand hstream) (Nat.not_lt_of_le hfull)
    · refine Or.inr ⟨_, hpolled, productive_pollCopy ?_ hp hc hexit⟩
      rw [Worker.notCopying, hfinal, hp, hcopying]
      rfl
  · -- the command runs and has room, or a pipe is read, or it is finalised
    obtain ⟨p, hp, hchild⟩ := Option.bind_eq_some_iff.mp hc
    have hsound := h.sound c (List.mem_of_getElem? hchild)
    by_cases hexit : c.exit = none
    · rcases childSteps_of_running (n := n) hchild hsound hexit with hsteps | ⟨stream, -, hfull⟩
      · exact Or.inl hsteps
      · have hready : ready s w stream = true :=
          ready_of_serviced hc hstreams (Nat.lt_of_lt_of_le hcapacity hfull)
        exact Or.inr ⟨_, hdrained, productive_drain hw hready⟩
    · by_cases hopen : ∃ stream, (s.workers w).openStreams stream = true
      · obtain ⟨stream, hopen⟩ := hopen
        cases hclosed : c.closed stream with
        | false => exact Or.inl (childSteps_of_exited hchild hexit hclosed)
        | true =>
          have hready : ready s w stream = true := by
            rw [ready, (hstreams stream).1, hopen, show commandOf s w = some c from hc]
            show (true && (decide (0 < c.pipe stream) || c.closed stream)) = true
            rw [hclosed, Bool.or_true]
            rfl
          exact Or.inr ⟨_, hdrained, productive_drain hw hready⟩
      · refine Or.inr ⟨_, hexited, productive_finalizeExited hfinal hp hchild hexit ?_⟩
        exact fun stream => Bool.eq_false_iff.mpr fun htrue => hopen ⟨stream, htrue⟩

/-- A worker that `main` is not busy with is looked after. -/
theorem Lively.serviced {n capacity : Nat} {s : State} (h : Lively n capacity s)
    (hloop : InLoop s) (hbetween : ∀ t ∈ s.todo.head?, t.follows = false) {w : Nat} (hw : w < n) :
    (s.workers w).Serviced s.children := by
  rcases h.live hloop.1 w hw with ⟨t, ht, hsubject⟩ | hstart | hserviced
  · have hfollows := hbetween t ht
    cases t with
    | recordCopy | failStart | communicate | judgeCopy | startWorker | recordProcess | register
    | openStreams | finalizeWorker | writeStatus | setFinalized => cases hfollows
    | _ => cases hsubject
  · cases hloop.2 _ hstart
  · exact hserviced

theorem lively_of_run {n capacity : Nat} {choices : List Choice} {s : State}
    (hrun : run (step n capacity) choices (State.start n) = some s)
    (hmeets : Meets (step n capacity) (CopyFits capacity) choices (State.start n)) :
    Lively n capacity s :=
  invariant_of_meets (fun _ _ _ h hfits hstep => lively_step h hfits hstep)
    (lively_start n capacity) hmeets hrun

/-- **The loop has no stuck state** in a run whose copies write no more than their pipes hold:
while a worker is not finalised, some child can take a step, or one of the three functions of
the loop makes progress, or is just making it; and between them every command that has written
something is read. -/
theorem no_stuck_state {n capacity : Nat} (hcapacity : 0 < capacity) {choices : List Choice}
    {s : State} (hrun : run (step n capacity) choices (State.start n) = some s)
    (hmeets : Meets (step n capacity) (CopyFits capacity) choices (State.start n))
    (hloop : InLoop s) :
    (allFinalized n s = false → ChildSteps n capacity s ∨
      (∃ t ∈ iteration n, Productive n s t) ∨ GoesOn n capacity s) ∧
    ((∀ t ∈ s.todo.head?, t.follows = false) → ∀ w < n, (s.workers w).finalized = false →
      ∀ c, commandOf s w = some c → ∀ stream, 0 < c.pipe stream → ready s w stream = true) := by
  have h := lively_of_run hrun hmeets
  constructor
  · intro hall
    by_cases hfollows : ∃ t ∈ s.todo.head?, t.follows = true
    · obtain ⟨t, ht, hfollows⟩ := hfollows
      exact (goesOn_of_follows h.ordered ht hfollows).imp_right Or.inr
    · have hbetween : ∀ t ∈ s.todo.head?, t.follows = false := fun t ht =>
        Bool.eq_false_iff.mpr fun htrue => hfollows ⟨t, ht, htrue⟩
      obtain ⟨w, hw, hfinal⟩ := List.all_eq_false.mp hall
      have hw := List.mem_range.mp hw
      rcases progress_of_serviced hcapacity h hw (h.serviced hloop hbetween hw)
        (Bool.eq_false_iff.mpr hfinal) with hsteps | hproductive
      · exact Or.inl hsteps
      · exact Or.inr (Or.inl hproductive)
  · intro hbetween w hw hfinal c hc stream hpipe
    rcases h.serviced hloop hbetween hw with hdone | ⟨hcopying, -⟩ | ⟨c', hc', hstreams⟩
    · cases hfinal.symm.trans hdone
    · -- a command is started after the success of the copy only
      have hprocess : (s.workers w).process ≠ none := by
        intro hnone
        rw [commandOf, hnone] at hc
        cases hc
      cases hcopying.symm.trans ((h.ordered.staged w).command hprocess)
    · obtain rfl := Option.some.inj (hc.symm.trans hc')
      exact ready_of_serviced hc hstreams hpipe

/-- One worker whose copy is running, with a byte to write. -/
theorem no_stuck_state_one : ∃ s, run (step 1 65536) [.popen (some [.stderr]), .main]
      (State.start 1) = some s ∧ allFinalized 1 s = false ∧
    ((allFinalized 1 s = false → ChildSteps 1 65536 s ∨
      (∃ t ∈ iteration 1, Productive 1 s t) ∨ GoesOn 1 65536 s) ∧
    ((∀ t ∈ s.todo.head?, t.follows = false) → ∀ w < 1, (s.workers w).finalized = false →
      ∀ c, commandOf s w = some c → ∀ stream, 0 < c.pipe stream → ready s w stream = true)) := by
  refine ⟨_, rfl, rfl, @no_stuck_state 1 65536 (by decide) [.popen (some [.stderr]), .main] _ rfl
    ⟨fun w script _ hchoice stream => ?_, fun t _ => ⟨?_, fun _ _ => trivial⟩⟩ ⟨rfl, ?_⟩⟩
  · obtain rfl := Option.some.inj (Choice.popen.inj hchoice)
    cases stream <;> decide
  · exact fun _ _ _ hchoice => Choice.noConfusion hchoice
  · exact List.forall_mem_singleton.mpr rfl

/-! ### A copy that writes too much -/

/-- A copy with one byte more than a pipe holds, after it has written some of them. -/
def writer (capacity written : Nat) : Child where
  owner := 0
  command := false
  script := List.replicate (capacity + 1 - written) .stderr
  pipe := fun stream => if stream = .stderr then written else 0
  closed := fun stream => if stream = .stdout then true else false
  signalled := false
  exit := none

theorem write_writer {capacity written : Nat} (h : written < capacity) :
    (writer capacity written).write capacity = some (writer capacity (written + 1)) := by
  have hscript : List.replicate (capacity + 1 - written) Stream.stderr =
      .stderr :: List.replicate (capacity + 1 - (written + 1)) .stderr := by
    rw [show capacity + 1 - written = capacity + 1 - (written + 1) + 1 by omega]
    rfl
  rw [Child.write, show (writer capacity written).script = _ from hscript]
  dsimp only
  rw [if_pos ⟨rfl, rfl, h⟩]
  refine congrArg some ?_
  rw [writer, writer]
  congr 1
  funext stream
  cases stream with
  | stdout => rfl
  | stderr => rfl

/-- The loop with that copy as its only child. -/
def writing (capacity written : Nat) : State where
  workers := fun v => if v = 0 then { Worker.new with copyProcess := some ⟨0, none⟩ } else .new
  children := [writer capacity written]
  todo := [.loopHead]
  made := false
  phase := .running
  interrupted := false
  exception := false

theorem run_writes {capacity : Nat} (n : Nat) : ∀ written ≤ capacity,
    run (step n capacity) (List.replicate written (.write 0)) (writing capacity 0) =
      some (writing capacity written) := by
  intro written
  induction written with
  | zero => exact fun _ => rfl
  | succ written ih =>
    intro hle
    rw [List.replicate_succ']
    refine run_append.mpr ⟨_, ih (Nat.le_of_succ_le hle), run_cons_iff.mpr ⟨_, ?_, rfl⟩⟩
    show (((writer capacity written).write capacity).map fun c =>
      { writing capacity written with children := [c] }) = some (writing capacity (written + 1))
    rw [write_writer (Nat.lt_of_succ_le hle)]
    rfl

/-- A child that waits for room, and has nothing else to do. -/
theorem not_childSteps_full (n capacity : Nat) :
    ¬ ChildSteps n capacity (writing capacity capacity) := by
  rintro ⟨choice, hchild, hstep⟩
  obtain ⟨s', hstep⟩ := Option.isSome_iff_exists.mp hstep
  have honly : ∀ {i : Nat} {c : Child}, (writing capacity capacity).children[i]? = some c →
      c = writer capacity capacity := fun hc =>
    List.mem_singleton.mp (List.mem_of_getElem? hc)
  have hscript : (writer capacity capacity).script = [.stderr] := by
    show List.replicate (capacity + 1 - capacity) Stream.stderr = [.stderr]
    rw [show capacity + 1 - capacity = 1 by omega]
    rfl
  cases choice with
  | write i =>
    obtain ⟨c, c', hc, hwrite, -⟩ := childStep_eq_some hstep
    obtain rfl := honly hc
    obtain ⟨stream, script, hstream, -, -, hroom, -⟩ := Child.write_eq_some hwrite
    rw [hscript] at hstream
    obtain ⟨rfl, -⟩ := List.cons.inj hstream
    exact Nat.lt_irrefl capacity hroom
  | close i stream =>
    obtain ⟨c, c', hc, hclose, -⟩ := childStep_eq_some hstep
    obtain rfl := honly hc
    obtain ⟨hopen, hdone, -⟩ := Child.close_eq_some hclose
    -- it has not exited, and what it still has to write goes to `stderr`
    rcases hdone with hexit | hnot
    · exact hexit rfl
    · rw [hscript] at hnot
      cases stream with
      | stdout => cases hopen
      | stderr => exact hnot List.mem_cons_self
  | exit i code =>
    obtain ⟨c, c', hc, hleave, -⟩ := childStep_eq_some hstep
    obtain rfl := honly hc
    obtain ⟨-, hdone, -⟩ := Child.leave_eq_some hleave
    rcases hdone with hnil | hsignal
    · cases hscript.symm.trans hnil
    · cases hsignal
  | _ => cases hchild

/-- The copy has not exited, no pipe is registered and there is no command. -/
theorem not_productive_full (capacity : Nat) :
    ∀ t ∈ iteration 1, ¬ Productive 1 (writing capacity capacity) t := by
  refine forall_iteration (fun w hw => ?_) ?_ (fun w hw => ?_) ?_
  · obtain rfl := Nat.lt_one_iff.mp hw
    rintro ⟨s', hstep, hmade⟩
    obtain rfl := Option.some.inj hstep
    cases hmade
  · rintro ⟨s', hstep, hmade⟩
    obtain rfl := Option.some.inj hstep
    cases hmade
  · obtain rfl := Nat.lt_one_iff.mp hw
    rintro ⟨s', hstep, hmade⟩
    obtain rfl := Option.some.inj hstep
    cases hmade
  · rintro ⟨s', hstep, hmade⟩
    obtain rfl := Option.some.inj hstep
    cases hmade

theorem run_writing (capacity : Nat) :
    run (step 1 capacity) [.popen (some (List.replicate (capacity + 1) .stderr)), .main,
      .close 0 .stdout] (State.start 1) = some (writing capacity 0) := by
  let c : Child := .spawn 0 false (List.replicate (capacity + 1) .stderr)
  have hclose : c.close .stdout = some (writer capacity 0) := by
    have hnot : Stream.stdout ∉ c.script := fun hmem => by
      cases (List.mem_replicate.mp hmem).2
    rw [Child.close, if_pos ⟨rfl, Or.inr hnot⟩]
    refine congrArg some ?_
    rw [writer]
    congr 1
    funext stream
    cases stream with
    | stdout => rfl
    | stderr => rfl
  refine run_cons_iff.mpr ⟨_, rfl, run_cons_iff.mpr ⟨_, rfl, run_cons_iff.mpr ⟨_, ?_, rfl⟩⟩⟩
  show ((c.close .stdout).map fun d => { writing capacity 0 with children := [d] }) =
    some (writing capacity 0)
  rw [hclose]
  rfl

/-- A copy that writes one byte more than its pipe holds is never read: the state is stuck. -/
theorem copy_stuck : ¬ ∀ (n capacity : Nat), 0 < capacity → ∀ (choices : List Choice) (s : State),
    run (step n capacity) choices (State.start n) = some s → InLoop s →
    allFinalized n s = false → ChildSteps n capacity s ∨
      (∃ t ∈ iteration n, Productive n s t) ∨ GoesOn n capacity s := by
  intro h
  have hrun := run_append.mpr ⟨_, run_writing 65536, run_writes 1 65536 (Nat.le_refl _)⟩
  rcases h 1 65536 (by decide) _ _ hrun ⟨rfl, List.forall_mem_singleton.mpr rfl⟩ rfl with
    hsteps | ⟨t, ht, hproductive⟩ | ⟨⟨t, ht, hfollows⟩, -⟩
  · exact not_childSteps_full 1 65536 hsteps
  · exact not_productive_full 65536 t ht hproductive
  · obtain rfl := Option.some.inj ht
    cases hfollows

end Copies

end KleeDeps.Experiments
