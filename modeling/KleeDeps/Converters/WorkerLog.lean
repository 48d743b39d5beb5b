import KleeDeps.Converters.OutputLog

/-!
# The log a BINSEC worker reads while another process writes it

A BINSEC case has three parties. The worker prints through `_QueueWriter`, which
sends every chunk into a pipe, and after BINSEC has exited converts the results,
reading its own log. The pipe keeps the chunks in order. The reader thread of the
parent process (`forward_worker_output`) opens the log, takes chunks from the
pipe and writes them to a line-buffered handle. Nothing tells the worker how far
the reader is.

- `Event`, `LogState.step`, `LogState.run`: the three parties, every interleaving;
- `Inv`: file, buffer, hand and pipe together hold what was sent, in order, and the
  file ends at a line end;
- `CaughtUp`: what is still in flight only repeats what the file records;
- `leaks_exact_iff`: **a run reads exactly the printed leaks iff the log has caught
  up at the read**.
-/

namespace KleeDeps.Converters

open Py

variable {F : Type}

/-! ## The parties (`common.py`, `run_binsec.py`) -/

/-- What the worker prints up to the conversion: its own messages, the lines of
BINSEC, more messages. Text streams hand out lines without `\n` and `\r`, and the
messages are no result lines. -/
structure WorkerOutput (round : ℚ → F) where
  before : List Text
  binsec : List Text
  after : List Text
  oneLine : ∀ l ∈ before ++ binsec ++ after, '\n' ∉ l ∧ '\r' ∉ l
  messages : ∀ l ∈ before ++ after, resultLine round l = none

/-- All printed lines. -/
def WorkerOutput.lines {round : ℚ → F} (output : WorkerOutput round) : List Text :=
  output.before ++ output.binsec ++ output.after

/-- The chunks of `print(line)`: the text and the newline are two writes, and
`_QueueWriter.write` sends nothing for an empty text. -/
def printChunks (line : Text) : List Text :=
  if line = [] then [['\n']] else [line, ['\n']]

/-- The log as the reader thread holds it: what is in the file, and what a
line-buffered handle still keeps to itself. -/
structure LogHandle where
  content : Text
  buffer : Text
  deriving DecidableEq, Repr

/-- `log_handle.write(chunk)` with `buffering=1`: a newline in the chunk flushes. -/
def LogHandle.write (h : LogHandle) (chunk : Text) : LogHandle :=
  if '\n' ∈ chunk ∨ '\r' ∈ chunk then { content := h.content ++ h.buffer ++ chunk, buffer := [] }
  else { h with buffer := h.buffer ++ chunk }

/-- The state of the three parties: what the worker has still to send, the pipe,
the chunk the reader has received and not yet written, the log (`none` until the
reader opens it), and what the converter has read. -/
structure LogState (F : Type) where
  unsent : List Text
  pipe : List Text
  hand : Option Text
  log : Option LogHandle
  leaks : Option (Except Exc (Dict Int (LeakInfo F)))
  deriving DecidableEq

/-- Before the first step. -/
def LogState.start {round : ℚ → F} (output : WorkerOutput round) : LogState F where
  unsent := output.lines.flatMap printChunks
  pipe := []
  hand := none
  log := none
  leaks := none

/-- What a party can do next. -/
inductive Event where
  | openLog
  | send
  | receive
  | append
  | read
  deriving DecidableEq, Repr

/-- `parse_output_log` on the log as it is now. -/
def LogState.readLog (round : ℚ → F) (s : LogState F) : Except Exc (Dict Int (LeakInfo F)) :=
  match s.log with
  | none => .error (.osError "No such file or directory".toList)
  | some h => parseOutputLog round h.content

/-- One step; `none` if the event is not possible. The worker converts once, when
it has sent everything. -/
def LogState.step (round : ℚ → F) (s : LogState F) : Event → Option (LogState F)
  | .openLog => if s.log = none then some { s with log := some ⟨[], []⟩ } else none
  | .send =>
    match s.unsent with
    | [] => none
    | chunk :: rest => some { s with unsent := rest, pipe := s.pipe ++ [chunk] }
  | .receive =>
    match s.log, s.hand, s.pipe with
    | some _, none, chunk :: rest => some { s with pipe := rest, hand := some chunk }
    | _, _, _ => none
  | .append =>
    match s.log, s.hand with
    | some h, some chunk => some { s with log := some (h.write chunk), hand := none }
    | _, _ => none
  | .read =>
    if s.unsent = [] ∧ s.leaks = none then some { s with leaks := some (s.readLog round) }
    else none

/-- A sequence of steps. -/
def LogState.run (round : ℚ → F) (s : LogState F) : List Event → Option (LogState F)
  | [] => some s
  | e :: es => (s.step round e).bind fun t => t.run round es

/-- Everything a step can do. -/
theorem LogState.step_cases {round : ℚ → F} {s t : LogState F} {e : Event}
    (h : s.step round e = some t) :
    (e = .openLog ∧ s.log = none ∧ t = { s with log := some ⟨[], []⟩ }) ∨
    (∃ chunk rest, e = .send ∧ s.unsent = chunk :: rest ∧
      t = { s with unsent := rest, pipe := s.pipe ++ [chunk] }) ∨
    (∃ handle chunk rest, e = .receive ∧ s.log = some handle ∧ s.hand = none ∧
      s.pipe = chunk :: rest ∧ t = { s with pipe := rest, hand := some chunk }) ∨
    (∃ handle chunk, e = .append ∧ s.log = some handle ∧ s.hand = some chunk ∧
      t = { s with log := some (handle.write chunk), hand := none }) ∨
    (e = .read ∧ s.unsent = [] ∧ s.leaks = none ∧
      t = { s with leaks := some (s.readLog round) }) := by
  cases e with
  | openLog =>
    simp only [step] at h
    split at h
    · next hlog => exact Or.inl ⟨rfl, hlog, (Option.some.inj h).symm⟩
    · cases h
  | send =>
    simp only [step] at h
    split at h
    · cases h
    · next chunk rest hun =>
      exact Or.inr (Or.inl ⟨chunk, rest, rfl, hun, (Option.some.inj h).symm⟩)
  | receive =>
    simp only [step] at h
    split at h
    · next handle chunk rest hlog hhand hpipe =>
      exact Or.inr (Or.inr (Or.inl ⟨handle, chunk, rest, rfl, hlog, hhand, hpipe,
        (Option.some.inj h).symm⟩))
    · cases h
  | append =>
    simp only [step] at h
    split at h
    · next handle chunk hlog hhand =>
      exact Or.inr (Or.inr (Or.inr (Or.inl ⟨handle, chunk, rfl, hlog, hhand,
        (Option.some.inj h).symm⟩)))
    · cases h
  | read =>
    simp only [step] at h
    split at h
    · next hread =>
      exact Or.inr (Or.inr (Or.inr (Or.inr ⟨rfl, hread.1, hread.2, (Option.some.inj h).symm⟩)))
    · cases h

/-! ## What is where -/

/-- The text in the file. -/
def LogState.content (s : LogState F) : Text := (s.log.map LogHandle.content).getD []

/-- The text that was sent and is not in the file: in the handle's buffer, in the
reader's hand, in the pipe. -/
def LogState.inFlight (s : LogState F) : Text :=
  (s.log.map LogHandle.buffer).getD [] ++ s.hand.getD [] ++ s.pipe.flatten

/-- A chunk is a newline, or a text without one. -/
def Chunk (c : Text) : Prop := c = ['\n'] ∨ ('\n' ∉ c ∧ '\r' ∉ c)

/-- The invariant of the three parties. -/
structure Inv (lines : List Text) (s : LogState F) : Prop where
  conserved : s.content ++ s.inFlight ++ s.unsent.flatten = unlines lines
  whole : s.content = [] ∨ s.content.getLast? = some '\n'
  chunks : ∀ c ∈ s.hand.toList ++ s.pipe ++ s.unsent, Chunk c

theorem flatten_printChunks (lines : List Text) :
    (lines.flatMap printChunks).flatten = unlines lines := by
  induction lines with
  | nil => rfl
  | cons l lines ih =>
    rw [List.flatMap_cons, List.flatten_append, ih, unlines_cons, printChunks]
    split
    · next h => simp [h]
    · simp

theorem chunk_of_mem_printChunks {l c : Text} (hl : '\n' ∉ l ∧ '\r' ∉ l)
    (hc : c ∈ printChunks l) : Chunk c := by
  unfold printChunks at hc
  split at hc
  · exact Or.inl (List.mem_singleton.mp hc)
  · rcases List.mem_cons.mp hc with rfl | hc
    · exact Or.inr hl
    · exact Or.inl (List.mem_singleton.mp hc)

theorem inv_start {round : ℚ → F} (output : WorkerOutput round) :
    Inv output.lines (LogState.start output) where
  conserved := flatten_printChunks output.lines
  whole := Or.inl rfl
  chunks := by
    intro c hc
    simp only [LogState.start, Option.toList_none, List.nil_append, List.mem_flatMap] at hc
    obtain ⟨l, hl, hc⟩ := hc
    exact chunk_of_mem_printChunks (output.oneLine l hl) hc

/-- Writing moves a chunk out of the hand and keeps the file at a line end. -/
theorem LogHandle.write_spec (h : LogHandle) {c : Text} (hc : Chunk c) :
    (h.write c).content ++ (h.write c).buffer = h.content ++ h.buffer ++ c ∧
      ((h.write c).content = h.content ∨ (h.write c).content.getLast? = some '\n') := by
  rcases hc with rfl | ⟨hn, hr⟩
  · have hw : h.write ['\n'] = { content := h.content ++ h.buffer ++ ['\n'], buffer := [] } :=
      if_pos (by simp)
    rw [hw]
    exact ⟨by simp, Or.inr (by simp)⟩
  · have hw : h.write c = { h with buffer := h.buffer ++ c } := if_neg (by simp [hn, hr])
    rw [hw]
    exact ⟨by simp, Or.inl rfl⟩

/-- **Step lemma**: nothing is lost, duplicated or reordered. -/
theorem Inv.step {round : ℚ → F} {lines : List Text} {s t : LogState F} {e : Event}
    (inv : Inv lines s) (h : s.step round e = some t) : Inv lines t := by
  obtain ⟨hcons, hwhole, hchunks⟩ := inv
  rcases LogState.step_cases h with ⟨-, hlog, rfl⟩ | ⟨chunk, rest, -, hun, rfl⟩ |
    ⟨handle, chunk, rest, -, hlog, hhand, hpipe, rfl⟩ | ⟨handle, chunk, -, hlog, hhand, rfl⟩ |
    ⟨-, -, -, rfl⟩
  · -- an empty log is opened
    refine ⟨?_, Or.inl rfl, hchunks⟩
    simpa [LogState.content, LogState.inFlight, hlog] using hcons
  · refine ⟨?_, hwhole, ?_⟩
    · simpa [LogState.content, LogState.inFlight, hun] using hcons
    · intro c hc
      refine hchunks c ?_
      simp only [hun, List.mem_append, List.mem_cons, List.not_mem_nil, or_false] at hc ⊢
      tauto
  · refine ⟨?_, hwhole, ?_⟩
    · simpa [LogState.content, LogState.inFlight, hhand, hpipe] using hcons
    · intro c hc
      refine hchunks c ?_
      simpa [hhand, hpipe] using hc
  · -- the received chunk goes to the handle
    have hchunk : Chunk chunk := hchunks chunk (by simp [hhand])
    obtain ⟨htext, hlast⟩ := handle.write_spec hchunk
    refine ⟨?_, ?_, ?_⟩
    · simp only [LogState.content, LogState.inFlight, hlog, hhand, Option.map_some,
        Option.getD_some, Option.getD_none, List.append_nil, ← List.append_assoc] at hcons ⊢
      rw [htext]
      exact hcons
    · rcases hlast with hsame | hnl
      · simpa [LogState.content, hlog, hsame] using hwhole
      · exact Or.inr (by simpa [LogState.content] using hnl)
    · exact fun c hc => hchunks c (by
        simp only [Option.toList_none, List.nil_append, List.mem_append] at hc ⊢
        tauto)
  · exact ⟨hcons, hwhole, hchunks⟩

/-! ## The read -/

/-- The log is open, and the lines in flight make no difference: it already holds a
line that raises, or they repeat what it records. -/
def CaughtUp (round : ℚ → F) (s : LogState F) : Prop :=
  s.log ≠ none ∧
    ((∃ e, results round (readlines s.content) = .error e) ∨
      Repeats round (readlines s.content) (readlines s.inFlight))

/-- What BINSEC printed is what all printed lines say. -/
theorem leaksOf_lines {round : ℚ → F} (output : WorkerOutput round) :
    leaksOf round output.lines = leaksOf round output.binsec := by
  have hb : results round output.before = .ok [] :=
    results_of_forall_none round fun l hl => output.messages l (by simp [hl])
  have ha : results round output.after = .ok [] :=
    results_of_forall_none round fun l hl => output.messages l (by simp [hl])
  rw [leaksOf, leaksOf, WorkerOutput.lines, results_append, results_append, hb]
  cases results round output.binsec with
  | error e => rfl
  | ok leaks =>
    simp only [ha, Except.map, List.nil_append, List.append_nil]

/-- At the end of the sending, the file holds some of the lines and the rest is in
flight. -/
theorem Inv.split {round : ℚ → F} {output : WorkerOutput round} {s : LogState F}
    (inv : Inv output.lines s) (hsent : s.unsent = []) :
    ∃ k, s.content = unlines (output.lines.take k) ∧
      s.inFlight = unlines (output.lines.drop k) := by
  have hcons := inv.conserved
  rw [hsent, List.flatten_nil, List.append_nil] at hcons
  exact unlines_split (fun l hl => (output.oneLine l hl).1) hcons inv.whole

/-- **The read is right iff the log has caught up.** -/
theorem sameLeaks_readLog_iff {round : ℚ → F} {output : WorkerOutput round} {s : LogState F}
    (inv : Inv output.lines s) (hsent : s.unsent = []) :
    SameLeaks (s.readLog round) (leaksOf round output.binsec) ↔ CaughtUp round s := by
  obtain ⟨k, hk, hk'⟩ := inv.split hsent
  have htake : ∀ l ∈ output.lines.take k, '\n' ∉ l ∧ '\r' ∉ l := fun l hl =>
    output.oneLine l (List.mem_of_mem_take hl)
  have hdrop : ∀ l ∈ output.lines.drop k, '\n' ∉ l := fun l hl =>
    (output.oneLine l (List.mem_of_mem_drop hl)).1
  cases hlog : s.log with
  | none =>
    -- no log yet: the converter fails with an error the lines cannot raise
    refine iff_of_false ?_ fun h => h.1 hlog
    rw [LogState.readLog, hlog, leaksOf]
    intro hsame
    cases hres : results round output.binsec with
    | error e =>
      rw [hres] at hsame
      obtain ⟨msg, rfl⟩ := valueError_of_results round hres
      cases hsame
    | ok leaks =>
      rw [hres] at hsame
      exact hsame
  | some h =>
    have hcontent : h.content = unlines (output.lines.take k) := by
      rw [← hk]
      simp [LogState.content, hlog]
    have hread : s.readLog round = leaksOf round (output.lines.take k) := by
      rw [LogState.readLog, hlog]
      show parseOutputLog round h.content = _
      rw [hcontent, parseOutputLog_unlines round htake]
    have happend := sameLeaks_append_iff round (output.lines.take k) (output.lines.drop k)
    rw [List.take_append_drop, leaksOf_lines, ← hread] at happend
    rw [happend, CaughtUp, hk, hk', readlines_unlines fun l hl => (htake l hl).1,
      readlines_unlines hdrop, Repeats, Repeats, results_newline, results_newline]
    simp [hlog]

/-! ## Whole runs -/

/-- Every read of a run is made in a state with a property. -/
def ReadsWhen (round : ℚ → F) (P : LogState F → Prop) : LogState F → List Event → Prop
  | _, [] => True
  | s, e :: es =>
    (e = .read → P s) ∧ ∀ t, s.step round e = some t → ReadsWhen round P t es

/-- What the converter has read, if it has, are the leaks of the lines BINSEC
printed. -/
def LeaksExact {round : ℚ → F} (output : WorkerOutput round) (s : LogState F) : Prop :=
  ∀ r, s.leaks = some r → SameLeaks r (leaksOf round output.binsec)

/-- What was read stays. -/
theorem leaks_of_step {round : ℚ → F} {s t : LogState F} {e : Event}
    (h : s.step round e = some t) :
    (e ≠ .read ∧ t.leaks = s.leaks) ∨
      (e = .read ∧ s.unsent = [] ∧ s.leaks = none ∧ t.leaks = some (s.readLog round)) := by
  rcases LogState.step_cases h with ⟨rfl, -, rfl⟩ | ⟨-, -, rfl, -, rfl⟩ |
    ⟨-, -, -, rfl, -, -, -, rfl⟩ | ⟨-, -, rfl, -, -, rfl⟩ | ⟨rfl, hsent, hnone, rfl⟩
  · exact Or.inl ⟨by simp, rfl⟩
  · exact Or.inl ⟨by simp, rfl⟩
  · exact Or.inl ⟨by simp, rfl⟩
  · exact Or.inl ⟨by simp, rfl⟩
  · exact Or.inr ⟨rfl, hsent, hnone, rfl⟩

/-- **Run lemma**, from any state the invariant allows. By induction on the events:
a step that is no read leaves the answer alone, and the one read is decided by
`sameLeaks_readLog_iff`. -/
theorem leaksExact_run_iff {round : ℚ → F} {output : WorkerOutput round} {s t : LogState F}
    {es : List Event} (inv : Inv output.lines s) (h : s.run round es = some t) :
    LeaksExact output t ↔
      (LeaksExact output s ∧ ReadsWhen round (CaughtUp round) s es) := by
  induction es generalizing s with
  | nil =>
    obtain rfl := Option.some.inj h
    simp [ReadsWhen]
  | cons e es ih =>
    obtain ⟨u, hu, ht⟩ := Option.bind_eq_some_iff.mp h
    have hrest : (∀ v, s.step round e = some v → ReadsWhen round (CaughtUp round) v es) ↔
        ReadsWhen round (CaughtUp round) u es :=
      ⟨fun hv => hv u hu, fun hv v hstep => Option.some.inj (hu.symm.trans hstep) ▸ hv⟩
    rw [ih (inv.step hu) ht, ReadsWhen, hrest]
    rcases leaks_of_step hu with ⟨hne, hsame⟩ | ⟨rfl, hsent, hnone, hread⟩
    · simp [LeaksExact, hsame, hne]
    · have hexact : LeaksExact output u ↔ CaughtUp round s := by
        rw [← sameLeaks_readLog_iff inv hsent, LeaksExact, hread]
        simp
      have hold : LeaksExact output s := by simp [LeaksExact, hnone]
      rw [hexact]
      simp [hold]

/-- **Every interleaving**: for every output of BINSEC and every run of the three
parties, the leaks the converter gets are exactly those of the lines BINSEC printed
iff the read is made when the log has caught up. -/
theorem leaks_exact_iff (round : ℚ → F) (output : WorkerOutput round) (es : List Event)
    (t : LogState F) (h : (LogState.start output).run round es = some t) :
    LeaksExact output t ↔ ReadsWhen round (CaughtUp round) (LogState.start output) es := by
  rw [leaksExact_run_iff (inv_start output) h]
  have hstart : LeaksExact output (LogState.start output) := by simp [LeaksExact, LogState.start]
  simp [hstart]

/-! ## What the converter makes of a missing leak -/

/-- The cells of an insecure address that come from the log: the kind, and the
`non_ct_time` on which `make_result_row` insists. -/
def leakCells (leaks : Dict Int (LeakInfo F)) (addr : Int) : Except Exc (LeakType × F) :=
  match leaks.get? addr with
  | none => .error (.typeError "non_ct_time must be a float".toList)
  | some leak => .ok (leak.leakType, leak.seconds)

/-- One finding. -/
def oneFinding : WorkerOutput (id : ℚ → ℚ) where
  before := []
  binsec := ["[checkct:result] Instruction 0x401136 has control flow leak (0.5s)".toList]
  after := ["-----".toList]
  oneLine := by simp
  messages := by
    intro l hl
    obtain rfl := List.mem_singleton.mp hl
    decide +kernel

/-- A run that ends in the read. -/
theorem run_concat_read {round : ℚ → F} {s u : LogState F} {es : List Event}
    (h : s.run round es = some u) (hsent : u.unsent = []) (hnone : u.leaks = none) :
    s.run round (es ++ [.read]) = some { u with leaks := some (u.readLog round) } := by
  induction es generalizing s with
  | nil =>
    obtain rfl := Option.some.inj h
    simp [LogState.run, LogState.step, hsent, hnone]
  | cons e es ih =>
    obtain ⟨v, hv, hrun⟩ := Option.bind_eq_some_iff.mp h
    rw [List.cons_append, LogState.run, hv]
    exact ih hrun

/-- If it is the only one, only the state before it matters. -/
theorem readsWhen_concat {round : ℚ → F} {P : LogState F → Prop} {s u : LogState F}
    {es : List Event} (hes : Event.read ∉ es) (h : s.run round es = some u) (hu : P u) :
    ReadsWhen round P s (es ++ [.read]) := by
  induction es generalizing s with
  | nil =>
    obtain rfl := Option.some.inj h
    exact ⟨fun _ => hu, fun _ _ => trivial⟩
  | cons e es ih =>
    rw [List.mem_cons, not_or] at hes
    obtain ⟨v, hv, hrun⟩ := Option.bind_eq_some_iff.mp h
    refine ⟨fun he => absurd he.symm hes.1, fun t ht => ?_⟩
    obtain rfl := Option.some.inj (hv.symm.trans ht)
    exact ih hes.2 hrun

/-- The reader has kept up with the finding, and not with what follows it. -/
def receivedState : LogState ℚ where
  unsent := []
  pipe := ["-----".toList, ['\n']]
  hand := none
  log := some
    ⟨"[checkct:result] Instruction 0x401136 has control flow leak (0.5s)\n".toList, []⟩
  leaks := none

theorem leaks_exact_iff_received :
    ∃ t, (LogState.start oneFinding).run id
        [.openLog, .send, .send, .receive, .append, .receive, .append, .send, .send, .read] =
        some t ∧ LeaksExact oneFinding t := by
  have hreceived : (LogState.start oneFinding).run id
      [.openLog, .send, .send, .receive, .append, .receive, .append, .send, .send] =
      some receivedState := by
    decide +kernel
  have hcaught : CaughtUp id receivedState := by
    refine ⟨by simp [receivedState], Or.inr ⟨[(0x401136, ⟨.controlFlow, 1 / 2⟩)], [], ?_, ?_,
      by simp [Dict.lookup]⟩⟩
    · decide +kernel
    · decide +kernel
  have hrun := run_concat_read hreceived rfl rfl
  exact ⟨_, hrun, (leaks_exact_iff id oneFinding _ _ hrun).mpr
    (readsWhen_concat (by decide) hreceived hcaught)⟩

/-- The converter reads before the reader thread has received the line: the leak is
not there, and the row of its address cannot be built. -/
theorem finding_lost :
    ∃ t, (LogState.start oneFinding).run id [.openLog, .send, .send, .send, .send, .read] =
        some t ∧
      t.leaks = some (.ok .empty) ∧
      leaksOf id oneFinding.binsec =
        .ok (.set .empty 0x401136 { leakType := .controlFlow, seconds := 1 / 2 }) ∧
      leakCells (F := ℚ) .empty 0x401136 =
        .error (.typeError "non_ct_time must be a float".toList) ∧
      ¬ LeaksExact oneFinding t := by
  have hleaks : leaksOf id oneFinding.binsec =
      .ok (.set .empty 0x401136 { leakType := .controlFlow, seconds := 1 / 2 }) := by
    decide +kernel
  refine ⟨_, rfl, rfl, hleaks, rfl, fun h => ?_⟩
  have hsame := h _ rfl
  rw [hleaks] at hsame
  have hget := hsame 0x401136
  rw [Dict.get?_set_self] at hget
  cases hget

end KleeDeps.Converters
