import Mathlib.Data.List.Basic
import KleeDeps.Py.Text

/-!
# Forwarding the output of a worker process

`forward_worker_output` of `scripts/experiments/common.py`: a thread of the parent receives
the text chunks a worker sends through a pipe or a queue and writes them to a log. The worker
ends its output with a sentinel (`None`), by closing its end, or by exiting without either.

Worker and reader take turns in any order (`Action`, `run`). What is sent becomes visible to
the reader by `flush`, in order; that nothing is left to flush when the process is seen to
have exited is the assumption made of `multiprocessing`.

- `invariant_run`: what was sent is what was logged and what is still on its way, in order;
- `stops_run`: once the output is over, the reader stops after a bounded number of turns;
- `log_complete`: both together, for the log at the end.
-/

namespace KleeDeps.Experiments

open Py

namespace Forwarding

inductive Transport where
  | pipe
  | queue
  deriving DecidableEq

/-- A chunk of output; `none` is the sentinel. -/
abbrev Message := Option Text

/-- The connection between worker and reader. -/
structure Channel where
  transport : Transport
  /-- sent, and not yet visible to the reader -/
  buffered : List Message
  /-- visible to the reader -/
  inFlight : List Message
  /-- the worker's end is closed -/
  closed : Bool

/-- `receive_with_timeout`: is there a chunk, the chunk, and the channel afterwards. The end
of a pipe is received as a sentinel. -/
def receiveWithTimeout (channel : Channel) : Bool × Message × Channel :=
  match channel.inFlight with
  | message :: rest => (true, message, { channel with inFlight := rest })
  | [] => (channel.transport = .pipe ∧ channel.closed, none, channel)

/-- `receive_nowait`: the end of a pipe is no chunk here. -/
def receiveNowait (channel : Channel) : Bool × Message × Channel :=
  match channel.inFlight with
  | message :: rest => (true, message, { channel with inFlight := rest })
  | [] => (false, none, channel)

/-- Where the reader stands: at a timed poll, at the test of the exit code behind a poll that
found nothing, in the second loop, or behind it. -/
inductive Reader where
  | polling
  | checking
  | draining
  | stopped
  deriving DecidableEq

structure State where
  channel : Channel
  /-- `process.exitcode is not None` -/
  exited : Bool
  /-- the worker sends no more chunks -/
  ended : Bool
  sentinelSent : Bool
  /-- the chunks sent so far -/
  sent : List Text
  reader : Reader
  /-- the chunks written to `log_path` so far -/
  log : List Text

def State.start (transport : Transport) : State where
  channel := { transport := transport, buffered := [], inFlight := [], closed := false }
  exited := false
  ended := false
  sentinelSent := false
  sent := []
  reader := .polling
  log := []

/-- One turn of the reader. -/
def read (s : State) : State :=
  match s.reader with
  | .polling =>
    match receiveWithTimeout s.channel with
    | (false, _, _) => { s with reader := .checking }
    | (true, none, channel) => { s with channel := channel, reader := .draining }
    | (true, some chunk, channel) => { s with channel := channel, log := s.log ++ [chunk] }
  | .checking => { s with reader := if s.exited then .draining else .polling }
  | .draining =>
    match receiveNowait s.channel with
    | (false, _, _) => { s with reader := .stopped }
    | (true, none, channel) => { s with channel := channel }
    | (true, some chunk, channel) => { s with channel := channel, log := s.log ++ [chunk] }
  | .stopped => s

inductive Action where
  | send (chunk : Text)
  | sendSentinel
  | flush
  | close
  | exit
  | read
  deriving DecidableEq

/-- One turn of worker, transport or reader, where it can be taken. -/
def step (s : State) : Action → Option State
  | .send chunk =>
    if s.ended then none
    else some { s with
      channel := { s.channel with buffered := s.channel.buffered ++ [some chunk] },
      sent := s.sent ++ [chunk] }
  | .sendSentinel =>
    if s.ended then none
    else some { s with
      channel := { s.channel with buffered := s.channel.buffered ++ [none] },
      ended := true, sentinelSent := true }
  | .flush =>
    match s.channel.buffered with
    | [] => none
    | message :: rest => some { s with
        channel := { s.channel with buffered := rest, inFlight := s.channel.inFlight ++ [message] } }
  | .close =>
    if s.channel.buffered = [] then
      some { s with channel := { s.channel with closed := true }, ended := true }
    else none
  -- chunks sent before the process is seen to have exited can be polled afterwards
  | .exit =>
    if s.channel.buffered = [] then
      some { s with channel := { s.channel with closed := true }, ended := true, exited := true }
    else none
  | .read => some (read s)

/-- A run: turns in any order. -/
def run : List Action → State → Option State
  | [], s => some s
  | action :: actions, s => (step s action).bind (run actions)

/-! ### What a turn does -/

/-- **Inversion**: everything a turn of the reader can do. -/
inductive Turn (s : State) : State → Prop
  | chunk {chunk : Text} {rest : List Message} (hflight : s.channel.inFlight = some chunk :: rest)
      (hreader : s.reader = .polling ∨ s.reader = .draining) :
      Turn s { s with channel := { s.channel with inFlight := rest }, log := s.log ++ [chunk] }
  | sentinel {rest : List Message} (hflight : s.channel.inFlight = none :: rest)
      (hreader : s.reader = .polling ∨ s.reader = .draining) :
      Turn s { s with channel := { s.channel with inFlight := rest }, reader := .draining }
  | pipeEnd (hreader : s.reader = .polling) (hflight : s.channel.inFlight = [])
      (hend : s.channel.transport = .pipe ∧ s.channel.closed = true) :
      Turn s { s with reader := .draining }
  | timeout (hreader : s.reader = .polling) (hflight : s.channel.inFlight = [])
      (hend : ¬(s.channel.transport = .pipe ∧ s.channel.closed = true)) :
      Turn s { s with reader := .checking }
  | check (hreader : s.reader = .checking) :
      Turn s { s with reader := if s.exited then .draining else .polling }
  | drained (hreader : s.reader = .draining) (hflight : s.channel.inFlight = []) :
      Turn s { s with reader := .stopped }
  | stopped (hreader : s.reader = .stopped) : Turn s s

theorem turn_read (s : State) : Turn s (read s) := by
  obtain ⟨channel, exited, ended, sentinelSent, sent, reader, log⟩ := s
  cases reader with
  | polling =>
    cases hflight : channel.inFlight with
    | cons message rest =>
      have hreceive : receiveWithTimeout channel =
          (true, message, { channel with inFlight := rest }) := by
        rw [receiveWithTimeout, hflight]
      simp only [read, hreceive]
      cases message with
      | some chunk => exact .chunk hflight (Or.inl rfl)
      | none => exact .sentinel hflight (Or.inl rfl)
    | nil =>
      -- nothing visible: the poll times out, unless the pipe is at its end
      by_cases hend : channel.transport = .pipe ∧ channel.closed = true
      · have hreceive : receiveWithTimeout channel = (true, none, channel) := by
          rw [receiveWithTimeout, hflight]
          show (decide (channel.transport = .pipe ∧ channel.closed = true), _) = _
          rw [decide_eq_true hend]
        simp only [read, hreceive]
        exact .pipeEnd rfl hflight hend
      · have hreceive : receiveWithTimeout channel = (false, none, channel) := by
          rw [receiveWithTimeout, hflight]
          show (decide (channel.transport = .pipe ∧ channel.closed = true), _) = _
          rw [decide_eq_false hend]
        simp only [read, hreceive]
        exact .timeout rfl hflight hend
  | checking => exact .check rfl
  | draining =>
    cases hflight : channel.inFlight with
    | cons message rest =>
      have hreceive : receiveNowait channel =
          (true, message, { channel with inFlight := rest }) := by
        rw [receiveNowait, hflight]
      simp only [read, hreceive]
      cases message with
      | some chunk => exact .chunk hflight (Or.inr rfl)
      | none => exact .sentinel hflight (Or.inr rfl)
    | nil =>
      have hreceive : receiveNowait channel = (false, none, channel) := by
        rw [receiveNowait, hflight]
      simp only [read, hreceive]
      exact .drained rfl hflight
  | stopped => exact .stopped rfl

/-- **Inversion**: everything a step can do. -/
inductive Moves (s : State) : Action → State → Prop
  | send {chunk : Text} (hended : s.ended = false) :
      Moves s (.send chunk) { s with
        channel := { s.channel with buffered := s.channel.buffered ++ [some chunk] },
        sent := s.sent ++ [chunk] }
  | sendSentinel (hended : s.ended = false) :
      Moves s .sendSentinel { s with
        channel := { s.channel with buffered := s.channel.buffered ++ [none] },
        ended := true, sentinelSent := true }
  | flush {message : Message} {rest : List Message}
      (hbuffered : s.channel.buffered = message :: rest) :
      Moves s .flush { s with
        channel := { s.channel with
          buffered := rest, inFlight := s.channel.inFlight ++ [message] } }
  | close (hbuffered : s.channel.buffered = []) :
      Moves s .close { s with channel := { s.channel with closed := true }, ended := true }
  | exit (hbuffered : s.channel.buffered = []) :
      Moves s .exit { s with
        channel := { s.channel with closed := true }, ended := true, exited := true }
  | read {s' : State} (hturn : Turn s s') : Moves s .read s'

theorem moves_step {s s' : State} {action : Action} (h : step s action = some s') :
    Moves s action s' := by
  cases action with
  | send chunk =>
    obtain ⟨hended, hstep⟩ := Option.ite_none_left_eq_some.mp h
    obtain rfl := Option.some.inj hstep
    exact .send (Bool.eq_false_iff.mpr hended)
  | sendSentinel =>
    obtain ⟨hended, hstep⟩ := Option.ite_none_left_eq_some.mp h
    obtain rfl := Option.some.inj hstep
    exact .sendSentinel (Bool.eq_false_iff.mpr hended)
  | flush =>
    rw [step] at h
    cases hbuffered : s.channel.buffered with
    | nil =>
      rw [hbuffered] at h
      cases h
    | cons message rest =>
      rw [hbuffered] at h
      obtain rfl := Option.some.inj h
      exact .flush hbuffered
  | close =>
    obtain ⟨hbuffered, hstep⟩ := Option.ite_none_right_eq_some.mp h
    obtain rfl := Option.some.inj hstep
    exact .close hbuffered
  | exit =>
    obtain ⟨hbuffered, hstep⟩ := Option.ite_none_right_eq_some.mp h
    obtain rfl := Option.some.inj hstep
    exact .exit hbuffered
  | read =>
    obtain rfl := Option.some.inj h
    exact .read (turn_read s)

/-! ### What is on its way -/

/-- What was sent and not yet received, oldest first. -/
def Channel.pending (channel : Channel) : List Message := channel.inFlight ++ channel.buffered

/-- The chunks among messages. -/
def chunks (messages : List Message) : List Text := messages.filterMap id

@[simp] theorem chunks_nil : chunks [] = [] := rfl

@[simp] theorem chunks_cons_some (chunk : Text) (messages : List Message) :
    chunks (some chunk :: messages) = chunk :: chunks messages := rfl

@[simp] theorem chunks_cons_none (messages : List Message) :
    chunks (none :: messages) = chunks messages := rfl

theorem chunks_append (xs ys : List Message) : chunks (xs ++ ys) = chunks xs ++ chunks ys :=
  List.filterMap_append

/-- Behind a sentinel nothing is on its way. -/
def SentinelLast : List Message → Prop
  | [] => True
  | some _ :: rest => SentinelLast rest
  | none :: rest => rest = []

theorem sentinelLast_append {messages : List Message} (h : none ∉ messages) (message : Message) :
    SentinelLast (messages ++ [message]) := by
  induction messages with
  | nil =>
    cases message with
    | none => rfl
    | some chunk => trivial
  | cons first rest ih =>
    cases first with
    | none => exact absurd List.mem_cons_self h
    | some chunk => exact ih fun hmem => h (List.mem_cons_of_mem _ hmem)

/-- What holds after every turn. -/
structure Invariant (s : State) : Prop where
  accounted : s.sent = s.log ++ chunks s.channel.pending
  sentinelLast : SentinelLast s.channel.pending
  sentinelEnds : none ∈ s.channel.pending → s.ended = true
  sentinelReceived : s.sentinelSent = true →
    s.ended = true ∧ (none ∈ s.channel.pending ∨ s.reader = .draining ∨ s.reader = .stopped)
  closed : s.channel.closed = true → s.channel.buffered = [] ∧ s.ended = true
  exited : s.exited = true → s.channel.closed = true
  draining : s.reader = .draining →
    s.ended = true ∧ (s.exited = true ∨ chunks s.channel.pending = [])
  stopped : s.reader = .stopped → s.ended = true ∧ chunks s.channel.pending = []

theorem invariant_start (transport : Transport) : Invariant (State.start transport) where
  accounted := rfl
  sentinelLast := trivial
  sentinelEnds := fun h => absurd h List.not_mem_nil
  sentinelReceived := fun h => absurd h Bool.false_ne_true
  closed := fun h => absurd h Bool.false_ne_true
  exited := fun h => absurd h Bool.false_ne_true
  draining := fun h => by cases h
  stopped := fun h => by cases h

/-- A state with the same channel contents but one received message. -/
theorem pending_of_inFlight {channel : Channel} {message : Message} {rest : List Message}
    (h : channel.inFlight = message :: rest) :
    channel.pending = message :: ({ channel with inFlight := rest } : Channel).pending := by
  show channel.inFlight ++ channel.buffered = message :: (rest ++ channel.buffered)
  rw [h]
  rfl

/-- Receiving a chunk and logging it. -/
theorem Invariant.logged {s : State} (h : Invariant s) {chunk : Text} {rest : List Message}
    (hflight : s.channel.inFlight = some chunk :: rest)
    (hreader : s.reader = .polling ∨ s.reader = .draining) :
    Invariant { s with
      channel := { s.channel with inFlight := rest }, log := s.log ++ [chunk] } := by
  have hpending := pending_of_inFlight hflight
  constructor
  · show s.sent = (s.log ++ [chunk]) ++ chunks _
    rw [h.accounted, hpending, chunks_cons_some, List.append_assoc]
    rfl
  · have := h.sentinelLast
    rw [hpending] at this
    exact this
  · intro hmem
    apply h.sentinelEnds
    rw [hpending]
    exact List.mem_cons_of_mem _ hmem
  · intro hsent
    obtain ⟨hended, hwhere⟩ := h.sentinelReceived hsent
    refine ⟨hended, ?_⟩
    rcases hwhere with hmem | hreader
    · rw [hpending] at hmem
      rcases List.mem_cons.mp hmem with heq | hmem
      · cases heq
      · exact Or.inl hmem
    · exact Or.inr hreader
  · exact h.closed
  · exact h.exited
  · -- the chunk was on its way, so the worker had exited
    intro hdraining
    obtain ⟨hended, hwhere⟩ := h.draining hdraining
    refine ⟨hended, ?_⟩
    rcases hwhere with hexited | hnone
    · exact Or.inl hexited
    · rw [hpending, chunks_cons_some] at hnone
      cases hnone
  · intro hstopped
    have hstopped' : s.reader = .stopped := hstopped
    rcases hreader with hreader | hreader
    · rw [hreader] at hstopped'
      cases hstopped'
    · rw [hreader] at hstopped'
      cases hstopped'

/-- Receiving the sentinel, in either loop. -/
theorem Invariant.sentinel {s : State} (h : Invariant s) {rest : List Message}
    (hflight : s.channel.inFlight = none :: rest) :
    Invariant { s with channel := { s.channel with inFlight := rest }, reader := .draining } := by
  have hpending := pending_of_inFlight hflight
  have hlast := h.sentinelLast
  rw [hpending] at hlast
  have hended : s.ended = true := by
    apply h.sentinelEnds
    rw [hpending]
    exact List.mem_cons_self
  -- the sentinel is the last message, so nothing is pending behind it
  have hnothing : ({ s.channel with inFlight := rest } : Channel).pending = [] := hlast
  constructor
  · show s.sent = s.log ++ chunks _
    rw [h.accounted, hpending, chunks_cons_none]
  · show SentinelLast ({ s.channel with inFlight := rest } : Channel).pending
    rw [hnothing]
    trivial
  · intro _
    exact hended
  · intro _
    exact ⟨hended, Or.inr (Or.inl rfl)⟩
  · exact h.closed
  · exact h.exited
  · intro _
    refine ⟨hended, Or.inr ?_⟩
    show chunks ({ s.channel with inFlight := rest } : Channel).pending = []
    rw [hnothing]
    rfl
  · intro hstopped
    cases hstopped

/-- The reader moves without receiving anything. -/
theorem Invariant.moved {s : State} (h : Invariant s) {reader : Reader}
    (hsentinel : s.sentinelSent = true →
      none ∈ s.channel.pending ∨ reader = .draining ∨ reader = .stopped)
    (hdraining : reader = .draining →
      s.ended = true ∧ (s.exited = true ∨ chunks s.channel.pending = []))
    (hstopped : reader = .stopped → s.ended = true ∧ chunks s.channel.pending = []) :
    Invariant { s with reader := reader } where
  accounted := h.accounted
  sentinelLast := h.sentinelLast
  sentinelEnds := h.sentinelEnds
  sentinelReceived := fun hsent => ⟨(h.sentinelReceived hsent).1, hsentinel hsent⟩
  closed := h.closed
  exited := h.exited
  draining := hdraining
  stopped := hstopped

/-- Nothing visible and the worker's end closed: nothing is on its way. -/
theorem Invariant.nothing_pending {s : State} (h : Invariant s)
    (hflight : s.channel.inFlight = []) (hclosed : s.channel.closed = true) :
    s.channel.pending = [] := by
  show s.channel.inFlight ++ s.channel.buffered = []
  rw [hflight, (h.closed hclosed).1]
  rfl

/-- **Step lemma** for the reader. -/
theorem invariant_turn {s s' : State} (h : Invariant s) (hturn : Turn s s') : Invariant s' := by
  -- a reader in the first loop has received no sentinel
  have hpending : s.reader = .polling ∨ s.reader = .checking → s.sentinelSent = true →
      none ∈ s.channel.pending := by
    intro hreader hsent
    rcases (h.sentinelReceived hsent).2 with hmem | hwhere | hwhere
    · exact hmem
    · rcases hreader with hreader | hreader <;> cases hreader.symm.trans hwhere
    · rcases hreader with hreader | hreader <;> cases hreader.symm.trans hwhere
  cases hturn with
  | chunk hflight hreader => exact h.logged hflight hreader
  | sentinel hflight => exact h.sentinel hflight
  | pipeEnd hreader hflight hend =>
    have hnothing := h.nothing_pending hflight hend.2
    apply h.moved
    · intro _
      exact Or.inr (Or.inl rfl)
    · intro _
      refine ⟨(h.closed hend.2).2, Or.inr ?_⟩
      rw [hnothing]
      rfl
    · intro hstopped
      cases hstopped
  | timeout hreader =>
    apply h.moved
    · intro hsent
      exact Or.inl (hpending (Or.inl hreader) hsent)
    · intro hdraining
      cases hdraining
    · intro hstopped
      cases hstopped
  | check hreader =>
    apply h.moved
    · intro hsent
      exact Or.inl (hpending (Or.inr hreader) hsent)
    · intro hdraining
      by_cases hexited : s.exited = true
      · exact ⟨(h.closed (h.exited hexited)).2, Or.inl hexited⟩
      · rw [if_neg hexited] at hdraining
        cases hdraining
    · intro hstopped
      by_cases hexited : s.exited = true
      · rw [if_pos hexited] at hstopped
        cases hstopped
      · rw [if_neg hexited] at hstopped
        cases hstopped
  | drained hreader hflight =>
    -- behind the exit or the sentinel an empty channel stays empty
    obtain ⟨hended, hwhere⟩ := h.draining hreader
    have hnothing : chunks s.channel.pending = [] := by
      rcases hwhere with hexited | hnone
      · rw [h.nothing_pending hflight (h.exited hexited)]
        rfl
      · exact hnone
    apply h.moved
    · intro _
      exact Or.inr (Or.inr rfl)
    · intro hdraining
      cases hdraining
    · intro _
      exact ⟨hended, hnothing⟩
  | stopped => exact h

/-- **Step lemma**: every turn keeps the invariant. -/
theorem invariant_step {s s' : State} {action : Action} (h : Invariant s)
    (hstep : step s action = some s') : Invariant s' := by
  cases moves_step hstep with
  | @send chunk hended =>
    have hsends : s.ended ≠ true := Bool.eq_false_iff.mp hended
    have hpending : ({ s.channel with buffered := s.channel.buffered ++ [some chunk] } :
        Channel).pending = s.channel.pending ++ [some chunk] :=
      (List.append_assoc _ _ _).symm
    -- a worker that still sends has sent no sentinel, so the reader is in the first loop
    have hnone : none ∉ s.channel.pending := fun hmem => hsends (h.sentinelEnds hmem)
    constructor
    · show s.sent ++ [chunk] = s.log ++ chunks _
      rw [hpending, chunks_append, h.accounted, List.append_assoc]
      rfl
    · show SentinelLast ({ s.channel with buffered := s.channel.buffered ++ [some chunk] } :
        Channel).pending
      rw [hpending]
      exact sentinelLast_append hnone (some chunk)
    · intro hmem
      rw [hpending] at hmem
      rcases List.mem_append.mp hmem with hmem | hmem
      · exact h.sentinelEnds hmem
      · cases List.mem_singleton.mp hmem
    · intro hsent
      exact absurd (h.sentinelReceived hsent).1 hsends
    · intro hclosed
      exact absurd (h.closed hclosed).2 hsends
    · exact h.exited
    · intro hdraining
      exact absurd (h.draining hdraining).1 hsends
    · intro hstopped
      exact absurd (h.stopped hstopped).1 hsends
  | sendSentinel hended =>
    have hsends : s.ended ≠ true := Bool.eq_false_iff.mp hended
    have hpending : ({ s.channel with buffered := s.channel.buffered ++ [none] } :
        Channel).pending = s.channel.pending ++ [none] :=
      (List.append_assoc _ _ _).symm
    have hnone : none ∉ s.channel.pending := fun hmem => hsends (h.sentinelEnds hmem)
    constructor
    · show s.sent = s.log ++ chunks _
      rw [hpending, chunks_append, h.accounted]
      exact congrArg (s.log ++ ·) (List.append_nil _).symm
    · show SentinelLast ({ s.channel with buffered := s.channel.buffered ++ [none] } :
        Channel).pending
      rw [hpending]
      exact sentinelLast_append hnone none
    · intro _
      rfl
    · intro _
      refine ⟨rfl, Or.inl ?_⟩
      rw [hpending]
      exact List.mem_append_right _ List.mem_cons_self
    · intro hclosed
      exact absurd (h.closed hclosed).2 hsends
    · exact h.exited
    · intro hdraining
      exact absurd (h.draining hdraining).1 hsends
    · intro hstopped
      exact absurd (h.stopped hstopped).1 hsends
  | @flush message rest hbuffered =>
    -- a flush moves a message, what is on its way stays the same
    have hpending : ({ s.channel with
        buffered := rest, inFlight := s.channel.inFlight ++ [message] } : Channel).pending =
          s.channel.pending := by
      show (s.channel.inFlight ++ [message]) ++ rest = s.channel.inFlight ++ s.channel.buffered
      rw [hbuffered, List.append_assoc]
      rfl
    constructor
    · show s.sent = s.log ++ chunks _
      rw [hpending, h.accounted]
    · show SentinelLast ({ s.channel with
        buffered := rest, inFlight := s.channel.inFlight ++ [message] } : Channel).pending
      rw [hpending]
      exact h.sentinelLast
    · intro hmem
      rw [hpending] at hmem
      exact h.sentinelEnds hmem
    · intro hsent
      rw [hpending]
      exact h.sentinelReceived hsent
    · intro hclosed
      have := (h.closed hclosed).1
      rw [hbuffered] at this
      cases this
    · exact h.exited
    · intro hdraining
      rw [hpending]
      exact h.draining hdraining
    · intro hstopped
      rw [hpending]
      exact h.stopped hstopped
  | close hbuffered =>
    exact ⟨h.accounted, h.sentinelLast, fun _ => rfl,
      fun hsent => ⟨rfl, (h.sentinelReceived hsent).2⟩, fun _ => ⟨hbuffered, rfl⟩,
      fun _ => rfl, fun hdraining => ⟨rfl, (h.draining hdraining).2⟩,
      fun hstopped => ⟨rfl, (h.stopped hstopped).2⟩⟩
  | exit hbuffered =>
    exact ⟨h.accounted, h.sentinelLast, fun _ => rfl,
      fun hsent => ⟨rfl, (h.sentinelReceived hsent).2⟩, fun _ => ⟨hbuffered, rfl⟩,
      fun _ => rfl, fun _ => ⟨rfl, Or.inl rfl⟩,
      fun hstopped => ⟨rfl, (h.stopped hstopped).2⟩⟩
  | read hturn => exact invariant_turn h hturn

/-- **Run lemma**. -/
theorem invariant_run {actions : List Action} :
    ∀ {s s' : State}, Invariant s → run actions s = some s' → Invariant s' := by
  induction actions with
  | nil =>
    intro s s' h hrun
    cases hrun
    exact h
  | cons action actions ih =>
    intro s s' h hrun
    obtain ⟨next, hstep, hrest⟩ := Option.bind_eq_some_iff.mp hrun
    exact ih (invariant_step h hstep) hrest

/-! ### The reader stops -/

/-- The output is over: the worker has exited, its sentinel is sent, or its end of the pipe is
closed, and nothing waits to become visible. -/
def Over (s : State) : Prop :=
  s.channel.buffered = [] ∧
    (s.exited = true ∨ s.sentinelSent = true ∨
      (s.channel.transport = .pipe ∧ s.channel.closed = true))

/-- How many turns the reader may still take once the output is over. -/
def turnsLeft (s : State) : Nat :=
  4 * s.channel.inFlight.length +
    match s.reader with
    | .polling => 3
    | .checking => if s.exited then 2 else 4
    | .draining => 1
    | .stopped => 0

theorem stopped_of_turnsLeft {s : State} (h : turnsLeft s = 0) : s.reader = .stopped := by
  cases hreader : s.reader with
  | polling =>
    simp only [turnsLeft, hreader] at h
    omega
  | checking =>
    simp only [turnsLeft, hreader] at h
    by_cases hexited : s.exited = true
    · rw [if_pos hexited] at h
      omega
    · rw [if_neg hexited] at h
      omega
  | draining =>
    simp only [turnsLeft, hreader] at h
    omega
  | stopped => rfl

/-- **Step lemma**: a turn of the reader brings it closer to the end. -/
theorem turnsLeft_read {s : State} (h : Invariant s) (hover : Over s)
    (hreader : s.reader ≠ .stopped) : turnsLeft (read s) < turnsLeft s := by
  have hturn := turn_read s
  generalize read s = s' at hturn ⊢
  cases hturn with
  | chunk hflight hloop =>
    simp only [turnsLeft, hflight, List.length_cons]
    rcases hloop with hpolling | hdraining
    · rw [hpolling]
      omega
    · rw [hdraining]
      omega
  | sentinel hflight hloop =>
    simp only [turnsLeft, hflight, List.length_cons]
    omega
  | pipeEnd hpolling =>
    simp only [turnsLeft, hpolling]
    omega
  | timeout hpolling hflight hend =>
    -- a poll finds nothing only after the exit: the sentinel would be there
    have hexited : s.exited = true := by
      rcases hover.2 with hexited | hsent | hclosed
      · exact hexited
      · rcases (h.sentinelReceived hsent).2 with hmem | hwhere | hwhere
        · have hnothing : s.channel.pending = [] := by
            show s.channel.inFlight ++ s.channel.buffered = []
            rw [hflight, hover.1]
            rfl
          rw [hnothing] at hmem
          cases hmem
        · cases hpolling.symm.trans hwhere
        · cases hpolling.symm.trans hwhere
      · exact absurd hclosed hend
    simp only [turnsLeft, hpolling, hexited, if_true]
    omega
  | check hchecking =>
    cases hexited : s.exited with
    | true =>
      simp only [turnsLeft, hchecking, hexited, if_true]
      omega
    | false =>
      simp only [turnsLeft, hchecking, hexited, Bool.false_eq_true, if_false]
      omega
  | drained hdraining =>
    simp only [turnsLeft, hdraining]
    omega
  | stopped hstopped => exact absurd hstopped hreader

/-- The number of turns the reader takes. -/
def reads (actions : List Action) : Nat := actions.count .read

/-- Once the output is over, the worker can only close and exit. -/
theorem over_step {s s' : State} {action : Action} (h : Invariant s) (hover : Over s)
    (haction : action ≠ .read) (hstep : step s action = some s') :
    Over s' ∧ turnsLeft s' ≤ turnsLeft s := by
  -- the worker has ended, so it sends nothing more
  have hended : s.ended = true := by
    rcases hover.2 with hexited | hsent | ⟨-, hclosed⟩
    · exact (h.closed (h.exited hexited)).2
    · exact (h.sentinelReceived hsent).1
    · exact (h.closed hclosed).2
  cases moves_step hstep with
  | send hsends => cases hended.symm.trans hsends
  | sendSentinel hsends => cases hended.symm.trans hsends
  | flush hbuffered => cases hover.1.symm.trans hbuffered
  | close =>
    refine ⟨⟨hover.1, ?_⟩, Nat.le_refl _⟩
    rcases hover.2 with hexited | hsent | ⟨hpipe, -⟩
    · exact Or.inl hexited
    · exact Or.inr (Or.inl hsent)
    · exact Or.inr (Or.inr ⟨hpipe, rfl⟩)
  | exit =>
    refine ⟨⟨hover.1, Or.inl rfl⟩, ?_⟩
    cases hreader : s.reader with
    | polling => simp only [turnsLeft, hreader, Nat.le_refl]
    | checking =>
      simp only [turnsLeft, hreader, if_true]
      by_cases hexited : s.exited = true
      · rw [if_pos hexited]
      · rw [if_neg hexited]
        omega
    | draining => simp only [turnsLeft, hreader, Nat.le_refl]
    | stopped => simp only [turnsLeft, hreader, Nat.le_refl]
  | read => exact absurd rfl haction

theorem read_of_stopped {s : State} (h : s.reader = .stopped) : read s = s := by
  rw [read, h]

/-- The reader never leaves a worker whose output is over. -/
theorem over_read {s : State} (hover : Over s) : Over (read s) := by
  have hturn := turn_read s
  generalize read s = s' at hturn ⊢
  cases hturn <;> exact hover

/-- What the worker does leaves a reader that has stopped alone. -/
theorem stopped_step {s s' : State} {action : Action} (hstopped : s.reader = .stopped)
    (hstep : step s action = some s') : s'.reader = .stopped := by
  by_cases haction : action = .read
  · subst haction
    rw [step, read_of_stopped hstopped] at hstep
    cases hstep
    exact hstopped
  · cases moves_step hstep with
    | read => exact absurd rfl haction
    | _ => exact hstopped

theorem stopped_run {actions : List Action} :
    ∀ {s s' : State}, s.reader = .stopped → run actions s = some s' → s'.reader = .stopped := by
  induction actions with
  | nil =>
    intro s s' h hrun
    cases hrun
    exact h
  | cons action actions ih =>
    intro s s' h hrun
    obtain ⟨next, hstep, hrest⟩ := Option.bind_eq_some_iff.mp hrun
    exact ih (stopped_step h hstep) hrest

/-- **Run lemma**: however the turns fall, the reader has stopped, or each of its turns brought
it closer to that. -/
theorem stops_run {actions : List Action} :
    ∀ {s s' : State}, Invariant s → Over s → run actions s = some s' →
      s'.reader = .stopped ∨ turnsLeft s' + reads actions ≤ turnsLeft s := by
  induction actions with
  | nil =>
    intro s s' _ _ hrun
    cases hrun
    exact Or.inr (Nat.le_refl _)
  | cons action actions ih =>
    intro s s' h hover hrun
    by_cases hstopped : s.reader = .stopped
    · exact Or.inl (stopped_run hstopped hrun)
    · obtain ⟨next, hstep, hrest⟩ := Option.bind_eq_some_iff.mp hrun
      -- a turn of the reader brings it closer to its end; the other actions do not take it back
      by_cases haction : action = .read
      · subst haction
        have hnext : read s = next := Option.some.inj hstep
        subst hnext
        have hcloser := turnsLeft_read h hover hstopped
        rcases ih (invariant_turn h (turn_read _)) (over_read hover) hrest with hdone | hleft
        · exact Or.inl hdone
        · right
          have hcount : reads (.read :: actions) = reads actions + 1 := List.count_cons_self
          omega
      · obtain ⟨hover', hle⟩ := over_step h hover haction hstep
        rcases ih (invariant_step h hstep) hover' hrest with hdone | hleft
        · exact Or.inl hdone
        · right
          have hcount : reads (action :: actions) = reads actions :=
            List.count_cons_of_ne haction
          omega

/-- **The worker's log is complete**, for every order of turns: at any moment it holds the
first of the chunks sent, in order and once each; when the reader stops no more can be sent
and it holds them all; and once the output is over the reader does stop. -/
theorem log_complete (transport : Transport) {actions : List Action} {s : State}
    (hrun : run actions (State.start transport) = some s) :
    (∃ onTheWay, s.sent = s.log ++ onTheWay) ∧
      (s.reader = .stopped → s.log = s.sent ∧ s.ended = true) ∧
      (Over s → ∀ later s', run later s = some s' → turnsLeft s ≤ reads later →
        s'.reader = .stopped) := by
  have h := invariant_run (invariant_start transport) hrun
  refine ⟨⟨chunks s.channel.pending, h.accounted⟩, ?_, ?_⟩
  · intro hstopped
    obtain ⟨hended, hnothing⟩ := h.stopped hstopped
    refine ⟨?_, hended⟩
    have haccounted := h.accounted
    rw [hnothing, List.append_nil] at haccounted
    exact haccounted.symm
  · intro hover later s' hlater hturns
    rcases stops_run h hover hlater with hdone | hleft
    · exact hdone
    · exact stopped_of_turnsLeft (by omega)

/-- A worker that is killed after its only chunk, without a sentinel: the reader sees the exit
behind a poll that found nothing. -/
def killedAfterChunk : List Action :=
  [.read, .send "a".toList, .flush, .exit, .read, .read, .read]

theorem log_complete_killed :
    ∃ s, run killedAfterChunk (State.start .pipe) = some s ∧
      (∃ onTheWay, s.sent = s.log ++ onTheWay) ∧
      (s.reader = .stopped → s.log = s.sent ∧ s.ended = true) ∧
      (Over s → ∀ later s', run later s = some s' → turnsLeft s ≤ reads later →
        s'.reader = .stopped) :=
  ⟨_, rfl, @log_complete .pipe killedAfterChunk _ rfl⟩

end Forwarding

end KleeDeps.Experiments
