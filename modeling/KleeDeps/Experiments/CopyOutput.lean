import Mathlib.Logic.Function.Basic
import KleeDeps.Data.Runs
import KleeDeps.Py.Int
import KleeDeps.Py.Utf8

/-!
# The live output of the copies' workers

`write_worker_output` and `close_worker_stream` of `scripts/experiments/parallel_klee_copies.py`.
`drain_worker_streams` reads whatever a ready pipe holds, at most 4096 bytes; every chunk is
decoded by itself, appended to the log of its stream and cut into lines, the last of which waits
in a buffer. An empty chunk is the end of the stream.

- `invariant_run`: the log is the chunks decoded one by one, and what was emitted and buffered
  are the lines of the log;
- `lines_emitted`: **the lines emitted are those of the log**, however the output is read;
- `whole_output_iff`: **log and lines are those of the whole stream exactly when no read ends
  inside a unit of the decoder**.
-/

namespace KleeDeps.Experiments

namespace CopyOutput

open Py Py.Utf8 Runs

/-! ### Lines -/

section Lines

/-- The pieces of a text with more behind it: only the last one goes on. -/
theorem splitOn_append (c : Char) (s t : Text) :
    ∃ init last, s.splitOn c = init ++ [last] ∧
      (s ++ t).splitOn c = init ++ (last ++ t).splitOn c := by
  induction s with
  | nil => exact ⟨[], [], List.splitOn_nil c, rfl⟩
  | cons x s ih =>
    obtain ⟨init, last, hs, hst⟩ := ih
    rw [List.cons_append, List.splitOn_cons_eq_if_modifyHead,
      List.splitOn_cons_eq_if_modifyHead, hs, hst]
    by_cases hx : (x == c) = true
    · rw [if_pos hx, if_pos hx]
      exact ⟨[] :: init, last, rfl, rfl⟩
    · rw [if_neg hx, if_neg hx]
      cases init with
      | nil =>
        refine ⟨[], x :: last, rfl, ?_⟩
        rw [List.nil_append, List.nil_append, List.cons_append,
          List.splitOn_cons_eq_if_modifyHead, if_neg hx]
      | cons first init => exact ⟨(x :: first) :: init, last, rfl, rfl⟩

/-- The lines of a text: what stands between newlines, without an empty rest. -/
def textLines (text : Text) : List Text :=
  let pieces := text.splitOn '\n'
  if pieces.getLast? = some [] then pieces.dropLast else pieces

theorem textLines_of_splitOn {text last : Text} {init : List Text}
    (h : text.splitOn '\n' = init ++ [last]) :
    textLines text = if last = [] then init else init ++ [last] := by
  simp only [textLines, h, List.getLast?_concat, List.dropLast_concat, Option.some.injEq]

end Lines

/-! ### The program -/

/-- `stream_name` -/
inductive Stream where
  | stdout
  | stderr
  deriving DecidableEq

/-- What the output of a worker needs of `Worker`. -/
structure Worker where
  index : Nat
  /-- what was written to `stdout_handle` and `stderr_handle` -/
  log : Stream → Text
  streamBuffers : Stream → Text
  openStreams : Stream → Bool

/-- A line handed to `emit`, with the worker and the stream it is for. -/
structure Emitted where
  worker : Nat
  stream : Stream
  line : Text
  deriving DecidableEq

/-- `worker_prefix` -/
def workerPrefix (index : Nat) : Text := "[worker ".toList ++ decimal index ++ "]".toList

/-- The text `emit` prints. -/
def Emitted.message (e : Emitted) : Text := workerPrefix e.worker ++ ' ' :: e.line

/-- `emit` prints to `sys.stderr`. -/
def Emitted.error (e : Emitted) : Bool := e.stream = .stderr

def writeWorkerOutput (worker : Worker) (stream : Stream) (chunk : Bytes) :
    Worker × List Emitted :=
  let decoded := decode chunk
  let lines := (worker.streamBuffers stream ++ decoded).splitOn '\n'
  ({ worker with
      log := Function.update worker.log stream (worker.log stream ++ decoded)
      streamBuffers := Function.update worker.streamBuffers stream (lines.getLast?.getD []) },
    lines.dropLast.map (Emitted.mk worker.index stream))

def closeWorkerStream (worker : Worker) (stream : Stream) : Worker × List Emitted :=
  let remainder := worker.streamBuffers stream
  ({ worker with
      streamBuffers := Function.update worker.streamBuffers stream []
      openStreams := Function.update worker.openStreams stream false },
    (if remainder = [] then [] else [remainder]).map (Emitted.mk worker.index stream))

/-- The workers, and the lines emitted so far. -/
structure State where
  workers : Nat → Worker
  terminal : List Emitted

/-- All workers have been started. -/
def State.start : State where
  workers index :=
    { index := index, log := fun _ => [], streamBuffers := fun _ => []
      openStreams := fun _ => true }
  terminal := []

/-- What `os.read` returned for a ready stream. -/
structure Read where
  worker : Nat
  stream : Stream
  chunk : Bytes

/-- One key of `drain_worker_streams`; a closed stream is not registered any more. -/
def drain (r : Read) (s : State) : Option State :=
  let worker := s.workers r.worker
  if worker.openStreams r.stream = true ∧ r.chunk.length ≤ 4096 then
    let result := if r.chunk ≠ [] then writeWorkerOutput worker r.stream r.chunk
      else closeWorkerStream worker r.stream
    some { workers := Function.update s.workers r.worker result.1,
           terminal := s.terminal ++ result.2 }
  else none

/-- How the output of a stream was read. -/
def chunksOf (reads : List Read) (w : Nat) (stream : Stream) : List Bytes :=
  (reads.filter fun r => r.worker = w ∧ r.stream = stream).map Read.chunk

/-- The lines emitted for a stream. -/
def State.lines (s : State) (w : Nat) (stream : Stream) : List Text :=
  (s.terminal.filter fun e => e.worker = w ∧ e.stream = stream).map Emitted.line

/-! ### What a read does -/

@[simp] theorem chunksOf_nil (w : Nat) (stream : Stream) : chunksOf [] w stream = [] := rfl

theorem chunksOf_concat (reads : List Read) (r : Read) (w : Nat) (stream : Stream) :
    chunksOf (reads ++ [r]) w stream =
      chunksOf reads w stream ++ if r.worker = w ∧ r.stream = stream then [r.chunk] else [] := by
  rw [chunksOf, List.filter_append, List.map_append]
  refine congrArg (chunksOf reads w stream ++ ·) ?_
  by_cases h : r.worker = w ∧ r.stream = stream
  · rw [if_pos h, List.filter_cons, if_pos (decide_eq_true h)]
    rfl
  · rw [if_neg h, List.filter_cons, if_neg fun hd => h (of_decide_eq_true hd)]
    rfl

theorem lines_emit {s : State} {workers : Nat → Worker} {i : Nat} {st : Stream}
    (ls : List Text) (w : Nat) (stream : Stream) :
    State.lines ⟨workers, s.terminal ++ ls.map (Emitted.mk i st)⟩ w stream =
      s.lines w stream ++ if i = w ∧ st = stream then ls else [] := by
  rw [State.lines, List.filter_append, List.map_append, List.filter_map, List.map_map]
  refine congrArg (s.lines w stream ++ ·) ?_
  show List.map id (ls.filter fun _ => decide (i = w ∧ st = stream)) = _
  rw [List.map_id]
  by_cases h : i = w ∧ st = stream
  · rw [if_pos h, List.filter_eq_self.mpr fun _ _ => decide_eq_true h]
  · rw [if_neg h, List.filter_eq_nil_iff.mpr fun _ _ hd => h (of_decide_eq_true hd)]

/-- A read changes its own stream: the chunk is appended to the log, and to the lines and the
buffer what follows from it. -/
structure Drained (r : Read) (s s' : State) : Prop where
  wasOpen : (s.workers r.worker).openStreams r.stream = true
  index : ∀ w, (s'.workers w).index = (s.workers w).index
  frame : ∀ w stream, ¬ (r.worker = w ∧ r.stream = stream) →
    (s'.workers w).log stream = (s.workers w).log stream ∧
    (s'.workers w).streamBuffers stream = (s.workers w).streamBuffers stream ∧
    (s'.workers w).openStreams stream = (s.workers w).openStreams stream ∧
    s'.lines w stream = s.lines w stream
  log : (s'.workers r.worker).log r.stream =
    (s.workers r.worker).log r.stream ++ decode r.chunk
  lines :
    (s'.workers r.worker).openStreams r.stream = true ∧
      s'.lines r.worker r.stream ++ [(s'.workers r.worker).streamBuffers r.stream] =
        s.lines r.worker r.stream ++
          ((s.workers r.worker).streamBuffers r.stream ++ decode r.chunk).splitOn '\n' ∨
    (s'.workers r.worker).openStreams r.stream = false ∧ r.chunk = [] ∧
      s'.lines r.worker r.stream =
        s.lines r.worker r.stream ++
          if (s.workers r.worker).streamBuffers r.stream = [] then []
          else [(s.workers r.worker).streamBuffers r.stream]

/-- The new worker and the lines for its stream, put into the state. -/
theorem Drained.of_worker {r : Read} {s : State} {x : Worker} {ls : List Text}
    (hindex : ∀ w, (s.workers w).index = w)
    (hx : x.index = (s.workers r.worker).index)
    (hopen : (s.workers r.worker).openStreams r.stream = true)
    (hframe : ∀ stream, stream ≠ r.stream →
      x.log stream = (s.workers r.worker).log stream ∧
      x.streamBuffers stream = (s.workers r.worker).streamBuffers stream ∧
      x.openStreams stream = (s.workers r.worker).openStreams stream)
    (hlog : x.log r.stream = (s.workers r.worker).log r.stream ++ decode r.chunk)
    (hlines : x.openStreams r.stream = true ∧
        ls ++ [x.streamBuffers r.stream] =
          ((s.workers r.worker).streamBuffers r.stream ++ decode r.chunk).splitOn '\n' ∨
      x.openStreams r.stream = false ∧ r.chunk = [] ∧
        ls = if (s.workers r.worker).streamBuffers r.stream = [] then []
          else [(s.workers r.worker).streamBuffers r.stream]) :
    Drained r s ⟨Function.update s.workers r.worker x,
      s.terminal ++ ls.map (Emitted.mk (s.workers r.worker).index r.stream)⟩ := by
  have hself : (Function.update s.workers r.worker x) r.worker = x := Function.update_self ..
  have hls : State.lines ⟨Function.update s.workers r.worker x,
      s.terminal ++ ls.map (Emitted.mk (s.workers r.worker).index r.stream)⟩ r.worker r.stream =
      s.lines r.worker r.stream ++ ls := by
    rw [lines_emit, if_pos ⟨hindex r.worker, rfl⟩]
  constructor
  · exact hopen
  · intro w
    by_cases hw : w = r.worker
    · rw [hw]
      exact (congrArg Worker.index hself).trans hx
    · exact congrArg Worker.index (Function.update_of_ne hw ..)
  · intro w stream hne
    refine ⟨?_, ?_, ?_, ?_⟩
    rotate_right
    · rw [lines_emit, if_neg (by rwa [hindex]), List.append_nil]
    all_goals
      by_cases hw : w = r.worker
      · subst hw
        have hstream : stream ≠ r.stream := fun h => hne ⟨rfl, h.symm⟩
        obtain ⟨hl, hb, ho⟩ := hframe stream hstream
        simp only [Function.update_self, hl, hb, ho]
      · simp only [Function.update_of_ne hw]
  · dsimp only
    rw [hself]
    exact hlog
  · dsimp only
    rw [hself, hls]
    -- a chunk leaves its last line in the buffer; the end of the stream flushes it
    rcases hlines with ⟨ho, hl⟩ | ⟨ho, hchunk, hl⟩
    · exact .inl ⟨ho, by rw [List.append_assoc, hl]⟩
    · exact .inr ⟨ho, hchunk, by rw [hl]⟩

theorem drained_of_drain {r : Read} {s s' : State} (hindex : ∀ w, (s.workers w).index = w)
    (h : drain r s = some s') : Drained r s s' := by
  rw [drain] at h
  split at h
  · rename_i hopen
    obtain rfl := Option.some.inj h
    by_cases hchunk : r.chunk = []
    · rw [if_neg (not_not.mpr hchunk)]
      refine Drained.of_worker hindex rfl hopen.1 ?_ ?_ (.inr ⟨?_, hchunk, rfl⟩)
      · exact fun stream hne => ⟨rfl, Function.update_of_ne hne .., Function.update_of_ne hne ..⟩
      · rw [hchunk]
        exact (List.append_nil _).symm
      · exact Function.update_self ..
    · rw [if_pos hchunk]
      refine Drained.of_worker hindex rfl hopen.1 ?_ ?_ (.inl ⟨hopen.1, ?_⟩)
      · exact fun stream hne => ⟨Function.update_of_ne hne .., Function.update_of_ne hne .., rfl⟩
      · exact Function.update_self ..
      · obtain ⟨init, last, hsplit, -⟩ := splitOn_append '\n'
          ((s.workers r.worker).streamBuffers r.stream ++ decode r.chunk) []
        simp only [writeWorkerOutput, Function.update_self, hsplit, List.getLast?_concat,
          Option.getD_some, List.dropLast_concat]
  · cases h

/-! ### What holds after every read -/

structure Invariant (done : List Read) (s : State) : Prop where
  index : ∀ w, (s.workers w).index = w
  log : ∀ w stream, (s.workers w).log stream = (chunksOf done w stream).flatMap decode
  opened : ∀ w stream, (s.workers w).openStreams stream = true →
    s.lines w stream ++ [(s.workers w).streamBuffers stream] =
      ((s.workers w).log stream).splitOn '\n'
  closed : ∀ w stream, (s.workers w).openStreams stream = false →
    s.lines w stream = textLines ((s.workers w).log stream)

theorem invariant_start : Invariant [] State.start where
  index := fun _ => rfl
  log := fun _ _ => rfl
  opened := fun _ _ _ => rfl
  closed := fun _ _ h => by cases h

theorem Invariant.drain {done : List Read} {s s' : State} {r : Read} (hinv : Invariant done s)
    (h : drain r s = some s') : Invariant (done ++ [r]) s' := by
  have hdrained := drained_of_drain hinv.index h
  have hopened := hinv.opened _ _ hdrained.wasOpen
  constructor
  · exact fun w => (hdrained.index w).trans (hinv.index w)
  · intro w stream
    rw [chunksOf_concat, List.flatMap_append, ← hinv.log]
    by_cases hown : r.worker = w ∧ r.stream = stream
    · obtain ⟨rfl, rfl⟩ := hown
      rw [hdrained.log, if_pos ⟨rfl, rfl⟩, List.flatMap_singleton]
    · rw [(hdrained.frame w stream hown).1, if_neg hown]
      exact (List.append_nil _).symm
  · intro w stream hopen
    by_cases hown : r.worker = w ∧ r.stream = stream
    · obtain ⟨rfl, rfl⟩ := hown
      rcases hdrained.lines with ⟨-, hlines⟩ | ⟨hclosed, -⟩
      · obtain ⟨init, last, hsplit, happend⟩ := splitOn_append '\n'
          ((s.workers r.worker).log r.stream) (decode r.chunk)
        obtain ⟨hinit, hlast⟩ := List.append_inj' (hopened.trans hsplit) rfl
        rw [hlines, hdrained.log, happend, hinit, (List.cons.inj hlast).1]
      · cases hclosed.symm.trans hopen
    · obtain ⟨hl, hb, ho, hls⟩ := hdrained.frame w stream hown
      rw [hl, hb, hls]
      exact hinv.opened w stream (ho ▸ hopen)
  · intro w stream hclosed
    by_cases hown : r.worker = w ∧ r.stream = stream
    · obtain ⟨rfl, rfl⟩ := hown
      rcases hdrained.lines with ⟨hopen, -⟩ | ⟨-, hchunk, hlines⟩
      · cases hopen.symm.trans hclosed
      · -- the end of the stream: what was buffered is the last line, unless it is empty
        rw [hdrained.log, hchunk, show decode [] = [] from rfl, List.append_nil,
          textLines_of_splitOn hopened.symm, hlines]
        split
        · exact List.append_nil _
        · rfl
    · obtain ⟨hl, -, ho, hls⟩ := hdrained.frame w stream hown
      rw [hl, hls]
      exact hinv.closed w stream (ho ▸ hclosed)

theorem invariant_run {done reads : List Read} {s s' : State} (hinv : Invariant done s)
    (hrun : run CopyOutput.drain reads s = some s') : Invariant (done ++ reads) s' :=
  history_of_run (fun _ _ _ _ h hstep => h.drain hstep) hinv hrun

/-! ### The whole output -/

/-- Whatever the reads, the lines emitted for a stream are those of its log. -/
theorem lines_emitted {reads : List Read} {s : State}
    (hrun : run CopyOutput.drain reads State.start = some s) {w : Nat} {stream : Stream}
    (hclosed : (s.workers w).openStreams stream = false) :
    s.lines w stream = textLines ((s.workers w).log stream) :=
  (invariant_run invariant_start hrun).closed w stream hclosed

/-- The log holds the text of the whole stream, and at its end the lines of that text have been
emitted. -/
def WholeOutput (reads : List Read) (s : State) (w : Nat) (stream : Stream) : Prop :=
  (s.workers w).log stream = decode (chunksOf reads w stream).flatten ∧
    ((s.workers w).openStreams stream = false →
      s.lines w stream = textLines (decode (chunksOf reads w stream).flatten))

instance (reads : List Read) (s : State) (w : Nat) (stream : Stream) :
    Decidable (WholeOutput reads s w stream) := inferInstanceAs (Decidable (_ ∧ _))

/-- **Log and lines are those of the whole stream exactly when no read ends inside a unit.** -/
theorem whole_output_iff {reads : List Read} {s : State}
    (hrun : run CopyOutput.drain reads State.start = some s) (w : Nat) (stream : Stream) :
    WholeOutput reads s w stream ↔ CutsBetweenUnits (chunksOf reads w stream) := by
  have hinv := invariant_run invariant_start hrun
  have hlog : (s.workers w).log stream = (chunksOf reads w stream).flatMap decode :=
    hinv.log w stream
  rw [← flatMap_decode_iff, ← hlog]
  constructor
  · exact fun h => h.1
  · intro h
    refine ⟨h, fun hclosed => ?_⟩
    rw [← h]
    exact lines_emitted hrun hclosed

/-- An `é` that arrives in two reads. -/
def splitReads : List Read :=
  [⟨0, .stdout, [0xC3]⟩, ⟨0, .stdout, [0xA9]⟩, ⟨0, .stdout, []⟩]

theorem whole_output_iff_splitReads :
    ∃ s, run CopyOutput.drain splitReads State.start = some s ∧
      (WholeOutput splitReads s 0 .stdout ↔ CutsBetweenUnits (chunksOf splitReads 0 .stdout)) :=
  ⟨_, rfl, whole_output_iff rfl 0 .stdout⟩

/-- The two halves are logged as two replacement characters. -/
theorem splitReads_not_whole :
    ∃ s, run CopyOutput.drain splitReads State.start = some s ∧
      (s.workers 0).log .stdout = [replacement, replacement] ∧
      decode (chunksOf splitReads 0 .stdout).flatten = ['é'] ∧
      ¬ WholeOutput splitReads s 0 .stdout :=
  ⟨_, rfl, by decide, by decide, by decide⟩

end CopyOutput

end KleeDeps.Experiments
