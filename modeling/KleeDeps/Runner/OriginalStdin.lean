import Mathlib.Algebra.BigOperators.Group.List.Basic
import Mathlib.Algebra.Ring.Nat
import Mathlib.Data.List.Forall2
import Mathlib.Data.Nat.Basic
import Mathlib.Order.Lattice

/-!
# The input of an original program as a stream

`original_stdin_runner.h`: the wrappers of the benchmarks install their input buffers as
segments, and the original program reads them through `runner_io_read` in place of `read`. The
place in the input is an index and an offset that outlive the calls.

- `Io.rest`: what has not been read yet;
- `readLoop_spec`: the loop ends and delivers the next bytes of it;
- `reads_faithful`: **any sequence of calls delivers the segments, each byte once, and reports
  exactly the reads past the end and the wrong descriptors**.
-/

namespace KleeDeps.Runner

namespace Stdin

abbrev Bytes := List UInt8

/-- `PTRDIFF_MAX`, which is `SSIZE_MAX`: no object in memory is larger. -/
def ssizeMax : Nat := 2 ^ 63 - 1

/-- `runner_input_segment`: at least `size` bytes are at `data`. -/
structure Segment where
  data : Bytes
  size : Nat
  readable : size ≤ data.length
  bounded : data.length ≤ ssizeMax

def Segment.bytes (segment : Segment) : Bytes := segment.data.take segment.size

/-- The variables of the header. -/
structure Io where
  segments : List Segment
  segmentIndex : Nat
  segmentOffset : Nat
  failed : Int

/-- `runner_io_reset` -/
def reset (segments : List Segment) : Io where
  segments := segments
  segmentIndex := 0
  segmentOffset := 0
  failed := 0

/-- `runner_io_status` -/
def status (io : Io) : Int := io.failed

/-- A difference of type `size_t`. -/
def sizeSub (a b : Nat) : Nat := (a + 2 ^ 64 - b) % 2 ^ 64

/-- The cast to `ssize_t`. -/
def toSsize (n : Nat) : Int := if n ≤ ssizeMax then n else n - 2 ^ 64

/-- The variables of `runner_io_read`; `delivered` are the bytes between `buf` and `dst`. -/
structure Cursor where
  io : Io
  remaining : Nat
  delivered : Bytes

/-- One pass through the body of the loop. -/
def readStep (c : Cursor) (segment : Segment) : Cursor :=
  let available := sizeSub segment.size c.io.segmentOffset
  let chunk := if available < c.remaining then available else c.remaining
  let offset := c.io.segmentOffset + chunk
  { io := if offset = segment.size then
        { c.io with segmentIndex := c.io.segmentIndex + 1, segmentOffset := 0 }
      else { c.io with segmentOffset := offset }
    remaining := c.remaining - chunk
    delivered := c.delivered ++ (segment.data.drop c.io.segmentOffset).take chunk }

/-- The test of the loop: the segment of the next pass, if there is one. -/
def Cursor.current (c : Cursor) : Option Segment :=
  if c.remaining > 0 then c.io.segments[c.io.segmentIndex]? else none

/-- The loop, with at most `fuel` passes. -/
def readLoop : Nat → Cursor → Option Cursor
  | 0, c => if c.current.isNone then some c else none
  | fuel + 1, c =>
    match c.current with
    | none => some c
    | some segment => readLoop fuel (readStep c segment)

/-- What a call gives back: its value and what it wrote to the buffer. -/
structure Result where
  returned : Int
  delivered : Bytes

/-- `runner_io_read` into a buffer of `count` bytes -/
def ioRead (fuel : Nat) (io : Io) (fd : Int) (count : Nat) : Option (Result × Io) :=
  if fd ≠ 0 then some (⟨-1, []⟩, { io with failed := 1 })
  else
    (readLoop fuel ⟨io, count, []⟩).map fun c =>
      if c.remaining ≠ 0 then
        (⟨toSsize count, c.delivered ++ List.replicate c.remaining 0⟩, { c.io with failed := 1 })
      else (⟨toSsize count, c.delivered⟩, c.io)

/-- `runner_io_write` -/
def ioWrite (io : Io) (fd : Int) (count : Nat) : Result × Io :=
  if fd ≠ 1 then (⟨-1, []⟩, { io with failed := 1 })
  else (⟨toSsize count, []⟩, io)

/-- A call of the original program; its buffer of `count` bytes is an object in memory. -/
inductive Call where
  | read (fd : Int) (count : Nat) (bounded : count ≤ ssizeMax)
  | write (fd : Int) (count : Nat) (bounded : count ≤ ssizeMax)

def call (fuel : Nat) (io : Io) : Call → Option (Result × Io)
  | .read fd count _ => ioRead fuel io fd count
  | .write fd count _ => some (ioWrite io fd count)

/-- The calls of the original program, one after the other. -/
def calls (fuel : Nat) (io : Io) : List Call → Option (List Result × Io)
  | [] => some ([], io)
  | c :: cs => do
    let (result, io) ← call fuel io c
    let (results, io) ← calls fuel io cs
    return (result :: results, io)

/-! ### What is left to read -/

/-- The bytes of the segments behind the place reached. -/
def Io.rest (io : Io) : Bytes :=
  ((io.segments.drop io.segmentIndex).flatMap Segment.bytes).drop io.segmentOffset

/-- The place reached is in the segment, or at its end. -/
def Io.Placed (io : Io) : Prop :=
  ∀ segment, io.segments[io.segmentIndex]? = some segment → io.segmentOffset ≤ segment.size

theorem length_bytes (segment : Segment) : segment.bytes.length = segment.size :=
  List.length_take_of_le segment.readable

theorem sizeSub_of_le {a b : Nat} (hb : b ≤ a) (ha : a ≤ ssizeMax) : sizeSub a b = a - b := by
  rw [sizeSub, show a + 2 ^ 64 - b = (a - b) + 2 ^ 64 by omega, Nat.add_mod_right]
  apply Nat.mod_eq_of_lt
  have : ssizeMax < 2 ^ 64 := by decide
  omega

theorem toSsize_of_le {n : Nat} (h : n ≤ ssizeMax) : toSsize n = n := if_pos h

theorem rest_reset (segments : List Segment) :
    (reset segments).rest = segments.flatMap Segment.bytes := rfl

theorem placed_reset (segments : List Segment) : (reset segments).Placed :=
  fun _ _ => Nat.zero_le _

/-- Behind the last segment nothing is left. -/
theorem rest_of_none {io : Io} (h : io.segments[io.segmentIndex]? = none) : io.rest = [] := by
  rw [Io.rest, List.drop_eq_nil_of_le (List.getElem?_eq_none_iff.mp h)]
  exact List.drop_nil

/-- The rest is that of the segment, and the segments behind it. -/
theorem rest_of_some {io : Io} {segment : Segment} (hplaced : io.Placed)
    (h : io.segments[io.segmentIndex]? = some segment) :
    io.rest = (segment.data.drop io.segmentOffset).take (segment.size - io.segmentOffset) ++
      (io.segments.drop (io.segmentIndex + 1)).flatMap Segment.bytes := by
  obtain ⟨hlt, rfl⟩ := List.getElem?_eq_some_iff.mp h
  have hle := hplaced _ h
  rw [Io.rest, List.drop_eq_getElem_cons hlt, List.flatMap_cons,
    List.drop_append_of_le_length (by rw [length_bytes]; exact hle), Segment.bytes,
    List.drop_take]

/-! ### The loop -/

/-- `c'` has delivered the next bytes of what was left at `c`. -/
structure Delivers (c c' : Cursor) : Prop where
  segments : c'.io.segments = c.io.segments
  failed : c'.io.failed = c.io.failed
  placed : c'.io.Placed
  next : ∃ n, c.remaining = c'.remaining + n ∧ n ≤ c.io.rest.length ∧
    c'.delivered = c.delivered ++ c.io.rest.take n ∧ c'.io.rest = c.io.rest.drop n

theorem Delivers.refl {c : Cursor} (h : c.io.Placed) : Delivers c c :=
  ⟨rfl, rfl, h, 0, rfl, Nat.zero_le _, (List.append_nil _).symm, rfl⟩

theorem Delivers.trans {c d e : Cursor} (h : Delivers c d) (h' : Delivers d e) :
    Delivers c e := by
  obtain ⟨m, hm, hmle, hmd, hmr⟩ := h.next
  obtain ⟨n, hn, hnle, hnd, hnr⟩ := h'.next
  refine ⟨h'.segments.trans h.segments, h'.failed.trans h.failed, h'.placed, m + n, ?_, ?_, ?_, ?_⟩
  · omega
  · rw [hmr, List.length_drop] at hnle
    omega
  · rw [hnd, hmd, hmr, List.append_assoc, ← List.take_add]
  · rw [hnr, hmr, List.drop_drop]

/-- A pass delivers the rest of its segment, or all that was asked for. -/
theorem readStep_spec {c : Cursor} {segment : Segment} (hplaced : c.io.Placed)
    (h : c.io.segments[c.io.segmentIndex]? = some segment) :
    Delivers c (readStep c segment) ∧
      ((readStep c segment).io.segmentIndex = c.io.segmentIndex + 1 ∨
        (readStep c segment).remaining = 0) := by
  have hle := hplaced segment h
  have hsize : segment.size ≤ ssizeMax := Nat.le_trans segment.readable segment.bounded
  obtain ⟨chunk, hchunk⟩ : ∃ chunk, chunk =
      if segment.size - c.io.segmentOffset < c.remaining then segment.size - c.io.segmentOffset
      else c.remaining := ⟨_, rfl⟩
  have hbound : chunk ≤ segment.size - c.io.segmentOffset ∧ chunk ≤ c.remaining ∧
      (chunk = segment.size - c.io.segmentOffset ∨ chunk = c.remaining) := by
    split at hchunk <;> omega
  have hrest := rest_of_some hplaced h
  have hlength : ((segment.data.drop c.io.segmentOffset).take
      (segment.size - c.io.segmentOffset)).length = segment.size - c.io.segmentOffset := by
    have := segment.readable
    rw [List.length_take, List.length_drop]
    omega
  have htake : c.io.rest.take chunk = (segment.data.drop c.io.segmentOffset).take chunk := by
    rw [hrest, List.take_append_of_le_length (by omega), List.take_take, Nat.min_eq_left hbound.1]
  have hfits : chunk ≤ c.io.rest.length := by
    rw [hrest, List.length_append]
    omega
  rw [readStep]
  simp only [sizeSub_of_le hle hsize, ← hchunk]
  by_cases hend : c.io.segmentOffset + chunk = segment.size
  · rw [if_pos hend]
    refine ⟨⟨rfl, rfl, fun _ _ => Nat.zero_le _, chunk, ?_, hfits, ?_, ?_⟩, .inl rfl⟩
    · show c.remaining = c.remaining - chunk + chunk
      omega
    · rw [htake]
    · -- the segment has been delivered whole
      have hchunk' : segment.size - c.io.segmentOffset = chunk := by omega
      rw [hrest]
      exact (List.drop_left' (hlength.trans hchunk')).symm
  · rw [if_neg hend]
    have hplaced' : ({ c.io with segmentOffset := c.io.segmentOffset + chunk } : Io).Placed := by
      intro segment' h'
      obtain rfl := Option.some.inj (h.symm.trans h')
      show c.io.segmentOffset + chunk ≤ segment.size
      omega
    refine ⟨⟨rfl, rfl, hplaced', chunk, ?_, hfits, ?_, ?_⟩, .inr ?_⟩
    · show c.remaining = c.remaining - chunk + chunk
      omega
    · rw [htake]
    · rw [@rest_of_some _ segment hplaced' h, hrest,
        List.drop_append_of_le_length (by omega), List.drop_take, List.drop_drop, Nat.sub_add_eq]
    · show c.remaining - chunk = 0
      omega

theorem readLoop_of_none {c : Cursor} (h : c.current = none) (fuel : Nat) :
    readLoop fuel c = some c := by
  cases fuel with
  | zero => simp only [readLoop, h, Option.isNone_none, if_true]
  | succ fuel => simp only [readLoop, h]

/-- The loop stops when all has been delivered or nothing is left. -/
theorem current_eq_none_iff {c : Cursor} :
    c.current = none ↔ c.remaining = 0 ∨ c.io.segments[c.io.segmentIndex]? = none := by
  rw [Cursor.current]
  split
  · exact ⟨.inr, fun h => h.resolve_left (by omega)⟩
  · exact ⟨fun _ => .inl (by omega), fun _ => rfl⟩

theorem current_eq_some {c : Cursor} {segment : Segment} (h : c.current = some segment) :
    c.io.segments[c.io.segmentIndex]? = some segment := by
  rw [Cursor.current] at h
  split at h
  · exact h
  · cases h

/-- The loop ends, with everything delivered or nothing left. -/
theorem readLoop_spec {fuel : Nat} {c : Cursor} (hplaced : c.io.Placed)
    (hfuel : c.io.segments.length ≤ fuel + c.io.segmentIndex) :
    ∃ c', readLoop fuel c = some c' ∧ Delivers c c' ∧ (c'.remaining = 0 ∨ c'.io.rest = []) := by
  -- each pass that does not deliver all enters the next segment
  induction fuel generalizing c with
  | zero =>
    have hnone : c.io.segments[c.io.segmentIndex]? = none := by
      rw [List.getElem?_eq_none_iff]
      omega
    exact ⟨c, readLoop_of_none (current_eq_none_iff.mpr (.inr hnone)) 0, Delivers.refl hplaced,
      .inr (rest_of_none hnone)⟩
  | succ fuel ih =>
    cases h : c.current with
    | none =>
      exact ⟨c, readLoop_of_none h (fuel + 1), Delivers.refl hplaced,
        (current_eq_none_iff.mp h).imp_right rest_of_none⟩
    | some segment =>
      obtain ⟨hstep, hnext⟩ := readStep_spec hplaced (current_eq_some h)
      have hloop : readLoop (fuel + 1) c = readLoop fuel (readStep c segment) := by
        simp only [readLoop, h]
      rw [hloop]
      rcases hnext with hindex | hdone
      · have hfuel' : (readStep c segment).io.segments.length ≤
            fuel + (readStep c segment).io.segmentIndex := by
          rw [hstep.segments, hindex]
          omega
        obtain ⟨c', hc', hdelivers, hend⟩ := ih hstep.placed hfuel'
        exact ⟨c', hc', hstep.trans hdelivers, hend⟩
      · exact ⟨readStep c segment, readLoop_of_none (current_eq_none_iff.mpr (.inl hdone)) fuel,
          hstep, .inl hdone⟩

/-! ### One call -/

def Call.count : Call → Nat
  | .read _ count _ | .write _ count _ => count

def Call.wrongDescriptor : Call → Bool
  | .read fd .. => fd ≠ 0
  | .write fd .. => fd ≠ 1

/-- The bytes a call asks for on descriptor 0. -/
def Call.requested : Call → Nat
  | .read fd count _ => if fd = 0 then count else 0
  | .write .. => 0

/-- The value of a call is its count, and its bytes are the next ones; behind the last one there
are zeros. -/
structure Served (c : Call) (io : Io) (result : Result) (io' : Io) : Prop where
  returned : result.returned = if c.wrongDescriptor then -1 else (c.count : Int)
  delivered : result.delivered =
    io.rest.take c.requested ++ List.replicate (c.requested - io.rest.length) 0
  segments : io'.segments = io.segments
  placed : io'.Placed
  rest : io'.rest = io.rest.drop c.requested
  failed : io'.failed ≠ 0 ↔
    io.failed ≠ 0 ∨ io.rest.length < c.requested ∨ c.wrongDescriptor = true

/-- A call that moves nothing. -/
theorem Served.of_requested_eq_zero {c : Call} {io : Io} {failed : Int} {returned : Int}
    (hplaced : io.Placed) (hzero : c.requested = 0)
    (hreturned : returned = if c.wrongDescriptor then -1 else (c.count : Int))
    (hfailed : failed ≠ 0 ↔ io.failed ≠ 0 ∨ c.wrongDescriptor = true) :
    Served c io ⟨returned, []⟩ { io with failed := failed } where
  returned := hreturned
  delivered := by
    rw [hzero, Nat.zero_sub]
    rfl
  segments := rfl
  placed := hplaced
  rest := by
    rw [hzero]
    rfl
  failed := by
    rw [hzero, hfailed]
    exact or_congr_right ⟨.inr, fun h => h.resolve_left (Nat.not_lt_zero _)⟩

theorem served_wrong {c : Call} {io : Io} (hplaced : io.Placed) (hzero : c.requested = 0)
    (hwrong : c.wrongDescriptor = true) :
    Served c io ⟨-1, []⟩ { io with failed := 1 } :=
  Served.of_requested_eq_zero hplaced hzero (if_pos hwrong).symm
    ⟨fun _ => .inr hwrong, fun _ => Int.one_ne_zero⟩

theorem served_read {fuel : Nat} {io : Io} {count : Nat} (hcount : count ≤ ssizeMax)
    (hplaced : io.Placed) (hfuel : io.segments.length ≤ fuel) :
    ∃ result io', ioRead fuel io 0 count = some (result, io') ∧
      Served (.read 0 count hcount) io result io' := by
  obtain ⟨c, hloop, hdelivers, hend⟩ :=
    @readLoop_spec fuel ⟨io, count, []⟩ hplaced (by dsimp only; omega)
  obtain ⟨m, hm, hle, hdelivered, hrest⟩ := hdelivers.next
  dsimp only at hm hle hdelivered hrest
  have hleft : c.io.rest.length = io.rest.length - m := by rw [hrest, List.length_drop]
  -- nothing is missing, or all there was has been delivered
  have hmin : c.remaining = count - io.rest.length ∧ (c.remaining = 0 → m = count) ∧
      (c.remaining ≠ 0 → m = io.rest.length) := by
    rcases hend with hzero | hnil
    · omega
    · rw [hnil, List.length_nil] at hleft
      omega
  have htake : c.delivered = io.rest.take count := by
    rw [hdelivered, List.nil_append]
    by_cases hzero : c.remaining = 0
    · rw [hmin.2.1 hzero]
    · rw [hmin.2.2 hzero, List.take_length, List.take_of_length_le (by omega)]
  have hdrop : c.io.rest = io.rest.drop count := by
    rw [hrest]
    by_cases hzero : c.remaining = 0
    · rw [hmin.2.1 hzero]
    · rw [hmin.2.2 hzero, List.drop_length, List.drop_of_length_le (by omega)]
  have hreturned : toSsize count = (count : Int) := toSsize_of_le hcount
  have hresult : ioRead fuel io 0 count = some (if c.remaining ≠ 0 then
      (⟨toSsize count, c.delivered ++ List.replicate c.remaining 0⟩, { c.io with failed := 1 })
    else (⟨toSsize count, c.delivered⟩, c.io)) := by
    rw [ioRead, if_neg (by decide), hloop]
    rfl
  rw [hresult]
  by_cases hzero : c.remaining = 0
  · rw [if_neg (not_not.mpr hzero)]
    refine ⟨_, _, rfl, hreturned, ?_, hdelivers.segments, hdelivers.placed, hdrop, ?_⟩
    · show c.delivered = io.rest.take count ++ List.replicate (count - io.rest.length) 0
      rw [htake, ← hmin.1, hzero]
      exact (List.append_nil _).symm
    · rw [hdelivers.failed]
      refine ⟨.inl, fun h => h.resolve_right fun hmore => ?_⟩
      rcases hmore with hlt | hwrong
      · have hlt : io.rest.length < count := hlt
        omega
      · cases hwrong
  · rw [if_pos hzero]
    refine ⟨_, _, rfl, hreturned, ?_, hdelivers.segments, hdelivers.placed, hdrop, ?_⟩
    · show c.delivered ++ _ = io.rest.take count ++ List.replicate (count - io.rest.length) 0
      rw [htake, hmin.1]
    · refine ⟨fun _ => .inr (.inl ?_), fun _ => Int.one_ne_zero⟩
      show io.rest.length < count
      omega

theorem call_served {fuel : Nat} {io : Io} (c : Call) (hplaced : io.Placed)
    (hfuel : io.segments.length ≤ fuel) :
    ∃ result io', call fuel io c = some (result, io') ∧ Served c io result io' := by
  cases c with
  | read fd count hcount =>
    by_cases hfd : fd = 0
    · subst hfd
      exact served_read hcount hplaced hfuel
    · exact ⟨_, _, if_pos hfd, served_wrong hplaced (if_neg hfd) (decide_eq_true hfd)⟩
  | write fd count hcount =>
    by_cases hfd : fd = 1
    · have hright : (Call.write fd count hcount).wrongDescriptor = false :=
        decide_eq_false (not_not.mpr hfd)
      refine ⟨_, _, congrArg some (if_neg (not_not.mpr hfd)), ?_⟩
      refine Served.of_requested_eq_zero hplaced rfl ?_ ⟨.inl, fun h => h.resolve_right ?_⟩
      · rw [hright]
        exact toSsize_of_le hcount
      · rw [hright]
        exact Bool.false_ne_true
    · exact ⟨_, _, congrArg some (if_pos hfd), served_wrong hplaced rfl (decide_eq_true hfd)⟩

/-! ### All calls -/

/-- The bytes asked for by all calls. -/
def requested (cs : List Call) : Nat := (cs.map Call.requested).sum

/-- What is left at any time is what follows the bytes asked for so far. -/
theorem calls_served {fuel : Nat} {io : Io} (cs : List Call) (hplaced : io.Placed)
    (hfuel : io.segments.length ≤ fuel) :
    ∃ results io', calls fuel io cs = some (results, io') ∧
      List.Forall₂ (fun c result =>
        result.returned = (if c.wrongDescriptor then -1 else (c.count : Int)) ∧
        result.delivered.length = c.requested) cs results ∧
      results.flatMap Result.delivered =
        io.rest.take (requested cs) ++ List.replicate (requested cs - io.rest.length) 0 ∧
      (status io' ≠ 0 ↔ io.failed ≠ 0 ∨ io.rest.length < requested cs ∨
        ∃ c ∈ cs, c.wrongDescriptor = true) := by
  induction cs generalizing io with
  | nil =>
    refine ⟨[], io, rfl, .nil, ?_, ?_⟩
    · rw [show requested [] = 0 from rfl, Nat.zero_sub]
      rfl
    · refine ⟨.inl, fun h => h.resolve_right fun hmore => ?_⟩
      rcases hmore with hlt | ⟨c, hc, -⟩
      · exact Nat.not_lt_zero _ hlt
      · exact List.not_mem_nil hc
  | cons c cs ih =>
    obtain ⟨result, io₁, hcall, h⟩ := call_served c hplaced hfuel
    obtain ⟨results, io₂, hcalls, hreturned, hdelivered, hfailed⟩ :=
      ih h.placed (h.segments.symm ▸ hfuel)
    have htotal : requested (c :: cs) = c.requested + requested cs := by
      rw [requested, List.map_cons, List.sum_cons]
      rfl
    have hleft : io₁.rest.length = io.rest.length - c.requested := by
      rw [h.rest, List.length_drop]
    refine ⟨result :: results, io₂, ?_, .cons ⟨h.returned, ?_⟩ hreturned, ?_, ?_⟩
    · rw [calls, hcall]
      simp only [Option.bind_eq_bind, Option.bind_some, hcalls, Option.pure_def]
    · rw [h.delivered, List.length_append, List.length_take, List.length_replicate]
      omega
    · rw [List.flatMap_cons, h.delivered, hdelivered, htotal, h.rest, List.take_add]
      by_cases hmore : c.requested ≤ io.rest.length
      · rw [Nat.sub_eq_zero_of_le hmore, List.length_drop, List.replicate_zero, List.append_nil,
          List.append_assoc, Nat.sub_sub_right _ hmore, Nat.add_comm]
      · -- nothing was left for the later calls
        have hnil : io.rest.drop c.requested = [] := List.drop_of_length_le (by omega)
        rw [hnil, List.take_nil, List.nil_append, List.append_nil, List.append_assoc,
          List.length_nil, ← List.replicate_add]
        congr 2
        omega
    · rw [hfailed, h.failed, htotal, hleft]
      constructor
      · rintro ((hold | hlt | hwrong) | hlt | ⟨d, hd, hwrong⟩)
        · exact .inl hold
        · exact .inr (.inl (by omega))
        · exact .inr (.inr ⟨c, List.mem_cons_self, hwrong⟩)
        · exact .inr (.inl (by omega))
        · exact .inr (.inr ⟨d, List.mem_cons_of_mem c hd, hwrong⟩)
      · rintro (hold | hlt | ⟨d, hd, hwrong⟩)
        · exact .inl (.inl hold)
        · by_cases hmore : c.requested ≤ io.rest.length
          · exact .inr (.inl (by omega))
          · exact .inl (.inr (.inl (by omega)))
        · rcases List.mem_cons.mp hd with rfl | hd
          · exact .inl (.inr (.inr hwrong))
          · exact .inr (.inr ⟨d, hd, hwrong⟩)

/-- **The calls read the segments as one stream**: every call returns, its value is its count, the
bytes delivered are those of the segments in order, each once, and zeros behind them; the status
tells whether there were zeros or wrong descriptors. -/
theorem reads_faithful {fuel : Nat} (segments : List Segment) (cs : List Call)
    (hfuel : segments.length ≤ fuel) :
    ∃ results io, calls fuel (reset segments) cs = some (results, io) ∧
      List.Forall₂ (fun c result =>
        result.returned = (if c.wrongDescriptor then -1 else (c.count : Int)) ∧
        result.delivered.length = c.requested) cs results ∧
      results.flatMap Result.delivered =
        (segments.flatMap Segment.bytes).take (requested cs) ++
          List.replicate (requested cs - (segments.flatMap Segment.bytes).length) 0 ∧
      (status io ≠ 0 ↔ (segments.flatMap Segment.bytes).length < requested cs ∨
        ∃ c ∈ cs, c.wrongDescriptor = true) := by
  obtain ⟨results, io, hcalls, hreturned, hdelivered, hfailed⟩ :=
    calls_served cs (placed_reset segments) hfuel
  rw [rest_reset] at hdelivered hfailed
  refine ⟨results, io, hcalls, hreturned, hdelivered, hfailed.trans ?_⟩
  exact ⟨fun h => h.resolve_left (fun hne => hne rfl), .inr⟩

/-- Two empty segments, and a read that ends inside the second one of the others. -/
theorem reads_faithful_emptySegments :
    ∃ results io,
      calls 4 (reset [⟨[], 0, by decide, by decide⟩, ⟨[1, 2], 2, by decide, by decide⟩,
        ⟨[], 0, by decide, by decide⟩, ⟨[3, 4], 2, by decide, by decide⟩])
        [.read 0 3 (by decide), .read 0 2 (by decide)] = some (results, io) ∧
      results.flatMap Result.delivered = [1, 2, 3, 4, 0] ∧ status io ≠ 0 := by
  obtain ⟨results, io, hcalls, -, hdelivered, hfailed⟩ :=
    @reads_faithful 4 [⟨[], 0, by decide, by decide⟩, ⟨[1, 2], 2, by decide, by decide⟩,
      ⟨[], 0, by decide, by decide⟩, ⟨[3, 4], 2, by decide, by decide⟩]
      [.read 0 3 (by decide), .read 0 2 (by decide)] (by decide)
  exact ⟨results, io, hcalls, hdelivered, hfailed.mpr (.inl (by decide))⟩

end Stdin

end KleeDeps.Runner
