import KleeDeps.LoopLimiter.Function

/-!
# Executions

An execution is a sequence of blocks, each entered from the one before, which its PHIs ask for.
The source instructions act on a memory that holds everything but the counters and the results
of the bound checks; what they do is a parameter (`Semantics`). The call of `klee_silent_exit`
ends the path.

- `Path`: the blocks executed so far (the last one first), the block to come and the state;
- `track`: what a list of instructions does to one counter, read off those that touch it
  (`track_onCounter`);
- `backEdges`, `visits`: what happened since the last execution of a preheader;
- `Straight`: the latches of a loop lead to its header only.
-/

namespace KleeDeps.LoopLimiter

/-- The source instructions, conditions, other terminators (which successor they take, if the
function goes on) and the assignments of PHIs. -/
structure Semantics (I V σ : Type*) where
  exec : I → σ → σ → Prop
  truth : V → σ → Bool
  pick : I → σ → Option Nat
  assign : List (V × V) → σ → σ
  assign_nil : ∀ memory, assign [] memory = memory

structure State (σ : Type*) where
  memory : σ
  counter : Nat → BitVec 32
  /-- the last `bound.check` of each counter -/
  bound : Nat → Bool

variable {ι I V σ : Type*}

def Cond.truth (sem : Semantics I V σ) (s : State σ) : Cond V → Bool
  | original v => sem.truth v s.memory
  | bound k => s.bound k
  | exitOrBound c k => c.truth sem s || s.bound k
  | stayAndNotBound c k => c.truth sem s && !s.bound k

/-- One instruction; after `silentExit` nothing follows. -/
inductive Executes (sem : Semantics I V σ) (s : State σ) : Inst I → State σ → Prop
  | original {i : I} {memory : σ} (h : sem.exec i s.memory memory) :
      Executes sem s (.original i) { s with memory := memory }
  | storeZero {k : Nat} :
      Executes sem s (.storeZero k)
        { s with counter := fun j => if j = k then 0 else s.counter j }
  | boundCheck {k : Nat} {limit : BitVec 32} :
      Executes sem s (.boundCheck k limit)
        { s with bound := fun j => if j = k then limit.sle (s.counter k) else s.bound j }
  | increment {k : Nat} :
      Executes sem s (.increment k)
        { s with counter := fun j => if j = k then s.counter k + 1 else s.counter j }

inductive Runs (sem : Semantics I V σ) : List (Inst I) → State σ → State σ → Prop
  | nil {s : State σ} : Runs sem [] s s
  | cons {i : Inst I} {is : List (Inst I)} {s t u : State σ} (h : Executes sem s i t)
      (hs : Runs sem is t u) : Runs sem (i :: is) s u

/-- The terminator goes on to a block. -/
def Goes (sem : Semantics I V σ) (s : State σ) (v : Label ι) : Terminator ι I V → Prop
  | .br target => v = target
  | .condBr c ifTrue ifFalse => v = if c.truth sem s then ifTrue else ifFalse
  | .other i _ targets => ∃ n, sem.pick i s.memory = some n ∧ targets[n]? = some v
  | .unreachable => False

/-- What the PHIs of a block take from the block before. -/
def incomingValues [DecidableEq ι] (prev : Option (Label ι)) (phis : List (Phi ι V)) :
    Option (List (V × V)) :=
  phis.mapM fun phi => prev.bind fun u =>
    (phi.incoming.find? fun p => p.1 = u).map fun p => (phi.result, p.2)

/-- An execution up to the entry of a block. -/
inductive Path [DecidableEq ι] (sem : Semantics I V σ) (f : Func ι I V) (s₀ : State σ) :
    List (Label ι) → Label ι → State σ → Prop
  | start : Path sem f s₀ [] f.entry s₀
  | step {path : List (Label ι)} {u v : Label ι} {s t : State σ} {b : Block ι I V}
      {values : List (V × V)} (h : Path sem f s₀ path u s) (hblock : f.block u = some b)
      (hphis : incomingValues path.head? b.phis = some values)
      (hruns : Runs sem b.insts { s with memory := sem.assign values s.memory } t)
      (hgoes : Goes sem t v b.terminator) : Path sem f s₀ (u :: path) v t

theorem goes_mem_targets {sem : Semantics I V σ} {s : State σ} {v : Label ι}
    {t : Terminator ι I V} (h : Goes sem s v t) : v ∈ t.targets := by
  cases t with
  | br target => exact List.mem_singleton.mpr h
  | condBr c ifTrue ifFalse =>
    rw [show v = _ from h]
    split
    · exact List.mem_cons_self
    · exact List.mem_cons_of_mem _ List.mem_cons_self
  | other i exceptional targets =>
    obtain ⟨n, -, hn⟩ := h
    exact List.mem_of_getElem? hn
  | unreachable => cases h

theorem mem_successors {f : Func ι I V} {u v : Label ι} {b : Block ι I V}
    (hblock : f.block u = some b) (h : v ∈ b.terminator.targets) : v ∈ f.successors u := by
  rw [Func.successors, hblock]
  exact h

/-! ### One counter -/

/-- Does the instruction touch the counter, or the result of its check? -/
def Inst.touches (k : Nat) : Inst I → Bool
  | .storeZero j | .boundCheck j _ | .increment j => j = k
  | _ => false

/-- What an instruction does to a counter and to the result of its check. -/
def Inst.track (k : Nat) (x : BitVec 32 × Bool) : Inst I → BitVec 32 × Bool
  | .storeZero j => if j = k then (0, x.2) else x
  | .boundCheck j limit => if j = k then (x.1, limit.sle x.1) else x
  | .increment j => if j = k then (x.1 + 1, x.2) else x
  | _ => x

def track (k : Nat) (is : List (Inst I)) (x : BitVec 32 × Bool) : BitVec 32 × Bool :=
  is.foldl (Inst.track k) x

/-- The instructions of a block of one kind. -/
def Func.select (f : Func ι I V) (p : Inst I → Bool) (u : Label ι) : List (Inst I) :=
  match f.block u with
  | some b => b.insts.filter p
  | none => []

/-- The instructions of a block that touch a counter. -/
def Func.onCounter (f : Func ι I V) (k : Nat) (u : Label ι) : List (Inst I) :=
  f.select (Inst.touches k) u

theorem track_of_not_touches {k : Nat} {i : Inst I} (h : i.touches k = false)
    (x : BitVec 32 × Bool) : i.track k x = x := by
  cases i with
  | original => rfl
  | silentExit => rfl
  | storeZero | boundCheck | increment => exact if_neg (of_decide_eq_false h)

theorem track_filter (k : Nat) (is : List (Inst I)) (x : BitVec 32 × Bool) :
    track k (is.filter (Inst.touches k)) x = track k is x := by
  induction is generalizing x with
  | nil => rfl
  | cons i is ih =>
    cases hi : i.touches k with
    | true =>
      rw [List.filter_cons_of_pos hi]
      exact ih _
    | false =>
      rw [List.filter_cons_of_neg (Bool.eq_false_iff.mp hi), ih]
      show _ = track k is (i.track k x)
      rw [track_of_not_touches hi]

theorem track_executes {sem : Semantics I V σ} {i : Inst I} {s t : State σ}
    (h : Executes sem s i t) (k : Nat) :
    (t.counter k, t.bound k) = i.track k (s.counter k, s.bound k) := by
  cases h with
  | original => rfl
  | @storeZero j | @boundCheck j limit | @increment j =>
    by_cases hj : j = k
    · subst hj
      simp only [Inst.track, if_true]
    · simp only [Inst.track, if_neg hj, if_neg (Ne.symm hj)]

theorem track_runs {sem : Semantics I V σ} {is : List (Inst I)} {s t : State σ}
    (h : Runs sem is s t) (k : Nat) :
    (t.counter k, t.bound k) = track k is (s.counter k, s.bound k) := by
  induction h with
  | nil => rfl
  | @cons i is s t u hi _ ih =>
    rw [ih, track_executes hi k]
    rfl

/-- After a block, the counter is what its own instructions made of it. -/
theorem track_onCounter {f : Func ι I V} {sem : Semantics I V σ} {u : Label ι}
    {b : Block ι I V} {memory : σ} {s t : State σ} (hblock : f.block u = some b)
    (hruns : Runs sem b.insts { s with memory := memory } t) (k : Nat) :
    (t.counter k, t.bound k) = track k (f.onCounter k u) (s.counter k, s.bound k) := by
  rw [Func.onCounter, Func.select, hblock]
  show _ = track k (b.insts.filter (Inst.touches k)) (s.counter k, s.bound k)
  rw [track_filter]
  exact track_runs hruns k

/-- Increments, one after the other. -/
theorem track_increments (k n : Nat) (c : BitVec 32) (flag : Bool) :
    track k (List.replicate n (Inst.increment k : Inst I)) (c, flag) =
      (c + BitVec.ofNat 32 n, flag) := by
  induction n generalizing c with
  | zero =>
    show (c, flag) = _
    rw [BitVec.add_zero]
  | succ n ih =>
    have hfirst : Inst.track k (c, flag) (.increment k : Inst I) = (c + 1, flag) := if_pos rfl
    rw [List.replicate_succ, track, List.foldl_cons, hfirst]
    show track k (List.replicate n (Inst.increment k)) (c + 1, flag) = _
    rw [ih, BitVec.add_assoc, Nat.add_comm n 1, BitVec.ofNat_add]
    rfl

/-! ### Trips -/

variable [DecidableEq ι]

/-- The blocks of a loop, and what the pass made of them. -/
def Loop.region (l : Loop ι) : Label ι → Bool
  | .block b => b ∈ l.blocks
  | .loopBody b => b ∈ l.blocks
  | .kleeExit _ => false

/-- The back-edges of a loop that an execution has taken since it was last in the preheader. -/
def backEdges (l : Loop ι) (preheader : Label ι) : List (Label ι) → Label ι → Nat
  | [], _ => 0
  | u :: path, v =>
    if u = preheader then 0
    else backEdges l preheader path u +
      (if l.region u = true ∧ v = .block l.header then 1 else 0)

/-- How often a block was executed since the last execution of another one. -/
def visits (preheader latch : Label ι) : List (Label ι) → Nat
  | [] => 0
  | u :: path =>
    if u = preheader then 0 else visits preheader latch path + (if u = latch then 1 else 0)

/-- Every latch that an execution runs and does not leave the loop from goes to the header, by
its only edge there. -/
def Straight (f : Func ι I V) (l : Loop ι) : List (Label ι) → Label ι → Prop
  | [], _ => True
  | u :: path, v =>
    (l.region u = true → .block l.header ∈ f.successors u →
      (f.successors u).count (.block l.header) = 1 ∧
        (l.region v = true → v = .block l.header)) ∧
    Straight f l path u

instance Straight.decidable (f : Func ι I V) (l : Loop ι) :
    ∀ (path : List (Label ι)) (v : Label ι), Decidable (Straight f l path v)
  | [], _ => .isTrue trivial
  | u :: path, _ =>
    have := Straight.decidable f l path u
    inferInstanceAs (Decidable (_ ∧ _))

end KleeDeps.LoopLimiter
