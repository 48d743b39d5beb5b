import Mathlib.Data.List.Basic
import Mathlib.Tactic.TypeStar

/-!
# The loop limiter

`loop-limiter/LoopLimiter.cpp`: a pass that gives every loop with a preheader and a latch a
counter. The preheader sets it to 0, every latch adds 1 before its terminator, and the header
compares it with the bound: either the header is split after its PHIs and leaves to
`klee_silent_exit` when the bound is reached, or, with `--break`, the condition of the branch
that already leaves the loop is widened. The loops are rewritten one after the other while
`LoopInfo` is that of the function before the pass, which does not know the split blocks.

The source instructions, their values and the terminators that are no branches are opaque; the
counters are the allocas `loop.counter.<i>`. Statistics and warnings are left out.

- `Func.getLoopPreheader`, `Func.getLoopLatches`: what LLVM answers on the rewritten function
  with the old `LoopInfo`;
- `Func.instrument`: the rewriting of one loop;
- `limitLoops`, `run`: the pass;
- `visited`, `limitLoops_eq`: the order of the worklist.
-/

namespace KleeDeps.LoopLimiter

/-- A basic block: one of the function, what follows the PHIs of a split header
(`loop.body.bb`), or the exit that was made for it (`klee.exit.bb`). -/
inductive Label (ι : Type*) where
  | block (b : ι)
  | loopBody (header : ι)
  | kleeExit (header : ι)
  deriving DecidableEq

/-- An instruction of the source, or one that the pass inserts: `store 0`; the load and the
comparison `bound.check`; load, add and store; the call of `klee_silent_exit`. -/
inductive Inst (I : Type*) where
  | original (i : I)
  | storeZero (counter : Nat)
  | boundCheck (counter : Nat) (limit : BitVec 32)
  | increment (counter : Nat)
  | silentExit

/-- A branch condition: a value of the source, `bound.check`, `loop.exit.or.bound` or
`loop.stay.and.not.bound`. -/
inductive Cond (V : Type*) where
  | original (v : V)
  | bound (counter : Nat)
  | exitOrBound (c : Cond V) (counter : Nat)
  | stayAndNotBound (c : Cond V) (counter : Nat)

/-- `other` is a terminator that is no branch (`switch`, `ret`, `invoke`), with its successors. -/
inductive Terminator (ι I V : Type*) where
  | br (target : Label ι)
  | condBr (cond : Cond V) (ifTrue ifFalse : Label ι)
  | other (i : I) (exceptional : Bool) (targets : List (Label ι))
  | unreachable

structure Phi (ι V : Type*) where
  result : V
  incoming : List (Label ι × V)

structure Block (ι I V : Type*) where
  phis : List (Phi ι V)
  insts : List (Inst I)
  terminator : Terminator ι I V

/-- A natural loop of `LoopInfo`. -/
inductive Loop (ι : Type*) where
  | mk (header : ι) (blocks : List ι) (subLoops : List (Loop ι))

structure Func (ι I V : Type*) where
  name : String
  entry : Label ι
  labels : List (Label ι)
  block : Label ι → Option (Block ι I V)
  /-- `loop.counter.<i>`, with the loop it was made for -/
  counters : List (Loop ι)

structure Options where
  maxIterations : BitVec 32
  whitelist : List String
  blacklist : List String
  breakMode : Bool

variable {ι I V : Type*}

namespace Loop

def header : Loop ι → ι
  | mk header _ _ => header

def blocks : Loop ι → List ι
  | mk _ blocks _ => blocks

def subLoops : Loop ι → List (Loop ι)
  | mk _ _ subLoops => subLoops

/-- `contains`: the blocks that the pass makes are in no loop. -/
def contains [DecidableEq ι] (l : Loop ι) : Label ι → Bool
  | .block b => b ∈ l.blocks
  | _ => false

end Loop

namespace Terminator

def targets : Terminator ι I V → List (Label ι)
  | br target => [target]
  | condBr _ ifTrue ifFalse => [ifTrue, ifFalse]
  | other _ _ targets => targets
  | unreachable => []

def isExceptional : Terminator ι I V → Bool
  | other _ exceptional _ => exceptional
  | _ => false

end Terminator

/-- `replaceIncomingBlockWith`. -/
def Phi.rename [DecidableEq ι] (old new : Label ι) (phi : Phi ι V) : Phi ι V :=
  { phi with incoming := phi.incoming.map fun p => (if p.1 = old then new else p.1, p.2) }

def Block.renamePhis [DecidableEq ι] (old new : Label ι) (b : Block ι I V) : Block ι I V :=
  { b with phis := b.phis.map (Phi.rename old new) }

namespace Func

def successors (f : Func ι I V) (u : Label ι) : List (Label ι) :=
  match f.block u with
  | some b => b.terminator.targets
  | none => []

variable [DecidableEq ι]

/-- `predecessors`: a block stands once for each of its edges. -/
def predecessors (f : Func ι I V) (u : Label ι) : List (Label ι) :=
  f.labels.flatMap fun v => ((f.successors v).filter fun t => t = u).map fun _ => v

/-- `getLoopPredecessor`: the only block outside of the loop that leads to its header. -/
def getLoopPredecessor (f : Func ι I V) (l : Loop ι) : Option (Label ι) :=
  match (f.predecessors (.block l.header)).filter fun u => !l.contains u with
  | [] => none
  | out :: rest => if rest.all fun u => u = out then some out else none

/-- `getLoopPreheader`. -/
def getLoopPreheader (f : Func ι I V) (l : Loop ι) : Option (Label ι) :=
  match f.getLoopPredecessor l with
  | none => none
  | some out =>
    match f.block out with
    | none => none
    | some b =>
      if b.terminator.isExceptional then none
      else if b.terminator.targets.length ≠ 1 then none
      else some out

def getLoopLatches (f : Func ι I V) (l : Loop ι) : List (Label ι) :=
  (f.predecessors (.block l.header)).filter fun u => l.contains u

def setBlock (f : Func ι I V) (u : Label ι) (b : Block ι I V) : Func ι I V :=
  { f with block := fun v => if v = u then some b else f.block v }

/-- `Builder.SetInsertPoint(u->getTerminator())`, and one instruction. -/
def insertBeforeTerminator (f : Func ι I V) (u : Label ι) (i : Inst I) : Func ι I V :=
  match f.block u with
  | none => f
  | some b => f.setBlock u { b with insts := b.insts ++ [i] }

/-- Which successor leaves the loop, if the branch of the header has exactly one that does: the
first (`true`) or the second. -/
def exitSuccessor (f : Func ι I V) (l : Loop ι) : Option Bool :=
  match f.block (.block l.header) with
  | some ⟨_, _, .condBr _ succ0 succ1⟩ =>
    if l.contains succ0 = l.contains succ1 then none else some (!l.contains succ0)
  | _ => none

/-- The header in break mode: the bound is checked before the branch, whose condition is
widened. -/
def widenExit (f : Func ι I V) (l : Loop ι) (counter : Nat) (limit : BitVec 32)
    (exitFirst : Bool) : Func ι I V :=
  match f.block (.block l.header) with
  | some ⟨phis, insts, .condBr c succ0 succ1⟩ =>
    f.setBlock (.block l.header)
      { phis := phis
        insts := insts ++ [.boundCheck counter limit]
        terminator := .condBr
          (if exitFirst then .exitOrBound c counter else .stayAndNotBound c counter) succ0 succ1 }
  | _ => f

/-- `splitBasicBlock` after the PHIs: the new block takes the instructions, the terminator, and
its place in the PHIs of the successors. -/
def splitBasicBlock (f : Func ι I V) (header : ι) (b : Block ι I V) : Func ι I V :=
  let rename (u : Label ι) (c : Block ι I V) :=
    if u ∈ b.terminator.targets then c.renamePhis (.block header) (.loopBody header) else c
  { f with
    labels := f.labels ++ [.loopBody header]
    block := fun u =>
      if u = .loopBody header then some { b with phis := [] }
      else if u = .block header then
        some (rename u { b with insts := [], terminator := .br (.loopBody header) })
      else (f.block u).map (rename u) }

/-- The header in silent-exit mode: split, with the check and the exit block in between. -/
def splitHeader (f : Func ι I V) (l : Loop ι) (counter : Nat) (limit : BitVec 32) : Func ι I V :=
  match f.block (.block l.header) with
  | none => f
  | some b =>
    let g := f.splitBasicBlock l.header b
    match g.block (.block l.header) with
    | none => g
    | some header =>
      let g := g.setBlock (.block l.header)
        { header with
          insts := [.boundCheck counter limit]
          terminator := .condBr (.bound counter) (.kleeExit l.header) (.loopBody l.header) }
      { g.setBlock (.kleeExit l.header)
          { phis := [], insts := [.silentExit], terminator := .unreachable } with
        labels := g.labels ++ [.kleeExit l.header] }

/-- One loop of the worklist. -/
def instrument (o : Options) (f : Func ι I V) (l : Loop ι) : Func ι I V :=
  match f.getLoopPreheader l with
  | none => f
  | some preheader =>
    match f.getLoopLatches l with
    | [] => f
    | latches =>
      let exit := if o.breakMode then f.exitSuccessor l else none
      let counter := f.counters.length
      let g := { f with counters := f.counters ++ [l] }
      let g := g.insertBeforeTerminator preheader (.storeZero counter)
      let g :=
        match exit with
        | some exitFirst => g.widenExit l counter o.maxIterations exitFirst
        | none => g.splitHeader l counter o.maxIterations
      latches.foldl (fun g latch => g.insertBeforeTerminator latch (.increment counter)) g

end Func

/-! ### The worklist -/

mutual

def Loop.size : Loop ι → Nat
  | .mk _ _ subLoops => sizes subLoops + 1

def Loop.sizes : List (Loop ι) → Nat
  | [] => 0
  | l :: ls => l.size + Loop.sizes ls

end

theorem sizes_append (ls ms : List (Loop ι)) :
    Loop.sizes (ls ++ ms) = Loop.sizes ls + Loop.sizes ms := by
  induction ls with
  | nil => exact (Nat.zero_add _).symm
  | cons l ls ih =>
    rw [List.cons_append, Loop.sizes, Loop.sizes, ih, Nat.add_assoc]

theorem sizes_reverse (ls : List (Loop ι)) : Loop.sizes ls.reverse = Loop.sizes ls := by
  induction ls with
  | nil => rfl
  | cons l ls ih =>
    rw [List.reverse_cons, sizes_append, ih]
    simp only [Loop.sizes]
    omega

theorem sizes_subLoops (l : Loop ι) : Loop.sizes l.subLoops < l.size := by
  cases l with
  | mk header blocks subLoops => exact Nat.lt_succ_self _

theorem sizes_push_lt (l : Loop ι) (worklist : List (Loop ι)) :
    Loop.sizes (l.subLoops.reverse ++ worklist) < Loop.sizes (l :: worklist) := by
  have hsub := sizes_subLoops l
  rw [sizes_append, sizes_reverse, Loop.sizes]
  omega

/-- The loops in the order in which the worklist yields them. -/
def visited : List (Loop ι) → List (Loop ι)
  | [] => []
  | l :: worklist => l :: visited (l.subLoops.reverse ++ worklist)
termination_by worklist => Loop.sizes worklist
decreasing_by exact sizes_push_lt l worklist

variable [DecidableEq ι]

/-- The loop over the worklist, whose last element stands first here. -/
def limitLoops (o : Options) : List (Loop ι) → Func ι I V → Func ι I V
  | [], f => f
  | l :: worklist, f => limitLoops o (l.subLoops.reverse ++ worklist) (f.instrument o l)
termination_by worklist => Loop.sizes worklist
decreasing_by exact sizes_push_lt l worklist

/-- Is the function to be instrumented? -/
def allowed (o : Options) (name : String) : Bool :=
  if o.whitelist ≠ [] then name ∈ o.whitelist
  else if o.blacklist ≠ [] then !(name ∈ o.blacklist)
  else true

/-- `LoopLimiter::run`, with the loops of `LoopInfo` that are in no other loop. -/
def run (o : Options) (f : Func ι I V) (loops : List (Loop ι)) : Except String (Func ι I V) :=
  if o.whitelist ≠ [] ∧ o.blacklist ≠ [] then
    .error "LoopLimiter: --whitelist and --blacklist are mutually exclusive"
  else if allowed o f.name then .ok (limitLoops o loops.reverse f)
  else .ok f

theorem limitLoops_eq (o : Options) (worklist : List (Loop ι)) (f : Func ι I V) :
    limitLoops o worklist f = (visited worklist).foldl (Func.instrument o) f := by
  induction worklist using visited.induct generalizing f with
  | case1 => rw [limitLoops, visited, List.foldl_nil]
  | case2 l worklist ih => rw [limitLoops, visited, List.foldl_cons, ih]

end KleeDeps.LoopLimiter
