import KleeDeps.LoopLimiter.Image
import Mathlib.Data.List.Find

/-!
# Bounded runs

Which terminating executions the pass keeps. An execution of the source is an execution of the
instrumented function, with the same blocks, source instructions, values and result, as long as
no check stops it; a split header is executed in two parts (`detour`).

- `laps`: in a loop in loop-simplify form the executions of the header, the steps from it into
  the loop and the back-edges go together;
- `check_header`: so the check of a header compares the bound with its executions so far;
- `simulate`: **every execution that the checks let through is kept**;
- `bounded_run_preserved_iff`: of the executions whose loops run their bodies at most `N` times,
  those are kept that execute the header of no loop with `klee_silent_exit` more than `N` times.
-/

namespace KleeDeps.LoopLimiter

variable {ι I V σ : Type*}

/-! ### Traces -/

/-- What an execution does for the source, with the memory that it leaves: the PHIs of a block
take their values, or an instruction is executed. -/
inductive Event (I V σ : Type*) where
  | assign (values : List (V × V)) (memory : σ)
  | exec (i : I) (memory : σ)

/-- `Runs`, with what it does for the source. -/
inductive Records (sem : Semantics I V σ) :
    List (Inst I) → State σ → List (Event I V σ) → State σ → Prop
  | nil {s : State σ} : Records sem [] s [] s
  | original {i : I} {is : List (Inst I)} {s t : State σ} {memory : σ}
      {events : List (Event I V σ)} (h : sem.exec i s.memory memory)
      (hs : Records sem is { s with memory := memory } events t) :
      Records sem (.original i :: is) s (.exec i memory :: events) t
  | inserted {i : Inst I} {is : List (Inst I)} {s t u : State σ} {events : List (Event I V σ)}
      (hi : i.isOriginal = false) (h : Executes sem s i t) (hs : Records sem is t events u) :
      Records sem (i :: is) s events u

/-- The values of the PHIs, if the block has any. -/
def assigned (values : List (V × V)) (memory : σ) : List (Event I V σ) :=
  if values.isEmpty then [] else [.assign values memory]

/-- A block is executed up to its terminator. -/
inductive Passes [DecidableEq ι] (sem : Semantics I V σ) (f : Func ι I V)
    (prev : Option (Label ι)) (u : Label ι) (s : State σ) :
    List (Event I V σ) → State σ → Terminator ι I V → Prop
  | mk {b : Block ι I V} {values : List (V × V)} {events : List (Event I V σ)} {t : State σ}
      (hblock : f.block u = some b) (hphis : incomingValues prev b.phis = some values)
      (hrecords : Records sem b.insts { s with memory := sem.assign values s.memory } events t) :
      Passes sem f prev u s (assigned values (sem.assign values s.memory) ++ events) t b.terminator

/-- `Path`, with what it does for the source. -/
inductive Traced [DecidableEq ι] (sem : Semantics I V σ) (f : Func ι I V) (s₀ : State σ) :
    List (Label ι) → List (Event I V σ) → Label ι → State σ → Prop
  | start : Traced sem f s₀ [] [] f.entry s₀
  | step {path : List (Label ι)} {trace events : List (Event I V σ)} {u v : Label ι}
      {s t : State σ} {terminator : Terminator ι I V} (h : Traced sem f s₀ path trace u s)
      (hpasses : Passes sem f path.head? u s events t terminator)
      (hgoes : Goes sem t v terminator) : Traced sem f s₀ (u :: path) (trace ++ events) v t

/-- A terminating execution: its last block, which stands first in the path, ends the function
with an instruction and a memory. -/
inductive Finishes [DecidableEq ι] (sem : Semantics I V σ) (f : Func ι I V) (s₀ : State σ) :
    List (Label ι) → List (Event I V σ) → I → σ → Prop
  | mk {path : List (Label ι)} {trace events : List (Event I V σ)} {u : Label ι} {s t : State σ}
      {i : I} {exceptional : Bool} {targets : List (Label ι)}
      {terminator : Terminator ι I V} (h : Traced sem f s₀ path trace u s)
      (hpasses : Passes sem f path.head? u s events t terminator)
      (hlast : terminator = .other i exceptional targets)
      (hpick : sem.pick i t.memory = none) :
      Finishes sem f s₀ (u :: path) (trace ++ events) i t.memory

theorem Records.runs {sem : Semantics I V σ} {is : List (Inst I)} {s t : State σ}
    {events : List (Event I V σ)} (h : Records sem is s events t) : Runs sem is s t := by
  induction h with
  | nil => exact .nil
  | original h _ ih => exact .cons (.original h) ih
  | inserted _ h _ ih => exact .cons h ih

/-- Whatever is inserted, the source instructions are executed as before. -/
theorem Records.insert {sem : Semantics I V σ} {is js : List (Inst I)} {s₁ s₂ t₁ : State σ}
    {events : List (Event I V σ)} (h : Records sem js s₁ events t₁)
    (hjs : is.filter Inst.isOriginal = js) (hexit : is.filter Inst.isExit = [])
    (hmemory : s₂.memory = s₁.memory) :
    ∃ t₂, Records sem is s₂ events t₂ ∧ t₂.memory = t₁.memory := by
  induction is generalizing js s₁ s₂ events with
  | nil =>
    subst hjs
    cases h with
    | nil => exact ⟨s₂, .nil, hmemory⟩
  | cons i is ih =>
    have hrest : is.filter Inst.isExit = [] := by
      refine List.filter_eq_nil_iff.mpr fun j hj => ?_
      exact List.filter_eq_nil_iff.mp hexit j (List.mem_cons_of_mem i hj)
    -- an inserted instruction leaves the memory alone
    have hinserted : ∀ {s}, i.isOriginal = false → Executes sem s₂ i s →
        s.memory = s₂.memory → ∃ t₂, Records sem (i :: is) s₂ events t₂ ∧
          t₂.memory = t₁.memory := by
      intro s hi hstep hs
      rw [List.filter_cons_of_neg (Bool.eq_false_iff.mp hi)] at hjs
      obtain ⟨t₂, hrecords, ht₂⟩ := ih h hjs hrest (hs.trans hmemory)
      exact ⟨t₂, .inserted hi hstep hrecords, ht₂⟩
    cases i with
    | original i =>
      rw [List.filter_cons_of_pos rfl] at hjs
      subst hjs
      cases h with
      | @original _ _ _ _ memory events h hs =>
        have hsame : State.memory { s₂ with memory := memory } =
            State.memory { s₁ with memory := memory } := rfl
        obtain ⟨t₂, hrecords, ht₂⟩ := ih hs rfl hrest hsame
        exact ⟨t₂, .original (hmemory ▸ h) hrecords, ht₂⟩
      | inserted hi => cases hi
    | storeZero k => exact hinserted rfl .storeZero rfl
    | boundCheck k limit => exact hinserted rfl .boundCheck rfl
    | increment k => exact hinserted rfl .increment rfl
    | silentExit => exact absurd rfl (List.filter_eq_nil_iff.mp hexit _ List.mem_cons_self)

variable [DecidableEq ι]

theorem Traced.path {sem : Semantics I V σ} {f : Func ι I V} {s₀ s : State σ}
    {path : List (Label ι)} {trace : List (Event I V σ)} {next : Label ι}
    (h : Traced sem f s₀ path trace next s) : Path sem f s₀ path next s := by
  induction h with
  | start => exact .start
  | step _ hpasses hgoes ih =>
    cases hpasses with
    | mk hblock hphis hrecords => exact .step ih hblock hphis hrecords.runs hgoes

/-! ### The executions in question -/

/-- How often a loop was entered from its header since the last execution of the preheader. -/
def entered (l : Loop ι) (preheader : Label ι) : List (Label ι) → Nat
  | [] => 0
  | [_] => 0
  | v :: u :: path =>
    if u = preheader then 0
    else entered l preheader (u :: path) +
      (if u = .block l.header ∧ l.contains v = true then 1 else 0)

instance (f : Func ι I V) (l : Loop ι) : Decidable (TopTested f l) :=
  inferInstanceAs (Decidable (_ ∧ _))

/-- How often the body was run since the last execution of the preheader: what is behind the
header of a loop that is tested at the top, and the whole loop otherwise. -/
def bodyRuns (f : Func ι I V) (l : Loop ι) (preheader : Label ι) (path : List (Label ι)) : Nat :=
  if TopTested f l then entered l preheader path else visits preheader (.block l.header) path

/-- No entry into a loop runs its body more than `n` times. -/
def Bounded (f : Func ι I V) (loops : List (Loop ι)) (n : Nat) (path : List (Label ι)) : Prop :=
  ∀ l ∈ visited loops.reverse, ∀ q, f.getLoopPreheader l = some q →
    ∀ m, bodyRuns f l q (path.drop m) ≤ n

/-- A loop that is left by `klee_silent_exit` when the bound is reached. -/
def SilentLoop (o : Options) (f : Func ι I V) (l : Loop ι) : Prop :=
  o.breakMode = true → f.exitSuccessor l = none

/-- No entry into a loop with `klee_silent_exit` executes its header more than `n` times. -/
def HeadersBounded (o : Options) (f : Func ι I V) (loops : List (Loop ι)) (n : Nat)
    (path : List (Label ι)) : Prop :=
  ∀ l ∈ visited loops.reverse, SilentLoop o f l → ∀ q, f.getLoopPreheader l = some q →
    ∀ m, visits q (.block l.header) (path.drop m) ≤ n

/-- The block of the source that ends with a block. -/
def Func.origin (f : Func ι I V) (u : Label ι) : Option (Label ι) :=
  if u = f.rear u.source then some (.block u.source) else none

/-- The instrumented function has the execution too, and it does not reach `klee_silent_exit`. -/
def Preserved (sem : Semantics I V σ) (f : Func ι I V) (s₀ : State σ) (path : List (Label ι))
    (trace : List (Event I V σ)) (i : I) (memory : σ) : Prop :=
  ∃ path', path'.filterMap f.origin = path ∧ Finishes sem f s₀ path' trace i memory ∧
    ∀ b, .kleeExit b ∉ path'

/-! ### Laps -/

/-- The executions of the header, the steps from it into the loop and the back-edges. -/
structure Laps (l : Loop ι) (q : Label ι) (path : List (Label ι)) (next : Label ι) : Prop where
  never : q ∉ path → l.region next = false
  header : q ∈ path → next = .block l.header →
    visits q (.block l.header) path = backEdges l q path next ∧
      entered l q (next :: path) = backEdges l q path next
  inside : q ∈ path → l.region next = true → next ≠ .block l.header →
    visits q (.block l.header) path = backEdges l q path next + 1 ∧
      entered l q (next :: path) = backEdges l q path next + 1

section Lap

variable {sem : Semantics I V σ} {f : Func ι I V} {l : Loop ι} {q u v : Label ι}
  {path : List (Label ι)} {s₀ s : State σ} {next : Label ι}

theorem entered_cons (hu : u ≠ q) : entered l q (v :: u :: path) =
    entered l q (u :: path) + if u = .block l.header ∧ l.contains v = true then 1 else 0 :=
  if_neg hu

theorem contains_eq_region (hsource : f.Source) {w : Label ι} (hv : v ∈ f.successors w) :
    l.contains v = l.region v := by
  obtain ⟨c, rfl⟩ := hsource.plain v (hsource.wf.closed _ _ hv)
  rfl

/-- A step from a block of the loop. -/
theorem Laps.step (hsource : f.Source) (hmem : l.header ∈ l.blocks) (hup : u ≠ q)
    (hu : l.region u = true) (hv : v ∈ f.successors u) (h : Laps l q path u) :
    Laps l q (u :: path) v := by
  have hloop : q ∈ path := by
    by_contra hq
    exact Bool.false_ne_true ((h.never hq).symm.trans hu)
  have hcontains : l.contains v = l.region v := contains_eq_region hsource hv
  -- whether from the header or from behind it, a lap is under way
  have hlap : l.region v = true →
      visits q (.block l.header) (u :: path) = backEdges l q path u + 1 ∧
        entered l q (v :: u :: path) = backEdges l q path u + 1 := by
    intro hregion
    rw [visits_cons hup, entered_cons hup]
    by_cases hself : u = .block l.header
    · obtain ⟨hvisits, hentered⟩ := h.header hloop hself
      rw [if_pos hself, if_pos ⟨hself, hcontains.trans hregion⟩, hvisits, hentered]
      exact ⟨rfl, rfl⟩
    · obtain ⟨hvisits, hentered⟩ := h.inside hloop hu hself
      rw [if_neg hself, if_neg fun hboth => hself hboth.1, hvisits, hentered]
      exact ⟨rfl, rfl⟩
  refine ⟨fun hq => absurd (List.mem_cons_of_mem u hloop) hq, fun _ hheader => ?_,
    fun _ hregion hne => ?_⟩
  · subst hheader
    rw [backEdges_cons hup, if_pos ⟨hu, rfl⟩]
    exact hlap (region_header hmem)
  · rw [backEdges_cons hup, if_neg fun hboth => hne hboth.2]
    exact hlap hregion

/-- **The laps of a loop** of the source. -/
theorem laps (hsource : f.Source) (hnatural : Natural f l) (hmem : l.header ∈ l.blocks)
    (hq : f.getLoopPreheader l = some q) (h : Path sem f s₀ path next s) :
    Laps l q path next := by
  obtain ⟨hout, hsuccessors, honly⟩ := getLoopPreheader_eq_some hsource.wf hq
  have hlayout := Layout.refl hsource
  induction h with
  | start =>
    refine ⟨fun _ => ?_, fun hq => absurd hq List.not_mem_nil, fun hq => absurd hq List.not_mem_nil⟩
    obtain ⟨b, hb⟩ := hsource.plain _ hsource.entry
    rw [hb]
    exact decide_eq_false (hnatural.entry b hb)
  | @step path u v s t b values hpath hblock _ _ hgoes ih =>
    have hv := mem_successors hblock (goes_mem_targets hgoes)
    by_cases hup : u = q
    · -- a step out of the preheader
      subst hup
      rw [hsuccessors, List.mem_singleton] at hv
      subst hv
      have hzero : visits u (.block l.header) (u :: path) = 0 ∧
          backEdges l u (u :: path) (.block l.header) = 0 ∧
          entered l u (.block l.header :: u :: path) = 0 := ⟨if_pos rfl, if_pos rfl, if_pos rfl⟩
      refine ⟨fun hq => absurd List.mem_cons_self hq, fun _ _ => ?_, fun _ _ hne => absurd rfl hne⟩
      rw [hzero.1, hzero.2.1, hzero.2.2]
      exact ⟨rfl, rfl⟩
    · cases hu : l.region u with
      | true => exact ih.step hsource hmem hup hu hv
      | false =>
        -- a loop is entered through its header, and that from the preheader
        have hregion : l.region v = false := by
          by_contra hin
          rw [Bool.not_eq_false] at hin
          by_cases hheader : v = .block l.header
          · subst hheader
            obtain ⟨c, rfl⟩ := hsource.plain u ((hsource.wf.domain u).mpr (by rw [hblock]; simp))
            exact hup (honly _ hv hu)
          · have := region_enter hsource hlayout hnatural (reachable_source hsource hlayout hpath)
              hv hin hheader
            exact Bool.false_ne_true (hu.symm.trans this)
        refine ⟨fun _ => hregion, fun _ hheader => ?_, fun _ hin => ?_⟩
        · rw [hheader, region_header hmem] at hregion
          cases hregion
        · exact absurd (hregion.symm.trans hin) Bool.false_ne_true

end Lap

/-! ### The path through the instrumented function -/

/-- What is executed between the blocks before a block of the source and its rear part. -/
def Func.approach (f : Func ι I V) (b : ι) (path : List (Label ι)) : List (Label ι) :=
  match f.block (.loopBody b) with
  | none => path
  | some _ => .block b :: path

/-- A path of the source, with the split headers in two parts. -/
def Func.detour (f : Func ι I V) : List (Label ι) → List (Label ι)
  | [] => []
  | u :: path => f.rear u.source :: f.approach u.source (f.detour path)

section Detour

variable {f : Func ι I V} {l : Loop ι} {b c : ι} {path : List (Label ι)}

omit [DecidableEq ι] in
theorem approach_of_none (h : f.block (.loopBody b) = none) : f.approach b path = path := by
  rw [Func.approach, h]

omit [DecidableEq ι] in
theorem approach_of_ne_none (h : f.block (.loopBody b) ≠ none) :
    f.approach b path = .block b :: path := by
  obtain ⟨block, hblock⟩ := Option.ne_none_iff_exists'.mp h
  rw [Func.approach, hblock]

omit [DecidableEq ι] in
theorem rear_inj (h : f.rear b = f.rear c) : b = c := by
  have hsource := congrArg Label.source h
  rwa [rear_source, rear_source] at hsource

theorem origin_rear (f : Func ι I V) (b : ι) : f.origin (f.rear b) = some (.block b) := by
  rw [Func.origin, rear_source, if_pos rfl]

/-- The front part of a split header is no block of the source. -/
theorem origin_front (h : f.block (.loopBody b) ≠ none) : f.origin (.block b) = none := by
  refine if_neg fun heq => ?_
  have hrear : Label.block b = f.rear b := heq
  rw [rear_of_ne_none h] at hrear
  cases hrear

theorem filterMap_detour (hpath : ∀ u ∈ path, ∃ b, u = .block b) :
    (f.detour path).filterMap f.origin = path := by
  induction path with
  | nil => rfl
  | cons u path ih =>
    obtain ⟨b, rfl⟩ := hpath u List.mem_cons_self
    have hrest := ih fun v hv => hpath v (List.mem_cons_of_mem _ hv)
    show (f.rear b :: f.approach b (f.detour path)).filterMap f.origin = _
    rw [List.filterMap_cons_some (origin_rear f b)]
    by_cases hsplit : f.block (.loopBody b) = none
    · rw [approach_of_none hsplit, hrest]
    · rw [approach_of_ne_none hsplit, List.filterMap_cons_none (origin_front hsplit), hrest]

omit [DecidableEq ι] in
theorem kleeExit_notMem_detour (path : List (Label ι)) (c : ι) :
    .kleeExit c ∉ f.detour path := by
  induction path with
  | nil => exact List.not_mem_nil
  | cons u path ih =>
    intro hmem
    rcases List.mem_cons.mp hmem with hrear | hmem
    · rcases rear_eq f u.source with hu | hu
      · cases hrear.trans hu
      · cases hrear.trans hu
    · by_cases hsplit : f.block (.loopBody u.source) = none
      · rw [approach_of_none hsplit] at hmem
        exact ih hmem
      · rw [approach_of_ne_none hsplit] at hmem
        rcases List.mem_cons.mp hmem with hfront | hmem
        · cases hfront
        · exact ih hmem

omit [DecidableEq ι] in
/-- The block before is found in its rear part. -/
theorem head?_detour (path : List (Label ι)) :
    (f.detour path).head? = path.head?.map fun u => f.rear u.source := by
  cases path with
  | nil => rfl
  | cons u path => rfl

/-- The back-edges are those of the source. -/
theorem backEdges_detour (hpath : ∀ u ∈ path, ∃ b, u = .block b) (b : ι) :
    backEdges l (f.rear c) (f.detour path) (.block b) =
      backEdges l (.block c) path (.block b) := by
  induction path generalizing b with
  | nil => rfl
  | cons u path ih =>
    obtain ⟨a, rfl⟩ := hpath u List.mem_cons_self
    have hrest := ih (fun v hv => hpath v (List.mem_cons_of_mem _ hv)) a
    show backEdges l (f.rear c) (f.rear a :: f.approach a (f.detour path)) (.block b) = _
    by_cases hac : a = c
    · subst hac
      rw [backEdges, if_pos rfl, backEdges, if_pos rfl]
    · have hregion : l.region (f.rear a) = l.region (.block a) := by
        rcases rear_eq f a with ha | ha
        · rw [ha]
        · rw [ha]
          rfl
      rw [backEdges_cons fun heq => hac (rear_inj heq),
        backEdges_cons fun heq => hac (Label.block.inj heq), hregion, ← hrest]
      congr 1
      by_cases hsplit : f.block (.loopBody a) = none
      · rw [approach_of_none hsplit, rear_of_none hsplit]
      · -- no edge leads from the front part to a header
        have hfront : Label.block a ≠ f.rear c := by
          intro heq
          have hsource := congrArg Label.source heq
          rw [rear_source] at hsource
          exact hac hsource
        rw [approach_of_ne_none hsplit, rear_of_ne_none hsplit, backEdges_cons hfront,
          if_neg fun hboth => (by cases hboth.2), Nat.add_zero]

end Detour

/-! ### PHIs -/

section Phis

variable {f₀ f : Func ι I V} {name : Label ι → Label ι} {prev prev' : Option (Label ι)}
  {phis : List (Phi ι V)}

/-- PHIs with other names take the same values from the blocks of these names. -/
theorem incomingValues_relabel (hnone : prev = none → prev' = none)
    (hsome : ∀ u, prev = some u → prev' = some (name u))
    (hname : ∀ phi ∈ phis, ∀ p ∈ phi.incoming, ∀ u, prev = some u → name p.1 = name u →
      p.1 = u) :
    incomingValues prev' (phis.map (Phi.relabel name)) = incomingValues prev phis := by
  rw [incomingValues, incomingValues]
  induction phis with
  | nil => rfl
  | cons phi phis ih =>
    have hrest := ih fun psi hpsi => hname psi (List.mem_cons_of_mem phi hpsi)
    rw [List.map_cons, List.mapM_cons, List.mapM_cons, hrest]
    congr 1
    cases hprev : prev with
    | none =>
      rw [hnone hprev]
      rfl
    | some u =>
      rw [hsome u hprev]
      show Option.map _ ((phi.incoming.map fun p => (name p.1, p.2)).find? _) =
        Option.map _ (phi.incoming.find? _)
      rw [List.find?_map, Option.map_map]
      have hsame : phi.incoming.find? ((fun p => decide (p.1 = name u)) ∘
          fun p => (name p.1, p.2)) = phi.incoming.find? fun p => decide (p.1 = u) := by
        refine List.find?_congr fun p hp => ?_
        show decide (name p.1 = name u) = decide (p.1 = u)
        rw [decide_eq_decide]
        exact ⟨hname phi List.mem_cons_self p hp u hprev, congrArg name⟩
      rw [hsame]
      rfl

end Phis

/-! ### One block -/

theorem path_plain {sem : Semantics I V σ} {f : Func ι I V} {s₀ s : State σ}
    {path : List (Label ι)} {next : Label ι} (hsource : f.Source)
    (h : Path sem f s₀ path next s) : ∀ u ∈ path, ∃ b, u = .block b := by
  induction h with
  | start => exact fun u hu => absurd hu List.not_mem_nil
  | step _ hblock _ _ _ ih =>
    intro w hw
    rcases List.mem_cons.mp hw with rfl | hw
    · exact hsource.plain w ((hsource.wf.domain w).mpr (by rw [hblock]; simp))
    · exact ih w hw

/-- What the pass made of a function in loop-simplify form. -/
structure Limited (o : Options) (f₀ f : Func ι I V) : Prop where
  source : f₀.Source
  incoming : f₀.Incoming
  layout : Layout f₀ f
  code : Code f₀ f
  image : Image f₀ f
  loop : ∀ k l, f.counters[k]? = some l →
    l.header ∈ l.blocks ∧ Natural f₀ l ∧ (∃ t, Simplified f₀ l t) ∧ ∃ p, Counted o f₀ f l k p

section Block

variable {sem : Semantics I V σ} {o : Options} {f₀ f : Func ι I V} {l : Loop ι} {k : Nat}
  {b : ι} {path : List (Label ι)} {trace events : List (Event I V σ)} {u v q : Label ι}
  {prev prev' : Option (Label ι)} {s₀ s s₁ s₂ t t₁ : State σ} {terminator : Terminator ι I V}

omit [DecidableEq ι] in
theorem block_of_terminator (h : f.terminator u = some terminator) : ∃ block,
    f.block u = some block ∧ block.terminator = terminator :=
  Option.map_eq_some_iff.mp h

/-- The parts of a block of the source. -/
theorem Passes.parts (hsource : f₀.Source) (h : Passes sem f₀ prev u s₁ events s₂ terminator) :
    ∃ values events', incomingValues prev (f₀.phis u) = some values ∧
      Records sem (f₀.select Inst.isOriginal u)
        { s₁ with memory := sem.assign values s₁.memory } events' s₂ ∧
      events = assigned values (sem.assign values s₁.memory) ++ events' ∧
      f₀.terminator u = some terminator := by
  cases h with
  | @mk block values events' _ hblock hphis hrecords =>
    have hinsts : f₀.select Inst.isOriginal u = block.insts := by
      rw [Func.select, hblock]
      refine List.filter_eq_self.mpr fun i hi => ?_
      obtain ⟨j, rfl⟩ := hsource.original u block hblock i hi
      rfl
    refine ⟨values, events', ?_, hinsts ▸ hrecords, rfl, congrArg (Option.map _) hblock⟩
    rw [Func.phis, hblock]
    exact hphis

/-- A block with what was inserted into it does what it did in the source. -/
theorem Passes.insert {values : List (V × V)} {block : Block ι I V} {js : List (Inst I)}
    (hblock : f.block v = some block) (hphis : incomingValues prev' (f.phis v) = some values)
    (hcode : f.select Inst.isOriginal v = js) (hexit : f.select Inst.isExit v = [])
    (hrecords : Records sem js { s₁ with memory := sem.assign values s₁.memory } events s₂)
    (hmemory : t₁.memory = s₁.memory) :
    ∃ t₂, Passes sem f prev' v t₁ (assigned values (sem.assign values s₁.memory) ++ events) t₂
      block.terminator ∧ t₂.memory = s₂.memory := by
  rw [Func.select, hblock] at hcode hexit
  rw [Func.phis, hblock] at hphis
  have hsame : State.memory { t₁ with memory := sem.assign values t₁.memory } =
      State.memory { s₁ with memory := sem.assign values s₁.memory } := by
    show sem.assign values t₁.memory = sem.assign values s₁.memory
    rw [hmemory]
  obtain ⟨t₂, hinserted, ht₂⟩ := hrecords.insert hcode hexit hsame
  refine ⟨t₂, ?_, ht₂⟩
  rw [← hmemory]
  exact .mk hblock hphis hinserted

theorem Passes.bound {p : Label ι} (h : Passes sem f prev (.block l.header) s events t terminator)
    (hc : Counted o f₀ f l k p) : t.bound k = o.maxIterations.sle (s.counter k) := by
  cases h with
  | mk hblock _ hrecords => exact bound_header hc hblock hrecords.runs

/-- The PHIs of a block take the values that they take in the source. -/
theorem Limited.phis (h : Limited o f₀ f) (hedge : ∀ u, prev = some u → ∃ c, u = .block c) :
    incomingValues (prev.map fun u => f.rear u.source) (f.phis (.block b)) =
      incomingValues prev (f₀.phis (.block b)) := by
  rw [h.image.phis]
  refine incomingValues_relabel (fun hnone => by rw [hnone]; rfl)
    (fun u hu => by rw [hu]; rfl) fun phi hphi p hp u hu hname => ?_
  obtain ⟨c, rfl⟩ := hedge u hu
  have hfrom := h.incoming _ phi hphi p hp
  obtain ⟨a, ha⟩ := h.source.plain _
    ((h.source.wf.domain _).mpr (block_ne_none_of_successor hfrom))
  rw [ha] at hname ⊢
  rw [show a = c from rear_inj hname]

/-- The terminator of a block that was not split. -/
theorem Limited.terminator_rear (h : Limited o f₀ f)
    (hblock : f₀.terminator (.block b) = some terminator) :
    f.terminator (f.rear b) = some terminator ∨
      ∃ k l e c succ0 succ1, f.counters[k]? = some l ∧ l.header = b ∧
        f.block (.loopBody b) = none ∧ ¬SilentLoop o f₀ l ∧ f₀.exitSuccessor l = some e ∧
        terminator = .condBr c succ0 succ1 ∧
        f.terminator (.block b) = some (widened e k succ0 succ1 c) := by
  rcases h.image.terminator b with hsame | ⟨hnone, l, hl, rfl⟩
  · exact .inl (hsame.trans hblock)
  · obtain ⟨k, hk⟩ := List.getElem?_of_mem hl
    obtain ⟨-, -, -, p, hc⟩ := h.loop k l hk
    cases hc.guard with
    | silent _ hbody _ => exact absurd hnone hbody
    | widened e c succ0 succ1 hmode hexit _ hsource hbranch _ =>
      have hloud : ¬SilentLoop o f₀ l := by
        intro hsilent
        rw [hsilent hmode] at hexit
        cases hexit
      refine .inr ⟨k, l, e, c, succ0, succ1, hk, rfl, hnone, hloud, hexit, ?_, hbranch⟩
      exact Option.some.inj (hblock.symm.trans hsource)

/-- The preheader is found again in its rear part. -/
theorem Limited.rear_preheader {c : ι} {p : Label ι} (h : Limited o f₀ f)
    (hc : Counted o f₀ f l k p) (hout : l.contains (.block c) = false)
    (hedge : .block l.header ∈ f₀.successors (.block c)) : f.rear c = p := by
  refine hc.eq_preheader ?_ (by rw [h.layout.rear]; exact hedge)
  rcases rear_eq f c with hr | hr
  · rw [hr]
    exact hout
  · rw [hr]
    exact hout

/-- The check of a header compares the bound with the executions of the header so far, which are
the steps from it into the loop so far. -/
theorem Limited.check_header (h : Limited o f₀ f) (hk : f.counters[k]? = some l)
    (hq : f₀.getLoopPreheader l = some q) (hpath₀ : Path sem f₀ s₀ path (.block l.header) s)
    (hpath : Path sem f s₀ (f.detour path) (.block l.header) t) :
    o.maxIterations.sle (t.counter k) = decide (o.bound ≤ visits q (.block l.header) path) ∧
      entered l q (.block l.header :: path) = visits q (.block l.header) path := by
  obtain ⟨hmem, hnatural, ⟨latch, hsimple⟩, p, hc⟩ := h.loop k l hk
  obtain ⟨hout, hsuccessors, -⟩ := getLoopPreheader_eq_some h.source.wf hq
  have hedge : Label.block l.header ∈ f₀.successors q := hsuccessors ▸ List.mem_singleton_self _
  obtain ⟨c, rfl⟩ := h.source.plain q ((h.source.wf.domain q).mpr
    (block_ne_none_of_successor hedge))
  obtain rfl := h.rear_preheader hc hout hedge
  have hlaps := laps h.source hnatural hmem hq hpath₀
  have htrips := trips h.source h.layout hnatural hc hmem hpath
    (hsimple.straight_path h.source h.layout hpath)
  have hloop₀ : .block c ∈ path := by
    by_contra hnot
    exact Bool.false_ne_true ((hlaps.never hnot).symm.trans (region_header hmem))
  have hloop : f.rear c ∈ f.detour path := by
    by_contra hnot
    exact Bool.false_ne_true ((htrips.never hnot).symm.trans (region_header hmem))
  obtain ⟨hvisits, hentered⟩ := hlaps.header hloop₀ rfl
  obtain ⟨htotal, hle⟩ := htrips.header hloop rfl
  have hplain : ∀ u ∈ path, ∃ b, u = .block b := fun u hu => path_plain h.source hpath₀ u hu
  rw [hentered, hvisits]
  refine ⟨?_, rfl⟩
  rw [counter_eq_total hc hpath hloop, htotal, sle_ofNat hle, backEdges_detour hplain]

/-- The front part of a split header. -/
theorem Limited.front (h : Limited o f₀ f) (hsplit : f.block (.loopBody b) ≠ none) :
    ∃ k l, f.counters[k]? = some l ∧ l.header = b ∧ SilentLoop o f₀ l ∧
      f.terminator (.block b) = some (.condBr (.bound k) (.kleeExit b) (.loopBody b)) := by
  obtain ⟨l, hl, rfl⟩ := h.image.front b hsplit
  obtain ⟨k, hk⟩ := List.getElem?_of_mem hl
  obtain ⟨-, -, -, p, hc⟩ := h.loop k l hk
  cases hc.guard with
  | silent hmode _ hbranch => exact ⟨k, l, hk, rfl, hmode, hbranch⟩
  | widened e c succ0 succ1 _ _ hbody _ _ _ => exact absurd hbody hsplit

/-- **A block that no check stops** does in the instrumented function what it does in the
source. -/
theorem Limited.simulate_block (h : Limited o f₀ f)
    (hpath₀ : Path sem f₀ s₀ path (.block b) s₁)
    (htraced : Traced sem f s₀ (f.detour path) trace (.block b) t₁)
    (hmemory : t₁.memory = s₁.memory)
    (hpasses : Passes sem f₀ path.head? (.block b) s₁ events s₂ terminator)
    (hvisits : ∀ l ∈ f.counters, SilentLoop o f₀ l → l.header = b →
      ∃ q, f₀.getLoopPreheader l = some q ∧ visits q (.block b) path < o.bound) :
    ∃ trace' events' t₂ t₃ terminator',
      Traced sem f s₀ (f.approach b (f.detour path)) trace' (f.rear b) t₂ ∧
      Passes sem f (f.approach b (f.detour path)).head? (f.rear b) t₂ events' t₃ terminator' ∧
      trace' ++ events' = trace ++ events ∧ t₃.memory = s₂.memory ∧
      f.terminator (f.rear b) = some terminator' := by
  obtain ⟨values, events, hphis₀, hrecords, rfl, hterminator₀⟩ := hpasses.parts h.source
  have hphis : incomingValues (f.detour path).head? (f.phis (.block b)) = some values := by
    rw [head?_detour, h.phis fun u hu => path_plain h.source hpath₀ u (List.mem_of_mem_head? hu),
      hphis₀]
  obtain ⟨terminator', hterminator⟩ : ∃ terminator', f.terminator (f.rear b) = some terminator' := by
    rcases h.terminator_rear hterminator₀ with hsame | ⟨k, l, e, c, succ0, succ1, -, -, hnone, -, -,
      -, hbranch⟩
    · exact ⟨_, hsame⟩
    · exact ⟨_, rear_of_none hnone ▸ hbranch⟩
  obtain ⟨block, hblock, rfl⟩ := block_of_terminator hterminator
  by_cases hsplit : f.block (.loopBody b) = none
  · -- a block in one part
    rw [rear_of_none hsplit] at hblock hterminator
    have hcode := h.code.rear b
    rw [rear_of_none hsplit] at hcode
    obtain ⟨t₂, hinserted, ht₂⟩ := Passes.insert hblock hphis hcode (h.image.silent b).1 hrecords
      hmemory
    rw [approach_of_none hsplit, rear_of_none hsplit]
    exact ⟨_, _, _, _, _, htraced, hinserted, rfl, ht₂, hterminator⟩
  · -- the front part takes the values of the PHIs, and the check lets it through
    obtain ⟨k, l, hk, rfl, hsilent, hbranch⟩ := h.front hsplit
    obtain ⟨front, hfront, hbranch'⟩ := block_of_terminator hbranch
    obtain ⟨q, hq, hlt⟩ := hvisits l (List.mem_of_getElem? hk) hsilent rfl
    obtain ⟨hmem, -, -, p, hc⟩ := h.loop k l hk
    have hnothing : Records sem [] { s₁ with memory := sem.assign values s₁.memory } []
      { s₁ with memory := sem.assign values s₁.memory } := .nil
    obtain ⟨t₂, hpassed, ht₂⟩ := Passes.insert hfront hphis (h.code.front _ hsplit)
      (h.image.silent _).1 hnothing hmemory
    have hbound : t₂.bound k = false := by
      obtain ⟨hcheck, -⟩ := h.check_header hk hq hpath₀ htraced.path
      rw [hpassed.bound hc]
      exact hcheck.trans (decide_eq_false (Nat.not_le_of_lt hlt))
    have hgoes : Goes sem t₂ (.loopBody l.header) front.terminator := by
      rw [hbranch']
      show _ = if t₂.bound k = true then _ else _
      rw [hbound]
      rfl
    have harrived := htraced.step hpassed hgoes
    -- the rear part has no PHIs
    rw [rear_of_ne_none hsplit] at hblock hterminator
    have hcode := h.code.rear l.header
    rw [rear_of_ne_none hsplit] at hcode
    have hnone : incomingValues (some (.block l.header)) (f.phis (.loopBody l.header)) =
        some [] := by
      rw [h.image.body]
      rfl
    have hrecords' : Records sem (f₀.select Inst.isOriginal (.block l.header))
        { s₁ with memory := sem.assign [] (sem.assign values s₁.memory) } events s₂ := by
      rw [sem.assign_nil]
      exact hrecords
    obtain ⟨t₃, hinserted, ht₃⟩ := Passes.insert hblock hnone hcode (h.image.silent _).2
      hrecords' ht₂
    rw [approach_of_ne_none hsplit, rear_of_ne_none hsplit]
    refine ⟨_, _, _, _, _, harrived, hinserted, ?_, ht₃, hterminator⟩
    show trace ++ (_ ++ []) ++ ([] ++ events) = _
    rw [List.append_nil, List.nil_append, List.append_assoc]

omit [DecidableEq ι] in
/-- Without bound checks, a terminator depends on the memory only. -/
theorem goes_congr (hsource : f₀.Source) (hterminator : f₀.terminator u = some terminator)
    (hmemory : t.memory = s.memory) (h : Goes sem s v terminator) : Goes sem t v terminator := by
  cases terminator with
  | br target => exact h
  | condBr c succ0 succ1 =>
    obtain ⟨w, rfl⟩ := hsource.condition u c succ0 succ1 hterminator
    have hv : v = if sem.truth w s.memory = true then succ0 else succ1 := h
    show v = if sem.truth w t.memory = true then succ0 else succ1
    rw [hmemory]
    exact hv
  | other i exceptional targets =>
    obtain ⟨n, hn, htarget⟩ := h
    exact ⟨n, hmemory ▸ hn, htarget⟩
  | unreachable => cases h

/-- A wider branch goes where the branch went, if the bound lets it stay. -/
theorem goes_widened {exitFirst : Bool} {c : Cond V} {succ0 succ1 : Label ι}
    (hexit : f₀.exitSuccessor l = some exitFirst)
    (hterminator : f₀.terminator (.block l.header) = some (.condBr c succ0 succ1))
    (h : Goes sem t v (.condBr c succ0 succ1))
    (hstay : l.contains v = true → t.bound k = false) :
    Goes sem t v (widened exitFirst k succ0 succ1 c) := by
  obtain ⟨block, c', succ0', succ1', hblock, hbranch, hdiff, rfl⟩ := exitSuccessor_eq_some hexit
  rw [Func.terminator, hblock, Option.map_some, hbranch, Option.some.injEq,
    Terminator.condBr.injEq] at hterminator
  obtain ⟨-, rfl, rfl⟩ := hterminator
  have hv : v = if c.truth sem t = true then succ0' else succ1' := h
  -- the widened branch leaves by the same successor, and stays only while the bound is not reached
  cases h₀ : l.contains succ0' with
  | true =>
    show v = if (c.truth sem t && !t.bound k) = true then succ0' else succ1'
    cases hc : c.truth sem t with
    | true =>
      rw [hc, if_pos rfl] at hv
      rw [hstay (hv ▸ h₀)]
      exact hv
    | false =>
      rw [hc] at hv
      exact hv
  | false =>
    show v = if (c.truth sem t || t.bound k) = true then succ0' else succ1'
    cases hc : c.truth sem t with
    | true =>
      rw [hc] at hv
      exact hv
    | false =>
      rw [hc, if_neg Bool.false_ne_true] at hv
      have h₁ : l.contains succ1' = true := by
        rw [h₀] at hdiff
        exact Bool.eq_true_of_not_eq_false hdiff.symm
      rw [hstay (hv ▸ h₁)]
      exact hv

end Block

/-! ### Whole executions -/

/-- No check stops an execution: the headers of loops with `klee_silent_exit`, and the steps
into the others. -/
structure Fits (o : Options) (f₀ f : Func ι I V) (path us : List (Label ι)) : Prop where
  silent : ∀ l ∈ f.counters, SilentLoop o f₀ l → ∀ q, f₀.getLoopPreheader l = some q →
    ∀ m, visits q (.block l.header) (path.drop m) ≤ o.bound
  widened : ∀ l ∈ f.counters, ¬SilentLoop o f₀ l → ∀ q, f₀.getLoopPreheader l = some q →
    ∀ m, entered l q (us.drop m) ≤ o.bound

section Run

variable {sem : Semantics I V σ} {o : Options} {f₀ f : Func ι I V} {l : Loop ι} {k : Nat}
  {path : List (Label ι)} {trace : List (Event I V σ)} {u v q next : Label ι} {i : I} {memory : σ}
  {s₀ s : State σ}

theorem Fits.tail (h : Fits o f₀ f (u :: path) (v :: u :: path)) : Fits o f₀ f path (u :: path) :=
  ⟨fun l hl hs q hq m => h.silent l hl hs q hq (m + 1),
    fun l hl hs q hq m => h.widened l hl hs q hq (m + 1)⟩

theorem Fits.last (h : Fits o f₀ f (u :: path) (u :: path)) : Fits o f₀ f path (u :: path) :=
  ⟨fun l hl hs q hq m => h.silent l hl hs q hq (m + 1), h.widened⟩

/-- The check of a header that fits. -/
theorem Limited.visits_lt (h : Limited o f₀ f) {b : ι} {us : List (Label ι)}
    (hfits : Fits o f₀ f (.block b :: path) us) :
    ∀ l ∈ f.counters, SilentLoop o f₀ l → l.header = b →
      ∃ q, f₀.getLoopPreheader l = some q ∧ visits q (.block b) path < o.bound := by
  rintro l hl hsilent rfl
  obtain ⟨k, hk⟩ := List.getElem?_of_mem hl
  obtain ⟨hmem, -, ⟨t, hsimple⟩, -⟩ := h.loop k l hk
  obtain ⟨q, hq⟩ := Option.ne_none_iff_exists'.mp hsimple.preheader
  obtain ⟨hout, -, -⟩ := getLoopPreheader_eq_some h.source.wf hq
  have hne : Label.block l.header ≠ q := by
    rintro rfl
    exact Bool.false_ne_true (hout.symm.trans (decide_eq_true hmem))
  have hle := hfits.silent l hl hsilent q hq 0
  rw [List.drop_zero, visits_cons hne, if_pos rfl] at hle
  exact ⟨q, hq, hle⟩

/-- **Every execution that the checks let through is kept.** -/
theorem Limited.simulate (h : Limited o f₀ f) (htraced : Traced sem f₀ s₀ path trace next s)
    (hfits : Fits o f₀ f path (next :: path)) :
    ∃ t, Traced sem f s₀ (f.detour path) trace next t ∧ t.memory = s.memory := by
  induction htraced with
  | start =>
    refine ⟨s₀, ?_, rfl⟩
    rw [← h.layout.entry]
    exact .start
  | @step path trace events u v s₁ s₂ terminator htraced hpasses hgoes ih =>
    obtain ⟨t₁, hsim, hmemory⟩ := ih hfits.tail
    have hpath₀ := htraced.path
    obtain ⟨-, -, -, -, -, hterminator₀⟩ := hpasses.parts h.source
    obtain ⟨block, hblock, -⟩ := block_of_terminator hterminator₀
    obtain ⟨b, rfl⟩ := h.source.plain u ((h.source.wf.domain u).mpr (by rw [hblock]; simp))
    obtain ⟨trace', events', t₂, t₃, terminator', harrived, hpassed, htrace, ht₃, hterminator⟩ :=
      h.simulate_block hpath₀ hsim hmemory hpasses (h.visits_lt hfits)
    refine ⟨t₃, ?_, ht₃⟩
    rw [← htrace]
    refine harrived.step hpassed ?_
    have hgoes' := goes_congr h.source hterminator₀ ht₃ hgoes
    rcases h.terminator_rear hterminator₀ with hsame | ⟨k, l, e, c, succ0, succ1, hk, rfl, hnone,
      hloud, hexit, rfl, hbranch⟩
    · rw [Option.some.inj (hterminator.symm.trans hsame)]
      exact hgoes'
    · rw [rear_of_none hnone] at hterminator harrived hpassed
      rw [approach_of_none hnone] at harrived hpassed
      rw [Option.some.inj (hterminator.symm.trans hbranch)]
      refine goes_widened hexit hterminator₀ hgoes' fun hin => ?_
      -- a step into the loop that fits
      obtain ⟨hmem, -, ⟨t, hsimple⟩, p, hc⟩ := h.loop k l hk
      obtain ⟨q, hq⟩ := Option.ne_none_iff_exists'.mp hsimple.preheader
      obtain ⟨hout, -, -⟩ := getLoopPreheader_eq_some h.source.wf hq
      have hne : Label.block l.header ≠ q := by
        rintro rfl
        exact Bool.false_ne_true (hout.symm.trans (decide_eq_true hmem))
      have hle := hfits.widened l (List.mem_of_getElem? hk) hloud q hq 0
      obtain ⟨hcheck, hentered⟩ := h.check_header hk hq hpath₀ harrived.path
      rw [List.drop_zero, entered_cons hne, if_pos ⟨rfl, hin⟩, hentered] at hle
      rw [hpassed.bound hc]
      exact hcheck.trans (decide_eq_false (by omega))

theorem Limited.preserved (h : Limited o f₀ f) (hfin : Finishes sem f₀ s₀ path trace i memory)
    (hfits : Fits o f₀ f path path) : Preserved sem f s₀ path trace i memory := by
  cases hfin with
  | @mk path trace events u s t i exceptional targets terminator htraced hpasses hlast hpick =>
    obtain ⟨t₁, hsim, hmemory⟩ := h.simulate htraced hfits.last
    obtain ⟨-, -, -, -, -, hterminator₀⟩ := hpasses.parts h.source
    obtain ⟨block, hblock, -⟩ := block_of_terminator hterminator₀
    obtain ⟨b, rfl⟩ := h.source.plain u ((h.source.wf.domain u).mpr (by rw [hblock]; simp))
    obtain ⟨trace', events', t₂, t₃, terminator', harrived, hpassed, htrace, ht₃, hterminator⟩ :=
      h.simulate_block htraced.path hsim hmemory hpasses (h.visits_lt hfits)
    subst hlast
    rcases h.terminator_rear hterminator₀ with hsame | ⟨_, _, _, _, _, _, -, -, -, -, -, hbranch, -⟩
    · obtain rfl := Option.some.inj (hterminator.symm.trans hsame)
      refine ⟨f.detour (.block b :: path), filterMap_detour fun v hv => ?_, ?_,
        kleeExit_notMem_detour _⟩
      · rcases List.mem_cons.mp hv with rfl | hv
        · exact ⟨b, rfl⟩
        · exact path_plain h.source htraced.path v hv
      · rw [← htrace, ← ht₃]
        exact .mk harrived hpassed rfl (ht₃ ▸ hpick)
    · cases hbranch

/-! ### What an execution of the instrumented function says -/

theorem visits_origin (f : Func ι I V) (b c : ι) (path : List (Label ι)) :
    visits (f.rear c) (f.rear b) path =
      visits (.block c) (.block b) (path.filterMap f.origin) := by
  induction path with
  | nil => rfl
  | cons u path ih =>
    have hrear : ∀ a, u = f.rear a → f.origin u = some (.block a) := by
      rintro a rfl
      exact origin_rear f a
    by_cases hu : u = f.rear u.source
    · have hsame : ∀ a, u = f.rear a ↔ Label.block u.source = .block a := by
        intro a
        constructor
        · intro ha
          rw [rear_inj (hu.symm.trans ha)]
        · intro ha
          rw [← Label.block.inj ha]
          exact hu
      rw [List.filterMap_cons_some (hrear _ hu), visits, visits, ih]
      simp only [hsame]
    · have hne : ∀ a, u ≠ f.rear a := by
        rintro a rfl
        exact hu (by rw [rear_source])
      have hnone : f.origin u = none := if_neg hu
      rw [List.filterMap_cons_none hnone, visits, if_neg (hne c), if_neg (hne b), ih,
        Nat.add_zero]

omit [DecidableEq ι] in
theorem exists_drop_filterMap {g : Label ι → Option (Label ι)} (path : List (Label ι)) (m : Nat) :
    ∃ n, (path.filterMap g).drop m = (path.drop n).filterMap g := by
  induction path generalizing m with
  | nil => exact ⟨0, List.drop_nil⟩
  | cons u path ih =>
    cases hu : g u with
    | none =>
      obtain ⟨n, hn⟩ := ih m
      exact ⟨n + 1, by rw [List.filterMap_cons_none hu, hn, List.drop_succ_cons]⟩
    | some v =>
      cases m with
      | zero => exact ⟨0, rfl⟩
      | succ m =>
        obtain ⟨n, hn⟩ := ih m
        refine ⟨n + 1, ?_⟩
        rw [List.filterMap_cons_some hu, List.drop_succ_cons, hn, List.drop_succ_cons]

/-- What follows the check is executed once for each execution of the check. -/
theorem loopBody_once {b : ι} (hsource : f₀.Source) (hlayout : Layout f₀ f)
    (h : Path sem f s₀ path next s) :
    (∀ n, visits (.block b) (.loopBody b) (path.drop n) ≤ 1) ∧
      (next = .loopBody b → visits (.block b) (.loopBody b) path = 0) := by
  induction h with
  | start =>
    refine ⟨fun n => ?_, fun _ => rfl⟩
    rw [List.drop_nil]
    exact Nat.zero_le 1
  | @step path u v s t block values hpath hblock _ _ hgoes ih =>
    obtain ⟨honce, hfirst⟩ := ih
    refine ⟨fun n => ?_, fun hv => ?_⟩
    · cases n with
      | succ n => exact honce n
      | zero =>
        rw [List.drop_zero]
        by_cases hu : u = .block b
        · rw [visits, if_pos hu]
          exact Nat.zero_le 1
        · rw [visits_cons hu]
          by_cases hbody : u = .loopBody b
          · rw [hfirst hbody, if_pos hbody]
          · rw [if_neg hbody]
            exact honce 0
    · subst hv
      rcases edge_source hsource hlayout (mem_successors hblock (goes_mem_targets hgoes)) with
        ⟨c, rfl, hc | hc⟩ | ⟨c, hc, -, -⟩
      · rw [visits, if_pos (by rw [Label.loopBody.inj hc])]
      · cases hc
      · cases hc

/-- A split header that is behind its check was executed at most as often as the bound says. -/
theorem Limited.loopBody_bounded {p : Label ι} (h : Limited o f₀ f)
    (hk : f.counters[k]? = some l) (hc : Counted o f₀ f l k p)
    (hpath : Path sem f s₀ path next s) :
    visits p (.loopBody l.header) (next :: path) ≤ o.bound := by
  obtain ⟨hmem, hnatural, ⟨t, hsimple⟩, -⟩ := h.loop k l hk
  obtain ⟨honce, hfirst⟩ := loopBody_once (b := l.header) h.source h.layout hpath
  have htrips := trips h.source h.layout hnatural hc hmem hpath
    (hsimple.straight_path h.source h.layout hpath)
  have hexecuted := executed h.source h.layout hnatural hc hmem hsimple (region_loopBody hmem)
    (by simp) hpath honce
  have hlast := honce 0
  rw [List.drop_zero] at hlast
  -- the visits are counted since the preheader was last entered
  by_cases hnext : next = p
  · rw [visits, if_pos hnext]
    exact Nat.zero_le _
  · rw [visits_cons hnext]
    by_cases hloop : p ∈ path
    · -- in the loop now, the count is the trips begun; outside it, the trips made
      cases hregion : l.region next with
      | false =>
        have hne : next ≠ .loopBody l.header := by
          rintro rfl
          exact Bool.false_ne_true (hregion.symm.trans (region_loopBody hmem))
        rw [if_neg hne]
        exact hexecuted.outside hloop hregion
      | true =>
        by_cases hheader : next = .block l.header
        · have hle := hexecuted.header hloop hheader
          obtain ⟨-, hmax⟩ := htrips.header hloop hheader
          rw [if_neg (by rw [hheader]; simp)]
          omega
        · have hle := hexecuted.inside hloop hregion hheader
          obtain ⟨-, hlt, -⟩ := htrips.inside hloop hregion hheader
          by_cases hbody : next = .loopBody l.header
          · rw [hfirst hbody] at hle
            rw [if_pos hbody]
            omega
          · rw [if_neg hbody]
            omega
    · have hregion := htrips.never hloop
      have hne : next ≠ .loopBody l.header := by
        rintro rfl
        exact Bool.false_ne_true (hregion.symm.trans (region_loopBody hmem))
      rw [hexecuted.never hloop, if_neg hne]
      exact Nat.zero_le _

/-- **The headers of an execution that is kept.** -/
theorem Limited.headers_of_preserved (h : Limited o f₀ f) (hk : f.counters[k]? = some l)
    (hsilent : SilentLoop o f₀ l) (hq : f₀.getLoopPreheader l = some q)
    (hpreserved : Preserved sem f s₀ path trace i memory) (m : Nat) :
    visits q (.block l.header) (path.drop m) ≤ o.bound := by
  obtain ⟨path', rfl, hfin, -⟩ := hpreserved
  obtain ⟨hmem, -, -, p, hc⟩ := h.loop k l hk
  obtain ⟨hout, hsuccessors, -⟩ := getLoopPreheader_eq_some h.source.wf hq
  have hedge : Label.block l.header ∈ f₀.successors q := hsuccessors ▸ List.mem_singleton_self _
  obtain ⟨c, rfl⟩ := h.source.plain q ((h.source.wf.domain q).mpr
    (block_ne_none_of_successor hedge))
  obtain rfl := h.rear_preheader hc hout hedge
  have hrear : f.rear l.header = .loopBody l.header := by
    cases hc.guard with
    | silent _ hbody _ => exact rear_of_ne_none hbody
    | widened e c succ0 succ1 hmode hexit _ _ _ _ =>
      rw [hsilent hmode] at hexit
      cases hexit
  obtain ⟨n, hn⟩ := exists_drop_filterMap (g := f.origin) path' m
  rw [hn, ← visits_origin, hrear]
  -- a suffix of the path is an earlier part of the execution
  have hsuffix : ∀ {w : List (Label ι)} {next : Label ι} {s : State σ},
      Path sem f s₀ w next s → ∀ n, visits (f.rear c) (.loopBody l.header) ((next :: w).drop n) ≤
        o.bound := by
    intro w next s hpath
    induction hpath with
    | start =>
      intro n
      cases n with
      | zero => exact h.loopBody_bounded hk hc (Path.start : Path sem f s₀ [] f.entry s₀)
      | succ n =>
        rw [List.drop_succ_cons, List.drop_nil]
        exact Nat.zero_le _
    | step hpath hblock hphis hruns hgoes ih =>
      intro n
      cases n with
      | zero => exact h.loopBody_bounded hk hc (.step hpath hblock hphis hruns hgoes)
      | succ n => exact ih n
  cases hfin with
  | mk htraced => exact hsuffix htraced.path n

end Run

/-! ### The whole pass -/

theorem entered_le_visits (l : Loop ι) (q : Label ι) :
    ∀ path : List (Label ι), entered l q path ≤ visits q (.block l.header) path.tail
  | [] => Nat.le_refl 0
  | [_] => Nat.le_refl 0
  | v :: u :: path => by
    have hrest := entered_le_visits l q (u :: path)
    rw [List.tail_cons] at hrest ⊢
    by_cases hu : u = q
    · rw [entered, if_pos hu]
      exact Nat.zero_le _
    · rw [entered_cons hu, visits_cons hu]
      by_cases hheader : u = .block l.header
      · rw [if_pos hheader]
        split <;> omega
      · rw [if_neg hheader, if_neg fun hboth => hheader hboth.1]
        exact hrest

/-- A loop whose body is run that often is entered from its header at most that often. -/
theorem entered_le_of_bodyRuns {f : Func ι I V} {l : Loop ι} {q : Label ι} {n : Nat}
    {path : List (Label ι)} (h : ∀ m, bodyRuns f l q (path.drop m) ≤ n) (m : Nat) :
    entered l q (path.drop m) ≤ n := by
  by_cases htop : TopTested f l
  · have hle := h m
    rwa [bodyRuns, if_pos htop] at hle
  · have hle := h (m + 1)
    rw [bodyRuns, if_neg htop, ← List.tail_drop] at hle
    exact Nat.le_trans (entered_le_visits l q _) hle

section Pass

variable {sem : Semantics I V σ} {o : Options} {f₀ f : Func ι I V} {loops : List (Loop ι)}
  {path : List (Label ι)} {trace : List (Event I V σ)} {i : I} {memory : σ} {s₀ : State σ}

theorem run_limited (hsource : f₀.Source) (hincoming : f₀.Incoming) (hinfo : LoopInfo f₀ loops)
    (hsimple : ∀ l ∈ visited loops.reverse, ∃ t, Simplified f₀ l t)
    (hrun : run o f₀ loops = .ok f) : Limited o f₀ f := by
  obtain ⟨hlayout, hcode, hcounters⟩ := run_counted hsource hinfo.nest hrun
  obtain ⟨himage, -⟩ := run_image hsource hincoming hinfo.nest hrun
  refine ⟨hsource, hincoming, hlayout, hcode, himage, fun k l hk => ?_⟩
  obtain ⟨hvisited, hmem, hcounted⟩ := hcounters k l hk
  exact ⟨hmem, hinfo.natural l hvisited, hsimple l hvisited, hcounted⟩

/-- **Which bounded runs are preserved.** Of the terminating executions in which no entry into
a loop runs its body more than `N` times, the instrumented function has those that execute the
header of no loop with `klee_silent_exit` more than `N` times for one entry: the check stands in
front of the loop's own test, which a loop that leaves at its header makes once more than it
runs its body. -/
theorem bounded_run_preserved_iff (hsource : f₀.Source) (hincoming : f₀.Incoming)
    (hinfo : LoopInfo f₀ loops) (hsimple : ∀ l ∈ visited loops.reverse, ∃ t, Simplified f₀ l t)
    (hN : o.maxIterations.toNat ≤ 2 ^ 31 - 1) (hrun : run o f₀ loops = .ok f)
    (hfin : Finishes sem f₀ s₀ path trace i memory)
    (hbounded : Bounded f₀ loops o.maxIterations.toNat path) :
    Preserved sem f s₀ path trace i memory ↔
      (allowed o f₀.name = true → HeadersBounded o f₀ loops o.maxIterations.toNat path) := by
  have hlimited := run_limited hsource hincoming hinfo hsimple hrun
  obtain ⟨-, hinstrumented⟩ := run_image hsource hincoming hinfo.nest hrun
  have hbound : o.bound = o.maxIterations.toNat := by
    rw [Options.bound, BitVec.toInt_eq_toNat_of_lt (by omega), Int.toNat_natCast]
  constructor
  · intro hpreserved hallowed l hl hsilent q hq m
    obtain ⟨t, ht⟩ := hsimple l hl
    obtain ⟨k, hk⟩ := List.getElem?_of_mem (hinstrumented hallowed l hl t ht)
    exact hbound ▸ hlimited.headers_of_preserved hk hsilent hq hpreserved m
  · intro hheaders
    obtain ⟨-, -, hcounters⟩ := run_counted hsource hinfo.nest hrun
    have hvisited : ∀ l ∈ f.counters, l ∈ visited loops.reverse ∧ allowed o f₀.name = true := by
      intro l hl
      obtain ⟨k, hk⟩ := List.getElem?_of_mem hl
      refine ⟨(hcounters k l hk).1, ?_⟩
      by_contra hnot
      -- a function that is left alone has no counters
      rw [run, if_neg hnot] at hrun
      split at hrun
      · cases hrun
      · obtain rfl := Except.ok.inj hrun
        rw [hsource.counters] at hl
        cases hl
    refine hlimited.preserved hfin ⟨fun l hl hsilent q hq m => ?_, fun l hl _ q hq m => ?_⟩
    · obtain ⟨hmem, hallowed⟩ := hvisited l hl
      exact hbound ▸ hheaders hallowed l hmem hsilent q hq m
    · exact hbound ▸ entered_le_of_bodyRuns (hbounded l (hvisited l hl).1 q hq) m

/-- A memory that is counted down, and a condition that holds until it is 0. -/
def countdown : Semantics Unit Unit Nat where
  exec _ m m' := m' + 1 = m
  truth _ m := m != 0
  pick _ _ := none
  assign _ m := m
  assign_nil _ := rfl

/-- `while (n != 0) n--;` -/
def countdownLoop : Func Nat Unit Unit := .ofBlocks "f" 0
  [(0, ⟨[], [], .br (.block 1)⟩),
    (1, ⟨[], [], .condBr (.original ()) (.block 2) (.block 3)⟩),
    (2, ⟨[], [.original ()], .br (.block 1)⟩),
    (3, ⟨[], [], .other () false []⟩)]

/-- From 1, the loop makes one trip. -/
def one : State Nat := ⟨1, fun _ => 0, fun _ => false⟩

/-- The blocks of the execution from 1: the body once, the header twice. -/
def countdownPath : List (Label Nat) := [.block 3, .block 1, .block 2, .block 1, .block 0]

theorem countdownLoop_finishes :
    Finishes countdown countdownLoop one countdownPath [.exec () 0] () 0 := by
  have hpasses : ∀ {u : Label Nat} {is : List (Inst Unit)} {terminator : Terminator Nat Unit Unit}
      {prev : Option (Label Nat)} {events : List (Event Unit Unit Nat)} {s t : State Nat},
      countdownLoop.block u = some ⟨[], is, terminator⟩ → Records countdown is s events t →
      Passes countdown countdownLoop prev u s events t terminator := fun hblock hrecords =>
    .mk hblock rfl hrecords
  have hbody : Records countdown [.original ()] one [.exec () 0] { one with memory := 0 } :=
    .original rfl .nil
  have hentered : Traced countdown countdownLoop one [.block 1, .block 0] [] (.block 2) one :=
    .step (.step .start (hpasses rfl .nil) rfl) (hpasses rfl .nil) rfl
  have hlatch : Passes countdown countdownLoop (some (.block 1)) (.block 2) one [.exec () 0]
    { one with memory := 0 } (.br (.block 1)) := hpasses rfl hbody
  have hback : Traced countdown countdownLoop one [.block 2, .block 1, .block 0] [.exec () 0]
      (.block 1) { one with memory := 0 } :=
    hentered.step hlatch rfl
  exact .mk (hback.step (hpasses rfl .nil) rfl) (hpasses rfl .nil) rfl rfl

theorem drop_countdownPath (m : Nat) : countdownPath.drop (m + 5) = [] :=
  List.drop_eq_nil_of_le (Nat.le_add_left 5 m)

theorem countdownLoop_source : countdownLoop.Source :=
  source_ofBlocks (by decide) (by decide) (by decide) (by decide)

theorem countdownLoop_incoming : countdownLoop.Incoming := by
  intro u phi hphi
  rw [Func.phis] at hphi
  split at hphi
  · rename_i b hb
    obtain ⟨p, hp, -, rfl⟩ := block_ofBlocks hb
    have hnone : ∀ p ∈ [(0, (⟨[], [], .br (.block 1)⟩ : Block Nat Unit Unit)),
        (1, ⟨[], [], .condBr (.original ()) (.block 2) (.block 3)⟩),
        (2, ⟨[], [.original ()], .br (.block 1)⟩), (3, ⟨[], [], .other () false []⟩)],
        p.2.phis = [] := by simp
    rw [hnone p hp] at hphi
    cases hphi
  · cases hphi

theorem countdownLoop_info : LoopInfo countdownLoop [.mk 1 [1, 2] []] :=
  loopInfo_single (by decide) (natural_ofBlocks (by decide) (by decide))

theorem countdownLoop_simplified :
    ∀ l ∈ visited [Loop.mk 1 [1, 2] []].reverse, ∃ t, Simplified countdownLoop l t := by
  intro l hl
  rw [visited_single, List.mem_singleton] at hl
  subst hl
  exact ⟨2, by decide, by decide, by decide⟩

theorem countdownLoop_preheader {q : Label Nat}
    (h : countdownLoop.getLoopPreheader (.mk 1 [1, 2] []) = some q) : q = .block 0 :=
  Option.some.inj (h.symm.trans (by decide))

theorem countdownLoop_bounded {n : Nat} (hn : 1 ≤ n) :
    Bounded countdownLoop [.mk 1 [1, 2] []] n countdownPath := by
  intro l hl q hq m
  rw [visited_single, List.mem_singleton] at hl
  subst hl
  obtain rfl := countdownLoop_preheader hq
  refine Nat.le_trans ?_ hn
  match m with
  | 0 | 1 | 2 | 3 | 4 => decide
  | m + 5 =>
    rw [drop_countdownPath]
    decide

theorem bounded_run_preserved_countdownLoop : ∃ f,
    run ⟨2, [], [], false⟩ countdownLoop [.mk 1 [1, 2] []] = .ok f ∧
      Preserved countdown f one countdownPath [.exec () 0] () 0 := by
  have hrun := run_single ⟨2, [], [], false⟩ countdownLoop 1 [1, 2] rfl rfl
  refine ⟨_, hrun, (bounded_run_preserved_iff countdownLoop_source countdownLoop_incoming
    countdownLoop_info countdownLoop_simplified (by decide) hrun countdownLoop_finishes
    (countdownLoop_bounded (by decide))).mpr fun _ l hl _ q hq m => ?_⟩
  rw [visited_single, List.mem_singleton] at hl
  subst hl
  obtain rfl := countdownLoop_preheader hq
  match m with
  | 0 | 1 | 2 | 3 | 4 => decide
  | m + 5 =>
    rw [drop_countdownPath]
    decide

/-- With the bound 1, a single trip is one too many: the header is executed twice. -/
theorem countdownLoop_lost : ∃ f, countdownLoop.Source ∧ countdownLoop.Incoming ∧
    LoopInfo countdownLoop [.mk 1 [1, 2] []] ∧
    Simplified countdownLoop (.mk 1 [1, 2] []) 2 ∧
    run ⟨1, [], [], false⟩ countdownLoop [.mk 1 [1, 2] []] = .ok f ∧
    Finishes countdown countdownLoop one countdownPath [.exec () 0] () 0 ∧
    Bounded countdownLoop [.mk 1 [1, 2] []] 1 countdownPath ∧
    ¬Preserved countdown f one countdownPath [.exec () 0] () 0 := by
  have hrun := run_single ⟨1, [], [], false⟩ countdownLoop 1 [1, 2] rfl rfl
  have hlimited := run_limited countdownLoop_source countdownLoop_incoming countdownLoop_info
    countdownLoop_simplified hrun
  refine ⟨_, countdownLoop_source, countdownLoop_incoming, countdownLoop_info,
    ⟨by decide, by decide, by decide⟩, hrun, countdownLoop_finishes,
    countdownLoop_bounded (Nat.le_refl 1), fun hpreserved => ?_⟩
  have hpreheader : countdownLoop.getLoopPreheader (.mk 1 [1, 2] []) = some (.block 0) := by decide
  have hcounter : (countdownLoop.instrument ⟨1, [], [], false⟩ (.mk 1 [1, 2] [])).counters[0]? =
    some (.mk 1 [1, 2] []) := rfl
  have hle := hlimited.headers_of_preserved hcounter (fun hbreak => by cases hbreak) hpreheader
    hpreserved 0
  have htwo : visits (.block 0) (.block 1) countdownPath = 2 := rfl
  exact absurd (htwo ▸ hle) (by decide)

end Pass

end KleeDeps.LoopLimiter
