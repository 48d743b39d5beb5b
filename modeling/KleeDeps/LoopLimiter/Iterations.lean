import KleeDeps.LoopLimiter.Bound

/-!
# Iterations

What the counters of an instrumented function say.

- `counter_eq_backEdges`: **several latches**. At the header the counter is the number of
  back-edges along every execution whose latches are straight; a latch that goes on inside of
  the loop, or has two edges to the header, is counted although no trip ended
  (`conditionalLatch_counted_twice`).
- `iteration_bound`: **the bound of a loop in loop-simplify form**, in both modes.
- `body_at_most_bound`: **the body runs at most `N` times**, unless it is part of a header whose
  exit was widened; such a header runs once more (`bottomTested_runs_twice`).
-/

namespace KleeDeps.LoopLimiter

variable {ι I V σ : Type*}

/-- Loop-simplify form: a preheader, and a single latch whose only successor in the loop is the
header. -/
structure Simplified [DecidableEq ι] (f : Func ι I V) (l : Loop ι) (latch : ι) : Prop where
  preheader : f.getLoopPreheader l ≠ none
  latches : f.getLoopLatches l = [.block latch]
  straight : ∀ v ∈ f.successors (.block latch), l.contains v = true → v = .block l.header

/-! ### Samples -/

/-- Conditions that are constant. -/
def constants : Semantics Unit Bool Unit where
  exec _ _ _ := True
  truth v _ := v
  pick _ _ := none
  assign _ _ := ()
  assign_nil _ := rfl

theorem constants_executes (s : State Unit) :
    Executes constants s (.original ()) { s with memory := () } :=
  .original trivial

def zeros : State Unit := ⟨(), fun _ => 0, fun _ => false⟩

/-- A block without PHIs and instructions. -/
def Terminator.alone (t : Terminator Nat Unit Bool) : Block Nat Unit Bool := ⟨[], [], t⟩

/-- A loop that is tested at the top and never left, with a block for its body. -/
def whileLoop : Func Nat Unit Bool := .ofBlocks "f" 0
  [(0, (Terminator.br (.block 1)).alone),
    (1, (Terminator.condBr (.original true) (.block 2) (.block 3)).alone),
    (2, (Terminator.br (.block 1)).alone),
    (3, (Terminator.other () false []).alone)]

theorem whileLoop_source : whileLoop.Source :=
  source_ofBlocks (by decide) (by decide) (by decide) (by decide)

theorem whileLoop_info : LoopInfo whileLoop [.mk 1 [1, 2] []] :=
  loopInfo_single (by decide) (natural_ofBlocks (by decide) (by decide))

/-- A loop whose latch 2 leads to the header or to the latch 3. -/
def conditionalLatch : Func Nat Unit Bool := .ofBlocks "f" 0
  [(0, (Terminator.br (.block 1)).alone),
    (1, (Terminator.condBr (.original true) (.block 2) (.block 4)).alone),
    (2, (Terminator.condBr (.original false) (.block 1) (.block 3)).alone),
    (3, (Terminator.br (.block 1)).alone),
    (4, (Terminator.other () false []).alone)]

theorem conditionalLatch_source : conditionalLatch.Source :=
  source_ofBlocks (by decide) (by decide) (by decide) (by decide)

theorem conditionalLatch_info : LoopInfo conditionalLatch [.mk 1 [1, 2, 3] []] :=
  loopInfo_single (by decide) (natural_ofBlocks (by decide) (by decide))

/-- A loop that is tested at the bottom: its only block is header, body and latch. -/
def bottomTested : Func Nat Unit Bool := .ofBlocks "f" 0
  [(0, (Terminator.br (.block 1)).alone),
    (1, ⟨[], [.original ()], .condBr (.original true) (.block 1) (.block 2)⟩),
    (2, (Terminator.other () false []).alone)]

theorem bottomTested_source : bottomTested.Source :=
  source_ofBlocks (by decide) (by decide) (by decide) (by decide)

theorem bottomTested_info : LoopInfo bottomTested [.mk 1 [1] []] :=
  loopInfo_single (by decide) (natural_ofBlocks (by decide) (by decide))

theorem bottomTested_simplified : Simplified bottomTested (.mk 1 [1] []) 1 :=
  ⟨by decide, by decide, by decide⟩

variable [DecidableEq ι]

theorem Counted.eq_preheader {o : Options} {f₀ f : Func ι I V} {l : Loop ι} {k : Nat}
    {p q : Label ι} (h : Counted o f₀ f l k q) (houtside : l.region p = false)
    (hp : .block l.header ∈ f.successors p) : p = q := by
  rcases h.entering p hp with hregion | hq
  · exact absurd (houtside.symm.trans hregion) Bool.false_ne_true
  · exact hq

/-- A path that is cut in the header was there with the bound reached. -/
theorem bound_of_cut {sem : Semantics I V σ} {o : Options} {f₀ f : Func ι I V} {l : Loop ι}
    {k : Nat} {p : Label ι} {b : Block ι I V} {t : State σ} (hsource : f₀.Source)
    (hlayout : Layout f₀ f) (hc : Counted o f₀ f l k p)
    (hblock : f.block (.block l.header) = some b)
    (hgoes : Goes sem t (.kleeExit l.header) b.terminator) : t.bound k = true := by
  cases hc.guard with
  | silent hmode hbody hbranch =>
    rw [Func.terminator, hblock] at hbranch
    rw [Option.some.inj hbranch] at hgoes
    have hv : Label.kleeExit l.header =
      if t.bound k = true then .kleeExit l.header else .loopBody l.header := hgoes
    by_contra hbound
    rw [if_neg hbound] at hv
    cases hv
  | widened exitFirst c succ0 succ1 hmode hexit hbody hbefore hbranch hleaves =>
    -- a header that was not split has the edges of the source
    have hv := mem_successors hblock (goes_mem_targets hgoes)
    rw [← rear_of_none hbody, hlayout.rear] at hv
    obtain ⟨c, hc⟩ := hsource.plain _ (hsource.wf.closed _ _ hv)
    cases hc

section Several

variable {sem : Semantics I V σ} {o : Options} {f₀ f : Func ι I V} {loops : List (Loop ι)}
  {l : Loop ι} {k : Nat} {p : Label ι} {path : List (Label ι)} {s₀ s : State σ}

/-- **The counter at the header is the number of back-edges** since the last execution of the
preheader, along every execution whose latches are straight; and a path that is cut there made
as many complete trips as the bound says. -/
theorem counter_eq_backEdges (hsource : f₀.Source) (hinfo : LoopInfo f₀ loops)
    (hrun : run o f₀ loops = .ok f) (hk : f.counters[k]? = some l)
    (houtside : l.region p = false) (hp : .block l.header ∈ f.successors p)
    (h : Path sem f s₀ path (.block l.header) s)
    (hstraight : Straight f l path (.block l.header)) :
    (s.counter k).toNat = backEdges l p path (.block l.header) ∧
      ∀ t, Path sem f s₀ (.block l.header :: path) (.kleeExit l.header) t →
        backEdges l p path (.block l.header) = o.bound := by
  obtain ⟨hlayout, -, hcounters⟩ := run_counted hsource hinfo.nest hrun
  obtain ⟨hvisited, hmem, q, hc⟩ := hcounters k l hk
  obtain rfl := hc.eq_preheader houtside hp
  have htrips := trips hsource hlayout (hinfo.natural l hvisited) hc hmem h hstraight
  have hloop : p ∈ path := by
    by_contra hp
    exact Bool.false_ne_true ((htrips.never hp).symm.trans (region_header hmem))
  obtain ⟨htotal, hle⟩ := htrips.header hloop rfl
  constructor
  · rw [counter_eq_total hc h hloop, htotal, BitVec.toNat_ofNat]
    have hlimit : o.maxIterations.toInt < 2 ^ 31 := BitVec.toInt_lt
    rw [Options.bound] at hle
    exact Nat.mod_eq_of_lt (by omega)
  · intro t hcut
    cases hcut with
    | step hpath hblock _ hruns hgoes =>
      have hbound := bound_of_cut hsource hlayout hc hblock hgoes
      rw [bound_header hc hblock hruns] at hbound
      change o.maxIterations.sle (State.counter _ k) = true at hbound
      rw [counter_eq_total hc hpath hloop, htotal, sle_ofNat hle] at hbound
      exact Nat.le_antisymm hle (of_decide_eq_true hbound)

theorem counter_eq_backEdges_whileLoop : ∃ f path s,
    run ⟨5, [], [], false⟩ whileLoop [.mk 1 [1, 2] []] = .ok f ∧
      Path constants f zeros path (.block 1) s ∧
      (s.counter 0).toNat = 1 ∧ backEdges (.mk 1 [1, 2] []) (.block 0) path (.block 1) = 1 := by
  have hrun := run_single ⟨5, [], [], false⟩ whileLoop 1 [1, 2] rfl rfl
  have hpath : Path constants (whileLoop.instrument ⟨5, [], [], false⟩ (.mk 1 [1, 2] [])) zeros
      [.block 2, .loopBody 1, .block 1, .block 0] (.block 1) _ :=
    .step (.step (.step (.step .start rfl rfl (.cons .storeZero .nil) rfl)
      rfl rfl (.cons .boundCheck .nil) rfl) rfl rfl .nil rfl) rfl rfl (.cons .increment .nil) rfl
  have hcounter := (counter_eq_backEdges (k := 0) (p := .block 0) whileLoop_source whileLoop_info
    hrun rfl (by decide) (by decide) hpath (by decide)).1
  exact ⟨_, _, _, hrun, hpath, hcounter, rfl⟩

/-- The latch 2 is counted although the trip goes on: after one trip the counter is 2. -/
theorem conditionalLatch_counted_twice : ∃ f path s, conditionalLatch.Source ∧
    LoopInfo conditionalLatch [.mk 1 [1, 2, 3] []] ∧
    run ⟨5, [], [], false⟩ conditionalLatch [.mk 1 [1, 2, 3] []] = .ok f ∧
      f.counters[0]? = some (.mk 1 [1, 2, 3] []) ∧ .block 1 ∈ f.successors (.block 0) ∧
      Path constants f zeros path (.block 1) s ∧ (s.counter 0).toNat = 2 ∧
      backEdges (.mk 1 [1, 2, 3] []) (.block 0) path (.block 1) = 1 := by
  have hrun := run_single ⟨5, [], [], false⟩ conditionalLatch 1 [1, 2, 3] rfl rfl
  have hpath : Path constants
      (conditionalLatch.instrument ⟨5, [], [], false⟩ (.mk 1 [1, 2, 3] [])) zeros
      [.block 3, .block 2, .loopBody 1, .block 1, .block 0] (.block 1) _ :=
    .step (.step (.step (.step (.step .start rfl rfl (.cons .storeZero .nil) rfl)
      rfl rfl (.cons .boundCheck .nil) rfl) rfl rfl .nil rfl)
      rfl rfl (.cons .increment .nil) rfl) rfl rfl (.cons .increment .nil) rfl
  exact ⟨_, _, _, conditionalLatch_source, conditionalLatch_info, hrun, rfl, by decide, hpath,
    rfl, rfl⟩

end Several

/-! ### One latch -/

/-- The part of a latch that holds the increment: a header keeps it in front of its own check,
another block takes it along when it is split. -/
def Func.latch (f : Func ι I V) (l : Loop ι) (latch : ι) : Label ι :=
  if latch = l.header then .block latch else f.rear latch

section Single

variable {sem : Semantics I V σ} {o : Options} {f₀ f : Func ι I V} {loops : List (Loop ι)}
  {l : Loop ι} {k : Nat} {p u v : Label ι} {t : ι} {path : List (Label ι)} {next : Label ι}
  {s₀ s : State σ}

theorem Simplified.count (hsource : f₀.Source) (h : Simplified f₀ l t) :
    t ∈ l.blocks ∧ (f₀.successors (.block t)).count (.block l.header) = 1 ∧
      ∀ b ∈ l.blocks, .block l.header ∈ f₀.successors (.block b) → b = t := by
  have hcount := count_getLoopLatches hsource.wf l
  rw [h.latches] at hcount
  have hcontains : ∀ b, l.contains (.block b) = true ↔ b ∈ l.blocks := fun b =>
    decide_eq_true_iff
  have hmem : t ∈ l.blocks := by
    by_contra hout
    have hone := hcount (.block t)
    rw [List.count_singleton_self, if_neg fun hin => hout ((hcontains t).mp hin)] at hone
    omega
  refine ⟨hmem, ?_, fun b hb hedge => ?_⟩
  · have hone := hcount (.block t)
    rw [List.count_singleton_self, if_pos ((hcontains t).mpr hmem)] at hone
    exact hone.symm
  · have hmore := hcount (.block b)
    rw [if_pos ((hcontains b).mpr hb)] at hmore
    have hpos := List.count_pos_iff.mpr hedge
    rw [← hmore] at hpos
    exact Label.block.inj (List.mem_singleton.mp (List.count_pos_iff.mp hpos))

/-- Only the latch leads to the header, by one edge, and nowhere else in the loop. -/
theorem Simplified.edges (hsource : f₀.Source) (hlayout : Layout f₀ f) (h : Simplified f₀ l t)
    (hu : l.region u = true) (hedge : .block l.header ∈ f.successors u) :
    u = f.rear t ∧ (f.successors u).count (.block l.header) = 1 ∧
      ∀ v ∈ f.successors u, l.region v = true → v = .block l.header := by
  obtain ⟨-, hone, honly⟩ := h.count hsource
  rcases edge_source hsource hlayout hedge with ⟨b, -, hb | hb⟩ | ⟨c, hc, hrear, hmem⟩
  · cases hb
  · cases hb
  · have hsame : u.source ∈ l.blocks := by
      cases u with
      | block b => exact of_decide_eq_true hu
      | loopBody b => exact of_decide_eq_true hu
      | kleeExit b => cases hu
    have ht : u.source = t := honly _ hsame (hc ▸ hmem)
    have hsuccessors : f.successors u = f₀.successors (.block t) := by
      rw [hrear, hlayout.rear, ht]
    refine ⟨ht ▸ hrear, hsuccessors ▸ hone, fun v hv hregion => ?_⟩
    rw [hsuccessors] at hv
    obtain ⟨d, rfl⟩ := hsource.plain v (hsource.wf.closed _ _ hv)
    exact h.straight _ hv hregion

/-- So every execution is straight. -/
theorem Simplified.straight_path (hsource : f₀.Source) (hlayout : Layout f₀ f)
    (h : Simplified f₀ l t) (hpath : Path sem f s₀ path next s) : Straight f l path next := by
  induction hpath with
  | start => trivial
  | step _ hblock _ _ hgoes ih =>
    refine ⟨fun hu hedge => ?_, ih⟩
    obtain ⟨-, hone, hstraight⟩ := h.edges hsource hlayout hu hedge
    exact ⟨hone, hstraight _ (mem_successors hblock (goes_mem_targets hgoes))⟩

/-- Executions of the latch are what is counted. -/
theorem Simplified.ticks (hsource : f₀.Source) (hlayout : Layout f₀ f) (h : Simplified f₀ l t)
    (hmem : l.header ∈ l.blocks) (u : Label ι) :
    ticks f₀ f l u = if u = f.latch l t then 1 else 0 := by
  obtain ⟨ht, hone, honly⟩ := h.count hsource
  -- the header ticks once for each edge of its own back to itself
  by_cases h₁ : u = .block l.header
  · subst h₁
    rw [ticks_header, Func.latch]
    by_cases hth : t = l.header
    · rw [← hth] at hone ⊢
      rw [if_pos rfl, if_pos rfl, hone]
    · have hne : Label.block l.header ≠ f.rear t := by
        intro heq
        rcases rear_eq f t with hr | hr
        · exact hth (Label.block.inj (hr.symm.trans heq.symm))
        · cases heq.trans hr
      rw [if_neg hth, if_neg hne, List.count_eq_zero]
      exact fun hedge => hth (honly _ hmem hedge).symm
  · by_cases h₂ : u = .loopBody l.header
    · subst h₂
      rw [ticks_loopBody, Func.latch, if_neg]
      split
      · exact fun heq => by cases heq
      · rename_i hth
        intro heq
        rcases rear_eq f t with hr | hr
        · cases heq.trans hr
        · exact hth (Label.loopBody.inj (heq.trans hr)).symm
    · -- outside the region nothing ticks, and the latch lies inside
      cases hu : l.region u with
      | false =>
        rw [ticks_outside hmem hu, if_neg]
        rintro rfl
        have hregion : l.region (f.latch l t) = true := by
          rw [Func.latch]
          split
          · exact decide_eq_true ht
          · rcases rear_eq f t with hr | hr
            · rw [hr]
              exact decide_eq_true ht
            · rw [hr]
              exact decide_eq_true ht
        exact Bool.false_ne_true (hu.symm.trans hregion)
      | true =>
        rw [ticks_inside hu h₁ h₂]
        -- inside, a block ticks when it goes back to the header: `edges` makes it the latch
        by_cases hedge : .block l.header ∈ f.successors u
        · obtain ⟨hrear, hcount, -⟩ := h.edges hsource hlayout hu hedge
          have hth : t ≠ l.header := by
            rintro rfl
            rcases rear_eq f l.header with hr | hr
            · exact h₁ (hrear.trans hr)
            · exact h₂ (hrear.trans hr)
          rw [hcount, Func.latch, if_neg hth, if_pos hrear]
        · rw [List.count_eq_zero.mpr hedge, if_neg]
          rintro rfl
          refine hedge ?_
          have hlatch : f.latch l t = f.rear t := by
            rw [Func.latch]
            split
            · rename_i hth
              exact absurd (by rw [Func.latch, if_pos hth, hth]) h₁
            · rfl
          rw [hlatch, hlayout.rear]
          exact List.count_pos_iff.mp (by omega)

theorem Simplified.total (hsource : f₀.Source) (hlayout : Layout f₀ f) (h : Simplified f₀ l t)
    (hmem : l.header ∈ l.blocks) (p : Label ι) (path : List (Label ι)) :
    total f₀ f l p path = visits p (f.latch l t) path := by
  induction path with
  | nil => rfl
  | cons u path ih => rw [LoopLimiter.total, visits, ih, h.ticks hsource hlayout hmem]

/-- **The iteration bound**: after the preheader was executed, the loop takes its back-edge at
most `N` times before it is executed again, and the counter is the number of executions of the
latch, which does not wrap. -/
theorem iteration_bound (hsource : f₀.Source) (hinfo : LoopInfo f₀ loops)
    (hsimple : Simplified f₀ l t) (hN : o.maxIterations.toNat < 2 ^ 31 - 1)
    (hrun : run o f₀ loops = .ok f) (hk : f.counters[k]? = some l)
    (houtside : l.region p = false) (hp : .block l.header ∈ f.successors p)
    (h : Path sem f s₀ path next s) (hloop : p ∈ path) :
    backEdges l p path next ≤ o.maxIterations.toNat ∧
      (s.counter k).toNat = visits p (f.latch l t) path ∧
      visits p (f.latch l t) path < 2 ^ 31 := by
  obtain ⟨hlayout, -, hcounters⟩ := run_counted hsource hinfo.nest hrun
  obtain ⟨hvisited, hmem, q, hc⟩ := hcounters k l hk
  obtain rfl := hc.eq_preheader houtside hp
  have htrips := trips hsource hlayout (hinfo.natural l hvisited) hc hmem h
    (hsimple.straight_path hsource hlayout h)
  have hbound : o.bound = o.maxIterations.toNat := by
    rw [Options.bound, BitVec.toInt_eq_toNat_of_lt (by omega), Int.toNat_natCast]
  have htotal := hsimple.total hsource hlayout hmem p path
  -- the header itself ticks at most once, so the total is the trips or one more
  have hone : LoopLimiter.ticks f₀ f l (.block l.header) ≤ 1 := by
    rw [hsimple.ticks hsource hlayout hmem]
    split <;> omega
  have hedges : backEdges l p path next ≤ o.maxIterations.toNat ∧
      LoopLimiter.total f₀ f l p path ≤ backEdges l p path next + 1 := by
    cases hregion : l.region next with
    | false =>
      obtain ⟨hle, hmax⟩ := htrips.outside hloop hregion
      omega
    | true =>
      by_cases hheader : next = .block l.header
      · obtain ⟨heq, hmax⟩ := htrips.header hloop hheader
        omega
      · obtain ⟨heq, hmax, -⟩ := htrips.inside hloop hregion hheader
        omega
  refine ⟨hedges.1, ?_, by omega⟩
  rw [counter_eq_total hc h hloop, ← htotal, BitVec.toNat_ofNat]
  exact Nat.mod_eq_of_lt (by omega)

theorem iteration_bound_whileLoop : ∃ f path s,
    run ⟨1, [], [], true⟩ whileLoop [.mk 1 [1, 2] []] = .ok f ∧
      Path constants f zeros path (.block 1) s ∧
      backEdges (.mk 1 [1, 2] []) (.block 0) path (.block 1) ≤ 1 ∧ (s.counter 0).toNat = 1 := by
  have hrun := run_single ⟨1, [], [], true⟩ whileLoop 1 [1, 2] rfl rfl
  have hpath : Path constants (whileLoop.instrument ⟨1, [], [], true⟩ (.mk 1 [1, 2] [])) zeros
      [.block 2, .block 1, .block 0] (.block 1) _ :=
    .step (.step (.step .start rfl rfl (.cons .storeZero .nil) rfl)
      rfl rfl (.cons .boundCheck .nil) rfl) rfl rfl (.cons .increment .nil) rfl
  have hsimple : Simplified whileLoop (.mk 1 [1, 2] []) 2 :=
    ⟨by decide, by decide, by decide⟩
  obtain ⟨hedges, hcounter, -⟩ := iteration_bound (k := 0) (p := .block 0) whileLoop_source
    whileLoop_info hsimple (by decide) hrun rfl (by decide) (by decide) hpath (by decide)
  exact ⟨_, _, _, hrun, hpath, hedges, hcounter⟩

end Single

/-! ### The body -/

/-- A loop that is tested at the top: its header can leave it and is not its latch. -/
def TopTested (f : Func ι I V) (l : Loop ι) : Prop :=
  (∃ v ∈ f.successors (.block l.header), l.contains v = false) ∧
    .block l.header ∉ f.successors (.block l.header)

/-- The instructions of the body: all those of the loop but the ones that a header needs to
evaluate its own exit condition, if the loop is tested at the top. -/
def BodyInst (f : Func ι I V) (l : Loop ι) (needed : I → Prop) (b : ι) (i : I) : Prop :=
  b ∈ l.blocks ∧ .original i ∈ f.select Inst.isOriginal (.block b) ∧
    ¬(b = l.header ∧ TopTested f l ∧ needed i)

section Body

variable {sem : Semantics I V σ} {o : Options} {f₀ f : Func ι I V} {loops : List (Loop ι)}
  {l : Loop ι} {k : Nat} {p u v w : Label ι} {t : ι} {path : List (Label ι)} {next : Label ι}
  {s₀ s : State σ}

/-- How often a block of the loop was executed, when it is executed at most once in a trip. -/
structure Executed (o : Options) (l : Loop ι) (p u : Label ι) (path : List (Label ι))
    (next : Label ι) : Prop where
  never : p ∉ path → visits p u path = 0
  header : p ∈ path → next = .block l.header → visits p u path ≤ backEdges l p path next
  inside : p ∈ path → l.region next = true → next ≠ .block l.header →
    visits p u path ≤ backEdges l p path next + visits (.block l.header) u path
  outside : p ∈ path → l.region next = false → visits p u path ≤ o.bound

theorem visits_cons (hw : w ≠ p) :
    visits p u (w :: path) = visits p u path + if w = u then 1 else 0 :=
  if_neg hw

/-- A step outside of the loop. -/
theorem Executed.away (hu : l.region u = true) (hmem : l.header ∈ l.blocks) (hwp : w ≠ p)
    (hw : l.region w = false) (hv : l.region v = false) (h : Executed o l p u path w) :
    Executed o l p u (w :: path) v := by
  have hwu : w ≠ u := by
    rintro rfl
    exact Bool.false_ne_true (hw.symm.trans hu)
  have hsame : visits p u (w :: path) = visits p u path := by
    rw [visits_cons hwp, if_neg hwu, Nat.add_zero]
  refine ⟨fun hp => ?_, fun _ hheader => ?_, fun _ hregion => ?_, fun hp _ => ?_⟩
  · rw [hsame]
    exact h.never fun hmem => hp (List.mem_cons_of_mem w hmem)
  · rw [hheader, region_header hmem] at hv
    cases hv
  · exact absurd (hv.symm.trans hregion) Bool.false_ne_true
  · rw [hsame]
    exact h.outside ((List.mem_cons.mp hp).resolve_left (Ne.symm hwp)) hw

/-- A step of the loop: the block may be executed if it was not yet in this trip. -/
theorem Executed.trip (hu : u ≠ .block l.header) (hwp : w ≠ p) (hw : l.region w = true)
    (htrips : Trips o f₀ f l p path w) (honce : visits (.block l.header) u (w :: path) ≤ 1)
    (h : Executed o l p u path w) : Executed o l p u (w :: path) v := by
  have hloop : p ∈ path := by
    by_contra hp
    exact Bool.false_ne_true ((htrips.never hp).symm.trans hw)
  by_cases hheader : w = .block l.header
  · -- a new trip begins
    subst hheader
    have hle := h.header hloop rfl
    obtain ⟨-, hbound⟩ := htrips.header hloop rfl
    have hsame : visits p u (.block l.header :: path) = visits p u path := by
      rw [visits_cons hwp, if_neg (Ne.symm hu), Nat.add_zero]
    refine ⟨fun hp => absurd (List.mem_cons_of_mem _ hloop) hp, fun _ _ => ?_, fun _ _ _ => ?_,
      fun _ _ => ?_⟩
    · rw [hsame, backEdges_cons hwp]
      omega
    · rw [hsame, backEdges_cons hwp]
      omega
    · rw [hsame]
      omega
  · have hle := h.inside hloop hw hheader
    obtain ⟨-, hlt, -⟩ := htrips.inside hloop hw hheader
    have htrip : visits (.block l.header) u (w :: path) =
        visits (.block l.header) u path + if w = u then 1 else 0 := visits_cons hheader
    rw [htrip] at honce
    refine ⟨fun hp => absurd (List.mem_cons_of_mem _ hloop) hp, fun _ hv => ?_, fun _ _ hv => ?_,
      fun _ _ => ?_⟩
    · have hedge : backEdges l p (w :: path) v = backEdges l p path w + 1 := by
        rw [backEdges_cons hwp, if_pos ⟨hw, hv⟩]
      rw [visits_cons hwp, hedge]
      omega
    · have hedge : backEdges l p (w :: path) v = backEdges l p path w := by
        rw [backEdges_cons hwp, if_neg fun hboth => hv hboth.2, Nat.add_zero]
      rw [visits_cons hwp, hedge, htrip]
      omega
    · rw [visits_cons hwp]
      omega

theorem executed (hsource : f₀.Source) (hlayout : Layout f₀ f) (hnatural : Natural f₀ l)
    (hc : Counted o f₀ f l k p) (hmem : l.header ∈ l.blocks) (hsimple : Simplified f₀ l t)
    (hu : l.region u = true) (hne : u ≠ .block l.header) (h : Path sem f s₀ path next s)
    (honce : ∀ n, visits (.block l.header) u (path.drop n) ≤ 1) :
    Executed o l p u path next := by
  induction h with
  | start =>
    exact ⟨fun _ => rfl, fun hp => absurd hp List.not_mem_nil,
      fun hp => absurd hp List.not_mem_nil, fun hp => absurd hp List.not_mem_nil⟩
  | @step path w v s t' b values hpath hblock _ _ hgoes ih =>
    have hexecuted := ih fun n => honce (n + 1)
    have hv := mem_successors hblock (goes_mem_targets hgoes)
    have hstraight := hsimple.straight_path hsource hlayout hpath
    have htrips := trips hsource hlayout hnatural hc hmem hpath hstraight
    by_cases hwp : w = p
    · subst hwp
      -- the preheader starts the count of visits anew
      have hzero : visits w u (w :: path) = 0 := if_pos rfl
      refine ⟨fun _ => hzero, fun _ _ => ?_, fun _ _ _ => ?_, fun _ _ => ?_⟩
      · rw [hzero]
        exact Nat.zero_le _
      · rw [hzero]
        exact Nat.zero_le _
      · rw [hzero]
        exact Nat.zero_le _
    · cases hw : l.region w with
      | false =>
        refine hexecuted.away hu hmem hwp hw (Bool.eq_false_iff.mpr fun hregion => ?_)
        exact Bool.false_ne_true (hw.symm.trans
          (region_of_edge hsource hlayout hnatural hc hpath hwp hv hregion))
      | true => exact hexecuted.trip hne hwp hw htrips (honce 0)

/-- **The body is executed at most as often as the bound says** between two executions of the
preheader, if it does not belong to a header whose exit was widened: such a header is executed
once more. Instructions that a trip executes several times belong to a loop inside. -/
theorem body_at_most_bound {needed : I → Prop} {b : ι} {i : I} (hsource : f₀.Source)
    (hinfo : LoopInfo f₀ loops) (hsimple : Simplified f₀ l t) (hrun : run o f₀ loops = .ok f)
    (hk : f.counters[k]? = some l) (houtside : l.region p = false)
    (hp : .block l.header ∈ f.successors p)
    (hcondition : o.breakMode = false ∨ f₀.exitSuccessor l = none ∨
      ∀ j, ¬BodyInst f₀ l needed l.header j)
    (hbody : BodyInst f₀ l needed b i) (hu : u = .block b ∨ u = .loopBody b)
    (hi : .original i ∈ f.select Inst.isOriginal u) (h : Path sem f s₀ path next s)
    (honce : ∀ n, visits (.block l.header) u (path.drop n) ≤ 1) :
    visits p u path ≤ o.maxIterations.toNat := by
  obtain ⟨hlayout, hcode, hcounters⟩ := run_counted hsource hinfo.nest hrun
  obtain ⟨hvisited, hmem, q, hc⟩ := hcounters k l hk
  obtain rfl := hc.eq_preheader houtside hp
  have hregion : l.region u = true := by
    rcases hu with rfl | rfl
    · exact decide_eq_true hbody.1
    · exact decide_eq_true hbody.1
  -- the header itself holds no instruction of the body
  have hne : u ≠ .block l.header := by
    rintro rfl
    have hb : b = l.header := by
      rcases hu with hu | hu
      · exact (Label.block.inj hu).symm
      · cases hu
    subst hb
    cases hc.guard with
    | silent _ hsplit _ =>
      rw [hcode.front _ hsplit] at hi
      cases hi
    | widened exitFirst c succ0 succ1 hmode hexit _ _ _ _ =>
      rcases hcondition with hsilent | hnone | hempty
      · rw [hmode] at hsilent
        cases hsilent
      · rw [hexit] at hnone
        cases hnone
      · exact hempty i hbody
  have hexecuted := executed hsource hlayout (hinfo.natural l hvisited) hc hmem hsimple hregion
    hne h honce
  have htrips := trips hsource hlayout (hinfo.natural l hvisited) hc hmem h
    (hsimple.straight_path hsource hlayout h)
  have hbound : o.bound ≤ o.maxIterations.toNat := by
    have hvalue := BitVec.toInt_eq_toNat_cond o.maxIterations
    rw [Options.bound]
    split at hvalue <;> omega
  by_cases hloop : p ∈ path
  · cases hnext : l.region next with
    | false => exact Nat.le_trans (hexecuted.outside hloop hnext) hbound
    | true =>
      by_cases hheader : next = .block l.header
      · have hle := hexecuted.header hloop hheader
        obtain ⟨-, hmax⟩ := htrips.header hloop hheader
        omega
      · have hle := hexecuted.inside hloop hnext hheader
        obtain ⟨-, hlt, -⟩ := htrips.inside hloop hnext hheader
        have hlast := honce 0
        rw [List.drop_zero] at hlast
        omega
  · rw [hexecuted.never hloop]
    exact Nat.zero_le _

theorem body_at_most_bound_bottomTested : ∃ f path s,
    run ⟨1, [], [], false⟩ bottomTested [.mk 1 [1] []] = .ok f ∧
      Path constants f zeros path (.kleeExit 1) s ∧
      visits (.block 0) (.loopBody 1) path = 1 ∧ visits (.block 0) (.loopBody 1) path ≤ 1 := by
  have hrun := run_single ⟨1, [], [], false⟩ bottomTested 1 [1] rfl rfl
  have hpath : Path constants (bottomTested.instrument ⟨1, [], [], false⟩ (.mk 1 [1] [])) zeros
      [.block 1, .loopBody 1, .block 1, .block 0] (.kleeExit 1) _ :=
    .step (.step (.step (.step .start rfl rfl (.cons .storeZero .nil) rfl)
      rfl rfl (.cons .boundCheck (.cons .increment .nil)) rfl)
      rfl rfl (.cons (constants_executes _) .nil) rfl)
      rfl rfl (.cons .boundCheck (.cons .increment .nil)) rfl
  have hbody : BodyInst bottomTested (.mk 1 [1] []) (fun _ => True) 1 () :=
    ⟨by decide, List.mem_singleton_self _, fun h => h.2.1.2 (by decide)⟩
  have honce : ∀ n, visits (.block 1) (.loopBody 1)
      (([.block 1, .loopBody 1, .block 1, .block 0] : List (Label Nat)).drop n) ≤ 1 := by
    intro n
    match n with
    | 0 | 1 | 2 | 3 => decide
    | n + 4 =>
      simp only [List.drop_succ_cons, List.drop_nil]
      exact Nat.zero_le 1
  have hle := body_at_most_bound (k := 0) (p := .block 0) bottomTested_source bottomTested_info
    bottomTested_simplified hrun rfl (by decide) (by decide) (.inl rfl) hbody (.inr rfl)
    (List.mem_singleton_self _) hpath honce
  exact ⟨_, _, _, hrun, hpath, rfl, hle⟩

/-- With `--break` the bound 1 lets the body run twice. -/
theorem bottomTested_runs_twice : ∃ f path s, bottomTested.Source ∧
    LoopInfo bottomTested [.mk 1 [1] []] ∧ Simplified bottomTested (.mk 1 [1] []) 1 ∧
    run ⟨1, [], [], true⟩ bottomTested [.mk 1 [1] []] = .ok f ∧
      f.counters[0]? = some (.mk 1 [1] []) ∧ .block 1 ∈ f.successors (.block 0) ∧
      .original () ∈ f.select Inst.isOriginal (.block 1) ∧
      Path constants f zeros path (.block 2) s ∧ visits (.block 0) (.block 1) path = 2 := by
  have hrun := run_single ⟨1, [], [], true⟩ bottomTested 1 [1] rfl rfl
  have hpath : Path constants (bottomTested.instrument ⟨1, [], [], true⟩ (.mk 1 [1] [])) zeros
      [.block 1, .block 1, .block 0] (.block 2) _ :=
    .step (.step (.step .start rfl rfl (.cons .storeZero .nil) rfl)
      rfl rfl (.cons (constants_executes _) (.cons .boundCheck (.cons .increment .nil))) rfl)
      rfl rfl (.cons (constants_executes _) (.cons .boundCheck (.cons .increment .nil))) rfl
  exact ⟨_, _, _, bottomTested_source, bottomTested_info, bottomTested_simplified, hrun, rfl,
    by decide, List.mem_singleton_self _, hpath, rfl⟩

end Body

end KleeDeps.LoopLimiter
