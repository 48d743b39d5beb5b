import KleeDeps.LoopLimiter.Instrumented
import Mathlib.Algebra.Group.Nat.Defs

/-!
# The bound

What an execution of the instrumented function does to one counter. Since the last execution of
the preheader the counter is the number of increments (`counter_eq_total`), whatever the other
loops do. When every latch that was executed went to the header or left the loop (`Straight`),
these are the back-edges, and the check cuts the loop after as many as the bound allows
(`trips`). In a loop with one latch that leads to the header only, that is always so.
-/

namespace KleeDeps.LoopLimiter

variable {ι I V σ : Type*}

/-! ### Blocks of the source -/

/-- The block of the source that a block belongs to. -/
def Label.source : Label ι → ι
  | block b | loopBody b | kleeExit b => b

theorem edge_source {f₀ f : Func ι I V} (hsource : f₀.Source) (hlayout : Layout f₀ f)
    {u v : Label ι} (h : v ∈ f.successors u) :
    (∃ b, u = .block b ∧ (v = .loopBody b ∨ v = .kleeExit b)) ∨
      ∃ c, v = .block c ∧ u = f.rear u.source ∧ .block c ∈ f₀.successors (.block u.source) := by
  -- the edges of the source are those of its blocks
  have hplain : ∀ b, v ∈ f₀.successors (.block b) → u = f.rear b → b = u.source →
      ∃ c, v = .block c ∧ u = f.rear u.source ∧ .block c ∈ f₀.successors (.block u.source) := by
    intro b hv hu hb
    obtain ⟨c, rfl⟩ := hsource.plain v (hsource.wf.closed _ _ hv)
    exact ⟨c, rfl, hb ▸ hu, hb ▸ hv⟩
  cases u with
  | kleeExit b =>
    rw [hlayout.exit] at h
    cases h
  | loopBody b =>
    have hrear := rear_of_ne_none (block_ne_none_of_successor h)
    rw [← hrear, hlayout.rear] at h
    exact .inr (hplain b h hrear.symm rfl)
  | block b =>
    by_cases hb : f.block (.loopBody b) = none
    · have hrear := rear_of_none hb
      rw [← hrear, hlayout.rear] at h
      exact .inr (hplain b h hrear.symm rfl)
    · rw [hlayout.split b hb] at h
      simp only [List.mem_cons, List.not_mem_nil, or_false] at h
      exact .inl ⟨b, rfl, h.symm⟩

variable [DecidableEq ι]

/-- Executions pass through blocks that can be reached in the source. -/
theorem reachable_source {sem : Semantics I V σ} {f₀ f : Func ι I V} {s₀ s : State σ}
    {path : List (Label ι)} {next : Label ι} (hsource : f₀.Source) (hlayout : Layout f₀ f)
    (h : Path sem f s₀ path next s) :
    f₀.Reachable next.source := by
  induction h with
  | start =>
    obtain ⟨b, hb⟩ := hsource.plain _ hsource.entry
    rw [hlayout.entry, hb]
    exact .entry hb
  | step _ hblock _ _ hgoes ih =>
    rcases edge_source hsource hlayout (mem_successors hblock (goes_mem_targets hgoes)) with
      ⟨b, rfl, rfl | rfl⟩ | ⟨c, rfl, -, hc⟩
    · exact ih
    · exact ih
    · exact .edge ih hc

/-- A loop is entered through its header. -/
theorem region_enter {f₀ f : Func ι I V} {l : Loop ι} {u v : Label ι} (hsource : f₀.Source)
    (hlayout : Layout f₀ f) (hnatural : Natural f₀ l) (hreach : f₀.Reachable u.source)
    (h : v ∈ f.successors u) (hv : l.region v = true) (hne : v ≠ .block l.header) :
    l.region u = true := by
  rcases edge_source hsource hlayout h with ⟨b, rfl, rfl | rfl⟩ | ⟨c, rfl, hrear, hc⟩
  · exact hv
  · cases hv
  · have hmem : u.source ∈ l.blocks :=
      hnatural.enter _ c hreach hc (of_decide_eq_true hv) fun heq => hne (congrArg _ heq)
    cases u with
    | block b => exact decide_eq_true hmem
    | loopBody b => exact decide_eq_true hmem
    | kleeExit b =>
      rw [hlayout.exit] at h
      cases h

/-! ### The counter -/

/-- How often a block adds 1 to the counter of a loop. -/
def ticks (f₀ f : Func ι I V) (l : Loop ι) (u : Label ι) : Nat :=
  if u = .block l.header then (f₀.successors u).count (.block l.header)
  else if u = .loopBody l.header then 0
  else if l.region u = true then (f.successors u).count (.block l.header)
  else 0

/-- The increments since the last execution of the preheader. -/
def total (f₀ f : Func ι I V) (l : Loop ι) (preheader : Label ι) : List (Label ι) → Nat
  | [] => 0
  | u :: path => if u = preheader then 0 else total f₀ f l preheader path + ticks f₀ f l u

section Counter

variable {sem : Semantics I V σ} {o : Options} {f₀ f : Func ι I V} {l : Loop ι} {k : Nat}
  {p : Label ι} {s₀ : State σ}

/-- What a block other than the preheader does to the counter. -/
theorem counter_block (hc : Counted o f₀ f l k p) {u : Label ι} {b : Block ι I V} {memory : σ}
    {s t : State σ} (hblock : f.block u = some b)
    (hruns : Runs sem b.insts { s with memory := memory } t) (hu : u ≠ p) :
    t.counter k = s.counter k + BitVec.ofNat 32 (ticks f₀ f l u) := by
  have htrack := track_onCounter hblock hruns k
  by_cases h₁ : u = .block l.header
  · rw [h₁, hc.check, track, List.foldl_cons] at htrack
    have hcheck : Inst.track k (s.counter k, s.bound k)
        (.boundCheck k o.maxIterations : Inst I) =
          (s.counter k, o.maxIterations.sle (s.counter k)) := if_pos rfl
    rw [hcheck] at htrack
    have hincrements := htrack.trans (track_increments k _ _ _)
    rw [ticks, if_pos h₁, h₁]
    exact congrArg Prod.fst hincrements
  · by_cases h₂ : u = .loopBody l.header
    · rw [h₂, hc.body] at htrack
      rw [ticks, if_neg h₁, if_pos h₂, BitVec.add_zero]
      exact congrArg Prod.fst htrack
    · by_cases h₃ : l.region u = true
      · rw [hc.increments u h₃ h₁ h₂, track_increments] at htrack
        rw [ticks, if_neg h₁, if_neg h₂, if_pos h₃]
        exact congrArg Prod.fst htrack
      · rw [hc.quiet u (Bool.eq_false_iff.mpr h₃) hu] at htrack
        rw [ticks, if_neg h₁, if_neg h₂, if_neg h₃, BitVec.add_zero]
        exact congrArg Prod.fst htrack

theorem counter_preheader (hc : Counted o f₀ f l k p) {b : Block ι I V} {memory : σ}
    {s t : State σ} (hblock : f.block p = some b)
    (hruns : Runs sem b.insts { s with memory := memory } t) : t.counter k = 0 := by
  have htrack := track_onCounter hblock hruns k
  rw [hc.reset] at htrack
  have hstore : track k [(.storeZero k : Inst I)] (s.counter k, s.bound k) = (0, s.bound k) :=
    if_pos rfl
  exact congrArg Prod.fst (htrack.trans hstore)

/-- **The counter is the number of increments**, whatever the other loops do. -/
theorem counter_eq_total (hc : Counted o f₀ f l k p) {path : List (Label ι)} {next : Label ι}
    {s : State σ} (h : Path sem f s₀ path next s) (hp : p ∈ path) :
    s.counter k = BitVec.ofNat 32 (total f₀ f l p path) := by
  induction h with
  | start => cases hp
  | @step path u v s t b values _ hblock _ hruns _ ih =>
    rw [total]
    by_cases hu : u = p
    · subst hu
      rw [if_pos rfl]
      exact counter_preheader hc hblock hruns
    · rw [if_neg hu, counter_block hc hblock hruns hu, BitVec.ofNat_add]
      have hp' : p ∈ path := (List.mem_cons.mp hp).resolve_left (Ne.symm hu)
      exact congrArg (· + _) (ih hp')

/-- The result of the check in the header. -/
theorem bound_header (hc : Counted o f₀ f l k p) {b : Block ι I V} {memory : σ}
    {s t : State σ} (hblock : f.block (.block l.header) = some b)
    (hruns : Runs sem b.insts { s with memory := memory } t) :
    t.bound k = o.maxIterations.sle (s.counter k) := by
  have htrack := track_onCounter hblock hruns k
  rw [hc.check, track, List.foldl_cons] at htrack
  have hcheck : Inst.track k (s.counter k, s.bound k)
      (.boundCheck k o.maxIterations : Inst I) =
        (s.counter k, o.maxIterations.sle (s.counter k)) := if_pos rfl
  rw [hcheck] at htrack
  exact congrArg Prod.snd (htrack.trans (track_increments k _ _ _))

/-- The bound as a number; one of 2^31 or more is taken for a negative one. -/
def Options.bound (o : Options) : Nat := o.maxIterations.toInt.toNat

theorem sle_ofNat {m : Nat} (h : m ≤ o.bound) :
    o.maxIterations.sle (BitVec.ofNat 32 m) = decide (o.bound ≤ m) := by
  have hlimit : o.maxIterations.toInt < 2 ^ 31 := BitVec.toInt_lt
  have hm : m < 2 ^ 31 := by
    have := h
    rw [Options.bound] at this
    omega
  have hvalue : (BitVec.ofNat 32 m).toInt = m := by
    have htoNat : (BitVec.ofNat 32 m).toNat = m := by
      rw [BitVec.toNat_ofNat]
      exact Nat.mod_eq_of_lt (by omega)
    rw [BitVec.toInt_eq_toNat_of_lt (by omega), htoNat]
  rw [BitVec.sle, hvalue, decide_eq_decide, Options.bound]
  omega

/-- When the check succeeds, the header leaves the loop. -/
theorem leaves_of_bound (hc : Counted o f₀ f l k p) {b : Block ι I V} {t : State σ}
    {v : Label ι} (hblock : f.block (.block l.header) = some b)
    (hgoes : Goes sem t v b.terminator) (hbound : t.bound k = true) : l.region v = false := by
  have hterminator : f.terminator (.block l.header) = some b.terminator :=
    congrArg (Option.map _) hblock
  cases hc.guard with
  | silent hmode hbody hbranch =>
    rw [hterminator] at hbranch
    rw [Option.some.inj hbranch] at hgoes
    have hv : v = if t.bound k = true then .kleeExit l.header else .loopBody l.header := hgoes
    rw [hv, if_pos hbound]
    rfl
  | widened exitFirst c succ0 succ1 hmode hexit hbody hsource hbranch hleaves =>
    rw [hterminator] at hbranch
    rw [Option.some.inj hbranch] at hgoes
    cases exitFirst with
    | true =>
      have hv : v = if (c.truth sem t || t.bound k) = true then succ0 else succ1 := hgoes
      rw [hbound, Bool.or_true, if_pos rfl] at hv
      rw [hv]
      exact hleaves
    | false =>
      have hv : v = if (c.truth sem t && !t.bound k) = true then succ0 else succ1 := hgoes
      rw [hbound, Bool.not_true, Bool.and_false, if_neg Bool.false_ne_true] at hv
      rw [hv]
      exact hleaves

end Counter

/-! ### Trips -/

/-- What the counter says about the trips of a loop at the entry of a block. -/
structure Trips (o : Options) (f₀ f : Func ι I V) (l : Loop ι) (p : Label ι)
    (path : List (Label ι)) (next : Label ι) : Prop where
  never : p ∉ path → l.region next = false
  header : p ∈ path → next = .block l.header →
    total f₀ f l p path = backEdges l p path next ∧ backEdges l p path next ≤ o.bound
  /-- increments of the header itself come before the rest of it -/
  inside : p ∈ path → l.region next = true → next ≠ .block l.header →
    total f₀ f l p path = backEdges l p path next + ticks f₀ f l (.block l.header) ∧
      backEdges l p path next < o.bound ∧
      (ticks f₀ f l (.block l.header) ≠ 0 → next = .loopBody l.header)
  outside : p ∈ path → l.region next = false →
    total f₀ f l p path ≤ backEdges l p path next +
      max 1 (ticks f₀ f l (.block l.header)) ∧ backEdges l p path next ≤ o.bound

section Trip

variable {o : Options} {f₀ f : Func ι I V} {l : Loop ι} {k : Nat} {p u v : Label ι}
  {path : List (Label ι)}

theorem ticks_header (f₀ f : Func ι I V) (l : Loop ι) :
    ticks f₀ f l (.block l.header) = (f₀.successors (.block l.header)).count (.block l.header) :=
  if_pos rfl

theorem ticks_loopBody (f₀ f : Func ι I V) (l : Loop ι) :
    ticks f₀ f l (.loopBody l.header) = 0 := by
  rw [ticks, if_neg (by simp), if_pos rfl]

theorem ticks_inside (hu : l.region u = true) (h₁ : u ≠ .block l.header)
    (h₂ : u ≠ .loopBody l.header) :
    ticks f₀ f l u = (f.successors u).count (.block l.header) := by
  rw [ticks, if_neg h₁, if_neg h₂, if_pos hu]

theorem ticks_outside (hmem : l.header ∈ l.blocks) (hu : l.region u = false) :
    ticks f₀ f l u = 0 := by
  have h₁ : u ≠ .block l.header := by
    rintro rfl
    exact Bool.false_ne_true (hu.symm.trans (region_header hmem))
  have h₂ : u ≠ .loopBody l.header := by
    rintro rfl
    exact Bool.false_ne_true (hu.symm.trans (region_loopBody hmem))
  rw [ticks, if_neg h₁, if_neg h₂, if_neg (Bool.eq_false_iff.mp hu)]

theorem backEdges_cons (hu : u ≠ p) : backEdges l p (u :: path) v =
    backEdges l p path u + if l.region u = true ∧ v = .block l.header then 1 else 0 :=
  if_neg hu

theorem total_cons (hu : u ≠ p) :
    total f₀ f l p (u :: path) = total f₀ f l p path + ticks f₀ f l u :=
  if_neg hu

/-- A step from a latch: one edge to the header, taken if the loop is not left. -/
theorem straight_latch (h : Straight f l (u :: path) v) (hu : l.region u = true)
    (hlatch : .block l.header ∈ f.successors u) :
    (f.successors u).count (.block l.header) = 1 ∧
      (l.region v = true → v = .block l.header) :=
  h.1 hu hlatch

/-- A step out of the preheader. -/
theorem Trips.preheader (hc : Counted o f₀ f l k p) (hmem : l.header ∈ l.blocks)
    (hv : v ∈ f.successors p) : Trips o f₀ f l p (p :: path) v := by
  rw [hc.successors, List.mem_singleton] at hv
  subst hv
  have hzero : backEdges l p (p :: path) (.block l.header) = 0 := if_pos rfl
  have htotal : total f₀ f l p (p :: path) = 0 := if_pos rfl
  refine ⟨fun h => absurd List.mem_cons_self h, fun _ _ => ?_, fun _ _ h => absurd rfl h,
    fun _ h => ?_⟩
  · rw [hzero, htotal]
    exact ⟨rfl, Nat.zero_le _⟩
  · exact absurd (h.symm.trans (region_header hmem)) Bool.false_ne_true

/-- A step outside of the loop. -/
theorem Trips.away (hmem : l.header ∈ l.blocks) (h : Trips o f₀ f l p path u) (hup : u ≠ p)
    (hu : l.region u = false) (hv : l.region v = false) : Trips o f₀ f l p (u :: path) v := by
  have hne : v ≠ .block l.header := by
    rintro rfl
    exact Bool.false_ne_true (hv.symm.trans (region_header hmem))
  have hedges : backEdges l p (u :: path) v = backEdges l p path u := by
    rw [backEdges_cons hup, if_neg fun hboth => hne hboth.2, Nat.add_zero]
  have htotal : total f₀ f l p (u :: path) = total f₀ f l p path := by
    rw [total_cons hup, ticks_outside hmem hu, Nat.add_zero]
  refine ⟨fun _ => hv, fun _ h' => absurd h' hne, fun _ h' => ?_, fun hp _ => ?_⟩
  · exact absurd (hv.symm.trans h') Bool.false_ne_true
  · rw [hedges, htotal]
    exact h.outside ((List.mem_cons.mp hp).resolve_left (Ne.symm hup)) hu

/-- A step from a block of the loop that is neither its header nor what the header was split
into. -/
theorem Trips.body (h : Trips o f₀ f l p path u) (hup : u ≠ p) (hu : l.region u = true)
    (h₁ : u ≠ .block l.header) (h₂ : u ≠ .loopBody l.header)
    (hstraight : Straight f l (u :: path) v) (hv : v ∈ f.successors u) :
    Trips o f₀ f l p (u :: path) v := by
  have hpath : p ∈ u :: path → p ∈ path := fun hp =>
    (List.mem_cons.mp hp).resolve_left (Ne.symm hup)
  have hloop : p ∈ path := by
    by_contra hp
    exact Bool.false_ne_true ((h.never hp).symm.trans hu)
  obtain ⟨htotal, hlt, hticks⟩ := h.inside hloop hu h₁
  have hzero : ticks f₀ f l (.block l.header) = 0 := by
    by_contra hne
    exact h₂ (hticks hne)
  refine ⟨fun hp => absurd (List.mem_cons_of_mem u hloop) hp, fun _ hheader => ?_,
    fun _ hregion hne => ?_, fun _ hregion => ?_⟩
  · subst hheader
    obtain ⟨hone, -⟩ := straight_latch hstraight hu hv
    rw [total_cons hup, backEdges_cons hup, ticks_inside hu h₁ h₂, hone, if_pos ⟨hu, rfl⟩, htotal]
    omega
  · have hnone : (f.successors u).count (.block l.header) = 0 := by
      rw [List.count_eq_zero]
      exact fun hlatch => hne ((straight_latch hstraight hu hlatch).2 hregion)
    rw [total_cons hup, backEdges_cons hup, ticks_inside hu h₁ h₂, hnone,
      if_neg fun hboth => hne hboth.2, htotal]
    exact ⟨rfl, hlt, fun h' => absurd hzero h'⟩
  · have hcount : (f.successors u).count (.block l.header) ≤ 1 := by
      by_cases hlatch : .block l.header ∈ f.successors u
      · exact Nat.le_of_eq (straight_latch hstraight hu hlatch).1
      · rw [List.count_eq_zero.mpr hlatch]
        exact Nat.zero_le 1
    rw [total_cons hup, backEdges_cons hup, ticks_inside hu h₁ h₂, htotal]
    split <;> omega

/-- A step from what follows the check of a split header. -/
theorem Trips.loopBody (hlayout : Layout f₀ f) (hmem : l.header ∈ l.blocks)
    (h : Trips o f₀ f l p path (.loopBody l.header)) (hup : .loopBody l.header ≠ p)
    (hstraight : Straight f l (.loopBody l.header :: path) v)
    (hv : v ∈ f.successors (.loopBody l.header)) :
    Trips o f₀ f l p (.loopBody l.header :: path) v := by
  have hu := region_loopBody (l := l) hmem
  have hloop : p ∈ path := by
    by_contra hp
    exact Bool.false_ne_true ((h.never hp).symm.trans hu)
  obtain ⟨htotal, hlt, -⟩ := h.inside hloop hu (by simp)
  -- its edges are those of the header in the source
  have hsuccessors : f.successors (.loopBody l.header) = f₀.successors (.block l.header) := by
    rw [← hlayout.rear, rear_of_ne_none (block_ne_none_of_successor hv)]
  have hcount : ticks f₀ f l (.block l.header) =
      (f.successors (.loopBody l.header)).count (.block l.header) := by
    rw [ticks_header, hsuccessors]
  have htotal' : total f₀ f l p (.loopBody l.header :: path) = total f₀ f l p path := by
    rw [total_cons hup, ticks_loopBody, Nat.add_zero]
  refine ⟨fun hp => absurd (List.mem_cons_of_mem _ hloop) hp, fun _ hheader => ?_,
    fun _ hregion hne => ?_, fun _ hregion => ?_⟩
  · subst hheader
    obtain ⟨hone, -⟩ := straight_latch hstraight hu hv
    rw [htotal', backEdges_cons hup, if_pos ⟨hu, rfl⟩, htotal, hcount, hone]
    omega
  · have hnone : (f.successors (.loopBody l.header)).count (.block l.header) = 0 := by
      rw [List.count_eq_zero]
      exact fun hlatch => hne ((straight_latch hstraight hu hlatch).2 hregion)
    rw [htotal', backEdges_cons hup, if_neg fun hboth => hne hboth.2, htotal]
    exact ⟨rfl, hlt, fun h' => absurd (hcount.trans hnone) h'⟩
  · rw [htotal', backEdges_cons hup, htotal]
    split <;> omega

/-- A step from the header. -/
theorem Trips.check (hlayout : Layout f₀ f) (hc : Counted o f₀ f l k p)
    (hmem : l.header ∈ l.blocks) (h : Trips o f₀ f l p path (.block l.header))
    (hstraight : Straight f l (.block l.header :: path) v)
    (hv : v ∈ f.successors (.block l.header))
    (hleaves : o.bound ≤ backEdges l p path (.block l.header) → l.region v = false) :
    Trips o f₀ f l p (.block l.header :: path) v := by
  have hu := region_header (l := l) hmem
  have hup : .block l.header ≠ p := by
    rintro rfl
    exact Bool.false_ne_true (hc.outside.symm.trans hu)
  have hloop : p ∈ path := by
    by_contra hp
    exact Bool.false_ne_true ((h.never hp).symm.trans hu)
  obtain ⟨htotal, hle⟩ := h.header hloop rfl
  have hlt : l.region v = true → backEdges l p path (.block l.header) < o.bound := by
    intro hregion
    by_contra hge
    exact Bool.false_ne_true ((hleaves (Nat.le_of_not_lt hge)).symm.trans hregion)
  refine ⟨fun hp => absurd (List.mem_cons_of_mem _ hloop) hp, fun _ hheader => ?_,
    fun _ hregion hne => ?_, fun _ hregion => ?_⟩
  · subst hheader
    obtain ⟨hone, -⟩ := straight_latch hstraight hu hv
    -- an edge from the header to itself: it was not split
    have hwhole : f.successors (.block l.header) = f₀.successors (.block l.header) := by
      rw [← hlayout.rear, rear_of_none]
      by_contra hsplit
      rw [hlayout.split _ hsplit] at hv
      simp at hv
    have := hlt hu
    rw [total_cons hup, backEdges_cons hup, if_pos ⟨hu, rfl⟩, htotal, ticks_header, ← hwhole,
      hone]
    omega
  · rw [total_cons hup, backEdges_cons hup, if_neg fun hboth => hne hboth.2, htotal]
    refine ⟨rfl, hlt hregion, fun hticks => ?_⟩
    by_cases hsplit : f.block (.loopBody l.header) = none
    · have hwhole : f.successors (.block l.header) = f₀.successors (.block l.header) := by
        rw [← hlayout.rear, rear_of_none hsplit]
      rw [ticks_header, ← hwhole, Ne, List.count_eq_zero, not_not] at hticks
      exact absurd ((straight_latch hstraight hu hticks).2 hregion) hne
    · rw [hlayout.split _ hsplit, List.mem_cons, List.mem_singleton] at hv
      rcases hv with rfl | hv
      · cases hregion
      · exact hv
  · have hne : v ≠ .block l.header := by
      rintro rfl
      exact Bool.false_ne_true (hregion.symm.trans hu)
    rw [total_cons hup, backEdges_cons hup, if_neg fun hboth => hne hboth.2, htotal]
    omega

/-- A step into the loop comes from it or from its preheader. -/
theorem region_of_edge {sem : Semantics I V σ} {s₀ s : State σ} (hsource : f₀.Source)
    (hlayout : Layout f₀ f) (hnatural : Natural f₀ l) (hc : Counted o f₀ f l k p)
    (hpath : Path sem f s₀ path u s) (hup : u ≠ p) (hv : v ∈ f.successors u)
    (hregion : l.region v = true) : l.region u = true := by
  by_cases hheader : v = .block l.header
  · subst hheader
    exact (hc.entering u hv).resolve_right hup
  · exact region_enter hsource hlayout hnatural (reachable_source hsource hlayout hpath) hv hregion
      hheader

/-- **The trips of a loop**, along every execution whose latches are straight. -/
theorem trips {sem : Semantics I V σ} {s₀ s : State σ} {next : Label ι} (hsource : f₀.Source)
    (hlayout : Layout f₀ f) (hnatural : Natural f₀ l) (hc : Counted o f₀ f l k p)
    (hmem : l.header ∈ l.blocks) (h : Path sem f s₀ path next s)
    (hstraight : Straight f l path next) : Trips o f₀ f l p path next := by
  induction h with
  | start =>
    refine ⟨fun _ => ?_, fun hp => absurd hp List.not_mem_nil,
      fun hp => absurd hp List.not_mem_nil, fun hp => absurd hp List.not_mem_nil⟩
    obtain ⟨b, hb⟩ := hsource.plain _ hsource.entry
    rw [hlayout.entry, hb]
    exact decide_eq_false (hnatural.entry b hb)
  | @step path u v s t b values hpath hblock _ hruns hgoes ih =>
    have htrips := ih hstraight.2
    have hv := mem_successors hblock (goes_mem_targets hgoes)
    -- where the last block lies: the preheader resets, outside nothing counts
    by_cases hup : u = p
    · subst hup
      exact .preheader hc hmem hv
    · cases hu : l.region u with
      | false =>
        refine htrips.away hmem hup hu (Bool.eq_false_iff.mpr fun hregion => ?_)
        exact Bool.false_ne_true (hu.symm.trans
          (region_of_edge hsource hlayout hnatural hc hpath hup hv hregion))
      | true =>
        by_cases h₁ : u = .block l.header
        · subst h₁
          -- inside the loop the preheader has been passed
          have hloop : p ∈ path := by
            by_contra hp
            exact Bool.false_ne_true ((htrips.never hp).symm.trans hu)
          obtain ⟨htotal, hle⟩ := htrips.header hloop rfl
          refine htrips.check hlayout hc hmem hstraight hv fun hge => ?_
          refine leaves_of_bound hc hblock hgoes ((bound_header hc hblock hruns).trans ?_)
          rw [counter_eq_total hc hpath hloop, htotal, sle_ofNat hle]
          exact decide_eq_true hge
        · by_cases h₂ : u = .loopBody l.header
          · subst h₂
            exact htrips.loopBody hlayout hmem hup hstraight hv
          · exact htrips.body hup hu h₁ h₂ hstraight hv

end Trip

end KleeDeps.LoopLimiter
