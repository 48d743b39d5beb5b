import KleeDeps.LoopLimiter.Execution

/-!
# What one rewriting changes

Insertions before terminators leave the edges of a function alone; a split moves the edges and
the instructions of a header to the new block.

- `Frame`, `SplitFrame`: the edges afterwards;
- `select_insert`, `select_inserts`, `select_widenExit`, `select_splitHeader`: the
  instructions of a kind afterwards;
- `instrument_cases`: **the rewriting of one loop**, as one of three changes.
-/

namespace KleeDeps.LoopLimiter

variable {ι I V : Type*}

def Func.terminator (f : Func ι I V) (u : Label ι) : Option (Terminator ι I V) :=
  (f.block u).map Block.terminator

def Func.phis (f : Func ι I V) (u : Label ι) : List (Phi ι V) :=
  match f.block u with
  | some b => b.phis
  | none => []

/-- The edges and the PHIs are the same, and so is every terminator but one. -/
structure Frame (h : ι) (f g : Func ι I V) : Prop where
  entry : g.entry = f.entry
  labels : g.labels = f.labels
  counters : g.counters = f.counters
  present : ∀ u, g.block u = none ↔ f.block u = none
  successors : ∀ u, g.successors u = f.successors u
  terminator : ∀ u, u ≠ .block h → g.terminator u = f.terminator u
  phis : ∀ u, g.phis u = f.phis u

theorem Frame.refl (h : ι) (f : Func ι I V) : Frame h f f :=
  ⟨rfl, rfl, rfl, fun _ => Iff.rfl, fun _ => rfl, fun _ _ => rfl, fun _ => rfl⟩

theorem Frame.trans {h : ι} {f g k : Func ι I V} (hfg : Frame h f g) (hgk : Frame h g k) :
    Frame h f k where
  entry := hgk.entry.trans hfg.entry
  labels := hgk.labels.trans hfg.labels
  counters := hgk.counters.trans hfg.counters
  present u := (hgk.present u).trans (hfg.present u)
  successors u := (hgk.successors u).trans (hfg.successors u)
  terminator u hu := (hgk.terminator u hu).trans (hfg.terminator u hu)
  phis u := (hgk.phis u).trans (hfg.phis u)

/-- A header was split: its edges are those of the new block, which the PHIs of its successors
name in its place. -/
structure SplitFrame [DecidableEq ι] (h : ι) (f g : Func ι I V) : Prop where
  entry : g.entry = f.entry
  labels : g.labels = f.labels ++ [.loopBody h, .kleeExit h]
  counters : g.counters = f.counters
  present : ∀ u, g.block u = none ↔ f.block u = none ∧ u ≠ .loopBody h ∧ u ≠ .kleeExit h
  successors_exit : g.successors (.kleeExit h) = []
  successors_header : g.successors (.block h) = [.kleeExit h, .loopBody h]
  successors_body : g.successors (.loopBody h) = f.successors (.block h)
  successors : ∀ u, u ≠ .block h → u ≠ .loopBody h → u ≠ .kleeExit h →
    g.successors u = f.successors u
  terminator : ∀ u, u ≠ .block h → u ≠ .loopBody h → u ≠ .kleeExit h →
    g.terminator u = f.terminator u
  phis_body : g.phis (.loopBody h) = []
  phis : ∀ u, u ≠ .loopBody h → u ≠ .kleeExit h →
    g.phis u = if u ∈ f.successors (.block h)
      then (f.phis u).map (Phi.rename (.block h) (.loopBody h)) else f.phis u

theorem successors_eq (f : Func ι I V) (u : Label ι) :
    f.successors u = match f.terminator u with
      | some t => t.targets
      | none => [] := by
  rw [Func.successors, Func.terminator]
  cases f.block u with
  | none => rfl
  | some b => rfl

theorem Frame.trans_split [DecidableEq ι] {h : ι} {f g k : Func ι I V} (hfg : Frame h f g)
    (hgk : SplitFrame h g k) : SplitFrame h f k where
  entry := hgk.entry.trans hfg.entry
  labels := hgk.labels.trans (by rw [hfg.labels])
  counters := hgk.counters.trans hfg.counters
  present u := (hgk.present u).trans (and_congr_left' (hfg.present u))
  successors_exit := hgk.successors_exit
  successors_header := hgk.successors_header
  successors_body := hgk.successors_body.trans (hfg.successors _)
  successors u h₁ h₂ h₃ := (hgk.successors u h₁ h₂ h₃).trans (hfg.successors u)
  terminator u h₁ h₂ h₃ := (hgk.terminator u h₁ h₂ h₃).trans (hfg.terminator u h₁)
  phis_body := hgk.phis_body
  phis u h₁ h₂ := by rw [hgk.phis u h₁ h₂, hfg.successors, hfg.phis]

theorem SplitFrame.trans_frame [DecidableEq ι] {h : ι} {f g k : Func ι I V}
    (hfg : SplitFrame h f g) (hgk : Frame h g k) : SplitFrame h f k where
  entry := hgk.entry.trans hfg.entry
  labels := hgk.labels.trans hfg.labels
  counters := hgk.counters.trans hfg.counters
  present u := (hgk.present u).trans (hfg.present u)
  successors_exit := (hgk.successors _).trans hfg.successors_exit
  successors_header := (hgk.successors _).trans hfg.successors_header
  successors_body := (hgk.successors _).trans hfg.successors_body
  successors u h₁ h₂ h₃ := (hgk.successors u).trans (hfg.successors u h₁ h₂ h₃)
  terminator u h₁ h₂ h₃ := (hgk.terminator u h₁).trans (hfg.terminator u h₁ h₂ h₃)
  phis_body := (hgk.phis _).trans hfg.phis_body
  phis u h₁ h₂ := (hgk.phis u).trans (hfg.phis u h₁ h₂)

theorem present_iff (f : Func ι I V) (u : Label ι) : f.block u = none ↔ f.terminator u = none :=
  Option.map_eq_none_iff.symm

theorem block_ne_none_of_successor {f : Func ι I V} {u v : Label ι} (h : v ∈ f.successors u) :
    f.block u ≠ none := by
  intro hnone
  rw [Func.successors, hnone] at h
  exact List.not_mem_nil h

variable [DecidableEq ι]

/-! ### Insertions -/

theorem block_setBlock (f : Func ι I V) (u v : Label ι) (b : Block ι I V) :
    (f.setBlock u b).block v = if v = u then some b else f.block v := rfl

theorem terminator_insert (f : Func ι I V) (u : Label ι) (i : Inst I) (v : Label ι) :
    (f.insertBeforeTerminator u i).terminator v = f.terminator v := by
  rw [Func.insertBeforeTerminator]
  split
  · rfl
  · rename_i b hb
    rw [Func.terminator, Func.terminator, block_setBlock]
    by_cases hv : v = u
    · rw [if_pos hv, hv, hb]
      rfl
    · rw [if_neg hv]

theorem phis_insert (f : Func ι I V) (u : Label ι) (i : Inst I) (v : Label ι) :
    (f.insertBeforeTerminator u i).phis v = f.phis v := by
  rw [Func.insertBeforeTerminator]
  split
  · rfl
  · rename_i b hb
    rw [Func.phis, Func.phis, block_setBlock]
    by_cases hv : v = u
    · rw [if_pos hv, hv, hb]
    · rw [if_neg hv]

theorem frame_insert (h : ι) (f : Func ι I V) (u : Label ι) (i : Inst I) :
    Frame h f (f.insertBeforeTerminator u i) := by
  have hterminator := terminator_insert f u i
  have hsame : (f.insertBeforeTerminator u i).entry = f.entry ∧
      (f.insertBeforeTerminator u i).labels = f.labels ∧
      (f.insertBeforeTerminator u i).counters = f.counters := by
    rw [Func.insertBeforeTerminator]
    split
    · exact ⟨rfl, rfl, rfl⟩
    · exact ⟨rfl, rfl, rfl⟩
  refine ⟨hsame.1, hsame.2.1, hsame.2.2, fun v => ?_, fun v => ?_, fun v _ => hterminator v,
    phis_insert f u i⟩
  · rw [present_iff, present_iff, hterminator]
  · rw [successors_eq, successors_eq, hterminator]

theorem select_insert {f : Func ι I V} {u : Label ι} (hu : f.block u ≠ none) (i : Inst I)
    (q : Inst I → Bool) (v : Label ι) : (f.insertBeforeTerminator u i).select q v =
      f.select q v ++ if v = u then [i].filter q else [] := by
  obtain ⟨b, hb⟩ := Option.ne_none_iff_exists'.mp hu
  have hinsert : f.insertBeforeTerminator u i =
      f.setBlock u { b with insts := b.insts ++ [i] } := by
    rw [Func.insertBeforeTerminator, hb]
  rw [hinsert, Func.select, Func.select, block_setBlock]
  by_cases hv : v = u
  · rw [if_pos hv, if_pos hv, hv, hb]
    exact List.filter_append _ _
  · rw [if_neg hv, if_neg hv, List.append_nil]

/-- One insertion after the other. -/
theorem select_inserts (us : List (Label ι)) (i : Inst I) (h : ι) : ∀ {f : Func ι I V},
    (∀ u ∈ us, f.block u ≠ none) →
    Frame h f (us.foldl (fun g u => g.insertBeforeTerminator u i) f) ∧
      ∀ q v, (us.foldl (fun g u => g.insertBeforeTerminator u i) f).select q v =
        f.select q v ++ (List.replicate (us.count v) i).filter q := by
  induction us with
  | nil =>
    intro f _
    refine ⟨Frame.refl h f, fun q v => ?_⟩
    show f.select q v = f.select q v ++ []
    rw [List.append_nil]
  | cons u us ih =>
    intro f hus
    have hframe := frame_insert h f u i
    obtain ⟨hrest, hcounter⟩ := ih (f := f.insertBeforeTerminator u i) fun w hw hnone =>
      hus w (List.mem_cons_of_mem u hw) ((hframe.present w).mp hnone)
    refine ⟨hframe.trans hrest, fun q v => ?_⟩
    rw [List.foldl_cons, hcounter, select_insert (hus u List.mem_cons_self), List.count_cons,
      List.append_assoc]
    by_cases hv : u = v
    · subst hv
      rw [if_pos rfl, if_pos (beq_self_eq_true u), List.replicate_succ, ← List.filter_append]
      rfl
    · rw [if_neg (Ne.symm hv), if_neg (by simpa using hv)]
      rfl

theorem terminator_inserts (us : List (Label ι)) (i : Inst I) (f : Func ι I V) (v : Label ι) :
    (us.foldl (fun g u => g.insertBeforeTerminator u i) f).terminator v = f.terminator v := by
  induction us generalizing f with
  | nil => rfl
  | cons u us ih => rw [List.foldl_cons, ih, terminator_insert]

/-! ### The header -/

theorem exitSuccessor_eq_some {f : Func ι I V} {l : Loop ι} {exitFirst : Bool}
    (h : f.exitSuccessor l = some exitFirst) :
    ∃ b c succ0 succ1, f.block (.block l.header) = some b ∧
      b.terminator = .condBr c succ0 succ1 ∧ l.contains succ0 ≠ l.contains succ1 ∧
      exitFirst = !l.contains succ0 := by
  rw [Func.exitSuccessor] at h
  split at h
  · rename_i phis insts c succ0 succ1 hb
    split at h
    · cases h
    · rename_i hne
      exact ⟨_, c, succ0, succ1, hb, rfl, hne, (Option.some.inj h).symm⟩
  · cases h

theorem widenExit_eq {f : Func ι I V} {l : Loop ι} {b : Block ι I V} {c : Cond V}
    {succ0 succ1 : Label ι} (hb : f.block (.block l.header) = some b)
    (ht : b.terminator = .condBr c succ0 succ1) (k : Nat) (limit : BitVec 32) (exitFirst : Bool) :
    f.widenExit l k limit exitFirst = f.setBlock (.block l.header)
      { phis := b.phis
        insts := b.insts ++ [.boundCheck k limit]
        terminator := .condBr (if exitFirst then .exitOrBound c k else .stayAndNotBound c k)
          succ0 succ1 } := by
  obtain ⟨phis, insts, terminator⟩ := b
  obtain rfl := ht
  rw [Func.widenExit, hb]

theorem frame_widenExit {f : Func ι I V} {l : Loop ι} {b : Block ι I V} {c : Cond V}
    {succ0 succ1 : Label ι} (hb : f.block (.block l.header) = some b)
    (ht : b.terminator = .condBr c succ0 succ1) (k : Nat) (limit : BitVec 32) (exitFirst : Bool) :
    Frame l.header f (f.widenExit l k limit exitFirst) := by
  rw [widenExit_eq hb ht]
  refine ⟨rfl, rfl, rfl, fun v => ?_, fun v => ?_, fun v hv => ?_, fun v => ?_⟩
  · rw [block_setBlock]
    by_cases hv : v = .block l.header
    · rw [if_pos hv, hv, hb]
      simp only [reduceCtorEq]
    · rw [if_neg hv]
  · rw [Func.successors, Func.successors, block_setBlock]
    by_cases hv : v = .block l.header
    · rw [if_pos hv, hv, hb]
      show [succ0, succ1] = b.terminator.targets
      rw [ht]
      rfl
    · rw [if_neg hv]
  · rw [Func.terminator, Func.terminator, block_setBlock, if_neg hv]
  · rw [Func.phis, Func.phis, block_setBlock]
    by_cases hv : v = .block l.header
    · rw [if_pos hv, hv, hb]
    · rw [if_neg hv]

theorem select_widenExit {f : Func ι I V} {l : Loop ι} {b : Block ι I V} {c : Cond V}
    {succ0 succ1 : Label ι} (hb : f.block (.block l.header) = some b)
    (ht : b.terminator = .condBr c succ0 succ1) (k : Nat) (limit : BitVec 32) (exitFirst : Bool)
    (q : Inst I → Bool) (v : Label ι) : (f.widenExit l k limit exitFirst).select q v =
      f.select q v ++ if v = .block l.header then
        [(.boundCheck k limit : Inst I)].filter q else [] := by
  rw [widenExit_eq hb ht, Func.select, Func.select, block_setBlock]
  by_cases hv : v = .block l.header
  · rw [if_pos hv, if_pos hv, hv, hb]
    exact List.filter_append _ _
  · rw [if_neg hv, if_neg hv, List.append_nil]

/-- The blocks after a split. -/
theorem block_splitHeader {f : Func ι I V} {l : Loop ι} {b : Block ι I V}
    (hb : f.block (.block l.header) = some b) (k : Nat) (limit : BitVec 32) (v : Label ι) :
    (f.splitHeader l k limit).block v =
      if v = .kleeExit l.header then
        some { phis := [], insts := [.silentExit], terminator := .unreachable }
      else if v = .block l.header then
        some {
          phis := (if v ∈ b.terminator.targets
            then b.renamePhis (.block l.header) (.loopBody l.header) else b).phis
          insts := [.boundCheck k limit]
          terminator := .condBr (.bound k) (.kleeExit l.header) (.loopBody l.header) }
      else if v = .loopBody l.header then some { b with phis := [] }
      else (f.block v).map fun c => if v ∈ b.terminator.targets
        then c.renamePhis (.block l.header) (.loopBody l.header) else c := by
  simp only [Func.splitHeader, hb, Func.splitBasicBlock, Func.setBlock, reduceCtorEq, if_true,
    if_false]
  by_cases hexit : v = .kleeExit l.header
  · rw [if_pos hexit, if_pos hexit]
  · rw [if_neg hexit, if_neg hexit]
    by_cases hheader : v = .block l.header
    · rw [if_pos hheader, if_pos hheader, hheader]
      split <;> rfl
    · rw [if_neg hheader, if_neg hheader, if_neg hheader]

theorem labels_splitHeader {f : Func ι I V} {l : Loop ι} {b : Block ι I V}
    (hb : f.block (.block l.header) = some b) (k : Nat) (limit : BitVec 32) :
    (f.splitHeader l k limit).labels = f.labels ++ [.loopBody l.header, .kleeExit l.header] ∧
      (f.splitHeader l k limit).entry = f.entry ∧
      (f.splitHeader l k limit).counters = f.counters := by
  simp only [Func.splitHeader, hb, Func.splitBasicBlock, Func.setBlock, reduceCtorEq, if_true,
    if_false]
  exact ⟨List.append_assoc _ _ _, trivial, trivial⟩

/-- The terminator of the block that a block was. -/
theorem terminator_rename (b : Block ι I V) (p : Prop) [Decidable p] (u v : Label ι) :
    (if p then b.renamePhis u v else b).terminator = b.terminator := by
  by_cases hp : p
  · rw [if_pos hp]
    rfl
  · rw [if_neg hp]

theorem phis_rename (b : Block ι I V) (p : Prop) [Decidable p] (u v : Label ι) :
    (if p then b.renamePhis u v else b).phis =
      if p then b.phis.map (Phi.rename u v) else b.phis := by
  by_cases hp : p
  · rw [if_pos hp, if_pos hp]
    rfl
  · rw [if_neg hp, if_neg hp]

theorem insts_rename (b : Block ι I V) (p : Prop) [Decidable p] (u v : Label ι) :
    (if p then b.renamePhis u v else b).insts = b.insts := by
  by_cases hp : p
  · rw [if_pos hp]
    rfl
  · rw [if_neg hp]

theorem terminator_splitHeader {f : Func ι I V} {l : Loop ι} {b : Block ι I V}
    (hb : f.block (.block l.header) = some b) (k : Nat) (limit : BitVec 32) (v : Label ι) :
    (f.splitHeader l k limit).terminator v =
      if v = .kleeExit l.header then some .unreachable
      else if v = .block l.header then
        some (.condBr (.bound k) (.kleeExit l.header) (.loopBody l.header))
      else if v = .loopBody l.header then some b.terminator
      else f.terminator v := by
  rw [Func.terminator, block_splitHeader hb]
  by_cases hexit : v = .kleeExit l.header
  · rw [if_pos hexit, if_pos hexit]
    rfl
  · rw [if_neg hexit, if_neg hexit]
    by_cases hheader : v = .block l.header
    · rw [if_pos hheader, if_pos hheader]
      rfl
    · rw [if_neg hheader, if_neg hheader]
      by_cases hbody : v = .loopBody l.header
      · rw [if_pos hbody, if_pos hbody]
        rfl
      · rw [if_neg hbody, if_neg hbody, Func.terminator, Option.map_map]
        refine congrArg (Option.map · (f.block v)) (funext fun c => ?_)
        exact terminator_rename c _ _ _

theorem splitFrame_splitHeader {f : Func ι I V} {l : Loop ι} {b : Block ι I V}
    (hb : f.block (.block l.header) = some b) (k : Nat) (limit : BitVec 32) :
    SplitFrame l.header f (f.splitHeader l k limit) := by
  obtain ⟨hlabels, hentry, hcounters⟩ := labels_splitHeader hb k limit
  have hterminator := terminator_splitHeader hb k limit
  refine ⟨hentry, hlabels, hcounters, fun v => ?_, ?_, ?_, ?_, fun v h₁ h₂ h₃ => ?_,
    fun v h₁ h₂ h₃ => ?_, ?_, fun v h₁ h₂ => ?_⟩
  · rw [block_splitHeader hb]
    by_cases hexit : v = .kleeExit l.header
    · rw [if_pos hexit]
      simp only [hexit, reduceCtorEq, ne_eq, not_true_eq_false, and_false]
    · rw [if_neg hexit]
      by_cases hheader : v = .block l.header
      · rw [if_pos hheader, hheader, hb]
        simp only [reduceCtorEq, false_and]
      · rw [if_neg hheader]
        by_cases hbody : v = .loopBody l.header
        · rw [if_pos hbody]
          simp only [hbody, reduceCtorEq, ne_eq, not_true_eq_false, false_and, and_false]
        · rw [if_neg hbody, Option.map_eq_none_iff]
          exact ⟨fun h => ⟨h, hbody, hexit⟩, And.left⟩
  · rw [successors_eq, hterminator, if_pos rfl]
    rfl
  · rw [successors_eq, hterminator, if_neg (by simp), if_pos rfl]
    rfl
  · rw [successors_eq, hterminator, if_neg (by simp), if_neg (by simp), if_pos rfl,
      Func.successors, hb]
  · rw [successors_eq, successors_eq, hterminator, if_neg h₃, if_neg h₁, if_neg h₂]
  · rw [hterminator, if_neg h₃, if_neg h₁, if_neg h₂]
  · rw [Func.phis, block_splitHeader hb, if_neg (by simp), if_neg (by simp), if_pos rfl]
  · have hsuccessors : f.successors (.block l.header) = b.terminator.targets := by
      rw [Func.successors, hb]
    rw [hsuccessors, Func.phis, block_splitHeader hb, if_neg h₂]
    -- the phis name their sources: those that came from the header now come from the loop body
    by_cases hheader : v = .block l.header
    · rw [if_pos hheader, hheader, Func.phis, hb]
      exact phis_rename b _ _ _
    · rw [if_neg hheader, if_neg h₁, Func.phis]
      cases f.block v with
      | none => exact (ite_self _).symm
      | some c => exact phis_rename c _ _ _

theorem select_splitHeader {f : Func ι I V} {l : Loop ι} {b : Block ι I V}
    (hb : f.block (.block l.header) = some b) (k : Nat) (limit : BitVec 32) (q : Inst I → Bool)
    (v : Label ι) : (f.splitHeader l k limit).select q v =
      if v = .kleeExit l.header then [(.silentExit : Inst I)].filter q
      else if v = .block l.header then
        [(.boundCheck k limit : Inst I)].filter q
      else if v = .loopBody l.header then f.select q (.block l.header)
      else f.select q v := by
  rw [Func.select, block_splitHeader hb]
  by_cases hexit : v = .kleeExit l.header
  · rw [if_pos hexit, if_pos hexit]
  · rw [if_neg hexit, if_neg hexit]
    by_cases hheader : v = .block l.header
    · rw [if_pos hheader, if_pos hheader]
    · rw [if_neg hheader, if_neg hheader]
      by_cases hbody : v = .loopBody l.header
      · rw [if_pos hbody, if_pos hbody, Func.select, hb]
      · rw [if_neg hbody, if_neg hbody, Func.select]
        cases f.block v with
        | none => rfl
        | some c =>
          show (if _ then c.renamePhis _ _ else c).insts.filter _ = c.insts.filter _
          rw [insts_rename]

/-! ### Predecessors -/

/-- The labels are those of the blocks, and edges lead to blocks. -/
structure Func.WellFormed (f : Func ι I V) : Prop where
  domain : ∀ u, u ∈ f.labels ↔ f.block u ≠ none
  nodup : f.labels.Nodup
  closed : ∀ u v, v ∈ f.successors u → v ∈ f.labels

theorem mem_predecessors {f : Func ι I V} (hwf : f.WellFormed) {u v : Label ι} :
    u ∈ f.predecessors v ↔ v ∈ f.successors u := by
  rw [Func.predecessors, List.mem_flatMap]
  constructor
  · rintro ⟨w, -, hw⟩
    obtain ⟨t, ht, rfl⟩ := List.mem_map.mp hw
    obtain ⟨ht, htv⟩ := List.mem_filter.mp ht
    exact of_decide_eq_true htv ▸ ht
  · intro h
    refine ⟨u, (hwf.domain u).mpr (block_ne_none_of_successor h), List.mem_map.mpr ⟨v, ?_, rfl⟩⟩
    exact List.mem_filter.mpr ⟨h, decide_eq_true rfl⟩

theorem count_flatMap_replicate {us : List (Label ι)} (h : us.Nodup) (n : Label ι → Nat)
    (u : Label ι) : (us.flatMap fun v => List.replicate (n v) v).count u =
      if u ∈ us then n u else 0 := by
  induction us with
  | nil => rfl
  | cons v us ih =>
    obtain ⟨hv, hus⟩ := List.nodup_cons.mp h
    rw [List.flatMap_cons, List.count_append, ih hus, List.count_replicate]
    by_cases huv : v = u
    · subst huv
      rw [if_pos (beq_self_eq_true v), if_neg hv, if_pos List.mem_cons_self, Nat.add_zero]
    · rw [if_neg (by simpa using huv), Nat.zero_add]
      simp only [List.mem_cons, Ne.symm huv, false_or]

/-- A predecessor stands once for each edge. -/
theorem count_predecessors {f : Func ι I V} (hwf : f.WellFormed) (u v : Label ι) :
    (f.predecessors v).count u = (f.successors u).count v := by
  have hmap : ∀ w, ((f.successors w).filter fun t => t = v).map (fun _ => w) =
      List.replicate ((f.successors w).count v) w := by
    intro w
    rw [List.map_const', List.count_eq_length_filter]
    rfl
  simp only [Func.predecessors, hmap]
  rw [count_flatMap_replicate hwf.nodup]
  split
  · rfl
  · rename_i hu
    have hnone : f.block u = none := not_not.mp fun h => hu ((hwf.domain u).mpr h)
    rw [Func.successors, hnone]
    rfl

theorem count_getLoopLatches {f : Func ι I V} (hwf : f.WellFormed) (l : Loop ι) (u : Label ι) :
    (f.getLoopLatches l).count u =
      if l.contains u then (f.successors u).count (.block l.header) else 0 := by
  rw [Func.getLoopLatches]
  by_cases hu : l.contains u = true
  · rw [if_pos hu, List.count_filter hu, count_predecessors hwf]
  · rw [if_neg hu, List.count_eq_zero]
    exact fun hmem => hu (List.mem_filter.mp hmem).2

/-- The preheader is the only block outside of the loop that leads to the header, and leads
nowhere else. -/
theorem getLoopPreheader_eq_some {f : Func ι I V} (hwf : f.WellFormed) {l : Loop ι}
    {p : Label ι} (h : f.getLoopPreheader l = some p) :
    l.contains p = false ∧ f.successors p = [.block l.header] ∧
      ∀ u, .block l.header ∈ f.successors u → l.contains u = false → u = p := by
  rw [Func.getLoopPreheader] at h
  split at h
  · cases h
  · rename_i out hout
    split at h
    · cases h
    · rename_i b hb
      split at h
      · cases h
      · split at h
        · cases h
        · rename_i hlength
          obtain rfl := Option.some.inj h
          rw [Func.getLoopPredecessor] at hout
          split at hout
          · cases hout
          · rename_i u rest hpreds
            split at hout
            · rename_i hall
              obtain rfl := Option.some.inj hout
              -- `getLoopPredecessor` has compared every outside predecessor with the first
              have honly : ∀ w, .block l.header ∈ f.successors w → l.contains w = false →
                  w = u := by
                intro w hw hcontains
                have hmem : w ∈ u :: rest := by
                  rw [← hpreds]
                  refine List.mem_filter.mpr ⟨(mem_predecessors hwf).mpr hw, ?_⟩
                  rw [hcontains]
                  rfl
                rcases List.mem_cons.mp hmem with hw | hw
                · exact hw
                · exact of_decide_eq_true (List.all_eq_true.mp hall w hw)
              have hmem : u ∈ (f.predecessors (.block l.header)).filter
                  fun u => !l.contains u := by
                rw [hpreds]
                exact List.mem_cons_self
              obtain ⟨hpred, hcontains⟩ := List.mem_filter.mp hmem
              have hedge := (mem_predecessors hwf).mp hpred
              refine ⟨by simpa using hcontains, ?_, honly⟩
              -- one successor, and the header is among them
              have hsuccessors : f.successors u = b.terminator.targets := by
                rw [Func.successors, hb]
              obtain ⟨t, ht⟩ := List.length_eq_one_iff.mp (not_not.mp hlength)
              rw [hsuccessors, ht] at hedge ⊢
              rw [List.mem_singleton.mp hedge]
            · cases hout

/-! ### One loop -/

/-- What the pass puts before the terminator of a block for a loop. -/
def Func.inserted (f : Func ι I V) (o : Options) (l : Loop ι) (preheader v : Label ι) :
    List (Inst I) :=
  (if v = preheader then [.storeZero f.counters.length] else []) ++
    (if v = .block l.header then [.boundCheck f.counters.length o.maxIterations] else []) ++
      List.replicate ((f.getLoopLatches l).count v) (.increment f.counters.length)

theorem mem_inserted {f : Func ι I V} {o : Options} {l : Loop ι} {p v : Label ι} {i : Inst I}
    (h : i ∈ f.inserted o l p v) : i = .storeZero f.counters.length ∨
      i = .boundCheck f.counters.length o.maxIterations ∨ i = .increment f.counters.length := by
  rcases List.mem_append.mp h with h | h
  · rcases List.mem_append.mp h with h | h
    · split at h
      · exact .inl (List.mem_singleton.mp h)
      · cases h
    · split at h
      · exact .inr (.inl (List.mem_singleton.mp h))
      · cases h
  · exact .inr (.inr (List.eq_of_mem_replicate h))

/-- Nothing of a kind is inserted. -/
theorem inserted_filter {q : Inst I → Bool} (hq : ∀ k limit, q (.storeZero k) = false ∧
    q (.boundCheck k limit) = false ∧ q (.increment k) = false) (f : Func ι I V) (o : Options)
    (l : Loop ι) (p v : Label ι) : (f.inserted o l p v).filter q = [] := by
  rw [List.filter_eq_nil_iff]
  intro i hi
  obtain ⟨hstore, hcheck, hincrement⟩ := hq f.counters.length o.maxIterations
  rcases mem_inserted hi with rfl | rfl | rfl
  · exact Bool.eq_false_iff.mp hstore
  · exact Bool.eq_false_iff.mp hcheck
  · exact Bool.eq_false_iff.mp hincrement

def Func.addCounter (f : Func ι I V) (l : Loop ι) : Func ι I V :=
  { f with counters := f.counters ++ [l] }

/-- The header leaves the loop when it would have, or when the bound is reached. -/
def widened (exitFirst : Bool) (k : Nat) (succ0 succ1 : Label ι) (c : Cond V) :
    Terminator ι I V :=
  .condBr (if exitFirst then .exitOrBound c k else .stayAndNotBound c k) succ0 succ1

structure Widened (o : Options) (f : Func ι I V) (l : Loop ι) (p : Label ι) (exitFirst : Bool)
    (g : Func ι I V) : Prop where
  breakMode : o.breakMode = true
  exit : f.exitSuccessor l = some exitFirst
  frame : Frame l.header (f.addCounter l) g
  terminator : ∃ c succ0 succ1,
    f.terminator (.block l.header) = some (.condBr c succ0 succ1) ∧
    g.terminator (.block l.header) = some (widened exitFirst f.counters.length succ0 succ1 c)
  select : ∀ q v, g.select q v = f.select q v ++ (f.inserted o l p v).filter q

structure Split (o : Options) (f : Func ι I V) (l : Loop ι) (p : Label ι) (g : Func ι I V) :
    Prop where
  silent : o.breakMode = true → f.exitSuccessor l = none
  frame : SplitFrame l.header (f.addCounter l) g
  terminator_exit : g.terminator (.kleeExit l.header) = some .unreachable
  terminator_header : g.terminator (.block l.header) =
    some (.condBr (.bound f.counters.length) (.kleeExit l.header) (.loopBody l.header))
  terminator_body : g.terminator (.loopBody l.header) = f.terminator (.block l.header)
  select_exit : ∀ q, g.select q (.kleeExit l.header) = [Inst.silentExit].filter q
  select_header : ∀ q, g.select q (.block l.header) =
    (f.inserted o l p (.block l.header)).filter q
  select_body : ∀ q, g.select q (.loopBody l.header) = f.select q (.block l.header)
  select : ∀ q v, v ≠ .block l.header → v ≠ .loopBody l.header → v ≠ .kleeExit l.header →
    g.select q v = f.select q v ++ (f.inserted o l p v).filter q

/-- The rewriting of one loop. -/
inductive Rewritten (o : Options) (f : Func ι I V) (l : Loop ι) (g : Func ι I V) : Prop
  | skipped (h : g = f)
  | widened (p : Label ι) (exitFirst : Bool) (hp : f.getLoopPreheader l = some p)
      (h : Widened o f l p exitFirst g)
  | split (p : Label ι) (hp : f.getLoopPreheader l = some p) (h : Split o f l p g)

theorem filter_inserted (f : Func ι I V) (o : Options) (l : Loop ι) (p v : Label ι)
    (q : Inst I → Bool) : (f.inserted o l p v).filter q =
      (if v = p then [.storeZero f.counters.length].filter q else []) ++
        (if v = .block l.header then
          [.boundCheck f.counters.length o.maxIterations].filter q else []) ++
          (List.replicate ((f.getLoopLatches l).count v)
            (.increment f.counters.length)).filter q := by
  rw [Func.inserted, List.filter_append, List.filter_append]
  congr 2
  · split <;> rfl
  · split <;> rfl

theorem getLoopLatches_present {f : Func ι I V} {l : Loop ι} {u : Label ι}
    (h : u ∈ f.getLoopLatches l) :
    (∃ b ∈ l.blocks, u = .block b) ∧ .block l.header ∈ f.successors u := by
  obtain ⟨hpred, hcontains⟩ := List.mem_filter.mp h
  obtain ⟨w, -, hw⟩ := List.mem_flatMap.mp hpred
  obtain ⟨t, ht, rfl⟩ := List.mem_map.mp hw
  obtain ⟨ht, htv⟩ := List.mem_filter.mp ht
  refine ⟨?_, of_decide_eq_true htv ▸ ht⟩
  cases w with
  | block b => exact ⟨b, of_decide_eq_true hcontains, rfl⟩
  | loopBody b => cases hcontains
  | kleeExit b => cases hcontains

theorem instrument_widened {o : Options} {f : Func ι I V} {l : Loop ι} {p : Label ι}
    {exitFirst : Bool} (hp : f.block p ≠ none) (hbreak : o.breakMode = true)
    (hexit : f.exitSuccessor l = some exitFirst) :
    Widened o f l p exitFirst ((f.getLoopLatches l).foldl
      (fun g latch => g.insertBeforeTerminator latch (.increment f.counters.length))
      (((f.addCounter l).insertBeforeTerminator p (.storeZero f.counters.length)).widenExit l
        f.counters.length o.maxIterations exitFirst)) := by
  let k := f.counters.length
  let f₁ := (f.addCounter l).insertBeforeTerminator p (.storeZero k)
  have hframe₁ : Frame l.header (f.addCounter l) f₁ := frame_insert _ _ _ _
  obtain ⟨b₀, c, succ0, succ1, hb₀, ht₀, -, -⟩ := exitSuccessor_eq_some hexit
  obtain ⟨b, hb, ht⟩ : ∃ b, f₁.block (.block l.header) = some b ∧
      b.terminator = .condBr c succ0 succ1 := by
    have hterminator := terminator_insert (f.addCounter l) p (.storeZero k) (.block l.header)
    rw [show (f.addCounter l).terminator (.block l.header) = some (.condBr c succ0 succ1) from
      (congrArg (Option.map _) hb₀).trans (congrArg some ht₀)] at hterminator
    obtain ⟨b, hb, ht⟩ := Option.map_eq_some_iff.mp hterminator
    exact ⟨b, hb, ht⟩
  have hframe₂ := frame_widenExit hb ht k o.maxIterations exitFirst
  obtain ⟨hframe₃, hselect₃⟩ := select_inserts (f.getLoopLatches l) (.increment k) l.header
    (f := f₁.widenExit l k o.maxIterations exitFirst) fun u hu hnone =>
      block_ne_none_of_successor (getLoopLatches_present hu).2
        ((hframe₁.present u).mp ((hframe₂.present u).mp hnone))
  refine ⟨hbreak, hexit, hframe₁.trans (hframe₂.trans hframe₃), ⟨c, succ0, succ1, ?_, ?_⟩,
    fun q v => ?_⟩
  · exact (congrArg (Option.map _) hb₀).trans (congrArg some ht₀)
  · rw [terminator_inserts]
    show Func.terminator (f₁.widenExit l k o.maxIterations exitFirst) _ = _
    rw [Func.terminator, widenExit_eq hb ht, block_setBlock, if_pos rfl]
    rfl
  · have hselect₁ : f₁.select q v =
        f.select q v ++ if v = p then [.storeZero k].filter q else [] :=
      select_insert (f := f.addCounter l) hp (.storeZero k) q v
    rw [hselect₃, select_widenExit hb ht, hselect₁, filter_inserted]
    simp only [List.append_assoc]
    rfl

theorem instrument_split {o : Options} {f : Func ι I V} {l : Loop ι} {p : Label ι}
    {b : Block ι I V} (hp : f.block p ≠ none) (hheader : f.block (.block l.header) = some b)
    (hne : p ≠ .block l.header)
    (hsilent : o.breakMode = true → f.exitSuccessor l = none) :
    Split o f l p ((f.getLoopLatches l).foldl
      (fun g latch => g.insertBeforeTerminator latch (.increment f.counters.length))
      (((f.addCounter l).insertBeforeTerminator p (.storeZero f.counters.length)).splitHeader l
        f.counters.length o.maxIterations)) := by
  let k := f.counters.length
  let f₁ := (f.addCounter l).insertBeforeTerminator p (.storeZero k)
  have hframe₁ : Frame l.header (f.addCounter l) f₁ := frame_insert _ _ _ _
  obtain ⟨b₁, hb₁⟩ : ∃ b₁, f₁.block (.block l.header) = some b₁ := by
    refine Option.ne_none_iff_exists'.mp fun hnone => ?_
    have hgone : f.block (.block l.header) = none := (hframe₁.present _).mp hnone
    rw [hgone] at hheader
    cases hheader
  have hframe₂ := splitFrame_splitHeader hb₁ k o.maxIterations
  have hterminator := terminator_splitHeader hb₁ k o.maxIterations
  have hselect := select_splitHeader hb₁ k o.maxIterations
  obtain ⟨hframe₃, hselect₃⟩ := select_inserts (f.getLoopLatches l) (.increment k) l.header
    (f := f₁.splitHeader l k o.maxIterations) fun u hu hnone =>
      block_ne_none_of_successor (getLoopLatches_present hu).2
        ((hframe₁.present u).mp ((hframe₂.present u).mp hnone).1)
  -- latches are blocks that `LoopInfo` knows, so the new ones get nothing
  have hlatches : ∀ v, (∀ c, v ≠ .block c) → (f.getLoopLatches l).count v = 0 := by
    intro v hv
    rw [List.count_eq_zero]
    intro hmem
    obtain ⟨⟨c, -, hc⟩, -⟩ := getLoopLatches_present hmem
    exact hv c hc
  have hselect₁ : ∀ q v, f₁.select q v =
      f.select q v ++ if v = p then [.storeZero k].filter q else [] := fun q v =>
    select_insert (f := f.addCounter l) hp (.storeZero k) q v
  refine ⟨hsilent, hframe₁.trans_split (hframe₂.trans_frame hframe₃), ?_, ?_, ?_, fun q => ?_,
    fun q => ?_, fun q => ?_, fun q v h₁ h₂ h₃ => ?_⟩
  · rw [terminator_inserts]
    exact (hterminator _).trans (if_pos rfl)
  · rw [terminator_inserts]
    exact (hterminator _).trans ((if_neg (by simp)).trans (if_pos rfl))
  · rw [terminator_inserts]
    refine (hterminator _).trans ((if_neg (by simp)).trans ((if_neg (by simp)).trans
      ((if_pos rfl).trans ?_)))
    have hsame := terminator_insert (f.addCounter l) p (.storeZero k) (.block l.header)
    exact (congrArg (Option.map _) hb₁).symm.trans hsame
  · rw [hselect₃, hlatches _ (by simp), hselect, if_pos rfl]
    exact List.append_nil _
  · rw [hselect₃, hselect, if_neg (by simp), if_pos rfl, filter_inserted, if_neg (Ne.symm hne),
      if_pos rfl]
    rfl
  · rw [hselect₃, hlatches _ (by simp), hselect, if_neg (by simp), if_neg (by simp), if_pos rfl,
      hselect₁, if_neg (Ne.symm hne), List.append_nil]
    exact List.append_nil _
  · rw [hselect₃, hselect, if_neg h₃, if_neg h₁, if_neg h₂, hselect₁, filter_inserted, if_neg h₁]
    simp only [List.append_assoc, List.nil_append]
    rfl

/-- A loop with a preheader and a latch is rewritten. -/
theorem instrument_rewritten {o : Options} {f : Func ι I V} {l : Loop ι} {p : Label ι}
    (hwf : f.WellFormed) (hmem : l.header ∈ l.blocks) (hp : f.getLoopPreheader l = some p)
    (hlatches : f.getLoopLatches l ≠ []) :
    (∃ exitFirst, Widened o f l p exitFirst (f.instrument o l)) ∨
      Split o f l p (f.instrument o l) := by
  obtain ⟨hcontains, hsuccessors, -⟩ := getLoopPreheader_eq_some hwf hp
  have hedge : Label.block l.header ∈ f.successors p := by
    rw [hsuccessors]
    exact List.mem_singleton_self _
  have hpresent : f.block p ≠ none := block_ne_none_of_successor hedge
  have hne : p ≠ .block l.header := by
    intro h
    rw [h] at hcontains
    exact of_decide_eq_false hcontains hmem
  obtain ⟨b, hb⟩ := Option.ne_none_iff_exists'.mp
    ((hwf.domain _).mp (hwf.closed _ _ hedge))
  rw [Func.instrument, hp]
  dsimp only
  split
  · contradiction
  · cases hbreak : o.breakMode with
    | false =>
      exact .inr (instrument_split hpresent hb hne fun h => by
        rw [hbreak] at h
        cases h)
    | true =>
      rw [if_pos rfl]
      cases hs : f.exitSuccessor l with
      | none => exact .inr (instrument_split hpresent hb hne fun _ => hs)
      | some exitFirst => exact .inl ⟨exitFirst, instrument_widened hpresent hbreak hs⟩

/-- **The rewriting of one loop**, as one of three changes. -/
theorem instrument_cases {o : Options} {f : Func ι I V} {l : Loop ι} (hwf : f.WellFormed)
    (hmem : l.header ∈ l.blocks) : Rewritten o f l (f.instrument o l) := by
  cases hp : f.getLoopPreheader l with
  | none =>
    refine .skipped ?_
    rw [Func.instrument, hp]
  | some p =>
    by_cases hlatches : f.getLoopLatches l = []
    · refine .skipped ?_
      rw [Func.instrument, hp, hlatches]
    · rcases instrument_rewritten (o := o) hwf hmem hp hlatches with ⟨exitFirst, h⟩ | h
      · exact .widened p exitFirst hp h
      · exact .split p hp h

end KleeDeps.LoopLimiter
