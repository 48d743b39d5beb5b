import KleeDeps.LoopLimiter.Iterations

/-!
# The source in the instrumented function

Where a block of the source is found again: its terminator in its rear part, as it was unless
the loop at its header was given a wider exit, its PHIs in its front part, with the new names of
the blocks they come from, and no `klee_silent_exit` in either.

- `Image`: what was kept of the source;
- `Simplified.found`: a loop in loop-simplify form is still one when its turn comes;
- `run_image`: **the pass keeps the source and gives every simplified loop a counter**.
-/

namespace KleeDeps.LoopLimiter

variable {ι I V : Type*}

def Inst.isExit : Inst I → Bool
  | silentExit => true
  | _ => false

/-- PHIs whose incoming blocks have other names. -/
def Phi.relabel (name : Label ι → Label ι) (phi : Phi ι V) : Phi ι V :=
  { phi with incoming := phi.incoming.map fun p => (name p.1, p.2) }

/-- PHIs have values for predecessors only. -/
def Func.Incoming (f : Func ι I V) : Prop :=
  ∀ u, ∀ phi ∈ f.phis u, ∀ p ∈ phi.incoming, u ∈ f.successors p.1

theorem relabel_of_id {name : Label ι → Label ι} {phi : Phi ι V}
    (h : ∀ p ∈ phi.incoming, name p.1 = p.1) : phi.relabel name = phi := by
  obtain ⟨result, incoming⟩ := phi
  show Phi.mk result (incoming.map fun p => (name p.1, p.2)) = _
  rw [List.map_congr_left fun p hp => show (name p.1, p.2) = id p by rw [h p hp]; rfl, List.map_id]

theorem relabel_congr {name name' : Label ι → Label ι} {phi : Phi ι V}
    (h : ∀ p ∈ phi.incoming, name p.1 = name' p.1) : phi.relabel name = phi.relabel name' := by
  obtain ⟨result, incoming⟩ := phi
  show Phi.mk result (incoming.map fun p => (name p.1, p.2)) = _
  rw [List.map_congr_left fun p hp => show (name p.1, p.2) = (name' p.1, p.2) by rw [h p hp]]
  rfl

/-- What was kept of the source. -/
structure Image (f₀ f : Func ι I V) : Prop where
  terminator : ∀ b, f.terminator (f.rear b) = f₀.terminator (.block b) ∨
    f.block (.loopBody b) = none ∧ ∃ l ∈ f.counters, l.header = b
  front : ∀ b, f.block (.loopBody b) ≠ none → ∃ l ∈ f.counters, l.header = b
  silent : ∀ b, f.select Inst.isExit (.block b) = [] ∧ f.select Inst.isExit (.loopBody b) = []
  phis : ∀ b, f.phis (.block b) =
    (f₀.phis (.block b)).map (Phi.relabel fun u => f.rear u.source)
  body : ∀ b, f.phis (.loopBody b) = []

theorem rear_source (f : Func ι I V) (b : ι) : (f.rear b).source = b := by
  rcases rear_eq f b with h | h
  · rw [h]
    rfl
  · rw [h]
    rfl

theorem Frame.rear {f g : Func ι I V} {h : ι} {l : Loop ι} (hframe : Frame h (f.addCounter l) g)
    (b : ι) : g.rear b = f.rear b := by
  have hpresent : ∀ u, g.block u = none ↔ f.block u = none := hframe.present
  by_cases hb : f.block (.loopBody b) = none
  · rw [rear_of_none hb, rear_of_none ((hpresent _).mpr hb)]
  · rw [rear_of_ne_none hb, rear_of_ne_none fun hnone => hb ((hpresent _).mp hnone)]

theorem Image.start {f : Func ι I V} (h : f.Source) (hphis : f.Incoming) : Image f f := by
  have hbody : ∀ b, f.block (.loopBody b) = none := by
    intro b
    by_contra hne
    obtain ⟨c, hc⟩ := h.plain _ ((h.wf.domain _).mpr hne)
    cases hc
  have hsilent : ∀ u, f.select Inst.isExit u = [] := by
    intro u
    rw [Func.select]
    cases hu : f.block u with
    | none => rfl
    | some b =>
      refine List.filter_eq_nil_iff.mpr fun i hi => ?_
      obtain ⟨j, rfl⟩ := h.original u b hu i hi
      exact Bool.false_ne_true
  refine ⟨fun b => .inl ?_, fun b hb => absurd (hbody b) hb, fun b => ⟨hsilent _, hsilent _⟩,
    fun b => ?_, fun b => ?_⟩
  · rw [rear_of_none (hbody b)]
  · symm
    rw [List.map_congr_left (g := id) fun phi hphi => ?_, List.map_id]
    -- the blocks that a PHI names are those of the source
    refine relabel_of_id fun p hp => ?_
    have hedge := hphis _ phi hphi p hp
    obtain ⟨c, hc⟩ := h.plain _ ((h.wf.domain _).mpr (block_ne_none_of_successor hedge))
    rw [hc]
    exact rear_of_none (hbody c)
  · rw [Func.phis, hbody]

theorem mem_counters_of_append {f g : Func ι I V} {l m : Loop ι}
    (h : g.counters = f.counters ++ [l])
    (hm : m ∈ f.counters) : m ∈ g.counters := by
  rw [h]
  exact List.mem_append_left _ hm

theorem new_mem_counters {f g : Func ι I V} {l : Loop ι} (h : g.counters = f.counters ++ [l]) :
    l ∈ g.counters := by
  rw [h]
  exact List.mem_append_right _ (List.mem_singleton_self l)

variable [DecidableEq ι]

theorem Phi.rename_relabel (old new : Label ι) (name : Label ι → Label ι) (phi : Phi ι V) :
    (phi.relabel name).rename old new =
      phi.relabel fun u => if name u = old then new else name u := by
  obtain ⟨result, incoming⟩ := phi
  show Phi.mk result ((incoming.map _).map _) = Phi.mk result (incoming.map _)
  rw [List.map_map]
  rfl

theorem SplitFrame.rear {f g : Func ι I V} {h : ι} {l : Loop ι}
    (hframe : SplitFrame h (f.addCounter l) g) (b : ι) :
    g.rear b = if b = h then .loopBody h else f.rear b := by
  have hpresent : ∀ u, g.block u = none ↔ f.block u = none ∧ u ≠ .loopBody h ∧ u ≠ .kleeExit h :=
    hframe.present
  by_cases hb : b = h
  · rw [if_pos hb, hb, rear_of_ne_none fun hnone => ((hpresent _).mp hnone).2.1 rfl]
  · rw [if_neg hb]
    have hsame : g.block (.loopBody b) = none ↔ f.block (.loopBody b) = none := by
      rw [hpresent]
      exact and_iff_left ⟨by simpa using hb, by simp⟩
    by_cases hnone : f.block (.loopBody b) = none
    · rw [rear_of_none hnone, rear_of_none (hsame.mpr hnone)]
    · rw [rear_of_ne_none hnone, rear_of_ne_none fun h => hnone (hsame.mp h)]

section Step

variable {o : Options} {f₀ f g : Func ι I V} {l : Loop ι} {p : Label ι} {t : ι}

theorem inserted_exit (f : Func ι I V) (o : Options) (l : Loop ι) (p v : Label ι) :
    (f.inserted o l p v).filter Inst.isExit = [] :=
  inserted_filter (fun _ _ => ⟨rfl, rfl, rfl⟩) f o l p v

/-- A wider exit is that of the loop's own header. -/
theorem Image.widened {exitFirst : Bool} (h : Image f₀ f)
    (hfresh : f.block (.loopBody l.header) = none) (hl : Widened o f l p exitFirst g) :
    Image f₀ g := by
  have hpresent : ∀ u, g.block u = none ↔ f.block u = none := hl.frame.present
  have hcounters : g.counters = f.counters ++ [l] := hl.frame.counters
  have hsame : ∀ u, g.select Inst.isExit u = f.select Inst.isExit u := by
    intro u
    rw [hl.select, inserted_exit, List.append_nil]
  have hphis : ∀ u, g.phis u = f.phis u := hl.frame.phis
  have hrear : ∀ b, g.rear b = f.rear b := hl.frame.rear
  refine ⟨fun b => ?_, fun b hb => ?_, fun b => ?_, fun b => ?_, fun b => ?_⟩
  · by_cases hb : b = l.header
    · subst hb
      exact .inr ⟨(hpresent _).mpr hfresh, l, new_mem_counters hcounters, rfl⟩
    · have hne : f.rear b ≠ .block l.header := by
        intro heq
        have hsource := congrArg Label.source heq
        rw [rear_source] at hsource
        exact hb hsource
      rw [hrear, hl.frame.terminator _ hne]
      refine (h.terminator b).imp_right fun ⟨hnone, m, hm, hheader⟩ => ?_
      exact ⟨(hpresent _).mpr hnone, m, mem_counters_of_append hcounters hm, hheader⟩
  · obtain ⟨m, hm, hheader⟩ := h.front b fun hnone => hb ((hpresent _).mpr hnone)
    exact ⟨m, mem_counters_of_append hcounters hm, hheader⟩
  · rw [hsame, hsame]
    exact h.silent b
  · rw [hphis, h.phis]
    simp only [hrear]
  · rw [hphis, h.body]

/-- A split header keeps its PHIs, and the PHIs behind it learn its new name. -/
theorem Image.split (hsource : f₀.Source) (hincoming : f₀.Incoming) (h : Image f₀ f)
    (hlayout : Layout f₀ f)    (hfresh : f.block (.loopBody l.header) = none)
    (hpending : f.terminator (.block l.header) = f₀.terminator (.block l.header))
    (hl : Split o f l p g) : Image f₀ g := by
  have hpresent : ∀ u, g.block u = none ↔ f.block u = none ∧ u ≠ .loopBody l.header ∧
    u ≠ .kleeExit l.header := hl.frame.present
  have hcounters : g.counters = f.counters ++ [l] := hl.frame.counters
  have hsame : ∀ u, u ≠ .block l.header → u ≠ .loopBody l.header → u ≠ .kleeExit l.header →
      g.select Inst.isExit u = f.select Inst.isExit u := by
    intro u h₁ h₂ h₃
    rw [hl.select _ u h₁ h₂ h₃, inserted_exit, List.append_nil]
  have hphis : ∀ u, u ≠ .loopBody l.header → u ≠ .kleeExit l.header →
    g.phis u = if u ∈ f.successors (.block l.header)
      then (f.phis u).map (Phi.rename (.block l.header) (.loopBody l.header)) else f.phis u :=
    hl.frame.phis
  have hrear : ∀ b, g.rear b = if b = l.header then .loopBody l.header else f.rear b :=
    hl.frame.rear
  have hheader : f.successors (.block l.header) = f₀.successors (.block l.header) := by
    rw [← hlayout.rear, rear_of_none hfresh]
  refine ⟨fun b => ?_, fun b hb => ?_, fun b => ?_, fun b => ?_, fun b => ?_⟩
  · by_cases hb : b = l.header
    · subst hb
      rw [hrear, if_pos rfl]
      exact .inl (hl.terminator_body.trans hpending)
    · have hne : ∀ c, (c : Label ι) = f.rear b → c.source ≠ l.header := by
        rintro c rfl hc
        rw [rear_source] at hc
        exact hb hc
      rw [hrear, if_neg hb, hl.frame.terminator _ (fun heq => hne _ heq.symm rfl)
        (fun heq => hne _ heq.symm rfl) (fun heq => hne _ heq.symm rfl)]
      refine (h.terminator b).imp_right fun ⟨hnone, m, hm, hheader⟩ => ?_
      exact ⟨(hpresent _).mpr ⟨hnone, by simpa using hb, by simp⟩, m,
        mem_counters_of_append hcounters hm, hheader⟩
  · by_cases hbh : b = l.header
    · exact ⟨l, new_mem_counters hcounters, hbh.symm⟩
    · obtain ⟨m, hm, hheader⟩ := h.front b fun hnone =>
        hb ((hpresent _).mpr ⟨hnone, by simpa using hbh, by simp⟩)
      exact ⟨m, mem_counters_of_append hcounters hm, hheader⟩
  · by_cases hbh : b = l.header
    · rw [hbh, hl.select_header, inserted_exit, hl.select_body]
      exact ⟨rfl, (h.silent l.header).1⟩
    · rw [hsame _ (by simpa using hbh) (by simp) (by simp),
        hsame _ (by simp) (by simpa using hbh) (by simp)]
      exact h.silent b
  · -- the header is among the names of a PHI only behind one of its edges
    rw [hphis _ (by simp) (by simp), hheader, h.phis]
    by_cases hedge : .block b ∈ f₀.successors (.block l.header)
    · rw [if_pos hedge, List.map_map]
      refine List.map_congr_left fun phi hphi => ?_
      rw [Function.comp_apply, Phi.rename_relabel]
      refine relabel_congr fun q hq => ?_
      rw [hrear]
      by_cases hq' : q.1.source = l.header
      · rw [if_pos hq', hq', rear_of_none hfresh, if_pos rfl]
      · rw [if_neg hq', if_neg]
        intro heq
        have hsource := congrArg Label.source heq
        rw [rear_source] at hsource
        exact hq' hsource
    · rw [if_neg hedge]
      refine List.map_congr_left fun phi hphi => relabel_congr fun q hq => ?_
      have hedge' := hincoming _ phi hphi q hq
      obtain ⟨c, hc⟩ :=
        hsource.plain _ ((hsource.wf.domain _).mpr (block_ne_none_of_successor hedge'))
      have hne : (Label.block c).source ≠ l.header := by
        rintro rfl
        exact hedge (hc ▸ hedge')
      rw [hc, hrear, if_neg hne]
  · by_cases hbh : b = l.header
    · rw [hbh]
      exact hl.frame.phis_body
    · rw [hphis _ (by simpa using hbh) (by simp), h.body]
      exact ite_self _

/-! ### The loops whose turn comes -/

theorem getLoopPreheader_terminator {q : Label ι} (h : f.getLoopPreheader l = some q) :
    ∃ b, f.block q = some b ∧ b.terminator.isExceptional = false := by
  rw [Func.getLoopPreheader] at h
  split at h
  · cases h
  · split at h
    · cases h
    · rename_i b hb
      split at h
      · cases h
      · rename_i hexceptional
        split at h
        · cases h
        · obtain rfl := Option.some.inj h
          exact ⟨b, hb, Bool.eq_false_iff.mpr hexceptional⟩

/-- The only block outside of the loop that leads to the header, by its only edge. -/
theorem getLoopPreheader_of_only {r : Label ι} {b : Block ι I V} (hwf : f.WellFormed)
    (hblock : f.block r = some b) (hexceptional : b.terminator.isExceptional = false)
    (hsuccessors : f.successors r = [.block l.header]) (hr : l.contains r = false)
    (honly : ∀ u, .block l.header ∈ f.successors u → l.contains u = false → u = r) :
    f.getLoopPreheader l = some r := by
  have hmem : r ∈ (f.predecessors (.block l.header)).filter fun u => !l.contains u := by
    refine List.mem_filter.mpr ⟨(mem_predecessors hwf).mpr ?_, by rw [hr]; rfl⟩
    rw [hsuccessors]
    exact List.mem_singleton_self _
  have hall : ∀ u ∈ (f.predecessors (.block l.header)).filter (fun u => !l.contains u),
      u = r := by
    intro u hu
    obtain ⟨hpred, hcontains⟩ := List.mem_filter.mp hu
    exact honly u ((mem_predecessors hwf).mp hpred) (by simpa using hcontains)
  have hpredecessor : f.getLoopPredecessor l = some r := by
    rw [Func.getLoopPredecessor]
    split
    · rename_i hnil
      rw [hnil] at hmem
      cases hmem
    · rename_i out rest hcons
      rw [hcons] at hall
      obtain rfl := hall out List.mem_cons_self
      refine if_pos (List.all_eq_true.mpr fun u hu => ?_)
      exact decide_eq_true (hall u (List.mem_cons_of_mem _ hu))
  have htargets : b.terminator.targets = [.block l.header] := by
    rw [← hsuccessors, Func.successors, hblock]
  rw [Func.getLoopPreheader, hpredecessor]
  dsimp only
  rw [hblock]
  dsimp only
  rw [if_neg (Bool.eq_false_iff.mp hexceptional), htargets, if_neg (by simp)]

/-- A loop in loop-simplify form is still one when its turn comes. -/
theorem Simplified.found {all rest : List (Loop ι)} (hsource : f₀.Source)
    (h : Stage o f₀ all (l :: rest) f) (himage : Image f₀ f) (hsimple : Simplified f₀ l t) :
    (∃ r, f.getLoopPreheader l = some r) ∧ f.getLoopLatches l ≠ [] := by
  have hfresh : ∀ b ∈ l.blocks, f.block (.loopBody b) = none := fun b hb =>
    (h.fresh l List.mem_cons_self b hb).1
  constructor
  · obtain ⟨q, hq⟩ := Option.ne_none_iff_exists'.mp hsimple.preheader
    obtain ⟨hcontains, hsuccessors, honly⟩ := getLoopPreheader_eq_some hsource.wf hq
    obtain ⟨b₀, hb₀, hexceptional⟩ := getLoopPreheader_terminator hq
    obtain ⟨c, rfl⟩ := hsource.plain q ((hsource.wf.domain q).mpr (by rw [hb₀]; simp))
    have hc : c ∉ l.blocks := of_decide_eq_false hcontains
    have hrear : f.successors (f.rear c) = [.block l.header] := by
      rw [h.layout.rear, hsuccessors]
    obtain ⟨b, hb⟩ := Option.ne_none_iff_exists'.mp
      (block_ne_none_of_successor (hrear ▸ List.mem_singleton_self (Label.block l.header)))
    refine ⟨f.rear c, getLoopPreheader_of_only h.wf hb ?_ hrear ?_ fun u hu hout => ?_⟩
    · have hterminator : f.terminator (f.rear c) = some b.terminator := congrArg (Option.map _) hb
      rcases himage.terminator c with hsame | ⟨hnone, m, hm, hheader⟩
      · rw [hterminator, Func.terminator, hb₀] at hsame
        rw [Option.some.inj hsame]
        exact hexceptional
      · -- a branch with a wider exit has two edges
        obtain ⟨k, hk⟩ := List.getElem?_of_mem hm
        obtain ⟨-, -, p, hcounted⟩ := h.counted k m hk
        cases hcounted.guard with
        | silent _ hbody _ => exact absurd (hheader ▸ hnone) hbody
        | widened e c' succ0 succ1 _ _ _ _ hbranch _ =>
          rw [hheader, ← rear_of_none hnone] at hbranch
          rw [successors_eq, hbranch] at hrear
          cases hrear
    · rcases rear_eq f c with hc' | hc'
      · rw [hc']
        exact hcontains
      · rw [hc']
        rfl
    · rcases edge_source hsource h.layout hu with ⟨d, -, hd | hd⟩ | ⟨d, hd, hrear', hedge⟩
      · cases hd
      · cases hd
      · have hsource' : l.contains (.block u.source) = false := by
          refine decide_eq_false fun hin => ?_
          rw [hrear', rear_of_none (hfresh _ hin)] at hout
          exact of_decide_eq_false hout hin
        have heq := honly _ (hd ▸ hedge) hsource'
        rw [hrear', Label.block.inj heq]
  · obtain ⟨ht, hone, -⟩ := hsimple.count hsource
    have hcount := count_getLoopLatches h.wf l (.block t)
    have hsame : f.successors (.block t) = f₀.successors (.block t) := by
      rw [← h.layout.rear, rear_of_none (hfresh t ht)]
    have hcontains : l.contains (.block t) = true := decide_eq_true ht
    rw [if_pos hcontains, hsame, hone] at hcount
    intro hnil
    rw [hnil] at hcount
    cases hcount

end Step

/-- **The pass keeps the source and gives every simplified loop a counter.** -/
theorem run_image {o : Options} {f₀ f : Func ι I V} {loops : List (Loop ι)}
    (hsource : f₀.Source) (hincoming : f₀.Incoming) (hnest : Nest loops)
    (hrun : run o f₀ loops = .ok f) :
    Image f₀ f ∧ (allowed o f₀.name = true → ∀ l ∈ visited loops.reverse, ∀ t,
      Simplified f₀ l t → l ∈ f.counters) := by
  rw [run] at hrun
  split at hrun
  · cases hrun
  · split at hrun
    · obtain rfl := Except.ok.inj hrun
      rw [limitLoops_eq]
      -- every loop in LoopSimplify form is still to be visited or already has its counter
      let P (rest : List (Loop ι)) (g : Func ι I V) : Prop := Image f₀ g ∧
        ∀ l ∈ visited loops.reverse, ∀ t, Simplified f₀ l t → l ∈ rest ∨ l ∈ g.counters
      have hstep : ∀ l rest g, Stage o f₀ (visited loops.reverse) (l :: rest) g →
          l.header ∈ l.blocks → P (l :: rest) g → P rest (g.instrument o l) := by
        rintro l rest g hstage hmem ⟨himage, hloops⟩
        have hfresh := (hstage.fresh l List.mem_cons_self _ hmem).1
        have hpending := hstage.pending l List.mem_cons_self
        constructor
        · cases instrument_cases (o := o) hstage.wf hmem with
          | skipped hsame =>
            rw [hsame]
            exact himage
          | widened p exitFirst hp hw => exact himage.widened hfresh hw
          | split p hp hs =>
            exact himage.split hsource hincoming hstage.layout hfresh hpending hs
        · intro m hm t ht
          -- the loop visited now: in that form it is rewritten, not skipped
          rcases hloops m hm t ht with hmem' | hcounter
          · rcases List.mem_cons.mp hmem' with rfl | hrest
            · obtain ⟨⟨r, hr⟩, hlatches⟩ := ht.found hsource hstage himage
              rcases instrument_rewritten (o := o) hstage.wf hmem hr hlatches with ⟨e, hw⟩ | hs
              · exact .inr (new_mem_counters hw.frame.counters)
              · exact .inr (new_mem_counters hs.frame.counters)
            · exact .inl hrest
          · right
            -- an earlier loop keeps its counter: the list of counters only grows
            cases instrument_cases (o := o) hstage.wf hmem with
            | skipped hsame =>
              rw [hsame]
              exact hcounter
            | widened p exitFirst hp hw => exact mem_counters_of_append hw.frame.counters hcounter
            | split p hp hs => exact mem_counters_of_append hs.frame.counters hcounter
      have hstart : P (visited loops.reverse) f₀ :=
        ⟨.start hsource hincoming, fun l hl _ _ => .inl hl⟩
      obtain ⟨-, himage, hloops⟩ := Stage.foldl hsource hstep _ f₀ (Stage.start hsource _) hstart
        (fun m hm => (visited_subset hnest.reverse m hm).1) (visited_pairwise hnest.reverse)
      refine ⟨himage, fun _ l hl t ht => ?_⟩
      exact (hloops l hl t ht).resolve_left List.not_mem_nil
    · rename_i hnot
      obtain rfl := Except.ok.inj hrun
      exact ⟨.start hsource hincoming, fun hallowed => absurd hallowed hnot⟩

end KleeDeps.LoopLimiter
