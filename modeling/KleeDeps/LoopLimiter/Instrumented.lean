import KleeDeps.LoopLimiter.Rewriting

/-!
# The instrumented function

Whatever the pass does to the other loops, before or afterwards, the code of one counter stays
in place: the reset alone in the preheader, the check at the top of the header, the increments
in front of the edges to the header. Only the preheader and the latches may move, when they are
headers of other loops and are split.

- `Nest`, `Natural`: what `LoopInfo` says about the loops of a function;
- `Layout`: every block of the source has its successors, behind a check if it was split;
- `Counted`: the code of one counter;
- `run_counted`: **every counter of the instrumented function has its code**.
-/

namespace KleeDeps.LoopLimiter

variable {ι I V : Type*}

/-! ### The loops -/

/-- The header of a loop is in it and in none of its sub-loops, which are disjoint parts of it. -/
inductive Loop.Nested : Loop ι → Prop
  | mk {header : ι} {blocks : List ι} {subLoops : List (Loop ι)} (hheader : header ∈ blocks)
      (hnested : ∀ m ∈ subLoops, m.Nested) (hsub : ∀ m ∈ subLoops, m.blocks ⊆ blocks)
      (houter : ∀ m ∈ subLoops, header ∉ m.blocks)
      (hdisjoint : subLoops.Pairwise fun m n => m.blocks.Disjoint n.blocks) :
      Nested (.mk header blocks subLoops)

/-- The loops of a function. -/
structure Nest (loops : List (Loop ι)) : Prop where
  nested : ∀ l ∈ loops, l.Nested
  disjoint : loops.Pairwise fun l m => l.blocks.Disjoint m.blocks

theorem Nest.reverse {loops : List (Loop ι)} (h : Nest loops) : Nest loops.reverse where
  nested l hl := h.nested l (List.mem_reverse.mp hl)
  disjoint := List.pairwise_reverse.mpr (h.disjoint.imp fun hd => List.disjoint_symm hd)

/-- One step of the worklist. -/
theorem Nest.push {l : Loop ι} {worklist : List (Loop ι)} (h : Nest (l :: worklist)) :
    Nest (l.subLoops.reverse ++ worklist) := by
  obtain ⟨hl, hworklist⟩ := List.pairwise_cons.mp h.disjoint
  cases h.nested l List.mem_cons_self with
  | @mk header blocks subLoops hheader hnested hsub houter hdisjoint =>
    refine ⟨fun m hm => ?_, List.pairwise_append.mpr ⟨?_, hworklist, fun m hm n hn => ?_⟩⟩
    · rcases List.mem_append.mp hm with hm | hm
      · exact hnested m (List.mem_reverse.mp hm)
      · exact h.nested m (List.mem_cons_of_mem _ hm)
    · exact List.pairwise_reverse.mpr (hdisjoint.imp fun hd => List.disjoint_symm hd)
    · exact List.disjoint_of_subset_left (hsub m (List.mem_reverse.mp hm)) (hl n hn)

theorem Loop.Nested.header_mem {l : Loop ι} (h : l.Nested) : l.header ∈ l.blocks := by
  cases h with
  | mk hheader => exact hheader

/-- The worklist yields parts of its loops. -/
theorem visited_subset {worklist : List (Loop ι)} (h : Nest worklist) :
    ∀ m ∈ visited worklist, m.header ∈ m.blocks ∧ ∃ l ∈ worklist, m.blocks ⊆ l.blocks := by
  induction worklist using visited.induct with
  | case1 =>
    rw [visited]
    exact fun m hm => absurd hm List.not_mem_nil
  | case2 l worklist ih =>
    intro m hm
    rw [visited] at hm
    rcases List.mem_cons.mp hm with rfl | hm
    · exact ⟨(h.nested m List.mem_cons_self).header_mem, m, List.mem_cons_self, fun _ => id⟩
    · obtain ⟨hheader, n, hn, hsub⟩ := ih h.push m hm
      rcases List.mem_append.mp hn with hn | hn
      · cases h.nested l List.mem_cons_self with
        | @mk header blocks subLoops _ _ hpart =>
          refine ⟨hheader, _, List.mem_cons_self, fun b hb => ?_⟩
          exact hpart n (List.mem_reverse.mp hn) (hsub hb)
      · exact ⟨hheader, n, List.mem_cons_of_mem _ hn, hsub⟩

/-- The header of a loop is in none that comes later. -/
theorem visited_pairwise {worklist : List (Loop ι)} (h : Nest worklist) :
    (visited worklist).Pairwise fun l m => l.header ∉ m.blocks := by
  induction worklist using visited.induct with
  | case1 =>
    rw [visited]
    exact List.Pairwise.nil
  | case2 l worklist ih =>
    rw [visited]
    refine List.pairwise_cons.mpr ⟨fun m hm hmem => ?_, ih h.push⟩
    obtain ⟨-, n, hn, hsub⟩ := visited_subset h.push m hm
    rcases List.mem_append.mp hn with hn | hn
    · cases h.nested l List.mem_cons_self with
      | @mk header blocks subLoops _ _ _ houter =>
        exact houter n (List.mem_reverse.mp hn) (hsub hmem)
    · have hdisjoint := (List.pairwise_cons.mp h.disjoint).1 n hn
      exact hdisjoint (h.nested l List.mem_cons_self).header_mem (hsub hmem)

/-! ### The source -/

/-- A function that the pass did not see yet. -/
structure Func.Source (f : Func ι I V) : Prop where
  wf : f.WellFormed
  entry : f.entry ∈ f.labels
  plain : ∀ u ∈ f.labels, ∃ b, u = .block b
  original : ∀ u b, f.block u = some b → ∀ i ∈ b.insts, ∃ j, i = .original j
  condition : ∀ u c succ0 succ1, f.terminator u = some (.condBr c succ0 succ1) →
    ∃ v, c = .original v
  counters : f.counters = []

inductive Func.Reachable (f : Func ι I V) : ι → Prop
  | entry {b : ι} (h : f.entry = .block b) : Reachable f b
  | edge {b c : ι} (h : Reachable f b) (hc : .block c ∈ f.successors (.block b)) : Reachable f c

/-- The entry of the function is not in the loop, and the other edges into it lead to its
header. -/
structure Natural (f : Func ι I V) (l : Loop ι) : Prop where
  entry : ∀ b, f.entry = .block b → b ∉ l.blocks
  enter : ∀ b c, f.Reachable b → .block c ∈ f.successors (.block b) → c ∈ l.blocks →
    c ≠ l.header → b ∈ l.blocks

/-- The loops that `LoopInfo` has for a function. -/
structure LoopInfo (f : Func ι I V) (loops : List (Loop ι)) : Prop where
  nest : Nest loops
  natural : ∀ l ∈ visited loops.reverse, Natural f l

theorem visited_single (header : ι) (blocks : List ι) :
    visited [Loop.mk header blocks []].reverse = [.mk header blocks []] := by
  rw [List.reverse_singleton, visited]
  show _ :: visited [] = _
  rw [visited]

theorem loopInfo_single {f : Func ι I V} {header : ι} {blocks : List ι}
    (hmem : header ∈ blocks) (hnatural : Natural f (.mk header blocks [])) :
    LoopInfo f [.mk header blocks []] := by
  refine ⟨⟨fun l hl => ?_, List.pairwise_singleton _ _⟩, fun l hl => ?_⟩
  · rw [List.mem_singleton.mp hl]
    exact .mk hmem (by simp) (by simp) (by simp) List.Pairwise.nil
  · rw [visited_single] at hl
    rw [List.mem_singleton.mp hl]
    exact hnatural

/-! ### The blocks -/

def Inst.isOriginal : Inst I → Bool
  | original _ => true
  | _ => false

/-- The block that ends with the terminator of a block of the source. -/
def Func.rear (f : Func ι I V) (b : ι) : Label ι :=
  match f.block (.loopBody b) with
  | none => .block b
  | some _ => .loopBody b

theorem rear_of_none {f : Func ι I V} {b : ι} (h : f.block (.loopBody b) = none) :
    f.rear b = .block b := by
  rw [Func.rear, h]

theorem rear_of_ne_none {f : Func ι I V} {b : ι} (h : f.block (.loopBody b) ≠ none) :
    f.rear b = .loopBody b := by
  rw [Func.rear]
  split
  · contradiction
  · rfl

theorem rear_eq (f : Func ι I V) (b : ι) : f.rear b = .block b ∨ f.rear b = .loopBody b := by
  rw [Func.rear]
  split
  · exact .inl rfl
  · exact .inr rfl

/-- Where the edges of the source are. -/
structure Layout (f₀ f : Func ι I V) : Prop where
  entry : f.entry = f₀.entry
  rear : ∀ b, f.successors (f.rear b) = f₀.successors (.block b)
  split : ∀ b, f.block (.loopBody b) ≠ none →
    f.successors (.block b) = [.kleeExit b, .loopBody b]
  exit : ∀ b, f.successors (.kleeExit b) = []

theorem Layout.refl {f : Func ι I V} (h : f.Source) : Layout f f := by
  have hbody : ∀ b, f.block (.loopBody b) = none := by
    intro b
    by_contra hne
    obtain ⟨c, hc⟩ := h.plain _ ((h.wf.domain _).mpr hne)
    cases hc
  have hexit : ∀ b, f.block (.kleeExit b) = none := by
    intro b
    by_contra hne
    obtain ⟨c, hc⟩ := h.plain _ ((h.wf.domain _).mpr hne)
    cases hc
  refine ⟨rfl, fun b => ?_, fun b hb => absurd (hbody b) hb, fun b => ?_⟩
  · rw [rear_of_none (hbody b)]
  · rw [Func.successors, hexit]

theorem Layout.frame {f₀ f g : Func ι I V} {h : ι} {l : Loop ι} (hlayout : Layout f₀ f)
    (hframe : Frame h (f.addCounter l) g) : Layout f₀ g := by
  have hpresent : ∀ u, g.block u = none ↔ f.block u = none := hframe.present
  have hsuccessors : ∀ u, g.successors u = f.successors u := hframe.successors
  refine ⟨hframe.entry.trans hlayout.entry, fun b => ?_, fun b hb => ?_, fun b => ?_⟩
  · have hrear : g.rear b = f.rear b := by
      by_cases hb : f.block (.loopBody b) = none
      · rw [rear_of_none hb, rear_of_none ((hpresent _).mpr hb)]
      · rw [rear_of_ne_none hb, rear_of_ne_none fun h => hb ((hpresent _).mp h)]
    rw [hrear, hsuccessors, hlayout.rear]
  · rw [hsuccessors, hlayout.split b fun h => hb ((hpresent _).mpr h)]
  · rw [hsuccessors, hlayout.exit]

theorem Func.WellFormed.frame {f g : Func ι I V} {h : ι} {l : Loop ι} (hwf : f.WellFormed)
    (hframe : Frame h (f.addCounter l) g) : g.WellFormed := by
  have hlabels : g.labels = f.labels := hframe.labels
  refine ⟨fun u => ?_, hlabels ▸ hwf.nodup, fun u v hv => ?_⟩
  · rw [hlabels, hwf.domain]
    exact not_congr (hframe.present u).symm
  · rw [hlabels]
    rw [hframe.successors] at hv
    exact hwf.closed u v hv

/-- The counters after one more loop. -/
theorem getElem?_counters {f g : Func ι I V} {l m : Loop ι} {k : Nat}
    (hcounters : g.counters = f.counters ++ [l]) (hk : g.counters[k]? = some m) :
    k < f.counters.length ∧ f.counters[k]? = some m ∨ k = f.counters.length ∧ m = l := by
  rw [hcounters] at hk
  by_cases hlt : k < f.counters.length
  · rw [List.getElem?_append_left hlt] at hk
    exact .inl ⟨hlt, hk⟩
  · rw [List.getElem?_append_right (Nat.le_of_not_lt hlt)] at hk
    obtain ⟨hlast, hm⟩ := List.getElem?_eq_some_iff.mp hk
    have hlength : k - f.counters.length < 1 := hlast
    refine .inr ⟨by omega, ?_⟩
    rw [← hm]
    exact List.getElem_singleton hlast

variable [DecidableEq ι]

/-! ### Functions given by their blocks -/

def Func.ofBlocks (name : String) (entry : ι) (blocks : List (ι × Block ι I V)) :
    Func ι I V where
  name := name
  entry := .block entry
  labels := blocks.map fun p => .block p.1
  block
    | .block b => (blocks.find? fun p => p.1 = b).map Prod.snd
    | _ => none
  counters := []

/-- Are all parts of a block those of a source block? -/
def Block.plain (b : Block ι I V) : Bool :=
  b.insts.all Inst.isOriginal &&
    match b.terminator with
    | .condBr (.original _) _ _ => true
    | .condBr _ _ _ => false
    | _ => true

section OfBlocks

variable {name : String} {entry : ι} {blocks : List (ι × Block ι I V)}

theorem block_ofBlocks {u : Label ι} {b : Block ι I V}
    (h : (Func.ofBlocks name entry blocks).block u = some b) :
    ∃ p ∈ blocks, u = .block p.1 ∧ p.2 = b := by
  cases u with
  | block c =>
    obtain ⟨p, hp, hb⟩ := Option.map_eq_some_iff.mp h
    have hkey := List.find?_some hp
    refine ⟨p, List.mem_of_find?_eq_some hp, ?_, hb⟩
    rw [of_decide_eq_true hkey]
  | loopBody c => cases h
  | kleeExit c => cases h

theorem source_ofBlocks (hkeys : (blocks.map Prod.fst).Nodup)
    (hentry : entry ∈ blocks.map Prod.fst)
    (hclosed : ∀ p ∈ blocks, ∀ t ∈ p.2.terminator.targets,
      t ∈ blocks.map fun p => Label.block p.1)
    (hplain : ∀ p ∈ blocks, p.2.plain = true) : (Func.ofBlocks name entry blocks).Source := by
  refine ⟨⟨fun u => ⟨fun hu hnone => ?_, fun hu => ?_⟩, ?_, fun u v hv => ?_⟩, ?_, fun u hu => ?_,
    fun u b hb i hi => ?_, fun u c succ0 succ1 ht => ?_, rfl⟩
  · obtain ⟨p, hp, rfl⟩ := List.mem_map.mp hu
    have hfind : (blocks.find? fun q => q.1 = p.1) = none := Option.map_eq_none_iff.mp hnone
    exact List.find?_eq_none.mp hfind p hp (decide_eq_true rfl)
  · obtain ⟨b, hb⟩ := Option.ne_none_iff_exists'.mp hu
    obtain ⟨p, hp, rfl, -⟩ := block_ofBlocks hb
    exact List.mem_map.mpr ⟨p, hp, rfl⟩
  · have hlabels : (Func.ofBlocks name entry blocks).labels =
        (blocks.map Prod.fst).map Label.block := (List.map_map ..).symm
    rw [hlabels]
    exact (List.pairwise_map.mpr (hkeys.imp fun hne heq => hne (Label.block.inj heq)))
  · rw [Func.successors] at hv
    split at hv
    · rename_i b hb
      obtain ⟨p, hp, -, rfl⟩ := block_ofBlocks hb
      exact hclosed p hp v hv
    · cases hv
  · obtain ⟨p, hp, rfl⟩ := List.mem_map.mp hentry
    exact List.mem_map.mpr ⟨p, hp, rfl⟩
  · obtain ⟨p, -, rfl⟩ := List.mem_map.mp hu
    exact ⟨p.1, rfl⟩
  · obtain ⟨p, hp, -, rfl⟩ := block_ofBlocks hb
    have hall := (Bool.and_eq_true_iff.mp (hplain p hp)).1
    have hi := List.all_eq_true.mp hall i hi
    cases i with
    | original j => exact ⟨j, rfl⟩
    | storeZero | boundCheck | increment | silentExit => cases hi
  · obtain ⟨b, hb, ht⟩ := Option.map_eq_some_iff.mp ht
    obtain ⟨p, hp, -, rfl⟩ := block_ofBlocks hb
    have hterminator := (Bool.and_eq_true_iff.mp (hplain p hp)).2
    rw [ht] at hterminator
    cases c with
    | original v => exact ⟨v, rfl⟩
    | bound | exitOrBound | stayAndNotBound => cases hterminator

theorem natural_ofBlocks {l : Loop ι} (hentry : entry ∉ l.blocks)
    (henter : ∀ p ∈ blocks, ∀ t ∈ p.2.terminator.targets, l.contains t = true →
      t ≠ .block l.header → p.1 ∈ l.blocks) :
    Natural (Func.ofBlocks name entry blocks) l := by
  refine ⟨fun b hb => Label.block.inj hb ▸ hentry, fun b c _ hc hmem hne => ?_⟩
  rw [Func.successors] at hc
  split at hc
  · rename_i d hd
    obtain ⟨p, hp, hpb, rfl⟩ := block_ofBlocks hd
    rw [Label.block.inj hpb]
    exact henter p hp _ hc (decide_eq_true hmem) fun heq => hne (Label.block.inj heq)
  · cases hc

end OfBlocks

theorem run_single (o : Options) (f : Func ι I V) (header : ι) (blocks : List ι)
    (hwhite : o.whitelist = []) (hblack : o.blacklist = []) :
    run o f [.mk header blocks []] = .ok (f.instrument o (.mk header blocks [])) := by
  have hallowed : allowed o f.name = true := by
    rw [allowed, if_neg (not_not.mpr hwhite), if_neg (not_not.mpr hblack)]
  rw [run, if_neg fun h => h.1 hwhite, if_pos hallowed]
  show Except.ok (limitLoops o [.mk header blocks []] f) = _
  rw [limitLoops]
  show Except.ok (limitLoops o [] _) = _
  rw [limitLoops]

theorem Layout.splitFrame {f₀ f g : Func ι I V} {h : ι} {l : Loop ι} (hlayout : Layout f₀ f)
    (hframe : SplitFrame h (f.addCounter l) g) (hfresh : f.block (.loopBody h) = none) :
    Layout f₀ g := by
  have hpresent : ∀ u, g.block u = none ↔ f.block u = none ∧ u ≠ .loopBody h ∧ u ≠ .kleeExit h :=
    hframe.present
  have hsuccessors : ∀ u, u ≠ .block h → u ≠ .loopBody h → u ≠ .kleeExit h →
    g.successors u = f.successors u := hframe.successors
  have hheader : g.block (.loopBody h) ≠ none := fun hnone => ((hpresent _).mp hnone).2.1 rfl
  refine ⟨hframe.entry.trans hlayout.entry, fun b => ?_, fun b hb => ?_, fun b => ?_⟩
  · by_cases hbh : b = h
    · subst hbh
      have hrear := hlayout.rear b
      rw [rear_of_none hfresh] at hrear
      rw [rear_of_ne_none hheader, ← hrear]
      exact hframe.successors_body
    · rw [← hlayout.rear b]
      by_cases hb : f.block (.loopBody b) = none
      · have hb' : g.block (.loopBody b) = none :=
          (hpresent _).mpr ⟨hb, by simpa using hbh, by simp⟩
        rw [rear_of_none hb, rear_of_none hb']
        exact hsuccessors _ (by simpa using hbh) (by simp) (by simp)
      · have hb' : g.block (.loopBody b) ≠ none := fun hnone => hb ((hpresent _).mp hnone).1
        rw [rear_of_ne_none hb, rear_of_ne_none hb']
        exact hsuccessors _ (by simp) (by simpa using hbh) (by simp)
  · by_cases hbh : b = h
    · subst hbh
      exact hframe.successors_header
    · have hb' : f.block (.loopBody b) ≠ none := fun hnone =>
        hb ((hpresent _).mpr ⟨hnone, by simpa using hbh, by simp⟩)
      rw [hsuccessors _ (by simpa using hbh) (by simp) (by simp), hlayout.split b hb']
  · by_cases hbh : b = h
    · subst hbh
      exact hframe.successors_exit
    · rw [hsuccessors _ (by simp) (by simp) (by simpa using hbh), hlayout.exit]

theorem Func.WellFormed.splitFrame {f g : Func ι I V} {h : ι} {l : Loop ι} (hwf : f.WellFormed)
    (hframe : SplitFrame h (f.addCounter l) g) (hbody : f.block (.loopBody h) = none)
    (hexit : f.block (.kleeExit h) = none) : g.WellFormed := by
  have hlabels : g.labels = f.labels ++ [.loopBody h, .kleeExit h] := hframe.labels
  have hpresent : ∀ u, g.block u = none ↔ f.block u = none ∧ u ≠ .loopBody h ∧ u ≠ .kleeExit h :=
    hframe.present
  refine ⟨fun u => ?_, ?_, fun u v hv => ?_⟩
  · rw [hlabels, List.mem_append, hwf.domain, ne_eq (g.block u), hpresent]
    simp only [List.mem_cons, List.not_mem_nil, or_false]
    tauto
  · rw [hlabels]
    refine List.nodup_append.mpr ⟨hwf.nodup, by simp, fun u hu v hv huv => ?_⟩
    subst huv
    simp only [List.mem_cons, List.not_mem_nil, or_false] at hv
    rcases hv with rfl | rfl
    · exact (hwf.domain _).mp hu hbody
    · exact (hwf.domain _).mp hu hexit
  · rw [hlabels]
    by_cases h₁ : u = .block h
    · rw [h₁, hframe.successors_header] at hv
      refine List.mem_append_right _ ?_
      simp only [List.mem_cons, List.not_mem_nil, or_false] at hv ⊢
      exact hv.symm
    · by_cases h₂ : u = .loopBody h
      · rw [h₂, hframe.successors_body] at hv
        exact List.mem_append_left _ (hwf.closed (.block h) v hv)
      · by_cases h₃ : u = .kleeExit h
        · rw [h₃, hframe.successors_exit] at hv
          cases hv
        · rw [hframe.successors u h₁ h₂ h₃] at hv
          exact List.mem_append_left _ (hwf.closed u v hv)

/-! ### The source instructions -/

/-- Where the instructions of the source are. -/
structure Code (f₀ f : Func ι I V) : Prop where
  rear : ∀ b, f.select Inst.isOriginal (f.rear b) = f₀.select Inst.isOriginal (.block b)
  front : ∀ b, f.block (.loopBody b) ≠ none → f.select Inst.isOriginal (.block b) = []

theorem inserted_original (f : Func ι I V) (o : Options) (l : Loop ι) (p v : Label ι) :
    (f.inserted o l p v).filter Inst.isOriginal = [] :=
  inserted_filter (fun _ _ => ⟨rfl, rfl, rfl⟩) f o l p v

theorem Code.widened {f₀ f g : Func ι I V} {o : Options} {l : Loop ι} {p : Label ι}
    {exitFirst : Bool} (h : Code f₀ f) (hl : Widened o f l p exitFirst g) : Code f₀ g := by
  have hpresent : ∀ u, g.block u = none ↔ f.block u = none := hl.frame.present
  have hsame : ∀ u, g.select Inst.isOriginal u = f.select Inst.isOriginal u := by
    intro u
    rw [hl.select, inserted_original, List.append_nil]
  refine ⟨fun b => ?_, fun b hb => ?_⟩
  · rw [hsame, ← h.rear, Func.rear, Func.rear]
    by_cases hb : f.block (.loopBody b) = none
    · rw [hb, (hpresent _).mpr hb]
    · obtain ⟨c, hc⟩ := Option.ne_none_iff_exists'.mp hb
      obtain ⟨d, hd⟩ := Option.ne_none_iff_exists'.mp fun hnone => hb ((hpresent _).mp hnone)
      rw [hc, hd]
  · rw [hsame]
    exact h.front b fun hnone => hb ((hpresent _).mpr hnone)

theorem Code.split {f₀ f g : Func ι I V} {o : Options} {l : Loop ι} {p : Label ι}
    (h : Code f₀ f) (hbody : f.block (.loopBody l.header) = none) (hl : Split o f l p g) :
    Code f₀ g := by
  have hpresent : ∀ u, g.block u = none ↔ f.block u = none ∧ u ≠ .loopBody l.header ∧
    u ≠ .kleeExit l.header := hl.frame.present
  have hsplit : g.block (.loopBody l.header) ≠ none := fun hnone => ((hpresent _).mp hnone).2.1 rfl
  have hsame : ∀ u, u ≠ .block l.header → u ≠ .loopBody l.header → u ≠ .kleeExit l.header →
      g.select Inst.isOriginal u = f.select Inst.isOriginal u := by
    intro u h₁ h₂ h₃
    rw [hl.select _ u h₁ h₂ h₃, inserted_original, List.append_nil]
  refine ⟨fun b => ?_, fun b hb => ?_⟩
  · rw [← h.rear]
    by_cases hbh : b = l.header
    · rw [hbh, rear_of_none hbody, rear_of_ne_none hsplit]
      exact hl.select_body _
    · by_cases hb : f.block (.loopBody b) = none
      · have hb' : g.block (.loopBody b) = none :=
          (hpresent _).mpr ⟨hb, by simpa using hbh, by simp⟩
        rw [rear_of_none hb, rear_of_none hb']
        exact hsame _ (by simpa using hbh) (by simp) (by simp)
      · have hb' : g.block (.loopBody b) ≠ none := fun hnone => hb ((hpresent _).mp hnone).1
        rw [rear_of_ne_none hb, rear_of_ne_none hb']
        exact hsame _ (by simp) (by simpa using hbh) (by simp)
  · by_cases hbh : b = l.header
    · rw [hbh, hl.select_header, inserted_original]
    · have hb' : f.block (.loopBody b) ≠ none := fun hnone =>
        hb ((hpresent _).mpr ⟨hnone, by simpa using hbh, by simp⟩)
      rw [hsame _ (by simpa using hbh) (by simp) (by simp)]
      exact h.front b hb'

/-! ### The code of one counter -/

/-- How the header leaves the loop when the bound is reached. -/
inductive Guard (o : Options) (f₀ f : Func ι I V) (l : Loop ι) (k : Nat) : Prop
  | silent (hmode : o.breakMode = true → f₀.exitSuccessor l = none)
      (hbody : f.block (.loopBody l.header) ≠ none)
      (hterminator : f.terminator (.block l.header) =
        some (.condBr (.bound k) (.kleeExit l.header) (.loopBody l.header)))
  | widened (exitFirst : Bool) (c : Cond V) (succ0 succ1 : Label ι) (hmode : o.breakMode = true)
      (hexit : f₀.exitSuccessor l = some exitFirst) (hbody : f.block (.loopBody l.header) = none)
      (hsource : f₀.terminator (.block l.header) = some (.condBr c succ0 succ1))
      (hterminator : f.terminator (.block l.header) = some (widened exitFirst k succ0 succ1 c))
      (hleaves : l.region (if exitFirst then succ0 else succ1) = false)

structure Counted (o : Options) (f₀ f : Func ι I V) (l : Loop ι) (k : Nat) (p : Label ι) :
    Prop where
  outside : l.region p = false
  successors : f.successors p = [.block l.header]
  entering : ∀ u, .block l.header ∈ f.successors u → l.region u = true ∨ u = p
  reset : f.onCounter k p = [.storeZero k]
  check : f.onCounter k (.block l.header) = .boundCheck k o.maxIterations ::
    List.replicate ((f₀.successors (.block l.header)).count (.block l.header)) (.increment k)
  body : f.onCounter k (.loopBody l.header) = []
  increments : ∀ u, l.region u = true → u ≠ .block l.header → u ≠ .loopBody l.header →
    f.onCounter k u = List.replicate ((f.successors u).count (.block l.header)) (.increment k)
  quiet : ∀ u, l.region u = false → u ≠ p → f.onCounter k u = []
  guard : Guard o f₀ f l k

/-- What is inserted for a loop is on its own counter. -/
theorem inserted_touches (f : Func ι I V) (o : Options) (l : Loop ι) (p v : Label ι) :
    (f.inserted o l p v).filter (Inst.touches f.counters.length) = f.inserted o l p v := by
  rw [List.filter_eq_self]
  intro i hi
  rcases mem_inserted hi with rfl | rfl | rfl
  · exact decide_eq_true rfl
  · exact decide_eq_true rfl
  · exact decide_eq_true rfl

theorem inserted_other {f : Func ι I V} {k : Nat} (hk : k ≠ f.counters.length) (o : Options)
    (l : Loop ι) (p v : Label ι) : (f.inserted o l p v).filter (Inst.touches k) = [] := by
  rw [← inserted_touches, List.filter_filter, List.filter_eq_nil_iff]
  intro i _
  cases i with
  | original => simp [Inst.touches]
  | silentExit => simp [Inst.touches]
  | storeZero | boundCheck | increment =>
    simp only [Inst.touches, Bool.and_eq_true, decide_eq_true_eq]
    omega

theorem exitSuccessor_congr {f g : Func ι I V} {l : Loop ι}
    (h : f.terminator (.block l.header) = g.terminator (.block l.header)) :
    f.exitSuccessor l = g.exitSuccessor l := by
  rw [Func.terminator, Func.terminator] at h
  rw [Func.exitSuccessor, Func.exitSuccessor]
  cases hf : f.block (.block l.header) with
  | none =>
    rw [hf] at h
    rw [Option.map_eq_none_iff.mp h.symm]
  | some b =>
    rw [hf] at h
    obtain ⟨c, hc, ht⟩ := Option.map_eq_some_iff.mp h.symm
    obtain ⟨phis, insts, t⟩ := b
    obtain ⟨phis', insts', t'⟩ := c
    obtain rfl : t' = t := ht
    rw [hc]
    cases t' <;> rfl

/-! ### Other loops -/

section Other

variable {o : Options} {f₀ f g : Func ι I V} {l m : Loop ι} {k : Nat} {p q : Label ι}

/-- Another loop is left by a wider branch. -/
theorem Counted.widened {exitFirst : Bool} (h : Counted o f₀ f l k p)
    (hk : k < f.counters.length) (hne : l.header ≠ m.header)
    (hm : Widened o f m q exitFirst g) : Counted o f₀ g l k p := by
  have hsuccessors : ∀ u, g.successors u = f.successors u := hm.frame.successors
  have hpresent : ∀ u, g.block u = none ↔ f.block u = none := hm.frame.present
  have hcounter : ∀ u, g.onCounter k u = f.onCounter k u := by
    intro u
    rw [Func.onCounter, hm.select, inserted_other (Nat.ne_of_lt hk), List.append_nil]
    rfl
  have hterminator : g.terminator (.block l.header) = f.terminator (.block l.header) :=
    hm.frame.terminator _ (by simpa using hne)
  refine ⟨h.outside, (hsuccessors p).trans h.successors, fun u hu => ?_,
    (hcounter p).trans h.reset, (hcounter _).trans h.check, (hcounter _).trans h.body,
    fun u h₁ h₂ h₃ => ?_, fun u h₁ h₂ => (hcounter u).trans (h.quiet u h₁ h₂), ?_⟩
  · exact h.entering u (hsuccessors u ▸ hu)
  · rw [hcounter, hsuccessors]
    exact h.increments u h₁ h₂ h₃
  · cases h.guard with
    | silent hmode hbody hbranch =>
      exact .silent hmode (fun hnone => hbody ((hpresent _).mp hnone))
        (hterminator.trans hbranch)
    | widened e c succ0 succ1 hmode hexit hbody hsource hbranch hleaves =>
      exact .widened e c succ0 succ1 hmode hexit ((hpresent _).mpr hbody) hsource
        (hterminator.trans hbranch) hleaves

/-- Another header is split: what was in front of its terminator goes with it. -/
theorem Counted.split (h : Counted o f₀ f l k p) (hk : k < f.counters.length)
    (hne : l.header ≠ m.header) (hbody : f.block (.loopBody m.header) = none)
    (hexit : f.block (.kleeExit m.header) = none) (hm : Split o f m q g) :
    Counted o f₀ g l k (if p = .block m.header then .loopBody m.header else p) := by
  have hsuccessors : ∀ u, u ≠ .block m.header → u ≠ .loopBody m.header →
    u ≠ .kleeExit m.header → g.successors u = f.successors u := hm.frame.successors
  have hmoved : g.successors (.loopBody m.header) = f.successors (.block m.header) :=
    hm.frame.successors_body
  have hpresent : ∀ u, g.block u = none ↔ f.block u = none ∧ u ≠ .loopBody m.header ∧
    u ≠ .kleeExit m.header := hm.frame.present
  have hcounter : ∀ u, u ≠ .block m.header → u ≠ .loopBody m.header →
      u ≠ .kleeExit m.header → g.onCounter k u = f.onCounter k u := by
    intro u h₁ h₂ h₃
    rw [Func.onCounter, hm.select _ u h₁ h₂ h₃, inserted_other (Nat.ne_of_lt hk),
      List.append_nil]
    rfl
  have hcounter_header : g.onCounter k (.block m.header) = [] := by
    rw [Func.onCounter, hm.select_header, inserted_other (Nat.ne_of_lt hk)]
  have hcounter_body : g.onCounter k (.loopBody m.header) = f.onCounter k (.block m.header) :=
    hm.select_body _
  have hcounter_exit : g.onCounter k (.kleeExit m.header) = [] := hm.select_exit _
  have hheader : Label.block l.header ≠ .block m.header := by simpa using hne
  -- the preheader was a block already
  have hp : f.block p ≠ none := block_ne_none_of_successor (h.successors ▸ List.mem_singleton_self _)
  have hp₁ : p ≠ .loopBody m.header := fun hpm => hp (hpm ▸ hbody)
  have hp₂ : p ≠ .kleeExit m.header := fun hpm => hp (hpm ▸ hexit)
  have hterminator : g.terminator (.block l.header) = f.terminator (.block l.header) :=
    hm.frame.terminator _ hheader (by simp) (by simp)
  have hregion : l.region (.loopBody m.header) = l.region (.block m.header) := rfl
  have hbody' : g.block (.loopBody l.header) = none ↔ f.block (.loopBody l.header) = none := by
    rw [hpresent]
    exact and_iff_left ⟨by simpa using hne, by simp⟩
  refine ⟨?_, ?_, fun u hu => ?_, ?_, ?_, ?_, fun u h₁ h₂ h₃ => ?_, fun u h₁ h₂ => ?_, ?_⟩
  · split
    · rename_i hpm
      rw [hregion, ← hpm]
      exact h.outside
    · exact h.outside
  · split
    · rename_i hpm
      rw [hmoved, ← hpm]
      exact h.successors
    · rename_i hpm
      rw [hsuccessors p hpm hp₁ hp₂]
      exact h.successors
  · by_cases h₁ : u = .block m.header
    · rw [h₁, hm.frame.successors_header] at hu
      simp at hu
    · by_cases h₂ : u = .loopBody m.header
      · rw [h₂, hmoved] at hu
        rw [h₂, hregion]
        exact (h.entering _ hu).imp_right fun hpm => (if_pos hpm.symm).symm
      · by_cases h₃ : u = .kleeExit m.header
        · rw [h₃, hm.frame.successors_exit] at hu
          cases hu
        · rw [hsuccessors u h₁ h₂ h₃] at hu
          refine (h.entering u hu).imp_right fun hup => ?_
          rw [if_neg (hup ▸ h₁)]
          exact hup
  · split
    · rename_i hpm
      rw [hcounter_body, ← hpm]
      exact h.reset
    · rename_i hpm
      exact (hcounter p hpm hp₁ hp₂).trans h.reset
  · exact (hcounter _ hheader (by simp) (by simp)).trans h.check
  · exact (hcounter _ (by simp) (by simpa using hne) (by simp)).trans h.body
  · by_cases hu : u = .block m.header
    · rw [hu, hcounter_header, hm.frame.successors_header]
      rfl
    · by_cases hu' : u = .loopBody m.header
      · rw [hu', hregion] at h₁
        rw [hu', hcounter_body, hmoved]
        exact h.increments _ h₁ (Ne.symm hheader) (by simp)
      · have hu'' : u ≠ .kleeExit m.header := by
          rintro rfl
          cases h₁
        rw [hcounter u hu hu' hu'', hsuccessors u hu hu' hu'']
        exact h.increments u h₁ h₂ h₃
  · by_cases hu : u = .block m.header
    · rw [hu]
      exact hcounter_header
    · by_cases hu' : u = .loopBody m.header
      · rw [hu', hregion] at h₁
        rw [hu', hcounter_body]
        refine h.quiet _ h₁ fun hpm => h₂ ?_
        rw [if_pos hpm.symm]
        exact hu'
      · by_cases hu'' : u = .kleeExit m.header
        · rw [hu'']
          exact hcounter_exit
        · rw [hcounter u hu hu' hu'']
          refine h.quiet u h₁ fun hup => h₂ ?_
          rw [if_neg (hup ▸ hu)]
          exact hup
  · cases h.guard with
    | silent hmode hsplit hbranch =>
      exact .silent hmode (fun hnone => hsplit (hbody'.mp hnone)) (hterminator.trans hbranch)
    | widened e c succ0 succ1 hmode hleave hsplit hsource hbranch hleaves =>
      exact .widened e c succ0 succ1 hmode hleave (hbody'.mpr hsplit) hsource
        (hterminator.trans hbranch) hleaves

end Other

/-! ### The loop itself -/

section New

variable {o : Options} {f₀ f g : Func ι I V} {l : Loop ι} {p : Label ι}

/-- What the pass finds around a loop. -/
structure Found (f : Func ι I V) (l : Loop ι) (p : Label ι) : Prop where
  outside : l.region p = false
  successors : f.successors p = [.block l.header]
  entering : ∀ u, .block l.header ∈ f.successors u → l.region u = true ∨ u = p
  latches : ∀ u, l.region u = true →
    (f.getLoopLatches l).count u = (f.successors u).count (.block l.header)
  outer : ∀ u, l.region u = false → (f.getLoopLatches l).count u = 0

theorem found (hwf : f.WellFormed) (hfresh : ∀ b ∈ l.blocks, f.block (.loopBody b) = none)
    (hp : f.getLoopPreheader l = some p) : Found f l p := by
  obtain ⟨hcontains, hsuccessors, honly⟩ := getLoopPreheader_eq_some hwf hp
  -- as long as no block of the loop is split, the loop is what it was in `LoopInfo`
  have hsame : ∀ u, f.block u ≠ none → l.region u = l.contains u := by
    intro u hu
    cases u with
    | block b => rfl
    | kleeExit b => rfl
    | loopBody b => exact decide_eq_false fun hb => hu (hfresh b hb)
  have hpresent : ∀ {u}, Label.block l.header ∈ f.successors u → f.block u ≠ none :=
    block_ne_none_of_successor
  have hedge : Label.block l.header ∈ f.successors p :=
    hsuccessors ▸ List.mem_singleton_self _
  refine ⟨(hsame p (hpresent hedge)).trans hcontains, hsuccessors, fun u hu => ?_, fun u hu => ?_,
    fun u hu => ?_⟩
  · cases hcase : l.contains u with
    | true => exact .inl ((hsame u (hpresent hu)).trans hcase)
    | false => exact .inr (honly u hu hcase)
  · rw [count_getLoopLatches hwf]
    by_cases hpresent' : f.block u = none
    · rw [Func.successors, hpresent']
      exact ite_self _
    · rw [if_pos ((hsame u hpresent').symm.trans hu)]
  · rw [count_getLoopLatches hwf]
    refine if_neg fun hcontains' => ?_
    cases u with
    | block b => exact Bool.false_ne_true (hu.symm.trans hcontains')
    | kleeExit b => cases hcontains'
    | loopBody b => cases hcontains'

theorem region_header (hmem : l.header ∈ l.blocks) : l.region (.block l.header) = true :=
  decide_eq_true hmem

theorem region_loopBody (hmem : l.header ∈ l.blocks) : l.region (.loopBody l.header) = true :=
  decide_eq_true hmem

/-- The exit is not in the loop. -/
theorem exitSuccessor_leaves {exitFirst : Bool} {c : Cond V} {succ0 succ1 : Label ι}
    (h : f.exitSuccessor l = some exitFirst)
    (ht : f.terminator (.block l.header) = some (.condBr c succ0 succ1)) :
    l.contains (if exitFirst then succ0 else succ1) = false := by
  obtain ⟨b, c', succ0', succ1', hb, hbranch, hdiff, hfirst⟩ := exitSuccessor_eq_some h
  rw [Func.terminator, hb, Option.map_some, hbranch, Option.some.injEq,
    Terminator.condBr.injEq] at ht
  obtain ⟨-, rfl, rfl⟩ := ht
  rw [hfirst]
  cases h₀ : l.contains succ0' with
  | false => exact h₀
  | true =>
    rw [h₀] at hdiff
    exact Bool.eq_false_iff.mpr fun h₁ => hdiff h₁.symm

theorem inserted_preheader (h : Found f l p) (hne : p ≠ .block l.header) :
    f.inserted o l p p = [.storeZero f.counters.length] := by
  rw [Func.inserted, if_pos rfl, if_neg hne, h.outer p h.outside]
  rfl

theorem inserted_header (h : Found f l p) (hne : p ≠ .block l.header)
    (hmem : l.header ∈ l.blocks) : f.inserted o l p (.block l.header) =
      .boundCheck f.counters.length o.maxIterations ::
        List.replicate ((f.successors (.block l.header)).count (.block l.header))
          (.increment f.counters.length) := by
  rw [Func.inserted, if_neg (Ne.symm hne), if_pos rfl, h.latches _ (region_header hmem)]
  rfl

theorem inserted_region {u : Label ι} (h : Found f l p) (hu : l.region u = true)
    (hne : u ≠ .block l.header) : f.inserted o l p u =
      List.replicate ((f.successors u).count (.block l.header))
        (.increment f.counters.length) := by
  have hup : u ≠ p := by
    rintro rfl
    exact Bool.false_ne_true (h.outside.symm.trans hu)
  rw [Func.inserted, if_neg hup, if_neg hne, h.latches u hu]
  rfl

theorem inserted_outside {u : Label ι} (h : Found f l p) (hu : l.region u = false)
    (hup : u ≠ p) (hmem : l.header ∈ l.blocks) : f.inserted o l p u = [] := by
  have hne : u ≠ .block l.header := by
    rintro rfl
    exact Bool.false_ne_true (hu.symm.trans (region_header hmem))
  rw [Func.inserted, if_neg hup, if_neg hne, h.outer u hu]
  rfl

variable (hwf : f.WellFormed) (hlayout : Layout f₀ f)
  (hfresh : ∀ b ∈ l.blocks, f.block (.loopBody b) = none) (hmem : l.header ∈ l.blocks)
  (hquiet : ∀ u, f.onCounter f.counters.length u = [])
  (hpending : f.terminator (.block l.header) = f₀.terminator (.block l.header))
  (hp : f.getLoopPreheader l = some p)
include hwf hlayout hfresh hmem hquiet hpending hp

theorem counted_split (h : Split o f l p g) : Counted o f₀ g l f.counters.length p := by
  have hfound := found hwf hfresh hp
  -- the preheader is none of the three blocks that the split writes
  have hne : p ≠ .block l.header := by
    rintro rfl
    exact Bool.false_ne_true (hfound.outside.symm.trans (region_header hmem))
  have hnone : f.block (.loopBody l.header) = none := hfresh _ hmem
  have hp₁ : p ≠ .loopBody l.header := by
    rintro rfl
    exact Bool.false_ne_true (hfound.outside.symm.trans (region_loopBody hmem))
  have hp₂ : p ≠ .kleeExit l.header := by
    rintro rfl
    have := hlayout.exit l.header
    rw [hfound.successors] at this
    cases this
  have hsuccessors : ∀ u, u ≠ .block l.header → u ≠ .loopBody l.header →
    u ≠ .kleeExit l.header → g.successors u = f.successors u := h.frame.successors
  have hheader : f.successors (.block l.header) = f₀.successors (.block l.header) := by
    rw [← hlayout.rear, rear_of_none hnone]
  -- everywhere else the counter is touched by the inserted instructions alone
  have hcounter : ∀ u, u ≠ .block l.header → u ≠ .loopBody l.header → u ≠ .kleeExit l.header →
      g.onCounter f.counters.length u = f.inserted o l p u := by
    intro u h₁ h₂ h₃
    rw [Func.onCounter, h.select _ u h₁ h₂ h₃, inserted_touches]
    exact (congrArg (· ++ _) (hquiet u)).trans (List.nil_append _)
  have hcounter_header : g.onCounter f.counters.length (.block l.header) =
      f.inserted o l p (.block l.header) := by
    rw [Func.onCounter, h.select_header, inserted_touches]
  refine ⟨hfound.outside, (hsuccessors p hne hp₁ hp₂).trans hfound.successors, fun u hu => ?_,
    (hcounter p hne hp₁ hp₂).trans (inserted_preheader hfound hne), ?_,
    (h.select_body _).trans (hquiet _), fun u h₁ h₂ h₃ => ?_, fun u h₁ h₂ => ?_, ?_⟩
  · by_cases h₁ : u = .block l.header
    · exact .inl (h₁ ▸ region_header hmem)
    · by_cases h₂ : u = .loopBody l.header
      · exact .inl (h₂ ▸ region_loopBody hmem)
      · by_cases h₃ : u = .kleeExit l.header
        · rw [h₃, h.frame.successors_exit] at hu
          cases hu
        · exact hfound.entering u (hsuccessors u h₁ h₂ h₃ ▸ hu)
  · rw [hcounter_header, inserted_header hfound hne hmem, hheader]
  · have h₄ : u ≠ .kleeExit l.header := by
      rintro rfl
      cases h₁
    rw [hcounter u h₂ h₃ h₄, inserted_region hfound h₁ h₂, hsuccessors u h₂ h₃ h₄]
  · have h₃ : u ≠ .block l.header := by
      rintro rfl
      exact Bool.false_ne_true (h₁.symm.trans (region_header hmem))
    have h₄ : u ≠ .loopBody l.header := by
      rintro rfl
      exact Bool.false_ne_true (h₁.symm.trans (region_loopBody hmem))
    by_cases h₅ : u = .kleeExit l.header
    · rw [h₅]
      exact h.select_exit _
    · exact (hcounter u h₃ h₄ h₅).trans (inserted_outside hfound h₁ h₂ hmem)
  · refine .silent (fun hbreak => ?_) (fun hgone => ((h.frame.present _).mp hgone).2.1 rfl)
      h.terminator_header
    rw [← exitSuccessor_congr hpending]
    exact h.silent hbreak

variable (hsource : f₀.Source)
include hsource

theorem counted_widened {exitFirst : Bool} (h : Widened o f l p exitFirst g) :
    Counted o f₀ g l f.counters.length p := by
  have hfound := found hwf hfresh hp
  have hne : p ≠ .block l.header := by
    rintro rfl
    exact Bool.false_ne_true (hfound.outside.symm.trans (region_header hmem))
  have hsuccessors : ∀ u, g.successors u = f.successors u := h.frame.successors
  have hheader : f.successors (.block l.header) = f₀.successors (.block l.header) := by
    rw [← hlayout.rear, rear_of_none (hfresh _ hmem)]
  have hcounter : ∀ u, g.onCounter f.counters.length u = f.inserted o l p u := by
    intro u
    rw [Func.onCounter, h.select, inserted_touches]
    exact (congrArg (· ++ _) (hquiet u)).trans (List.nil_append _)
  have hnone : f.block (.loopBody l.header) = none := hfresh _ hmem
  refine ⟨hfound.outside, (hsuccessors p).trans hfound.successors,
    fun u hu => hfound.entering u (hsuccessors u ▸ hu),
    (hcounter p).trans (inserted_preheader hfound hne), ?_, ?_, fun u h₁ h₂ _ => ?_,
    fun u h₁ h₂ => (hcounter u).trans (inserted_outside hfound h₁ h₂ hmem), ?_⟩
  · rw [hcounter, inserted_header hfound hne hmem, hheader]
  · rw [hcounter, inserted_region hfound (region_loopBody hmem) (by simp), Func.successors, hnone]
    rfl
  · rw [hcounter, inserted_region hfound h₁ h₂, hsuccessors]
  · obtain ⟨c, succ0, succ1, hbefore, hbranch⟩ := h.terminator
    have hexit := h.exit
    rw [exitSuccessor_congr hpending] at hexit
    have hbefore₀ := hpending.symm.trans hbefore
    refine .widened exitFirst c succ0 succ1 h.breakMode hexit ((h.frame.present _).mpr hnone)
      hbefore₀ hbranch ?_
    -- an edge of the source leads to a block that `LoopInfo` knows
    obtain ⟨b, hb⟩ : ∃ b, (if exitFirst then succ0 else succ1) = .block b := by
      refine hsource.plain _ (hsource.wf.closed (.block l.header) _ ?_)
      rw [successors_eq, hbefore₀]
      show (if exitFirst then succ0 else succ1) ∈ [succ0, succ1]
      split <;> simp
    have hleaves := exitSuccessor_leaves hexit hbefore₀
    rw [hb] at hleaves ⊢
    exact hleaves

end New

/-! ### The whole pass -/

/-- Some loops are rewritten and the others are as they were. -/
structure Stage (o : Options) (f₀ : Func ι I V) (all rest : List (Loop ι)) (f : Func ι I V) :
    Prop where
  wf : f.WellFormed
  layout : Layout f₀ f
  code : Code f₀ f
  subset : rest ⊆ all
  fresh : ∀ m ∈ rest, ∀ b ∈ m.blocks,
    f.block (.loopBody b) = none ∧ f.block (.kleeExit b) = none
  pending : ∀ m ∈ rest, f.terminator (.block m.header) = f₀.terminator (.block m.header)
  quiet : ∀ k, f.counters.length ≤ k → ∀ u, f.onCounter k u = []
  counted : ∀ k l, f.counters[k]? = some l →
    l ∈ all ∧ (∀ m ∈ rest, l.header ∉ m.blocks) ∧ ∃ p, Counted o f₀ f l k p

theorem Stage.start {o : Options} {f : Func ι I V} (h : f.Source) (all : List (Loop ι)) :
    Stage o f all all f := by
  have hnew : ∀ u, (∀ b, u ≠ .block b) → f.block u = none := by
    intro u hu
    by_contra hne
    obtain ⟨b, hb⟩ := h.plain u ((h.wf.domain u).mpr hne)
    exact hu b hb
  have hbody : ∀ b, f.block (.loopBody b) = none := fun b => hnew _ (by simp)
  have hcode : Code f f :=
    ⟨fun b => by rw [rear_of_none (hbody b)], fun b hb => absurd (hbody b) hb⟩
  refine ⟨h.wf, .refl h, hcode, fun _ => id, fun m _ b _ => ⟨hnew _ (by simp), hnew _ (by simp)⟩,
    fun _ _ => rfl, fun k _ u => ?_, fun k l hk => ?_⟩
  · rw [Func.onCounter, Func.select]
    cases hb : f.block u with
    | none => rfl
    | some b =>
      refine List.filter_eq_nil_iff.mpr fun i hi => ?_
      obtain ⟨j, rfl⟩ := h.original u b hb i hi
      exact Bool.false_ne_true
  · rw [h.counters] at hk
    cases hk

/-- A loop that is left alone. -/
theorem Stage.skip {o : Options} {f₀ f : Func ι I V} {all rest : List (Loop ι)} {l : Loop ι}
    (h : Stage o f₀ all (l :: rest) f) : Stage o f₀ all rest f where
  wf := h.wf
  layout := h.layout
  code := h.code
  subset _ hm := h.subset (List.mem_cons_of_mem l hm)
  fresh m hm := h.fresh m (List.mem_cons_of_mem l hm)
  pending m hm := h.pending m (List.mem_cons_of_mem l hm)
  quiet := h.quiet
  counted k m hk := by
    obtain ⟨hall, hrest, hcounted⟩ := h.counted k m hk
    exact ⟨hall, fun n hn => hrest n (List.mem_cons_of_mem l hn), hcounted⟩

section Step

variable {o : Options} {f₀ f g : Func ι I V} {all rest : List (Loop ι)} {l : Loop ι} {p : Label ι}
  (hsource : f₀.Source) (h : Stage o f₀ all (l :: rest) f) (hmem : l.header ∈ l.blocks)
  (hlater : ∀ m ∈ rest, m.header ∈ m.blocks ∧ l.header ∉ m.blocks)
  (hp : f.getLoopPreheader l = some p)
include hsource h hmem hlater hp

theorem Stage.widened {exitFirst : Bool} (hl : Widened o f l p exitFirst g) :
    Stage o f₀ all rest g := by
  have hfresh : ∀ b ∈ l.blocks, f.block (.loopBody b) = none := fun b hb =>
    (h.fresh l List.mem_cons_self b hb).1
  have hcounters : g.counters = f.counters ++ [l] := hl.frame.counters
  refine ⟨h.wf.frame hl.frame, h.layout.frame hl.frame, h.code.widened hl, h.skip.subset,
    fun m hm b hb => ?_, fun m hm => ?_, fun k hk u => ?_, fun k m hk => ?_⟩
  · obtain ⟨hbody, hexit⟩ := h.skip.fresh m hm b hb
    exact ⟨(hl.frame.present _).mpr hbody, (hl.frame.present _).mpr hexit⟩
  · have hne : m.header ≠ l.header := fun heq => (hlater m hm).2 (heq ▸ (hlater m hm).1)
    exact (hl.frame.terminator _ (by simpa using hne)).trans (h.skip.pending m hm)
  · rw [hcounters, List.length_append, List.length_singleton] at hk
    rw [Func.onCounter, hl.select, inserted_other (by omega)]
    exact (List.append_nil _).trans (h.quiet k (by omega) u)
  · rcases getElem?_counters hcounters hk with ⟨hlt, hm⟩ | ⟨rfl, rfl⟩
    · obtain ⟨hall, hrest, q, hq⟩ := h.counted k m hm
      have hne : m.header ≠ l.header := fun heq => hrest l List.mem_cons_self (heq ▸ hmem)
      exact ⟨hall, fun n hn => hrest n (List.mem_cons_of_mem l hn), q, hq.widened hlt hne hl⟩
    · refine ⟨h.subset List.mem_cons_self, fun n hn => (hlater n hn).2, p, ?_⟩
      exact counted_widened h.wf h.layout hfresh hmem (h.quiet _ (Nat.le_refl _))
        (h.pending _ List.mem_cons_self) hp hsource hl

omit hsource in
theorem Stage.split (hl : Split o f l p g) : Stage o f₀ all rest g := by
  have hfresh : ∀ b ∈ l.blocks, f.block (.loopBody b) = none := fun b hb =>
    (h.fresh l List.mem_cons_self b hb).1
  have hbody := (h.fresh l List.mem_cons_self _ hmem).1
  have hexit := (h.fresh l List.mem_cons_self _ hmem).2
  have hcounters : g.counters = f.counters ++ [l] := hl.frame.counters
  have hpresent : ∀ u, g.block u = none ↔ f.block u = none ∧ u ≠ .loopBody l.header ∧
    u ≠ .kleeExit l.header := hl.frame.present
  refine ⟨h.wf.splitFrame hl.frame hbody hexit, h.layout.splitFrame hl.frame hbody,
    h.code.split hbody hl, h.skip.subset, fun m hm b hb => ?_, fun m hm => ?_, fun k hk u => ?_,
    fun k m hk => ?_⟩
  · obtain ⟨hbody', hexit'⟩ := h.skip.fresh m hm b hb
    have hne : b ≠ l.header := fun heq => (hlater m hm).2 (heq ▸ hb)
    exact ⟨(hpresent _).mpr ⟨hbody', by simpa using hne, by simp⟩,
      (hpresent _).mpr ⟨hexit', by simp, by simpa using hne⟩⟩
  · have hne : m.header ≠ l.header := fun heq => (hlater m hm).2 (heq ▸ (hlater m hm).1)
    exact (hl.frame.terminator _ (by simpa using hne) (by simp) (by simp)).trans
      (h.skip.pending m hm)
  · rw [hcounters, List.length_append, List.length_singleton] at hk
    -- an older counter: the split inserts for the new one alone
    have hother : k ≠ f.counters.length := by omega
    have hquiet : ∀ v, f.onCounter k v = [] := h.quiet k (by omega)
    by_cases h₁ : u = .block l.header
    · rw [h₁, Func.onCounter, hl.select_header, inserted_other hother]
    · by_cases h₂ : u = .loopBody l.header
      · rw [h₂]
        exact (hl.select_body _).trans (hquiet _)
      · by_cases h₃ : u = .kleeExit l.header
        · rw [h₃]
          exact hl.select_exit _
        · rw [Func.onCounter, hl.select _ u h₁ h₂ h₃, inserted_other hother]
          exact (List.append_nil _).trans (hquiet u)
  · -- each counter is an older one, still counted as before, or the new one
    rcases getElem?_counters hcounters hk with ⟨hlt, hm⟩ | ⟨rfl, rfl⟩
    · obtain ⟨hall, hrest, q, hq⟩ := h.counted k m hm
      have hne : m.header ≠ l.header := fun heq => hrest l List.mem_cons_self (heq ▸ hmem)
      exact ⟨hall, fun n hn => hrest n (List.mem_cons_of_mem l hn), _,
        hq.split hlt hne hbody hexit hl⟩
    · refine ⟨h.subset List.mem_cons_self, fun n hn => (hlater n hn).2, p, ?_⟩
      exact counted_split h.wf h.layout hfresh hmem (h.quiet _ (Nat.le_refl _))
        (h.pending _ List.mem_cons_self) hp hl

end Step

/-- What one step of the worklist preserves holds at its end. -/
theorem Stage.foldl {o : Options} {f₀ : Func ι I V} {all : List (Loop ι)} (hsource : f₀.Source)
    {P : List (Loop ι) → Func ι I V → Prop}
    (hstep : ∀ l rest f, Stage o f₀ all (l :: rest) f → l.header ∈ l.blocks → P (l :: rest) f →
      P rest (f.instrument o l)) :
    ∀ (rest : List (Loop ι)) (f : Func ι I V), Stage o f₀ all rest f → P rest f →
      (∀ m ∈ rest, m.header ∈ m.blocks) → rest.Pairwise (fun l m => l.header ∉ m.blocks) →
      Stage o f₀ all [] (rest.foldl (Func.instrument o) f) ∧
        P [] (rest.foldl (Func.instrument o) f) := by
  intro rest
  induction rest with
  | nil => exact fun f h hP _ _ => ⟨h, hP⟩
  | cons l rest ih =>
    intro f h hP hheaders hpairs
    obtain ⟨hl, hrest⟩ := List.pairwise_cons.mp hpairs
    have hmem := hheaders l List.mem_cons_self
    have hlater : ∀ m ∈ rest, m.header ∈ m.blocks ∧ l.header ∉ m.blocks := fun m hm =>
      ⟨hheaders m (List.mem_cons_of_mem l hm), hl m hm⟩
    refine ih _ ?_ (hstep l rest f h hmem hP) (fun m hm => (hlater m hm).1) hrest
    cases instrument_cases (o := o) h.wf hmem with
    | skipped hsame =>
      rw [hsame]
      exact h.skip
    | widened p exitFirst hp hw => exact h.widened hsource hmem hlater hp hw
    | split p hp hs => exact h.split hmem hlater hp hs

/-- **Every counter of the instrumented function has its code.** -/
theorem run_counted {o : Options} {f₀ f : Func ι I V} {loops : List (Loop ι)}
    (hsource : f₀.Source) (hnest : Nest loops) (hrun : run o f₀ loops = .ok f) :
    Layout f₀ f ∧ Code f₀ f ∧ ∀ k l, f.counters[k]? = some l →
      l ∈ visited loops.reverse ∧ l.header ∈ l.blocks ∧ ∃ p, Counted o f₀ f l k p := by
  rw [run] at hrun
  split at hrun
  · cases hrun
  · split at hrun
    · obtain rfl := Except.ok.inj hrun
      obtain ⟨hstage, -⟩ := Stage.foldl (o := o) hsource (P := fun _ _ => True)
        (fun _ _ _ _ _ _ => trivial) _ f₀ (Stage.start hsource _) trivial
        (fun m hm => (visited_subset hnest.reverse m hm).1) (visited_pairwise hnest.reverse)
      rw [limitLoops_eq]
      refine ⟨hstage.layout, hstage.code, fun k l hk => ?_⟩
      obtain ⟨hall, -, hcounted⟩ := hstage.counted k l hk
      exact ⟨hall, (visited_subset hnest.reverse l hall).1, hcounted⟩
    · obtain rfl := Except.ok.inj hrun
      refine ⟨.refl hsource, (Stage.start (o := o) hsource []).code, fun k l hk => ?_⟩
      rw [hsource.counters] at hk
      cases hk

end KleeDeps.LoopLimiter
