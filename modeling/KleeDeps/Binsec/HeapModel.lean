import KleeDeps.Data.WordMemory

/-!
# The heap that BINSEC gives the analysed program

The replacement bodies of `configs/binsec/binsec_base.cfg` for the allocation and memory
functions, as functions on the memory and `malloc_base`. The width `w` is the `<32>` of the
file, which `_render_binsec_config` replaces by the native word size.

A program run is a list of calls and of its own stores (`Call`). `State` keeps, beside the
heap, the blocks that were returned and those that are still live.

- `layout_run`: blocks lie one behind the other from the first `malloc_base` on;
- `fresh_run`: nothing writes above `malloc_base` (but `__errno_location`);
- `heap_correct_iff`: when the heap is a correct allocator. `realloc` copies nothing, so the
  contents of a block survive only where the memory above `malloc_base` holds them already.
-/

namespace KleeDeps.Binsec

open WordMemory

variable {w : Nat}

/-! ### The replacement bodies -/

/-- The first value of `malloc_base`. -/
def mallocBase₀ (w : Nat) : BitVec w := 0x7f000000

/-- `errno_slot`. -/
def errnoSlot (w : Nat) : BitVec w := 0x7efffff0

/-- What the replacement bodies read and write. -/
structure Heap (w : Nat) where
  memory : Memory w
  mallocBase : BitVec w

/-- `replace <calloc> (nmemb, size)`. -/
def calloc (nmemb size : BitVec w) (heap : Heap w) : BitVec w × Heap w :=
  let total := size * nmemb
  let alloc := heap.mallocBase
  -- calloc initializes the memory with zeros
  let memory := forTo (total - 1) (fun i m => write (heap.mallocBase + i) 0 m) heap.memory
  (alloc, { memory := memory, mallocBase := heap.mallocBase + total })

/-- `replace <malloc> (size)`. -/
def malloc (size : BitVec w) (heap : Heap w) : BitVec w × Heap w :=
  let alloc := heap.mallocBase
  (alloc, { heap with mallocBase := heap.mallocBase + size })

/-- `replace <realloc> (ptr, size)`: the pointer is not looked at. -/
def realloc (_ptr size : BitVec w) (heap : Heap w) : BitVec w × Heap w :=
  let alloc := heap.mallocBase
  (alloc, { heap with mallocBase := heap.mallocBase + size })

/-- `replace <free>`. -/
def free (heap : Heap w) : Heap w := heap

/-- `replace <__errno_location>`: `@[errno_slot, 4] := 0`. -/
def errnoLocation (heap : Heap w) : BitVec w × Heap w :=
  (errnoSlot w, { heap with
    memory := (List.range 4).foldl
      (fun m i => write (errnoSlot w + BitVec.ofNat w i) 0 m) heap.memory })

/-- `replace <memcpy> (dest, src, n)`. -/
def memcpy (dest src n : BitVec w) (heap : Heap w) : BitVec w × Heap w :=
  (dest, { heap with
    memory := forTo (n - 1) (fun i m => write (dest + i) (m (src + i)) m) heap.memory })

/-- `replace <memset> (s, c, n)`, with `c{7..0}` for the low byte. -/
def memset (s c n : BitVec w) (heap : Heap w) : BitVec w × Heap w :=
  (s, { heap with
    memory := forTo (n - 1) (fun i m => write (s + i) (c.setWidth 8) m) heap.memory })

/-- `memcpy` between separate regions copies, and changes nothing else. -/
theorem memcpy_apply {dest src n : BitVec w} (hn : n ≠ 0)
    (hseparate : (⟨src, n.toNat⟩ : Region w).Disjoint ⟨dest, n.toNat⟩) (heap : Heap w)
    (a : BitVec w) :
    (memcpy dest src n heap).2.memory a =
      if (a - dest).toNat < n.toNat then heap.memory (src + (a - dest)) else heap.memory a := by
  apply forTo_write_apply hn dest (fun i m => m (src + i)) heap.memory
  intro i hi m hm
  apply hm
  apply hseparate
  show (src + BitVec.ofNat w i - src).toNat < n.toNat
  rw [toNat_add_sub_self src (lt_trans hi n.isLt)]
  exact hi

/-- `memset` fills, and changes nothing else. -/
theorem memset_apply {s c n : BitVec w} (hn : n ≠ 0) (heap : Heap w) (a : BitVec w) :
    (memset s c n heap).2.memory a =
      if (a - s).toNat < n.toNat then c.setWidth 8 else heap.memory a :=
  forTo_write_apply hn s (fun _ _ => c.setWidth 8) heap.memory (fun _ _ _ _ => rfl) a

/-- `calloc` zeroes its block, and changes nothing else. -/
theorem calloc_apply {nmemb size : BitVec w} (h : size * nmemb ≠ 0) (heap : Heap w)
    (a : BitVec w) :
    (calloc nmemb size heap).2.memory a =
      if (a - heap.mallocBase).toNat < (size * nmemb).toNat then 0 else heap.memory a :=
  forTo_write_apply h heap.mallocBase (fun _ _ => 0) heap.memory (fun _ _ _ _ => rfl) a

/-- The four bytes of `errno_slot`. -/
def errnoRegion (w : Nat) : Region w := ⟨errnoSlot w, 4⟩

theorem errnoLocation_apply (hw : 4 ≤ 2 ^ w) (heap : Heap w) (a : BitVec w) :
    (errnoLocation heap).2.memory a = if a ∈ errnoRegion w then 0 else heap.memory a :=
  foldl_write_apply (errnoSlot w) (fun _ _ => 0) heap.memory hw (fun _ _ _ _ => rfl) 4
    (le_refl 4) a

/-! ### Runs of a program -/

/-- A call of the program, or a store of its own. -/
inductive Call (w : Nat) where
  | calloc (nmemb size : BitVec w)
  | malloc (size : BitVec w)
  | realloc (ptr size : BitVec w)
  | free (ptr : BitVec w)
  | errnoLocation
  | memcpy (dest src n : BitVec w)
  | memset (s c n : BitVec w)
  | store (address : BitVec w) (byte : BitVec 8)

/-- The number of bytes a call asks for. -/
def Call.requested : Call w → Nat
  | .calloc nmemb size => nmemb.toNat * size.toNat
  | .malloc size => size.toNat
  | .realloc _ size => size.toNat
  | _ => 0

/-- The heap, the blocks returned so far (latest first) and those still live. -/
structure State (w : Nat) where
  heap : Heap w
  blocks : List (Region w)
  live : List (Region w)

/-- The state in which the program starts. -/
def State.start (memory : Memory w) : State w :=
  { heap := { memory := memory, mallocBase := mallocBase₀ w }, blocks := [], live := [] }

/-- The live blocks without the one at `ptr`. -/
def dropLive (ptr : BitVec w) (live : List (Region w)) : List (Region w) :=
  live.filter fun block => block.start ≠ ptr

/-- One step of the program. -/
def step : Call w → State w → State w
  | .calloc nmemb size, s =>
    let result := calloc nmemb size s.heap
    let block : Region w := ⟨result.1, nmemb.toNat * size.toNat⟩
    { heap := result.2, blocks := block :: s.blocks, live := block :: s.live }
  | .malloc size, s =>
    let result := malloc size s.heap
    let block : Region w := ⟨result.1, size.toNat⟩
    { heap := result.2, blocks := block :: s.blocks, live := block :: s.live }
  | .realloc ptr size, s =>
    let result := realloc ptr size s.heap
    let block : Region w := ⟨result.1, size.toNat⟩
    { heap := result.2, blocks := block :: s.blocks, live := block :: dropLive ptr s.live }
  | .free ptr, s => { s with heap := free s.heap, live := dropLive ptr s.live }
  | .errnoLocation, s => { s with heap := (errnoLocation s.heap).2 }
  | .memcpy dest src n, s => { s with heap := (memcpy dest src n s.heap).2 }
  | .memset start c n, s => { s with heap := (memset start c n s.heap).2 }
  | .store address byte, s =>
    { s with heap := { s.heap with memory := write address byte s.heap.memory } }

/-- A property of every step of a run. -/
def Along (P : State w → Call w → Prop) : List (Call w) → State w → Prop
  | [], _ => True
  | call :: calls, s => P s call ∧ Along P calls (step call s)

/-- The number of bytes all calls ask for. -/
def requested (calls : List (Call w)) : Nat := (calls.map Call.requested).sum

/-- What a well-behaved program does: positive sizes, writes inside live blocks, and no
`memcpy` between overlapping regions. -/
def WellBehaved (s : State w) : Call w → Prop
  | .calloc nmemb size => nmemb ≠ 0 ∧ size ≠ 0
  | .malloc size => size ≠ 0
  | .realloc _ size => size ≠ 0
  | .free _ => True
  | .errnoLocation => True
  | .memcpy dest src n => n ≠ 0 ∧
      (∃ block ∈ s.live, (⟨dest, n.toNat⟩ : Region w).Within block) ∧
      (∃ block ∈ s.live, (⟨src, n.toNat⟩ : Region w).Within block) ∧
      (⟨src, n.toNat⟩ : Region w).Disjoint ⟨dest, n.toNat⟩
  | .memset start _ n => n ≠ 0 ∧
      ∃ block ∈ s.live, (⟨start, n.toNat⟩ : Region w).Within block
  | .store address _ => ∃ block ∈ s.live, address ∈ block

/-! ### What an allocator promises -/

/-- Blocks are pairwise disjoint, and disjoint from `errno_slot`. -/
def Separate (blocks : List (Region w)) : Prop :=
  blocks.Pairwise Region.Disjoint ∧ ∀ block ∈ blocks, block.Disjoint (errnoRegion w)

/-- The block a `calloc` returns reads as zero. -/
def Zeroed (s : State w) : Call w → Prop
  | .calloc nmemb size =>
    ∀ a, a ∈ (⟨(calloc nmemb size s.heap).1, nmemb.toNat * size.toNat⟩ : Region w) →
      (step (.calloc nmemb size) s).heap.memory a = 0
  | _ => True

/-- The block a `realloc` of a live block returns starts with what that block held. -/
def Kept (s : State w) : Call w → Prop
  | .realloc ptr size =>
    ∀ old ∈ s.live, old.start = ptr → ∀ i, i < min old.length size.toNat →
      (step (.realloc ptr size) s).heap.memory
          ((realloc ptr size s.heap).1 + BitVec.ofNat w i) =
        s.heap.memory (ptr + BitVec.ofNat w i)
  | _ => True

/-- A step of a correct allocator. -/
def Correct (s : State w) (call : Call w) : Prop :=
  Separate (step call s).blocks ∧ Zeroed s call ∧ Kept s call

/-- The program's first memory image happens to hold, from `malloc_base` on, what the block
given to `realloc` holds. -/
def HeldBefore (memory : Memory w) (s : State w) : Call w → Prop
  | .realloc ptr size =>
    ∀ old ∈ s.live, old.start = ptr → ∀ i, i < min old.length size.toNat →
      memory (s.heap.mallocBase + BitVec.ofNat w i) = s.heap.memory (ptr + BitVec.ofNat w i)
  | _ => True

/-! ### The layout of the blocks -/

/-- The bytes of all blocks. -/
def extent (blocks : List (Region w)) : Nat := (blocks.map Region.length).sum

/-- The blocks lie one behind the other, from the first `malloc_base` on. -/
def LaidOut : List (Region w) → Prop
  | [] => True
  | block :: older =>
    block.start = mallocBase₀ w + BitVec.ofNat w (extent older) ∧ LaidOut older

/-- The distance from the first `malloc_base`. -/
def distance (a : BitVec w) : Nat := (a - mallocBase₀ w).toNat

theorem mem_block_iff {block : Region w} {older : List (Region w)}
    (h : LaidOut (block :: older)) (hextent : extent (block :: older) ≤ 2 ^ w) (a : BitVec w) :
    a ∈ block ↔ extent older ≤ distance a ∧ distance a < extent older + block.length := by
  obtain ⟨start, length⟩ := block
  have hstart : start = mallocBase₀ w + BitVec.ofNat w (extent older) := h.1
  have hsum : extent older + length ≤ 2 ^ w := by
    have : extent (⟨start, length⟩ :: older) = length + extent older := rfl
    omega
  rw [hstart]
  exact mem_offset_iff (mallocBase₀ w) hsum a

theorem extent_cons (block : Region w) (older : List (Region w)) :
    extent (block :: older) = block.length + extent older := rfl

/-- A block's addresses are among the bytes handed out. -/
theorem distance_lt_extent {blocks : List (Region w)} (h : LaidOut blocks)
    (hextent : extent blocks ≤ 2 ^ w) {block : Region w} (hblock : block ∈ blocks) {a : BitVec w}
    (ha : a ∈ block) : distance a < extent blocks := by
  induction blocks with
  | nil => cases hblock
  | cons latest older ih =>
    rw [extent_cons] at hextent ⊢
    rcases List.mem_cons.mp hblock with rfl | hblock
    · have := (mem_block_iff h (by rw [extent_cons]; omega) a).mp ha
      omega
    · have := ih h.2 (by omega) hblock
      omega

/-- Every byte handed out belongs to a block. -/
theorem exists_block {blocks : List (Region w)} (h : LaidOut blocks)
    (hextent : extent blocks ≤ 2 ^ w) {a : BitVec w} (ha : distance a < extent blocks) :
    ∃ block ∈ blocks, a ∈ block := by
  induction blocks with
  | nil => exact absurd ha (Nat.not_lt_zero _)
  | cons latest older ih =>
    rw [extent_cons] at hextent ha
    by_cases holder : distance a < extent older
    · obtain ⟨block, hblock, hmem⟩ := ih h.2 (by omega) holder
      exact ⟨block, List.mem_cons_of_mem latest hblock, hmem⟩
    · refine ⟨latest, List.mem_cons_self, ?_⟩
      apply (mem_block_iff h (by rw [extent_cons]; omega) a).mpr
      omega

theorem pairwise_disjoint {blocks : List (Region w)} (h : LaidOut blocks)
    (hextent : extent blocks ≤ 2 ^ w) : blocks.Pairwise Region.Disjoint := by
  induction blocks with
  | nil => exact List.Pairwise.nil
  | cons latest older ih =>
    have holder : extent older ≤ 2 ^ w := by
      rw [extent_cons] at hextent
      omega
    refine List.Pairwise.cons ?_ (ih h.2 holder)
    intro block hblock a ha hmem
    have hafter := (mem_block_iff h hextent a).mp ha
    have hbefore := distance_lt_extent h.2 holder hblock hmem
    omega

/-- `errno_slot` lies sixteen bytes before the first `malloc_base`. -/
theorem errnoSlot_eq (hw : 16 ≤ 2 ^ w) :
    errnoSlot w = mallocBase₀ w + BitVec.ofNat w (2 ^ w - 16) := by
  have hneg : (BitVec.ofNat w (2 ^ w - 16) : BitVec w) = -16 := by
    apply BitVec.eq_of_toNat_eq
    rw [BitVec.toNat_neg, BitVec.toNat_ofNat]
    show (2 ^ w - 16) % 2 ^ w = (2 ^ w - 16 % 2 ^ w) % 2 ^ w
    rcases Nat.lt_or_eq_of_le hw with hlt | heq
    · rw [Nat.mod_eq_of_lt hlt]
    · rw [← heq]
  rw [hneg]
  apply eq_add_neg_of_add_eq
  show BitVec.ofNat w 0x7efffff0 + BitVec.ofNat w 16 = BitVec.ofNat w 0x7f000000
  rw [← BitVec.ofNat_add]

theorem mem_errnoRegion_iff (hw : 16 ≤ 2 ^ w) (a : BitVec w) :
    a ∈ errnoRegion w ↔ 2 ^ w - 16 ≤ distance a ∧ distance a < 2 ^ w - 12 := by
  show a ∈ (⟨errnoSlot w, 4⟩ : Region w) ↔ _
  rw [errnoSlot_eq hw, mem_offset_iff (mallocBase₀ w) (by omega) a,
    show 2 ^ w - 16 + 4 = 2 ^ w - 12 by omega]
  exact Iff.rfl

/-- The blocks stay clear of `errno_slot` until the heap reaches it from the other side. -/
theorem disjoint_errno_iff (hw : 16 ≤ 2 ^ w) {blocks : List (Region w)} (h : LaidOut blocks)
    (hextent : extent blocks ≤ 2 ^ w) :
    (∀ block ∈ blocks, block.Disjoint (errnoRegion w)) ↔ extent blocks + 16 ≤ 2 ^ w := by
  constructor
  · intro hdisjoint
    by_contra hover
    have hdistance : distance (errnoSlot w) = 2 ^ w - 16 := by
      rw [errnoSlot_eq hw]
      exact toNat_add_sub_self (mallocBase₀ w) (by omega)
    obtain ⟨block, hblock, hmem⟩ := exists_block h hextent (a := errnoSlot w) (by omega)
    apply hdisjoint block hblock _ hmem
    exact (mem_errnoRegion_iff hw _).mpr (by omega)
  · intro hsmall block hblock a ha herrno
    have hbelow := distance_lt_extent h hextent hblock ha
    have habove := (mem_errnoRegion_iff hw a).mp herrno
    omega

/-! ### What holds along a run -/

/-- The blocks handed out so far and the untouched memory behind them. -/
structure Reached (memory : Memory w) (s : State w) : Prop where
  base : s.heap.mallocBase = mallocBase₀ w + BitVec.ofNat w (extent s.blocks)
  laidOut : LaidOut s.blocks
  live : ∀ block ∈ s.live, block ∈ s.blocks
  fresh : ∀ a, extent s.blocks ≤ distance a → a ∉ errnoRegion w → s.heap.memory a = memory a

theorem reached_start (memory : Memory w) : Reached memory (State.start memory) where
  base := by
    show mallocBase₀ w = mallocBase₀ w + BitVec.ofNat w 0
    exact (add_zero (mallocBase₀ w)).symm
  laidOut := trivial
  live := fun _ hblock => hblock
  fresh := fun _ _ _ => rfl

theorem extent_step (call : Call w) (s : State w) :
    extent (step call s).blocks = extent s.blocks + call.requested := by
  cases call with
  | calloc nmemb size => exact Nat.add_comm _ _
  | malloc size => exact Nat.add_comm _ _
  | realloc ptr size => exact Nat.add_comm _ _
  | free ptr => rfl
  | errnoLocation => rfl
  | memcpy dest src n => rfl
  | memset start c n => rfl
  | store address byte => rfl

theorem toNat_mul {nmemb size : BitVec w} (h : nmemb.toNat * size.toNat < 2 ^ w) :
    (size * nmemb).toNat = nmemb.toNat * size.toNat := by
  rw [BitVec.toNat_mul, Nat.mul_comm, Nat.mod_eq_of_lt h]

/-- `malloc_base` after handing out `n` more bytes. -/
theorem base_add {s : State w} {memory : Memory w} (h : Reached memory s) {size : BitVec w}
    {n : Nat} (hsize : size.toNat = n) :
    s.heap.mallocBase + size = mallocBase₀ w + BitVec.ofNat w (n + extent s.blocks) := by
  have hword : size = BitVec.ofNat w n := by
    rw [← hsize, BitVec.ofNat_toNat, BitVec.setWidth_eq]
  rw [h.base, hword, add_assoc, ← BitVec.ofNat_add, Nat.add_comm (extent s.blocks)]

/-- A state that hands out one more block and leaves the memory behind it alone. -/
theorem reached_cons {memory : Memory w} {s : State w} (h : Reached memory s) {size : BitVec w}
    {n : Nat} (hsize : size.toNat = n) {after : Memory w} {live : List (Region w)}
    (hlive : ∀ block ∈ live, block ∈ s.live)
    (hmemory : ∀ a, n + extent s.blocks ≤ distance a → after a = s.heap.memory a) :
    Reached memory
      { heap := { memory := after, mallocBase := s.heap.mallocBase + size },
        blocks := ⟨s.heap.mallocBase, n⟩ :: s.blocks,
        live := ⟨s.heap.mallocBase, n⟩ :: live } where
  base := base_add h hsize
  laidOut := ⟨h.base, h.laidOut⟩
  live := by
    intro block hblock
    rcases List.mem_cons.mp hblock with rfl | hblock
    · exact List.mem_cons_self
    · exact List.mem_cons_of_mem _ (h.live block (hlive block hblock))
  fresh := by
    intro a ha herrno
    rw [extent_cons] at ha
    have hbehind : after a = s.heap.memory a := hmemory a ha
    show after a = memory a
    rw [hbehind]
    exact h.fresh a (by omega) herrno

/-- A state in which only live blocks and `errno_slot` were written. -/
theorem reached_write {memory : Memory w} {s : State w} (h : Reached memory s)
    {after : Memory w} {live : List (Region w)} (hlive : ∀ block ∈ live, block ∈ s.live)
    (hmemory : ∀ a, extent s.blocks ≤ distance a → a ∉ errnoRegion w →
      after a = s.heap.memory a) :
    Reached memory
      { heap := { memory := after, mallocBase := s.heap.mallocBase },
        blocks := s.blocks, live := live } where
  base := h.base
  laidOut := h.laidOut
  live := fun block hblock => h.live block (hlive block hblock)
  fresh := by
    intro a ha herrno
    show after a = memory a
    rw [hmemory a ha herrno]
    exact h.fresh a ha herrno

theorem mem_dropLive {ptr : BitVec w} {live : List (Region w)} {block : Region w}
    (h : block ∈ dropLive ptr live) : block ∈ live := List.mem_of_mem_filter h

/-- **Step lemma**: a well-behaved step keeps the layout and the memory behind it. -/
theorem reached_step (hw : 16 ≤ 2 ^ w) {memory : Memory w} {s : State w}
    (h : Reached memory s) {call : Call w} (hcall : WellBehaved s call)
    (hfits : extent s.blocks + call.requested < 2 ^ w) : Reached memory (step call s) := by
  -- what lies in a live block is not behind the blocks
  have hinside : ∀ block ∈ s.live, ∀ a, a ∈ block → distance a < extent s.blocks :=
    fun block hblock a ha =>
      distance_lt_extent h.laidOut (by omega) (h.live block hblock) ha
  cases call with
  | calloc nmemb size =>
    have hproduct : nmemb.toNat * size.toNat < 2 ^ w := by
      have : extent s.blocks + nmemb.toNat * size.toNat < 2 ^ w := hfits
      omega
    have hsize := toNat_mul hproduct
    have hpositive : size * nmemb ≠ 0 := by
      intro hzero
      rw [hzero] at hsize
      have hn : nmemb.toNat ≠ 0 := fun hz => hcall.1 (BitVec.eq_of_toNat_eq (by simpa using hz))
      have hs : size.toNat ≠ 0 := fun hz => hcall.2 (BitVec.eq_of_toNat_eq (by simpa using hz))
      exact Nat.mul_ne_zero hn hs (by simpa using hsize.symm)
    refine reached_cons h hsize (fun _ hblock => hblock) ?_
    intro a ha
    show (calloc nmemb size s.heap).2.memory a = s.heap.memory a
    rw [calloc_apply hpositive, if_neg]
    intro hlt
    have hmem : a ∈ (⟨s.heap.mallocBase, nmemb.toNat * size.toNat⟩ : Region w) := by
      rw [← hsize]
      exact hlt
    rw [h.base] at hmem
    have hrange := (mem_offset_iff (mallocBase₀ w) (by exact hfits.le) a).mp hmem
    have hdistance : distance a = (a - mallocBase₀ w).toNat := rfl
    omega
  | malloc size => exact reached_cons h rfl (fun _ hblock => hblock) (fun _ _ => rfl)
  | realloc ptr size =>
    exact reached_cons h rfl (fun _ hblock => mem_dropLive hblock) (fun _ _ => rfl)
  | free ptr => exact reached_write h (fun _ hblock => mem_dropLive hblock) (fun _ _ _ => rfl)
  | errnoLocation =>
    refine reached_write h (fun _ hblock => hblock) ?_
    intro a _ herrno
    show (errnoLocation s.heap).2.memory a = s.heap.memory a
    rw [errnoLocation_apply (by omega), if_neg herrno]
  | memcpy dest src n =>
    obtain ⟨hn, ⟨block, hblock, hwithin⟩, -, hseparate⟩ := hcall
    refine reached_write h (fun _ hblock => hblock) ?_
    intro a ha _
    show (memcpy dest src n s.heap).2.memory a = s.heap.memory a
    rw [memcpy_apply hn hseparate, if_neg]
    intro hlt
    have := hinside block hblock a (hwithin a hlt)
    omega
  | memset start c n =>
    obtain ⟨hn, block, hblock, hwithin⟩ := hcall
    refine reached_write h (fun _ hblock => hblock) ?_
    intro a ha _
    show (memset start c n s.heap).2.memory a = s.heap.memory a
    rw [memset_apply hn, if_neg]
    intro hlt
    have := hinside block hblock a (hwithin a hlt)
    omega
  | store address byte =>
    obtain ⟨block, hblock, hmem⟩ := hcall
    refine reached_write h (fun _ hblock => hblock) ?_
    intro a ha _
    have hne : a ≠ address := by
      rintro rfl
      have := hinside block hblock a hmem
      omega
    exact write_other hne byte s.heap.memory

/-! ### When the allocator is correct -/

theorem zeroed_step {s : State w} {call : Call w} (hcall : WellBehaved s call)
    (hfits : call.requested < 2 ^ w) : Zeroed s call := by
  cases call with
  | calloc nmemb size =>
    intro a ha
    have hsize : (size * nmemb).toNat = nmemb.toNat * size.toNat := toNat_mul hfits
    by_cases hzero : size * nmemb = 0
    · -- the product of positive sizes does not wrap
      have hempty : nmemb.toNat * size.toNat = 0 := by
        rw [← hsize, hzero]
        exact Nat.zero_mod _
      exact absurd ha (by
        rw [hempty]
        exact Nat.not_lt_zero _)
    · show (calloc nmemb size s.heap).2.memory a = 0
      rw [calloc_apply hzero, if_pos]
      rw [hsize]
      exact ha
  | malloc size => trivial
  | realloc ptr size => trivial
  | free ptr => trivial
  | errnoLocation => trivial
  | memcpy dest src n => trivial
  | memset start c n => trivial
  | store address byte => trivial

/-- While the blocks stay clear of `errno_slot`, the new block of a `realloc` holds what the
first memory image held there. -/
theorem kept_iff_heldBefore (hw : 16 ≤ 2 ^ w) {memory : Memory w} {s : State w}
    (h : Reached memory s) {call : Call w}
    (hclear : extent s.blocks + call.requested + 16 ≤ 2 ^ w) :
    Kept s call ↔ HeldBefore memory s call := by
  cases call with
  | realloc ptr size =>
    have hclear' : extent s.blocks + size.toNat + 16 ≤ 2 ^ w := hclear
    -- the block is new: behind the extent, and not the slot of `errno`, the memory is
    -- the initial one
    have hfirst : ∀ i, i < size.toNat →
        s.heap.memory (s.heap.mallocBase + BitVec.ofNat w i) =
          memory (s.heap.mallocBase + BitVec.ofNat w i) := by
      intro i hi
      have hdistance : distance (s.heap.mallocBase + BitVec.ofNat w i) = extent s.blocks + i := by
        rw [h.base, add_assoc, ← BitVec.ofNat_add]
        exact toNat_add_sub_self (mallocBase₀ w) (by omega)
      apply h.fresh
      · omega
      · intro herrno
        have := (mem_errnoRegion_iff hw _).mp herrno
        omega
    constructor
    · intro hkept old hold hstart i hi
      rw [← hfirst i (lt_of_lt_of_le hi (min_le_right _ _))]
      exact hkept old hold hstart i hi
    · intro hheld old hold hstart i hi
      show s.heap.memory (s.heap.mallocBase + BitVec.ofNat w i) =
        s.heap.memory (ptr + BitVec.ofNat w i)
      rw [hfirst i (lt_of_lt_of_le hi (min_le_right _ _))]
      exact hheld old hold hstart i hi
  | calloc nmemb size => exact Iff.rfl
  | malloc size => exact Iff.rfl
  | free ptr => exact Iff.rfl
  | errnoLocation => exact Iff.rfl
  | memcpy dest src n => exact Iff.rfl
  | memset start c n => exact Iff.rfl
  | store address byte => exact Iff.rfl

theorem correct_iff (hw : 16 ≤ 2 ^ w) {memory : Memory w} {s : State w}
    (h : Reached memory s) {call : Call w} (hcall : WellBehaved s call)
    (hfits : extent s.blocks + call.requested < 2 ^ w) :
    Correct s call ↔
      extent s.blocks + call.requested + 16 ≤ 2 ^ w ∧ HeldBefore memory s call := by
  have hnext := reached_step hw h hcall hfits
  have hextent : extent (step call s).blocks ≤ 2 ^ w := by
    rw [extent_step]
    exact hfits.le
  have hclear := disjoint_errno_iff hw hnext.laidOut hextent
  rw [extent_step] at hclear
  constructor
  · rintro ⟨⟨-, herrno⟩, -, hkept⟩
    have hbound := hclear.mp herrno
    exact ⟨hbound, (kept_iff_heldBefore hw h hbound).mp hkept⟩
  · rintro ⟨hbound, hheld⟩
    refine ⟨⟨pairwise_disjoint hnext.laidOut hextent, hclear.mpr hbound⟩, ?_, ?_⟩
    · exact zeroed_step hcall (by omega)
    · exact (kept_iff_heldBefore hw h hbound).mpr hheld

/-- **Run lemma**, from any state on. -/
theorem along_correct_iff (hw : 16 ≤ 2 ^ w) {memory : Memory w} (calls : List (Call w)) :
    ∀ {s : State w}, Reached memory s → Along WellBehaved calls s →
      extent s.blocks + requested calls < 2 ^ w → extent s.blocks + 16 ≤ 2 ^ w →
        (Along Correct calls s ↔
          extent s.blocks + requested calls + 16 ≤ 2 ^ w ∧ Along (HeldBefore memory) calls s) := by
  induction calls with
  | nil =>
    intro s _ _ _ hclear
    exact ⟨fun _ => ⟨hclear, trivial⟩, fun _ => trivial⟩
  | cons call calls ih =>
    rintro s h ⟨hcall, hcalls⟩ hfits hclear
    have hsum : requested (call :: calls) = call.requested + requested calls := rfl
    rw [hsum] at hfits ⊢
    have hone : extent s.blocks + call.requested < 2 ^ w := by omega
    have hstep := correct_iff hw h hcall hone
    -- the rest of the calls, from the state behind this one
    have hrest : extent s.blocks + call.requested + 16 ≤ 2 ^ w →
        (Along Correct calls (step call s) ↔
          extent s.blocks + call.requested + requested calls + 16 ≤ 2 ^ w ∧
            Along (HeldBefore memory) calls (step call s)) := by
      intro hbound
      have := ih (reached_step hw h hcall hone) hcalls (by rw [extent_step]; omega)
        (by rw [extent_step]; exact hbound)
      rwa [extent_step] at this
    constructor
    · rintro ⟨hfirst, hlater⟩
      obtain ⟨hbound, hheld⟩ := hstep.mp hfirst
      obtain ⟨hall, hheldLater⟩ := (hrest hbound).mp hlater
      exact ⟨by omega, hheld, hheldLater⟩
    · rintro ⟨hall, hheld, hheldLater⟩
      have hbound : extent s.blocks + call.requested + 16 ≤ 2 ^ w := by omega
      exact ⟨hstep.mpr ⟨hbound, hheld⟩, (hrest hbound).mpr ⟨by omega, hheldLater⟩⟩

/-- **The BINSEC heap is a correct allocator** along a run exactly when the heap does not come
round to `errno_slot` and every `realloc` of a live block finds its contents already in the
first memory image, at `malloc_base`. -/
theorem heap_correct_iff (hw : 32 ≤ w) (memory : Memory w) (calls : List (Call w))
    (hcalls : Along WellBehaved calls (State.start memory)) (htotal : requested calls < 2 ^ w) :
    Along Correct calls (State.start memory) ↔
      requested calls + 16 ≤ 2 ^ w ∧
        Along (HeldBefore memory) calls (State.start memory) := by
  have hspace : 2 ^ 4 ≤ 2 ^ w := Nat.pow_le_pow_right (by omega) (by omega)
  have hextent : extent (State.start memory).blocks = 0 := rfl
  have := along_correct_iff (by omega) calls (reached_start memory) hcalls
    (by rw [hextent]; omega) (by rw [hextent]; omega)
  rwa [hextent, Nat.zero_add] at this

/-- A block is filled, then grown: the program that loses its first byte. -/
def growAfterStore : List (Call 64) :=
  [.malloc 4, .store 0x7f000000 1, .realloc 0x7f000000 8]

theorem growAfterStore_wellBehaved :
    Along WellBehaved growAfterStore (State.start fun _ => 0) :=
  ⟨(by decide : (4 : BitVec 64) ≠ 0), ⟨⟨0x7f000000, 4⟩, List.mem_cons_self, by decide⟩,
    (by decide : (8 : BitVec 64) ≠ 0), trivial⟩

/-- `realloc` loses the contents of a block. -/
theorem realloc_loses_contents :
    Along WellBehaved growAfterStore (State.start fun _ => 0) ∧
      requested growAfterStore < 2 ^ 64 ∧
        ¬ Along Correct growAfterStore (State.start fun _ => 0) := by
  refine ⟨growAfterStore_wellBehaved, by decide, ?_⟩
  rintro ⟨-, -, ⟨-, -, hkept⟩, -⟩
  have hfirst := hkept ⟨0x7f000000, 4⟩ List.mem_cons_self rfl 0 (by decide)
  exact absurd hfirst (by decide)

theorem heap_correct_iff_grow :
    Along Correct growAfterStore (State.start fun _ => 0) ↔
      requested growAfterStore + 16 ≤ 2 ^ 64 ∧
        Along (HeldBefore fun _ => 0) growAfterStore (State.start fun _ => 0) :=
  heap_correct_iff (by decide) (fun _ => 0) growAfterStore growAfterStore_wellBehaved (by decide)

end KleeDeps.Binsec
