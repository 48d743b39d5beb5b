import Mathlib.Data.BitVec

/-!
# Byte memory addressed by machine words

Memory is a function from `w`-bit addresses to bytes. A region is a start address and a
length; its addresses wrap around at `2 ^ w` as the hardware's do. `forTo` is the counted
loop `for i in 0 to last` with an inclusive bound.

- `mem_offset_iff`: the addresses of a region by their distance from a fixed base;
- `forTo_write_apply`: what a loop of byte stores leaves, for stores whose value does not
  depend on the region being written (filling, copying between separate regions).
-/

namespace WordMemory

variable {w : Nat} {σ : Type}

/-- Bytes by address. -/
abbrev Memory (w : Nat) := BitVec w → BitVec 8

/-- The memory after one byte store. -/
def write (address : BitVec w) (byte : BitVec 8) (memory : Memory w) : Memory w :=
  fun a => if a = address then byte else memory a

@[simp] theorem write_self (address : BitVec w) (byte : BitVec 8) (memory : Memory w) :
    write address byte memory address = byte := if_pos rfl

theorem write_other {address a : BitVec w} (h : a ≠ address) (byte : BitVec 8)
    (memory : Memory w) : write address byte memory a = memory a := if_neg h

/-- The inclusive counted loop `for i in 0 to last`. -/
def forTo (last : BitVec w) (body : BitVec w → σ → σ) (s : σ) : σ :=
  (List.range (last.toNat + 1)).foldl (fun s i => body (BitVec.ofNat w i) s) s

/-- A stretch of `length` bytes. -/
structure Region (w : Nat) where
  start : BitVec w
  length : Nat

instance : Membership (BitVec w) (Region w) where
  mem region a := (a - region.start).toNat < region.length

instance (a : BitVec w) (region : Region w) : Decidable (a ∈ region) :=
  inferInstanceAs (Decidable ((a - region.start).toNat < region.length))

theorem mem_iff {region : Region w} {a : BitVec w} :
    a ∈ region ↔ (a - region.start).toNat < region.length := Iff.rfl

/-- No address in common. -/
def Region.Disjoint (r s : Region w) : Prop := ∀ a, a ∈ r → a ∉ s

/-- Every address of `r` is one of `s`. -/
def Region.Within (r s : Region w) : Prop := ∀ a, a ∈ r → a ∈ s

theorem Region.Disjoint.symm {r s : Region w} (h : r.Disjoint s) : s.Disjoint r :=
  fun a ha hr => h a hr ha

/-! ### Addresses by their distance from a base -/

theorem toNat_add_sub_self (base : BitVec w) {offset : Nat} (h : offset < 2 ^ w) :
    ((base + BitVec.ofNat w offset) - base).toNat = offset := by
  rw [add_sub_cancel_left, BitVec.toNat_ofNat, Nat.mod_eq_of_lt h]

theorem add_ofNat_sub (base a : BitVec w) : base + BitVec.ofNat w (a - base).toNat = a := by
  rw [BitVec.ofNat_toNat, BitVec.setWidth_eq, add_sub_cancel]

/-- The addresses of a region that starts `offset` bytes after the base. -/
theorem mem_offset_iff (base : BitVec w) {offset length : Nat} (h : offset + length ≤ 2 ^ w)
    (a : BitVec w) :
    a ∈ (⟨base + BitVec.ofNat w offset, length⟩ : Region w) ↔
      offset ≤ (a - base).toNat ∧ (a - base).toNat < offset + length := by
  have hsub : a - (base + BitVec.ofNat w offset) = (a - base) - BitVec.ofNat w offset := by
    exact sub_add_eq_sub_sub a base _
  rw [mem_iff]
  show (a - (base + BitVec.ofNat w offset)).toNat < length ↔ _
  rw [hsub, BitVec.toNat_sub, BitVec.toNat_ofNat]
  have ha : (a - base).toNat < 2 ^ w := (a - base).isLt
  generalize (a - base).toNat = d at ha ⊢
  by_cases hoffset : offset = 2 ^ w
  · -- an empty region at the very end of the address space
    have hlength : length = 0 := by omega
    subst hlength
    omega
  · rw [Nat.mod_eq_of_lt (show offset < 2 ^ w by omega)]
    by_cases hle : offset ≤ d
    · have hmod : (2 ^ w - offset + d) % 2 ^ w = d - offset := by
        rw [show 2 ^ w - offset + d = (d - offset) + 2 ^ w by omega, Nat.add_mod_right,
          Nat.mod_eq_of_lt (by omega)]
      rw [hmod]
      omega
    · rw [Nat.mod_eq_of_lt (show 2 ^ w - offset + d < 2 ^ w by omega)]
      omega

/-! ### Loops of byte stores -/

theorem toNat_sub_one_add_one {n : BitVec w} (h : n ≠ 0) : (n - 1).toNat + 1 = n.toNat := by
  have hpos : n.toNat ≠ 0 := fun hz => h (BitVec.eq_of_toNat_eq (by simpa using hz))
  have hlt := n.isLt
  have hw : w ≠ 0 := by
    rintro rfl
    omega
  have hone : (1 : BitVec w).toNat = 1 := by
    show 1 % 2 ^ w = 1
    exact Nat.mod_eq_of_lt (Nat.one_lt_two_pow hw)
  rw [BitVec.toNat_sub, hone, show 2 ^ w - 1 + n.toNat = (n.toNat - 1) + 2 ^ w by omega,
    Nat.add_mod_right, Nat.mod_eq_of_lt (by omega)]
  omega

/-- The first `k` rounds of a loop that stores at `start + i`. -/
theorem foldl_write_apply (start : BitVec w) (value : BitVec w → Memory w → BitVec 8)
    (memory : Memory w) {k : Nat} (hk : k ≤ 2 ^ w)
    (hvalue : ∀ i, i < k → ∀ m : Memory w,
      (∀ a, a ∉ (⟨start, k⟩ : Region w) → m a = memory a) →
        value (BitVec.ofNat w i) m = value (BitVec.ofNat w i) memory) :
    ∀ j, j ≤ k → ∀ a, (List.range j).foldl
        (fun m i => write (start + BitVec.ofNat w i) (value (BitVec.ofNat w i) m) m) memory a =
      if (a - start).toNat < j then value (a - start) memory else memory a := by
  intro j
  induction j with
  | zero =>
    intro _ a
    rw [if_neg (Nat.not_lt_zero _)]
    rfl
  | succ j ih =>
    intro hj a
    rw [List.range_succ, List.foldl_append, List.foldl_cons, List.foldl_nil]
    have hearlier := ih (by omega)
    -- the bytes outside the region are still the ones before the loop
    have hframe : ∀ a, a ∉ (⟨start, k⟩ : Region w) → (List.range j).foldl
        (fun m i => write (start + BitVec.ofNat w i) (value (BitVec.ofNat w i) m) m) memory a =
          memory a := by
      intro a ha
      rw [hearlier a, if_neg]
      intro hlt
      exact ha (mem_iff.mpr (show (a - start).toNat < k by omega))
    by_cases ha : a = start + BitVec.ofNat w j
    · have hdistance : (a - start).toNat = j := by
        rw [ha, toNat_add_sub_self start (by omega)]
      have hvalue_eq : a - start = BitVec.ofNat w j := by
        rw [ha, add_sub_cancel_left]
      rw [if_pos (by omega), hvalue_eq, ha, write_self]
      exact hvalue j (by omega) _ hframe
    · rw [write_other ha, hearlier a]
      have hdistance : (a - start).toNat ≠ j := by
        rintro rfl
        exact ha (add_ofNat_sub start a).symm
      by_cases hlt : (a - start).toNat < j
      · rw [if_pos hlt, if_pos (by omega)]
      · rw [if_neg hlt, if_neg (by omega)]

/-- What `for i in 0 to n - 1 do @[start + i, 1] := value` leaves. -/
theorem forTo_write_apply {n : BitVec w} (hn : n ≠ 0) (start : BitVec w)
    (value : BitVec w → Memory w → BitVec 8) (memory : Memory w)
    (hvalue : ∀ i, i < n.toNat → ∀ m : Memory w,
      (∀ a, a ∉ (⟨start, n.toNat⟩ : Region w) → m a = memory a) →
        value (BitVec.ofNat w i) m = value (BitVec.ofNat w i) memory) (a : BitVec w) :
    forTo (n - 1) (fun i m => write (start + i) (value i m) m) memory a =
      if (a - start).toNat < n.toNat then value (a - start) memory else memory a := by
  rw [forTo, toNat_sub_one_add_one hn]
  exact foldl_write_apply start value memory n.isLt.le hvalue n.toNat (le_refl _) a

end WordMemory
