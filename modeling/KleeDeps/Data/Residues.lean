import Mathlib.Data.Nat.ChineseRemainder
import Mathlib.FieldTheory.Finite.Basic

/-!
# Powers modulo primes

What primality tests and RSA rest on, over the natural numbers.

- `eq_one_or_exists_eq_neg_one`: repeated squaring reaches one only through minus one;
- `strong_of_prime`: a prime passes the strong test to every base it does not divide;
- `pow_mod_of_modEq_one`: an exponent that is one modulo `(p - 1) * (q - 1)` gives back every
  residue of `p * q`;
- `garner_mod`: the recombination of Garner's algorithm inverts the two reductions.
-/

namespace Residues

/-! ### Square roots of one -/

/-- Where only `1` and `-1` have the square `1`, repeated squaring reaches `1` only through
`-1`. -/
theorem eq_one_or_exists_eq_neg_one {R : Type} [CommRing R] [NoZeroDivisors R] {x : R} :
    ∀ {s : Nat}, x ^ 2 ^ s = 1 → x = 1 ∨ ∃ i < s, x ^ 2 ^ i = -1
  | 0, h => .inl (by simpa using h)
  | s + 1, h => by
    have hsquare : x ^ 2 ^ s * x ^ 2 ^ s = 1 := by
      rw [← pow_add, ← two_mul, ← pow_succ']
      exact h
    rcases mul_self_eq_one_iff.mp hsquare with hone | hneg
    · rcases eq_one_or_exists_eq_neg_one hone with h | ⟨i, hi, h⟩
      · exact .inl h
      · exact .inr ⟨i, by omega, h⟩
    · exact .inr ⟨s, by omega, hneg⟩

/-- Minus one, as a residue. -/
theorem natCast_pred {n : Nat} (hn : 1 ≤ n) : ((n - 1 : Nat) : ZMod n) = -1 := by
  rw [Nat.cast_sub hn, ZMod.natCast_self, Nat.cast_one, zero_sub]

/-- The strong test to one base: what Miller and Rabin check of `a ^ (p - 1) = 1`. -/
theorem strong_of_prime {p a d s : Nat} (hp : p.Prime) (hd : d * 2 ^ s = p - 1)
    (ha : ¬p ∣ a) : a ^ d % p = 1 ∨ ∃ i < s, (a ^ d) ^ 2 ^ i % p = p - 1 := by
  have : Fact p.Prime := ⟨hp⟩
  have hfermat : ((a : ZMod p) ^ d) ^ 2 ^ s = 1 := by
    rw [← pow_mul, hd]
    exact ZMod.pow_card_sub_one_eq_one (mt (ZMod.natCast_eq_zero_iff a p).mp ha)
  rcases eq_one_or_exists_eq_neg_one hfermat with h | ⟨i, hi, h⟩
  · left
    have hcast : ((a ^ d : Nat) : ZMod p) = ((1 : Nat) : ZMod p) := by simpa using h
    rw [(ZMod.natCast_eq_natCast_iff' _ _ _).mp hcast, Nat.mod_eq_of_lt hp.one_lt]
  · right
    have hcast : (((a ^ d) ^ 2 ^ i : Nat) : ZMod p) = ((p - 1 : Nat) : ZMod p) := by
      rw [natCast_pred hp.one_le]
      simpa using h
    exact ⟨i, hi, by
      rw [(ZMod.natCast_eq_natCast_iff' _ _ _).mp hcast, Nat.mod_eq_of_lt (by have := hp.pos; omega)]⟩

/-! ### Exponents -/

/-- Fermat's theorem, also where the prime divides the base. -/
theorem pow_modEq_self {p k : Nat} (hp : p.Prime) (hk : 1 ≤ k) (h : k ≡ 1 [MOD p - 1])
    (m : Nat) : m ^ k ≡ m [MOD p] := by
  have : Fact p.Prime := ⟨hp⟩
  obtain ⟨t, ht⟩ := (Nat.modEq_iff_dvd' hk).mp h.symm
  have hk' : k = (p - 1) * t + 1 := by omega
  rw [← ZMod.natCast_eq_natCast_iff, Nat.cast_pow, hk', pow_succ, pow_mul]
  by_cases hm : (m : ZMod p) = 0
  · rw [hm, mul_zero]
  · rw [ZMod.pow_card_sub_one_eq_one hm, one_pow, one_mul]

/-- An exponent that is one modulo `(p - 1) * (q - 1)` gives every residue back. -/
theorem pow_mod_of_modEq_one {p q k : Nat} (hp : p.Prime) (hq : q.Prime) (hpq : p ≠ q)
    (hk : 1 ≤ k) (h : k ≡ 1 [MOD (p - 1) * (q - 1)]) {m : Nat} (hm : m < p * q) :
    m ^ k % (p * q) = m := by
  have hmodp := pow_modEq_self hp hk (h.of_mul_right (q - 1)) m
  have hmodq := pow_modEq_self hq hk (h.of_mul_left (p - 1)) m
  have hcoprime := (Nat.coprime_primes hp hq).mpr hpq
  have hmod : m ^ k ≡ m [MOD p * q] :=
    (Nat.modEq_and_modEq_iff_modEq_mul hcoprime).mp ⟨hmodp, hmodq⟩
  rwa [Nat.ModEq, Nat.mod_eq_of_lt hm] at hmod

/-- An exponent may be reduced modulo `p - 1`. -/
theorem pow_mod_pred {p d : Nat} (hp : p.Prime) (hd : 1 ≤ d % (p - 1)) (c : Nat) :
    c ^ (d % (p - 1)) % p = c ^ d % p := by
  have : Fact p.Prime := ⟨hp⟩
  rw [← ZMod.natCast_eq_natCast_iff', Nat.cast_pow, Nat.cast_pow]
  conv_rhs => rw [← Nat.div_add_mod d (p - 1), pow_add, pow_mul]
  by_cases hc : (c : ZMod p) = 0
  · rw [hc, zero_pow (by omega), mul_zero]
  · rw [ZMod.pow_card_sub_one_eq_one hc, one_pow, one_mul]

/-! ### Garner's recombination -/

/-- The residue of `p * q` with the residues `x₁` and `x₂`. -/
def garner (p q qInv x₁ x₂ : Nat) : Nat := x₂ + q * (qInv * (x₁ + (p - x₂ % p)) % p)

theorem garner_modEq_left {p q qInv x₁ x₂ : Nat} (hp : 0 < p) (h : q * qInv ≡ 1 [MOD p]) :
    garner p q qInv x₁ x₂ ≡ x₁ [MOD p] := by
  have hlt : x₂ % p < p := Nat.mod_lt _ hp
  have hdiff : x₂ + (x₁ + (p - x₂ % p)) ≡ x₁ [MOD p] := by
    have hself : x₂ + (p - x₂ % p) ≡ 0 [MOD p] := by
      refine (Nat.modEq_zero_iff_dvd).mpr ⟨x₂ / p + 1, ?_⟩
      have := Nat.div_add_mod x₂ p
      rw [mul_add, mul_one]
      omega
    calc x₂ + (x₁ + (p - x₂ % p)) = x₂ + (p - x₂ % p) + x₁ := by omega
      _ ≡ 0 + x₁ [MOD p] := hself.add_right x₁
      _ = x₁ := zero_add x₁
  calc garner p q qInv x₁ x₂
      ≡ x₂ + q * (qInv * (x₁ + (p - x₂ % p))) [MOD p] :=
        ((Nat.mod_modEq _ _).mul_left q).add_left x₂
    _ = x₂ + q * qInv * (x₁ + (p - x₂ % p)) := by rw [mul_assoc]
    _ ≡ x₂ + 1 * (x₁ + (p - x₂ % p)) [MOD p] := (h.mul_right _).add_left x₂
    _ = x₂ + (x₁ + (p - x₂ % p)) := by rw [one_mul]
    _ ≡ x₁ [MOD p] := hdiff

theorem garner_lt {p q qInv x₁ x₂ : Nat} (hp : 0 < p) (h : x₂ < q) :
    garner p q qInv x₁ x₂ < p * q := by
  have hle : qInv * (x₁ + (p - x₂ % p)) % p ≤ p - 1 := Nat.le_pred_of_lt (Nat.mod_lt _ hp)
  calc garner p q qInv x₁ x₂ ≤ x₂ + q * (p - 1) := Nat.add_le_add_left (Nat.mul_le_mul_left q hle) x₂
    _ < q + q * (p - 1) := by omega
    _ = p * q := by
      obtain ⟨p, rfl⟩ : ∃ k, p = k + 1 := ⟨p - 1, by omega⟩
      rw [Nat.add_sub_cancel]
      ring

/-- Garner's recombination inverts the two reductions. -/
theorem garner_mod {p q qInv x : Nat} (hp : 0 < p) (hq : 0 < q) (hpq : p.Coprime q)
    (h : q * qInv ≡ 1 [MOD p]) (hx : x < p * q) : garner p q qInv (x % p) (x % q) = x := by
  have hleft : garner p q qInv (x % p) (x % q) ≡ x [MOD p] :=
    (garner_modEq_left hp h).trans (Nat.mod_modEq x p)
  have hright : garner p q qInv (x % p) (x % q) ≡ x [MOD q] := by
    refine Nat.ModEq.trans ?_ (Nat.mod_modEq x q)
    exact Nat.add_mul_mod_self_left _ _ _
  have hmod := (Nat.modEq_and_modEq_iff_modEq_mul hpq).mp ⟨hleft, hright⟩
  rwa [Nat.ModEq, Nat.mod_eq_of_lt (garner_lt hp (Nat.mod_lt x hq)), Nat.mod_eq_of_lt hx] at hmod

end Residues
