import Mathlib.Data.Nat.Size
import Mathlib.Tactic.NormNum.Prime
import KleeDeps.Data.Residues
import KleeDeps.Py.Int

/-!
# The RSA key of the stage defaults

`tools/utilities/generate_rsa_stage_defaults.py` up to the key: the primality test, the search
for primes and the key made of two of them. Python's generator `random.Random` is a parameter;
the `while True` loops count down a fuel, so that `none` is a loop that is still running.

- `isProbablePrime_of_prime`: the test never rejects a prime;
- `prime_search`: what `generate_prime` returns, and when it has to return;
- `generated_key`: two primes make a key, and its private operations (the plain one and both
  forms of Chinese remaindering) undo encryption on every residue.
-/

namespace KleeDeps.Utilities

open Py

/-- `random.Random`: the state after `Random(seed)`, and two of its draws. -/
structure Random (σ : Type) where
  seeded : Int → σ
  randrange : Nat → Nat → σ → Nat × σ
  getrandbits : Nat → σ → Nat × σ
  randrange_mem : ∀ {low high : Nat} (s : σ), low < high →
    low ≤ (randrange low high s).1 ∧ (randrange low high s).1 < high
  getrandbits_lt : ∀ (bits : Nat) (s : σ), (getrandbits bits s).1 < 2 ^ bits

variable {σ : Type} (rng : Random σ)

def keyBits : Nat := 1024
def publicExponent : Nat := 65537
def millerRabinRounds : Nat := 32

/-! ### The primality test -/

/-- `small_primes`. -/
def smallPrimes : List Nat := [2, 3, 5, 7, 11, 13, 17, 19, 23, 29, 31, 37]

/-- The loop over the small primes; `none` when it decides nothing. -/
def trialDivision (value : Nat) : List Nat → Option Bool
  | [] => none
  | prime :: rest =>
    if value = prime then some true
    else if value % prime = 0 then some false
    else trialDivision value rest

/-- The loop that halves `d` and counts in `shifts`; a fuel of `d` rounds is enough
(`splitTwos_odd`). -/
def splitTwos : Nat → Nat → Nat → Nat × Nat
  | 0, d, shifts => (d, shifts)
  | fuel + 1, d, shifts =>
    if d % 2 = 0 then splitTwos fuel (d / 2) (shifts + 1) else (d, shifts)

/-- The inner loop of a round: `true` is its `break`, `false` its `else`. -/
def squareUntil (value : Nat) : Nat → Nat → Bool
  | 0, _ => false
  | n + 1, x =>
    let x := x ^ 2 % value
    if x = value - 1 then true else squareUntil value n x

/-- One round with its base: whether the test goes on. -/
def passesBase (value d shifts base : Nat) : Bool :=
  let x := base ^ d % value
  if x = 1 ∨ x = value - 1 then true else squareUntil value (shifts - 1) x

/-- The rounds that are left. -/
def testRounds (value d shifts : Nat) : Nat → σ → Bool × σ
  | 0, s => (true, s)
  | rounds + 1, s =>
    let (base, s) := rng.randrange 2 (value - 2) s
    if passesBase value d shifts base then testRounds value d shifts rounds s else (false, s)

/-- `is_probable_prime`. -/
def isProbablePrime (value : Nat) (s : σ) : Bool × σ :=
  if value < 2 then (false, s)
  else match trialDivision value smallPrimes with
    | some answer => (answer, s)
    | none =>
      let (d, shifts) := splitTwos value (value - 1) 0
      testRounds rng value d shifts millerRabinRounds s

theorem splitTwos_mul (fuel d shifts : Nat) :
    (splitTwos fuel d shifts).1 * 2 ^ (splitTwos fuel d shifts).2 = d * 2 ^ shifts := by
  induction fuel generalizing d shifts with
  | zero => rfl
  | succ fuel ih =>
    rw [splitTwos]
    split
    · next heven =>
      rw [ih, pow_succ', ← mul_assoc, Nat.div_mul_cancel (Nat.dvd_of_mod_eq_zero heven)]
    · rfl

/-- The fuel is enough: the number that is left is odd. -/
theorem splitTwos_odd {fuel d : Nat} (hd : 0 < d) (h : d ≤ fuel) (shifts : Nat) :
    (splitTwos fuel d shifts).1 % 2 = 1 := by
  induction fuel generalizing d shifts with
  | zero => omega
  | succ fuel ih =>
    rw [splitTwos]
    split
    · exact ih (by omega) (by omega) (shifts + 1)
    · next hodd => exact Nat.mod_two_ne_zero.mp hodd

theorem squareUntil_iff {value n x : Nat} :
    squareUntil value n x = true ↔ ∃ j < n, x ^ 2 ^ (j + 1) % value = value - 1 := by
  induction n generalizing x with
  | zero => simp [squareUntil]
  | succ n ih =>
    have hpow : ∀ j, (x ^ 2 % value) ^ 2 ^ j % value = x ^ 2 ^ (j + 1) % value := by
      intro j
      rw [← Nat.pow_mod, ← pow_mul, ← pow_succ']
    simp only [squareUntil]
    split
    · next hx => exact ⟨fun _ => ⟨0, by omega, by simpa using hx⟩, fun _ => rfl⟩
    · next hx =>
      rw [ih]
      constructor
      · rintro ⟨j, hj, h⟩
        exact ⟨j + 1, by omega, by rwa [← hpow]⟩
      · rintro ⟨j, hj, h⟩
        rcases j with - | j
        · exact absurd (by simpa using h) hx
        · exact ⟨j, by omega, by rwa [hpow]⟩

/-- A round never stops at a prime. -/
theorem passesBase_of_prime {p d shifts base : Nat} (hp : p.Prime)
    (hd : d * 2 ^ shifts = p - 1) (hbase : ¬p ∣ base) : passesBase p d shifts base = true := by
  simp only [passesBase]
  split
  · rfl
  · next hx =>
    rw [not_or] at hx
    rcases Residues.strong_of_prime hp hd hbase with h | ⟨i, hi, h⟩
    · exact absurd h hx.1
    · rcases i with - | j
      · exact absurd (by simpa using h) hx.2
      · exact squareUntil_iff.mpr ⟨j, by omega, by rwa [← Nat.pow_mod]⟩

theorem testRounds_of_prime {p d shifts : Nat} (hp : p.Prime) (hd : d * 2 ^ shifts = p - 1)
    (hlarge : 4 < p) (rounds : Nat) (s : σ) : (testRounds rng p d shifts rounds s).1 = true := by
  induction rounds generalizing s with
  | zero => rfl
  | succ rounds ih =>
    have hbase := rng.randrange_mem s (show 2 < p - 2 by omega)
    have hdvd : ¬p ∣ (rng.randrange 2 (p - 2) s).1 :=
      Nat.not_dvd_of_pos_of_lt (by omega) (by omega)
    simp only [testRounds, passesBase_of_prime hp hd hdvd, if_true]
    exact ih _

theorem trialDivision_cases (value : Nat) : ∀ primes : List Nat,
    (trialDivision value primes = some true ∧ value ∈ primes) ∨
    (trialDivision value primes = some false ∧ ∃ prime ∈ primes, value ≠ prime ∧ prime ∣ value) ∨
    (trialDivision value primes = none ∧ ∀ prime ∈ primes, ¬prime ∣ value)
  | [] => .inr (.inr ⟨rfl, by simp⟩)
  | prime :: rest => by
    rw [trialDivision]
    by_cases heq : value = prime
    · exact .inl ⟨if_pos heq, by simp [heq]⟩
    by_cases hdvd : prime ∣ value
    · rw [if_neg heq, if_pos (Nat.mod_eq_zero_of_dvd hdvd)]
      exact .inr (.inl ⟨rfl, prime, by simp, heq, hdvd⟩)
    · rw [if_neg heq, if_neg (mt Nat.dvd_of_mod_eq_zero hdvd)]
      rcases trialDivision_cases value rest with
        ⟨h, hmem⟩ | ⟨h, other, hmem, hother⟩ | ⟨h, hnone⟩
      · exact .inl ⟨h, by simp [hmem]⟩
      · exact .inr (.inl ⟨h, other, by simp [hmem], hother⟩)
      · exact .inr (.inr ⟨h, by simpa [hdvd] using hnone⟩)

theorem prime_of_mem_smallPrimes {p : Nat} (h : p ∈ smallPrimes) : p.Prime := by
  simp only [smallPrimes, List.mem_cons, List.not_mem_nil, or_false] at h
  rcases h with rfl | rfl | rfl | rfl | rfl | rfl | rfl | rfl | rfl | rfl | rfl | rfl <;>
    norm_num

/-- The small primes are all the primes below 41. -/
theorem mem_smallPrimes_of_lt {p : Nat} (hp : p.Prime) (h : p < 41) : p ∈ smallPrimes := by
  interval_cases p <;> first | decide | (revert hp; norm_num)

/-- The test never rejects a prime. -/
theorem isProbablePrime_of_prime {p : Nat} (hp : p.Prime) (s : σ) :
    (isProbablePrime rng p s).1 = true := by
  rw [isProbablePrime, if_neg (by have := hp.two_le; omega)]
  rcases trialDivision_cases p smallPrimes with ⟨h, -⟩ | ⟨-, r, hr, hne, hdvd⟩ | ⟨h, hnone⟩
  · rw [h]
  · exact absurd ((Nat.prime_dvd_prime_iff_eq (prime_of_mem_smallPrimes hr) hp).mp hdvd).symm hne
  · have hlarge : 41 ≤ p := by
      by_contra hsmall
      exact hnone p (mem_smallPrimes_of_lt hp (by omega)) dvd_rfl
    have hd := splitTwos_mul p (p - 1) 0
    rw [pow_zero, mul_one] at hd
    rw [h]
    exact testRounds_of_prime rng hp hd (by omega) millerRabinRounds s

/-- What the test accepts has no small factor, and so below `41 * 41` it is a prime. -/
theorem prime_of_isProbablePrime {value : Nat} {s : σ}
    (h : (isProbablePrime rng value s).1 = true) (hsmall : value < 41 * 41) : value.Prime := by
  rw [isProbablePrime] at h
  split at h
  · cases h
  · next hlow =>
    rcases trialDivision_cases value smallPrimes with ⟨-, hmem⟩ | ⟨hfalse, -⟩ | ⟨-, hnone⟩
    · exact prime_of_mem_smallPrimes hmem
    · rw [hfalse] at h
      cases h
    · by_contra hcomposite
      have hfactor := Nat.minFac_prime (show value ≠ 1 by omega)
      have hle : 41 ≤ value.minFac := by
        by_contra hlt
        exact hnone _ (mem_smallPrimes_of_lt hfactor (by omega)) (Nat.minFac_dvd value)
      have hsq := Nat.minFac_sq_le_self (by omega) hcomposite
      nlinarith

/-! ### The search for a prime -/

/-- `getrandbits` with the first and the last bit set. -/
def drawCandidate (bits : Nat) (s : σ) : Nat × σ :=
  let (candidate, s) := rng.getrandbits bits s
  (candidate ||| (1 <<< (bits - 1) ||| 1), s)

/-- One turn of the loop of `generate_prime`; `none` goes on. -/
def attempt (bits exponent : Nat) (s : σ) : Option Nat × σ :=
  let (candidate, s) := drawCandidate rng bits s
  if Nat.gcd (candidate - 1) exponent ≠ 1 then (none, s)
  else
    let (probable, s) := isProbablePrime rng candidate s
    (if probable then some candidate else none, s)

/-- `generate_prime`, for at most `fuel` turns. -/
def generatePrime (bits exponent : Nat) : Nat → σ → Option (Nat × σ)
  | 0, _ => none
  | fuel + 1, s =>
    match attempt rng bits exponent s with
    | (some candidate, s) => some (candidate, s)
    | (none, s) => generatePrime bits exponent fuel s

/-- The state before turn `k`. -/
def stateAt (bits exponent : Nat) (s : σ) (k : Nat) : σ :=
  (fun s => (attempt rng bits exponent s).2)^[k] s

/-- What a candidate of `bits` bits fulfils. -/
structure IsCandidate (bits exponent p : Nat) : Prop where
  low : 2 ^ (bits - 1) ≤ p
  high : p < 2 ^ bits
  odd : p % 2 = 1
  fits : Nat.gcd (p - 1) exponent = 1

theorem drawCandidate_spec {bits : Nat} (hbits : 0 < bits) (s : σ) :
    2 ^ (bits - 1) ≤ (drawCandidate rng bits s).1 ∧ (drawCandidate rng bits s).1 < 2 ^ bits ∧
      (drawCandidate rng bits s).1 % 2 = 1 := by
  have hdrawn := rng.getrandbits_lt bits s
  have htop : 1 <<< (bits - 1) = 2 ^ (bits - 1) := by rw [Nat.shiftLeft_eq, one_mul]
  have htoplt : 1 <<< (bits - 1) < 2 ^ bits := by
    rw [htop]
    exact Nat.pow_lt_pow_right one_lt_two (by omega)
  refine ⟨?_, ?_, ?_⟩
  · rw [← htop]
    exact Nat.left_le_or.trans Nat.right_le_or
  · exact Nat.or_lt_two_pow hdrawn (Nat.or_lt_two_pow htoplt (Nat.one_lt_two_pow (by omega)))
  · simp [drawCandidate]

/-- One turn returns the candidate it drew, or goes on. -/
theorem attempt_cases (bits exponent : Nat) (s : σ) :
    ((attempt rng bits exponent s).1 = some (drawCandidate rng bits s).1 ∧
      Nat.gcd ((drawCandidate rng bits s).1 - 1) exponent = 1 ∧
      (isProbablePrime rng (drawCandidate rng bits s).1 (drawCandidate rng bits s).2).1 = true) ∨
    ((attempt rng bits exponent s).1 = none ∧
      ((drawCandidate rng bits s).1.Prime →
        Nat.gcd ((drawCandidate rng bits s).1 - 1) exponent ≠ 1)) := by
  simp only [attempt]
  split
  · next hfits => exact .inr ⟨rfl, fun _ => hfits⟩
  · next hfits =>
    rcases hprobable : (isProbablePrime rng (drawCandidate rng bits s).1
      (drawCandidate rng bits s).2).1 with - | -
    · refine .inr ⟨by simp, fun hprime => ?_⟩
      rw [isProbablePrime_of_prime rng hprime] at hprobable
      cases hprobable
    · exact .inl ⟨by simp, not_not.mp hfits, rfl⟩

/-- What the search returns is what one of its turns returned. -/
theorem exists_attempt {bits exponent fuel p : Nat} {s s' : σ}
    (h : generatePrime rng bits exponent fuel s = some (p, s')) :
    ∃ t, (attempt rng bits exponent t).1 = some p := by
  induction fuel generalizing s with
  | zero => cases h
  | succ fuel ih =>
    rw [generatePrime] at h
    split at h
    · next candidate t hturn =>
      obtain ⟨rfl, rfl⟩ := Prod.mk.inj (Option.some.inj h)
      exact ⟨s, by rw [hturn]⟩
    · exact ih h

theorem generatePrime_eq_some {bits exponent fuel p : Nat} {s s' : σ} (hbits : 0 < bits)
    (h : generatePrime rng bits exponent fuel s = some (p, s')) :
    IsCandidate bits exponent p ∧ ∃ t, (isProbablePrime rng p t).1 = true := by
  obtain ⟨t, ht⟩ := exists_attempt rng h
  have hdrawn := drawCandidate_spec rng hbits t
  rcases attempt_cases rng bits exponent t with ⟨hsome, hfits, hprobable⟩ | ⟨hnone, -⟩
  · rw [ht] at hsome
    obtain rfl := Option.some.inj hsome
    exact ⟨⟨hdrawn.1, hdrawn.2.1, hdrawn.2.2, hfits⟩, _, hprobable⟩
  · rw [ht] at hnone
    cases hnone

/-- The search returns at the latest when it draws a prime that fits. -/
theorem exists_generatePrime {bits exponent k : Nat} {s : σ}
    (hprime : (drawCandidate rng bits (stateAt rng bits exponent s k)).1.Prime)
    (hfits : Nat.gcd ((drawCandidate rng bits (stateAt rng bits exponent s k)).1 - 1) exponent = 1)
    {fuel : Nat} (hfuel : k < fuel) :
    (generatePrime rng bits exponent fuel s).isSome := by
  induction k generalizing s fuel with
  | zero =>
    obtain ⟨fuel, rfl⟩ : ∃ n, fuel = n + 1 := ⟨fuel - 1, by omega⟩
    rcases attempt_cases rng bits exponent s with ⟨hsome, -⟩ | ⟨-, hnone⟩
    · rw [generatePrime, ← Prod.mk.eta (p := attempt rng bits exponent s), hsome]
      rfl
    · exact absurd hfits (hnone hprime)
  | succ k ih =>
    obtain ⟨fuel, rfl⟩ : ∃ n, fuel = n + 1 := ⟨fuel - 1, by omega⟩
    rw [generatePrime]
    split
    · rfl
    · next t hturn =>
      have hnext : stateAt rng bits exponent s (k + 1) = stateAt rng bits exponent t k := by
        rw [stateAt, Function.iterate_succ_apply, hturn]
        rfl
      rw [hnext] at hprime hfits
      exact ih hprime hfits (by omega)

/-- A generator that draws 3, 5 and then zeros, and the least base. -/
def threeFive : Random Nat where
  seeded _ := 0
  randrange low _ s := (low, s)
  getrandbits bits s := ([3, 5].getD s 0 % 2 ^ bits, s + 1)
  randrange_mem _ h := ⟨le_refl _, h⟩
  getrandbits_lt bits _ := Nat.mod_lt _ (Nat.two_pow_pos bits)

structure RsaPrivateKey where
  n : Nat
  e : Nat
  d : Nat
  p : Nat
  q : Nat
  dp : Nat
  dq : Nat
  qInv : Nat
  pInv : Nat
  deriving DecidableEq, Repr

/-- `pow(a, -1, m)`. -/
def modInverse (a m : Nat) : Except Exc Nat :=
  if Nat.gcd a m = 1 then .ok (Nat.gcdA a m % m).toNat
  else .error (.valueError "base is not invertible for the given modulus".toList)

/-- What `generate_key` makes of its two primes. -/
def makeKey (p q : Nat) : Except Exc RsaPrivateKey := do
  let phi := (p - 1) * (q - 1)
  let d ← modInverse publicExponent phi
  let qInv ← modInverse q p
  let pInv ← modInverse p q
  return {
    n := p * q
    e := publicExponent
    d := d
    p := p
    q := q
    dp := d % (p - 1)
    dq := d % (q - 1)
    qInv := qInv
    pInv := pInv }

/-- The loop of `generate_key` up to the two primes; each search has the same fuel. -/
def generatePrimes (bits fuel : Nat) : Nat → σ → Option (Nat × Nat)
  | 0, _ => none
  | turns + 1, s =>
    match generatePrime rng (bits / 2) publicExponent fuel s with
    | none => none
    | some (p, s) =>
      match generatePrime rng (bits / 2) publicExponent fuel s with
      | none => none
      | some (q, s) =>
        if p = q then generatePrimes bits fuel turns s
        else if Nat.size (p * q) ≠ bits then generatePrimes bits fuel turns s
        else some (p, q)

/-- `generate_key`. -/
def generateKey (seed : Int) (bits fuel : Nat) : Option (Except Exc RsaPrivateKey) :=
  (generatePrimes rng bits fuel fuel (rng.seeded seed)).map fun primes =>
    makeKey primes.1 primes.2

/-- What a key of `bits` bits is made of. -/
structure RsaPrivateKey.WellFormed (key : RsaPrivateKey) (bits : Nat) : Prop where
  modulus : key.n = key.p * key.q
  size : Nat.size key.n = bits
  exponent : key.e = publicExponent
  distinct : key.p ≠ key.q
  first : IsCandidate (bits / 2) publicExponent key.p
  second : IsCandidate (bits / 2) publicExponent key.q
  private_lt : key.d < (key.p - 1) * (key.q - 1)
  inverse : key.e * key.d ≡ 1 [MOD (key.p - 1) * (key.q - 1)]
  dp : key.dp = key.d % (key.p - 1)
  dq : key.dq = key.d % (key.q - 1)
  qInv_lt : key.qInv < key.p
  qInv : key.q * key.qInv ≡ 1 [MOD key.p]
  pInv_lt : key.pInv < key.q
  pInv : key.p * key.pInv ≡ 1 [MOD key.q]

/-- The three private operations of the analysed libraries: the plain power, and Chinese
remaindering with the inverse of either prime. -/
structure RsaPrivateKey.Undoes (key : RsaPrivateKey) (c m : Nat) : Prop where
  plain : c ^ key.d % key.n = m
  byQInv : Residues.garner key.p key.q key.qInv (c ^ key.dp % key.p) (c ^ key.dq % key.q) = m
  byPInv : Residues.garner key.q key.p key.pInv (c ^ key.dq % key.q) (c ^ key.dp % key.p) = m

theorem modInverse_spec {a m : Nat} (hm : 0 < m) (h : Nat.gcd a m = 1) :
    ∃ x, modInverse a m = .ok x ∧ x < m ∧ a * x ≡ 1 [MOD m] := by
  have hnonneg : 0 ≤ Nat.gcdA a m % (m : Int) := Int.emod_nonneg _ (by omega)
  have hlt : Nat.gcdA a m % (m : Int) < m := Int.emod_lt_of_pos _ (by omega)
  refine ⟨_, if_pos h, by omega, ?_⟩
  rw [← Int.natCast_modEq_iff, Nat.cast_mul, Int.toNat_of_nonneg hnonneg]
  have hbezout := Nat.gcd_eq_gcd_ab a m
  rw [h] at hbezout
  calc (a : Int) * (Nat.gcdA a m % m)
      ≡ a * Nat.gcdA a m [ZMOD m] := (Int.mod_modEq _ _).mul_left _
    _ ≡ a * Nat.gcdA a m + m * Nat.gcdB a m [ZMOD m] := by
      simp [Int.modEq_iff_dvd]
    _ = (1 : Nat) := hbezout.symm

theorem IsCandidate.three_le {bits exponent p : Nat} (h : IsCandidate bits exponent p)
    (hp : p ≠ 1) : 3 ≤ p := by
  have := h.odd
  omega

/-- Two coprime candidates of the right size make a key. -/
theorem exists_makeKey {bits p q : Nat} (hp : IsCandidate (bits / 2) publicExponent p)
    (hq : IsCandidate (bits / 2) publicExponent q) (hp1 : p ≠ 1) (hq1 : q ≠ 1)
    (hpq : p.Coprime q) (hdistinct : p ≠ q) (hsize : Nat.size (p * q) = bits) :
    ∃ key, makeKey p q = .ok key ∧ key.WellFormed bits ∧ key.p = p ∧ key.q = q := by
  have hp3 := hp.three_le hp1
  have hq3 := hq.three_le hq1
  have hphi : 0 < (p - 1) * (q - 1) := Nat.mul_pos (by omega) (by omega)
  have hexponent : Nat.gcd publicExponent ((p - 1) * (q - 1)) = 1 := by
    rw [Nat.gcd_comm]
    exact Nat.Coprime.mul_left hp.fits hq.fits
  obtain ⟨d, hd, hdlt, hinverse⟩ := modInverse_spec hphi hexponent
  obtain ⟨qInv, hqInv, hqlt, hqinverse⟩ := modInverse_spec (by omega) hpq.symm
  obtain ⟨pInv, hpInv, hplt, hpinverse⟩ := modInverse_spec (by omega) hpq
  refine ⟨⟨p * q, publicExponent, d, p, q, d % (p - 1), d % (q - 1), qInv, pInv⟩, ?_, ?_, rfl, rfl⟩
  · simp only [makeKey, hd, hqInv, hpInv]
    rfl
  · exact {
      modulus := rfl
      size := hsize
      exponent := rfl
      distinct := hdistinct
      first := hp
      second := hq
      private_lt := hdlt
      inverse := hinverse
      dp := rfl
      dq := rfl
      qInv_lt := hqlt
      qInv := hqinverse
      pInv_lt := hplt
      pInv := hpinverse }

theorem generatePrimes_eq_some {bits fuel turns p q : Nat} {s : σ} (hbits : 2 ≤ bits)
    (h : generatePrimes rng bits fuel turns s = some (p, q)) :
    IsCandidate (bits / 2) publicExponent p ∧ IsCandidate (bits / 2) publicExponent q ∧
      p ≠ q ∧ Nat.size (p * q) = bits := by
  have hhalf : 0 < bits / 2 := by omega
  induction turns generalizing s with
  | zero => cases h
  | succ turns ih =>
    rw [generatePrimes] at h
    split at h
    · cases h
    · next p' t hp =>
      split at h
      · cases h
      · next q' u hq =>
        split at h
        · exact ih h
        · next hne =>
          split at h
          · exact ih h
          · next hsize =>
            obtain ⟨rfl, rfl⟩ := Prod.mk.inj (Option.some.inj h)
            exact ⟨(generatePrime_eq_some rng hhalf hp).1, (generatePrime_eq_some rng hhalf hq).1,
              hne, not_not.mp hsize⟩

theorem one_le_of_modEq_one {k m : Nat} (hm : 1 < m) (h : k ≡ 1 [MOD m]) : 1 ≤ k := by
  by_contra hzero
  rw [show k = 0 by omega, Nat.ModEq, Nat.zero_mod, Nat.mod_eq_of_lt hm] at h
  omega

/-- One half of the Chinese remaindering. -/
theorem pow_mod_half {e d r n c m : Nat} (hr : r.Prime) (hr3 : 3 ≤ r) (hdvd : r ∣ n)
    (hinverse : e * d ≡ 1 [MOD r - 1]) (hplain : c ^ d % n = m) :
    c ^ (d % (r - 1)) % r = m % r := by
  have hreduced : e * (d % (r - 1)) ≡ 1 [MOD r - 1] :=
    ((Nat.mod_modEq d (r - 1)).mul_left e).trans hinverse
  have hone : 1 ≤ d % (r - 1) :=
    Nat.pos_of_mul_pos_left (one_le_of_modEq_one (by omega) hreduced)
  rw [Residues.pow_mod_pred hr hone, ← hplain, Nat.mod_mod_of_dvd _ hdvd]

/-- The private operations undo encryption, where both factors are primes. -/
theorem RsaPrivateKey.WellFormed.undoes {key : RsaPrivateKey} {bits : Nat}
    (h : key.WellFormed bits) (hp : key.p.Prime) (hq : key.q.Prime) {m : Nat} (hm : m < key.n) :
    key.Undoes (m ^ key.e % key.n) m := by
  have hp3 := h.first.three_le hp.ne_one
  have hq3 := h.second.three_le hq.ne_one
  have hphi : 1 < (key.p - 1) * (key.q - 1) :=
    Nat.one_lt_mul_iff.mpr ⟨by omega, by omega, .inl (by omega)⟩
  have hplain : (m ^ key.e % key.n) ^ key.d % key.n = m := by
    rw [← Nat.pow_mod, ← pow_mul, h.modulus]
    exact Residues.pow_mod_of_modEq_one hp hq h.distinct (one_le_of_modEq_one hphi h.inverse)
      h.inverse (h.modulus ▸ hm)
  have hhalfp := pow_mod_half hp hp3 (h.modulus ▸ Nat.dvd_mul_right _ _)
    (h.inverse.of_mul_right _) hplain
  have hhalfq := pow_mod_half hq hq3 (h.modulus ▸ Nat.dvd_mul_left _ _)
    (h.inverse.of_mul_left _) hplain
  rw [← h.dp] at hhalfp
  rw [← h.dq] at hhalfq
  have hcoprime := (Nat.coprime_primes hp hq).mpr h.distinct
  rw [h.modulus] at hm
  exact {
    plain := hplain
    byQInv := by
      rw [hhalfp, hhalfq]
      exact Residues.garner_mod hp.pos hq.pos hcoprime h.qInv hm
    byPInv := by
      rw [hhalfp, hhalfq]
      exact Residues.garner_mod hq.pos hp.pos hcoprime.symm h.pInv (mul_comm key.p key.q ▸ hm) }

/-- The key of two primes: it is made without an error, it is well formed, and each private
operation undoes encryption on every residue. -/
theorem generated_key {σ : Type} (rng : Random σ) {seed : Int} {bits fuel p q : Nat}
    (hbits : 2 ≤ bits)
    (h : generatePrimes rng bits fuel fuel (rng.seeded seed) = some (p, q)) (hp : p.Prime)
    (hq : q.Prime) :
    ∃ key, generateKey rng seed bits fuel = some (.ok key) ∧ key.WellFormed bits ∧
      key.p = p ∧ key.q = q ∧ ∀ m < key.n, key.Undoes (m ^ key.e % key.n) m := by
  obtain ⟨hcandp, hcandq, hdistinct, hsize⟩ := generatePrimes_eq_some rng hbits h
  obtain ⟨key, hkey, hwell, rfl, rfl⟩ := exists_makeKey hcandp hcandq hp.ne_one hq.ne_one
    ((Nat.coprime_primes hp hq).mpr hdistinct) hdistinct hsize
  refine ⟨key, ?_, hwell, rfl, rfl, fun m hm => hwell.undoes hp hq hm⟩
  rw [generateKey, h, Option.map_some, hkey]

theorem generated_key_143 :
    ∃ key, generateKey threeFive 1 8 2 = some (.ok key) ∧ key.WellFormed 8 ∧ key.p = 11 ∧
      key.q = 13 ∧ ∀ m < key.n, key.Undoes (m ^ key.e % key.n) m :=
  generated_key threeFive (by omega) (by decide +kernel) (by norm_num) (by norm_num)

/-! ### The key as bytes -/

/-- `i2osp`. -/
def i2osp (value length : Nat) : Except Exc (List UInt8) :=
  if 1 <<< (8 * length) ≤ value then
    .error (.valueError ("integer does not fit in ".toList ++ decimal length ++ " bytes".toList))
  else .ok (packBytes .big length value)

/-- The names, values and sizes that `key_bytes` passes to `i2osp`. -/
def keyFields (key : RsaPrivateKey) : List (Text × Nat × Nat) :=
  [("RSA_N_BYTES".toList, key.n, 128),
   ("RSA_P_BYTES".toList, key.p, 64),
   ("RSA_Q_BYTES".toList, key.q, 64),
   ("RSA_D_BYTES".toList, key.d, 128),
   ("RSA_DP_BYTES".toList, key.dp, 64),
   ("RSA_DQ_BYTES".toList, key.dq, 64),
   ("RSA_QP_BYTES".toList, key.qInv, 64),
   ("RSA_IQ_BYTES".toList, key.qInv, 64),
   ("RSA_U_BYTES".toList, key.pInv, 64),
   ("RSA_E_BYTES".toList, key.e, 3)]

def encodeField (field : Text × Nat × Nat) : Except Exc (Text × List UInt8) := do
  let bytes ← i2osp field.2.1 field.2.2
  return (field.1, bytes)

/-- `key_bytes`. -/
def keyBytes (key : RsaPrivateKey) : Except Exc (List (Text × List UInt8)) :=
  (keyFields key).mapM encodeField

theorem i2osp_eq_ok_iff {value length : Nat} {bytes : List UInt8} :
    i2osp value length = .ok bytes ↔ value < 256 ^ length ∧ bytes = packBytes .big length value := by
  have hpow : 1 <<< (8 * length) = 256 ^ length := by
    rw [Nat.shiftLeft_eq, one_mul, pow_mul]
    norm_num
  unfold i2osp
  rw [hpow]
  split
  · next h => simp [show ¬value < 256 ^ length by omega]
  · next h => simp [show value < 256 ^ length by omega, eq_comm]

theorem exists_keyBytes : ∀ {fields : List (Text × Nat × Nat)},
    (∀ field ∈ fields, field.2.1 < 256 ^ field.2.2) →
    ∃ table, fields.mapM encodeField = .ok table ∧
      table.map (fun entry => (entry.1, fromBytes .big entry.2, entry.2.length)) = fields
  | [], _ => ⟨[], rfl, rfl⟩
  | field :: fields, h => by
    rw [List.forall_mem_cons] at h
    obtain ⟨table, htable, hback⟩ := exists_keyBytes h.2
    refine ⟨(field.1, packBytes .big field.2.2 field.2.1) :: table, ?_, ?_⟩
    · rw [List.mapM_cons, htable, encodeField, i2osp_eq_ok_iff.mpr ⟨h.1, rfl⟩]
      rfl
    · rw [List.map_cons, hback, fromBytes_packBytes h.1, packBytes_length]

end KleeDeps.Utilities
