import KleeDeps.Converters.Delivery
import KleeDeps.Converters.SecretLayout

/-!
# The seed of a secret

A preset gives every ABACUS secret a seed. The generator writes its bytes into the header that is
compiled into the binary (`normalizePresetBytes`), the converter reads them again
(`valueToBytes`), stores them as a number, and the replay unpacks the number.

- `valueToBytes_rejects`: what the generator rejects the converter rejects;
- `seed_replayed`: **the bytes of the header are those of the replay**, as long as the number may
  be printed.
-/

namespace KleeDeps.Converters

open Py Runner Replay

section Seed

variable {repr : Value → Text} {label : Text} {size : Nat} {value : Value}

theorem readByte_error {e : Exc} (h : readByte repr label value = .error e) :
    ∃ e', seedByte value = .error e' := by
  rw [readByte] at h
  rw [seedByte]
  cases hb : value.asInt? with
  | none => exact ⟨_, rfl⟩
  | some b =>
    rw [hb] at h
    dsimp only at h ⊢
    by_cases hrange : b < 0 ∨ 255 < b
    · rw [if_pos hrange]
      exact ⟨_, rfl⟩
    · rw [if_neg hrange] at h
      cases h

/-- A list with a byte that the generator rejects. -/
theorem mapM_seedByte_error {values : List Value} {e : Exc}
    (h : values.mapM (readByte repr label) = .error e) :
    ∃ e', values.mapM seedByte = .error e' := by
  cases hs : values.mapM seedByte with
  | error e' => exact ⟨e', rfl⟩
  | ok bytes =>
    -- were all bytes read by the converter, the generator would have read them
    have hall := Sequence.mapM_eq_ok_iff.mp hs
    have hread : values.mapM (readByte repr label) = .ok bytes := by
      refine Sequence.mapM_eq_ok_iff.mpr (hall.imp fun v b hv => ?_)
      cases hr : readByte repr label v with
      | error e'' =>
        obtain ⟨e', he'⟩ := readByte_error hr
        rw [hv] at he'
        cases he'
      | ok b' =>
        have hb' := seedByte_of_readByte hr
        rw [hv] at hb'
        rw [Except.ok.inj hb']
    rw [h] at hread
    cases hread

/-- **What the generator rejects with a message the converter rejects.** -/
theorem valueToBytes_rejects {message : Text} (hpos : 0 < size)
    (h : normalizePresetBytes repr label size value = die message) :
    ∃ e, valueToBytes repr value size = .error e := by
  unfold normalizePresetBytes at h
  unfold valueToBytes
  cases hint : value.asInt? with
  | some v =>
    rw [hint] at h
    dsimp only at h ⊢
    -- `int.to_bytes` raises on exactly the integers that the two explicit checks refuse
    have hnone : v < 0 ∨ 1 <<< (size * 8) ≤ v.toNat → toBytes .big size v = none := by
      intro hout
      refine if_neg fun hfits => ?_
      obtain ⟨-, hlow, hhigh⟩ := hfits
      have hlt : v.toNat < 256 ^ size := by
        have hcast : ((v.toNat : Nat) : Int) < ((256 ^ size : Nat) : Int) := by
          push_cast
          omega
        exact_mod_cast hcast
      rw [Nat.one_shiftLeft, Nat.mul_comm, Nat.pow_mul, show 2 ^ 8 = 256 from rfl] at hout
      omega
    split at h
    · next hneg =>
      rw [hnone (.inl hneg)]
      exact ⟨_, rfl⟩
    · split at h
      · cases h
      · split at h
        · next hlarge =>
          rw [hnone (.inr hlarge)]
          exact ⟨_, rfl⟩
        · cases h
  | none =>
    rw [hint] at h
    dsimp only at h ⊢
    cases value with
    | list values =>
      show ∃ e, (if values.length ≠ size then _ else values.mapM seedByte) = .error e
      -- a list of the wrong length is refused on both sides, before any entry is read by the second
      by_cases hlength : values.length ≠ size
      · rw [if_pos hlength]
        exact ⟨_, rfl⟩
      · rw [if_neg hlength]
        cases values with
        | nil => exact absurd (not_not.mp hlength) (Nat.ne_of_lt hpos)
        | cons first rest =>
          dsimp only at h
          cases hread : (first :: rest).mapM (readByte repr label) with
          | error e => exact mapM_seedByte_error hread
          | ok bytes =>
            rw [hread] at h
            have hsame := (Sequence.mapM_eq_ok_iff.mp hread).length_eq
            change (if bytes.length ≠ size then _ else _) = _ at h
            rw [← hsame, if_neg hlength] at h
            cases h
    | null | bool | int | float | str | dict => exact ⟨_, rfl⟩

/-- A number that fits is compiled into the binary as its big-endian bytes. -/
theorem normalizePresetBytes_int {v : Nat} (hsize : size * 8 ≤ maxSize) (h : v < 256 ^ size) :
    normalizePresetBytes repr label size (.int (v : Int)) = .ok (packBytes .big size v) := by
  have hfits : ¬1 <<< (size * 8) ≤ v := by
    rw [Nat.one_shiftLeft, Nat.mul_comm, Nat.pow_mul, show 2 ^ 8 = 256 from rfl]
    omega
  unfold normalizePresetBytes
  dsimp only [Value.asInt?]
  rw [if_neg (by omega), if_neg (by omega), Int.toNat_natCast, if_neg hfits,
    map_shift_eq_packBytes]

theorem printValue_of_not_printable {limit v : Nat} (h : ¬Printable limit v) :
    ∃ e, printValue limit (v : Int) = .error e := by
  rw [Printable, not_or, Nat.not_le] at h
  have hstr : strInt limit (v : Int) = .error .exceedsLimit := if_pos h
  exact ⟨_, by rw [printValue, hstr]⟩

/-- **The seed in the binary is the seed of the replay.** Whatever the generator accepts for a
secret, the converter reads as the same bytes; stored as a number, printed into the specification
and unpacked they are these bytes again, if the digit limit lets the number through. -/
theorem seed_replayed (hpos : 0 < size) (hsize : size ≤ maxSize) :
    (∀ bytes, normalizePresetBytes repr label size value = .ok bytes →
      valueToBytes repr value size = .ok bytes ∧
      ∀ (limit : Nat) (name : Text) (prime : List UInt8) (symSize : Int), ValidLimit limit →
        isIdentifier name = true → prime.length = size → Printable limit (bytesToInt bytes) →
        Printable limit (bytesToInt prime) →
        ∃ c r, buildCounterexamples [⟨name, bytes⟩] ⟨prime, []⟩ = .ok c ∧
          c.get? name = some (bytesToInt bytes : Int) ∧
          abacusInputs limit [⟨name, bytes⟩] c symSize = .ok (some r) ∧
          r.secretOrig.items = [(name, bytes)]) ∧
    ∀ message, normalizePresetBytes repr label size value = die message →
      ∃ e, valueToBytes repr value size = .error e := by
  refine ⟨fun bytes h => ?_, fun message h => valueToBytes_rejects hpos h⟩
  obtain ⟨hread, hlength⟩ := valueToBytes_of_normalize h
  refine ⟨hread, fun limit name prime symSize hlimit hname hprime hbytes hprimes => ?_⟩
  -- one input: its prime name is longer than its own name, so the two cannot clash
  have hnames : DistinctNames ([⟨name, bytes⟩].map AbacusSecret.name) := by
    refine ⟨List.nodup_singleton _, fun n hn m hm heq => ?_⟩
    rw [List.map_singleton, List.mem_singleton] at hn hm
    have hlong := congrArg List.length heq
    rw [hn, hm, primeName, List.length_append] at hlong
    have : "__prime".toList.length = 7 := rfl
    omega
  have htotal : prime.length = totalSize [⟨name, bytes⟩] := by
    rw [hprime, ← hlength]
    exact (Nat.add_zero _).symm
  have hbuild : buildCounterexamples [⟨name, bytes⟩] ⟨prime, []⟩ =
      .ok (assignBytes prime 0 .empty [⟨name, bytes⟩]) := by
    rw [buildCounterexamples, if_neg (by simp), counterexamplesFromBytes,
      if_neg (not_not.mpr htotal)]
  -- the whole of `prime` belongs to the only input
  have hcut : ∀ s ∈ cut [⟨name, bytes⟩] prime, s = ⟨name, bytes, prime⟩ := by
    intro s hs
    rw [cut, cut, List.mem_singleton] at hs
    rw [hs]
    congr 1
    exact List.take_of_length_le (by rw [hprime]; exact hlength.ge)
  have hholds := holdsDivergent hnames hbuild
  obtain ⟨result, hresult, hdelivers⟩ := abacusInputs_delivers (a := ⟨prime, []⟩) hlimit hnames
    (fun entry hentry => by
      rw [List.mem_singleton.mp hentry]
      show isIdentifier name = true ∧ 0 < bytes.length ∧ bytes.length ≤ maxSize
      exact ⟨hname, by omega, by omega⟩)
    hbuild
    (fun s hs => by
      rw [hcut s hs]
      exact ⟨bytesToInt_eq bytes ▸ hbytes, bytesToInt_eq prime ▸ hprimes⟩)
    (fun hreserved => by
      have hbase := List.mem_singleton.mp hreserved.1
      have hmod := List.mem_singleton.mp hreserved.2
      exact absurd (hbase.trans hmod.symm) (by decide))
    symSize
  rcases hdelivers with ⟨hnone, -, -⟩ | ⟨r, hr, horig, -, -⟩
  · cases hnone
  · refine ⟨_, r, hbuild, ?_, hr ▸ hresult, horig⟩
    have hsecret := (hholds.holds ⟨name, bytes, prime.take bytes.length⟩
      List.mem_cons_self).1
    rw [bytesToInt_eq]
    exact hsecret

theorem seed_replayed_key :
    valueToBytes (fun _ => []) (.int 258) 2 = .ok [1, 2] ∧
      (∃ c r, buildCounterexamples [⟨"key".toList, [1, 2]⟩] ⟨[0, 0], []⟩ = .ok c ∧
        c.get? "key".toList = some 258 ∧
        abacusInputs 4300 [⟨"key".toList, [1, 2]⟩] c 2 = .ok (some r) ∧
        r.secretOrig.items = [("key".toList, [1, 2])]) ∧
      ∃ e, valueToBytes (fun _ => []) (.int 65536) 2 = .error e := by
  have hfits := (@seed_replayed (fun _ => []) [] 2 (.int 258) (by decide) (by decide)).1
    [1, 2] (by decide)
  have hlarge := (@seed_replayed (fun _ => []) [] 2 (.int 65536) (by decide) (by decide)).2
  refine ⟨hfits.1, ?_, hlarge _ rfl⟩
  exact hfits.2 4300 "key".toList [0, 0] 2 (Or.inr (by decide)) (by decide) rfl
    (Or.inr (by decide)) (Or.inr (by decide))

/-- `10 ^ 100000` is accepted for a secret of `100000` bytes, and has one digit more than may be
printed. -/
theorem seed_unprintable : ∃ bytes,
    normalizePresetBytes (fun _ => []) [] 100000 (.int ((10 ^ 100000 : Nat) : Int)) = .ok bytes ∧
      ∃ e, printValue 100000 (bytesToInt bytes : Int) = .error e := by
  have hlt : 10 ^ 100000 < 256 ^ 100000 := Nat.pow_lt_pow_left (by decide) (by decide)
  refine ⟨_, normalizePresetBytes_int (by decide) hlt, ?_⟩
  rw [bytesToInt_eq, fromBytes_packBytes hlt]
  refine printValue_of_not_printable fun h => ?_
  rcases h with h | h
  · cases h
  · rw [decimal, Nat.length_toDigits_le_iff (by decide) (by decide)] at h
    exact Nat.lt_irrefl _ h

end Seed

end KleeDeps.Converters
