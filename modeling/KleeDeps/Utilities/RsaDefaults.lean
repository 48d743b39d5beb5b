import Mathlib.Data.Int.Bitwise
import Mathlib.NumberTheory.LucasPrimality
import Mathlib.Tactic.ReduceModChar
import KleeDeps.Data.Sequence
import KleeDeps.Utilities.RsaKey

/-!
# The RSA stage defaults

`tools/utilities/generate_rsa_stage_defaults.py` from the key on: the paddings, the encryption and
the five defaults. The two hash functions of `hashlib` are parameters.

The decoders (`unpadPkcs1V15`, `unpadSslv23`, `unpadOaep`) are not in the source. They say what a
decryption routine has to find, and each encoder is related to its own: `encodePkcs1V15_cases`,
`encodeSslv23_cases`, `encodeOaep_cases`. With the key of `RsaKey` this gives
`defaults_recovered`: when defaults exist, and that decrypting and unpadding any of them gives its
message back.
-/

namespace KleeDeps.Utilities

open Py

variable {σ : Type} (rng : Random σ)

/-! ### Drawn bytes -/

/-- `length` draws of `randrange(low, 256)`. -/
def drawBytes (low : Nat) : Nat → σ → List UInt8 × σ
  | 0, s => ([], s)
  | length + 1, s =>
    let (value, s) := rng.randrange low 256 s
    let (rest, s) := drawBytes low length s
    (UInt8.ofNat value :: rest, s)

/-- `deterministic_bytes`. -/
def deterministicBytes : Nat → σ → List UInt8 × σ := drawBytes rng 0

/-- `deterministic_nonzero_bytes`. -/
def deterministicNonzeroBytes : Nat → σ → List UInt8 × σ := drawBytes rng 1

@[simp] theorem drawBytes_length (low length : Nat) (s : σ) :
    (drawBytes rng low length s).1.length = length := by
  induction length generalizing s with
  | zero => rfl
  | succ length ih => simp [drawBytes, ih]

theorem ne_zero_of_mem_drawBytes {length : Nat} {s : σ} {b : UInt8}
    (h : b ∈ (drawBytes rng 1 length s).1) : b ≠ 0 := by
  induction length generalizing s with
  | zero => simp [drawBytes] at h
  | succ length ih =>
    simp only [drawBytes, List.mem_cons] at h
    rcases h with rfl | h
    · have hdraw := rng.randrange_mem s (show 1 < 256 by omega)
      intro hzero
      have hmod : (rng.randrange 1 256 s).1 % 2 ^ 8 = 0 := by
        rw [← UInt8.toNat_ofNat', ← UInt8.toNat_zero]
        exact congrArg UInt8.toNat hzero
      omega
    · exact ih h

/-! ### The paddings -/

/-- A hash function of `hashlib`, with its `digest_size`. -/
structure Hash where
  name : Text
  digestSize : Nat
  digest : List UInt8 → List UInt8
  length_digest : ∀ message, (digest message).length = digestSize
  digestSize_pos : 0 < digestSize

/-- The loop of `mgf1`, on its counter and its output. -/
def maskLoop (hash : Hash) (seed : List UInt8) (length counter : Nat) (output : List UInt8) :
    List UInt8 :=
  if output.length < length then
    maskLoop hash seed length (counter + 1)
      (output ++ hash.digest (seed ++ packBytes .big 4 counter))
  else output
termination_by length - output.length
decreasing_by
  rw [List.length_append, hash.length_digest]
  have := hash.digestSize_pos
  omega

/-- `mgf1`. -/
def mgf1 (hash : Hash) (seed : List UInt8) (length : Nat) : List UInt8 :=
  (maskLoop hash seed length 0 []).take length

/-- `xor_bytes`, with the error of a strict `zip`. -/
def xorBytes (left right : List UInt8) : Except Exc (List UInt8) :=
  if left.length = right.length then .ok (List.zipWith (· ^^^ ·) left right)
  else .error (.valueError "zip() argument 2 has another length than argument 1".toList)

/-- `encode_pkcs1_v15`. -/
def encodePkcs1V15 (message : List UInt8) (keyBytes : Nat) (s : σ) :
    Except Exc (List UInt8 × σ) :=
  let psLen : Int := keyBytes - message.length - 3
  if psLen < 8 then .error (.valueError "PKCS#1 v1.5 message is too long".toList)
  else
    let (ps, s) := deterministicNonzeroBytes rng psLen.toNat s
    .ok ([0x00, 0x02] ++ ps ++ [0x00] ++ message, s)

/-- `encode_sslv23`. -/
def encodeSslv23 (message : List UInt8) (keyBytes : Nat) (s : σ) :
    Except Exc (List UInt8 × σ) :=
  let psLen : Int := keyBytes - message.length - 3
  if psLen < 8 then .error (.valueError "SSLv23 message is too long".toList)
  else
    let (ps, s) := deterministicNonzeroBytes rng (psLen - 8).toNat s
    .ok ([0x00, 0x02] ++ ps ++ List.replicate 8 0x03 ++ [0x00] ++ message, s)

/-- `encode_oaep`. -/
def encodeOaep (hash : Hash) (message : List UInt8) (keyBytes : Nat) (s : σ) :
    Except Exc (List UInt8 × σ) :=
  let digestLen := hash.digestSize
  if (keyBytes : Int) - 2 * digestLen - 2 < message.length then
    .error (.valueError ("OAEP-".toList ++ hash.name ++ " message is too long".toList))
  else do
    let labelHash := hash.digest []
    let ps := List.replicate (keyBytes - message.length - 2 * digestLen - 2) 0x00
    let db := labelHash ++ ps ++ [0x01] ++ message
    let (seed, s) := deterministicBytes rng digestLen s
    let dbMask := mgf1 hash seed (keyBytes - digestLen - 1)
    let maskedDb ← xorBytes db dbMask
    let seedMask := mgf1 hash maskedDb digestLen
    let maskedSeed ← xorBytes seed seedMask
    return ([0x00] ++ maskedSeed ++ maskedDb, s)

/-- `encode_raw`. -/
def encodeRaw (message : List UInt8) (key : RsaPrivateKey) (keyBytes : Nat) :
    Except Exc (List UInt8) :=
  let value := fromBytes .big message % key.n
  let value := if value = 0 then 1 else value
  i2osp value keyBytes

/-- `encrypt_encoded`. -/
def encryptEncoded (encoded : List UInt8) (key : RsaPrivateKey) (keyBytes : Nat) :
    Except Exc (List UInt8) :=
  let encodedValue := fromBytes .big encoded
  if key.n ≤ encodedValue then
    .error (.valueError "encoded representative is outside the RSA modulus".toList)
  else i2osp (encodedValue ^ key.e % key.n) keyBytes

/-! ### What a decryption routine finds -/

/-- The message behind `00 02`, at least eight bytes that are not zero, and a zero. -/
def unpadPkcs1V15 : List UInt8 → Option (List UInt8)
  | 0x00 :: 0x02 :: rest =>
    match rest.dropWhile (· ≠ 0) with
    | _ :: message => if 8 ≤ (rest.takeWhile (· ≠ 0)).length then some message else none
    | [] => none
  | _ => none

/-- The same, where the last eight bytes before the zero are `03`. -/
def unpadSslv23 : List UInt8 → Option (List UInt8)
  | 0x00 :: 0x02 :: rest =>
    match rest.dropWhile (· ≠ 0) with
    | _ :: message =>
      if List.replicate 8 0x03 <:+ rest.takeWhile (· ≠ 0) then some message else none
    | [] => none
  | _ => none

/-- The message behind the label hash, zeros and a one, once both masks are taken off. -/
def unpadOaep (hash : Hash) : List UInt8 → Option (List UInt8)
  | 0x00 :: masked =>
    let maskedSeed := masked.take hash.digestSize
    let maskedDb := masked.drop hash.digestSize
    let seed := List.zipWith (· ^^^ ·) maskedSeed (mgf1 hash maskedDb hash.digestSize)
    let db := List.zipWith (· ^^^ ·) maskedDb (mgf1 hash seed maskedDb.length)
    if hash.digest [] <+: db then
      match (db.drop hash.digestSize).dropWhile (· = 0) with
      | 0x01 :: message => some message
      | _ => none
    else none
  | _ => none

theorem maskLoop_length (hash : Hash) (seed : List UInt8) (length counter : Nat)
    (output : List UInt8) : length ≤ (maskLoop hash seed length counter output).length := by
  fun_induction maskLoop hash seed length counter output with
  | case1 counter output hlt ih => exact ih
  | case2 counter output hlt => omega

@[simp] theorem mgf1_length (hash : Hash) (seed : List UInt8) (length : Nat) :
    (mgf1 hash seed length).length = length := by
  rw [mgf1, List.length_take]
  exact Nat.min_eq_left (maskLoop_length hash seed length 0 [])

/-- Taking a mask off again. -/
theorem zipWith_xor_xor : ∀ {left mask : List UInt8}, left.length = mask.length →
    List.zipWith (· ^^^ ·) (List.zipWith (· ^^^ ·) left mask) mask = left
  | [], [], _ => rfl
  | [], _ :: _, h => by simp at h
  | _ :: _, [], h => by simp at h
  | a :: left, b :: mask, h => by
    rw [List.zipWith_cons_cons, List.zipWith_cons_cons,
      zipWith_xor_xor (Nat.succ.inj h), UInt8.xor_assoc, UInt8.xor_self, UInt8.xor_zero]

theorem xorBytes_of_length (left right : List UInt8) (h : left.length = right.length) :
    xorBytes left right = .ok (List.zipWith (· ^^^ ·) left right) := if_pos h

/-- An encoded block: as long as the modulus, led by a zero, and with its message in it. -/
structure Encodes (unpad : List UInt8 → Option (List UInt8)) (keyBytes : Nat)
    (message encoded : List UInt8) : Prop where
  length : encoded.length = keyBytes
  head : encoded.head? = some 0
  unpad : unpad encoded = some message

theorem dropWhile_padding {p : UInt8 → Bool} {ps : List UInt8} {b : UInt8}
    (hps : ∀ a ∈ ps, p a) (hb : p b = false) (message : List UInt8) :
    (ps ++ b :: message).takeWhile p = ps ∧ (ps ++ b :: message).dropWhile p = b :: message := by
  rw [List.takeWhile_append_of_pos hps, List.dropWhile_append_of_pos hps,
    List.takeWhile_cons, List.dropWhile_cons, hb]
  simp

theorem encodePkcs1V15_cases (message : List UInt8) (keyBytes : Nat) (s : σ) :
    (message.length + 11 ≤ keyBytes ∧ ∃ encoded s',
      encodePkcs1V15 rng message keyBytes s = .ok (encoded, s') ∧
      Encodes unpadPkcs1V15 keyBytes message encoded) ∨
    (keyBytes < message.length + 11 ∧ ∃ e, encodePkcs1V15 rng message keyBytes s = .error e) := by
  simp only [encodePkcs1V15]
  split
  · exact .inr ⟨by omega, _, rfl⟩
  · next hlen =>
    refine .inl ⟨by omega, _, _, rfl, ?_⟩
    have hne : ∀ b ∈ (deterministicNonzeroBytes rng
        ((keyBytes : Int) - message.length - 3).toNat s).1, decide (b ≠ 0) = true :=
      fun b hb => decide_eq_true (ne_zero_of_mem_drawBytes rng hb)
    obtain ⟨htake, hdrop⟩ := dropWhile_padding hne
      (show decide ((0 : UInt8) ≠ 0) = false by decide) message
    refine ⟨by simp [deterministicNonzeroBytes]; omega, rfl, ?_⟩
    simp only [List.cons_append, List.nil_append, List.append_assoc, unpadPkcs1V15, htake, hdrop]
    rw [if_pos]
    simp only [deterministicNonzeroBytes, drawBytes_length]
    omega

theorem encodeSslv23_cases (message : List UInt8) (keyBytes : Nat) (s : σ) :
    (message.length + 11 ≤ keyBytes ∧ ∃ encoded s',
      encodeSslv23 rng message keyBytes s = .ok (encoded, s') ∧
      Encodes unpadSslv23 keyBytes message encoded) ∨
    (keyBytes < message.length + 11 ∧ ∃ e, encodeSslv23 rng message keyBytes s = .error e) := by
  simp only [encodeSslv23]
  split
  · exact .inr ⟨by omega, _, rfl⟩
  · next hlen =>
    refine .inl ⟨by omega, _, _, rfl, ?_⟩
    have hne : ∀ b ∈ (deterministicNonzeroBytes rng
        ((keyBytes : Int) - message.length - 3 - 8).toNat s).1 ++ List.replicate 8 0x03,
        decide (b ≠ 0) = true := by
      intro b hb
      apply decide_eq_true
      rcases List.mem_append.mp hb with hb | hb
      · exact ne_zero_of_mem_drawBytes rng hb
      · rw [List.eq_of_mem_replicate hb]
        decide
    obtain ⟨htake, hdrop⟩ := dropWhile_padding hne
      (show decide ((0 : UInt8) ≠ 0) = false by decide) message
    refine ⟨by simp [deterministicNonzeroBytes]; omega, rfl, ?_⟩
    simp only [List.cons_append, List.nil_append, unpadSslv23]
    rw [List.append_assoc _ [0] message, List.singleton_append, htake, hdrop]
    exact if_pos (List.suffix_append _ _)

/-- The data block of OAEP, found again. -/
def messageOfBlock (hash : Hash) (db : List UInt8) : Option (List UInt8) :=
  if hash.digest [] <+: db then
    match (db.drop hash.digestSize).dropWhile (· = 0) with
    | 0x01 :: message => some message
    | _ => none
  else none

/-- Both masks come off again: the seed's is made of the masked block, the block's of the seed. -/
theorem unpadOaep_masked {hash : Hash} {seed db : List UInt8}
    (hseed : seed.length = hash.digestSize) {maskedSeed maskedDb : List UInt8}
    (hmaskedDb : maskedDb = List.zipWith (· ^^^ ·) db (mgf1 hash seed db.length))
    (hmaskedSeed : maskedSeed =
      List.zipWith (· ^^^ ·) seed (mgf1 hash maskedDb hash.digestSize)) :
    unpadOaep hash ([0x00] ++ maskedSeed ++ maskedDb) = messageOfBlock hash db := by
  have hlenDb : maskedDb.length = db.length := by simp [hmaskedDb]
  have hlenSeed : maskedSeed.length = hash.digestSize := by simp [hmaskedSeed, hseed]
  have htake : (maskedSeed ++ maskedDb).take hash.digestSize = maskedSeed := by
    rw [← hlenSeed, List.take_left]
  have hdrop : (maskedSeed ++ maskedDb).drop hash.digestSize = maskedDb := by
    rw [← hlenSeed, List.drop_left]
  have hunseed : List.zipWith (· ^^^ ·) maskedSeed (mgf1 hash maskedDb hash.digestSize) = seed := by
    rw [hmaskedSeed, zipWith_xor_xor (by rw [hseed, mgf1_length])]
  have hundb : List.zipWith (· ^^^ ·) maskedDb (mgf1 hash seed maskedDb.length) = db := by
    rw [hlenDb, hmaskedDb, zipWith_xor_xor (by rw [mgf1_length])]
  simp only [List.cons_append, List.nil_append, unpadOaep, htake, hdrop, hunseed, hundb]
  rfl

theorem messageOfBlock_block (hash : Hash) (zeros : Nat) (message : List UInt8) :
    messageOfBlock hash
      (hash.digest [] ++ List.replicate zeros 0x00 ++ [0x01] ++ message) = some message := by
  have hrest : hash.digest [] ++ List.replicate zeros 0x00 ++ [0x01] ++ message =
      hash.digest [] ++ (List.replicate zeros 0x00 ++ 0x01 :: message) := by simp
  have hzeros : ∀ b ∈ List.replicate zeros (0x00 : UInt8), decide (b = 0) = true := fun b hb =>
    decide_eq_true (List.eq_of_mem_replicate hb)
  obtain ⟨-, hdrop⟩ := dropWhile_padding hzeros (show decide ((0x01 : UInt8) = 0) = false by decide)
    message
  rw [hrest, messageOfBlock, if_pos (List.prefix_append _ _), List.drop_left' (hash.length_digest []),
    hdrop]
  rfl

theorem encodeOaep_cases (hash : Hash) (message : List UInt8) (keyBytes : Nat) (s : σ) :
    (message.length + 2 * hash.digestSize + 2 ≤ keyBytes ∧ ∃ encoded s',
      encodeOaep rng hash message keyBytes s = .ok (encoded, s') ∧
      Encodes (unpadOaep hash) keyBytes message encoded) ∨
    (keyBytes < message.length + 2 * hash.digestSize + 2 ∧
      ∃ e, encodeOaep rng hash message keyBytes s = .error e) := by
  simp only [encodeOaep]
  split
  · exact .inr ⟨by omega, _, rfl⟩
  · next hlen =>
    have hfits : message.length + 2 * hash.digestSize + 2 ≤ keyBytes := by omega
    refine .inl ⟨hfits, ?_⟩
    have hblock := messageOfBlock_block hash
      (keyBytes - message.length - 2 * hash.digestSize - 2) message
    have hseed : (deterministicBytes rng hash.digestSize s).1.length = hash.digestSize :=
      drawBytes_length rng 0 _ s
    generalize (deterministicBytes rng hash.digestSize s).1 = seed at hseed ⊢
    have hdb : (hash.digest [] ++
        List.replicate (keyBytes - message.length - 2 * hash.digestSize - 2) (0x00 : UInt8) ++
        [0x01] ++ message).length = keyBytes - hash.digestSize - 1 := by
      simp only [List.length_append, hash.length_digest, List.length_replicate,
        List.length_singleton]
      omega
    generalize hash.digest [] ++
      List.replicate (keyBytes - message.length - 2 * hash.digestSize - 2) (0x00 : UInt8) ++
      [0x01] ++ message = db at hdb hblock ⊢
    rw [← hdb]
    have hmaskedDb := xorBytes_of_length db (mgf1 hash seed db.length)
      (by rw [mgf1_length])
    have hmaskedSeed := xorBytes_of_length seed
      (mgf1 hash (List.zipWith (· ^^^ ·) db (mgf1 hash seed db.length)) hash.digestSize)
      (by rw [hseed, mgf1_length])
    refine ⟨_, _, Sequence.bind_eq_ok_iff.mpr ⟨_, hmaskedDb,
      Sequence.bind_eq_ok_iff.mpr ⟨_, hmaskedSeed, rfl⟩⟩, ?_, rfl, ?_⟩
    · simp only [List.length_append, List.length_singleton, List.length_zipWith, mgf1_length,
        hseed, hdb]
      omega
    · rw [unpadOaep_masked hseed rfl rfl, hblock]

/-! ### The defaults -/

inductive Scheme where
  | pkcs1V15
  | oaepSha1
  | oaepSha256
  | sslv23
  | raw
  deriving DecidableEq, Repr

structure EncodedDefault where
  scheme : Scheme
  digest : Option Text
  message : List UInt8
  encoded : List UInt8
  ciphertext : List UInt8

/-- One `EncodedDefault` of the last list of `build_defaults`. -/
def encryptDefault (key : RsaPrivateKey) (keyBytes : Nat)
    (entry : Scheme × Option Text × List UInt8 × List UInt8) : Except Exc EncodedDefault := do
  let ciphertext ← encryptEncoded entry.2.2.2 key keyBytes
  return {
    scheme := entry.1
    digest := entry.2.1
    message := entry.2.2.1
    encoded := entry.2.2.2
    ciphertext := ciphertext }

/-- `build_defaults`. Every draw goes on from the state that the one before it left. -/
def buildDefaults (sha1 sha256 : Hash) (key : RsaPrivateKey) (seed : Int) (messageLen : Nat) :
    Except Exc (List EncodedDefault) := do
  let keyBytes := (Nat.size key.n + 7) / 8
  let pkcs1 := deterministicBytes rng messageLen (rng.seeded (seed.xor 0xD3FA0175))
  let oaep1 := deterministicBytes rng messageLen pkcs1.2
  let oaep256 := deterministicBytes rng messageLen oaep1.2
  let sslv23 := deterministicBytes rng messageLen oaep256.2
  let raw := deterministicBytes rng keyBytes sslv23.2
  let pkcs1Encoded ← encodePkcs1V15 rng pkcs1.1 keyBytes raw.2
  let oaep1Encoded ← encodeOaep rng sha1 oaep1.1 keyBytes pkcs1Encoded.2
  let oaep256Encoded ← encodeOaep rng sha256 oaep256.1 keyBytes oaep1Encoded.2
  let sslv23Encoded ← encodeSslv23 rng sslv23.1 keyBytes oaep256Encoded.2
  let rawEncoded ← encodeRaw raw.1 key keyBytes
  [(Scheme.pkcs1V15, none, pkcs1.1, pkcs1Encoded.1),
   (Scheme.oaepSha1, some sha1.name, oaep1.1, oaep1Encoded.1),
   (Scheme.oaepSha256, some sha256.name, oaep256.1, oaep256Encoded.1),
   (Scheme.sslv23, none, sslv23.1, sslv23Encoded.1),
   (Scheme.raw, none, raw.1, rawEncoded)].mapM (encryptDefault key keyBytes)

/-- The message of a block under its scheme; a raw block is the message itself, as a residue
that is not zero. -/
def Carries (sha1 sha256 : Hash) (key : RsaPrivateKey) (scheme : Scheme)
    (message encoded : List UInt8) : Prop :=
  match scheme with
  | .pkcs1V15 => unpadPkcs1V15 encoded = some message
  | .oaepSha1 => unpadOaep sha1 encoded = some message
  | .oaepSha256 => unpadOaep sha256 encoded = some message
  | .sslv23 => unpadSslv23 encoded = some message
  | .raw => fromBytes .big encoded = max 1 (fromBytes .big message % key.n)

/-- What a default promises: its ciphertext decrypts to its block, and the block carries its
message. -/
structure Recovered (sha1 sha256 : Hash) (key : RsaPrivateKey) (default : EncodedDefault) :
    Prop where
  ciphertextLength : default.ciphertext.length = (Nat.size key.n + 7) / 8
  encodedLength : default.encoded.length = (Nat.size key.n + 7) / 8
  decrypts : key.Undoes (fromBytes .big default.ciphertext) (fromBytes .big default.encoded)
  carries : Carries sha1 sha256 key default.scheme default.message default.encoded

theorem fromBytes_zero_cons (bytes : List UInt8) :
    fromBytes .big (0 :: bytes) = fromBytes .big bytes := by
  have happend : ∀ low : List UInt8, ofLeBytes (low ++ [0]) = ofLeBytes low := by
    intro low
    induction low with
    | nil => rfl
    | cons b low ih => rw [List.cons_append, ofLeBytes, ih, ofLeBytes]
  rw [fromBytes, List.reverse_cons, happend, fromBytes]

/-- The length of a modulus in bytes. -/
theorem modulus_bounds {n : Nat} (hn : 0 < n) :
    256 ^ ((Nat.size n + 7) / 8 - 1) ≤ n ∧ n < 256 ^ ((Nat.size n + 7) / 8) := by
  have hsize : 0 < Nat.size n := Nat.size_pos.mpr hn
  have hpow : ∀ k, 256 ^ k = 2 ^ (8 * k) := fun k => by rw [pow_mul]; norm_num
  rw [hpow, hpow]
  constructor
  · exact (Nat.pow_le_pow_right two_pos (show 8 * ((Nat.size n + 7) / 8 - 1) ≤ Nat.size n - 1 by
      omega)).trans (Nat.lt_size.mp (by omega))
  · exact (Nat.lt_size_self n).trans_le (Nat.pow_le_pow_right two_pos (by omega))

/-- A block that starts with a zero is a residue of the modulus. -/
theorem Encodes.lt_modulus {unpad : List UInt8 → Option (List UInt8)} {n : Nat}
    {message encoded : List UInt8} (hn : 0 < n)
    (h : Encodes unpad ((Nat.size n + 7) / 8) message encoded) : fromBytes .big encoded < n := by
  obtain ⟨rest, rfl⟩ : ∃ rest, encoded = 0 :: rest := by
    rcases encoded with - | ⟨b, rest⟩
    · simpa using h.head
    · exact ⟨rest, by rw [Option.some.inj h.head]⟩
  have hlen : rest.length = (Nat.size n + 7) / 8 - 1 := by
    have := h.length
    rw [List.length_cons] at this
    omega
  rw [fromBytes_zero_cons]
  exact (fromBytes_lt .big rest).trans_le (hlen ▸ (modulus_bounds hn).1)

/-- Encryption of a residue succeeds, and decryption finds it again. -/
theorem exists_encryptDefault {key : RsaPrivateKey} {bits : Nat} (hkey : key.WellFormed bits)
    (hp : key.p.Prime) (hq : key.q.Prime)
    {entry : Scheme × Option Text × List UInt8 × List UInt8}
    (hentry : fromBytes .big entry.2.2.2 < key.n) :
    ∃ default, encryptDefault key ((Nat.size key.n + 7) / 8) entry = .ok default ∧
      default.scheme = entry.1 ∧ default.message = entry.2.2.1 ∧
      default.encoded = entry.2.2.2 ∧
      default.ciphertext.length = (Nat.size key.n + 7) / 8 ∧
      key.Undoes (fromBytes .big default.ciphertext) (fromBytes .big entry.2.2.2) := by
  have hn : 0 < key.n := by omega
  have hcipher : fromBytes .big entry.2.2.2 ^ key.e % key.n < 256 ^ ((Nat.size key.n + 7) / 8) :=
    (Nat.mod_lt _ hn).trans (modulus_bounds hn).2
  have hencrypt : encryptEncoded entry.2.2.2 key ((Nat.size key.n + 7) / 8) =
      .ok (packBytes .big ((Nat.size key.n + 7) / 8)
        (fromBytes .big entry.2.2.2 ^ key.e % key.n)) := by
    rw [encryptEncoded, if_neg (by omega)]
    exact i2osp_eq_ok_iff.mpr ⟨hcipher, rfl⟩
  refine ⟨_, Sequence.bind_eq_ok_iff.mpr ⟨_, hencrypt, rfl⟩, rfl, rfl, rfl,
    packBytes_length .big _ _, ?_⟩
  rw [fromBytes_packBytes hcipher]
  exact hkey.undoes hp hq hentry

theorem exists_encodeRaw {key : RsaPrivateKey} (hn : 1 < key.n) (message : List UInt8) :
    ∃ encoded, encodeRaw message key ((Nat.size key.n + 7) / 8) = .ok encoded ∧
      encoded.length = (Nat.size key.n + 7) / 8 ∧
      fromBytes .big encoded = max 1 (fromBytes .big message % key.n) ∧
      fromBytes .big encoded < key.n := by
  have hmod := Nat.mod_lt (fromBytes .big message) (show 0 < key.n by omega)
  have hbound := (modulus_bounds (show 0 < key.n by omega)).2
  have hvalue : (if fromBytes .big message % key.n = 0 then 1
      else fromBytes .big message % key.n) = max 1 (fromBytes .big message % key.n) := by
    split <;> omega
  have hlt : max 1 (fromBytes .big message % key.n) < key.n := by omega
  refine ⟨packBytes .big _ (max 1 (fromBytes .big message % key.n)), ?_, packBytes_length .big _ _,
    fromBytes_packBytes (by omega), by rwa [fromBytes_packBytes (by omega)]⟩
  simp only [encodeRaw, hvalue]
  exact i2osp_eq_ok_iff.mpr ⟨by omega, rfl⟩

/-- A block ready for encryption: a residue, as long as the modulus, that carries its message. -/
structure Ready (sha1 sha256 : Hash) (key : RsaPrivateKey)
    (entry : Scheme × Option Text × List UInt8 × List UInt8) : Prop where
  length : entry.2.2.2.length = (Nat.size key.n + 7) / 8
  lt : fromBytes .big entry.2.2.2 < key.n
  carries : Carries sha1 sha256 key entry.1 entry.2.2.1 entry.2.2.2

/-- The messages that each padding has room for. -/
def Fits (sha1 sha256 : Hash) (keyBytes messageLen : Nat) : Prop :=
  messageLen + 11 ≤ keyBytes ∧ messageLen + 2 * sha1.digestSize + 2 ≤ keyBytes ∧
    messageLen + 2 * sha256.digestSize + 2 ≤ keyBytes

/-- `build_defaults` is left at the first padding that has no room, or encrypts five blocks. -/
theorem buildDefaults_cases (sha1 sha256 : Hash) {key : RsaPrivateKey} (hn : 1 < key.n)
    (seed : Int) (messageLen : Nat) :
    (Fits sha1 sha256 ((Nat.size key.n + 7) / 8) messageLen ∧
      ∃ entries : List (Scheme × Option Text × List UInt8 × List UInt8),
        buildDefaults rng sha1 sha256 key seed messageLen =
          entries.mapM (encryptDefault key ((Nat.size key.n + 7) / 8)) ∧
        entries.map Prod.fst = [.pkcs1V15, .oaepSha1, .oaepSha256, .sslv23, .raw] ∧
        ∀ entry ∈ entries, Ready sha1 sha256 key entry) ∨
    (¬Fits sha1 sha256 ((Nat.size key.n + 7) / 8) messageLen ∧
      ∃ e, buildDefaults rng sha1 sha256 key seed messageLen = .error e) := by
  have hlen : ∀ (t : σ), (deterministicBytes rng messageLen t).1.length = messageLen :=
    drawBytes_length rng 0 messageLen
  have hpos : 0 < key.n := by omega
  simp only [buildDefaults, bind, Except.bind]
  generalize hm₁ : deterministicBytes rng messageLen (rng.seeded (seed.xor 0xD3FA0175)) = m₁
  generalize hm₂ : deterministicBytes rng messageLen m₁.2 = m₂
  generalize hm₃ : deterministicBytes rng messageLen m₂.2 = m₃
  generalize hm₄ : deterministicBytes rng messageLen m₃.2 = m₄
  generalize deterministicBytes rng ((Nat.size key.n + 7) / 8) m₄.2 = m₅
  have hl₁ : m₁.1.length = messageLen := hm₁ ▸ hlen _
  have hl₂ : m₂.1.length = messageLen := hm₂ ▸ hlen _
  have hl₃ : m₃.1.length = messageLen := hm₃ ▸ hlen _
  have hl₄ : m₄.1.length = messageLen := hm₄ ▸ hlen _
  set k := (Nat.size key.n + 7) / 8 with hk
  rcases encodePkcs1V15_cases rng m₁.1 k m₅.2 with ⟨h₁, e₁, s₁, hok₁, henc₁⟩ | ⟨h₁, e, herr⟩
  rotate_left
  · rw [hl₁] at h₁
    exact .inr ⟨fun hfits => by have := hfits.1; omega, e, by simp only [herr]⟩
  simp only [hok₁]
  rcases encodeOaep_cases rng sha1 m₂.1 k s₁ with ⟨h₂, e₂, s₂, hok₂, henc₂⟩ | ⟨h₂, e, herr⟩
  rotate_left
  · rw [hl₂] at h₂
    exact .inr ⟨fun hfits => by have := hfits.2.1; omega, e, by simp only [herr]⟩
  simp only [hok₂]
  rcases encodeOaep_cases rng sha256 m₃.1 k s₂ with ⟨h₃, e₃, s₃, hok₃, henc₃⟩ | ⟨h₃, e, herr⟩
  rotate_left
  · rw [hl₃] at h₃
    exact .inr ⟨fun hfits => by have := hfits.2.2; omega, e, by simp only [herr]⟩
  simp only [hok₃]
  rcases encodeSslv23_cases rng m₄.1 k s₃ with ⟨h₄, e₄, s₄, hok₄, henc₄⟩ | ⟨h₄, e, herr⟩
  rotate_left
  · rw [hl₄] at h₄
    exact .inr ⟨fun hfits => by have := hfits.1; omega, e, by simp only [herr]⟩
  simp only [hok₄]
  obtain ⟨e₅, hok₅, hlen₅, hvalue₅, hlt₅⟩ := exists_encodeRaw hn m₅.1
  rw [← hk] at hok₅ hlen₅
  simp only [hok₅]
  rw [hl₁] at h₁
  rw [hl₂] at h₂
  rw [hl₃] at h₃
  refine .inl ⟨⟨h₁, h₂, h₃⟩, _, rfl, rfl, ?_⟩
  simp only [List.forall_mem_cons]
  exact ⟨⟨henc₁.length, henc₁.lt_modulus hpos, henc₁.unpad⟩,
    ⟨henc₂.length, henc₂.lt_modulus hpos, henc₂.unpad⟩,
    ⟨henc₃.length, henc₃.lt_modulus hpos, henc₃.unpad⟩,
    ⟨henc₄.length, henc₄.lt_modulus hpos, henc₄.unpad⟩, ⟨hlen₅, hlt₅, hvalue₅⟩, by simp⟩

theorem exists_encryptDefaults {sha1 sha256 : Hash} {key : RsaPrivateKey} {bits : Nat}
    (hkey : key.WellFormed bits) (hp : key.p.Prime) (hq : key.q.Prime) :
    ∀ {entries : List (Scheme × Option Text × List UInt8 × List UInt8)},
      (∀ entry ∈ entries, Ready sha1 sha256 key entry) →
      ∃ defaults, entries.mapM (encryptDefault key ((Nat.size key.n + 7) / 8)) = .ok defaults ∧
        defaults.map EncodedDefault.scheme = entries.map Prod.fst ∧
        ∀ default ∈ defaults, Recovered sha1 sha256 key default
  | [], _ => ⟨[], rfl, rfl, by simp⟩
  | entry :: entries, h => by
    rw [List.forall_mem_cons] at h
    obtain ⟨defaults, hok, hschemes, hall⟩ := exists_encryptDefaults hkey hp hq h.2
    obtain ⟨default, hdefault, hscheme, hmessage, hencoded, hlength, hundoes⟩ :=
      exists_encryptDefault hkey hp hq h.1.lt
    refine ⟨default :: defaults, ?_, ?_, ?_⟩
    · rw [List.mapM_cons, hdefault, hok]
      rfl
    · rw [List.map_cons, List.map_cons, hschemes, hscheme]
    · rw [List.forall_mem_cons]
      exact ⟨{
        ciphertextLength := hlength
        encodedLength := hencoded ▸ h.1.length
        decrypts := hencoded ▸ hundoes
        carries := by
          rw [hscheme, hmessage, hencoded]
          exact h.1.carries }, hall⟩

/-- The defaults of a key: they exist exactly for messages that each padding has room for, and
then each of the five decrypts to its block, and the block carries its message. -/
theorem defaults_recovered {σ : Type} (rng : Random σ) (sha1 sha256 : Hash)
    {key : RsaPrivateKey} {bits : Nat} (hkey : key.WellFormed bits) (hp : key.p.Prime)
    (hq : key.q.Prime) (seed : Int) (messageLen : Nat) :
    ((∃ defaults, buildDefaults rng sha1 sha256 key seed messageLen = .ok defaults) ↔
      Fits sha1 sha256 ((Nat.size key.n + 7) / 8) messageLen) ∧
    ∀ defaults, buildDefaults rng sha1 sha256 key seed messageLen = .ok defaults →
      defaults.map EncodedDefault.scheme = [.pkcs1V15, .oaepSha1, .oaepSha256, .sslv23, .raw] ∧
      ∀ default ∈ defaults, Recovered sha1 sha256 key default := by
  have hn : 1 < key.n := by
    rw [hkey.modulus]
    exact Nat.one_lt_mul_iff.mpr ⟨hp.pos, hq.pos, .inl hp.one_lt⟩
  rcases buildDefaults_cases rng sha1 sha256 hn seed messageLen with
    ⟨hfits, entries, heq, hschemes, hready⟩ | ⟨hfits, e, herr⟩
  · obtain ⟨defaults, hok, hmap, hall⟩ := exists_encryptDefaults hkey hp hq hready
    rw [heq, hok]
    refine ⟨⟨fun _ => hfits, fun _ => ⟨defaults, rfl⟩⟩, fun other h => ?_⟩
    obtain rfl := Except.ok.inj h
    exact ⟨hmap.trans hschemes, hall⟩
  · rw [herr]
    refine ⟨⟨fun ⟨_, h⟩ => (by cases h), fun h => absurd h hfits⟩, fun _ h => (by cases h)⟩

/-! ### A small key -/

/-- The prime factors of `c * 2 ^ k`. -/
theorem dvd_or_eq_two {c k q : Nat} (hq : q.Prime) (h : q ∣ c * 2 ^ k) : q ∣ c ∨ q = 2 := by
  rcases hq.dvd_mul.mp h with h | h
  · exact .inl h
  · exact .inr ((Nat.prime_dvd_prime_iff_eq hq Nat.prime_two).mp (hq.dvd_of_dvd_pow h))

theorem prime_first : (263882790666241 : Nat).Prime := by
  refine lucas_primality _ 7 (by reduce_mod_char) fun q hq hdvd => ?_
  have hle : q ≤ 15 := by
    rcases dvd_or_eq_two (c := 15) (k := 44) hq (by norm_num at hdvd ⊢; exact hdvd) with h | h
    · exact Nat.le_of_dvd (by omega) h
    · omega
  interval_cases q <;> revert hq hdvd <;> norm_num <;> reduce_mod_char <;> decide +kernel

theorem prime_second : (255086697644033 : Nat).Prime := by
  refine lucas_primality _ 3 (by reduce_mod_char) fun q hq hdvd => ?_
  have h29 : Nat.Prime 29 := by norm_num
  rcases dvd_or_eq_two (c := 29) (k := 43) hq (by norm_num at hdvd ⊢; exact hdvd) with h | rfl
  · obtain rfl := (Nat.prime_dvd_prime_iff_eq hq h29).mp h
    norm_num
    reduce_mod_char
    decide +kernel
  · norm_num
    reduce_mod_char
    decide +kernel

/-- The constant hash of one byte. -/
def zeroHash : Hash where
  name := "zero".toList
  digestSize := 1
  digest _ := [0]
  length_digest _ := rfl
  digestSize_pos := one_pos

/-- A key of twelve bytes has room for one byte, and its five defaults are recovered. -/
theorem defaults_recovered_twelve_bytes : ∃ key defaults,
    makeKey 263882790666241 255086697644033 = .ok key ∧
      buildDefaults threeFive zeroHash zeroHash key 0 1 = .ok defaults ∧
      defaults.map EncodedDefault.scheme = [.pkcs1V15, .oaepSha1, .oaepSha256, .sslv23, .raw] ∧
      ∀ default ∈ defaults, Recovered zeroHash zeroHash key default := by
  have hp : IsCandidate (96 / 2) publicExponent 263882790666241 :=
    ⟨by norm_num, by norm_num, by norm_num, by decide +kernel⟩
  have hq : IsCandidate (96 / 2) publicExponent 255086697644033 :=
    ⟨by norm_num, by norm_num, by norm_num, by decide +kernel⟩
  obtain ⟨key, hkey, hwell, hkp, hkq⟩ := @exists_makeKey 96 _ _ hp hq (by norm_num)
    (by norm_num) (by decide +kernel) (by norm_num) (by decide +kernel)
  have h := defaults_recovered threeFive zeroHash zeroHash hwell (hkp ▸ prime_first)
    (hkq ▸ prime_second) 0 1
  rw [hwell.size] at h
  obtain ⟨defaults, hdefaults⟩ := h.1.mpr ⟨by norm_num, by decide, by decide⟩
  exact ⟨key, defaults, hkey, hdefaults, h.2 defaults hdefaults⟩

end KleeDeps.Utilities
