import Mathlib.Data.List.Forall2
import KleeDeps.Py.Value
import KleeDeps.Replay.Inputs

/-!
# Counterexamples on their way to the replay

The BINSEC and the ABACUS converter store the two assignments of a finding in
one dictionary, `name` for the first run and `name__prime` for the second. For
a replay the numbers are printed into the specifications of
`KleeDeps.Replay.Inputs` and packed into files again.

- `canonicalizeInputValue`, `pickModelCounterexamples`, `specStrings`: BINSEC,
  from the solver model to the specifications;
- `counterexamplesFromBytes`, `counterexamplesFromOffsets`, `buildAbacusSpecs`:
  ABACUS, from the divergent input to the specifications;
- `pickSecrets_eq`, `pickPublics_eq`, `secretParts_eq`, `publicParts_eq`: what
  the BINSEC loops compute on a model that has all values.

`KleeDeps.Converters.Delivery` composes these with the parser.
-/

namespace KleeDeps.Converters

open Py Replay

/-- `f"{name}__prime"`. -/
def primeName (name : Text) : Text := name ++ "__prime".toList

/-! ## BINSEC (`binsec_toml_to_json.py`) -/

/-- `InputLayout`. -/
structure InputLayout where
  name : Text
  size : Nat
  modelKey : Text
  deriving DecidableEq, Repr

/-- The model of an insecure address: tables `secret1`, `secret2`, `public`. -/
abbrev Model := Dict Text (Dict Text Int)

/-- `int.from_bytes(raw, byteorder="big")`. -/
def bigEndian (raw : List UInt8) : Int := Int.ofNat (fromBytes .big raw)

/-- `_canonicalize_input_value`: the number whose big-endian bytes are the bytes
of the model value. -/
def canonicalizeInputValue (value : Int) (size : Nat) (byteorder : ByteOrder) :
    Except Exc Int :=
  match toBytes byteorder size value with
  | some raw => .ok (bigEndian raw)
  | none => .error (.valueError ("BINSEC model value ".toList ++ hexText value ++
      " does not fit in ".toList ++ decimal size ++ " bytes".toList))

/-- The loop over `secret_inputs`; an input without both values is skipped. -/
def pickSecrets (s1 s2 : Dict Text Int) (byteorder : ByteOrder) :
    Dict Text Int → List InputLayout → Except Exc (Dict Text Int)
  | counterexamples, [] => .ok counterexamples
  | counterexamples, inp :: rest =>
    match s1.get? inp.modelKey, s2.get? inp.modelKey with
    | some value, some primeValue =>
      match canonicalizeInputValue value inp.size byteorder with
      | .error e => .error e
      | .ok canonical =>
        match canonicalizeInputValue primeValue inp.size byteorder with
        | .error e => .error e
        | .ok canonicalPrime => pickSecrets s1 s2 byteorder
            ((counterexamples.set inp.name canonical).set (primeName inp.name) canonicalPrime) rest
    | _, _ => pickSecrets s1 s2 byteorder counterexamples rest

/-- The loop over `public_inputs`. -/
def pickPublics (pub : Dict Text Int) (byteorder : ByteOrder) :
    Dict Text Int → List InputLayout → Except Exc (Dict Text Int)
  | counterexamples, [] => .ok counterexamples
  | counterexamples, inp :: rest =>
    match pub.get? inp.modelKey with
    | some value =>
      match canonicalizeInputValue value inp.size byteorder with
      | .error e => .error e
      | .ok canonical => pickPublics pub byteorder (counterexamples.set inp.name canonical) rest
    | none => pickPublics pub byteorder counterexamples rest

/-- `model.get(table, {})`. -/
def Model.table (model : Model) (table : String) : Dict Text Int :=
  (model.get? table.toList).getD .empty

/-- `_pick_model_counterexamples`. -/
def pickModelCounterexamples (models : Dict Int Model) (addr : Int)
    (secretInputs publicInputs : List InputLayout) (byteorder : ByteOrder) :
    Except Exc (Option (Dict Text Int)) :=
  match models.get? addr with
  | none => .ok none
  | some model =>
    if model.items = [] then .ok none
    else match pickSecrets (Model.table model "secret1") (Model.table model "secret2") byteorder
        .empty secretInputs with
      | .error e => .error e
      | .ok picked =>
        match pickPublics (Model.table model "public") byteorder picked publicInputs with
        | .error e => .error e
        | .ok counterexamples =>
          .ok (if counterexamples.items = [] then none else some counterexamples)

/-- How `_run_reproduce` ends before it starts the child: with return code `2`
and a message, or with the `ValueError` of a number too long to print. -/
inductive SpecFailure where
  | missing (output : Text)
  | unprintable
  deriving DecidableEq, Repr

/-- A number inside an f-string. -/
def formatInt (limit : Nat) (n : Int) : Except SpecFailure Text :=
  match strInt limit n with
  | .ok t => .ok t
  | .error _ => .error .unprintable

/-- `f"{inp.name}:{inp.size}={value}/{prime_value}"`. -/
def formatSecret (limit : Nat) (name : Text) (size value primeValue : Int) :
    Except SpecFailure Text := do
  let sizeText ← formatInt limit size
  let valueText ← formatInt limit value
  let primeText ← formatInt limit primeValue
  return name ++ ':' :: (sizeText ++ '=' :: (valueText ++ '/' :: primeText))

/-- `f"{inp.name}:{inp.size}={value}"`. -/
def formatPublic (limit : Nat) (name : Text) (size value : Int) : Except SpecFailure Text := do
  let sizeText ← formatInt limit size
  let valueText ← formatInt limit value
  return name ++ ':' :: (sizeText ++ '=' :: valueText)

/-- The secret entries `_run_reproduce` prints. -/
def secretParts (limit : Nat) (counterexamples : Dict Text Int) :
    List InputLayout → Except SpecFailure (List Text)
  | [] => .ok []
  | inp :: rest =>
    match counterexamples.get? inp.name, counterexamples.get? (primeName inp.name) with
    | some value, some primeValue => do
      let part ← formatSecret limit inp.name inp.size value primeValue
      let parts ← secretParts limit counterexamples rest
      return part :: parts
    | _, _ => .error (.missing ("missing secret counterexamples for ".toList ++ inp.name))

/-- The public entries `_run_reproduce` prints. -/
def publicParts (limit : Nat) (counterexamples : Dict Text Int) :
    List InputLayout → Except SpecFailure (List Text)
  | [] => .ok []
  | inp :: rest =>
    match counterexamples.get? inp.name with
    | some value => do
      let part ← formatPublic limit inp.name inp.size value
      let parts ← publicParts limit counterexamples rest
      return part :: parts
    | none => .error (.missing ("missing public counterexamples for ".toList ++ inp.name))

/-- The two specifications of `_run_reproduce`, printed under a digit limit. -/
def specStrings (limit : Nat) (counterexamples : Dict Text Int)
    (secretInputs publicInputs : List InputLayout) : Except SpecFailure (Text × Text) := do
  let secrets ← secretParts limit counterexamples secretInputs
  let publics ← publicParts limit counterexamples publicInputs
  return (join [','] secrets, join [','] publics)

/-! ## ABACUS (`abacus_log_to_json.py`) -/

/-- An entry of the secret layout. `_value_to_bytes` makes the seed as long as
the size, so the size is not a field of its own. -/
structure AbacusSecret where
  name : Text
  seedBytes : List UInt8
  deriving DecidableEq, Repr

/-- The `size` of an entry. -/
def AbacusSecret.size (entry : AbacusSecret) : Nat := entry.seedBytes.length

/-- `_bytes_to_int`. -/
def bytesToInt (values : List UInt8) : Nat :=
  values.foldl (fun result value => (result <<< 8) ||| value.toNat) 0

/-- `sum(entry["size"])`. -/
def totalSize (layout : List AbacusSecret) : Nat := (layout.map AbacusSecret.size).sum

/-- The loop of `_counterexamples_from_bytes`, `offset` being the running one. -/
def assignBytes (divergent : List UInt8) :
    Nat → Dict Text Int → List AbacusSecret → Dict Text Int
  | _, counterexamples, [] => counterexamples
  | offset, counterexamples, entry :: rest =>
    assignBytes divergent (offset + entry.size)
      ((counterexamples.set entry.name (bytesToInt entry.seedBytes)).set (primeName entry.name)
        (bytesToInt ((divergent.drop offset).take entry.size))) rest

/-- `_counterexamples_from_bytes`; the converter only passes byte values. -/
def counterexamplesFromBytes (layout : List AbacusSecret) (divergent : List UInt8) :
    Except Exc (Dict Text Int) :=
  if divergent.length ≠ totalSize layout then
    .error (.valueError ("divergent input length ".toList ++ decimal divergent.length ++
      " does not match configured secret length ".toList ++ decimal (totalSize layout)))
  else .ok (assignBytes divergent 0 .empty layout)

/-- The inner loop of `_counterexamples_from_offsets`: find the entry an absolute
offset falls into and store the byte there. -/
def storeAt (offset : Nat) (value : UInt8) :
    Nat → Dict Text (List UInt8) → List AbacusSecret → Dict Text (List UInt8)
  | _, primeBytes, [] => primeBytes
  | localBase, primeBytes, entry :: rest =>
    if offset < localBase + entry.size then
      match primeBytes.get? entry.name with
      | some bytes => primeBytes.set entry.name (bytes.set (offset - localBase) value)
      | none => primeBytes
    else storeAt offset value (localBase + entry.size) primeBytes rest

/-- The outer loop of `_counterexamples_from_offsets`. -/
def storeAll (layout : List AbacusSecret) :
    Dict Text (List UInt8) → List (Int × Int) → Except Exc (Dict Text (List UInt8))
  | primeBytes, [] => .ok primeBytes
  | primeBytes, (offset, value) :: rest =>
    if offset < 0 ∨ (totalSize layout : Int) ≤ offset then
      .error (.valueError ("divergent input offset ".toList ++ intText offset ++
        " is outside configured secret length ".toList ++ decimal (totalSize layout)))
    else if value < 0 ∨ 0xFF < value then
      .error (.valueError ("divergent byte value ".toList ++ intText value ++
        " is outside [0, 255]".toList))
    else storeAll layout
      (storeAt offset.toNat (UInt8.ofNat value.toNat) 0 primeBytes layout) rest

/-- `_counterexamples_from_offsets`. -/
def counterexamplesFromOffsets (layout : List AbacusSecret) (offsetValues : List (Int × Int)) :
    Except Exc (Dict Text Int) :=
  if offsetValues = [] then
    .error (.valueError "offset-aware divergent input is empty".toList)
  else
    match storeAll layout (.setAll .empty (layout.map fun e => (e.name, e.seedBytes)))
        offsetValues with
    | .error e => .error e
    | .ok primeBytes =>
      let seeds : Dict Text Int :=
        .setAll .empty (layout.map fun e => (e.name, (bytesToInt e.seedBytes : Int)))
      .ok (layout.foldl (fun counterexamples entry => counterexamples.set (primeName entry.name)
        (bytesToInt ((primeBytes.get? entry.name).getD []))) seeds)

/-- What the log said about one divergent input: the byte values in log order,
and those of them that carry the offset of the original input. -/
structure DivergentAssignment where
  values : List UInt8
  offsetValues : List (Int × Int)
  deriving DecidableEq, Repr

/-- `_build_counterexamples`. -/
def buildCounterexamples (layout : List AbacusSecret) (assignment : DivergentAssignment) :
    Except Exc (Dict Text Int) :=
  if assignment.offsetValues ≠ [] then
    if assignment.offsetValues.length ≠ assignment.values.length then
      .error (.valueError ("only ".toList ++ decimal assignment.offsetValues.length ++
        " of ".toList ++ decimal assignment.values.length ++
        " divergent values carry original input offsets".toList))
    else counterexamplesFromOffsets layout assignment.offsetValues
  else counterexamplesFromBytes layout assignment.values

/-! ## ABACUS specifications (`reproduce_positives.py`) -/

/-- The error for a size that is not a positive integer. -/
def invalidSize (field name : Text) : Exc :=
  .valueError ("notes.".toList ++ field ++ " entry for '".toList ++ name ++
    "' has invalid size".toList)

/-- One checked entry of a layout note: its name and its size. `True` is an `int`
to Python. -/
def layoutEntry (field : Text) (entry : Value) : Except Exc (Text × Value) :=
  match entry.asDict? with
  | none => .error (.valueError ("notes.".toList ++ field ++
      " entries must be dictionaries".toList))
  | some items =>
    match (Value.field items "name".toList).asStr? with
    | none | some [] => .error (.valueError ("notes.".toList ++ field ++
        " entries must define a non-empty name".toList))
    | some name =>
      match (Value.field items "size".toList).asInt? with
      | none => .error (invalidSize field name)
      | some size =>
        if size ≤ 0 then .error (invalidSize field name)
        else .ok (name, Value.field items "size".toList)

/-- `str(int(value))` inside `_build_abacus_specs`. -/
def printValue (limit : Nat) (value : Int) : Except Exc Text :=
  match strInt limit value with
  | .ok t => .ok t
  | .error e => .error e.exc

/-- A checked size inside an f-string; truth values print by name. -/
def printSize (limit : Nat) : Value → Except Exc Text
  | .int size => printValue limit size
  | .bool b => .ok (if b then "True".toList else "False".toList)
  | _ => .ok []

/-- The loop over `notes.secret_layout`; `none` when a value is missing. -/
def abacusSecretParts (limit : Nat) (counterexamples : Dict Text Int) :
    List Value → Except Exc (Option (List Text))
  | [] => .ok (some [])
  | entry :: rest =>
    match layoutEntry "secret_layout".toList entry with
    | .error e => .error e
    | .ok (name, size) =>
      match counterexamples.get? name, counterexamples.get? (primeName name) with
      | some value, some primeValue => do
        let n ← printSize limit size
        let v ← printValue limit value
        let v' ← printValue limit primeValue
        let parts ← abacusSecretParts limit counterexamples rest
        return parts.map ((name ++ ':' :: (n ++ '=' :: (v ++ '/' :: v'))) :: ·)
      | _, _ => .ok none

/-- The loop over `notes.public_layout`. -/
def abacusPublicParts (limit : Nat) (counterexamples : Dict Text Int) :
    List Value → Except Exc (Option (List Text))
  | [] => .ok (some [])
  | entry :: rest =>
    match layoutEntry "public_layout".toList entry with
    | .error e => .error e
    | .ok (name, size) =>
      match counterexamples.get? name with
      | some value => do
        let n ← printSize limit size
        let v ← printValue limit value
        let parts ← abacusPublicParts limit counterexamples rest
        return parts.map ((name ++ ':' :: (n ++ '=' :: v)) :: ·)
      | none => .ok none

/-- The secret part of a counterexample without a layout note: one input `exp`. -/
def legacySecretParts (limit : Nat) (counterexamples : Dict Text Int) (symSize : Int) :
    Except Exc (Option (List Text)) :=
  match counterexamples.get? "exp".toList, counterexamples.get? (primeName "exp".toList) with
  | some value, some primeValue => do
    let size ← printValue limit symSize
    let v ← printValue limit value
    let v' ← printValue limit primeValue
    return some ["exp:".toList ++ size ++ '=' :: (v ++ '/' :: v')]
  | _, _ => .ok none

/-- The public part without a layout note: `base` and `mod`, if both are there. -/
def legacyPublicParts (limit : Nat) (counterexamples : Dict Text Int) (symSize : Int) :
    Except Exc (Option (List Text)) :=
  match counterexamples.get? "base".toList, counterexamples.get? "mod".toList with
  | some base, some mod => do
    let size ← printValue limit symSize
    let b ← printValue limit base
    let m ← printValue limit mod
    return some ["base:".toList ++ size ++ '=' :: b, "mod:".toList ++ size ++ '=' :: m]
  | _, _ => .ok (some [])

/-- The entries of a layout note, if it is a non-empty list. -/
def layoutNote (notes : List (Text × Value)) (field : Text) : List Value :=
  ((Value.field notes field).asList?).getD []

/-- The secret entries of `_build_abacus_specs`. -/
def specSecrets (limit : Nat) (counterexamples : Dict Text Int) (notes : List (Text × Value))
    (symSize : Int) : Except Exc (Option (List Text)) :=
  match layoutNote notes "secret_layout".toList with
  | [] => legacySecretParts limit counterexamples symSize
  | entry :: rest => abacusSecretParts limit counterexamples (entry :: rest)

/-- The public entries of `_build_abacus_specs`. -/
def specPublics (limit : Nat) (counterexamples : Dict Text Int) (notes : List (Text × Value))
    (symSize : Int) : Except Exc (Option (List Text)) :=
  match layoutNote notes "public_layout".toList with
  | [] => legacyPublicParts limit counterexamples symSize
  | entry :: rest => abacusPublicParts limit counterexamples (entry :: rest)

/-- `_build_abacus_specs`. -/
def buildAbacusSpecs (limit : Nat) (counterexamples : Dict Text Int)
    (notes : List (Text × Value)) (symSize : Int) : Except Exc (Option (Text × Text)) :=
  match specSecrets limit counterexamples notes symSize with
  | .error e => .error e
  | .ok none => .ok none
  | .ok (some secretParts) =>
    match specPublics limit counterexamples notes symSize with
    | .error e => .error e
    | .ok none => .ok none
    | .ok (some publicParts) => .ok (some (join [','] secretParts, join [','] publicParts))

/-- The layout notes `convert_abacus_log` writes. -/
def abacusNotes (layout : List AbacusSecret) : List (Text × Value) :=
  [("secret_layout".toList, .list (layout.map fun e =>
      .dict [("name".toList, .str e.name), ("size".toList, .int e.size)])),
   ("public_layout".toList, .list [])]

/-! ## Names -/

/-- The names of a layout are told apart, the derived `__prime` names included. -/
structure DistinctNames (names : List Text) : Prop where
  nodup : names.Nodup
  ne_prime : ∀ n ∈ names, ∀ m ∈ names, n ≠ primeName m

theorem primeName_injective : Function.Injective primeName := fun _ _ h =>
  List.append_cancel_right h

/-- The keys of a counterexample: every secret with its prime, then the publics. -/
def counterexampleKeys (secrets publics : List Text) : List Text :=
  secrets.flatMap (fun n => [n, primeName n]) ++ publics

theorem mem_counterexampleKeys {secrets publics : List Text} {k : Text} :
    k ∈ counterexampleKeys secrets publics ↔
      k ∈ secrets ++ publics ∨ ∃ n ∈ secrets, k = primeName n := by
  simp only [counterexampleKeys, List.mem_append, List.mem_flatMap, List.mem_cons,
    List.not_mem_nil, or_false]
  constructor
  · rintro (⟨n, hn, rfl | rfl⟩ | hk)
    · exact Or.inl (Or.inl hn)
    · exact Or.inr ⟨n, hn, rfl⟩
    · exact Or.inl (Or.inr hk)
  · rintro ((hk | hk) | ⟨n, hn, rfl⟩)
    · exact Or.inl ⟨k, hk, Or.inl rfl⟩
    · exact Or.inr hk
    · exact Or.inl ⟨n, hn, Or.inr rfl⟩

/-- No two entries of a counterexample share a key. -/
theorem DistinctNames.nodup_keys {secrets publics : List Text}
    (h : DistinctNames (secrets ++ publics)) : (counterexampleKeys secrets publics).Nodup := by
  induction secrets with
  | nil => exact h.nodup
  | cons n secrets ih =>
    have hrest : DistinctNames (secrets ++ publics) :=
      ⟨(List.nodup_cons.mp h.nodup).2, fun a ha b hb =>
        h.ne_prime a (List.mem_cons_of_mem _ ha) b (List.mem_cons_of_mem _ hb)⟩
    have hn : n ∉ counterexampleKeys secrets publics := by
      rw [mem_counterexampleKeys]
      rintro (hmem | ⟨m, hm, he⟩)
      · exact (List.nodup_cons.mp h.nodup).1 hmem
      · exact h.ne_prime n (by simp) m (by simp [hm]) he
    have hp : primeName n ∉ counterexampleKeys secrets publics := by
      rw [mem_counterexampleKeys]
      rintro (hmem | ⟨m, hm, he⟩)
      · exact h.ne_prime _ (List.mem_cons_of_mem _ hmem) n (by simp) rfl
      · exact (List.nodup_cons.mp h.nodup).1
          (List.mem_append_left _ (primeName_injective he ▸ hm))
    show (n :: primeName n :: counterexampleKeys secrets publics).Nodup
    rw [List.nodup_cons, List.nodup_cons]
    refine ⟨?_, hp, ih hrest⟩
    rw [List.mem_cons, not_or]
    exact ⟨h.ne_prime n (by simp) n (by simp), hn⟩

/-! ## BINSEC: what the model says is what is printed -/

theorem canonicalizeInputValue_of_toBytes {value : Int} {size : Nat} {byteorder : ByteOrder}
    {bytes : List UInt8} (h : toBytes byteorder size value = some bytes) :
    canonicalizeInputValue value size byteorder = .ok (bigEndian bytes) := by
  rw [canonicalizeInputValue, h]

/-- The items a list of secret files contributes to a counterexample. -/
def secretItems (secrets : List SecretFile) : List (Text × Int) :=
  secrets.flatMap fun s =>
    [(s.name, bigEndian s.orig), (primeName s.name, bigEndian s.prime)]

/-- The items a list of public files contributes. -/
def publicItems (publics : List PublicFile) : List (Text × Int) :=
  publics.map fun p => (p.name, bigEndian p.bytes)

theorem keys_items (secrets : List SecretFile) (publics : List PublicFile) :
    (secretItems secrets ++ publicItems publics).map Prod.fst =
      counterexampleKeys (secrets.map SecretFile.name) (publics.map PublicFile.name) := by
  simp [secretItems, publicItems, counterexampleKeys, List.map_flatMap, List.flatMap_map,
    Function.comp_def]

section Binsec

variable {byteorder : ByteOrder} {orig prime pub : InputLayout → List UInt8}

/-- The files a BINSEC layout stands for. -/
def secretFile (orig prime : InputLayout → List UInt8) (inp : InputLayout) : SecretFile :=
  { name := inp.name, orig := orig inp, prime := prime inp }

/-- The file of a public input. -/
def publicFile (pub : InputLayout → List UInt8) (inp : InputLayout) : PublicFile :=
  { name := inp.name, bytes := pub inp }

/-- `v.to_bytes(size, byteorder) = bytes` for the value `v` of a model table. -/
def TableHolds (table : Dict Text Int) (byteorder : ByteOrder) (inp : InputLayout)
    (bytes : List UInt8) : Prop :=
  ∃ v, table.get? inp.modelKey = some v ∧ toBytes byteorder inp.size v = some bytes

/-- **Run lemma** of the loop over the secrets. -/
theorem pickSecrets_eq {s1 s2 : Dict Text Int} {secrets : List InputLayout}
    (h : ∀ inp ∈ secrets, TableHolds s1 byteorder inp (orig inp) ∧
      TableHolds s2 byteorder inp (prime inp)) (d : Dict Text Int) :
    pickSecrets s1 s2 byteorder d secrets =
      .ok (d.setAll (secretItems (secrets.map (secretFile orig prime)))) := by
  induction secrets generalizing d with
  | nil => rfl
  | cons inp secrets ih =>
    obtain ⟨⟨v, hv, hb⟩, ⟨v', hv', hb'⟩⟩ := h inp (by simp)
    simp only [pickSecrets, hv, hv', canonicalizeInputValue_of_toBytes hb,
      canonicalizeInputValue_of_toBytes hb']
    rw [ih fun i hi => h i (by simp [hi])]
    rfl

/-- **Run lemma** of the loop over the publics. -/
theorem pickPublics_eq {table : Dict Text Int} {publics : List InputLayout}
    (h : ∀ inp ∈ publics, TableHolds table byteorder inp (pub inp)) (d : Dict Text Int) :
    pickPublics table byteorder d publics =
      .ok (d.setAll (publicItems (publics.map (publicFile pub)))) := by
  induction publics generalizing d with
  | nil => rfl
  | cons inp publics ih =>
    obtain ⟨v, hv, hb⟩ := h inp (by simp)
    simp only [pickPublics, hv, canonicalizeInputValue_of_toBytes hb]
    rw [ih fun i hi => h i (by simp [hi])]
    rfl

end Binsec

/-! ## Printing -/

/-- A number the digit limit lets through. -/
def Printable (limit n : Nat) : Prop := limit = 0 ∨ (decimal n).length ≤ limit

/-- Both numbers of a secret may be printed. -/
def SecretFile.Printable (limit : Nat) (s : SecretFile) : Prop :=
  Converters.Printable limit (fromBytes .big s.orig) ∧
    Converters.Printable limit (fromBytes .big s.prime)

/-- Sizes always may. -/
theorem printable_size {limit n : Nat} (hlimit : ValidLimit limit) (h : n ≤ maxSize) :
    Printable limit n := by
  have := length_decimal_le_of_le_maxSize h
  rcases hlimit with hl | hl
  · exact Or.inl hl
  · exact Or.inr (by omega)

theorem formatInt_natCast {limit n : Nat} (h : Printable limit n) :
    formatInt limit (Int.ofNat n) = .ok (decimal n) := by
  rw [formatInt, Int.ofNat_eq_natCast, strInt_natCast h]

theorem printValue_natCast {limit n : Nat} (h : Printable limit n) :
    printValue limit (Int.ofNat n) = .ok (decimal n) := by
  rw [printValue, Int.ofNat_eq_natCast, strInt_natCast h]

/-- A counterexample that holds the bytes of a secret file. -/
def HoldsSecret (counterexamples : Dict Text Int) (s : SecretFile) : Prop :=
  counterexamples.get? s.name = some (bigEndian s.orig) ∧
    counterexamples.get? (primeName s.name) = some (bigEndian s.prime)

/-- A counterexample assigned from files holds them. -/
theorem holds_of_setAll {secrets : List SecretFile} {publics : List PublicFile}
    (h : DistinctNames (secrets.map SecretFile.name ++ publics.map PublicFile.name)) :
    let d : Dict Text Int := Dict.setAll .empty (secretItems secrets ++ publicItems publics)
    d.items = secretItems secrets ++ publicItems publics ∧ (∀ s ∈ secrets, HoldsSecret d s) ∧
      ∀ p ∈ publics, d.get? p.name = some (bigEndian p.bytes) := by
  intro d
  have hitems : d.items = secretItems secrets ++ publicItems publics :=
    Dict.items_setAll_empty (by rw [keys_items]; exact h.nodup_keys)
  refine ⟨hitems, fun s hs => ⟨?_, ?_⟩, fun p hp => ?_⟩
  · refine d.get?_of_mem (hitems ▸ List.mem_append_left _ ?_)
    exact List.mem_flatMap.mpr ⟨s, hs, by simp⟩
  · refine d.get?_of_mem (hitems ▸ List.mem_append_left _ ?_)
    exact List.mem_flatMap.mpr ⟨s, hs, by simp⟩
  · refine d.get?_of_mem (hitems ▸ List.mem_append_right _ ?_)
    exact List.mem_map.mpr ⟨p, hp, rfl⟩

section Binsec

variable {limit : Nat} {counterexamples : Dict Text Int} {orig prime pub : InputLayout → List UInt8}

theorem secretParts_eq (hlimit : ValidLimit limit) {secrets : List InputLayout}
    (h : ∀ inp ∈ secrets, (orig inp).length = inp.size ∧ inp.size ≤ maxSize ∧
      HoldsSecret counterexamples (secretFile orig prime inp) ∧
      SecretFile.Printable limit (secretFile orig prime inp)) :
    secretParts limit counterexamples secrets =
      .ok ((secrets.map (secretFile orig prime)).map SecretFile.part) := by
  induction secrets with
  | nil => rfl
  | cons inp secrets ih =>
    obtain ⟨hlen, hmax, ⟨hget, hget'⟩, hpr, hpr'⟩ := h inp (by simp)
    have hpart : formatSecret limit inp.name inp.size (bigEndian (orig inp))
        (bigEndian (prime inp)) = .ok (secretFile orig prime inp).part := by
      have hsize : formatInt limit (inp.size : Int) = .ok (decimal inp.size) :=
        formatInt_natCast (printable_size hlimit hmax)
      have hv : formatInt limit (bigEndian (orig inp)) = .ok (decimal (fromBytes .big (orig inp))) :=
        formatInt_natCast hpr
      have hv' : formatInt limit (bigEndian (prime inp)) =
          .ok (decimal (fromBytes .big (prime inp))) := formatInt_natCast hpr'
      rw [formatSecret, hsize, hv, hv', SecretFile.part, secretFile, hlen]
      rfl
    simp only [secretFile] at hget hget'
    simp only [secretParts, hget, hget', hpart, ih fun i hi => h i (by simp [hi])]
    rfl

theorem publicParts_eq (hlimit : ValidLimit limit) {publics : List InputLayout}
    (h : ∀ inp ∈ publics, (pub inp).length = inp.size ∧ inp.size ≤ maxSize ∧
      counterexamples.get? inp.name = some (bigEndian (pub inp)) ∧
      Printable limit (fromBytes .big (pub inp))) :
    publicParts limit counterexamples publics =
      .ok ((publics.map (publicFile pub)).map PublicFile.part) := by
  induction publics with
  | nil => rfl
  | cons inp publics ih =>
    obtain ⟨hlen, hmax, hget, hpr⟩ := h inp (by simp)
    have hpart : formatPublic limit inp.name inp.size (bigEndian (pub inp)) =
        .ok (publicFile pub inp).part := by
      have hsize : formatInt limit (inp.size : Int) = .ok (decimal inp.size) :=
        formatInt_natCast (printable_size hlimit hmax)
      have hv : formatInt limit (bigEndian (pub inp)) = .ok (decimal (fromBytes .big (pub inp))) :=
        formatInt_natCast hpr
      rw [formatPublic, hsize, hv, PublicFile.part, publicFile, hlen]
      rfl
    simp only [publicParts, hget, hpart, ih fun i hi => h i (by simp [hi])]
    rfl

end Binsec

end KleeDeps.Converters
