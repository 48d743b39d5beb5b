import Mathlib.Data.Nat.Bitwise
import KleeDeps.Converters.Counterexamples

/-!
# Every byte arrives

The way of a counterexample from the solver (BINSEC) or the divergent input
(ABACUS) to the bytes of the replay's input files.

- `cut`: the divergent input of ABACUS, divided among the secrets;
- `assignBytes_eq`, `storeAll_spec`: both forms of divergent input that ABACUS
  logs are stored as `cut` says;
- `binsecInputs`, `abacusInputs`: the composed chains;
- `counterexample_reaches_replay`: **every byte arrives**, under its name and
  in layout order, as long as the numbers may be printed at all and the secrets
  of an ABACUS layout are not called `base` and `mod`.
-/

namespace KleeDeps.Converters

open Py Replay

/-! ## ABACUS: the divergent input, cut at the layout -/

/-- Shifting and or-ing bytes is the big-endian number. -/
theorem bytesToInt_eq (bs : List UInt8) : bytesToInt bs = fromBytes .big bs := by
  induction bs using List.reverseRecOn with
  | nil => rfl
  | append_singleton bs b ih =>
    have hb : b.toNat < 2 ^ 8 := b.toNat_lt
    have hstep : bytesToInt (bs ++ [b]) = (bytesToInt bs <<< 8) ||| b.toNat := by
      simp [bytesToInt]
    rw [hstep, ← Nat.shiftLeft_add_eq_or_of_lt hb, Nat.shiftLeft_eq, ih]
    simp only [fromBytes, List.reverse_append, List.reverse_singleton, List.singleton_append,
      ofLeBytes]
    omega

/-- The secret files of a divergent input: every entry takes its size in bytes. -/
def cut : List AbacusSecret → List UInt8 → List SecretFile
  | [], _ => []
  | entry :: rest, bytes =>
    { name := entry.name, orig := entry.seedBytes, prime := bytes.take entry.size } ::
      cut rest (bytes.drop entry.size)

theorem cut_names (layout : List AbacusSecret) (bytes : List UInt8) :
    (cut layout bytes).map SecretFile.name = layout.map AbacusSecret.name := by
  induction layout generalizing bytes with
  | nil => rfl
  | cons entry layout ih => rw [cut, List.map_cons, ih, List.map_cons]

/-- What `cut` is: the seeds, and the divergent bytes divided at the sizes. -/
theorem cut_spec {layout : List AbacusSecret} {bytes : List UInt8}
    (h : bytes.length = totalSize layout) :
    (cut layout bytes).map (fun s => (s.name, s.orig)) =
        layout.map (fun e => (e.name, e.seedBytes)) ∧
      (cut layout bytes).flatMap SecretFile.prime = bytes ∧
      ∀ s ∈ cut layout bytes, s.prime.length = s.orig.length := by
  induction layout generalizing bytes with
  | nil =>
    have : bytes = [] := List.length_eq_zero_iff.mp h
    subst this
    simp [cut]
  | cons entry layout ih =>
    have htotal : totalSize (entry :: layout) = entry.size + totalSize layout := by
      simp [totalSize]
    have hdrop : (bytes.drop entry.size).length = totalSize layout := by
      rw [List.length_drop]
      omega
    obtain ⟨h₁, h₂, h₃⟩ := ih hdrop
    refine ⟨?_, ?_, ?_⟩
    · rw [cut, List.map_cons, h₁, List.map_cons]
    · rw [cut, List.flatMap_cons, h₂]
      exact List.take_append_drop _ _
    · intro s hs
      rcases List.mem_cons.mp hs with rfl | hs
      · show (bytes.take entry.size).length = entry.size
        rw [List.length_take]
        omega
      · exact h₃ s hs

/-- **Run lemma** of the positional loop. -/
theorem assignBytes_eq (divergent : List UInt8) (offset : Nat) (d : Dict Text Int)
    (layout : List AbacusSecret) :
    assignBytes divergent offset d layout =
      d.setAll (secretItems (cut layout (divergent.drop offset))) := by
  induction layout generalizing offset d with
  | nil => rfl
  | cons entry layout ih =>
    rw [assignBytes, ih, cut, bytesToInt_eq, bytesToInt_eq, List.drop_drop]
    rfl

/-- **Step lemma** of the offset loop: one stored byte changes the divergent
input at its absolute offset, and the bytes of every entry accordingly. By
induction on the layout, with `bytes` what is left of the divergent input from
`base` on. -/
theorem storeAt_spec (offset : Nat) (value : UInt8) :
    ∀ {layout : List AbacusSecret} {primeBytes : Dict Text (List UInt8)} {bytes : List UInt8}
      {base : Nat}, (layout.map AbacusSecret.name).Nodup → base ≤ offset →
      bytes.length = totalSize layout → offset < base + totalSize layout →
      (∀ s ∈ cut layout bytes, primeBytes.get? s.name = some s.prime) →
      (∀ s ∈ cut layout (bytes.set (offset - base) value),
        (storeAt offset value base primeBytes layout).get? s.name = some s.prime) ∧
      ∀ k ∉ layout.map AbacusSecret.name,
        (storeAt offset value base primeBytes layout).get? k = primeBytes.get? k
  | [], _, _, _, _, _, _, hlt, _ => by simp [totalSize] at hlt; omega
  | entry :: layout, primeBytes, bytes, base, hnodup, hbase, hlen, hlt, hget => by
    have htotal : totalSize (entry :: layout) = entry.size + totalSize layout := by
      simp [totalSize]
    rw [List.map_cons, List.nodup_cons] at hnodup
    have hrest : ∀ s ∈ cut layout (bytes.drop entry.size), s.name ≠ entry.name := fun s hs he =>
      hnodup.1 (he ▸ cut_names layout _ ▸ List.mem_map_of_mem hs)
    have hhead : primeBytes.get? entry.name = some (bytes.take entry.size) :=
      hget ⟨entry.name, entry.seedBytes, bytes.take entry.size⟩ (by simp [cut])
    rw [storeAt]
    by_cases hin : offset < base + entry.size
    · -- the byte belongs to this entry
      have hi : offset - base < entry.size := by omega
      rw [if_pos hin, hhead]
      refine ⟨fun s hs => ?_, fun k hk => ?_⟩
      · rw [cut, List.drop_set_of_lt hi, List.take_set] at hs
        rcases List.mem_cons.mp hs with rfl | hs
        · rw [Dict.get?_set_self]
        · rw [Dict.get?_set_of_ne _ (Ne.symm (hrest s hs))]
          exact hget s (by simp [cut, hs])
      · rw [Dict.get?_set_of_ne _ fun he => hk (by simp [he])]
    · -- it belongs to a later one
      have hi : entry.size ≤ offset - base := by omega
      rw [if_neg hin]
      have hdrop : (bytes.drop entry.size).length = totalSize layout := by
        rw [List.length_drop]
        omega
      obtain ⟨h₁, h₂⟩ := storeAt_spec offset value hnodup.2
        (show base + entry.size ≤ offset by omega) hdrop (by omega) fun s hs => hget s (by simp [cut, hs])
      refine ⟨fun s hs => ?_, fun k hk => h₂ k fun hmem => hk (by simp [hmem])⟩
      rw [cut, List.take_set_of_le hi, List.drop_set, if_neg (by omega)] at hs
      rcases List.mem_cons.mp hs with rfl | hs
      · rw [h₂ _ hnodup.1]
        exact hhead
      · have hsub : offset - base - entry.size = offset - (base + entry.size) := by omega
        rw [hsub] at hs
        exact h₁ s hs

/-- The divergent input after storing offset–value pairs. -/
def storeBytes (bytes : List UInt8) (offsetValues : List (Int × Int)) : List UInt8 :=
  offsetValues.foldl (fun bytes ov => bytes.set ov.1.toNat (UInt8.ofNat ov.2.toNat)) bytes

/-- **Run lemma** of the offset loop. -/
theorem storeAll_spec {layout : List AbacusSecret} (hnodup : (layout.map AbacusSecret.name).Nodup)
    {offsetValues : List (Int × Int)} {primeBytes result : Dict Text (List UInt8)}
    {bytes : List UInt8} (hlen : bytes.length = totalSize layout)
    (hget : ∀ s ∈ cut layout bytes, primeBytes.get? s.name = some s.prime)
    (h : storeAll layout primeBytes offsetValues = .ok result) :
    ∀ s ∈ cut layout (storeBytes bytes offsetValues), result.get? s.name = some s.prime := by
  induction offsetValues generalizing primeBytes bytes with
  | nil =>
    obtain rfl := Except.ok.inj h
    exact hget
  | cons ov rest ih =>
    obtain ⟨offset, value⟩ := ov
    rw [storeAll] at h
    split at h
    · cases h
    · next hrange =>
      split at h
      · cases h
      · have hlt : offset.toNat < 0 + totalSize layout := by omega
        obtain ⟨hstep, -⟩ := storeAt_spec offset.toNat (UInt8.ofNat value.toNat) hnodup
          (Nat.zero_le _) hlen hlt hget
        exact ih (by rw [List.length_set, hlen]) hstep h

theorem mem_cut {layout : List AbacusSecret} {bytes : List UInt8} {s : SecretFile}
    (h : s ∈ cut layout bytes) : ∃ e ∈ layout, s.name = e.name ∧ s.orig = e.seedBytes := by
  induction layout generalizing bytes with
  | nil => simp [cut] at h
  | cons entry layout ih =>
    rcases List.mem_cons.mp h with rfl | h
    · exact ⟨entry, by simp, rfl, rfl⟩
    · obtain ⟨e, he, hs⟩ := ih h
      exact ⟨e, by simp [he], hs⟩

/-- Cutting the concatenated seeds gives the seeds. -/
theorem cut_seeds (layout : List AbacusSecret) :
    cut layout (layout.flatMap AbacusSecret.seedBytes) =
      layout.map fun e => { name := e.name, orig := e.seedBytes, prime := e.seedBytes } := by
  induction layout with
  | nil => rfl
  | cons entry layout ih =>
    rw [cut, List.flatMap_cons, List.map_cons, AbacusSecret.size, List.take_left,
      List.drop_left, ih]

theorem length_seeds (layout : List AbacusSecret) :
    (layout.flatMap AbacusSecret.seedBytes).length = totalSize layout := by
  rw [List.length_flatMap]
  rfl

theorem length_storeBytes (bytes : List UInt8) (offsetValues : List (Int × Int)) :
    (storeBytes bytes offsetValues).length = bytes.length := by
  induction offsetValues generalizing bytes with
  | nil => rfl
  | cons ov rest ih =>
    show (storeBytes (bytes.set _ _) rest).length = _
    rw [ih, List.length_set]

/-- The divergent input an assignment stands for. -/
def DivergentAssignment.bytes (layout : List AbacusSecret) (a : DivergentAssignment) :
    List UInt8 :=
  if a.offsetValues ≠ [] then storeBytes (layout.flatMap AbacusSecret.seedBytes) a.offsetValues
  else a.values

/-- A counterexample that holds the seeds and the divergent input, and nothing
under any other name. -/
structure HoldsDivergent (layout : List AbacusSecret) (bytes : List UInt8)
    (counterexamples : Dict Text Int) : Prop where
  length_eq : bytes.length = totalSize layout
  holds : ∀ s ∈ cut layout bytes, HoldsSecret counterexamples s
  other : ∀ k, k ∉ layout.map AbacusSecret.name → (∀ n, k ≠ primeName n) →
    counterexamples.get? k = none

theorem counterexamplesFromBytes_ok {layout : List AbacusSecret} {divergent : List UInt8}
    {c : Dict Text Int} (h : counterexamplesFromBytes layout divergent = .ok c) :
    divergent.length = totalSize layout ∧ c = assignBytes divergent 0 .empty layout := by
  unfold counterexamplesFromBytes at h
  split at h
  · cases h
  · next hlen => exact ⟨not_not.mp hlen, (Except.ok.inj h).symm⟩

/-- An assignment is accepted in the form it comes in. -/
theorem buildCounterexamples_cases {layout : List AbacusSecret} {a : DivergentAssignment}
    {c : Dict Text Int} (h : buildCounterexamples layout a = .ok c) :
    a.offsetValues ≠ [] ∧ counterexamplesFromOffsets layout a.offsetValues = .ok c ∨
      a.offsetValues = [] ∧ counterexamplesFromBytes layout a.values = .ok c := by
  unfold buildCounterexamples at h
  split at h
  · next hoff =>
    split at h
    · cases h
    · exact Or.inl ⟨hoff, h⟩
  · next hoff => exact Or.inr ⟨not_not.mp hoff, h⟩

theorem holdsDivergent_of_bytes {layout : List AbacusSecret} {divergent : List UInt8}
    {c : Dict Text Int} (hnames : DistinctNames (layout.map AbacusSecret.name))
    (h : counterexamplesFromBytes layout divergent = .ok c) :
    HoldsDivergent layout divergent c := by
  obtain ⟨hlen, rfl⟩ := counterexamplesFromBytes_ok h
  rw [assignBytes_eq, List.drop_zero]
  have hcut : DistinctNames ((cut layout divergent).map SecretFile.name ++
      ([] : List PublicFile).map PublicFile.name) := by
    simpa [cut_names] using hnames
  obtain ⟨-, hholds, -⟩ := holds_of_setAll hcut
  refine ⟨hlen, fun s hs => by simpa [publicItems] using hholds s hs, fun k hk hprime => ?_⟩
  rw [Dict.get?_setAll_of_notMem, Dict.get?_empty]
  have hkeys := keys_items (cut layout divergent) []
  simp only [publicItems, List.map_nil, List.append_nil] at hkeys
  rw [hkeys, mem_counterexampleKeys, List.append_nil, cut_names]
  rintro (hmem | ⟨n, -, he⟩)
  · exact hk hmem
  · exact hprime n he

/-- The dictionary of the offset form: first every seed, then every prime. -/
def offsetItems (layout : List AbacusSecret) (primeBytes : Dict Text (List UInt8)) :
    List (Text × Int) :=
  layout.map (fun e => (e.name, (bytesToInt e.seedBytes : Int))) ++
    layout.map fun e => (primeName e.name, (bytesToInt ((primeBytes.get? e.name).getD []) : Int))

theorem keys_offsetItems (layout : List AbacusSecret) (primeBytes : Dict Text (List UInt8)) :
    (offsetItems layout primeBytes).map Prod.fst =
      layout.map AbacusSecret.name ++ (layout.map AbacusSecret.name).map primeName := by
  simp [offsetItems, Function.comp_def]

theorem nodup_keys_offsetItems {layout : List AbacusSecret} (primeBytes : Dict Text (List UInt8))
    (hnames : DistinctNames (layout.map AbacusSecret.name)) :
    ((offsetItems layout primeBytes).map Prod.fst).Nodup := by
  rw [keys_offsetItems, List.nodup_append]
  refine ⟨hnames.nodup, hnames.nodup.map primeName_injective, ?_⟩
  rintro a ha b hb
  obtain ⟨n, hn, rfl⟩ := List.mem_map.mp hb
  exact hnames.ne_prime a ha n hn

/-- An accepted offset assignment is the stored bytes, seeds first. -/
theorem counterexamplesFromOffsets_eq {layout : List AbacusSecret}
    {offsetValues : List (Int × Int)} {c : Dict Text Int}
    (h : counterexamplesFromOffsets layout offsetValues = .ok c) :
    ∃ primeBytes, storeAll layout (.setAll .empty (layout.map fun e => (e.name, e.seedBytes)))
        offsetValues = .ok primeBytes ∧ c = .setAll .empty (offsetItems layout primeBytes) := by
  unfold counterexamplesFromOffsets at h
  split at h
  · cases h
  cases hstore : storeAll layout (.setAll .empty (layout.map fun e => (e.name, e.seedBytes)))
      offsetValues with
  | error e =>
    rw [hstore] at h
    cases h
  | ok primeBytes =>
    rw [hstore] at h
    refine ⟨primeBytes, rfl, ?_⟩
    rw [offsetItems, Dict.setAll_append, ← Except.ok.inj h]
    show _ = List.foldl _ _ (layout.map _)
    rw [List.foldl_map]

/-- The offset loop, from the seeds on. -/
theorem get?_of_storeAll {layout : List AbacusSecret} {offsetValues : List (Int × Int)}
    {primeBytes : Dict Text (List UInt8)} (hnodup : (layout.map AbacusSecret.name).Nodup)
    (h : storeAll layout (.setAll .empty (layout.map fun e => (e.name, e.seedBytes)))
      offsetValues = .ok primeBytes) :
    ∀ s ∈ cut layout (storeBytes (layout.flatMap AbacusSecret.seedBytes) offsetValues),
      primeBytes.get? s.name = some s.prime := by
  have hseedKeys : ((layout.map fun e => (e.name, e.seedBytes)).map Prod.fst).Nodup := by
    simpa [Function.comp_def] using hnodup
  refine storeAll_spec hnodup (length_seeds layout) ?_ h
  intro s hs
  rw [cut_seeds] at hs
  obtain ⟨e, he, rfl⟩ := List.mem_map.mp hs
  refine Dict.get?_of_mem _ ?_
  rw [Dict.items_setAll_empty hseedKeys]
  exact List.mem_map.mpr ⟨e, he, rfl⟩

theorem holdsDivergent_of_offsets {layout : List AbacusSecret} {offsetValues : List (Int × Int)}
    {c : Dict Text Int} (hnames : DistinctNames (layout.map AbacusSecret.name))
    (h : counterexamplesFromOffsets layout offsetValues = .ok c) :
    HoldsDivergent layout
      (storeBytes (layout.flatMap AbacusSecret.seedBytes) offsetValues) c := by
  obtain ⟨primeBytes, hstore, rfl⟩ := counterexamplesFromOffsets_eq h
  have hnodup := nodup_keys_offsetItems primeBytes hnames
  have hget := get?_of_storeAll hnames.nodup hstore
  refine ⟨by rw [length_storeBytes, length_seeds], fun s hs => ?_, fun k hk hprime => ?_⟩
  · obtain ⟨e, he, hname, horig⟩ := mem_cut hs
    have hprime := hget s hs
    rw [hname] at hprime
    refine ⟨Dict.get?_of_mem _ ?_, Dict.get?_of_mem _ ?_⟩
    · rw [Dict.items_setAll_empty hnodup]
      refine List.mem_append_left _ (List.mem_map.mpr ⟨e, he, ?_⟩)
      rw [bytesToInt_eq, hname, horig]
      rfl
    · rw [Dict.items_setAll_empty hnodup]
      refine List.mem_append_right _ (List.mem_map.mpr ⟨e, he, ?_⟩)
      rw [hprime, bytesToInt_eq, hname]
      rfl
  · rw [Dict.get?_setAll_of_notMem, Dict.get?_empty]
    rw [keys_offsetItems, List.mem_append, not_or]
    refine ⟨hk, fun hmem => ?_⟩
    obtain ⟨n, -, he⟩ := List.mem_map.mp hmem
    exact hprime n he.symm

/-- **Both forms of divergent input are stored alike.** -/
theorem holdsDivergent {layout : List AbacusSecret} {a : DivergentAssignment}
    {c : Dict Text Int} (hnames : DistinctNames (layout.map AbacusSecret.name))
    (h : buildCounterexamples layout a = .ok c) : HoldsDivergent layout (a.bytes layout) c := by
  unfold DivergentAssignment.bytes
  rcases buildCounterexamples_cases h with ⟨hoff, h⟩ | ⟨hoff, h⟩
  · rw [if_pos hoff]
    exact holdsDivergent_of_offsets hnames h
  · rw [if_neg (not_not.mpr hoff)]
    exact holdsDivergent_of_bytes hnames h

/-! ## The ABACUS specifications -/

/-- The layout note of an entry passes its check. -/
theorem layoutEntry_note {e : AbacusSecret} (hname : e.name ≠ []) (hsize : 0 < e.size) :
    layoutEntry "secret_layout".toList
        (.dict [("name".toList, .str e.name), ("size".toList, .int e.size)]) =
      .ok (e.name, .int e.size) := by
  have hn : Value.field [("name".toList, .str e.name), ("size".toList, .int e.size)]
      "name".toList = .str e.name := rfl
  have hs : Value.field [("name".toList, .str e.name), ("size".toList, .int e.size)]
      "size".toList = .int e.size := rfl
  have hpos : ¬ (e.size : Int) ≤ 0 := by omega
  cases hnm : e.name with
  | nil => exact absurd hnm hname
  | cons c rest =>
    rw [hnm] at hn hs
    simp only [layoutEntry, Value.asDict?, hn, hs, Value.asStr?, Value.asInt?, if_neg hpos]

/-- The entries of the secret specification. -/
theorem abacusSecretParts_eq {limit : Nat} (hlimit : ValidLimit limit) {c : Dict Text Int}
    {layout : List AbacusSecret} {bytes : List UInt8}
    (hsend : ∀ e ∈ layout, Sendable e.name e.size)
    (hholds : ∀ s ∈ cut layout bytes, HoldsSecret c s ∧ SecretFile.Printable limit s) :
    abacusSecretParts limit c (layout.map fun e =>
        .dict [("name".toList, .str e.name), ("size".toList, .int e.size)]) =
      .ok (some ((cut layout bytes).map SecretFile.part)) := by
  induction layout generalizing bytes with
  | nil => rfl
  | cons e layout ih =>
    obtain ⟨hid, hpos, hmax⟩ := hsend e (by simp)
    obtain ⟨⟨hget, hget'⟩, hpr, hpr'⟩ :=
      hholds ⟨e.name, e.seedBytes, bytes.take e.size⟩ (by simp [cut])
    have hname : e.name ≠ [] := fun he => by simp [he, isIdentifier] at hid
    have hsize : printSize limit (.int e.size) = .ok (decimal e.size) :=
      printValue_natCast (printable_size hlimit hmax)
    have hv : printValue limit (bigEndian e.seedBytes) =
        .ok (decimal (fromBytes .big e.seedBytes)) := printValue_natCast hpr
    have hv' : printValue limit (bigEndian (bytes.take e.size)) =
        .ok (decimal (fromBytes .big (bytes.take e.size))) := printValue_natCast hpr'
    have hrest : abacusSecretParts limit c (layout.map fun e =>
          .dict [("name".toList, .str e.name), ("size".toList, .int e.size)]) =
        .ok (some ((cut layout (bytes.drop e.size)).map SecretFile.part)) :=
      ih (fun x hx => hsend x (by simp [hx])) fun s hs => hholds s (by simp [cut, hs])
    simp only [List.map_cons, abacusSecretParts, layoutEntry_note hname hpos, hget, hget', hsize,
      hv, hv', hrest]
    rfl

/-- Without public layout the old format adds `base` and `mod`; a counterexample
that does not hold both adds nothing. -/
theorem legacyPublicParts_eq {limit : Nat} {layout : List AbacusSecret} {bytes : List UInt8}
    {c : Dict Text Int} (hc : HoldsDivergent layout bytes c)
    (hreserved : ¬ ("base".toList ∈ layout.map AbacusSecret.name ∧
      "mod".toList ∈ layout.map AbacusSecret.name)) (symSize : Int) :
    legacyPublicParts limit c symSize = .ok (some []) := by
  have hshort : ∀ {k : Text}, k.length < 7 → ∀ n, k ≠ primeName n := by
    intro k hk n he
    rw [he, primeName, List.length_append] at hk
    have : "__prime".toList.length = 7 := rfl
    omega
  have hnone : c.get? "base".toList = none ∨ c.get? "mod".toList = none := by
    by_cases hb : "base".toList ∈ layout.map AbacusSecret.name
    · exact Or.inr (hc.other _ (fun hm => hreserved ⟨hb, hm⟩) (hshort (by decide)))
    · exact Or.inl (hc.other _ hb (hshort (by decide)))
  unfold legacyPublicParts
  rcases hnone with h | h
  · rw [h]
  · rw [h]
    cases c.get? "base".toList <;> rfl

/-! ## The chains -/

/-- Why the BINSEC chain stopped before the replay. -/
inductive Stop where
  | raised (e : Exc)
  | spec (failure : SpecFailure)
  deriving DecidableEq, Repr

/-- BINSEC: model, counterexample, specifications, bytes. `limit` is the digit
limit of the converter, `childLimit` the one of the replay process. -/
def binsecInputs (limit childLimit : Nat) (models : Dict Int Model) (addr : Int)
    (secretInputs publicInputs : List InputLayout) (byteorder : ByteOrder) :
    Except Stop (Option InputBytes) :=
  match pickModelCounterexamples models addr secretInputs publicInputs byteorder with
  | .error e => .error (.raised e)
  | .ok none => .ok none
  | .ok (some counterexamples) =>
    match specStrings limit counterexamples secretInputs publicInputs with
    | .error failure => .error (.spec failure)
    | .ok (secretSpec, publicSpec) =>
      match parseInputs childLimit secretSpec publicSpec with
      | .error e => .error (.raised e)
      | .ok bytes => .ok (some bytes)

/-- ABACUS: counterexample, specifications, bytes, all in one process. -/
def abacusInputs (limit : Nat) (layout : List AbacusSecret) (counterexamples : Dict Text Int)
    (symSize : Int) : Except Exc (Option InputBytes) :=
  match buildAbacusSpecs limit counterexamples (abacusNotes layout) symSize with
  | .error e => .error e
  | .ok none => .ok none
  | .ok (some (secretSpec, publicSpec)) =>
    match parseInputs limit secretSpec publicSpec with
    | .error e => .error e
    | .ok bytes => .ok (some bytes)

/-- The replay gets exactly these files, in this order; without any input there
is no replay. -/
def Delivers (result : Option InputBytes) (secrets : List SecretFile)
    (publics : List PublicFile) : Prop :=
  (secrets = [] ∧ publics = [] ∧ result = none) ∨
    ∃ r, result = some r ∧
      r.secretOrig.items = secrets.map (fun s => (s.name, s.orig)) ∧
      r.secretPrime.items = secrets.map (fun s => (s.name, s.prime)) ∧
      r.publicValues.items = publics.map (fun p => (p.name, p.bytes))

/-- A solver model for a list of layouts: distinct identifiers, positive sizes,
and tables whose values are `orig`, `prime` and `pub` in the model's byte order. -/
structure ModelOf (models : Dict Int Model) (addr : Int) (secrets publics : List InputLayout)
    (byteorder : ByteOrder) (orig prime pub : InputLayout → List UInt8) : Prop where
  names : DistinctNames ((secrets ++ publics).map InputLayout.name)
  identifier : ∀ inp ∈ secrets ++ publics, isIdentifier inp.name = true ∧ 0 < inp.size
  tables : ∃ model, models.get? addr = some model ∧ model.items ≠ [] ∧
    (∀ inp ∈ secrets, TableHolds (Model.table model "secret1") byteorder inp (orig inp) ∧
      TableHolds (Model.table model "secret2") byteorder inp (prime inp)) ∧
    ∀ inp ∈ publics, TableHolds (Model.table model "public") byteorder inp (pub inp)

/-- A table value that packs has the size of its layout. -/
theorem TableHolds.length_eq {table : Dict Text Int} {byteorder : ByteOrder} {inp : InputLayout}
    {bytes : List UInt8} (h : TableHolds table byteorder inp bytes) :
    bytes.length = inp.size ∧ inp.size ≤ maxSize := by
  obtain ⟨v, -, hv⟩ := h
  obtain ⟨hmax, hlen, -⟩ := toBytes_spec hv .big
  exact ⟨hlen, hmax⟩

section Binsec

variable {limit childLimit : Nat} {models : Dict Int Model} {addr : Int}
  {secrets publics : List InputLayout} {byteorder : ByteOrder}
  {orig prime pub : InputLayout → List UInt8}

/-- The counterexample of a model: exactly the canonical values. -/
theorem pickModelCounterexamples_eq
    (h : ModelOf models addr secrets publics byteorder orig prime pub) :
    ∃ c : Dict Text Int,
      pickModelCounterexamples models addr secrets publics byteorder =
        .ok (if c.items = [] then none else some c) ∧
      (c.items = [] ↔ secrets = [] ∧ publics = []) ∧
      (∀ inp ∈ secrets, HoldsSecret c (secretFile orig prime inp)) ∧
      ∀ inp ∈ publics, c.get? inp.name = some (bigEndian (pub inp)) := by
  obtain ⟨model, hmodel, hne, hsec, hpub⟩ := h.tables
  have hnames : DistinctNames ((secrets.map (secretFile orig prime)).map SecretFile.name ++
      (publics.map (publicFile pub)).map PublicFile.name) := by
    simpa [secretFile, publicFile, Function.comp_def] using h.names
  obtain ⟨hitems, hs, hp⟩ := holds_of_setAll hnames
  refine ⟨_, ?_, ?_, fun inp hi => hs _ (List.mem_map_of_mem hi),
    fun inp hi => hp _ (List.mem_map_of_mem hi)⟩
  · rw [pickModelCounterexamples, hmodel]
    simp only [if_neg hne, pickSecrets_eq hsec, pickPublics_eq hpub, ← Dict.setAll_append]
  · rw [hitems]
    cases secrets <;> cases publics <;> simp [secretItems, publicItems]

/-- **BINSEC**: the bytes of the model reach the replay. -/
theorem binsecInputs_delivers (hlimit : ValidLimit limit) (hchild : ValidLimit childLimit)
    (h : ModelOf models addr secrets publics byteorder orig prime pub)
    (hps : ∀ inp ∈ secrets, SecretFile.Printable limit (secretFile orig prime inp))
    (hpp : ∀ inp ∈ publics, Printable limit (fromBytes .big (pub inp))) :
    ∃ result, binsecInputs limit childLimit models addr secrets publics byteorder = .ok result ∧
      Delivers result (secrets.map (secretFile orig prime)) (publics.map (publicFile pub)) := by
  obtain ⟨c, hpick, hempty, hs, hp⟩ := pickModelCounterexamples_eq h
  obtain ⟨model, -, -, hsec, hpub⟩ := h.tables
  -- no inputs at all: there is no counterexample, and nothing to deliver
  by_cases hnil : secrets = [] ∧ publics = []
  · refine ⟨none, ?_, Or.inl ⟨by rw [hnil.1]; rfl, by rw [hnil.2]; rfl, rfl⟩⟩
    rw [binsecInputs, hpick, if_pos (hempty.mpr hnil)]
  have hparts : specStrings limit c secrets publics =
      .ok (join [','] ((secrets.map (secretFile orig prime)).map SecretFile.part),
        join [','] ((publics.map (publicFile pub)).map PublicFile.part)) := by
    rw [specStrings, secretParts_eq hlimit fun inp hi =>
        ⟨(hsec inp hi).1.length_eq.1, (hsec inp hi).1.length_eq.2, hs inp hi, hps inp hi⟩,
      publicParts_eq hlimit fun inp hi =>
        ⟨(hpub inp hi).length_eq.1, (hpub inp hi).length_eq.2, hp inp hi, hpp inp hi⟩]
    rfl
  have hnodup := h.names.nodup
  rw [List.map_append, List.nodup_append] at hnodup
  obtain ⟨r, hr, h₁, h₂, h₃⟩ := parseInputs_parts hchild
    (secrets.map (secretFile orig prime)) (publics.map (publicFile pub))
    (by
      intro s hmem
      obtain ⟨inp, hi, rfl⟩ := List.mem_map.mp hmem
      obtain ⟨hid, hpos⟩ := h.identifier inp (List.mem_append_left _ hi)
      obtain ⟨ho, hmax⟩ := (hsec inp hi).1.length_eq
      obtain ⟨hpr, -⟩ := (hsec inp hi).2.length_eq
      simp only [secretFile, ho, hpr]
      exact ⟨⟨hid, hpos, hmax⟩, trivial⟩)
    (by
      intro p hmem
      obtain ⟨inp, hi, rfl⟩ := List.mem_map.mp hmem
      obtain ⟨hid, hpos⟩ := h.identifier inp (List.mem_append_right _ hi)
      obtain ⟨ho, hmax⟩ := (hpub inp hi).length_eq
      simp only [publicFile, ho]
      exact ⟨hid, hpos, hmax⟩)
    (by simpa [secretFile, Function.comp_def] using hnodup.1)
    (by simpa [publicFile, Function.comp_def] using hnodup.2.1)
  refine ⟨some r, ?_, Or.inr ⟨r, rfl, h₁, h₂, h₃⟩⟩
  rw [binsecInputs, hpick, if_neg fun he => hnil (hempty.mp he)]
  simp only [hparts, hr]

end Binsec

/-- **ABACUS**: the seeds and the divergent bytes reach the replay. -/
theorem abacusInputs_delivers {limit : Nat} (hlimit : ValidLimit limit)
    {layout : List AbacusSecret} {a : DivergentAssignment} {c : Dict Text Int}
    (hnames : DistinctNames (layout.map AbacusSecret.name))
    (hsend : ∀ e ∈ layout, Sendable e.name e.size)
    (hc : buildCounterexamples layout a = .ok c)
    (hprint : ∀ s ∈ cut layout (a.bytes layout), SecretFile.Printable limit s)
    (hreserved : ¬ ("base".toList ∈ layout.map AbacusSecret.name ∧
      "mod".toList ∈ layout.map AbacusSecret.name)) (symSize : Int) :
    ∃ result, abacusInputs limit layout c symSize = .ok result ∧
      Delivers result (cut layout (a.bytes layout)) [] := by
  have hholds := holdsDivergent hnames hc
  have hspec := cut_spec hholds.length_eq
  -- an empty layout sends the source to the legacy secret, which these counterexamples do not hold
  by_cases hnil : layout = []
  · subst hnil
    refine ⟨none, ?_, Or.inl ⟨rfl, rfl, rfl⟩⟩
    have hexp : c.get? "exp".toList = none := hholds.other _ (by simp) (by
      intro n he
      have hl := congrArg List.length he
      rw [primeName, List.length_append] at hl
      have h3 : "exp".toList.length = 3 := rfl
      have h7 : "__prime".toList.length = 7 := rfl
      omega)
    have hsecrets : legacySecretParts limit c symSize = .ok none := by
      rw [legacySecretParts, hexp]
    have hspecs : specSecrets limit c (abacusNotes []) symSize = .ok none := hsecrets
    rw [abacusInputs, buildAbacusSpecs, hspecs]
  · have hsecrets : specSecrets limit c (abacusNotes layout) symSize =
        .ok (some ((cut layout (a.bytes layout)).map SecretFile.part)) := by
      rw [← abacusSecretParts_eq hlimit hsend fun s hs => ⟨hholds.holds s hs, hprint s hs⟩]
      cases layout with
      | nil => exact absurd rfl hnil
      | cons e layout => rfl
    -- no public layout is recorded: the legacy publics are tried and, without both names, absent
    have hpublics : specPublics limit c (abacusNotes layout) symSize = .ok (some []) :=
      legacyPublicParts_eq hholds hreserved symSize
    obtain ⟨r, hr, h₁, h₂, h₃⟩ := parseInputs_parts hlimit (cut layout (a.bytes layout)) []
      (by
        intro s hs
        obtain ⟨e, he, hname, horig⟩ := mem_cut hs
        rw [hname, horig]
        exact ⟨hsend e he, (hspec.2.2 s hs).trans (by rw [horig])⟩)
      (by simp)
      (by rw [cut_names]; exact hnames.nodup)
      List.nodup_nil
    refine ⟨some r, ?_, Or.inr ⟨r, rfl, h₁, h₂, h₃⟩⟩
    rw [abacusInputs, buildAbacusSpecs, hsecrets]
    simp only [hpublics]
    rw [show join [','] [] = join [','] (([] : List PublicFile).map PublicFile.part) from rfl, hr]

/-- **Every byte arrives.** For BINSEC: the replay gets, under every secret's name
and in layout order, the bytes of its two model values, and under every public
name the bytes of its value. For ABACUS: the seeds, and the divergent bytes
divided among the secrets. Both as long as the digit limit of the printing
process lets the numbers through and, for ABACUS, the secrets are not called
`base` and `mod`, which the old format without layouts reserves. -/
theorem counterexample_reaches_replay (limit childLimit : Nat) (hlimit : ValidLimit limit)
    (hchild : ValidLimit childLimit) :
    (∀ (models : Dict Int Model) (addr : Int) (secrets publics : List InputLayout)
        (byteorder : ByteOrder) (orig prime pub : InputLayout → List UInt8),
      ModelOf models addr secrets publics byteorder orig prime pub →
      (∀ inp ∈ secrets, Printable limit (fromBytes .big (orig inp)) ∧
        Printable limit (fromBytes .big (prime inp))) →
      (∀ inp ∈ publics, Printable limit (fromBytes .big (pub inp))) →
      ∃ result, binsecInputs limit childLimit models addr secrets publics byteorder = .ok result ∧
        Delivers result
          (secrets.map fun inp => { name := inp.name, orig := orig inp, prime := prime inp })
          (publics.map fun inp => { name := inp.name, bytes := pub inp })) ∧
    ∀ (layout : List AbacusSecret) (a : DivergentAssignment) (c : Dict Text Int) (symSize : Int),
      DistinctNames (layout.map AbacusSecret.name) →
      (∀ e ∈ layout, Sendable e.name e.size) →
      ¬ ("base".toList ∈ layout.map AbacusSecret.name ∧
        "mod".toList ∈ layout.map AbacusSecret.name) →
      buildCounterexamples layout a = .ok c →
      (∀ s ∈ cut layout (a.bytes layout), SecretFile.Printable limit s) →
      ∃ result, abacusInputs limit layout c symSize = .ok result ∧
        Delivers result (cut layout (a.bytes layout)) [] ∧
        (cut layout (a.bytes layout)).map (fun s => (s.name, s.orig)) =
          layout.map (fun e => (e.name, e.seedBytes)) ∧
        (cut layout (a.bytes layout)).flatMap SecretFile.prime = a.bytes layout ∧
        ∀ s ∈ cut layout (a.bytes layout), s.prime.length = s.orig.length := by
  refine ⟨fun models addr secrets publics byteorder orig prime pub h hps hpp =>
    binsecInputs_delivers hlimit hchild h hps hpp,
    fun layout a c symSize hnames hsend hreserved hc hprint => ?_⟩
  obtain ⟨result, hresult, hdel⟩ :=
    abacusInputs_delivers hlimit hnames hsend hc hprint hreserved symSize
  exact ⟨result, hresult, hdel, cut_spec (holdsDivergent hnames hc).length_eq⟩

/-- A two-byte key in little-endian order, and a one-byte ABACUS secret. -/
theorem counterexample_reaches_replay_key :
    (∃ result, binsecInputs 100000 4300
        (.set .empty 4096 (.set (.set .empty "secret1".toList (.set .empty "k".toList 258))
          "secret2".toList (.set .empty "k".toList 3)))
        4096 [⟨"key".toList, 2, "k".toList⟩] [] .little = .ok result ∧
      Delivers result [⟨"key".toList, [2, 1], [3, 0]⟩] []) ∧
    ∃ result, abacusInputs 100000 [⟨"key".toList, [1]⟩]
        (.set (.set .empty "key".toList 1) "key__prime".toList 2) 4 = .ok result ∧
      Delivers result [⟨"key".toList, [1], [2]⟩] [] := by
  obtain ⟨hbinsec, habacus⟩ :=
    counterexample_reaches_replay 100000 4300 (Or.inr (by decide)) (Or.inr (by decide))
  constructor
  · refine hbinsec _ _ [⟨"key".toList, 2, "k".toList⟩] [] .little (fun _ => [2, 1])
      (fun _ => [3, 0]) (fun _ => []) ⟨⟨by simp, by decide⟩, by decide, _, rfl, by decide, ?_,
        by simp⟩ ?_ (by simp)
    · intro inp hi
      obtain rfl := List.mem_singleton.mp hi
      exact ⟨⟨258, by decide, by decide⟩, ⟨3, by decide, by decide⟩⟩
    · intro inp hi
      exact ⟨Or.inr (by decide), Or.inr (by decide)⟩
  · obtain ⟨result, hresult, hdel, -⟩ := habacus [⟨"key".toList, [1]⟩] ⟨[2], []⟩
      (.set (.set .empty "key".toList 1) "key__prime".toList 2) 4 ⟨by simp, by decide⟩
      (by simp [Sendable]; decide) (by decide) (by decide)
      (by
        intro s hs
        obtain rfl : s = ⟨"key".toList, [1], [2]⟩ := List.mem_singleton.mp hs
        exact ⟨Or.inr (by decide), Or.inr (by decide)⟩)
    exact ⟨result, hresult, hdel⟩

/-- A number longer than the converter's digit limit fits its input and still
never reaches the replay: the specification cannot be printed. -/
theorem binsecInputs_unprintable {limit size v : Nat} (childLimit : Nat)
    (hlimit : ValidLimit limit) (hpos : 0 < size) (hsize : size ≤ maxSize) (hv : v < 256 ^ size)
    (hdigits : ¬ Printable limit v) :
    binsecInputs limit childLimit
        (.set .empty 4096 (.set (.set .empty "secret1".toList (.set .empty "k".toList (v : Int)))
          "secret2".toList (.set .empty "k".toList 0)))
        4096 [⟨"key".toList, size, "k".toList⟩] [] .big = .error (.spec .unprintable) := by
  have hbytes : toBytes .big size (v : Int) = some (packBytes .big size v) :=
    toBytes_of_lt hsize hv
  have hzero : toBytes .big size (0 : Int) = some (packBytes .big size 0) :=
    toBytes_of_lt (v := 0) hsize (Nat.pos_of_ne_zero (by simp))
  have hmodel : ModelOf
      (.set .empty 4096 (.set (.set .empty "secret1".toList (.set .empty "k".toList (v : Int)))
        "secret2".toList (.set .empty "k".toList 0)))
      4096 [⟨"key".toList, size, "k".toList⟩] [] .big (fun _ => packBytes .big size v)
      (fun _ => packBytes .big size 0) fun _ => [] := by
    refine ⟨⟨by simp, by simp [primeName]⟩, by simpa [isIdentifier, isIdentifierChar] using hpos,
      _, rfl, by simp [Dict.set, Dict.insert, Dict.empty], ?_, by simp⟩
    intro inp hi
    obtain rfl := List.mem_singleton.mp hi
    exact ⟨⟨v, rfl, hbytes⟩, ⟨0, rfl, hzero⟩⟩
  obtain ⟨c, hpick, hempty, hs, -⟩ := pickModelCounterexamples_eq hmodel
  obtain ⟨hget, hget'⟩ := hs _ (List.mem_singleton.mpr rfl)
  have hvalue : formatInt limit (bigEndian (packBytes .big size v)) = .error .unprintable := by
    rw [bigEndian, fromBytes_packBytes hv, formatInt, strInt, if_pos]
    unfold Printable at hdigits
    rw [not_or, Nat.not_le] at hdigits
    exact hdigits
  have hspec : specStrings limit c [⟨"key".toList, size, "k".toList⟩] [] =
      .error .unprintable := by
    have hnum : formatInt limit (size : Int) = .ok (decimal size) :=
      formatInt_natCast (printable_size hlimit hsize)
    simp only [secretFile] at hget hget'
    simp only [specStrings, secretParts, hget, hget', formatSecret, hnum, hvalue]
    rfl
  rw [binsecInputs, hpick, if_neg fun he => by simpa using hempty.mp he]
  simp only [hspec]

/-- `configure_int_max_str_digits()` allows `100000` digits: `10 ^ 100000`, a
valid value of a `100000`-byte key, has one more. And two secrets called `base`
and `mod` come with public inputs no layout lists. -/
theorem counterexample_lost_or_added :
    (10 ^ 100000 < 256 ^ 100000 ∧
      binsecInputs 100000 4300
        (.set .empty 4096 (.set (.set .empty "secret1".toList
          (.set .empty "k".toList ((10 ^ 100000 : Nat) : Int)))
          "secret2".toList (.set .empty "k".toList 0)))
        4096 [⟨"key".toList, 100000, "k".toList⟩] [] .big = .error (.spec .unprintable)) ∧
    (buildCounterexamples [⟨"base".toList, [1]⟩, ⟨"mod".toList, [2]⟩] ⟨[3, 4], []⟩ =
        .ok (.setAll .empty [("base".toList, 1), ("base__prime".toList, 3), ("mod".toList, 2),
          ("mod__prime".toList, 4)]) ∧
      (abacusInputs 100000 [⟨"base".toList, [1]⟩, ⟨"mod".toList, [2]⟩]
        (.setAll .empty [("base".toList, 1), ("base__prime".toList, 3), ("mod".toList, 2),
          ("mod__prime".toList, 4)]) 4).map (Option.map fun r => r.publicValues.keys) =
        .ok (some ["base".toList, "mod".toList])) := by
  have hlt : 10 ^ 100000 < 256 ^ 100000 := Nat.pow_lt_pow_left (by decide) (by decide)
  refine ⟨⟨hlt, binsecInputs_unprintable 4300 (Or.inr (by decide)) (by decide) (by decide) hlt ?_⟩,
    by decide +kernel, by decide +kernel⟩
  rintro (h | h)
  · cases h
  · rw [decimal, Nat.length_toDigits_le_iff (by decide) (by decide)] at h
    exact Nat.lt_irrefl _ h

end KleeDeps.Converters
