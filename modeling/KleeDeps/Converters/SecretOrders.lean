import KleeDeps.Converters.Delivery
import KleeDeps.Converters.SecretLayout

/-!
# The three orders of the ABACUS secrets

ABACUS numbers the bytes of its input by the calls of `abacus_make_symbolic`, the
converter divides them by the layout it loads from the runner config, and the replay
executable loads its files in the order of the generated header. The three orders come
from three tables of one file, and the checks of the generator compare them as sets.

- `Delivered`: the orders coincide, and a reported byte ends in the file that is loaded
  into the buffer it was found in;
- `get?_prime_of_build`: which value a counterexample holds for a divergent secret;
- `delivered_iff`: **every byte arrives iff the tables list the secrets in the same
  order**, and no secret is followed by one that is called like its divergent value.
-/

namespace KleeDeps.Converters

open Py Replay Runner

/-! ## Delivery -/

/-- The byte a divergent input reports for an offset: with offsets the last one for it,
without them the one at its position. -/
def DivergentAssignment.reported (a : DivergentAssignment) (offset : Nat) : Option UInt8 :=
  if a.offsetValues ≠ [] then
    (Dict.lookup (offset : Int) a.offsetValues.reverse).map fun v => UInt8.ofNat v.toNat
  else a.values[offset]?

/-- The file of a secret in the divergent run: the value of the counterexample in as many
bytes as the layout says, the most significant first. -/
def PrimeFile (c : Dict Text Int) (e : AbacusSecret) (file : List UInt8) : Prop :=
  file.length = e.size ∧ c.get? (primeName e.name) = some (bigEndian file)

/-- Every reported byte ends in the file that is loaded into the buffer it was found in.
The replay hands over one file for each entry of the layout, and the executable loads
them in the order of `loads`. -/
def BytesReach (calls : List AbacusCall) (layout : List (Text × AbacusSecret))
    (loads : List RunnerInput) : Prop :=
  ∀ (a : DivergentAssignment) (c : Dict Text Int),
    buildCounterexamples (layout.map Prod.snd) a = .ok c →
    ∀ (i k : Nat) (call : AbacusCall) (v : UInt8), calls[i]? = some call → k < call.size →
      a.reported (baseOffset calls i + k) = some v →
      ∃ (j : Nat) (load : RunnerInput) (entry : Text × AbacusSecret) (file : List UInt8),
        loads[j]? = some load ∧ load.id = call.id ∧ layout[j]? = some entry ∧
        PrimeFile c entry.2 file ∧ file[k]? = some v

/-- The layout loads, the three orders coincide and hold every secret once, and the
bytes arrive. -/
def Delivered (repr : Value → Text) (cfg : List (Text × Value)) (r : Resolved) : Prop :=
  ∃ layout, loadAbacusSecretLayout repr cfg r.presetName = .ok layout ∧
    (abacusCalls r).map AbacusCall.id = layout.map Prod.fst ∧
    layout.map Prod.fst = (r.inputs.ofKind .secret).map RunnerInput.id ∧
    (layout.map Prod.fst).Nodup ∧
    (∀ id, id ∈ layout.map Prod.fst ↔
      ∃ input ∈ r.inputs.inputs, input.id = id ∧ input.kind = .secret) ∧
    BytesReach (abacusCalls r) layout (r.inputs.ofKind .secret)

/-- The policy and the seeds of the preset list the secrets in the order of `inputs`, and
no secret is followed by one that is called like its divergent value. -/
structure Aligned (cfg : List (Text × Value)) (presetName : Text) : Prop where
  policy : (secretInputsOf cfg).map Value.asStr? = (secretsOf cfg).map fun s => some s.1
  seeds : (seedsOf cfg presetName).map Prod.fst = (secretsOf cfg).map Prod.fst
  names : ((secretsOf cfg).map Prod.snd).Pairwise fun n m => m ≠ primeName n

/-! ## Which value a counterexample holds for a divergent secret -/

/-- No key of later secrets is the divergent key of an earlier one. -/
theorem prime_notMem_keys {files : List SecretFile} {n : Text}
    (hn : n ∉ files.map SecretFile.name) (hprime : primeName n ∉ files.map SecretFile.name) :
    primeName n ∉ (secretItems files).map Prod.fst := by
  have hkeys := keys_items files []
  simp only [publicItems, List.map_nil, List.append_nil] at hkeys
  rw [hkeys, mem_counterexampleKeys, List.append_nil]
  rintro (hmem | ⟨m, hm, he⟩)
  · exact hprime hmem
  · exact hn (primeName_injective he ▸ hm)

theorem setAll_secretItems_cons (d : Dict Text Int) (file : SecretFile)
    (files : List SecretFile) :
    d.setAll (secretItems (file :: files)) =
      ((d.set file.name (bigEndian file.orig)).set (primeName file.name)
        (bigEndian file.prime)).setAll (secretItems files) := rfl

/-- **The divergent values survive** where no secret is followed by one of the name of its
divergent value. -/
theorem get?_prime_secretItems {files : List SecretFile}
    (hnodup : (files.map SecretFile.name).Nodup)
    (hnames : (files.map SecretFile.name).Pairwise fun n m => m ≠ primeName n)
    {s : SecretFile} (hs : s ∈ files) (d : Dict Text Int) :
    (d.setAll (secretItems files)).get? (primeName s.name) = some (bigEndian s.prime) := by
  induction files generalizing d with
  | nil => cases hs
  | cons file files ih =>
    rw [List.map_cons] at hnodup hnames
    obtain ⟨hn, hnodup⟩ := List.nodup_cons.mp hnodup
    obtain ⟨hlater, hnames⟩ := List.pairwise_cons.mp hnames
    rw [setAll_secretItems_cons]
    rcases List.mem_cons.mp hs with rfl | hs
    · have hprime : primeName s.name ∉ files.map SecretFile.name := fun hmem =>
        hlater _ hmem rfl
      rw [Dict.get?_setAll_of_notMem _ (prime_notMem_keys hn hprime), Dict.get?_set_self]
    · exact ih hnodup hnames hs _

/-- A secret that is called like the divergent value of an earlier one replaces it by its
own seed. -/
theorem get?_name_secretItems {before after : List SecretFile} {s : SecretFile} {n : Text}
    (hname : s.name = primeName n)
    (hnodup : ((before ++ s :: after).map SecretFile.name).Nodup)
    (hn : n ∈ before.map SecretFile.name) (d : Dict Text Int) :
    (d.setAll (secretItems (before ++ s :: after))).get? (primeName n) =
      some (bigEndian s.orig) := by
  have hitems : secretItems (before ++ s :: after) =
      secretItems before ++ secretItems (s :: after) := by
    simp [secretItems]
  rw [List.map_append, List.map_cons, List.nodup_append] at hnodup
  have hlater : n ∉ after.map SecretFile.name := fun hmem =>
    hnodup.2.2 n hn n (List.mem_cons_of_mem _ hmem) rfl
  have hafter : primeName n ∉ after.map SecretFile.name := by
    rw [← hname]
    exact (List.nodup_cons.mp hnodup.2.1).1
  have hne : primeName s.name ≠ primeName n := by
    intro he
    have hl := congrArg List.length (primeName_injective he ▸ hname)
    rw [primeName, List.length_append] at hl
    have h7 : "__prime".toList.length = 7 := rfl
    omega
  rw [hitems, Dict.setAll_append, setAll_secretItems_cons,
    Dict.get?_setAll_of_notMem _ (prime_notMem_keys hlater hafter),
    Dict.get?_set_of_ne _ hne, hname, Dict.get?_set_self]

section Stored

variable {layout : List AbacusSecret} {a : DivergentAssignment} {c : Dict Text Int}

/-- The offset form: the divergent values are stored last, so they always survive. -/
theorem get?_prime_of_offsets {offsetValues : List (Int × Int)}
    (hnodup : (layout.map AbacusSecret.name).Nodup)
    (h : counterexamplesFromOffsets layout offsetValues = .ok c) {s : SecretFile}
    (hs : s ∈ cut layout (storeBytes (layout.flatMap AbacusSecret.seedBytes) offsetValues)) :
    c.get? (primeName s.name) = some (bigEndian s.prime) := by
  obtain ⟨primeBytes, hstore, rfl⟩ := counterexamplesFromOffsets_eq h
  have hprime := get?_of_storeAll hnodup hstore s hs
  obtain ⟨e, he, hname, -⟩ := mem_cut hs
  rw [offsetItems, Dict.setAll_append, Dict.get?_setAll, Dict.lookup_of_mem]
  · rfl
  · rw [List.map_reverse, List.nodup_reverse, List.map_map]
    show (layout.map (primeName ∘ AbacusSecret.name)).Nodup
    rw [← List.map_map]
    exact hnodup.map primeName_injective
  · rw [List.mem_reverse]
    refine List.mem_map.mpr ⟨e, he, ?_⟩
    rw [← hname, hprime, bytesToInt_eq]
    rfl

/-- Both forms: the divergent values of an accepted assignment. -/
theorem get?_prime_of_build (hnodup : (layout.map AbacusSecret.name).Nodup)
    (hnames : (layout.map AbacusSecret.name).Pairwise fun n m => m ≠ primeName n)
    (h : buildCounterexamples layout a = .ok c) :
    (a.bytes layout).length = totalSize layout ∧
      ∀ s ∈ cut layout (a.bytes layout),
        c.get? (primeName s.name) = some (bigEndian s.prime) := by
  unfold DivergentAssignment.bytes
  rcases buildCounterexamples_cases h with ⟨hoff, h⟩ | ⟨hoff, h⟩
  · rw [if_pos hoff]
    exact ⟨by rw [length_storeBytes, length_seeds], fun s hs =>
      get?_prime_of_offsets hnodup h hs⟩
  · rw [if_neg (not_not.mpr hoff)]
    obtain ⟨hlen, rfl⟩ := counterexamplesFromBytes_ok h
    refine ⟨hlen, fun s hs => ?_⟩
    rw [assignBytes_eq, List.drop_zero]
    rw [← cut_names layout a.values] at hnodup hnames
    exact get?_prime_secretItems hnodup hnames hs _

theorem offsets_of_storeAll {offsetValues : List (Int × Int)}
    {primeBytes result : Dict Text (List UInt8)}
    (h : storeAll layout primeBytes offsetValues = .ok result) :
    ∀ ov ∈ offsetValues, 0 ≤ ov.1 ∧ ov.1 < totalSize layout := by
  induction offsetValues generalizing primeBytes with
  | nil =>
    intro ov hov
    cases hov
  | cons ov rest ih =>
    rw [storeAll] at h
    split at h
    · cases h
    · next hrange =>
      split at h
      · cases h
      · intro x hx
        rcases List.mem_cons.mp hx with rfl | hx
        · constructor <;> omega
        · exact ih h x hx

/-- What stands at an offset after storing: the last value for it. -/
theorem getElem?_storeBytes {bytes : List UInt8} {offsetValues : List (Int × Int)}
    (h : ∀ ov ∈ offsetValues, 0 ≤ ov.1 ∧ ov.1 < bytes.length) {o : Nat} {v : Int}
    (hv : Dict.lookup (o : Int) offsetValues.reverse = some v) :
    (storeBytes bytes offsetValues)[o]? = some (UInt8.ofNat v.toNat) := by
  induction offsetValues using List.reverseRecOn with
  | nil => cases hv
  | append_singleton offsetValues ov ih =>
    have hstore : storeBytes bytes (offsetValues ++ [ov]) =
        (storeBytes bytes offsetValues).set ov.1.toNat (UInt8.ofNat ov.2.toNat) := by
      simp [storeBytes]
    obtain ⟨hnonneg, hlt⟩ := h ov (by simp)
    obtain ⟨offset, value⟩ := ov
    rw [List.reverse_append, List.reverse_singleton, List.singleton_append, Dict.lookup] at hv
    rw [hstore]
    by_cases ho : offset = (o : Int)
    · rw [if_pos ho] at hv
      obtain rfl := Option.some.inj hv
      have hto : offset.toNat = o := by omega
      rw [hto, List.getElem?_set_self]
      rw [length_storeBytes]
      omega
    · rw [if_neg ho] at hv
      have hto : offset.toNat ≠ o := by omega
      rw [List.getElem?_set_ne hto]
      exact ih (fun x hx => h x (by simp [hx])) hv

/-- A reported byte stands at its offset in the divergent input. -/
theorem getElem?_bytes (h : buildCounterexamples layout a = .ok c) {o : Nat} {v : UInt8}
    (hv : a.reported o = some v) : (a.bytes layout)[o]? = some v := by
  unfold DivergentAssignment.reported at hv
  unfold DivergentAssignment.bytes
  rcases buildCounterexamples_cases h with ⟨hoff, h⟩ | ⟨hoff, -⟩
  · rw [if_pos hoff] at hv ⊢
    obtain ⟨primeBytes, hstore, -⟩ := counterexamplesFromOffsets_eq h
    obtain ⟨w, hw, rfl⟩ := Option.map_eq_some_iff.mp hv
    refine getElem?_storeBytes ?_ hw
    rw [length_seeds]
    exact offsets_of_storeAll hstore
  · rw [if_neg (not_not.mpr hoff)] at hv ⊢
    exact hv

theorem totalSize_take_add_le {i : Nat} {e : AbacusSecret} (he : layout[i]? = some e) :
    totalSize (layout.take i) + e.size ≤ totalSize layout := by
  induction layout generalizing i with
  | nil => cases he
  | cons entry layout ih =>
    have htotal : totalSize (entry :: layout) = entry.size + totalSize layout := by
      simp [totalSize]
    cases i with
    | zero =>
      obtain rfl := Option.some.inj he
      show 0 + _ ≤ _
      omega
    | succ i =>
      have hsum : totalSize ((entry :: layout).take (i + 1)) =
          entry.size + totalSize (layout.take i) := by
        simp [totalSize]
      have := ih he
      omega

/-- The part of one entry. -/
theorem getElem?_cut {bytes : List UInt8} {i : Nat} {e : AbacusSecret}
    (he : layout[i]? = some e) :
    (cut layout bytes)[i]? = some
      { name := e.name, orig := e.seedBytes
        prime := (bytes.drop (totalSize (layout.take i))).take e.size } := by
  induction layout generalizing bytes i with
  | nil => cases he
  | cons entry layout ih =>
    cases i with
    | zero =>
      obtain rfl := Option.some.inj he
      rfl
    | succ i =>
      have hsum : totalSize ((entry :: layout).take (i + 1)) =
          entry.size + totalSize (layout.take i) := by
        simp [totalSize]
      rw [cut, List.getElem?_cons_succ, hsum, ← List.drop_drop]
      exact ih he

end Stored

/-! ## The orders -/

section Orders

variable {repr : Value → Text} {cfg : List (Text × Value)} {r : Resolved}

/-- The layout of the converter, if it follows the inputs. -/
def layoutOf (r : Resolved) : List (Text × AbacusSecret) :=
  (r.inputs.ofKind .secret).map fun input => (input.id, resolvedSecret r input)

theorem mem_ofKind {inputs : RunnerInputs} {kind : InputKind} {input : RunnerInput}
    (h : input ∈ inputs.ofKind kind) : input ∈ inputs.inputs ∧ input.kind = kind := by
  obtain ⟨hmem, hkind⟩ := List.mem_filter.mp h
  exact ⟨hmem, of_decide_eq_true hkind⟩

theorem nodup_ids_ofKind (inputs : RunnerInputs) (kind : InputKind) :
    ((inputs.ofKind kind).map RunnerInput.id).Nodup :=
  inputs.distinctIds.sublist (List.filter_sublist.map _)

theorem nodup_names_ofKind (inputs : RunnerInputs) (kind : InputKind) :
    ((inputs.ofKind kind).map RunnerInput.name).Nodup :=
  inputs.distinctNames.sublist (List.filter_sublist.map _)

/-- A policy in the order of the inputs gives the layout of the inputs. -/
theorem load_of_policy (h : Accepted repr cfg r)
    (hpolicy : (secretInputsOf cfg).map Value.asStr? = (secretsOf cfg).map fun s => some s.1) :
    loadAbacusSecretLayout repr cfg r.presetName = .ok (layoutOf r) := by
  refine loadAbacusSecretLayout_of_policy h (fun input hinput => mem_ofKind hinput) ?_
  rw [secretsOf_eq h, List.map_map, ← List.forall₂_eq_eq_eq, List.forall₂_map_left_iff,
    List.forall₂_map_right_iff] at hpolicy
  rw [← List.forall₂_eq_eq_eq, List.forall₂_map_right_iff]
  exact hpolicy.imp fun _ _ => eq_str_of_asStr

/-- Seeds in the order of the inputs give the calls of the inputs. -/
theorem calls_of_seeds (h : Accepted repr cfg r)
    (hseeds : (seedsOf cfg r.presetName).map Prod.fst = (secretsOf cfg).map Prod.fst) :
    abacusCalls r = (r.inputs.ofKind .secret).map (callOf r) := by
  refine filterMap_calls (fun input hinput => (mem_ofKind hinput).1) ?_
  rw [(arrays_ids h).1, hseeds, secretsOf_eq h, List.map_map]
  rfl

/-- The size a layout gives a secret is the one its buffer has. -/
theorem size_resolvedSecret (h : Accepted repr cfg r) {input : RunnerInput}
    (hinput : input ∈ r.inputs.ofKind .secret) :
    (resolvedSecret r input).size = (callOf r input).size :=
  (loadSecret_eq h (mem_ofKind hinput).1 (mem_ofKind hinput).2).2

theorem sizeofInput_pos (h : Accepted repr cfg r) {input : RunnerInput}
    (hinput : input ∈ r.inputs.inputs) : 0 < sizeofInput r.macros input := by
  obtain ⟨-, sizes, -, -, hsizes, -, -⟩ := h.arrays
  obtain ⟨p, -, hp⟩ := Sequence.exists_right_of_mapM hsizes hinput
  unfold sizeofInput
  rcases resolveSize_ok hp with ⟨n, hsize, hpos, -⟩ | ⟨s, n, hsize, hlookup, -⟩
  · rw [hsize]
    show 0 < n.toNat
    omega
  · rw [hsize]
    show 0 < (Dict.lookup s r.macros).getD 0
    rw [hlookup]
    exact (field_of_readMacro h.macros hlookup).2

/-- The offsets of ABACUS are the ones at which the converter cuts. -/
theorem baseOffset_eq {secrets : List RunnerInput}
    (hsize : ∀ input ∈ secrets, (resolvedSecret r input).size = (callOf r input).size) (i : Nat) :
    baseOffset (secrets.map (callOf r)) i =
      totalSize ((secrets.map (resolvedSecret r)).take i) := by
  unfold baseOffset totalSize
  rw [← List.map_take, ← List.map_take, List.map_map, List.map_map]
  refine congrArg List.sum (List.map_congr_left fun input hinput => ?_)
  exact (hsize input (List.mem_of_mem_take hinput)).symm

theorem layoutOf_snd (r : Resolved) :
    (layoutOf r).map Prod.snd = (r.inputs.ofKind .secret).map (resolvedSecret r) := by
  rw [layoutOf, List.map_map]
  rfl

theorem names_layoutOf (r : Resolved) :
    ((layoutOf r).map Prod.snd).map AbacusSecret.name =
      (r.inputs.ofKind .secret).map RunnerInput.name := by
  rw [layoutOf_snd, List.map_map]
  rfl

/-- **The bytes arrive** where the orders coincide and no divergent value is replaced. -/
theorem bytesReach_of_names (h : Accepted repr cfg r)
    (hnames : ((r.inputs.ofKind .secret).map RunnerInput.name).Pairwise fun n m =>
      m ≠ primeName n) :
    BytesReach ((r.inputs.ofKind .secret).map (callOf r)) (layoutOf r)
      (r.inputs.ofKind .secret) := by
  intro a c hbuild i k call v hcall hk hv
  have hnodup := nodup_names_ofKind r.inputs .secret
  rw [← names_layoutOf] at hnodup hnames
  obtain ⟨hlen, hholds⟩ := get?_prime_of_build hnodup hnames hbuild
  rw [List.getElem?_map] at hcall
  obtain ⟨input, hinput, rfl⟩ := Option.map_eq_some_iff.mp hcall
  have hmem : input ∈ r.inputs.ofKind .secret := List.mem_of_getElem? hinput
  have hentry : ((layoutOf r).map Prod.snd)[i]? = some (resolvedSecret r input) := by
    rw [layoutOf_snd, List.getElem?_map, hinput]
    rfl
  have hlayout : (layoutOf r)[i]? = some (input.id, resolvedSecret r input) := by
    rw [layoutOf, List.getElem?_map, hinput]
    rfl
  -- the part of the secret, and what the counterexample holds for it
  have hpart := @getElem?_cut _ (a.bytes ((layoutOf r).map Prod.snd)) _ _ hentry
  have hcut := List.mem_of_getElem? hpart
  refine ⟨i, input, _, _, hinput, rfl, hlayout, ⟨(cut_spec hlen).2.2 _ hcut, hholds _ hcut⟩, ?_⟩
  have hbyte := getElem?_bytes hbuild hv
  rw [baseOffset_eq (fun x hx => size_resolvedSecret h hx), ← layoutOf_snd] at hbyte
  rw [← size_resolvedSecret h hmem] at hk
  rw [List.getElem?_take, if_pos hk, List.getElem?_drop]
  exact hbyte

theorem bigEndian_inj {xs ys : List UInt8} (hlen : xs.length = ys.length)
    (h : bigEndian xs = bigEndian ys) : xs = ys := by
  have hnum : fromBytes .big xs = fromBytes .big ys := Int.ofNat.inj h
  rw [← packBytes_fromBytes .big xs, ← packBytes_fromBytes .big ys, hnum, hlen]

/-- The divergent input that reports one byte everywhere. -/
def constantInput (layout : List AbacusSecret) (b : UInt8) : DivergentAssignment :=
  { values := List.replicate (totalSize layout) b, offsetValues := [] }

theorem build_constantInput (layout : List AbacusSecret) (b : UInt8) :
    buildCounterexamples layout (constantInput layout b) =
      .ok (.setAll .empty
        (secretItems (cut layout (List.replicate (totalSize layout) b)))) := by
  unfold buildCounterexamples counterexamplesFromBytes constantInput
  rw [if_neg (not_not.mpr rfl), if_neg (not_not.mpr List.length_replicate), assignBytes_eq,
    List.drop_zero]

/-- Where a later secret is called like the divergent value of an earlier one, the
counterexample holds its seed instead, whatever was reported. -/
theorem get?_constantInput {layout : List AbacusSecret}
    (hnodup : (layout.map AbacusSecret.name).Nodup) {i j : Nat} {e f : AbacusSecret}
    (hij : i < j) (he : layout[i]? = some e) (hf : layout[j]? = some f)
    (hname : f.name = primeName e.name) (b : UInt8) :
    (Dict.setAll .empty (secretItems (cut layout
        (List.replicate (totalSize layout) b)))).get? (primeName e.name) =
      some (bigEndian f.seedBytes) := by
  generalize List.replicate (totalSize layout) b = bytes
  rw [← cut_names layout bytes] at hnodup
  have hi := @getElem?_cut _ bytes _ _ he
  obtain ⟨hj, hpart⟩ := List.getElem?_eq_some_iff.mp (@getElem?_cut _ bytes _ _ hf)
  have hsplit : (cut layout bytes).take j ++ (cut layout bytes)[j] ::
      (cut layout bytes).drop (j + 1) = cut layout bytes := by
    rw [List.getElem_cons_drop, List.take_append_drop]
  have htake := (List.getElem?_take_of_lt hij).trans hi
  rw [← hsplit] at hnodup ⊢
  rw [hpart] at hnodup ⊢
  exact get?_name_secretItems hname hnodup
    (List.mem_map.mpr ⟨_, List.mem_of_getElem? htake, rfl⟩) _

/-- **A replaced value is noticed**: where the bytes arrive for every divergent input, no
secret is followed by one of the name of its divergent value. -/
theorem names_of_bytesReach (h : Accepted repr cfg r)
    (hreach : BytesReach ((r.inputs.ofKind .secret).map (callOf r)) (layoutOf r)
      (r.inputs.ofKind .secret)) :
    ((r.inputs.ofKind .secret).map RunnerInput.name).Pairwise fun n m => m ≠ primeName n := by
  rw [List.pairwise_map, List.pairwise_iff_getElem]
  intro i j hi hj hij hname
  have hnodup := nodup_names_ofKind r.inputs .secret
  rw [← names_layoutOf, layoutOf_snd] at hnodup
  generalize hinput : (r.inputs.ofKind .secret)[i] = input at hname
  have hsome : (r.inputs.ofKind .secret)[i]? = some input := by
    rw [List.getElem?_eq_getElem hi, hinput]
  have hmem : input ∈ r.inputs.ofKind .secret := List.mem_of_getElem? hsome
  have he : ((r.inputs.ofKind .secret).map (resolvedSecret r))[i]? =
      some (resolvedSecret r input) := by
    rw [List.getElem?_map, hsome]
    rfl
  have hf : ((r.inputs.ofKind .secret).map (resolvedSecret r))[j]? =
      some (resolvedSecret r (r.inputs.ofKind .secret)[j]) := by
    rw [List.getElem?_map, List.getElem?_eq_getElem hj]
    rfl
  -- two constant inputs leave the same value for the secret, but have to leave their byte
  have hfile : ∀ b : UInt8, ∃ file : List UInt8,
      file.length = (resolvedSecret r input).size ∧ file[0]? = some b ∧
        some (bigEndian file) =
          some (bigEndian (resolvedSecret r (r.inputs.ofKind .secret)[j]).seedBytes) := by
    intro b
    have hbuild := build_constantInput ((r.inputs.ofKind .secret).map (resolvedSecret r)) b
    have hcall : ((r.inputs.ofKind .secret).map (callOf r))[i]? = some (callOf r input) := by
      rw [List.getElem?_map, hsome]
      rfl
    have hpos : 0 < (callOf r input).size := sizeofInput_pos h (mem_ofKind hmem).1
    have hlt : baseOffset ((r.inputs.ofKind .secret).map (callOf r)) i + 0 <
        totalSize ((r.inputs.ofKind .secret).map (resolvedSecret r)) := by
      have hle := totalSize_take_add_le he
      rw [size_resolvedSecret h hmem] at hle
      rw [baseOffset_eq fun x hx => size_resolvedSecret h hx]
      omega
    rw [← layoutOf_snd] at hbuild
    obtain ⟨j', load, entry, file, hload, hid, hentry, ⟨hlen, hget⟩, hbyte⟩ :=
      hreach _ _ hbuild i 0 _ b hcall hpos (by
        rw [layoutOf_snd]
        exact List.getElem?_replicate_of_lt hlt)
    obtain rfl : load = input := List.inj_on_of_nodup_map r.inputs.distinctIds
      (mem_ofKind (List.mem_of_getElem? hload)).1 (mem_ofKind hmem).1 hid
    obtain rfl : entry = (load.id, resolvedSecret r load) := by
      rw [layoutOf, List.getElem?_map, hload] at hentry
      exact (Option.some.inj hentry).symm
    refine ⟨file, hlen, hbyte, ?_⟩
    rw [← hget, layoutOf_snd]
    exact get?_constantInput hnodup hij he hf hname b
  obtain ⟨file, hlen, hbyte, hvalue⟩ := hfile 0
  obtain ⟨file', hlen', hbyte', hvalue'⟩ := hfile 1
  have hsame : file = file' := bigEndian_inj (by rw [hlen, hlen'])
    (Option.some.inj (hvalue.trans hvalue'.symm))
  rw [hsame, hbyte'] at hbyte
  exact absurd (Option.some.inj hbyte) (by decide)

/-- **Every divergent byte reaches the buffer it was found in**, and the three orders
coincide, iff the policy and the seeds of the preset list the secrets in the order of the
inputs and no secret is followed by one of the name of its divergent value. -/
theorem delivered_iff {selected : Option Text}
    (hload : loadResolvedConfig repr cfg selected = .ok r) :
    Delivered repr cfg r ↔ Aligned cfg r.presetName := by
  have h := (loadResolvedConfig_spec hload).1
  have hsecrets := secretsOf_eq h
  have hids : (secretsOf cfg).map Prod.fst =
      (r.inputs.ofKind .secret).map RunnerInput.id := by
    rw [hsecrets, List.map_map]
    rfl
  have hnames : (secretsOf cfg).map Prod.snd =
      (r.inputs.ofKind .secret).map RunnerInput.name := by
    rw [hsecrets, List.map_map]
    rfl
  constructor
  · rintro ⟨layout, hlayout, hcalls, hloads, -, -, hreach⟩
    -- the ids loaded are those of the policy, in its order
    have hpolicy : (secretInputsOf cfg).map Value.asStr? =
        (secretsOf cfg).map fun s => some s.1 := by
      have hmap : (layout.map Prod.fst).map some = ((secretsOf cfg).map Prod.fst).map some := by
        rw [hloads, hids]
      rw [layout_ids h hlayout]
      rwa [List.map_map, List.map_map] at hmap
    have hseeds : (seedsOf cfg r.presetName).map Prod.fst = (secretsOf cfg).map Prod.fst := by
      rw [← abacusCalls_ids h, hcalls, hloads, hids]
    refine ⟨hpolicy, hseeds, ?_⟩
    rw [load_of_policy h hpolicy] at hlayout
    rw [calls_of_seeds h hseeds, ← Except.ok.inj hlayout] at hreach
    rw [hnames]
    exact names_of_bytesReach h hreach
  · rintro ⟨hpolicy, hseeds, hpairs⟩
    -- conversely the layout that loads is the one the runner was generated from
    have hlayoutIds : (layoutOf r).map Prod.fst =
        (r.inputs.ofKind .secret).map RunnerInput.id := by
      rw [layoutOf, List.map_map]
      rfl
    refine ⟨layoutOf r, load_of_policy h hpolicy, ?_, hlayoutIds, ?_, ?_, ?_⟩
    · rw [abacusCalls_ids h, hseeds, hids, hlayoutIds]
    · rw [hlayoutIds]
      exact nodup_ids_ofKind r.inputs .secret
    · intro id
      rw [hlayoutIds]
      exact mem_ids
    · rw [calls_of_seeds h hseeds]
      rw [hnames] at hpairs
      exact bytesReach_of_names h hpairs

end Orders

/-- A config with two one-byte secrets, `a` and `b`, and one preset: the policy and the
seeds list them in any order. -/
def twoSecrets (policy : List Text) (seeds : List (Text × Value)) : List (Text × Value) :=
  [("inputs".toList, .list
      [.dict [("id".toList, .str "a".toList), ("name".toList, .str "key".toList),
        ("kind".toList, .str "secret".toList), ("size".toList, .int 1)],
       .dict [("id".toList, .str "b".toList), ("name".toList, .str "mask".toList),
        ("kind".toList, .str "secret".toList), ("size".toList, .int 1)]]),
   ("mode_policy".toList, .dict
      [("var_pub".toList, .dict [("public_symbolic".toList, .bool true)]),
       ("fix_pub".toList, .dict [("public_symbolic".toList, .bool false)]),
       ("abacus".toList, .dict [("public_fixed".toList, .bool true),
         ("secret_inputs".toList, .list (policy.map Value.str))])]),
   ("presets".toList, .dict
      [("small".toList, .dict [("abacus_secrets".toList, .dict seeds)])])]

/-- Both lists in the order of the inputs. -/
theorem delivered_iff_twoSecrets :
    ∃ r, loadResolvedConfig (fun _ => []) (twoSecrets ["a".toList, "b".toList]
        [("a".toList, .int 1), ("b".toList, .int 2)]) none = .ok r ∧
      Delivered (fun _ => []) (twoSecrets ["a".toList, "b".toList]
        [("a".toList, .int 1), ("b".toList, .int 2)]) r := by
  refine ⟨_, rfl, (@delivered_iff _ _ _ none rfl).mpr ⟨?_, ?_, ?_⟩⟩
  · rfl
  · rfl
  · decide

/-- Seeds in the other order are accepted as well. ABACUS then numbers the byte of `b`
first, and the converter and the replay take it for the byte of `a`: of the report `7, 9`
the `7` was found in `b`, and the file for `b` holds the `9`. -/
theorem seeds_in_other_order :
    ∃ r, loadResolvedConfig (fun _ => []) (twoSecrets ["a".toList, "b".toList]
        [("b".toList, .int 2), ("a".toList, .int 1)]) none = .ok r ∧
      ¬ Delivered (fun _ => []) (twoSecrets ["a".toList, "b".toList]
        [("b".toList, .int 2), ("a".toList, .int 1)]) r ∧
      ¬ BytesReach (abacusCalls r)
        [("a".toList, ⟨"key".toList, [1]⟩), ("b".toList, ⟨"mask".toList, [2]⟩)]
        (r.inputs.ofKind .secret) := by
  refine ⟨_, rfl, ?_, ?_⟩
  · rintro ⟨layout, hlayout, hcalls, hloads, -⟩
    rw [hloads] at hcalls
    exact absurd hcalls (by decide)
  · intro hreach
    obtain ⟨j, load, entry, file, hload, hid, hentry, ⟨hlen, hget⟩, hbyte⟩ :=
      hreach ⟨[7, 9], []⟩ (.setAll .empty [("key".toList, 1), ("key__prime".toList, 7),
        ("mask".toList, 2), ("mask__prime".toList, 9)]) rfl 0 0
        ⟨"b".toList, "mask".toList, 1⟩ 7 rfl (by decide) rfl
    cases j with
    | zero =>
      obtain rfl := Option.some.inj hload
      exact absurd hid (by decide)
    | succ j =>
      cases j with
      | zero =>
        obtain rfl := Option.some.inj hentry
        obtain ⟨b, rfl⟩ := List.length_eq_one_iff.mp hlen
        obtain rfl := Option.some.inj hbyte
        exact absurd hget (by decide)
      | succ j => cases hentry

end KleeDeps.Converters
