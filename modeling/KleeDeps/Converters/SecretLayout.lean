import KleeDeps.Converters.Counterexamples
import KleeDeps.Runner.Config

/-!
# The ABACUS secrets of a runner config

The generated header and the converter read the ABACUS secrets from the same runner
config, each with readers of its own.

- `loadAbacusSecretLayout`: the layout of the converter;
- `abacusCalls`: the calls of `abacus_make_symbolic` in the generated header;
- `loadSecret_eq`: **both read a secret of an accepted config alike**, its size and its
  seed byte by byte;
- `layout_ids`, `abacusCalls_ids`: the layout follows the policy, the calls follow the
  seeds of the preset.
-/

namespace KleeDeps.Converters

open Py Runner

/-! ## The layout of the converter (`abacus_log_to_json.py`) -/

section Layout

variable (repr : Value → Text)

/-- `_resolve_input_size`. -/
def resolveInputSize (spec : Value) (macros : List (Text × Value)) : Except Exc Nat :=
  match spec.asInt? with
  | some n =>
    if n ≤ 0 then .error (.valueError
      ("input size must be positive (got ".toList ++ intText n ++ ")".toList))
    else .ok n.toNat
  | none =>
    match spec.asStr? with
    | some s =>
      match (Value.field macros s).asInt? with
      | some n =>
        if n ≤ 0 then .error (.valueError
          ("macro ".toList ++ repr spec ++ " is missing or not a positive integer".toList))
        else .ok n.toNat
      | none => .error (.valueError
          ("macro ".toList ++ repr spec ++ " is missing or not a positive integer".toList))
    | none => .error (.valueError ("unsupported input size specification: ".toList ++ repr spec))

/-- One byte of a byte seed. -/
def seedByte (value : Value) : Except Exc UInt8 :=
  match value.asInt? with
  | some b => if b < 0 ∨ 0xFF < b then
      .error (.valueError "ABACUS reference secret bytes must be integers in [0, 255]".toList)
    else .ok (UInt8.ofNat b.toNat)
  | none =>
    .error (.valueError "ABACUS reference secret bytes must be integers in [0, 255]".toList)

/-- `_value_to_bytes`. -/
def valueToBytes (value : Value) (size : Nat) : Except Exc (List UInt8) :=
  match value.asInt? with
  | some v =>
    match toBytes .big size v with
    | some bytes => .ok bytes
    | none => .error (.valueError
        ("integer seed does not fit in ".toList ++ decimal size ++ " bytes".toList))
  | none =>
    match value.asList? with
    | some values =>
      if values.length ≠ size then .error (.valueError
        ("byte-seed length ".toList ++ decimal values.length ++
          " does not match expected size ".toList ++ decimal size))
      else values.mapM seedByte
    | none => .error (.valueError ("unsupported ABACUS seed format: ".toList ++ repr value))

/-- One step of the loop that fills `input_by_id`. -/
def addInput (byId : Dict Text (List (Text × Value))) (entry : Value) :
    Dict Text (List (Text × Value)) :=
  match entry.asDict? with
  | none => byId
  | some items =>
    match (Value.field items "id".toList).asStr? with
    | some id => byId.set id items
    | none => byId

/-- `input_by_id`: a later entry of an id replaces an earlier one. -/
def inputById (inputs : List Value) : Dict Text (List (Text × Value)) :=
  inputs.foldl addInput .empty

/-- One entry of the layout, under its id. -/
def loadSecret (presetName : Text) (byId : Dict Text (List (Text × Value)))
    (macros seeds : List (Text × Value)) (value : Value) : Except Exc (Text × AbacusSecret) :=
  if let some e := unhashable? value then .error e
  else
    match value.asStr? with
    | none => .error (.valueError
        ("abacus secret input ".toList ++ repr value ++ " is missing from inputs".toList))
    | some id =>
      match byId.get? id with
      | none => .error (.valueError
          ("abacus secret input ".toList ++ repr value ++ " is missing from inputs".toList))
      | some entry =>
        match (Value.field entry "name".toList).asStr? with
        | some (c :: name) =>
          match Dict.lookup id seeds with
          | none => .error (.valueError ("preset ".toList ++ repr (.str presetName) ++
              " is missing abacus seed for ".toList ++ repr value))
          | some seed => do
            let size ← resolveInputSize repr (Value.field entry "size".toList) macros
            let seedBytes ← valueToBytes repr seed size
            return (id, { name := c :: name, seedBytes := seedBytes })
        | _ => .error (.valueError
            ("abacus secret input ".toList ++ repr value ++ " is missing a replay name".toList))

/-- `_load_abacus_secret_layout` on the decoded config: the entries under their ids. A
policy that is no table has no `get`. -/
def loadAbacusSecretLayout (cfg : List (Text × Value)) (presetName : Text) :
    Except Exc (List (Text × AbacusSecret)) :=
  match (Value.field cfg "inputs".toList).asList?,
      (Value.field cfg "mode_policy".toList).asDict?,
      (Value.field cfg "presets".toList).asDict? with
  | some inputs, some modePolicy, some presets =>
    match (Value.field presets presetName).asDict? with
    | none => .error (.valueError ("unknown preset ".toList ++ repr (.str presetName)))
    | some preset =>
      match optionalTable modePolicy "abacus".toList with
      | none => .error (.typeError "object has no attribute 'get'".toList)
      | some policy =>
        match optionalTable preset "macros".toList, optionalTable preset "abacus_secrets".toList,
            (Value.field policy "secret_inputs".toList).asList? with
        | some macros, some seeds, some secretIds =>
          secretIds.mapM (loadSecret repr presetName (inputById inputs) macros seeds)
        | _, _, _ => .error (.valueError "runner config abacus policy is incomplete".toList)
  | _, _, _ => .error (.valueError "runner config is missing inputs/mode_policy/presets".toList)

end Layout

/-! ## The generated header (`generate_runner_artifacts.py`) -/

/-- A call `abacus_make_symbolic("name", id, sizeof(id))`. -/
structure AbacusCall where
  id : Text
  name : Text
  size : Nat
  deriving DecidableEq, Repr

/-- The size a buffer is declared with, under the macros the header defines. -/
def sizeofInput (macros : List (Text × Nat)) (input : RunnerInput) : Nat :=
  match input.size with
  | .bytes n => n.toNat
  | .expression s => (Dict.lookup s macros).getD 0

/-- The calls of `runner_make_abacus_secret_inputs`, in the order of the seeds. -/
def abacusCalls (r : Resolved) : List AbacusCall :=
  r.abacusArrays.filterMap fun array =>
    (r.inputs.inputs.find? (·.id = array.1)).map fun input =>
      { id := input.id, name := input.name, size := sizeofInput r.macros input }

/-- The number ABACUS gives to the first byte of a call: the bytes of the calls before. -/
def baseOffset (calls : List AbacusCall) (i : Nat) : Nat :=
  ((calls.take i).map AbacusCall.size).sum

/-! ## The secrets of a config -/

/-- The id and the name of an entry of `inputs` that is a secret. -/
def secretEntry? (value : Value) : Option (Text × Text) :=
  let items := tableAt value
  if (Value.field items "kind".toList).asStr? = some "secret".toList then
    match (Value.field items "id".toList).asStr?, (Value.field items "name".toList).asStr? with
    | some id, some name => some (id, name)
    | _, _ => none
  else none

/-- The secrets of a config, in the order of `inputs`. -/
def secretsOf (cfg : List (Text × Value)) : List (Text × Text) :=
  (inputsOf cfg).filterMap secretEntry?

/-! ## What both sides read -/

section Reading

variable {repr : Value → Text} {cfg : List (Text × Value)} {r : Resolved}

/-- The bytes of a number, the least significant first, by shifts. -/
theorem leBytes_eq_map (size v : Nat) :
    leBytes size v = (List.range size).map fun i => UInt8.ofNat (v >>> (i * 8)) := by
  induction size generalizing v with
  | zero => rfl
  | succ size ih =>
    rw [leBytes, ih, List.range_succ_eq_map, List.map_cons, List.map_map]
    congr 1
    refine List.map_congr_left fun i _ => ?_
    show UInt8.ofNat ((v / 256) >>> (i * 8)) = UInt8.ofNat (v >>> ((i + 1) * 8))
    rw [Nat.shiftRight_eq_div_pow, Nat.shiftRight_eq_div_pow, Nat.div_div_eq_div_mul,
      show (256 : Nat) = 2 ^ 8 from rfl, ← pow_add]
    congr 3
    omega

/-- The loop of `_normalize_preset_bytes` is `to_bytes`. -/
theorem map_shift_eq_packBytes (size v : Nat) :
    ((List.range size).map fun index =>
      UInt8.ofNat ((v >>> ((size - index - 1) * 8)) &&& 0xFF)) = packBytes .big size v := by
  rw [packBytes, leBytes_eq_map]
  refine List.ext_getElem (by simp) fun i hi _ => ?_
  have hlt : i < size := by simpa using hi
  have hsub : size - 1 - i = size - i - 1 := by omega
  rw [List.getElem_reverse]
  simp only [List.getElem_map, List.getElem_range, List.length_map, List.length_range, hsub]
  apply UInt8.toNat_inj.mp
  rw [UInt8.toNat_ofNat', UInt8.toNat_ofNat', show (0xFF : Nat) = 2 ^ 8 - 1 from rfl,
    Nat.and_two_pow_sub_one_eq_mod, Nat.mod_mod]

theorem seedByte_of_readByte {label : Text} {value : Value} {b : UInt8}
    (h : readByte repr label value = .ok b) : seedByte value = .ok b := by
  unfold readByte at h
  unfold seedByte
  cases hv : value.asInt? with
  | none =>
    rw [hv] at h
    cases h
  | some n =>
    rw [hv] at h
    dsimp only at h ⊢
    split at h
    · cases h
    · next hrange =>
      rw [if_neg hrange]
      exact h

/-- **The two readers of a seed agree**: what the generator accepts the converter reads as
the same bytes. -/
theorem valueToBytes_of_normalize {label : Text} {size : Nat} {value : Value}
    {bytes : List UInt8} (h : normalizePresetBytes repr label size value = .ok bytes) :
    valueToBytes repr value size = .ok bytes ∧ bytes.length = size := by
  unfold normalizePresetBytes at h
  unfold valueToBytes
  cases hv : value.asInt? with
  | some v =>
    rw [hv] at h
    dsimp only at h ⊢
    split at h
    · cases h
    · next hneg =>
      split at h
      · cases h
      · next hmax =>
        split at h
        · cases h
        · next hfit =>
          rw [map_shift_eq_packBytes] at h
          obtain rfl := Except.ok.inj h
          have hsize : size ≤ maxSize := by omega
          -- in range of `size` bytes, so `to_bytes` gives what the shifts gave
          have hlt : v.toNat < 256 ^ size := by
            rw [Nat.one_shiftLeft, Nat.mul_comm, Nat.pow_mul, show 2 ^ 8 = 256 from rfl] at hfit
            omega
          have hcast : ((v.toNat : Nat) : Int) = v := by omega
          have hbytes : toBytes .big size v = some (packBytes .big size v.toNat) := by
            rw [← toBytes_of_lt hsize hlt, hcast]
          rw [hbytes]
          exact ⟨rfl, packBytes_length _ _ _⟩
  | none =>
    rw [hv] at h
    dsimp only at h ⊢
    split at h
    · next first rest =>
      obtain ⟨bytes', hbytes, h⟩ := Sequence.bind_eq_ok_iff.mp h
      split at h
      · cases h
      · next hlen =>
        obtain rfl := Except.ok.inj h
        have hall := Sequence.mapM_eq_ok_iff.mp hbytes
        have hlen' : bytes'.length = size := not_not.mp hlen
        have hvalues : (first :: rest).length = size := by rw [hall.length_eq, hlen']
        refine ⟨?_, hlen'⟩
        show (if (first :: rest).length ≠ size then _ else (first :: rest).mapM seedByte) = _
        rw [if_neg (not_not.mpr hvalues)]
        exact Sequence.mapM_eq_ok_iff.mpr (hall.imp fun _ _ => seedByte_of_readByte)
    · cases h

/-- **Step lemma** of `input_by_id`, at an accepted entry. -/
theorem addInput_eq {value : Value} {items : List (Text × Value)} {input : RunnerInput}
    (h : ReadsAs value items input) (byId : Dict Text (List (Text × Value))) :
    addInput byId value = byId.set input.id items := by
  rw [addInput, h.isDict]
  dsimp only
  rw [h.id]

theorem get?_addInputs_of_notMem {values : List Value} {inputs : List RunnerInput}
    (h : List.Forall₂ (fun value input => ∃ items, ReadsAs value items input) values inputs)
    {id : Text} (hid : id ∉ inputs.map RunnerInput.id)
    (byId : Dict Text (List (Text × Value))) :
    (values.foldl addInput byId).get? id = byId.get? id := by
  induction h generalizing byId with
  | nil => rfl
  | cons hread _ ih =>
    obtain ⟨items, hread⟩ := hread
    rw [List.map_cons, List.mem_cons, not_or] at hid
    rw [List.foldl_cons, addInput_eq hread, ih hid.2, Dict.get?_set_of_ne _ (Ne.symm hid.1)]

/-- **Run lemma** of `input_by_id`: every id leads to its own entry. -/
theorem get?_addInputs {values : List Value} {inputs : List RunnerInput}
    (h : List.Forall₂ (fun value input => ∃ items, ReadsAs value items input) values inputs)
    (hnodup : (inputs.map RunnerInput.id).Nodup) {input : RunnerInput} (hmem : input ∈ inputs)
    (byId : Dict Text (List (Text × Value))) :
    ∃ value items, ReadsAs value items input ∧
      (values.foldl addInput byId).get? input.id = some items := by
  induction h generalizing byId with
  | nil => cases hmem
  | @cons value x values xs hread hrest ih =>
    rw [List.map_cons, List.nodup_cons] at hnodup
    obtain ⟨items, hread⟩ := hread
    rw [List.foldl_cons, addInput_eq hread]
    rcases List.mem_cons.mp hmem with rfl | hmem
    · refine ⟨value, items, hread, ?_⟩
      rw [get?_addInputs_of_notMem hrest hnodup.1, Dict.get?_set_self]
    · exact ih hnodup.2 hmem _

theorem readMacro_spec {name : Text} {item : Text × Value} {entry : Text × Nat}
    (h : readMacro repr name item = .ok entry) :
    item.1 = entry.1 ∧ item.1 ≠ [] ∧ item.2.asInt? = some (entry.2 : Int) ∧ 0 < entry.2 := by
  unfold readMacro at h
  split at h
  · cases h
  · next hident =>
    have hne : item.1 ≠ [] := by
      intro he
      rw [he] at hident
      exact hident (by decide)
    cases hv : item.2.asInt? with
    | none =>
      rw [hv] at h
      cases h
    | some v =>
      rw [hv] at h
      dsimp only at h
      split at h
      · next hpos =>
        obtain rfl := Except.ok.inj h
        refine ⟨rfl, hne, ?_, ?_⟩
        · show some v = some ((v.toNat : Nat) : Int)
          rw [Int.toNat_of_nonneg hpos.le]
        · show 0 < v.toNat
          omega
      · cases h

/-- The two readers of a macro agree. -/
theorem field_of_readMacro {name : Text} {items : List (Text × Value)}
    {macros : List (Text × Nat)} {s : Text} {n : Nat}
    (h : items.mapM (readMacro repr name) = .ok macros)
    (hlookup : Dict.lookup s macros = some n) :
    (Value.field items s).asInt? = some (n : Int) ∧ 0 < n := by
  have hall := Sequence.mapM_eq_ok_iff.mp h
  clear h
  rw [Value.field]
  induction hall with
  | nil => cases hlookup
  | @cons item entry items macros hread _ ih =>
    obtain ⟨hkey, -, hint, hpos⟩ := readMacro_spec hread
    obtain ⟨k, v⟩ := item
    obtain ⟨k', m⟩ := entry
    dsimp only at hkey hint hpos
    subst hkey
    rw [Dict.lookup] at hlookup ⊢
    by_cases hk : k = s
    · rw [if_pos hk] at hlookup ⊢
      obtain rfl := Option.some.inj hlookup
      exact ⟨hint, hpos⟩
    · rw [if_neg hk] at hlookup ⊢
      exact ih hlookup

/-- A size resolves if it is a positive number, or a macro that the preset defines. -/
theorem resolveSize_ok {name : Text} {macros : List (Text × Nat)} {input : RunnerInput}
    {p : Text × Nat} (h : resolveSize repr name macros input = .ok p) :
    (∃ n, input.size = .bytes n ∧ 0 < n ∧ p = (input.id, n.toNat)) ∨
      ∃ s n, input.size = .expression s ∧ Dict.lookup s macros = some n ∧ p = (input.id, n) := by
  unfold resolveSize at h
  cases hsize : input.size with
  | bytes n =>
    rw [hsize] at h
    dsimp only at h
    split at h
    · next hpos => exact Or.inl ⟨n, rfl, hpos, (Except.ok.inj h).symm⟩
    · cases h
  | expression s =>
    rw [hsize] at h
    dsimp only at h
    split at h
    · cases h
    · cases hlookup : Dict.lookup s macros with
      | none =>
        rw [hlookup] at h
        cases h
      | some n =>
        rw [hlookup] at h
        exact Or.inr ⟨s, n, rfl, hlookup, (Except.ok.inj h).symm⟩

theorem resolveSize_eq {name : Text} {macros : List (Text × Nat)} {input : RunnerInput}
    {p : Text × Nat} (h : resolveSize repr name macros input = .ok p) :
    p = (input.id, sizeofInput macros input) := by
  unfold sizeofInput
  rcases resolveSize_ok h with ⟨n, hsize, -, rfl⟩ | ⟨s, n, hsize, hlookup, rfl⟩
  · rw [hsize]
  · rw [hsize]
    show (input.id, n) = (input.id, (Dict.lookup s macros).getD 0)
    rw [hlookup]
    rfl

/-- The two readers of a size agree. -/
theorem resolveInputSize_of_resolveSize {name : Text} {value : Value}
    {items macroTable : List (Text × Value)} {macros : List (Text × Nat)} {input : RunnerInput}
    {p : Text × Nat} (hread : ReadsAs value items input)
    (hmacros : macroTable.mapM (readMacro repr name) = .ok macros)
    (h : resolveSize repr name macros input = .ok p) :
    resolveInputSize repr (Value.field items "size".toList) macroTable = .ok p.2 := by
  unfold resolveInputSize
  rcases hread.size with ⟨n, hsize, hint⟩ | ⟨s, hsize, hint, hstr⟩
  · rcases resolveSize_ok h with ⟨n', hsize', hpos, rfl⟩ | ⟨s, n', hsize', -, -⟩
    · obtain rfl := InputSize.bytes.inj (hsize.symm.trans hsize')
      rw [hint]
      dsimp only
      rw [if_neg (by omega)]
    · cases hsize.symm.trans hsize'
  · rcases resolveSize_ok h with ⟨n, hsize', -, -⟩ | ⟨s', n, hsize', hlookup, rfl⟩
    · cases hsize.symm.trans hsize'
    · obtain rfl := InputSize.expression.inj (hsize.symm.trans hsize')
      -- the macro table holds the number that the macro was read as
      obtain ⟨hfield, hpos⟩ := field_of_readMacro hmacros hlookup
      rw [hint, hstr]
      dsimp only
      rw [hfield]
      dsimp only
      rw [if_neg (by omega), Int.toNat_natCast]

/-- The resolved sizes, under the ids. -/
theorem lookup_sizes {name : Text} {macros : List (Text × Nat)} {inputs : RunnerInputs}
    {sizes : List (Text × Nat)}
    (h : inputs.inputs.mapM (resolveSize repr name macros) = .ok sizes) {input : RunnerInput}
    (hmem : input ∈ inputs.inputs) :
    Dict.lookup input.id sizes = some (sizeofInput macros input) := by
  have hall := (Sequence.mapM_eq_ok_iff.mp h).imp fun _ _ => resolveSize_eq
  have hsizes : sizes = inputs.inputs.map fun input => (input.id, sizeofInput macros input) := by
    rw [← List.forall₂_eq_eq_eq, List.forall₂_map_right_iff]
    exact hall.flip
  rw [hsizes]
  refine Dict.lookup_of_mem ?_ (List.mem_map.mpr ⟨input, hmem, rfl⟩)
  rw [List.map_map]
  exact inputs.distinctIds

theorem readArray_spec {name key noun : Text} {ids : List Text} {sizes : List (Text × Nat)}
    {item : Text × Value} {array : Text × List UInt8}
    (h : readArray repr name key ids noun sizes item = .ok array) :
    array.1 = item.1 ∧ item.1 ∈ ids ∧
      normalizePresetBytes repr (presetField name key ++ '.' :: item.1)
        ((Dict.lookup item.1 sizes).getD 0) item.2 = .ok array.2 := by
  unfold readArray at h
  dsimp only at h
  split at h
  · cases h
  · next hmem =>
    obtain ⟨bytes, hbytes, h⟩ := Sequence.bind_eq_ok_iff.mp h
    obtain rfl := Except.ok.inj h
    exact ⟨rfl, not_not.mp hmem, hbytes⟩

/-- The seed of an id and the bytes it was read as. -/
theorem lookup_arrays {name key noun : Text} {ids : List Text} {sizes : List (Text × Nat)}
    {seeds : List (Text × Value)} {arrays : List (Text × List UInt8)}
    (h : List.Forall₂ (fun item array => readArray repr name key ids noun sizes item = .ok array)
      seeds arrays) {id : Text} (hid : id ∈ seeds.map Prod.fst) :
    ∃ seed bytes, Dict.lookup id seeds = some seed ∧ Dict.lookup id arrays = some bytes ∧
      normalizePresetBytes repr (presetField name key ++ '.' :: id)
        ((Dict.lookup id sizes).getD 0) seed = .ok bytes := by
  induction h with
  | nil => cases hid
  | @cons item array seeds arrays hread _ ih =>
    obtain ⟨hkey, -, hbytes⟩ := readArray_spec hread
    obtain ⟨k, seed⟩ := item
    obtain ⟨k', bytes⟩ := array
    dsimp only at hkey hbytes
    subst hkey
    rw [Dict.lookup, Dict.lookup]
    by_cases hk : k' = id
    · subst hk
      rw [if_pos rfl, if_pos rfl]
      exact ⟨seed, bytes, rfl, rfl, hbytes⟩
    · rw [if_neg hk, if_neg hk]
      refine ih ?_
      rcases List.mem_cons.mp hid with he | hid
      · exact absurd he.symm hk
      · exact hid

/-- The entry of the layout an input stands for. -/
def resolvedSecret (r : Resolved) (input : RunnerInput) : AbacusSecret :=
  { name := input.name, seedBytes := (Dict.lookup input.id r.abacusArrays).getD [] }

theorem mem_ids {inputs : RunnerInputs} {kind : InputKind} {id : Text} :
    id ∈ inputs.ids kind ↔ ∃ input ∈ inputs.inputs, input.id = id ∧ input.kind = kind := by
  unfold RunnerInputs.ids RunnerInputs.ofKind
  rw [List.mem_map]
  constructor
  · rintro ⟨input, hmem, hid⟩
    obtain ⟨hmem, hkind⟩ := List.mem_filter.mp hmem
    exact ⟨input, hmem, hid, of_decide_eq_true hkind⟩
  · rintro ⟨input, hmem, hid, hkind⟩
    exact ⟨input, List.mem_filter.mpr ⟨hmem, decide_eq_true hkind⟩, hid⟩

/-- **One entry of the layout**: the converter reads a secret of an accepted config as the
generator does, with the size of its buffer. -/
theorem loadSecret_eq (h : Accepted repr cfg r) {input : RunnerInput}
    (hmem : input ∈ r.inputs.inputs) (hkind : input.kind = .secret) :
    loadSecret repr r.presetName (inputById (inputsOf cfg)) (macrosOf cfg r.presetName)
        (seedsOf cfg r.presetName) (.str input.id) =
      .ok (input.id, resolvedSecret r input) ∧
    (resolvedSecret r input).size = sizeofInput r.macros input := by
  obtain ⟨ids, sizes, -, hids, hsizes, harrays, hseeds⟩ := h.arrays
  obtain ⟨value, items, hread, hentry⟩ :=
    get?_addInputs h.readsAs r.inputs.distinctIds hmem .empty
  have hid : input.id ∈ (seedsOf cfg r.presetName).map Prod.fst :=
    hseeds.2 _ (hids.2 _ (mem_ids.mpr ⟨input, hmem, rfl, hkind⟩))
  obtain ⟨seed, bytes, hseed, hbytes, hnorm⟩ :=
    lookup_arrays (Sequence.mapM_eq_ok_iff.mp harrays) hid
  rw [lookup_sizes hsizes hmem, Option.getD_some] at hnorm
  obtain ⟨hvalue, hlen⟩ := valueToBytes_of_normalize hnorm
  obtain ⟨p, -, hp⟩ := Sequence.exists_right_of_mapM hsizes hmem
  have hsize := resolveInputSize_of_resolveSize hread h.macros hp
  rw [resolveSize_eq hp] at hsize
  -- an empty name would be refused; a name the runner accepted is an identifier
  have hname : input.name ≠ [] := by
    intro he
    have := r.inputs.identifiers input hmem
    rw [he] at this
    cases this
  have hsecret : resolvedSecret r input = { name := input.name, seedBytes := bytes } := by
    rw [resolvedSecret, hbytes]
    rfl
  rw [hsecret]
  refine ⟨?_, hlen⟩
  unfold loadSecret
  have hget : (inputById (inputsOf cfg)).get? input.id = some items := hentry
  have hstr : (Value.str input.id).asStr? = some input.id := rfl
  have hhash : unhashable? (Value.str input.id) = none := rfl
  have hn := hread.name
  cases hc : input.name with
  | nil => exact absurd hc hname
  | cons c name =>
    rw [hc] at hn
    simp only [hhash, hstr, hget, hn, hseed, hsize]
    show (valueToBytes repr seed (sizeofInput r.macros input) >>= _) = _
    rw [hvalue]
    rfl

/-- The converter finds every table the generator went through. -/
theorem loadAbacusSecretLayout_eq (h : Accepted repr cfg r) :
    loadAbacusSecretLayout repr cfg r.presetName =
      (secretInputsOf cfg).mapM (loadSecret repr r.presetName (inputById (inputsOf cfg))
        (macrosOf cfg r.presetName) (seedsOf cfg r.presetName)) := by
  have hpolicy : optionalTable (tableAt (Value.field cfg "mode_policy".toList))
      "abacus".toList = some (abacusPolicyOf cfg) := by
    have hdict := h.abacusPolicy
    unfold optionalTable
    rw [Value.field] at hdict
    cases hlookup : Dict.lookup "abacus".toList
        (tableAt (Value.field cfg "mode_policy".toList)) with
    | none =>
      rw [hlookup] at hdict
      cases hdict
    | some value =>
      rw [hlookup] at hdict
      exact hdict
  unfold loadAbacusSecretLayout
  simp only [h.inputs, h.modePolicy, h.presets, h.preset, hpolicy, h.macroTable, h.seedTable,
    h.secretList]

/-- **The layout** of a policy that lists accepted secrets. -/
theorem loadAbacusSecretLayout_of_policy (h : Accepted repr cfg r) {secrets : List RunnerInput}
    (hsecrets : ∀ input ∈ secrets, input ∈ r.inputs.inputs ∧ input.kind = .secret)
    (hpolicy : secretInputsOf cfg = secrets.map fun input => Value.str input.id) :
    loadAbacusSecretLayout repr cfg r.presetName =
      .ok (secrets.map fun input => (input.id, resolvedSecret r input)) := by
  rw [loadAbacusSecretLayout_eq h, hpolicy, Sequence.mapM_eq_ok_iff, List.forall₂_map_left_iff,
    List.forall₂_map_right_iff, List.forall₂_same]
  intro input hmem
  obtain ⟨hinput, hkind⟩ := hsecrets input hmem
  exact (loadSecret_eq h hinput hkind).1

theorem asStr_of_loadSecret {name : Text} {byId : Dict Text (List (Text × Value))}
    {macros seeds : List (Text × Value)} {value : Value} {entry : Text × AbacusSecret}
    (h : loadSecret repr name byId macros seeds value = .ok entry) :
    value.asStr? = some entry.1 := by
  unfold loadSecret at h
  split at h
  · cases h
  · split at h
    · cases h
    · next id hid =>
      split at h
      · cases h
      · split at h
        · split at h
          · cases h
          · obtain ⟨size, -, h⟩ := Sequence.bind_eq_ok_iff.mp h
            obtain ⟨bytes, -, h⟩ := Sequence.bind_eq_ok_iff.mp h
            rw [← Except.ok.inj h]
            exact hid
        · cases h

theorem eq_str_of_asStr {value : Value} {s : Text} (h : value.asStr? = some s) :
    value = .str s := by
  cases value with
  | str t => rw [Option.some.inj h]
  | _ => cases h

/-- The ids of a loaded layout are the ones of the policy. -/
theorem layout_ids (h : Accepted repr cfg r) {layout : List (Text × AbacusSecret)}
    (hload : loadAbacusSecretLayout repr cfg r.presetName = .ok layout) :
    (secretInputsOf cfg).map Value.asStr? = layout.map fun entry => some entry.1 := by
  rw [loadAbacusSecretLayout_eq h, Sequence.mapM_eq_ok_iff] at hload
  rw [← List.forall₂_eq_eq_eq, List.forall₂_map_left_iff, List.forall₂_map_right_iff]
  exact hload.imp fun _ _ => asStr_of_loadSecret

/-- The call for an input. -/
def callOf (r : Resolved) (input : RunnerInput) : AbacusCall :=
  { id := input.id, name := input.name, size := sizeofInput r.macros input }

theorem find?_id {inputs : List RunnerInput} (hnodup : (inputs.map RunnerInput.id).Nodup)
    {input : RunnerInput} (hmem : input ∈ inputs) :
    inputs.find? (fun x => decide (x.id = input.id)) = some input := by
  induction inputs with
  | nil => cases hmem
  | cons x inputs ih =>
    rw [List.map_cons, List.nodup_cons] at hnodup
    by_cases hid : x.id = input.id
    · rw [List.find?_cons_of_pos (by simpa using hid)]
      rcases List.mem_cons.mp hmem with rfl | hmem
      · rfl
      · exact absurd (List.mem_map.mpr ⟨input, hmem, hid.symm⟩) hnodup.1
    · rw [List.find?_cons_of_neg (by simpa using hid)]
      rcases List.mem_cons.mp hmem with rfl | hmem
      · exact absurd rfl hid
      · exact ih hnodup.2 hmem

/-- The calls for a list of seeds of inputs. -/
theorem filterMap_calls {arrays : List (Text × List UInt8)} {secrets : List RunnerInput}
    (hsecrets : ∀ input ∈ secrets, input ∈ r.inputs.inputs)
    (hids : arrays.map Prod.fst = secrets.map RunnerInput.id) :
    (arrays.filterMap fun array =>
      (r.inputs.inputs.find? (·.id = array.1)).map fun input =>
        ({ id := input.id, name := input.name, size := sizeofInput r.macros input } :
          AbacusCall)) = secrets.map (callOf r) := by
  induction arrays generalizing secrets with
  | nil =>
    rw [List.map_nil] at hids
    rw [List.map_eq_nil_iff.mp hids.symm]
    rfl
  | cons array arrays ih =>
    cases secrets with
    | nil => cases hids
    | cons input secrets =>
      rw [List.map_cons, List.map_cons, List.cons.injEq] at hids
      have hfind := find?_id r.inputs.distinctIds (hsecrets input List.mem_cons_self)
      rw [← hids.1] at hfind
      rw [List.filterMap_cons, hfind, List.map_cons,
        ih (fun x hx => hsecrets x (List.mem_cons_of_mem _ hx)) hids.2]
      rfl

/-- The ids of the arrays are the keys of the seeds. -/
theorem arrays_ids (h : Accepted repr cfg r) :
    r.abacusArrays.map Prod.fst = (seedsOf cfg r.presetName).map Prod.fst ∧
      ∀ array ∈ r.abacusArrays, array.1 ∈ r.inputs.ids .secret := by
  obtain ⟨-, sizes, -, -, -, harrays, -⟩ := h.arrays
  have hall := Sequence.mapM_eq_ok_iff.mp harrays
  clear harrays
  generalize seedsOf cfg r.presetName = seeds, r.abacusArrays = arrays at hall ⊢
  constructor
  · rw [← List.forall₂_eq_eq_eq, List.forall₂_map_left_iff, List.forall₂_map_right_iff]
    exact hall.flip.imp fun _ _ hread => (readArray_spec hread).1
  · intro array hmem
    induction hall with
    | nil => cases hmem
    | cons hread _ ih =>
      rcases List.mem_cons.mp hmem with rfl | hmem
      · obtain ⟨hkey, hid, -⟩ := readArray_spec hread
        rw [hkey]
        exact hid
      · exact ih hmem

/-- The calls of the header follow the seeds of the preset. -/
theorem abacusCalls_ids (h : Accepted repr cfg r) :
    (abacusCalls r).map AbacusCall.id = (seedsOf cfg r.presetName).map Prod.fst := by
  obtain ⟨hkeys, hmem⟩ := arrays_ids h
  rw [← hkeys]
  unfold abacusCalls
  clear hkeys
  generalize r.abacusArrays = arrays at hmem ⊢
  induction arrays with
  | nil => rfl
  | cons array arrays ih =>
    obtain ⟨input, hinput, hid, -⟩ := mem_ids.mp (hmem array List.mem_cons_self)
    have hfind := find?_id r.inputs.distinctIds hinput
    rw [hid] at hfind
    rw [List.filterMap_cons, hfind, Option.map_some, List.map_cons, List.map_cons,
      ih fun x hx => hmem x (List.mem_cons_of_mem _ hx), hid]

theorem secretEntry_of_readsAs {value : Value} {items : List (Text × Value)}
    {input : RunnerInput} (h : ReadsAs value items input) :
    secretEntry? value =
      if input.kind = .secret then some (input.id, input.name) else none := by
  unfold secretEntry?
  rw [tableAt_eq h.isDict]
  dsimp only
  rw [h.kind, h.id, h.name]
  cases hkind : input.kind with
  | secret => rfl
  | isPublic => rfl

/-- The secrets of an accepted config are its secret inputs. -/
theorem secretsOf_eq (h : Accepted repr cfg r) :
    secretsOf cfg = (r.inputs.ofKind .secret).map fun input => (input.id, input.name) := by
  have hreads := h.readsAs
  unfold secretsOf RunnerInputs.ofKind
  generalize inputsOf cfg = values, r.inputs.inputs = inputs at hreads
  induction hreads with
  | nil => rfl
  | @cons value input values inputs hread _ ih =>
    obtain ⟨items, hread⟩ := hread
    rw [List.filterMap_cons, secretEntry_of_readsAs hread, ih]
    by_cases hkind : input.kind = .secret
    · rw [if_pos hkind, List.filter_cons_of_pos (by simpa using hkind), List.map_cons]
    · rw [if_neg hkind, List.filter_cons_of_neg (by simpa using hkind)]

end Reading

end KleeDeps.Converters
