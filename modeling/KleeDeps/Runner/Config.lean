import KleeDeps.Data.Sequence
import KleeDeps.Py.Int
import KleeDeps.Runner.Inputs

/-!
# Resolving a runner config

`_load_resolved_config` of `generate_runner_artifacts.py` checks a runner config and one
of its presets and resolves them into byte values: the defaults of the public inputs and
the seeds of the ABACUS secrets.

- `loadResolvedConfig`: the checks, in the order of the source;
- `Resolved`: what is handed to the renderers;
- `loadResolvedConfig_spec`: what an accepted config looks like.
-/

namespace KleeDeps.Runner

open Py

/-- The ids of the inputs of a kind, in config order. -/
def RunnerInputs.ids (config : RunnerInputs) (kind : InputKind) : List Text :=
  (config.ofKind kind).map RunnerInput.id

/-! ## The checks -/

/-- A value that has to be a table. -/
def dictOr (value : Value) (msg : Text) : Except Exc (List (Text × Value)) :=
  match value.asDict? with
  | some items => .ok items
  | none => die msg

/-- A key of the config itself. -/
def topLevel (cfg : List (Text × Value)) (key : Text) : Except Exc Value :=
  match Dict.lookup key cfg with
  | some value => .ok value
  | none => die ("missing top-level key: ".toList ++ key)

/-- `isinstance(inputs, list) and inputs`. -/
def requireInputs (value : Value) : Except Exc Unit :=
  match value.asList? with
  | some (_ :: _) => .ok ()
  | _ => die "inputs must be a non-empty list".toList

/-- `isinstance(presets, dict) and presets`. -/
def readPresets (value : Value) : Except Exc (List (Text × Value)) :=
  match value.asDict? with
  | some (preset :: rest) => .ok (preset :: rest)
  | _ => die "presets must be a non-empty dictionary".toList

/-- A flag of a policy that has to be exactly `flag`. -/
def requireFlag (policy : List (Text × Value)) (key : Text) (flag : Bool) (msg : Text) :
    Except Exc Unit :=
  match Value.field policy key with
  | .bool b => if b = flag then .ok () else die msg
  | _ => die msg

/-- The three policies of `mode_policy`; the ABACUS one is read further. -/
def readModePolicy (modePolicy : List (Text × Value)) : Except Exc (List (Text × Value)) := do
  let varPub ← dictOr (Value.field modePolicy "var_pub".toList)
    "mode_policy.var_pub must be a dictionary".toList
  let fixPub ← dictOr (Value.field modePolicy "fix_pub".toList)
    "mode_policy.fix_pub must be a dictionary".toList
  let abacus ← dictOr (Value.field modePolicy "abacus".toList)
    "mode_policy.abacus must be a dictionary".toList
  requireFlag varPub "public_symbolic".toList true
    "mode_policy.var_pub.public_symbolic must be True".toList
  requireFlag fixPub "public_symbolic".toList false
    "mode_policy.fix_pub.public_symbolic must be False".toList
  requireFlag abacus "public_fixed".toList true
    ("mode_policy.abacus.public_fixed must be True; ".toList ++
      "symbolic ABACUS public inputs are not implemented".toList)
  return abacus

/-- `set(xs) == set(ys)`. -/
def sameMembers (xs ys : List Text) : Prop := (∀ x ∈ xs, x ∈ ys) ∧ ∀ y ∈ ys, y ∈ xs

instance (xs ys : List Text) : Decidable (sameMembers xs ys) :=
  inferInstanceAs (Decidable (_ ∧ _))

section Reading

variable (repr : Value → Text)

/-- One id of `mode_policy.abacus.secret_inputs`. -/
def readSecretInput (secretIds : List Text) (value : Value) : Except Exc Text :=
  match value.asStr? with
  | some id => if id ∈ secretIds then .ok id else
      die ("mode_policy.abacus.secret_inputs contains non-secret input ".toList ++ repr value)
  | none =>
    die ("mode_policy.abacus.secret_inputs contains non-secret input ".toList ++ repr value)

/-- `mode_policy.abacus.secret_inputs`. -/
def readSecretInputs (secretIds : List Text) (value : Value) : Except Exc (List Text) :=
  match value.asList? with
  | none => die "mode_policy.abacus.secret_inputs must be a list".toList
  | some values => do
    let ids ← values.mapM (readSecretInput repr secretIds)
    if sameMembers ids secretIds then return ids
    else die "mode_policy.abacus.secret_inputs must list every secret input exactly once".toList

/-- `sorted` on the preset names. -/
def sortedNames (presets : List (Text × Value)) : List Text :=
  (presets.map Prod.fst).mergeSort fun a b => !decide (b < a)

/-- The preset to materialise: the selected one, or the only one. -/
def presetName (presets : List (Text × Value)) : Option Text → Except Exc Text
  | some name => .ok name
  | none =>
    match presets with
    | [(name, _)] => .ok name
    | _ => die "multiple presets exist; select one with --preset".toList

/-- The table of a preset. -/
def readPreset (presets : List (Text × Value)) (name : Text) :
    Except Exc (List (Text × Value)) :=
  match Dict.lookup name presets with
  | none => die ("unknown preset ".toList ++ repr (.str name) ++ "; available presets: ".toList ++
      join ", ".toList (sortedNames presets))
  | some preset => dictOr preset ("preset ".toList ++ name ++ " must be a dictionary".toList)

/-- `preset <name>.<key>` in a message. -/
def presetField (name key : Text) : Text := "preset ".toList ++ name ++ '.' :: key

/-- A table of a preset, empty by default. -/
def presetTable (name : Text) (preset : List (Text × Value)) (key : Text) :
    Except Exc (List (Text × Value)) :=
  match Dict.lookup key preset with
  | none => .ok []
  | some value => dictOr value (presetField name key ++ " must be a dictionary".toList)

/-- One macro of a preset. -/
def readMacro (name : Text) (item : Text × Value) : Except Exc (Text × Nat) :=
  if ¬ matchesIdentifier item.1 then
    die ("preset ".toList ++ name ++ " has invalid macro name: ".toList ++ repr (.str item.1))
  else
    match item.2.asInt? with
    | some n => if 0 < n then .ok (item.1, n.toNat) else
        die (presetField name "macros.".toList ++ item.1 ++ " must be a positive integer".toList)
    | none =>
      die (presetField name "macros.".toList ++ item.1 ++ " must be a positive integer".toList)

/-- The size of an input under the macros of a preset. -/
def resolveSize (name : Text) (macros : List (Text × Nat)) (input : RunnerInput) :
    Except Exc (Text × Nat) :=
  match input.size with
  | .bytes n => if 0 < n then .ok (input.id, n.toNat) else
      die ("input ".toList ++ input.id ++ " resolved to invalid size: ".toList ++ intText n)
  | .expression s =>
    if ¬ matchesIdentifier s then
      die ("input ".toList ++ input.id ++ " has unsupported size expression: ".toList ++
        repr (.str s))
    else
      match Dict.lookup s macros with
      | some n => .ok (input.id, n)
      | none => die ("input ".toList ++ input.id ++ " uses macro ".toList ++ repr (.str s) ++
          ", but preset ".toList ++ name ++ " does not define it".toList)

/-- `'%x' % value`. -/
def hexText (n : Nat) : Text := Nat.toDigits 16 n

/-- One byte of a byte list. -/
def readByte (label : Text) (value : Value) : Except Exc UInt8 :=
  match value.asInt? with
  | some b => if b < 0 ∨ 0xFF < b then
      die (label ++ " contains invalid byte value: ".toList ++ repr value)
    else .ok (UInt8.ofNat b.toNat)
  | none => die (label ++ " contains invalid byte value: ".toList ++ repr value)

/-- `_normalize_preset_bytes`. The bound of an integer is computed by a shift, which no
longer has a result for a size of `sys.maxsize` bits. -/
def normalizePresetBytes (label : Text) (size : Nat) (value : Value) :
    Except Exc (List UInt8) :=
  match value.asInt? with
  | some v =>
    if v < 0 then die (label ++ " must be non-negative".toList)
    else if maxSize < size * 8 then
      .error (.overflowError "too many digits in integer".toList)
    else if 1 <<< (size * 8) ≤ v.toNat then
      die (label ++ "=0x".toList ++ hexText v.toNat ++ " does not fit in ".toList ++
        decimal size ++ " bytes".toList)
    else
      .ok ((List.range size).map fun index =>
        UInt8.ofNat ((v.toNat >>> ((size - index - 1) * 8)) &&& 0xFF))
  | none =>
    match value with
    | .list (first :: rest) => do
      let bytes ← (first :: rest).mapM (readByte repr label)
      if bytes.length ≠ size then
        die (label ++ " has ".toList ++ decimal bytes.length ++ " bytes but expected ".toList ++
          decimal size)
      else return bytes
    | _ => die (label ++
        " must be either a non-negative integer or a non-empty list of bytes".toList)

/-- One value of a preset table `key` whose ids have to be inputs of one kind. -/
def readArray (name key : Text) (ids : List Text) (noun : Text) (sizes : List (Text × Nat))
    (item : Text × Value) : Except Exc (Text × List UInt8) :=
  let label := presetField name key ++ '.' :: item.1
  if item.1 ∉ ids then die (label ++ " must target a ".toList ++ noun ++ " input".toList)
  else do
    let bytes ← normalizePresetBytes repr label ((Dict.lookup item.1 sizes).getD 0) item.2
    return (item.1, bytes)

/-- All values of a preset table; together they have to name every id of `required`. -/
def readArrays (name key : Text) (ids : List Text) (noun : Text) (sizes : List (Text × Nat))
    (required : List Text) (missing : Text) (items : List (Text × Value)) :
    Except Exc (List (Text × List UInt8)) := do
  let arrays ← items.mapM (readArray repr name key ids noun sizes)
  if sameMembers (items.map Prod.fst) required then return arrays else die missing

/-- What `_load_resolved_config` hands on. `inputs` stands for `input_specs`,
`input_order`, `secret_input_ids` and `public_input_ids`. -/
structure Resolved where
  inputs : RunnerInputs
  presetName : Text
  macros : List (Text × Nat)
  publicArrays : List (Text × List UInt8)
  abacusArrays : List (Text × List UInt8)

/-- `_load_resolved_config` on the decoded config. -/
def loadResolvedConfig (cfg : List (Text × Value)) (selected : Option Text) :
    Except Exc Resolved := do
  let inputsValue ← topLevel cfg "inputs".toList
  let policyValue ← topLevel cfg "mode_policy".toList
  let presetsValue ← topLevel cfg "presets".toList
  requireInputs inputsValue
  let modePolicy ← dictOr policyValue "mode_policy must be a dictionary".toList
  let presets ← readPresets presetsValue
  let abacusPolicy ← readModePolicy modePolicy
  let inputs ← loadInputs repr inputsValue
  let secretInputs ← readSecretInputs repr (inputs.ids .secret)
    (Value.field abacusPolicy "secret_inputs".toList)
  let name ← presetName presets selected
  let preset ← readPreset repr presets name
  let macroTable ← presetTable name preset "macros".toList
  let varTable ← presetTable name preset "vars".toList
  let seedTable ← presetTable name preset "abacus_secrets".toList
  let macros ← macroTable.mapM (readMacro repr name)
  let sizes ← inputs.inputs.mapM (resolveSize repr name macros)
  let publicArrays ← readArrays repr name "vars".toList (inputs.ids .isPublic) "public".toList
    sizes (inputs.ids .isPublic) "preset vars must provide defaults for every public input".toList
    varTable
  let abacusArrays ← readArrays repr name "abacus_secrets".toList (inputs.ids .secret)
    "secret".toList sizes secretInputs
    "preset abacus_secrets must provide seeds for every ABACUS secret input".toList seedTable
  return { inputs := inputs, presetName := name, macros := macros
           publicArrays := publicArrays, abacusArrays := abacusArrays }

end Reading

/-! ## Accepted configs -/

section Accepted

variable {repr : Value → Text}

/-- The text of a `kind` field. -/
def InputKind.text : InputKind → Text
  | .secret => "secret".toList
  | .isPublic => "public".toList

/-- An entry of `inputs` beside what it is read as. -/
structure ReadsAs (value : Value) (items : List (Text × Value)) (input : RunnerInput) :
    Prop where
  isDict : value.asDict? = some items
  id : (Value.field items "id".toList).asStr? = some input.id
  name : (Value.field items "name".toList).asStr? = some input.name
  kind : (Value.field items "kind".toList).asStr? = some input.kind.text
  size : (∃ n, input.size = .bytes n ∧ (Value.field items "size".toList).asInt? = some n) ∨
    ∃ s, input.size = .expression s ∧ (Value.field items "size".toList).asInt? = none ∧
      (Value.field items "size".toList).asStr? = some s

theorem readKind_asStr {id : Text} {value : Value} {kind : InputKind}
    (h : readKind repr id value = .ok kind) : value.asStr? = some kind.text := by
  unfold readKind at h
  split at h
  · cases h
  · split at h
    · next hs =>
      obtain rfl := Except.ok.inj h
      exact hs
    · split at h
      · next hs =>
        obtain rfl := Except.ok.inj h
        exact hs
      · cases h

theorem readSize_spec {id : Text} {value : Value} {size : InputSize}
    (h : readSize repr id value = .ok size) :
    (∃ n, size = .bytes n ∧ value.asInt? = some n) ∨
      ∃ s, size = .expression s ∧ value.asInt? = none ∧ value.asStr? = some s := by
  unfold readSize at h
  cases hn : value.asInt? with
  | some n =>
    rw [hn] at h
    exact Or.inl ⟨n, (Except.ok.inj h).symm, rfl⟩
  | none =>
    cases hs : value.asStr? with
    | some s =>
      rw [hn, hs] at h
      exact Or.inr ⟨s, (Except.ok.inj h).symm, rfl, rfl⟩
    | none =>
      rw [hn, hs] at h
      cases h

/-- One entry of `inputs`. -/
theorem readInput_readsAs {ids names : List Text} {value : Value} {input : RunnerInput}
    (h : readInput repr ids names value = .ok input) : ∃ items, ReadsAs value items input := by
  unfold readInput at h
  split at h
  · cases h
  · next items hdict =>
    obtain ⟨id, hid, h⟩ := Sequence.bind_eq_ok_iff.mp h
    obtain ⟨name, hname, h⟩ := Sequence.bind_eq_ok_iff.mp h
    obtain ⟨kind, hkind, h⟩ := Sequence.bind_eq_ok_iff.mp h
    obtain ⟨size, hsize, h⟩ := Sequence.bind_eq_ok_iff.mp h
    obtain ⟨constraints, -, h⟩ := Sequence.bind_eq_ok_iff.mp h
    obtain rfl := Except.ok.inj h
    exact ⟨items, hdict, (readIdentifier_spec hid).1, (readIdentifier_spec hname).1,
      readKind_asStr hkind, readSize_spec hsize⟩

/-- The entries of `inputs`, one by one. -/
theorem readInputs_readsAs {values : List Value} {ids names : List Text}
    {inputs : List RunnerInput} (h : readInputs repr ids names values = .ok inputs) :
    List.Forall₂ (fun value input => ∃ items, ReadsAs value items input) values inputs := by
  induction values generalizing ids names inputs with
  | nil =>
    obtain rfl := Except.ok.inj h
    exact List.Forall₂.nil
  | cons value values ih =>
    rw [readInputs] at h
    obtain ⟨input, hinput, h⟩ := Sequence.bind_eq_ok_iff.mp h
    obtain ⟨rest, hrest, h⟩ := Sequence.bind_eq_ok_iff.mp h
    obtain rfl := Except.ok.inj h
    exact List.Forall₂.cons (readInput_readsAs hinput) (ih hrest)

theorem loadInputs_spec {value : Value} {inputs : RunnerInputs}
    (h : loadInputs repr value = .ok inputs) :
    ∃ values, value.asList? = some values ∧
      List.Forall₂ (fun value input => ∃ items, ReadsAs value items input) values
        inputs.inputs := by
  unfold loadInputs at h
  split at h
  · next first rest hvalue =>
    split at h
    · cases h
    · next inputs' hread =>
      obtain rfl := Except.ok.inj h
      exact ⟨_, hvalue, readInputs_readsAs hread⟩
  · cases h

/-! ### The tables of a config -/

/-- The items of a table, none for any other value. -/
def tableAt (value : Value) : List (Text × Value) := value.asDict?.getD []

/-- The entries of `inputs`. -/
def inputsOf (cfg : List (Text × Value)) : List Value :=
  (Value.field cfg "inputs".toList).asList?.getD []

/-- `mode_policy.abacus`. -/
def abacusPolicyOf (cfg : List (Text × Value)) : List (Text × Value) :=
  tableAt (Value.field (tableAt (Value.field cfg "mode_policy".toList)) "abacus".toList)

/-- `mode_policy.abacus.secret_inputs`. -/
def secretInputsOf (cfg : List (Text × Value)) : List Value :=
  (Value.field (abacusPolicyOf cfg) "secret_inputs".toList).asList?.getD []

/-- A preset. -/
def presetOf (cfg : List (Text × Value)) (name : Text) : List (Text × Value) :=
  tableAt (Value.field (tableAt (Value.field cfg "presets".toList)) name)

/-- The macros of a preset. -/
def macrosOf (cfg : List (Text × Value)) (name : Text) : List (Text × Value) :=
  tableAt (Value.field (presetOf cfg name) "macros".toList)

/-- The seeds of a preset. -/
def seedsOf (cfg : List (Text × Value)) (name : Text) : List (Text × Value) :=
  tableAt (Value.field (presetOf cfg name) "abacus_secrets".toList)

/-- `table.get(key, {})`, where it is a table. -/
def optionalTable (table : List (Text × Value)) (key : Text) : Option (List (Text × Value)) :=
  match Dict.lookup key table with
  | none => some []
  | some value => value.asDict?

/-- **What an accepted config looks like**, table by table. -/
structure Accepted (repr : Value → Text) (cfg : List (Text × Value)) (r : Resolved) : Prop where
  inputs : (Value.field cfg "inputs".toList).asList? = some (inputsOf cfg)
  readsAs : List.Forall₂ (fun value input => ∃ items, ReadsAs value items input) (inputsOf cfg)
    r.inputs.inputs
  modePolicy : (Value.field cfg "mode_policy".toList).asDict? =
    some (tableAt (Value.field cfg "mode_policy".toList))
  abacusPolicy : (Value.field (tableAt (Value.field cfg "mode_policy".toList))
    "abacus".toList).asDict? = some (abacusPolicyOf cfg)
  secretList : (Value.field (abacusPolicyOf cfg) "secret_inputs".toList).asList? =
    some (secretInputsOf cfg)
  presets : (Value.field cfg "presets".toList).asDict? =
    some (tableAt (Value.field cfg "presets".toList))
  preset : (Value.field (tableAt (Value.field cfg "presets".toList)) r.presetName).asDict? =
    some (presetOf cfg r.presetName)
  macroTable : optionalTable (presetOf cfg r.presetName) "macros".toList =
    some (macrosOf cfg r.presetName)
  seedTable : optionalTable (presetOf cfg r.presetName) "abacus_secrets".toList =
    some (seedsOf cfg r.presetName)
  macros : (macrosOf cfg r.presetName).mapM (readMacro repr r.presetName) = .ok r.macros
  arrays : ∃ ids sizes,
    (secretInputsOf cfg).mapM (readSecretInput repr (r.inputs.ids .secret)) = .ok ids ∧
    sameMembers ids (r.inputs.ids .secret) ∧
    r.inputs.inputs.mapM (resolveSize repr r.presetName r.macros) = .ok sizes ∧
    (seedsOf cfg r.presetName).mapM (readArray repr r.presetName "abacus_secrets".toList
      (r.inputs.ids .secret) "secret".toList sizes) = .ok r.abacusArrays ∧
    sameMembers ((seedsOf cfg r.presetName).map Prod.fst) ids

theorem dictOr_spec {value : Value} {msg : Text} {items : List (Text × Value)}
    (h : dictOr value msg = .ok items) : value.asDict? = some items := by
  unfold dictOr at h
  cases hv : value.asDict? with
  | none =>
    rw [hv] at h
    cases h
  | some items' =>
    rw [hv] at h
    rw [Except.ok.inj h]

theorem tableAt_eq {value : Value} {items : List (Text × Value)}
    (h : value.asDict? = some items) : tableAt value = items := by
  rw [tableAt, h]
  rfl

theorem topLevel_spec {cfg : List (Text × Value)} {key : Text} {value : Value}
    (h : topLevel cfg key = .ok value) : Value.field cfg key = value := by
  unfold topLevel at h
  rw [Value.field]
  cases hv : Dict.lookup key cfg with
  | none =>
    rw [hv] at h
    cases h
  | some value' =>
    rw [hv] at h
    exact Except.ok.inj h

theorem readPresets_spec {value : Value} {items : List (Text × Value)}
    (h : readPresets value = .ok items) : value.asDict? = some items := by
  unfold readPresets at h
  split at h
  · next hv => rw [hv, Except.ok.inj h]
  · cases h

theorem readModePolicy_spec {modePolicy abacus : List (Text × Value)}
    (h : readModePolicy modePolicy = .ok abacus) :
    (Value.field modePolicy "abacus".toList).asDict? = some abacus := by
  unfold readModePolicy at h
  obtain ⟨varPub, -, h⟩ := Sequence.bind_eq_ok_iff.mp h
  obtain ⟨fixPub, -, h⟩ := Sequence.bind_eq_ok_iff.mp h
  obtain ⟨abacus', habacus, h⟩ := Sequence.bind_eq_ok_iff.mp h
  obtain ⟨_, -, h⟩ := Sequence.bind_eq_ok_iff.mp h
  obtain ⟨_, -, h⟩ := Sequence.bind_eq_ok_iff.mp h
  obtain ⟨_, -, h⟩ := Sequence.bind_eq_ok_iff.mp h
  rw [← Except.ok.inj h]
  exact dictOr_spec habacus

theorem readSecretInputs_spec {secretIds ids : List Text} {value : Value}
    (h : readSecretInputs repr secretIds value = .ok ids) :
    ∃ values, value.asList? = some values ∧
      values.mapM (readSecretInput repr secretIds) = .ok ids ∧ sameMembers ids secretIds := by
  unfold readSecretInputs at h
  cases hv : value.asList? with
  | none =>
    rw [hv] at h
    cases h
  | some values =>
    rw [hv] at h
    obtain ⟨ids', hids, h⟩ := Sequence.bind_eq_ok_iff.mp h
    split at h
    · next hsame =>
      obtain rfl := Except.ok.inj h
      exact ⟨values, rfl, hids, hsame⟩
    · cases h

theorem readPreset_spec {presets preset : List (Text × Value)} {name : Text}
    (h : readPreset repr presets name = .ok preset) :
    (Value.field presets name).asDict? = some preset := by
  unfold readPreset at h
  rw [Value.field]
  cases hv : Dict.lookup name presets with
  | none =>
    rw [hv] at h
    cases h
  | some value =>
    rw [hv] at h
    exact dictOr_spec h

theorem presetTable_spec {name key : Text} {preset items : List (Text × Value)}
    (h : presetTable name preset key = .ok items) :
    optionalTable preset key = some items ∧ tableAt (Value.field preset key) = items := by
  unfold presetTable at h
  unfold optionalTable Value.field
  cases hv : Dict.lookup key preset with
  | none =>
    rw [hv] at h
    rw [← Except.ok.inj h]
    exact ⟨rfl, rfl⟩
  | some value =>
    rw [hv] at h
    exact ⟨dictOr_spec h, tableAt_eq (dictOr_spec h)⟩

theorem readArrays_spec {name key noun missing : Text} {ids required : List Text}
    {sizes : List (Text × Nat)} {items : List (Text × Value)}
    {arrays : List (Text × List UInt8)}
    (h : readArrays repr name key ids noun sizes required missing items = .ok arrays) :
    items.mapM (readArray repr name key ids noun sizes) = .ok arrays ∧
      sameMembers (items.map Prod.fst) required := by
  unfold readArrays at h
  obtain ⟨arrays', harrays, h⟩ := Sequence.bind_eq_ok_iff.mp h
  split at h
  · next hsame =>
    obtain rfl := Except.ok.inj h
    exact ⟨harrays, hsame⟩
  · cases h

/-- **The inversion of `_load_resolved_config`.** -/
theorem loadResolvedConfig_spec {cfg : List (Text × Value)} {selected : Option Text}
    {r : Resolved} (h : loadResolvedConfig repr cfg selected = .ok r) :
    Accepted repr cfg r ∧
      presetName (tableAt (Value.field cfg "presets".toList)) selected = .ok r.presetName ∧
      ∃ (sizes : List (Text × Nat)) (vars : List (Text × Value)),
        r.inputs.inputs.mapM (resolveSize repr r.presetName r.macros) = .ok sizes ∧
        vars.mapM (readArray repr r.presetName "vars".toList (r.inputs.ids .isPublic)
          "public".toList sizes) = .ok r.publicArrays ∧
        sameMembers (vars.map Prod.fst) (r.inputs.ids .isPublic) := by
  unfold loadResolvedConfig at h
  obtain ⟨inputsValue, hinputs, h⟩ := Sequence.bind_eq_ok_iff.mp h
  obtain ⟨policyValue, hpolicy, h⟩ := Sequence.bind_eq_ok_iff.mp h
  obtain ⟨presetsValue, hpresets, h⟩ := Sequence.bind_eq_ok_iff.mp h
  obtain ⟨_, -, h⟩ := Sequence.bind_eq_ok_iff.mp h
  obtain ⟨modePolicy, hmode, h⟩ := Sequence.bind_eq_ok_iff.mp h
  obtain ⟨presets, hpresetTable, h⟩ := Sequence.bind_eq_ok_iff.mp h
  obtain ⟨abacus, habacus, h⟩ := Sequence.bind_eq_ok_iff.mp h
  obtain ⟨inputs, hload, h⟩ := Sequence.bind_eq_ok_iff.mp h
  obtain ⟨secretInputs, hsecret, h⟩ := Sequence.bind_eq_ok_iff.mp h
  obtain ⟨name, hname, h⟩ := Sequence.bind_eq_ok_iff.mp h
  obtain ⟨preset, hpreset, h⟩ := Sequence.bind_eq_ok_iff.mp h
  obtain ⟨macroTable, hmacros, h⟩ := Sequence.bind_eq_ok_iff.mp h
  obtain ⟨varTable, -, h⟩ := Sequence.bind_eq_ok_iff.mp h
  obtain ⟨seedTable, hseeds, h⟩ := Sequence.bind_eq_ok_iff.mp h
  obtain ⟨macros, hmacro, h⟩ := Sequence.bind_eq_ok_iff.mp h
  obtain ⟨sizes, hsizes, h⟩ := Sequence.bind_eq_ok_iff.mp h
  obtain ⟨publicArrays, hpublic, h⟩ := Sequence.bind_eq_ok_iff.mp h
  obtain ⟨abacusArrays, harrays, h⟩ := Sequence.bind_eq_ok_iff.mp h
  obtain rfl := Except.ok.inj h
  -- every accessor reads the table the checks went through
  obtain rfl := topLevel_spec hinputs
  obtain rfl := topLevel_spec hpolicy
  obtain rfl := topLevel_spec hpresets
  have hmodeTable := tableAt_eq (dictOr_spec hmode)
  have hpresetsTable := tableAt_eq (readPresets_spec hpresetTable)
  have habacusTable : abacusPolicyOf cfg = abacus := by
    rw [abacusPolicyOf, hmodeTable]
    exact tableAt_eq (readModePolicy_spec habacus)
  have hpresetOf : presetOf cfg name = preset := by
    rw [presetOf, hpresetsTable]
    exact tableAt_eq (readPreset_spec hpreset)
  obtain ⟨hmacroTable, hmacrosOf⟩ := presetTable_spec hmacros
  obtain ⟨hseedTable, hseedsOf⟩ := presetTable_spec hseeds
  obtain ⟨values, hvalues, hreads⟩ := loadInputs_spec hload
  obtain ⟨secrets, hlist, hids, hsame⟩ := readSecretInputs_spec hsecret
  obtain ⟨hseed, hrequired⟩ := readArrays_spec harrays
  have hinputsOf : inputsOf cfg = values := by
    rw [inputsOf, hvalues]
    rfl
  have hsecretsOf : secretInputsOf cfg = secrets := by
    rw [secretInputsOf, habacusTable, hlist]
    rfl
  have hmacrosOf' : macrosOf cfg name = macroTable := by
    rw [macrosOf, hpresetOf, hmacrosOf]
  have hseedsOf' : seedsOf cfg name = seedTable := by
    rw [seedsOf, hpresetOf, hseedsOf]
  obtain ⟨hvars, hgiven⟩ := readArrays_spec hpublic
  refine ⟨?_, by rw [hpresetsTable, hname], sizes, varTable, hsizes, hvars, hgiven⟩
  constructor
  · rw [hinputsOf, hvalues]
  · rw [hinputsOf]
    exact hreads
  · rw [hmodeTable]
    exact dictOr_spec hmode
  · rw [hmodeTable, habacusTable]
    exact readModePolicy_spec habacus
  · rw [habacusTable, hsecretsOf, hlist]
  · rw [hpresetsTable]
    exact readPresets_spec hpresetTable
  · rw [hpresetsTable, hpresetOf]
    exact readPreset_spec hpreset
  · rw [hpresetOf, hmacrosOf', hmacroTable]
  · rw [hpresetOf, hseedsOf', hseedTable]
  · rw [hmacrosOf']
    exact hmacro
  · refine ⟨secretInputs, sizes, ?_, hsame, hsizes, ?_, ?_⟩
    · rw [hsecretsOf]
      exact hids
    · rw [hseedsOf']
      exact hseed
    · rw [hseedsOf']
      exact hrequired

/-- The preset that is materialised: the selected one, or the only one. -/
theorem presetName_eq {presets : List (Text × Value)} {selected : Option Text} {name : Text}
    (h : presetName presets selected = .ok name) :
    selected = some name ∨ selected = none ∧ ∃ value, presets = [(name, value)] := by
  unfold presetName at h
  cases selected with
  | some s => exact Or.inl (by rw [Except.ok.inj h])
  | none =>
    refine Or.inr ⟨rfl, ?_⟩
    dsimp only at h
    split at h
    · next s value => exact ⟨value, by rw [Except.ok.inj h]⟩
    · cases h

end Accepted

end KleeDeps.Runner
