import KleeDeps.Converters.SecretLayout
import KleeDeps.Shared.Registry

/-!
# The sizes of a layout and the sizes of the build

A benchmark is built from a runner config and one of its presets, and its findings are
decoded with sizes from a runner config and a preset. The builder, the BINSEC runner and
the ABACUS runner resolve the two each on its own.

- `generateRunnerArtifacts`: the config and the preset the builder materialises;
- `formatSource`, `resolveRunnerFormatValues`: what the BINSEC runner resolves the
  placeholders of its layouts with;
- `abacusSource`: what the ABACUS runner hands to the converter;
- `sizes_agree_iff`: **the sizes are those of the build iff** the profile of the case has
  the config of the target's, both lead to one preset, and, for placeholders, the macros
  of the preset do not differ in case only.
-/

namespace KleeDeps.Experiments

open Py Runner Shared Converters

section Resolving

variable (repr : Value → Text) (format : Text → Int → Except Exc Text)
  (files : Text → List (Text × Value))

/-! ## Profiles and presets (`experiment_registry.py`) -/

/-- `runner_profile_for_definition`. -/
def runnerProfileForDefinition (d : BenchmarkDefinition) (profileId : Option Text) :
    Except Exc (Text × RunnerProfile) :=
  let benchmark := "benchmark ".toList ++ repr (.str (formatBenchmarkSelector d.identity))
  let available := join ", ".toList (sortTexts (d.runnerProfiles.map Prod.fst))
  if d.runnerProfiles = [] then
    .error (.valueError (benchmark ++ " does not define runner profiles".toList))
  else
    match profileId with
    | none =>
      match d.runnerProfiles with
      | [profile] => .ok profile
      | _ => .error (.valueError (benchmark ++
          " requires an explicit runner profile; expected one of ".toList ++ available))
    | some id =>
      match Dict.lookup id d.runnerProfiles with
      | some profile => .ok (id, profile)
      | none => .error (.valueError (benchmark ++ " does not define runner profile ".toList ++
          repr (.str id) ++ "; expected one of ".toList ++ available))

/-- The preset of `build_for_tool`. -/
def buildForTool (d : BenchmarkDefinition) (toolId : Text) : Except Exc Text :=
  if toolId ∉ d.tools then
    .error (.valueError ("benchmark ".toList ++
      repr (.str (formatBenchmarkSelector d.identity)) ++ " does not support tool ".toList ++
      repr (.str toolId)))
  else do
    let location := fieldPath d.configLocation "build".toList
    let table ← expectTable (Value.field d.extraConfig "build".toList) location
    expectString table "preset".toList location

/-- `needle in text`. -/
def occursIn (needle : Text) : Text → Bool
  | [] => needle.isEmpty
  | c :: rest => needle.isPrefixOf (c :: rest) || occursIn needle rest

/-- `"{sym_size}" in preset`. -/
def Templated (preset : Text) : Prop := occursIn "\x7bsym_size\x7d".toList preset = true

instance (preset : Text) : Decidable (Templated preset) :=
  inferInstanceAs (Decidable (_ = true))

/-! ## The builder (`build_benchmark.py`) -/

/-- The profile of the target. -/
def targetProfile (d : BenchmarkDefinition) : Except Exc RunnerProfile := do
  let profileId ← optionalString d.extraConfig "runner_profile".toList
    (fieldPath (fieldPath d.configLocation "targets".toList) d.targetId)
  let profile ← runnerProfileForDefinition repr d profileId
  return profile.2

/-- `_resolve_runner_config_path`, below the root of the workspace. -/
def resolveRunnerConfigPath (d : BenchmarkDefinition) : Except Exc Text := do
  let profile ← targetProfile repr d
  return profile.config

/-- `_resolve_runner_preset`. -/
def resolveRunnerPreset (d : BenchmarkDefinition) (requested : Text) : Except Exc Text := do
  let profile ← targetProfile repr d
  if Templated profile.preset then return requested else return profile.preset

/-- The `--preset` of the generator, which an empty text does not set. -/
def selectedPreset (preset : Text) : Option Text := if preset = [] then none else some preset

/-- `_generate_runner_artifacts`: the config, and what the header is rendered from.
`files` are the runner configs of the repository; the workspace has a copy of them. -/
def generateRunnerArtifacts (d : BenchmarkDefinition) (requested : Text) :
    Except Exc (Text × Resolved) := do
  let preset ← resolveRunnerPreset repr d requested
  let config ← resolveRunnerConfigPath repr d
  let header ← loadResolvedConfig repr (files config) (selectedPreset preset)
  return (config, header)

/-! ## The BINSEC runner (`run_binsec.py`) -/

/-- The preset the BINSEC worker builds with and decodes with. `format` is `str.format`
with the one field `sym_size`. -/
def binsecBuildPreset (d : BenchmarkDefinition) (symSize : Int) : Except Exc Text := do
  let preset ← buildForTool repr d "binsec".toList
  format preset symSize

/-- The config `_resolve_runner_format_values` reads. -/
def formatSource (d : BenchmarkDefinition) (profileId : Option Text) : Except Exc Text := do
  let profile ← runnerProfileForDefinition repr d profileId
  return profile.2.config

/-- `key.lower()`; the names of macros are ASCII. -/
def lower (key : Text) : Text := key.map Char.toLower

/-- The values of the placeholders: the macros, again under their names in lower case, and
`sym_size`. -/
def formatValues (macros : List (Text × Value)) (symSize : Int) : Dict Text Value :=
  let values := (Dict.setAll .empty macros).setAll
    ((macros.filter (·.1 ≠ [])).map fun item => (lower item.1, item.2))
  let values := if (values.get? "sym_size".toList).isNone then
    values.set "sym_size".toList (.int symSize) else values
  match (Value.field macros "SYM_SIZE".toList).asInt? with
  | some _ => values.set "sym_size".toList (Value.field macros "SYM_SIZE".toList)
  | none => values

/-- `_resolve_runner_format_values`. -/
def resolveRunnerFormatValues (d : BenchmarkDefinition) (profileId : Option Text)
    (buildPreset : Text) (symSize : Int) : Except Exc (Dict Text Value) := do
  let config ← formatSource repr d profileId
  match (Value.field (files config) "presets".toList).asDict? with
  | none => .error (.valueError
      ("runner config ".toList ++ config ++ " is missing presets".toList))
  | some presets =>
    match (Value.field presets buildPreset).asDict? with
    | none => .error (.valueError ("runner config ".toList ++ config ++
        " is missing preset ".toList ++ repr (.str buildPreset)))
    | some preset =>
      match optionalTable preset "macros".toList with
      | none => .error (.valueError ("runner config ".toList ++ config ++ " preset ".toList ++
          repr (.str buildPreset) ++ " is missing macros".toList))
      | some macros => return formatValues macros symSize

/-! ## The ABACUS runner (`run_abacus.py`) -/

/-- `_resolve_preset_name`. -/
def resolvePresetName (template : Text) (symSize : Option Int) (owner : Text) :
    Except Exc Text :=
  if Templated template then
    match symSize with
    | none => .error (.exit (owner ++ " requires --sym-size because preset ".toList ++
        repr (.str template) ++ " depends on it".toList))
    | some n => format template n
  else .ok template

/-- The preset the ABACUS worker builds with. -/
def abacusBuildPreset (d : BenchmarkDefinition) (symSize : Option Int) : Except Exc Text := do
  let preset ← buildForTool repr d "abacus".toList
  resolvePresetName repr format preset symSize
    ("ABACUS build preset for ".toList ++ formatBenchmarkSelector d.identity)

/-- The profile of an ABACUS case is chosen like the one of a BINSEC case. -/
def abacusRunnerProfile (case : ExpandedCase) : Except Exc (Option Text) :=
  binsecRunnerProfile case

/-- The config and the preset the ABACUS worker hands to the converter; a case without
profile hands over nothing. -/
def abacusSource (d : BenchmarkDefinition) (profileId : Option Text) (symSize : Option Int) :
    Except Exc (Option (Text × Text)) :=
  match profileId with
  | none => .ok none
  | some id => do
    let profile ← runnerProfileForDefinition repr d (some id)
    let preset ← resolvePresetName repr format profile.2.preset symSize
      ("ABACUS runner preset for ".toList ++ formatBenchmarkSelector d.identity)
    return some (profile.2.config, preset)

/-- The layout the converter loads: it insists on both. -/
def abacusLayout (source : Option (Text × Text)) : Except Exc (List (Text × AbacusSecret)) :=
  match source with
  | none => .error (.valueError "runner_config is required".toList)
  | some (config, preset) =>
    if preset = [] then .error (.valueError "preset_name is required".toList)
    else loadAbacusSecretLayout repr (files config) preset

/-! ## Accepted runs -/

variable (floatTruth : Text → Bool)

/-- A case of a BINSEC run: the build has materialised `config` and `header`, and the
values of the placeholders in the layouts are resolved. -/
structure BinsecRun (d : BenchmarkDefinition) (symSize : Int) where
  case : ExpandedCase
  requested : Text
  config : Text
  header : Resolved
  profileId : Option Text
  source : Text
  values : Dict Text Value
  expanded : ∃ cases, expandBenchmarkCases floatTruth d.toDefinition "binsec".toList = .ok cases ∧
    case ∈ cases
  build : binsecBuildPreset repr format d symSize = .ok requested
  materialised : generateRunnerArtifacts repr files d requested = .ok (config, header)
  profile : binsecRunnerProfile case = .ok profileId
  sourced : formatSource repr d profileId = .ok source
  resolved : resolveRunnerFormatValues repr files d profileId requested symSize = .ok values

/-- A case of an ABACUS run: the build has materialised `config` and `header`, and the
converter has loaded its layout from `source` and `preset`. -/
structure AbacusRun (d : BenchmarkDefinition) (symSize : Option Int) where
  case : ExpandedCase
  requested : Text
  config : Text
  header : Resolved
  profileId : Option Text
  source : Text
  preset : Text
  layout : List (Text × AbacusSecret)
  expanded : ∃ cases, expandBenchmarkCases floatTruth d.toDefinition "abacus".toList = .ok cases ∧
    case ∈ cases
  build : abacusBuildPreset repr format d symSize = .ok requested
  materialised : generateRunnerArtifacts repr files d requested = .ok (config, header)
  profile : abacusRunnerProfile case = .ok profileId
  sourced : abacusSource repr format d profileId symSize = .ok (some (source, preset))
  loaded : abacusLayout repr files (some (source, preset)) = .ok layout

end Resolving

section Agreement

variable {repr : Value → Text} {format : Text → Int → Except Exc Text}
  {files : Text → List (Text × Value)} {floatTruth : Text → Bool} {d : BenchmarkDefinition}

/-- The number a placeholder stands for. -/
def placeholder (values : Dict Text Value) (key : Text) : Option Int :=
  (values.get? key).bind Value.asInt?

/-- The placeholders come from the config and the preset of the build: every macro of the
header has its value, in its own spelling and in lower case, and so has the size of every
buffer that is declared with a macro. -/
structure BinsecRun.Agrees {symSize : Int} (run : BinsecRun repr format files floatTruth d symSize) :
    Prop where
  config : run.source = run.config
  preset : run.requested = run.header.presetName
  macros : ∀ m ∈ run.header.macros, placeholder run.values m.1 = some (m.2 : Int) ∧
    placeholder run.values (lower m.1) = some (m.2 : Int)
  sizes : ∀ input ∈ run.header.inputs.inputs, ∀ name, input.size = .expression name →
    placeholder run.values name = some (sizeofInput run.header.macros input : Int) ∧
      placeholder run.values (lower name) = some (sizeofInput run.header.macros input : Int)

/-- The layout comes from the config and the preset of the build, and every entry has the
size of its buffer. -/
structure AbacusRun.Agrees {symSize : Option Int}
    (run : AbacusRun repr format files floatTruth d symSize) : Prop where
  config : run.source = run.config
  preset : run.preset = run.header.presetName
  sizes : ∀ entry ∈ run.layout, ∃ input ∈ run.header.inputs.inputs, input.id = entry.1 ∧
    entry.2.size = sizeofInput run.header.macros input

/-- The preset the builder takes: the requested one for a template, else the one of the
profile. -/
def builtPreset (target : RunnerProfile) (requested : Text) : Text :=
  if Templated target.preset then requested else target.preset

/-- The profile of a case and the one of its target lead to the same config and preset.
Where the builder is given an empty preset, the config has only one. -/
def SamePair (repr : Value → Text) (d : BenchmarkDefinition) (profileId : Option Text)
    (requested preset : Text) : Prop :=
  ∃ target own, targetProfile repr d = .ok target ∧
    runnerProfileForDefinition repr d profileId = .ok own ∧
    own.2.config = target.config ∧
    (builtPreset target requested = [] ∨ builtPreset target requested = preset)

/-- Macros that differ in case only have the same value. -/
def SameUpToCase (macros : List (Text × Value)) : Prop :=
  ∀ m ∈ macros, ∀ m' ∈ macros, lower m.1 = lower m'.1 → m.2.asInt? = m'.2.asInt?

/-! ## The pair -/

theorem generateRunnerArtifacts_spec {requested config : Text} {header : Resolved}
    (h : generateRunnerArtifacts repr files d requested = .ok (config, header)) :
    ∃ target, targetProfile repr d = .ok target ∧ config = target.config ∧
      loadResolvedConfig repr (files config) (selectedPreset (builtPreset target requested)) =
        .ok header := by
  unfold generateRunnerArtifacts resolveRunnerPreset resolveRunnerConfigPath at h
  obtain ⟨preset, hpreset, h⟩ := Sequence.bind_eq_ok_iff.mp h
  obtain ⟨config', hconfig, h⟩ := Sequence.bind_eq_ok_iff.mp h
  obtain ⟨header', hheader, h⟩ := Sequence.bind_eq_ok_iff.mp h
  obtain ⟨target, htarget, hpreset⟩ := Sequence.bind_eq_ok_iff.mp hpreset
  obtain ⟨target', htarget', hconfig⟩ := Sequence.bind_eq_ok_iff.mp hconfig
  obtain rfl : target = target' := by
    rw [htarget] at htarget'
    exact Except.ok.inj htarget'
  have hbuilt : preset = builtPreset target requested := by
    unfold builtPreset
    split at hpreset
    · next ht => rw [if_pos ht, Except.ok.inj hpreset]
    · next ht => rw [if_neg ht, Except.ok.inj hpreset]
  obtain ⟨rfl, rfl⟩ := Prod.mk.inj (Except.ok.inj h)
  refine ⟨target, htarget, (Except.ok.inj hconfig).symm, ?_⟩
  rw [← hbuilt]
  exact hheader

theorem formatSource_spec {profileId : Option Text} {source : Text}
    (h : formatSource repr d profileId = .ok source) :
    ∃ own, runnerProfileForDefinition repr d profileId = .ok own ∧ source = own.2.config := by
  obtain ⟨own, hown, h⟩ := Sequence.bind_eq_ok_iff.mp h
  exact ⟨own, hown, (Except.ok.inj h).symm⟩

/-- A preset of the config is the one that was materialised iff it was selected, or nothing
was. -/
theorem eq_presetName_iff {cfg : List (Text × Value)} {r : Resolved} {built preset : Text}
    (h : loadResolvedConfig repr cfg (selectedPreset built) = .ok r)
    (hpreset : Dict.lookup preset (tableAt (Value.field cfg "presets".toList)) ≠ none) :
    preset = r.presetName ↔ built = [] ∨ built = preset := by
  have hname := (loadResolvedConfig_spec h).2.1
  unfold selectedPreset at hname
  by_cases hbuilt : built = []
  · -- nothing was selected, so there is one preset only
    rw [if_pos hbuilt] at hname
    obtain hsome | ⟨-, value, hone⟩ := presetName_eq hname
    · cases hsome
    · refine ⟨fun _ => Or.inl hbuilt, fun _ => ?_⟩
      rw [hone, Dict.lookup] at hpreset
      by_cases he : r.presetName = preset
      · exact he.symm
      · rw [if_neg he] at hpreset
        exact absurd rfl hpreset
  · rw [if_neg hbuilt] at hname
    obtain hsome | ⟨hnone, -⟩ := presetName_eq hname
    · rw [← Option.some.inj hsome]
      constructor
      · intro he
        exact Or.inr he.symm
      · rintro (he | he)
        · exact absurd he hbuilt
        · exact he.symm
    · cases hnone

theorem lookup_ne_none_of_dict {items preset : List (Text × Value)} {key : Text}
    (h : (Value.field items key).asDict? = some preset) : Dict.lookup key items ≠ none := by
  intro hnone
  rw [Value.field, hnone] at h
  cases h

/-- What the values of the placeholders are resolved from. -/
theorem resolveRunnerFormatValues_spec {profileId : Option Text} {preset source : Text}
    {symSize : Int} {values : Dict Text Value} (hsource : formatSource repr d profileId = .ok source)
    (h : resolveRunnerFormatValues repr files d profileId preset symSize = .ok values) :
    Dict.lookup preset (tableAt (Value.field (files source) "presets".toList)) ≠ none ∧
      values = formatValues (macrosOf (files source) preset) symSize := by
  unfold resolveRunnerFormatValues at h
  obtain ⟨source', hsource', h⟩ := Sequence.bind_eq_ok_iff.mp h
  obtain rfl : source = source' := by
    rw [hsource] at hsource'
    exact Except.ok.inj hsource'
  cases hpresets : (Value.field (files source) "presets".toList).asDict? with
  | none =>
    rw [hpresets] at h
    cases h
  | some presets =>
    rw [hpresets] at h
    dsimp only at h
    rw [tableAt_eq hpresets]
    cases hpreset : (Value.field presets preset).asDict? with
    | none =>
      rw [hpreset] at h
      cases h
    | some table =>
      rw [hpreset] at h
      dsimp only at h
      refine ⟨lookup_ne_none_of_dict hpreset, ?_⟩
      -- a preset without `macros` is read as one with an empty table
      have hmacros : optionalTable table "macros".toList =
          some (macrosOf (files source) preset) ∨
          optionalTable table "macros".toList = none := by
        rw [macrosOf, presetOf, tableAt_eq hpresets, tableAt_eq hpreset]
        unfold optionalTable Value.field tableAt
        cases Dict.lookup "macros".toList table with
        | none => exact Or.inl rfl
        | some value =>
          cases hvalue : value.asDict? with
          | none => exact Or.inr hvalue
          | some items =>
            left
            show value.asDict? = some (value.asDict?.getD [])
            rw [hvalue]
            rfl
      rcases hmacros with hmacros | hmacros
      · rw [hmacros] at h
        exact (Except.ok.inj h).symm
      · rw [hmacros] at h
        cases h

/-! ## The placeholders -/

theorem toLower_toLower (c : Char) : c.toLower.toLower = c.toLower := by
  unfold Char.toLower
  split
  · next h =>
    rw [dif_neg]
    intro hc
    have hlow : 65 ≤ c.val.toNat := UInt32.le_iff_toNat_le.mp h.1
    have hhigh : c.val.toNat ≤ 90 := UInt32.le_iff_toNat_le.mp h.2
    have hle : (c.val + 32).toNat ≤ 90 := UInt32.le_iff_toNat_le.mp hc.2
    have h32 : (32 : UInt32).toNat = 32 := rfl
    rw [UInt32.toNat_add] at hle
    omega
  · rfl

theorem lower_lower (key : Text) : lower (lower key) = lower key := by
  unfold lower
  rw [List.map_map]
  exact List.map_congr_left fun c _ => toLower_toLower c

/-- A key that some macro has, in its own spelling or in lower case, stands for the value
all such macros have. -/
theorem placeholder_formatValues {macros : List (Text × Value)} {symSize n : Int} {key : Text}
    (hall : ∀ m ∈ macros, m.1 = key ∨ lower m.1 = key → m.2.asInt? = some n)
    (hmem : ∃ m ∈ macros, m.1 ≠ [] ∧ (m.1 = key ∨ lower m.1 = key)) :
    placeholder (formatValues macros symSize) key = some n := by
  -- the macros and their names in lower case
  have hmacros : ∃ v, ((Dict.setAll .empty macros).setAll
      ((macros.filter (·.1 ≠ [])).map fun item => (lower item.1, item.2))).get? key = some v ∧
        v.asInt? = some n := by
    rw [← Dict.setAll_append]
    refine Dict.exists_get?_setAll _ (fun v hv => ?_) (Or.inr ?_)
    · rcases List.mem_append.mp hv with hv | hv
      · exact hall _ hv (Or.inl rfl)
      · obtain ⟨item, hitem, he⟩ := List.mem_map.mp hv
        obtain ⟨rfl, rfl⟩ := Prod.mk.inj he
        exact hall item (List.mem_of_mem_filter hitem) (Or.inr rfl)
    · obtain ⟨m, hm, hne, hkey⟩ := hmem
      rw [List.map_append, List.mem_append]
      rcases hkey with hkey | hkey
      · exact Or.inl (List.mem_map.mpr ⟨m, hm, hkey⟩)
      · refine Or.inr (List.mem_map.mpr ⟨_, List.mem_map.mpr ⟨m, ?_, rfl⟩, hkey⟩)
        exact List.mem_filter.mpr ⟨hm, decide_eq_true hne⟩
  obtain ⟨v, hget, hv⟩ := hmacros
  unfold placeholder formatValues
  -- `sym_size` is only set where it is missing
  have hdefault : ∀ (values : Dict Text Value), values.get? key = some v →
      (if (values.get? "sym_size".toList).isNone then
        values.set "sym_size".toList (.int symSize) else values).get? key = some v := by
    intro values hvalues
    split
    · next hnone =>
      rw [Dict.get?_set_of_ne _ ?_, hvalues]
      rintro rfl
      rw [hvalues] at hnone
      cases hnone
    · exact hvalues
  dsimp only
  cases hsym : (Value.field macros "SYM_SIZE".toList).asInt? with
  | none =>
    show Option.bind (Dict.get? _ key) _ = _
    rw [hdefault _ hget]
    exact hv
  | some k =>
    show Option.bind (Dict.get? (Dict.set _ _ _) key) _ = _
    rw [Dict.get?_set]
    split
    · next hkey =>
      rw [Value.field] at hsym ⊢
      cases hlookup : Dict.lookup "SYM_SIZE".toList macros with
      | none =>
        rw [hlookup] at hsym
        cases hsym
      | some value =>
        exact hall _ (Dict.mem_of_lookup hlookup) (Or.inr hkey)
    · rw [hdefault _ hget]
      exact hv

/-- **Every macro has its value as a placeholder**, in both spellings, iff macros that
differ in case only have the same value. -/
theorem placeholders_iff {name : Text} {macros : List (Text × Value)}
    {header : List (Text × Nat)} {symSize : Int}
    (h : macros.mapM (readMacro repr name) = .ok header) :
    (∀ m ∈ header, placeholder (formatValues macros symSize) m.1 = some (m.2 : Int) ∧
      placeholder (formatValues macros symSize) (lower m.1) = some (m.2 : Int)) ↔
      SameUpToCase macros := by
  have hread : ∀ m ∈ header, ∃ item ∈ macros, item.1 = m.1 ∧ item.1 ≠ [] ∧
      item.2.asInt? = some (m.2 : Int) := by
    intro m hm
    obtain ⟨item, hitem, hread⟩ := Sequence.exists_left_of_mapM h hm
    obtain ⟨hkey, hne, hint, -⟩ := readMacro_spec hread
    exact ⟨item, hitem, hkey, hne, hint⟩
  constructor
  · intro hvalues m hm m' hm' hlower
    obtain ⟨entry, hentry, hreadm⟩ := Sequence.exists_right_of_mapM h hm
    obtain ⟨entry', hentry', hreadm'⟩ := Sequence.exists_right_of_mapM h hm'
    obtain ⟨hkey, -, hint, -⟩ := readMacro_spec hreadm
    obtain ⟨hkey', -, hint', -⟩ := readMacro_spec hreadm'
    -- two spellings of one lowercase name read the same placeholder
    have h₁ := (hvalues entry hentry).2
    have h₂ := (hvalues entry' hentry').2
    rw [← hkey, hlower, hkey', h₂] at h₁
    rw [hint, hint', ← h₁]
  · intro hsame m hm
    obtain ⟨item, hitem, hkey, hne, hint⟩ := hread m hm
    rw [← hkey]
    constructor
    · refine placeholder_formatValues (fun x hx hxkey => ?_) ⟨item, hitem, hne, Or.inl rfl⟩
      rw [← hint]
      refine hsame x hx item hitem ?_
      rcases hxkey with he | he
      · rw [he]
      · rw [← he, lower_lower]
    · refine placeholder_formatValues (fun x hx hxkey => ?_) ⟨item, hitem, hne, Or.inr rfl⟩
      rw [← hint]
      refine hsame x hx item hitem ?_
      rcases hxkey with he | he
      · rw [he, lower_lower]
      · exact he

/-! ## BINSEC -/

/-- The value of a macro that sizes a buffer. -/
theorem mem_macros_of_size {cfg : List (Text × Value)} {r : Resolved}
    (h : Accepted repr cfg r) {input : RunnerInput} (hinput : input ∈ r.inputs.inputs)
    {name : Text} (hsize : input.size = .expression name) :
    (name, sizeofInput r.macros input) ∈ r.macros := by
  obtain ⟨-, sizes, -, -, hsizes, -, -⟩ := h.arrays
  obtain ⟨p, -, hp⟩ := Sequence.exists_right_of_mapM hsizes hinput
  rcases resolveSize_ok hp with ⟨n, hsize', -, -⟩ | ⟨s, n, hsize', hlookup, -⟩
  · cases hsize.symm.trans hsize'
  · obtain rfl := InputSize.expression.inj (hsize.symm.trans hsize')
    unfold sizeofInput
    rw [hsize]
    show (name, (Dict.lookup name r.macros).getD 0) ∈ r.macros
    rw [hlookup]
    exact Dict.mem_of_lookup hlookup

/-- **BINSEC**: the placeholders are those of the build iff the pair is the same and no two
macros of the preset differ in case only. -/
theorem BinsecRun.agrees_iff {symSize : Int}
    (run : BinsecRun repr format files floatTruth d symSize) :
    run.Agrees ↔ SamePair repr d run.profileId run.requested run.requested ∧
      SameUpToCase (macrosOf (files run.config) run.requested) := by
  obtain ⟨target, htarget, hconfig, hload⟩ := generateRunnerArtifacts_spec run.materialised
  obtain ⟨own, hown, hsource⟩ := formatSource_spec run.sourced
  obtain ⟨hpreset, hvalues⟩ := resolveRunnerFormatValues_spec run.sourced run.resolved
  have haccepted := (loadResolvedConfig_spec hload).1
  have hread : run.requested = run.header.presetName →
      (macrosOf (files run.config) run.requested).mapM (readMacro repr run.header.presetName) =
        .ok run.header.macros := by
    intro hname
    rw [hname]
    exact haccepted.macros
  constructor
  · rintro ⟨hsame, hname, hmacros, -⟩
    rw [hsame] at hpreset hvalues
    rw [hvalues] at hmacros
    refine ⟨⟨target, own, htarget, hown, ?_, (eq_presetName_iff hload hpreset).mp hname⟩,
      (placeholders_iff (hread hname)).mp hmacros⟩
    rw [← hsource, hsame, hconfig]
  · rintro ⟨⟨target', own', htarget', hown', hpair, hbuilt⟩, hcase⟩
    -- conversely both files are the ones the case names
    obtain rfl : target = target' := by
      rw [htarget] at htarget'
      exact Except.ok.inj htarget'
    obtain rfl : own = own' := by
      rw [hown] at hown'
      exact Except.ok.inj hown'
    have hsame : run.source = run.config := by rw [hsource, hpair, hconfig]
    rw [hsame] at hpreset hvalues
    have hname := (eq_presetName_iff hload hpreset).mpr hbuilt
    have hmacros := (@placeholders_iff _ _ _ _ symSize (hread hname)).mpr hcase
    rw [← hvalues] at hmacros
    refine ⟨hsame, hname, hmacros, fun input hinput name hsize => ?_⟩
    exact hmacros _ (mem_macros_of_size haccepted hinput hsize)

/-! ## ABACUS -/

theorem abacusSource_spec {profileId : Option Text} {symSize : Option Int} {source preset : Text}
    (h : abacusSource repr format d profileId symSize = .ok (some (source, preset))) :
    ∃ own, runnerProfileForDefinition repr d profileId = .ok own ∧ source = own.2.config := by
  unfold abacusSource at h
  cases profileId with
  | none => cases h
  | some id =>
    obtain ⟨own, hown, h⟩ := Sequence.bind_eq_ok_iff.mp h
    obtain ⟨preset', -, h⟩ := Sequence.bind_eq_ok_iff.mp h
    obtain ⟨rfl, rfl⟩ := Prod.mk.inj (Option.some.inj (Except.ok.inj h))
    exact ⟨own, hown, rfl⟩

theorem preset_of_layout {cfg : List (Text × Value)} {preset : Text}
    {layout : List (Text × AbacusSecret)}
    (h : loadAbacusSecretLayout repr cfg preset = .ok layout) :
    Dict.lookup preset (tableAt (Value.field cfg "presets".toList)) ≠ none := by
  unfold loadAbacusSecretLayout at h
  split at h
  · next hpresets =>
    rw [tableAt_eq hpresets]
    split at h
    · cases h
    · next hpreset => exact lookup_ne_none_of_dict hpreset
  · cases h

/-- The entries of a layout that is loaded from an accepted config have the sizes of the
buffers. -/
theorem size_of_mem_layout {cfg : List (Text × Value)} {r : Resolved}
    (h : Accepted repr cfg r) {layout : List (Text × AbacusSecret)}
    (hload : loadAbacusSecretLayout repr cfg r.presetName = .ok layout)
    {entry : Text × AbacusSecret} (hentry : entry ∈ layout) :
    ∃ input ∈ r.inputs.inputs, input.id = entry.1 ∧
      entry.2.size = sizeofInput r.macros input := by
  rw [loadAbacusSecretLayout_eq h] at hload
  obtain ⟨value, hvalue, hsecret⟩ := Sequence.exists_left_of_mapM hload hentry
  obtain ⟨ids, -, hids, -, -, -, -⟩ := h.arrays
  obtain ⟨id, -, hid⟩ := Sequence.exists_right_of_mapM hids hvalue
  have hstr := asStr_of_loadSecret hsecret
  have hmem : entry.1 ∈ r.inputs.ids .secret := by
    unfold readSecretInput at hid
    rw [hstr] at hid
    dsimp only at hid
    split at hid
    · next hmem => exact hmem
    · cases hid
  obtain ⟨input, hinput, hinputId, hkind⟩ := mem_ids.mp hmem
  obtain ⟨hload, hsize⟩ := loadSecret_eq h hinput hkind
  rw [hinputId, ← eq_str_of_asStr hstr, hsecret] at hload
  refine ⟨input, hinput, hinputId, ?_⟩
  rw [← hsize, Except.ok.inj hload]

/-- **ABACUS**: the layout is that of the build iff the pair is the same. -/
theorem AbacusRun.agrees_iff {symSize : Option Int}
    (run : AbacusRun repr format files floatTruth d symSize) :
    run.Agrees ↔ SamePair repr d run.profileId run.requested run.preset := by
  obtain ⟨target, htarget, hconfig, hload⟩ := generateRunnerArtifacts_spec run.materialised
  obtain ⟨own, hown, hsource⟩ := abacusSource_spec run.sourced
  have hlayout : loadAbacusSecretLayout repr (files run.source) run.preset = .ok run.layout := by
    have hloaded := run.loaded
    unfold abacusLayout at hloaded
    dsimp only at hloaded
    split at hloaded
    · cases hloaded
    · exact hloaded
  have hpreset := preset_of_layout hlayout
  constructor
  · rintro ⟨hsame, hname, -⟩
    rw [hsame] at hpreset
    refine ⟨target, own, htarget, hown, ?_, (eq_presetName_iff hload hpreset).mp hname⟩
    rw [← hsource, hsame, hconfig]
  · rintro ⟨target', own', htarget', hown', hpair, hbuilt⟩
    obtain rfl : target = target' := by
      rw [htarget] at htarget'
      exact Except.ok.inj htarget'
    obtain rfl : own = own' := by
      rw [hown] at hown'
      exact Except.ok.inj hown'
    have hsame : run.source = run.config := by rw [hsource, hpair, hconfig]
    rw [hsame] at hpreset hlayout
    have hname := (eq_presetName_iff hload hpreset).mpr hbuilt
    rw [hname] at hlayout
    exact ⟨hsame, hname, fun entry hentry =>
      size_of_mem_layout (loadResolvedConfig_spec hload).1 hlayout hentry⟩

end Agreement

/-- **The sizes a finding is decoded with are those of the build**: for BINSEC iff the
profile of the case and the one of the target lead to the same config and preset and no
two macros of it differ in case only, for ABACUS iff they lead to the same config and
preset. -/
theorem sizes_agree_iff (repr : Value → Text) (format : Text → Int → Except Exc Text)
    (files : Text → List (Text × Value)) (floatTruth : Text → Bool) (d : BenchmarkDefinition) :
    (∀ (symSize : Int) (run : BinsecRun repr format files floatTruth d symSize),
      run.Agrees ↔ SamePair repr d run.profileId run.requested run.requested ∧
        SameUpToCase (macrosOf (files run.config) run.requested)) ∧
    ∀ (symSize : Option Int) (run : AbacusRun repr format files floatTruth d symSize),
      run.Agrees ↔ SamePair repr d run.profileId run.requested run.preset := by
  refine ⟨fun symSize run => ?_, fun symSize run => ?_⟩
  · exact run.agrees_iff
  · exact run.agrees_iff

/-- A benchmark with one profile and a build preset that depends on the symbol size. -/
def oneProfile (preset : Text) : BenchmarkDefinition :=
  { libraryId := "lib".toList, targetId := "aes".toList, configLocation := "lib.toml".toList
    tools := ["binsec".toList, "abacus".toList]
    extraConfig :=
      [("build".toList, .dict [("preset".toList, .str "size_\x7bsym_size\x7d".toList)]),
       ("runner_profile".toList, .str "main".toList),
       ("configs".toList, .list [.dict [("config".toList, .str "fix".toList),
         ("public_mode".toList, .str "fix_pub".toList)]])]
    codePath := "lib".toList
    runnerProfiles := [("main".toList, { config := "aes.toml".toList, preset := preset })] }

/-- A runner config with one secret of `N` bytes, eight in the preset `default` and four in
`size_4`. -/
def twoPresets : List (Text × Value) :=
  [("inputs".toList, .list
      [.dict [("id".toList, .str "a".toList), ("name".toList, .str "key".toList),
        ("kind".toList, .str "secret".toList), ("size".toList, .str "N".toList)]]),
   ("mode_policy".toList, .dict
      [("var_pub".toList, .dict [("public_symbolic".toList, .bool true)]),
       ("fix_pub".toList, .dict [("public_symbolic".toList, .bool false)]),
       ("abacus".toList, .dict [("public_fixed".toList, .bool true),
         ("secret_inputs".toList, .list [.str "a".toList])])]),
   ("presets".toList, .dict
      [("default".toList, .dict [("macros".toList, .dict [("N".toList, .int 8)]),
         ("abacus_secrets".toList, .dict [("a".toList, .int 1)])]),
       ("size_4".toList, .dict [("macros".toList, .dict [("N".toList, .int 4)]),
         ("abacus_secrets".toList, .dict [("a".toList, .int 1)])])])]

/-- `"size_{sym_size}".format(sym_size=n)`. -/
def formatSize (_ : Text) (n : Int) : Except Exc Text := .ok ("size_".toList ++ intText n)

/-- The BINSEC case of `oneProfile` for four bytes. -/
def binsecRunOf (preset : Text) (header : Resolved)
    (h : generateRunnerArtifacts (fun _ => []) (fun _ => twoPresets) (oneProfile preset)
      "size_4".toList = .ok ("aes.toml".toList, header)) :
    BinsecRun (fun _ => []) formatSize (fun _ => twoPresets) (fun _ => false)
      (oneProfile preset) 4 where
  case := _
  requested := "size_4".toList
  config := "aes.toml".toList
  header := header
  profileId := some "main".toList
  source := "aes.toml".toList
  values := formatValues [("N".toList, .int 4)] 4
  expanded := ⟨_, rfl, List.mem_singleton_self _⟩
  build := rfl
  materialised := h
  profile := rfl
  sourced := rfl
  resolved := rfl

/-- The ABACUS case of `oneProfile` for four bytes and a template as preset. -/
def abacusRunOf (header : Resolved) (layout : List (Text × AbacusSecret))
    (h : generateRunnerArtifacts (fun _ => []) (fun _ => twoPresets)
      (oneProfile "size_\x7bsym_size\x7d".toList) "size_4".toList =
        .ok ("aes.toml".toList, header))
    (hlayout : loadAbacusSecretLayout (fun _ => []) twoPresets "size_4".toList = .ok layout) :
    AbacusRun (fun _ => []) formatSize (fun _ => twoPresets) (fun _ => false)
      (oneProfile "size_\x7bsym_size\x7d".toList) (some 4) where
  case := _
  requested := "size_4".toList
  config := "aes.toml".toList
  header := header
  profileId := some "main".toList
  source := "aes.toml".toList
  preset := "size_4".toList
  layout := layout
  expanded := ⟨_, rfl, List.mem_singleton_self _⟩
  build := rfl
  materialised := h
  profile := rfl
  sourced := rfl
  loaded := hlayout

/-- With the template in the profile as well, both tools decode with the sizes of the
build. -/
theorem sizes_agree_iff_template :
    (∃ run : BinsecRun (fun _ => []) formatSize (fun _ => twoPresets) (fun _ => false)
      (oneProfile "size_\x7bsym_size\x7d".toList) 4, run.Agrees) ∧
    ∃ run : AbacusRun (fun _ => []) formatSize (fun _ => twoPresets) (fun _ => false)
      (oneProfile "size_\x7bsym_size\x7d".toList) (some 4), run.Agrees := by
  obtain ⟨hbinsec, habacus⟩ := sizes_agree_iff (fun _ => []) formatSize (fun _ => twoPresets)
    (fun _ => false) (oneProfile "size_\x7bsym_size\x7d".toList)
  have hsame : SameUpToCase [("N".toList, .int 4)] := by
    intro m hm m' hm' _
    rw [List.mem_singleton.mp hm, List.mem_singleton.mp hm']
  constructor
  · refine ⟨binsecRunOf _ _ rfl, (hbinsec 4 _).mpr ⟨⟨_, _, rfl, rfl, rfl, Or.inr rfl⟩, hsame⟩⟩
  · exact ⟨abacusRunOf _ _ rfl rfl, (habacus (some 4) _).mpr ⟨_, _, rfl, rfl, rfl, Or.inr rfl⟩⟩

/-- A profile that fixes its preset: the buffer is built with the eight bytes of `default`,
and the BINSEC layout gets the four bytes of `size_4`. -/
theorem fixed_preset_ignored :
    ∃ run : BinsecRun (fun _ => []) formatSize (fun _ => twoPresets) (fun _ => false)
        (oneProfile "default".toList) 4,
      ¬ run.Agrees ∧ run.header.inputs.inputs.map (sizeofInput run.header.macros) = [8] ∧
        placeholder run.values "N".toList = some 4 := by
  refine ⟨binsecRunOf _ _ rfl, ?_, rfl, rfl⟩
  intro hagrees
  exact absurd hagrees.preset (by decide)

end KleeDeps.Experiments
