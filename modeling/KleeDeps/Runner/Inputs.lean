import KleeDeps.Data.Sequence
import KleeDeps.Py.Value

/-!
# The inputs of a generated runner

`generate_runner_artifacts.py` reads the inputs of a benchmark from its runner
config and generates the C header that declares a buffer for each of them. The
replay build loads its arguments into these buffers: the secrets in config order,
then, unless it is built with `CONCRETE_PUBS`, the publics.

- `readInputs`: the loop of `_load_resolved_config` over the inputs;
- `RunnerInputs`: a list of inputs with the invariant the loop establishes;
- `loadReplayInputs`: `main` and the generated `runner_load_replay_inputs`;
- `loadReplayInputs_eq_some_iff`: **every argument reaches the buffer of its own
  name iff the arguments are the expected names**.
-/

namespace KleeDeps.Runner

open Py

/-! ## Reading the config (`generate_runner_artifacts.py`) -/

/-- The `kind` of an input. -/
inductive InputKind where
  | secret
  | isPublic
  deriving DecidableEq, Repr

/-- The constraints an input may carry. -/
inductive Constraint where
  | topBitSet
  | odd
  deriving DecidableEq, Repr

/-- The size of an input: a number, or an expression resolved later. -/
inductive InputSize where
  | bytes (n : Int)
  | expression (s : Text)
  deriving DecidableEq, Repr

/-- One checked input. -/
structure RunnerInput where
  id : Text
  name : Text
  kind : InputKind
  size : InputSize
  constraints : List Constraint
  deriving DecidableEq, Repr

/-- `[A-Za-z_]`. -/
def isIdentifierStart (c : Char) : Bool :=
  let n := c.toNat
  (0x41 ≤ n && n ≤ 0x5a) || n == 0x5f || (0x61 ≤ n && n ≤ 0x7a)

/-- `[A-Za-z0-9_]`. -/
def isIdentifierChar (c : Char) : Bool :=
  isIdentifierStart c || (0x30 ≤ c.toNat && c.toNat ≤ 0x39)

/-- `IDENTIFIER_RE.match`; the `$` of the pattern also accepts a final newline. -/
def matchesIdentifier (s : Text) : Bool :=
  match s with
  | [] => false
  | c :: rest =>
    isIdentifierStart c &&
      ((rest.all isIdentifierChar) ||
        (rest.getLast? = some '\n' && rest.dropLast.all isIdentifierChar))

section Reading

variable (repr : Value → Text)

/-- `_die`. -/
def die {α : Type} (msg : Text) : Except Exc α := .error (.exit msg)

/-- An identifier field that none of the earlier ones equals. -/
def readIdentifier (value : Value) (seen : List Text) (invalid duplicate : Text) :
    Except Exc Text :=
  match value.asStr? with
  | none => die (invalid ++ repr value)
  | some s =>
    if ¬ matchesIdentifier s then die (invalid ++ repr value)
    else if s ∈ seen then die (duplicate ++ s)
    else .ok s

/-- `value in {…}` hashes the value, which lists and objects do not allow. -/
def unhashable? : Value → Option Exc
  | .list _ => some (.typeError "unhashable type: 'list'".toList)
  | .dict _ => some (.typeError "unhashable type: 'dict'".toList)
  | _ => none

/-- The `kind` of an input. -/
def readKind (id : Text) (value : Value) : Except Exc InputKind :=
  if let some e := unhashable? value then .error e
  else if value.asStr? = some "secret".toList then .ok .secret
  else if value.asStr? = some "public".toList then .ok .isPublic
  else die ("input ".toList ++ id ++ " has invalid kind: ".toList ++ repr value)

/-- The `size` of an input; truth values count as integers. -/
def readSize (id : Text) (value : Value) : Except Exc InputSize :=
  match value.asInt?, value.asStr? with
  | some n, _ => .ok (.bytes n)
  | none, some s => .ok (.expression s)
  | none, none => die ("input ".toList ++ id ++ " has unsupported size expression: ".toList ++
      repr value)

/-- The loop over the constraints. -/
def readConstraintList (id : Text) : List Value → Except Exc (List Constraint)
  | [] => .ok []
  | value :: rest =>
    if let some e := unhashable? value then .error e
    else if value.asStr? = some "top_bit_set".toList then
      (readConstraintList id rest).map (Constraint.topBitSet :: ·)
    else if value.asStr? = some "odd".toList then
      (readConstraintList id rest).map (Constraint.odd :: ·)
    else die ("unsupported constraint ".toList ++ repr value ++ " on input ".toList ++ id)

/-- The `constraints` of an input, none by default. -/
def readConstraints (id : Text) (value : Value) : Except Exc (List Constraint) :=
  match value with
  | .null => .ok []
  | .list values => readConstraintList repr id values
  | _ => die ("input ".toList ++ id ++ ".constraints must be a list".toList)

/-- One input, given the ids and the names before it. -/
def readInput (ids names : List Text) (value : Value) : Except Exc RunnerInput :=
  match value.asDict? with
  | none => die "each input must be a dictionary".toList
  | some items => do
    let id ← readIdentifier repr (Value.field items "id".toList) ids
      "invalid input id: ".toList "duplicate input id: ".toList
    let name ← readIdentifier repr (Value.field items "name".toList) names
      ("input ".toList ++ id ++ " has invalid name: ".toList) "duplicate input name: ".toList
    let kind ← readKind repr id (Value.field items "kind".toList)
    let size ← readSize repr id (Value.field items "size".toList)
    let constraints ← readConstraints repr id (Value.field items "constraints".toList)
    return { id := id, name := name, kind := kind, size := size, constraints := constraints }

/-- The loop over the inputs. -/
def readInputs (ids names : List Text) : List Value → Except Exc (List RunnerInput)
  | [] => .ok []
  | value :: rest => do
    let input ← readInput repr ids names value
    let inputs ← readInputs (ids ++ [input.id]) (names ++ [input.name]) rest
    return input :: inputs

end Reading

/-- The inputs of an accepted config: at least one, with distinct ids and distinct
identifiers as names. -/
structure RunnerInputs where
  inputs : List RunnerInput
  nonempty : inputs ≠ []
  distinctIds : (inputs.map RunnerInput.id).Nodup
  distinctNames : (inputs.map RunnerInput.name).Nodup
  identifiers : ∀ input ∈ inputs, matchesIdentifier input.name = true

section Invariant

variable {repr : Value → Text}

theorem readIdentifier_spec {value : Value} {seen : List Text} {invalid duplicate s : Text}
    (h : readIdentifier repr value seen invalid duplicate = .ok s) :
    value.asStr? = some s ∧ matchesIdentifier s = true ∧ s ∉ seen := by
  unfold readIdentifier at h
  split at h
  · cases h
  · next hstr =>
    split at h
    · cases h
    · next hmatch =>
      split at h
      · cases h
      · next hseen =>
        obtain rfl := Except.ok.inj h
        exact ⟨hstr, by simpa using hmatch, hseen⟩

/-- What one accepted input adds. -/
theorem readInput_spec {ids names : List Text} {value : Value} {input : RunnerInput}
    (h : readInput repr ids names value = .ok input) :
    input.id ∉ ids ∧ input.name ∉ names ∧ matchesIdentifier input.name = true := by
  unfold readInput at h
  split at h
  · cases h
  · next items _ =>
    obtain ⟨id, hid, h⟩ := Sequence.bind_eq_ok_iff.mp h
    obtain ⟨name, hname, h⟩ := Sequence.bind_eq_ok_iff.mp h
    obtain ⟨kind, -, h⟩ := Sequence.bind_eq_ok_iff.mp h
    obtain ⟨size, -, h⟩ := Sequence.bind_eq_ok_iff.mp h
    obtain ⟨constraints, -, h⟩ := Sequence.bind_eq_ok_iff.mp h
    obtain rfl := Except.ok.inj h
    obtain ⟨-, -, hid⟩ := readIdentifier_spec hid
    obtain ⟨-, hmatch, hname⟩ := readIdentifier_spec hname
    exact ⟨hid, hname, hmatch⟩

/-- **Run lemma** of the loop over the inputs. -/
theorem readInputs_spec {values : List Value} {ids names : List Text} {inputs : List RunnerInput}
    (h : readInputs repr ids names values = .ok inputs) (hids : ids.Nodup)
    (hnames : names.Nodup) :
    (ids ++ inputs.map RunnerInput.id).Nodup ∧ (names ++ inputs.map RunnerInput.name).Nodup ∧
      (∀ input ∈ inputs, matchesIdentifier input.name = true) ∧
      inputs.length = values.length := by
  induction values generalizing ids names inputs with
  | nil =>
    obtain rfl := Except.ok.inj h
    simpa using ⟨hids, hnames⟩
  | cons value values ih =>
    rw [readInputs] at h
    obtain ⟨input, hinput, h⟩ := Sequence.bind_eq_ok_iff.mp h
    obtain ⟨rest, hrest, h⟩ := Sequence.bind_eq_ok_iff.mp h
    obtain rfl := Except.ok.inj h
    obtain ⟨hid, hname, hmatch⟩ := readInput_spec hinput
    have hnodup : ∀ {xs : List Text} {x : Text}, xs.Nodup → x ∉ xs → (xs ++ [x]).Nodup :=
      fun hxs hx => List.nodup_append.mpr ⟨hxs, List.nodup_singleton _, fun a ha b hb he =>
        hx (List.mem_singleton.mp hb ▸ he ▸ ha)⟩
    obtain ⟨h₁, h₂, h₃, h₄⟩ := ih hrest (hnodup hids hid) (hnodup hnames hname)
    refine ⟨by simpa using h₁, by simpa using h₂, ?_, by simp [h₄]⟩
    intro x hx
    rcases List.mem_cons.mp hx with rfl | hx
    · exact hmatch
    · exact h₃ x hx

end Invariant

/-- The inputs of a config as `_load_resolved_config` accepts them. -/
def loadInputs (repr : Value → Text) (value : Value) : Except Exc RunnerInputs :=
  match value.asList? with
  | some (first :: rest) =>
    match h : readInputs repr [] [] (first :: rest) with
    | .error e => .error e
    | .ok inputs => .ok
      { inputs := inputs
        nonempty := by
          have := (readInputs_spec h List.nodup_nil List.nodup_nil).2.2.2
          rintro rfl
          simp at this
        distinctIds := (readInputs_spec h List.nodup_nil List.nodup_nil).1
        distinctNames := (readInputs_spec h List.nodup_nil List.nodup_nil).2.1
        identifiers := (readInputs_spec h List.nodup_nil List.nodup_nil).2.2.1 }
  | _ => die "inputs must be a non-empty list".toList

/-! ## The generated replay loader (`_render_header`, `runner.h`) -/

namespace RunnerInputs

/-- The inputs of a kind, in config order. -/
def ofKind (config : RunnerInputs) (kind : InputKind) : List RunnerInput :=
  config.inputs.filter (·.kind = kind)

/-- The names of the inputs of a kind. -/
def names (config : RunnerInputs) (kind : InputKind) : List Text :=
  (config.ofKind kind).map RunnerInput.name

/-- The buffers `runner_load_replay_inputs` fills, in the order it takes arguments. -/
def replayBuffers (config : RunnerInputs) (concretePubs : Bool) : List RunnerInput :=
  config.ofKind .secret ++ if concretePubs then [] else config.ofKind .isPublic

/-- `RUNNER_EXPECTED_REPLAY_ARGC`. -/
def expectedReplayArgc (config : RunnerInputs) (concretePubs : Bool) : Nat :=
  if concretePubs then 1 + (config.ofKind .secret).length
  else 1 + (config.ofKind .secret).length + (config.ofKind .isPublic).length

/-- `main` of a replay build up to the benchmark: the assertion on `argc`, then one
argument for each buffer. `args` are the arguments behind the program's name. -/
def loadReplayInputs (config : RunnerInputs) (concretePubs : Bool) (args : List Text) :
    Option (List (RunnerInput × Text)) :=
  if 1 + args.length ≠ config.expectedReplayArgc concretePubs then none
  else some ((config.replayBuffers concretePubs).zip args)

/-- The arguments a replay build is compiled to load. -/
def expectedNames (config : RunnerInputs) (concretePubs : Bool) : List Text :=
  config.names .secret ++ if concretePubs then [] else config.names .isPublic

theorem expectedNames_eq (config : RunnerInputs) (concretePubs : Bool) :
    config.expectedNames concretePubs =
      (config.replayBuffers concretePubs).map RunnerInput.name := by
  cases concretePubs <;> simp [expectedNames, replayBuffers, names]

theorem expectedReplayArgc_eq (config : RunnerInputs) (concretePubs : Bool) :
    config.expectedReplayArgc concretePubs = 1 + (config.replayBuffers concretePubs).length := by
  cases concretePubs <;> simp [expectedReplayArgc, replayBuffers, Nat.add_assoc]

/-- A list of pairs with the same name on both sides. -/
theorem forall_mem_zip_iff {buffers : List RunnerInput} {args : List Text}
    (hlen : buffers.length = args.length) :
    (∀ p ∈ buffers.zip args, p.1.name = p.2) ↔ args = buffers.map RunnerInput.name := by
  induction buffers generalizing args with
  | nil =>
    obtain rfl := List.length_eq_zero_iff.mp hlen.symm
    simp
  | cons buffer buffers ih =>
    cases args with
    | nil => simp at hlen
    | cons arg args =>
      rw [List.zip_cons_cons, List.forall_mem_cons, ih (Nat.succ.inj hlen), List.map_cons,
        List.cons.injEq]
      exact and_congr_left fun _ => eq_comm

/-- **The loader**: the arguments are accepted and every one of them reaches the
buffer of its own name iff they are the expected names. -/
theorem loadReplayInputs_eq_some_iff (config : RunnerInputs) (concretePubs : Bool)
    (args : List Text) :
    (∃ loaded, config.loadReplayInputs concretePubs args = some loaded ∧
        ∀ p ∈ loaded, p.1.name = p.2) ↔ args = config.expectedNames concretePubs := by
  unfold loadReplayInputs
  rw [expectedNames_eq, expectedReplayArgc_eq]
  constructor
  · rintro ⟨loaded, hload, hown⟩
    split at hload
    · cases hload
    · next hargc =>
      obtain rfl := Option.some.inj hload
      exact (forall_mem_zip_iff (by omega)).mp hown
  · rintro rfl
    rw [if_neg (by simp)]
    exact ⟨_, rfl, (forall_mem_zip_iff (by simp)).mpr rfl⟩

end RunnerInputs

end KleeDeps.Runner
