import KleeDeps.Converters.SecretOrders

/-!
# The inputs a KLEE driver is reached with

The generated header declares a buffer for each input and defines the functions that fill them;
`main` of `runner.h` calls these and then `driver_main`. A `var_pub` build makes all inputs
symbolic and assumes the declared constraints. A `fix_pub` build, which defines `CONCRETE_PUBS`,
makes the secrets symbolic and copies the preset into the other buffers.

- `kleeMain`: the calls of `main` before `driver_main`, for both builds;
- `Klee`, `Step`, `Runs`: what the calls do to the buffers;
- `respects_varPub`: in a `var_pub` build all constraints hold;
- `respects_iff`: **exactly when they hold in both builds**.
-/

namespace KleeDeps.Runner

open Py Converters

/-! ### The driver (`_render_header`, `runner.h`) -/

/-- A call on the buffer of an input. -/
inductive Call where
  /-- `klee_make_symbolic_sc(id, sizeof(id), "name", is_secret)` -/
  | makeSymbolic (id : Text) (size : Nat) (name : Text) (isSecret : Bool)
  /-- `klee_assume(id[index] & mask)` -/
  | assume (id : Text) (index : Nat) (mask : UInt8)
  /-- `runner_copy_bytes(id, preset, sizeof(id))` -/
  | copyBytes (id : Text) (preset : List UInt8) (size : Nat)

/-- The line of a constraint. -/
def Constraint.call (id : Text) (size : Nat) : Constraint → Call
  | .topBitSet => .assume id 0 0x80
  | .odd => .assume id (size - 1) 1

/-- `runner_make_klee_secret_inputs` and `runner_make_klee_public_inputs`. -/
def makeKleeInputs (r : Resolved) (kind : InputKind) : List Call :=
  (r.inputs.ofKind kind).map fun input =>
    .makeSymbolic input.id (sizeofInput r.macros input) input.name (kind = .secret)

/-- `runner_apply_klee_assumptions`. -/
def applyKleeAssumptions (r : Resolved) : List Call :=
  r.inputs.inputs.flatMap fun input =>
    input.constraints.map (Constraint.call input.id (sizeofInput r.macros input))

/-- The size of the buffer of an id. -/
def bufferSize (r : Resolved) (id : Text) : Nat :=
  ((r.inputs.inputs.find? (·.id = id)).map (sizeofInput r.macros)).getD 0

/-- `runner_apply_preset`; it returns 1. -/
def applyPreset (r : Resolved) : List Call :=
  r.publicArrays.map fun array => .copyBytes array.1 array.2 (bufferSize r array.1)

/-- `main` of a KLEE build up to `driver_main`, with or without `CONCRETE_PUBS`. -/
def kleeMain (concretePubs : Bool) (r : Resolved) : List Call :=
  makeKleeInputs r .secret ++
    if concretePubs then applyPreset r
    else makeKleeInputs r .isPublic ++ applyKleeAssumptions r

/-! ### What the calls do -/

/-- The contents of the buffers. -/
abbrev Buffers := Text → List UInt8

/-- The global buffers are zero at first. -/
def staticBuffers (r : Resolved) : Buffers := fun id => List.replicate (bufferSize r id) 0

/-- The loop of `runner_copy_bytes`. -/
def runnerCopyBytes (dst src : List UInt8) (size : Nat) : List UInt8 :=
  (List.range size).foldl (fun dst i => dst.set i (src.getD i 0)) dst

/-- What the driver gets from KLEE: `klee_make_symbolic_sc` leaves any bytes in a buffer, and
`klee_assume` goes on under a nonzero value only. -/
structure Klee where
  fills : Nat → List UInt8 → Prop
  assumes : UInt8 → Prop
  fills_iff : ∀ size bytes, fills size bytes ↔ bytes.length = size
  nonzero : ∀ value, assumes value → value ≠ 0

/-- One call. -/
inductive Step (klee : Klee) : Call → Buffers → Buffers → Prop where
  | makeSymbolic {id name : Text} {size : Nat} {isSecret : Bool} {buffers : Buffers}
      {bytes : List UInt8} (h : klee.fills size bytes) :
      Step klee (.makeSymbolic id size name isSecret) buffers (Function.update buffers id bytes)
  | assume {id : Text} {index : Nat} {mask value : UInt8} {buffers : Buffers}
      (hvalue : (buffers id)[index]? = some value) (h : klee.assumes (value &&& mask)) :
      Step klee (.assume id index mask) buffers buffers
  | copyBytes {id : Text} {preset : List UInt8} {size : Nat} {buffers : Buffers} :
      Step klee (.copyBytes id preset size) buffers
        (Function.update buffers id (runnerCopyBytes (buffers id) preset size))

/-- Calls one after the other. -/
inductive Runs (klee : Klee) : List Call → Buffers → Buffers → Prop where
  | nil {buffers : Buffers} : Runs klee [] buffers buffers
  | cons {call : Call} {calls : List Call} {buffers next final : Buffers}
      (hstep : Step klee call buffers next) (hrest : Runs klee calls next final) :
      Runs klee (call :: calls) buffers final

/-- The bytes satisfy a constraint: the top bit of the first, the low bit of the last. -/
def Constraint.Holds (bytes : List UInt8) : Constraint → Prop
  | .topBitSet => ∃ value, bytes.head? = some value ∧ value &&& 0x80 ≠ 0
  | .odd => ∃ value, bytes.getLast? = some value ∧ value &&& 1 ≠ 0

/-- **`driver_main` is reached only with buffers that satisfy the constraints.** -/
def Respects (klee : Klee) (concretePubs : Bool) (r : Resolved) : Prop :=
  ∀ final, Runs klee (kleeMain concretePubs r) (staticBuffers r) final →
    ∀ input ∈ r.inputs.inputs, ∀ c ∈ input.constraints, c.Holds (final input.id)

/-- The bytes of a public input in the preset. -/
def presetBytes (r : Resolved) (id : Text) : List UInt8 :=
  (Dict.lookup id r.publicArrays.reverse).getD []

section Driver

variable {klee : Klee} {calls more : List Call} {buffers final : Buffers}

theorem runs_append_iff : Runs klee (calls ++ more) buffers final ↔
    ∃ between, Runs klee calls buffers between ∧ Runs klee more between final := by
  induction calls generalizing buffers with
  | nil =>
    constructor
    · exact fun h => ⟨buffers, .nil, h⟩
    · rintro ⟨between, h, h'⟩
      cases h
      exact h'
  | cons call calls ih =>
    constructor
    · intro h
      cases h with
      | cons hstep hrest =>
        obtain ⟨between, h, h'⟩ := ih.mp hrest
        exact ⟨between, .cons hstep h, h'⟩
    · rintro ⟨between, h, h'⟩
      cases h with
      | cons hstep hrest => exact .cons hstep (ih.mpr ⟨between, hrest, h'⟩)

/-! ### Symbolic inputs -/

/-- After a list of inputs was made symbolic, each has its size; nothing else has changed. -/
theorem runs_makeSymbolic {inputs : List RunnerInput} {size : RunnerInput → Nat} {isSecret : Bool}
    (hnodup : (inputs.map RunnerInput.id).Nodup)
    (h : Runs klee (inputs.map fun input =>
      .makeSymbolic input.id (size input) input.name isSecret) buffers final) :
    (∀ input ∈ inputs, (final input.id).length = size input) ∧
      ∀ id, id ∉ inputs.map RunnerInput.id → final id = buffers id := by
  induction inputs generalizing buffers with
  | nil =>
    cases h
    exact ⟨fun input hinput => absurd hinput List.not_mem_nil, fun id _ => rfl⟩
  | cons first inputs ih =>
    rw [List.map_cons, List.nodup_cons] at hnodup
    cases h with
    | cons hstep hrest =>
      cases hstep with
      | @makeSymbolic _ _ _ _ _ bytes hfill =>
        obtain ⟨hlength, hother⟩ := ih hnodup.2 hrest
        constructor
        · intro input hinput
          rcases List.mem_cons.mp hinput with rfl | hinput
          · rw [hother _ hnodup.1, Function.update_self]
            exact (klee.fills_iff _ _).mp hfill
          · exact hlength input hinput
        · intro id hid
          rw [List.map_cons, List.mem_cons, not_or] at hid
          rw [hother id hid.2, Function.update_of_ne hid.1]

/-- Inputs that are made symbolic may all be zero. -/
theorem exists_zero_run (inputs : List RunnerInput) (size : RunnerInput → Nat) (isSecret : Bool)
    (hnodup : (inputs.map RunnerInput.id).Nodup) (buffers : Buffers) :
    ∃ final, Runs klee (inputs.map fun input =>
        .makeSymbolic input.id (size input) input.name isSecret) buffers final ∧
      ∀ input ∈ inputs, final input.id = List.replicate (size input) 0 := by
  induction inputs generalizing buffers with
  | nil => exact ⟨buffers, .nil, fun input hinput => absurd hinput List.not_mem_nil⟩
  | cons first inputs ih =>
    rw [List.map_cons, List.nodup_cons] at hnodup
    obtain ⟨final, hrun, hzero⟩ := ih hnodup.2
      (Function.update buffers first.id (List.replicate (size first) 0))
    refine ⟨final, .cons (.makeSymbolic ((klee.fills_iff _ _).mpr List.length_replicate)) hrun,
      fun input hinput => ?_⟩
    rcases List.mem_cons.mp hinput with rfl | hinput
    · rw [(runs_makeSymbolic hnodup.2 hrun).2 _ hnodup.1, Function.update_self]
    · exact hzero input hinput

/-- Assumptions change nothing, and each of them holds. -/
theorem runs_assume (hcalls : ∀ call ∈ calls, ∃ id index mask, call = .assume id index mask)
    (h : Runs klee calls buffers final) :
    final = buffers ∧ ∀ id index mask, .assume id index mask ∈ calls →
      ∃ value, (final id)[index]? = some value ∧ value &&& mask ≠ 0 := by
  induction h with
  | nil => exact ⟨rfl, fun id index mask hmem => absurd hmem List.not_mem_nil⟩
  | @cons call calls buffers next final hstep hrest ih =>
    obtain ⟨rfl, hall⟩ := ih fun c hc => hcalls c (List.mem_cons_of_mem call hc)
    obtain ⟨id, index, mask, rfl⟩ := hcalls call List.mem_cons_self
    cases hstep with
    | assume hvalue hassumes =>
      refine ⟨rfl, fun id' index' mask' hmem => ?_⟩
      rcases List.mem_cons.mp hmem with heq | hmem
      · obtain ⟨rfl, rfl, rfl⟩ := Call.assume.inj heq
        exact ⟨_, hvalue, klee.nonzero _ hassumes⟩
      · exact hall id' index' mask' hmem

/-- The line of a constraint is the constraint. -/
theorem holds_of_call (id : Text) {c : Constraint} {size : Nat} {bytes : List UInt8}
    (hlength : bytes.length = size)
    (h : ∀ index mask, c.call id size = .assume id index mask →
      ∃ value, bytes[index]? = some value ∧ value &&& mask ≠ 0) : c.Holds bytes := by
  cases c with
  | topBitSet =>
    obtain ⟨value, hvalue, hbit⟩ := h 0 0x80 rfl
    exact ⟨value, by rw [List.head?_eq_getElem?]; exact hvalue, hbit⟩
  | odd =>
    obtain ⟨value, hvalue, hbit⟩ := h (size - 1) 1 rfl
    exact ⟨value, by rw [List.getLast?_eq_getElem?, hlength]; exact hvalue, hbit⟩

/-! ### The preset -/

/-- The loop copies all bytes of a buffer of the size. -/
theorem runnerCopyBytes_eq {dst src : List UInt8} (h : dst.length = src.length) :
    runnerCopyBytes dst src src.length = src := by
  -- after `n` rounds the first `n` bytes are copied
  have hrounds : ∀ n ≤ src.length,
      (List.range n).foldl (fun dst i => dst.set i (src.getD i 0)) dst =
        src.take n ++ dst.drop n := by
    intro n hn
    induction n with
    | zero => rfl
    | succ n ih =>
      have hlt : n < src.length := by omega
      have hdrop : dst.drop n = dst[n] :: dst.drop (n + 1) := List.drop_eq_getElem_cons (by omega)
      have hlength : (src.take n).length = n := by
        rw [List.length_take]
        omega
      rw [List.range_succ, List.foldl_append, ih (by omega), List.foldl_cons, List.foldl_nil,
        List.set_append_right _ _ (le_of_eq hlength), hlength, Nat.sub_self, hdrop, List.set_cons_zero,
        List.take_succ_eq_append_getElem hlt, List.append_assoc, List.singleton_append,
        List.getD_eq_getElem _ _ hlt]
  rw [runnerCopyBytes, hrounds _ le_rfl, List.take_length, ← h, List.drop_length, List.append_nil]

theorem length_runnerCopyBytes (dst src : List UInt8) (size : Nat) :
    (runnerCopyBytes dst src size).length = dst.length := by
  have hfold : ∀ (is : List Nat) (dst : List UInt8),
      (is.foldl (fun dst i => dst.set i (src.getD i 0)) dst).length = dst.length := by
    intro is
    induction is with
    | nil => exact fun dst => rfl
    | cons i is ih => exact fun dst => (ih _).trans List.length_set
  exact hfold _ dst

/-- Copying arrays into buffers of their length: of each id the last array stays. -/
theorem runs_copyBytes {arrays : List (Text × List UInt8)} {size : Text → Nat}
    (harrays : ∀ array ∈ arrays, array.2.length = size array.1)
    (hbuffers : ∀ id, (buffers id).length = size id)
    (h : Runs klee (arrays.map fun array => .copyBytes array.1 array.2 (size array.1))
      buffers final) (id : Text) :
    final id = (Dict.lookup id arrays.reverse).getD (buffers id) := by
  induction arrays using List.reverseRecOn generalizing final id with
  | nil =>
    cases h
    rfl
  | append_singleton arrays array ih =>
    rw [List.map_append, runs_append_iff] at h
    obtain ⟨between, hfirst, hlast⟩ := h
    have hbetween := ih (fun a ha => harrays a (List.mem_append_left _ ha)) hfirst
    -- the buffer has its size at every moment, so the copy replaces the whole of it
    have hlength : (between array.1).length = size array.1 := by
      rw [hbetween]
      cases hlookup : Dict.lookup array.1 arrays.reverse with
      | none => exact hbuffers array.1
      | some bytes =>
        have hmem := List.mem_reverse.mp (Dict.mem_of_lookup hlookup)
        exact harrays _ (List.mem_append_left _ hmem)
    have harray := harrays array (List.mem_append_right _ List.mem_cons_self)
    cases hlast with
    | cons hstep hrest =>
      cases hrest
      cases hstep
      rw [List.reverse_append, List.reverse_singleton, List.singleton_append, Dict.lookup]
      by_cases hid : array.1 = id
      · subst hid
        rw [if_pos rfl, Function.update_self, ← harray,
          runnerCopyBytes_eq (hlength.trans harray.symm)]
        rfl
      · rw [if_neg hid, Function.update_of_ne (Ne.symm hid)]
        exact hbetween id

/-- Copies always go through. -/
theorem exists_copy_run (arrays : List (Text × List UInt8)) (size : Text → Nat)
    (buffers : Buffers) : ∃ final,
      Runs klee (arrays.map fun array => .copyBytes array.1 array.2 (size array.1))
        buffers final := by
  induction arrays generalizing buffers with
  | nil => exact ⟨buffers, .nil⟩
  | cons array arrays ih =>
    obtain ⟨final, h⟩ := ih (Function.update buffers array.1
      (runnerCopyBytes (buffers array.1) array.2 (size array.1)))
    exact ⟨final, .cons .copyBytes h⟩

end Driver

/-! ### Accepted configs -/

section Accepted

variable {repr : Value → Text} {cfg : List (Text × Value)} {selected : Option Text} {r : Resolved}
  {klee : Klee} {final : Buffers}

/-- What `_load_resolved_config` checks of the public inputs: the preset has an array for each of
them and for nothing else, as long as the buffer. -/
theorem publicArrays_spec (h : loadResolvedConfig repr cfg selected = .ok r) :
    (∀ array ∈ r.publicArrays, ∃ input ∈ r.inputs.inputs, input.id = array.1 ∧
      input.kind = .isPublic ∧ array.2.length = sizeofInput r.macros input) ∧
    ∀ input ∈ r.inputs.inputs, input.kind = .isPublic →
      input.id ∈ r.publicArrays.map Prod.fst := by
  obtain ⟨-, -, sizes, vars, hsizes, harrays, hsame⟩ := loadResolvedConfig_spec h
  constructor
  · intro array harray
    obtain ⟨item, -, hitem⟩ := Sequence.exists_left_of_mapM harrays harray
    obtain ⟨hkey, hmem, hbytes⟩ := readArray_spec hitem
    obtain ⟨input, hinput, hid, hkind⟩ := mem_ids.mp hmem
    refine ⟨input, hinput, hid.trans hkey.symm, hkind, ?_⟩
    rw [← hid, lookup_sizes hsizes hinput] at hbytes
    exact (valueToBytes_of_normalize hbytes).2
  · intro input hinput hkind
    have hmem := hsame.2 input.id (mem_ids.mpr ⟨input, hinput, rfl, hkind⟩)
    obtain ⟨item, hitem, hid⟩ := List.mem_map.mp hmem
    obtain ⟨array, harray, hread⟩ := Sequence.exists_right_of_mapM harrays hitem
    exact List.mem_map.mpr ⟨array, harray, (readArray_spec hread).1.trans hid⟩

/-- The buffer of an input has the size of the input. -/
theorem bufferSize_eq {input : RunnerInput} (hinput : input ∈ r.inputs.inputs) :
    bufferSize r input.id = sizeofInput r.macros input := by
  obtain ⟨found, hfound⟩ : ∃ found, r.inputs.inputs.find? (·.id = input.id) = some found := by
    rw [← Option.isSome_iff_exists, List.find?_isSome]
    exact ⟨input, hinput, decide_eq_true rfl⟩
  have hid : found.id = input.id := of_decide_eq_true
    (List.find?_some (p := fun x : RunnerInput => decide (x.id = input.id)) hfound)
  have heq : found = input := List.inj_on_of_nodup_map r.inputs.distinctIds
    (List.mem_of_find?_eq_some hfound) hinput hid
  rw [bufferSize, hfound, heq]
  rfl

theorem nodup_ofKind (r : Resolved) (kind : InputKind) :
    ((r.inputs.ofKind kind).map RunnerInput.id).Nodup :=
  r.inputs.distinctIds.sublist (List.filter_sublist.map RunnerInput.id)

/-- An input is of its kind. -/
theorem mem_ofKind_self {input : RunnerInput} (hinput : input ∈ r.inputs.inputs) :
    input ∈ r.inputs.ofKind input.kind :=
  List.mem_filter.mpr ⟨hinput, decide_eq_true rfl⟩

/-- Inputs of different kinds have different ids. -/
theorem id_notMem_ofKind {input : RunnerInput} (hinput : input ∈ r.inputs.inputs)
    {kind : InputKind} (hkind : input.kind ≠ kind) :
    input.id ∉ (r.inputs.ofKind kind).map RunnerInput.id := by
  intro hmem
  obtain ⟨other, hother, hid⟩ := List.mem_map.mp hmem
  obtain ⟨hother, hkind'⟩ := mem_ofKind hother
  obtain rfl := List.inj_on_of_nodup_map r.inputs.distinctIds hother hinput hid
  exact hkind hkind'

/-- **A `var_pub` build** reaches `driver_main` only under the constraints. -/
theorem respects_varPub : Respects klee false r := by
  intro final hrun input hinput c hc
  rw [kleeMain, if_neg Bool.false_ne_true] at hrun
  obtain ⟨secrets, hsecret, hrun⟩ := runs_append_iff.mp hrun
  obtain ⟨all, hpublic, hassume⟩ := runs_append_iff.mp hrun
  obtain ⟨hsecretLength, -⟩ := runs_makeSymbolic (nodup_ofKind r .secret) hsecret
  obtain ⟨hpublicLength, hother⟩ := runs_makeSymbolic (nodup_ofKind r .isPublic) hpublic
  have hcalls : ∀ call ∈ applyKleeAssumptions r, ∃ id index mask,
      call = .assume id index mask := by
    intro call hcall
    obtain ⟨other, -, hcall⟩ := List.mem_flatMap.mp hcall
    obtain ⟨c', -, rfl⟩ := List.mem_map.mp hcall
    cases c' with
    | topBitSet => exact ⟨_, _, _, rfl⟩
    | odd => exact ⟨_, _, _, rfl⟩
  obtain ⟨rfl, hholds⟩ := runs_assume hcalls hassume
  have hlength : (final input.id).length = sizeofInput r.macros input := by
    cases hkind : input.kind with
    | secret =>
      rw [hother _ (id_notMem_ofKind hinput (by rw [hkind]; decide))]
      exact hsecretLength input (hkind ▸ mem_ofKind_self hinput)
    | isPublic => exact hpublicLength input (hkind ▸ mem_ofKind_self hinput)
  refine holds_of_call input.id hlength fun index mask hcall => hholds _ _ _ ?_
  rw [← hcall]
  exact List.mem_flatMap.mpr ⟨input, hinput, List.mem_map_of_mem hc⟩

/-- After the secrets were made symbolic every buffer still has its size. -/
theorem length_of_secrets {secrets : Buffers}
    (h : Runs klee (makeKleeInputs r .secret) (staticBuffers r) secrets) (id : Text) :
    (secrets id).length = bufferSize r id := by
  obtain ⟨hlength, hother⟩ := runs_makeSymbolic (nodup_ofKind r .secret) h
  by_cases hid : id ∈ (r.inputs.ofKind .secret).map RunnerInput.id
  · obtain ⟨input, hinput, rfl⟩ := List.mem_map.mp hid
    rw [hlength input hinput, bufferSize_eq (mem_ofKind hinput).1]
  · rw [hother id hid]
    exact List.length_replicate

/-- The arrays of the preset have the sizes of the buffers. -/
theorem length_of_publicArrays (h : loadResolvedConfig repr cfg selected = .ok r) :
    ∀ array ∈ r.publicArrays, array.2.length = bufferSize r array.1 := by
  intro array harray
  obtain ⟨input, hinput, hid, -, hlength⟩ := (publicArrays_spec h).1 array harray
  rw [hlength, ← hid, bufferSize_eq hinput]

/-- The preset has no array for a secret. -/
theorem lookup_publicArrays_secret (h : loadResolvedConfig repr cfg selected = .ok r)
    {input : RunnerInput} (hinput : input ∈ r.inputs.inputs) (hkind : input.kind = .secret) :
    Dict.lookup input.id r.publicArrays.reverse = none := by
  rw [Option.eq_none_iff_forall_ne_some]
  intro bytes hbytes
  have hmem := List.mem_reverse.mp (Dict.mem_of_lookup hbytes)
  obtain ⟨other, hother, hid, hkind', -⟩ := (publicArrays_spec h).1 _ hmem
  obtain rfl := List.inj_on_of_nodup_map r.inputs.distinctIds hother hinput hid
  rw [hkind] at hkind'
  cases hkind'

/-- The preset has an array for a public input. -/
theorem lookup_publicArrays_public (h : loadResolvedConfig repr cfg selected = .ok r)
    {input : RunnerInput} (hinput : input ∈ r.inputs.inputs) (hkind : input.kind = .isPublic) :
    Dict.lookup input.id r.publicArrays.reverse = some (presetBytes r input.id) := by
  have hmem := (publicArrays_spec h).2 input hinput hkind
  rw [← List.mem_reverse, ← List.map_reverse] at hmem
  obtain ⟨bytes, hbytes⟩ := Dict.exists_lookup_of_mem hmem
  rw [presetBytes, hbytes]
  rfl

/-- Zero bytes satisfy no constraint. -/
theorem not_holds_zero (c : Constraint) (size : Nat) : ¬c.Holds (List.replicate size 0) := by
  cases c with
  | topBitSet =>
    rintro ⟨value, hvalue, hbit⟩
    rw [List.eq_of_mem_replicate (List.mem_of_mem_head? hvalue)] at hbit
    exact hbit rfl
  | odd =>
    rintro ⟨value, hvalue, hbit⟩
    rw [List.eq_of_mem_replicate (List.mem_of_getLast? hvalue)] at hbit
    exact hbit rfl

/-- **A `fix_pub` build** assumes nothing: secrets hold any bytes, the other inputs those of the
preset. -/
theorem respects_fixPub_iff (h : loadResolvedConfig repr cfg selected = .ok r) :
    Respects klee true r ↔
      (∀ input ∈ r.inputs.inputs, input.kind = .secret → input.constraints = []) ∧
      ∀ input ∈ r.inputs.inputs, input.kind = .isPublic →
        ∀ c ∈ input.constraints, c.Holds (presetBytes r input.id) := by
  have hpublic : ∀ {secrets final : Buffers},
      Runs klee (makeKleeInputs r .secret) (staticBuffers r) secrets →
      Runs klee (applyPreset r) secrets final →
      ∀ id, final id = (Dict.lookup id r.publicArrays.reverse).getD (secrets id) :=
    fun hsecret hcopy => runs_copyBytes (length_of_publicArrays h) (length_of_secrets hsecret) hcopy
  constructor
  · intro hrespects
    -- a run in which all secrets are zero
    obtain ⟨secrets, hsecret, hzero⟩ := @exists_zero_run klee (r.inputs.ofKind .secret)
      (sizeofInput r.macros) true (nodup_ofKind r .secret) (staticBuffers r)
    obtain ⟨final, hcopy⟩ := @exists_copy_run klee r.publicArrays (bufferSize r) secrets
    have hrun := hrespects final (runs_append_iff.mpr ⟨secrets, hsecret, hcopy⟩)
    constructor
    · intro input hinput hkind
      rw [List.eq_nil_iff_forall_not_mem]
      intro c hc
      have hholds := hrun input hinput c hc
      rw [hpublic hsecret hcopy, lookup_publicArrays_secret h hinput hkind, Option.getD_none,
        hzero input (hkind ▸ mem_ofKind_self hinput)] at hholds
      exact not_holds_zero c _ hholds
    · intro input hinput hkind c hc
      have hholds := hrun input hinput c hc
      rwa [hpublic hsecret hcopy, lookup_publicArrays_public h hinput hkind,
        Option.getD_some] at hholds
  · rintro ⟨hsecrets, hpublics⟩ final hrun input hinput c hc
    obtain ⟨secrets, hsecret, hcopy⟩ := runs_append_iff.mp hrun
    cases hkind : input.kind with
    | secret =>
      rw [hsecrets input hinput hkind] at hc
      cases hc
    | isPublic =>
      rw [hpublic hsecret hcopy, lookup_publicArrays_public h hinput hkind, Option.getD_some]
      exact hpublics input hinput hkind c hc

/-- **Both builds reach `driver_main` only with buffers that satisfy the declared constraints**
exactly if no secret declares one and the preset satisfies those of the public inputs. -/
theorem respects_iff (klee : Klee) (h : loadResolvedConfig repr cfg selected = .ok r) :
    (∀ concretePubs, Respects klee concretePubs r) ↔
      (∀ input ∈ r.inputs.inputs, input.kind = .secret → input.constraints = []) ∧
      ∀ input ∈ r.inputs.inputs, input.kind = .isPublic →
        ∀ c ∈ input.constraints, c.Holds (presetBytes r input.id) := by
  rw [← respects_fixPub_iff h]
  refine ⟨fun hall => hall true, fun hfix concretePubs => ?_⟩
  cases concretePubs with
  | false => exact respects_varPub
  | true => exact hfix

end Accepted

/-! ### An odd secret -/

/-- A config with a secret and a public input of one byte. The public one is declared odd, and is
in the preset; `secretConstraints` is declared of the secret. -/
def oddInput (secretConstraints : List Value) : List (Text × Value) :=
  [("inputs".toList, .list
      [.dict [("id".toList, .str "k".toList), ("name".toList, .str "key".toList),
        ("kind".toList, .str "secret".toList), ("size".toList, .int 1),
        ("constraints".toList, .list secretConstraints)],
       .dict [("id".toList, .str "m".toList), ("name".toList, .str "mod".toList),
        ("kind".toList, .str "public".toList), ("size".toList, .int 1),
        ("constraints".toList, .list [.str "odd".toList])]]),
   ("mode_policy".toList, .dict
      [("var_pub".toList, .dict [("public_symbolic".toList, .bool true)]),
       ("fix_pub".toList, .dict [("public_symbolic".toList, .bool false)]),
       ("abacus".toList, .dict [("public_fixed".toList, .bool true),
         ("secret_inputs".toList, .list [.str "k".toList])])]),
   ("presets".toList, .dict
      [("small".toList, .dict [("vars".toList, .dict [("m".toList, .int 3)]),
        ("abacus_secrets".toList, .dict [("k".toList, .int 1)])])])]

/-- KLEE with exactly these two calls. -/
def exactKlee : Klee where
  fills size bytes := bytes.length = size
  assumes value := value ≠ 0
  fills_iff _ _ := Iff.rfl
  nonzero _ h := h

/-- The constraint of a public input is kept by an odd preset. -/
theorem respects_oddPublic : ∃ r, loadResolvedConfig (fun _ => []) (oddInput []) none = .ok r ∧
    ∀ concretePubs, Respects exactKlee concretePubs r := by
  refine ⟨_, rfl, (@respects_iff (fun _ => []) (oddInput []) none _ exactKlee rfl).mpr
    ⟨fun input hinput hkind => ?_, fun input hinput hkind c hc => ?_⟩⟩
  · rcases List.mem_cons.mp hinput with rfl | hinput
    · rfl
    · obtain rfl := List.mem_singleton.mp hinput
      cases hkind
  · rcases List.mem_cons.mp hinput with rfl | hinput
    · cases hkind
    · obtain rfl := List.mem_singleton.mp hinput
      obtain rfl := List.mem_singleton.mp hc
      exact ⟨3, rfl, by decide⟩

/-- **An odd secret may be even in a `fix_pub` build.** -/
theorem odd_secret_even : ∃ r,
    loadResolvedConfig (fun _ => []) (oddInput [.str "odd".toList]) none = .ok r ∧
      ¬Respects exactKlee true r := by
  refine ⟨_, rfl, fun hrespects => ?_⟩
  have hsecrets := ((@respects_fixPub_iff (fun _ => []) (oddInput [.str "odd".toList]) none _
    exactKlee rfl).mp hrespects).1
  have hnone := hsecrets _ List.mem_cons_self rfl
  cases hnone

end KleeDeps.Runner
