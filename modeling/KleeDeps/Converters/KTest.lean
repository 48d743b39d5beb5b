import KleeDeps.Converters.Delivery

/-!
# The second run in a KTest file

A KTest file of KLEE holds the objects of both runs: a secret under its name, and the one of the
second run under a name derived from it. The converter records both as numbers, the replay takes
the bytes of both; each looks for the second object under a list of names of its own.

`ktest-tool --extract` fails if the object is absent and writes its bytes otherwise.

- `extractCounterexamples`, `extractKtestInputs`: the two functions, for one file;
- `get?_counterexamples`: every number the converter records is that of the object of this name;
- `recorded_iff_replayed`: **what is recorded is replayed**, unless the second object is there
  under the name `_2` only, which the replay does not know.
-/

namespace KleeDeps.Converters

open Py

/-- The objects of a KTest file. -/
abbrev Objects := Dict Text (List UInt8)

/-! ### The converter (`klee_log_to_json.py`) -/

/-- `_read_counterexample_value`, of a file that can be read. -/
def readCounterexampleValue (data : List UInt8) : Int :=
  if data = [] then 0 else bigEndian data

/-- `_extract_var`, and what is stored if it succeeds. -/
def storeObject (objects : Objects) (counterexamples : Dict Text Int) (variable_ : Text) :
    Dict Text Int :=
  match objects.get? variable_ with
  | some data => counterexamples.set variable_ (readCounterexampleValue data)
  | none => counterexamples

/-- The names under which the converter looks for the second object. -/
def recordSuffixes : List Text := ["__prime".toList, "_prime".toList, "_2".toList]

/-- The loop over them, which ends at the first object that is there. -/
def storePrime (objects : Objects) (variable_ : Text) :
    List Text → Dict Text Int → Dict Text Int
  | [], counterexamples => counterexamples
  | suffix :: rest, counterexamples =>
    if (objects.get? (variable_ ++ suffix)).isSome then
      storeObject objects counterexamples (variable_ ++ suffix)
    else storePrime objects variable_ rest counterexamples

/-- `extract_counterexamples` for the KTest file of one row. -/
def extractCounterexamples (objects : Objects) (secrets publics : List Text) : Dict Text Int :=
  secrets.foldl (fun counterexamples variable_ => storePrime objects variable_ recordSuffixes
    (storeObject objects counterexamples variable_)) (publics.foldl (storeObject objects) .empty)

/-- The second run of a secret in a row: the first of the names that it has. -/
def recordedSecond (counterexamples : Dict Text Int) (secret : Text) : Option Int :=
  recordSuffixes.findSome? fun suffix => counterexamples.get? (secret ++ suffix)

/-! ### The replay (`reproduce_positives.py`) -/

/-- How `extract_ktest_inputs` fails. -/
inductive KTestError where
  | calledProcessError (variable_ : Text)
  | runtimeError (msg : Text)
  deriving DecidableEq, Repr

/-- `PRIME_SUFFIXES`. -/
def primeSuffixes : List Text := ["__prime".toList, "_prime".toList]

/-- `extract_var_bytes`. -/
def extractVarBytes (objects : Objects) (name : Text) : Except KTestError (List UInt8) :=
  match objects.get? name with
  | some data => .ok data
  | none => .error (.calledProcessError name)

/-- The loop over `PRIME_SUFFIXES`: the first object that is there. -/
def replayedSecond (objects : Objects) (secret : Text) : Option (List UInt8) :=
  primeSuffixes.findSome? fun suffix => objects.get? (secret ++ suffix)

/-- The loop over the publics. -/
def extractPublics (objects : Objects) :
    Dict Text (List UInt8) → List Text → Except KTestError (Dict Text (List UInt8))
  | values, [] => .ok values
  | values, name :: rest =>
    match extractVarBytes objects name with
    | .error e => .error e
    | .ok data => extractPublics objects (values.set name data) rest

/-- The loop over the secrets. -/
def extractSecrets (ktestFile : Text) (objects : Objects) :
    Dict Text (List UInt8) → Dict Text (List UInt8) → List Text →
      Except KTestError (Dict Text (List UInt8) × Dict Text (List UInt8))
  | orig, prime, [] => .ok (orig, prime)
  | orig, prime, name :: rest =>
    match extractVarBytes objects name with
    | .error e => .error e
    | .ok data =>
      let prime := match replayedSecond objects name with
        | some second => prime.set name second
        | none => prime
      if (prime.get? name).isNone then
        .error (.runtimeError
          ("Could not extract a prime variant for secret '".toList ++ name ++ "' from ".toList ++
            ktestFile))
      else extractSecrets ktestFile objects (orig.set name data) prime rest

/-- The dictionaries of `extract_ktest_inputs`. -/
structure KTestInputs where
  secretOrig : Dict Text (List UInt8)
  secretPrime : Dict Text (List UInt8)
  publicValues : Dict Text (List UInt8)

/-- `extract_ktest_inputs`. -/
def extractKtestInputs (ktestFile : Text) (objects : Objects) (secrets publics : List Text) :
    Except KTestError KTestInputs :=
  match extractPublics objects .empty publics with
  | .error e => .error e
  | .ok values =>
    match extractSecrets ktestFile objects .empty .empty secrets with
    | .error e => .error e
    | .ok (orig, prime) =>
      .ok { secretOrig := orig, secretPrime := prime, publicValues := values }

/-! ### Dictionaries that only hold what there is -/

section Holds

variable {β : Type} {f : Text → Option β} {d : Dict Text β} {k : Text} {v : β}

/-- Every entry is a value of `f` at its key. -/
def EntriesOf (f : Text → Option β) (d : Dict Text β) : Prop :=
  ∀ k v, d.get? k = some v → f k = some v

theorem entriesOf_empty : EntriesOf f .empty := fun _ _ h => by cases h

theorem EntriesOf.set (h : EntriesOf f d) (hv : f k = some v) : EntriesOf f (d.set k v) := by
  intro k' v' h'
  rw [Dict.get?_set] at h'
  split at h'
  · next hk =>
    obtain rfl := Option.some.inj h'
    rw [← hk]
    exact hv
  · exact h k' v' h'

theorem EntriesOf.get?_eq (h : EntriesOf f d) (hk : (d.get? k).isSome) : d.get? k = f k := by
  obtain ⟨v, hv⟩ := Option.isSome_iff_exists.mp hk
  rw [hv, h k v hv]

theorem isSome_set_of_isSome {k' : Text} (h : (d.get? k').isSome) :
    ((d.set k v).get? k').isSome := by
  rw [Dict.get?_set]
  split
  · rfl
  · exact h

end Holds

/-! ### What is recorded -/

section Recorded

variable {objects : Objects} {c : Dict Text Int} {secrets publics : List Text} {name k : Text}

/-- The number of an object. -/
def objectValue (objects : Objects) (name : Text) : Option Int :=
  (objects.get? name).map bigEndian

theorem readCounterexampleValue_eq (data : List UInt8) :
    readCounterexampleValue data = bigEndian data := by
  rw [readCounterexampleValue]
  split
  · next hnil =>
    rw [hnil]
    rfl
  · rfl

theorem storeObject_entries (h : EntriesOf (objectValue objects) c) (name : Text) :
    EntriesOf (objectValue objects) (storeObject objects c name) := by
  rw [storeObject]
  split
  · next data hdata =>
    refine h.set ?_
    rw [objectValue, hdata, readCounterexampleValue_eq]
    rfl
  · exact h

theorem storeObject_keeps (h : (c.get? k).isSome) (name : Text) :
    ((storeObject objects c name).get? k).isSome := by
  rw [storeObject]
  split
  · exact isSome_set_of_isSome h
  · exact h

theorem storeObject_stores (h : (objects.get? name).isSome) :
    ((storeObject objects c name).get? name).isSome := by
  obtain ⟨data, hdata⟩ := Option.isSome_iff_exists.mp h
  rw [storeObject, hdata]
  show ((c.set name _).get? name).isSome
  rw [Dict.get?_set_self]
  rfl

theorem storePrime_entries (name : Text) (suffixes : List Text)
    (h : EntriesOf (objectValue objects) c) :
    EntriesOf (objectValue objects) (storePrime objects name suffixes c) := by
  induction suffixes with
  | nil => exact h
  | cons suffix rest ih =>
    rw [storePrime]
    split
    · exact storeObject_entries h _
    · exact ih

theorem storePrime_keeps (name : Text) (suffixes : List Text) (h : (c.get? k).isSome) :
    ((storePrime objects name suffixes c).get? k).isSome := by
  induction suffixes with
  | nil => exact h
  | cons suffix rest ih =>
    rw [storePrime]
    split
    · exact storeObject_keeps h _
    · exact ih

/-- The first object that is there is stored. -/
theorem storePrime_stores {suffixes : List Text} {suffix : Text}
    (h : suffixes.find? (fun x => (objects.get? (name ++ x)).isSome) = some suffix) :
    ((storePrime objects name suffixes c).get? (name ++ suffix)).isSome := by
  induction suffixes with
  | nil => cases h
  | cons first rest ih =>
    rw [storePrime]
    by_cases hfirst : (objects.get? (name ++ first)).isSome
    · rw [List.find?_cons, hfirst] at h
      obtain rfl := Option.some.inj h
      rw [if_pos hfirst]
      exact storeObject_stores hfirst
    · rw [List.find?_cons, Bool.not_eq_true _ |>.mp hfirst] at h
      rw [if_neg hfirst]
      exact ih h

/-- What one step of a loop stores and the others keep is there in the end. -/
theorem isSome_foldl {α : Type} {step : Dict Text Int → α → Dict Text Int}
    (hkeeps : ∀ c x, (c.get? k).isSome → ((step c x).get? k).isSome) {xs : List α} {x : α}
    (hx : x ∈ xs) (hstores : ∀ c, ((step c x).get? k).isSome) (c : Dict Text Int) :
    ((xs.foldl step c).get? k).isSome := by
  have hkept : ∀ (xs : List α) (c : Dict Text Int), (c.get? k).isSome →
      ((xs.foldl step c).get? k).isSome := by
    intro xs
    induction xs with
    | nil => exact fun c h => h
    | cons y ys ih => exact fun c h => ih _ (hkeeps c y h)
  induction xs generalizing c with
  | nil => cases hx
  | cons y ys ih =>
    rcases List.mem_cons.mp hx with rfl | hx
    · exact hkept ys _ (hstores c)
    · exact ih hx _

theorem counterexamples_entries (objects : Objects) (secrets publics : List Text) :
    EntriesOf (objectValue objects) (extractCounterexamples objects secrets publics) := by
  have hpublics : ∀ (names : List Text) (c : Dict Text Int), EntriesOf (objectValue objects) c →
      EntriesOf (objectValue objects) (names.foldl (storeObject objects) c) := by
    intro names
    induction names with
    | nil => exact fun c h => h
    | cons name rest ih => exact fun c h => ih _ (storeObject_entries h name)
  have hsecrets : ∀ (names : List Text) (c : Dict Text Int), EntriesOf (objectValue objects) c →
      EntriesOf (objectValue objects) (names.foldl (fun c name =>
        storePrime objects name recordSuffixes (storeObject objects c name)) c) := by
    intro names
    induction names with
    | nil => exact fun c h => h
    | cons name rest ih =>
      exact fun c h => ih _ (storePrime_entries name _ (storeObject_entries h name))
  exact hsecrets secrets _ (hpublics publics _ entriesOf_empty)

/-- The first name under which there is a number is the first under which there is an object. -/
theorem findSome?_of_find? (h : EntriesOf (objectValue objects) c) {suffixes : List Text}
    (hfound : ∀ suffix, suffixes.find? (fun x => (objects.get? (name ++ x)).isSome) =
      some suffix → (c.get? (name ++ suffix)).isSome) :
    suffixes.findSome? (fun suffix => c.get? (name ++ suffix)) =
      (suffixes.findSome? fun suffix => objects.get? (name ++ suffix)).map bigEndian := by
  induction suffixes with
  | nil => rfl
  | cons first rest ih =>
    rw [List.findSome?_cons, List.findSome?_cons]
    cases hfirst : objects.get? (name ++ first) with
    | some data =>
      have hthere := hfound first (List.find?_cons_of_pos (by rw [hfirst]; rfl))
      rw [h.get?_eq hthere, objectValue, hfirst]
      rfl
    | none =>
      have habsent : c.get? (name ++ first) = none := by
        by_contra hne
        obtain ⟨v, hv⟩ := Option.ne_none_iff_exists'.mp hne
        have hvalue := h _ v hv
        rw [objectValue, hfirst] at hvalue
        cases hvalue
      rw [habsent]
      refine ih fun suffix hsuffix => hfound suffix ?_
      rw [List.find?_cons_of_neg (by rw [hfirst]; exact Bool.false_ne_true)]
      exact hsuffix

/-- **The second run that a row shows** is that of the first object under the three names. -/
theorem recordedSecond_eq {secret : Text} (h : secret ∈ secrets) :
    recordedSecond (extractCounterexamples objects secrets publics) secret =
      (recordSuffixes.findSome? fun suffix => objects.get? (secret ++ suffix)).map bigEndian := by
  refine findSome?_of_find? (counterexamples_entries objects secrets publics)
    fun suffix hsuffix => ?_
  exact isSome_foldl (fun c x hk => storePrime_keeps x _ (storeObject_keeps hk x)) h
    (fun c => storePrime_stores hsuffix) _

end Recorded

/-! ### What is replayed -/

section Replayed

variable {objects : Objects} {secrets publics : List Text} {ktestFile : Text}

theorem extractPublics_ok {values : Dict Text (List UInt8)} (h : EntriesOf objects.get? values)
    (hpublics : ∀ name ∈ publics, (objects.get? name).isSome) :
    ∃ result, extractPublics objects values publics = .ok result ∧
      EntriesOf objects.get? result ∧
      (∀ k, (values.get? k).isSome ∨ k ∈ publics → (result.get? k).isSome) := by
  induction publics generalizing values with
  | nil => exact ⟨values, rfl, h, fun k hk => hk.resolve_right List.not_mem_nil⟩
  | cons name rest ih =>
    obtain ⟨data, hdata⟩ := Option.isSome_iff_exists.mp (hpublics name List.mem_cons_self)
    obtain ⟨result, hresult, hentries, hkeys⟩ := ih (h.set hdata) fun k hk =>
      hpublics k (List.mem_cons_of_mem name hk)
    refine ⟨result, ?_, hentries, fun k hk => hkeys k ?_⟩
    · rw [extractPublics, extractVarBytes, hdata]
      exact hresult
    · rw [List.mem_cons] at hk
      rcases hk with hk | rfl | hk
      · exact .inl (isSome_set_of_isSome hk)
      · refine .inl ?_
        rw [Dict.get?_set_self]
        rfl
      · exact .inr hk

theorem extractSecrets_ok {orig prime : Dict Text (List UInt8)} (h : EntriesOf objects.get? orig)
    (h' : EntriesOf (replayedSecond objects) prime)
    (hsecrets : ∀ name ∈ secrets, (objects.get? name).isSome ∧
      (replayedSecond objects name).isSome) :
    ∃ orig' prime', extractSecrets ktestFile objects orig prime secrets = .ok (orig', prime') ∧
      EntriesOf objects.get? orig' ∧ EntriesOf (replayedSecond objects) prime' ∧
      (∀ k, (orig.get? k).isSome ∨ k ∈ secrets → (orig'.get? k).isSome) ∧
      ∀ k, (prime.get? k).isSome ∨ k ∈ secrets → (prime'.get? k).isSome := by
  induction secrets generalizing orig prime with
  | nil =>
    exact ⟨orig, prime, rfl, h, h', fun k hk => hk.resolve_right List.not_mem_nil,
      fun k hk => hk.resolve_right List.not_mem_nil⟩
  | cons name rest ih =>
    obtain ⟨hfirst, hsecond⟩ := hsecrets name List.mem_cons_self
    obtain ⟨data, hdata⟩ := Option.isSome_iff_exists.mp hfirst
    obtain ⟨second, hsecond⟩ := Option.isSome_iff_exists.mp hsecond
    obtain ⟨orig', prime', hresult, ho, hp, hok, hpk⟩ := ih (h.set hdata) (h'.set hsecond)
      fun k hk => hsecrets k (List.mem_cons_of_mem name hk)
    refine ⟨orig', prime', ?_, ho, hp, fun k hk => hok k ?_, fun k hk => hpk k ?_⟩
    · rw [extractSecrets, extractVarBytes, hdata]
      dsimp only
      rw [hsecond]
      dsimp only
      rw [Dict.get?_set_self, if_neg (by exact Bool.false_ne_true)]
      exact hresult
    · rw [List.mem_cons] at hk
      rcases hk with hk | rfl | hk
      · exact .inl (isSome_set_of_isSome hk)
      · refine .inl ?_
        rw [Dict.get?_set_self]
        rfl
      · exact .inr hk
    · rw [List.mem_cons] at hk
      rcases hk with hk | rfl | hk
      · exact .inl (isSome_set_of_isSome hk)
      · refine .inl ?_
        rw [Dict.get?_set_self]
        rfl
      · exact .inr hk

end Replayed

/-! ### Both -/

section Both

variable {objects : Objects} {secrets publics : List Text}

/-- A row shows every public input and both runs of every secret. -/
def ShowsPair (counterexamples : Dict Text Int) (secrets publics : List Text) : Prop :=
  (∀ name ∈ publics, (counterexamples.get? name).isSome) ∧
    ∀ name ∈ secrets, (counterexamples.get? name).isSome ∧
      (recordedSecond counterexamples name).isSome

/-- The replay uses the bytes of the recorded numbers. -/
structure ReplaysPair (counterexamples : Dict Text Int) (inputs : KTestInputs)
    (secrets publics : List Text) : Prop where
  publicValues : ∀ name ∈ publics, counterexamples.get? name =
    (inputs.publicValues.get? name).map bigEndian
  secretOrig : ∀ name ∈ secrets, counterexamples.get? name =
    (inputs.secretOrig.get? name).map bigEndian
  secretPrime : ∀ name ∈ secrets, recordedSecond counterexamples name =
    (inputs.secretPrime.get? name).map bigEndian

/-- A secret whose second object is there under the name `_2` alone. -/
def OnlySecond (objects : Objects) (secret : Text) : Prop :=
  (objects.get? (secret ++ "_2".toList)).isSome ∧
    objects.get? (secret ++ "__prime".toList) = none ∧
    objects.get? (secret ++ "_prime".toList) = none

theorem recordedSecond_eq_replayedSecond_iff {secret : Text} (h : secret ∈ secrets) :
    recordedSecond (extractCounterexamples objects secrets publics) secret =
      (replayedSecond objects secret).map bigEndian ↔ ¬OnlySecond objects secret := by
  rw [recordedSecond_eq h, replayedSecond, recordSuffixes, primeSuffixes, OnlySecond]
  simp only [List.findSome?_cons, List.findSome?_nil]
  cases objects.get? (secret ++ "__prime".toList) with
  | some data => simp
  | none =>
    cases objects.get? (secret ++ "_prime".toList) with
    | some data => simp
    | none =>
      cases objects.get? (secret ++ "_2".toList) with
      | some data => simp
      | none => simp

/-- **What is recorded is replayed**: the converter stores, as the second run of a secret, the
number of the bytes that the replay takes, one finds a second object if the other does, and a row
that shows a pair is replayed with it; all that exactly if no secret has its second object under
the name `_2` alone. -/
theorem recorded_iff_replayed (ktestFile : Text) (objects : Objects)
    (secrets publics : List Text) :
    ((∀ secret ∈ secrets,
        recordedSecond (extractCounterexamples objects secrets publics) secret =
          (replayedSecond objects secret).map bigEndian) ∧
      (ShowsPair (extractCounterexamples objects secrets publics) secrets publics →
        ∃ inputs, extractKtestInputs ktestFile objects secrets publics = .ok inputs ∧
          ReplaysPair (extractCounterexamples objects secrets publics) inputs secrets publics)) ↔
    ∀ secret ∈ secrets, ¬OnlySecond objects secret := by
  refine ⟨fun h secret hs => (recordedSecond_eq_replayedSecond_iff hs).mp (h.1 secret hs),
    fun h => ?_⟩
  have hseconds : ∀ secret ∈ secrets,
      recordedSecond (extractCounterexamples objects secrets publics) secret =
        (replayedSecond objects secret).map bigEndian := fun secret hs =>
    (recordedSecond_eq_replayedSecond_iff hs).mpr (h secret hs)
  have hentries := counterexamples_entries objects secrets publics
  refine ⟨hseconds, fun ⟨hpublics, hsecrets⟩ => ?_⟩
  -- what a row shows is in the file
  have hobject : ∀ name, ((extractCounterexamples objects secrets publics).get? name).isSome →
      (objects.get? name).isSome := by
    intro name hname
    obtain ⟨v, hv⟩ := Option.isSome_iff_exists.mp hname
    obtain ⟨data, hdata, -⟩ := Option.map_eq_some_iff.mp (hentries name v hv)
    rw [hdata]
    rfl
  have hempty : EntriesOf objects.get? .empty := entriesOf_empty
  obtain ⟨values, hvalues, hvalueEntries, hvalueKeys⟩ := extractPublics_ok hempty
    fun name hn => hobject name (hpublics name hn)
  obtain ⟨orig, prime, hextract, ho, hp, hok, hpk⟩ := @extractSecrets_ok
    _ _ ktestFile _ _ hempty entriesOf_empty fun name hn => by
      refine ⟨hobject name (hsecrets name hn).1, ?_⟩
      have hsome := (hsecrets name hn).2
      rw [hseconds name hn, Option.isSome_map] at hsome
      exact hsome
  refine ⟨⟨orig, prime, values⟩, ?_, fun name hn => ?_, fun name hn => ?_, fun name hn => ?_⟩
  · rw [extractKtestInputs, hvalues]
    dsimp only
    rw [hextract]
  · rw [hentries.get?_eq (hpublics name hn), hvalueEntries.get?_eq (hvalueKeys name (.inr hn))]
    rfl
  · rw [hentries.get?_eq (hsecrets name hn).1, ho.get?_eq (hok name (.inr hn))]
    rfl
  · rw [hseconds name hn, hp.get?_eq (hpk name (.inr hn))]

/-- The row shows `k` and `k_2`; the replay stops. -/
theorem second_not_replayed :
    let objects : Objects := .setAll .empty [("k".toList, [1]), ("k_2".toList, [2])]
    recordedSecond (extractCounterexamples objects ["k".toList] []) "k".toList = some 2 ∧
      replayedSecond objects "k".toList = none ∧
      ShowsPair (extractCounterexamples objects ["k".toList] []) ["k".toList] [] ∧
      (extractKtestInputs "t.ktest".toList objects ["k".toList] []).toOption.isNone := by
  refine ⟨by decide, by decide, ⟨by decide, by decide⟩, by decide⟩

end Both

end KleeDeps.Converters
