import KleeDeps.Converters.Counterexamples
import KleeDeps.Data.Sequence

/-!
# The sizes of the files a row is replayed with

The sizes in the layout notes of an ABACUS result go into the specifications as text,
through the parser, and come out as the lengths of the input files. Whatever the
counterexample of the row is: if the replay is reached, the files have the recorded sizes.

- `secretEntries`, `publicEntries`: names and sizes as recorded, or as the old format
  without notes takes them from the size of the run;
- `rowInputs`: from a row to the contents of its files;
- `rowInputs_sizes`: **the files have the recorded sizes**, for plain, distinct names.
-/

namespace KleeDeps.Converters

open Py Replay

/-! ## What is recorded -/

/-- The name and the size of a layout entry; the checks are in `layoutEntry`. -/
def entryOf (entry : Value) : Text × Int :=
  let items := entry.asDict?.getD []
  ((Value.field items "name".toList).asStr?.getD [],
   (Value.field items "size".toList).asInt?.getD 0)

/-- The secrets of a result, with their sizes. -/
def secretEntries (notes : List (Text × Value)) (symSize : Int) : List (Text × Int) :=
  match layoutNote notes "secret_layout".toList with
  | [] => [("exp".toList, symSize)]
  | entry :: rest => (entry :: rest).map entryOf

/-- The public inputs of a row, with their sizes. -/
def publicEntries (counterexamples : Dict Text Int) (notes : List (Text × Value))
    (symSize : Int) : List (Text × Int) :=
  match layoutNote notes "public_layout".toList with
  | [] =>
    if (counterexamples.get? "base".toList).isSome ∧ (counterexamples.get? "mod".toList).isSome then
      [("base".toList, symSize), ("mod".toList, symSize)]
    else []
  | entry :: rest => (entry :: rest).map entryOf

/-- From a row to the contents of its input files; `none` is a row without a
counterexample. -/
def rowInputs (limit : Nat) (counterexamples : Dict Text Int) (notes : List (Text × Value))
    (symSize : Int) : Except Exc (Option InputBytes) :=
  match buildAbacusSpecs limit counterexamples notes symSize with
  | .error e => .error e
  | .ok none => .ok none
  | .ok (some (secretSpec, publicSpec)) =>
    match parseInputs limit secretSpec publicSpec with
    | .error e => .error e
    | .ok bytes => .ok (some bytes)

/-! ## Written entries -/

/-- An entry of a specification as it is written. -/
structure Part where
  name : Text
  size : Int
  sizeText : Text
  values : Text

/-- The text of an entry. -/
def Part.text (p : Part) : Text := p.name ++ ':' :: (p.sizeText ++ '=' :: p.values)

/-- The entry survives the parser, and its size is read as written, if it is read. -/
structure Part.Sound (p : Part) : Prop where
  sizePlain : ∀ c ∈ p.sizeText, isPlain c = true
  valuesSpec : ∀ c ∈ p.values, isSpace c = false ∧ c ≠ ','
  reads : ∀ limit n, int0 limit p.sizeText = .ok n → n = p.size

theorem isPlain_of_mem_intText {n : Int} {c : Char} (h : c ∈ intText n) : isPlain c = true := by
  unfold intText at h
  split at h
  · rcases List.mem_cons.mp h with rfl | h
    · rfl
    · exact isPlain_of_mem_decimal h
  · exact isPlain_of_mem_decimal h

theorem intText_spec {n : Int} {c : Char} (h : c ∈ intText n) : isSpace c = false ∧ c ≠ ',' := by
  have hplain := isPlain_of_mem_intText h
  constructor
  · exact isSpace_of_mem_intText h
  · rintro rfl
    exact absurd hplain (by decide)

/-- A number that is read was written as it is. -/
theorem eq_of_int0_intText {limit : Nat} {n m : Int} (h : int0 limit (intText n) = .ok m) :
    m = n := by
  rw [int0_intText] at h
  split at h
  · cases h
  · exact (Except.ok.inj h).symm

/-- What is printed is the number. -/
theorem printValue_spec {limit : Nat} {n : Int} {text : Text}
    (h : printValue limit n = .ok text) : intText n = text := by
  unfold printValue strInt at h
  split at h
  · next ht =>
    split at ht
    · cases ht
    · exact (Except.ok.inj ht).trans (Except.ok.inj h)
  · cases h

theorem int0_true (limit : Nat) : int0 limit "True".toList = .error .invalid := rfl

/-- The text a checked size is printed as. -/
theorem printSize_spec {limit : Nat} {value : Value} {size : Int} {text : Text}
    (hsize : value.asInt? = some size) (hpos : 0 < size) (h : printSize limit value = .ok text) :
    (∀ c ∈ text, isPlain c = true) ∧
      ∀ limit' n, int0 limit' text = .ok n → n = size := by
  cases value with
  | int n =>
    obtain rfl : n = size := Option.some.inj hsize
    obtain rfl := printValue_spec h
    exact ⟨fun c hc => isPlain_of_mem_intText hc, fun limit' m hm => eq_of_int0_intText hm⟩
  | bool b =>
    cases b with
    | false =>
      have hzero : (0 : Int) = size := Option.some.inj hsize
      omega
    | true =>
      obtain rfl : "True".toList = text := Except.ok.inj h
      constructor
      · have hplain : "True".toList.all isPlain = true := rfl
        exact List.all_eq_true.mp hplain
      · intro limit' m hm
        rw [int0_true] at hm
        cases hm
  | null => cases hsize
  | float _ => cases hsize
  | str _ => cases hsize
  | list _ => cases hsize
  | dict _ => cases hsize

theorem layoutEntry_spec {field name : Text} {entry size : Value}
    (h : layoutEntry field entry = .ok (name, size)) :
    ∃ n : Int, size.asInt? = some n ∧ 0 < n ∧ entryOf entry = (name, n) := by
  unfold layoutEntry at h
  cases hdict : entry.asDict? with
  | none =>
    rw [hdict] at h
    cases h
  | some items =>
    rw [hdict] at h
    dsimp only at h
    unfold entryOf
    rw [hdict, Option.getD_some]
    cases hname : (Value.field items "name".toList).asStr? with
    | none =>
      rw [hname] at h
      cases h
    | some text =>
      rw [hname] at h
      cases text with
      | nil => cases h
      | cons c text =>
        dsimp only at h
        cases hsize : (Value.field items "size".toList).asInt? with
        | none =>
          rw [hsize] at h
          cases h
        | some n =>
          rw [hsize] at h
          dsimp only at h
          by_cases hn : n ≤ 0
          · rw [if_pos hn] at h
            cases h
          · rw [if_neg hn] at h
            obtain ⟨rfl, rfl⟩ := Prod.mk.inj (Except.ok.inj h)
            refine ⟨n, hsize, by omega, ?_⟩
            dsimp only
            rw [hname, hsize]
            rfl

/-- A list of texts is written from sound entries with these names and sizes. -/
def WrittenFrom (texts : List Text) (entries : List (Text × Int)) : Prop :=
  ∃ parts : List Part, texts = parts.map Part.text ∧
    parts.map (fun p => (p.name, p.size)) = entries ∧ ∀ p ∈ parts, p.Sound

theorem WrittenFrom.nil : WrittenFrom [] [] := ⟨[], rfl, rfl, by simp⟩

theorem WrittenFrom.cons {texts : List Text} {entries : List (Text × Int)} (p : Part)
    (hp : p.Sound) (h : WrittenFrom texts entries) :
    WrittenFrom (p.text :: texts) ((p.name, p.size) :: entries) := by
  obtain ⟨parts, rfl, rfl, hsound⟩ := h
  refine ⟨p :: parts, rfl, rfl, ?_⟩
  intro q hq
  rcases List.mem_cons.mp hq with rfl | hq
  · exact hp
  · exact hsound q hq

/-- Two printed values are in the text behind the `=`. -/
theorem values_spec {v v' : Int} :
    ∀ c ∈ intText v ++ '/' :: intText v', isSpace c = false ∧ c ≠ ',' := by
  intro c hc
  rcases List.mem_append.mp hc with hc | hc
  · exact intText_spec hc
  · rcases List.mem_cons.mp hc with rfl | hc
    · decide
    · exact intText_spec hc

theorem abacusSecretParts_writtenFrom {limit : Nat} {c : Dict Text Int} {entries : List Value}
    {texts : List Text} (h : abacusSecretParts limit c entries = .ok (some texts)) :
    WrittenFrom texts (entries.map entryOf) := by
  induction entries generalizing texts with
  | nil =>
    obtain rfl : [] = texts := Option.some.inj (Except.ok.inj h)
    exact .nil
  | cons entry rest ih =>
    unfold abacusSecretParts at h
    cases hentry : layoutEntry "secret_layout".toList entry with
    | error e =>
      rw [hentry] at h
      cases h
    | ok named =>
      obtain ⟨name, size⟩ := named
      obtain ⟨n, hn, hpos, hof⟩ := layoutEntry_spec hentry
      rw [hentry] at h
      dsimp only at h
      -- a counterexample that lacks either value gives no spec at all
      cases hv : c.get? name with
      | none =>
        rw [hv] at h
        cases h
      | some v =>
        cases hv' : c.get? (primeName name) with
        | none =>
          rw [hv, hv'] at h
          cases h
        | some v' =>
          rw [hv, hv'] at h
          obtain ⟨sizeText, hsize, h⟩ := Sequence.bind_eq_ok_iff.mp h
          obtain ⟨text, htext, h⟩ := Sequence.bind_eq_ok_iff.mp h
          obtain ⟨text', htext', h⟩ := Sequence.bind_eq_ok_iff.mp h
          obtain ⟨parts, hparts, h⟩ := Sequence.bind_eq_ok_iff.mp h
          cases parts with
          | none => cases Except.ok.inj h
          | some parts =>
            obtain rfl := Option.some.inj (Except.ok.inj h)
            obtain rfl := printValue_spec htext
            obtain rfl := printValue_spec htext'
            obtain ⟨hplain, hreads⟩ := printSize_spec hn hpos hsize
            rw [List.map_cons, hof]
            exact .cons { name := name, size := n, sizeText := sizeText,
                          values := intText v ++ '/' :: intText v' }
              { sizePlain := hplain, valuesSpec := values_spec, reads := hreads } (ih hparts)

theorem abacusPublicParts_writtenFrom {limit : Nat} {c : Dict Text Int} {entries : List Value}
    {texts : List Text} (h : abacusPublicParts limit c entries = .ok (some texts)) :
    WrittenFrom texts (entries.map entryOf) := by
  induction entries generalizing texts with
  | nil =>
    obtain rfl : [] = texts := Option.some.inj (Except.ok.inj h)
    exact .nil
  | cons entry rest ih =>
    unfold abacusPublicParts at h
    cases hentry : layoutEntry "public_layout".toList entry with
    | error e =>
      rw [hentry] at h
      cases h
    | ok named =>
      obtain ⟨name, size⟩ := named
      obtain ⟨n, hn, hpos, hof⟩ := layoutEntry_spec hentry
      rw [hentry] at h
      dsimp only at h
      cases hv : c.get? name with
      | none =>
        rw [hv] at h
        cases h
      | some v =>
        rw [hv] at h
        obtain ⟨sizeText, hsize, h⟩ := Sequence.bind_eq_ok_iff.mp h
        obtain ⟨text, htext, h⟩ := Sequence.bind_eq_ok_iff.mp h
        obtain ⟨parts, hparts, h⟩ := Sequence.bind_eq_ok_iff.mp h
        cases parts with
        | none => cases Except.ok.inj h
        | some parts =>
          obtain rfl := Option.some.inj (Except.ok.inj h)
          obtain rfl := printValue_spec htext
          obtain ⟨hplain, hreads⟩ := printSize_spec hn hpos hsize
          rw [List.map_cons, hof]
          exact .cons { name := name, size := n, sizeText := sizeText, values := intText v }
            { sizePlain := hplain, valuesSpec := fun c hc => intText_spec hc, reads := hreads }
            (ih hparts)

/-- A part with a printed number for its size. -/
theorem sound_intText (name : Text) (n : Int) {values : Text}
    (h : ∀ c ∈ values, isSpace c = false ∧ c ≠ ',') :
    Part.Sound { name := name, size := n, sizeText := intText n, values := values } where
  sizePlain := fun _ hc => isPlain_of_mem_intText hc
  valuesSpec := h
  reads := fun _ _ hm => eq_of_int0_intText hm

theorem specSecrets_writtenFrom {limit : Nat} {c : Dict Text Int} {notes : List (Text × Value)}
    {symSize : Int} {texts : List Text} (h : specSecrets limit c notes symSize = .ok (some texts)) :
    WrittenFrom texts (secretEntries notes symSize) := by
  unfold specSecrets at h
  unfold secretEntries
  cases hnote : layoutNote notes "secret_layout".toList with
  | cons entry rest =>
    rw [hnote] at h
    exact abacusSecretParts_writtenFrom h
  | nil =>
    rw [hnote] at h
    dsimp only [legacySecretParts] at h
    cases hv : c.get? "exp".toList with
    | none =>
      rw [hv] at h
      cases h
    | some v =>
      cases hv' : c.get? (primeName "exp".toList) with
      | none =>
        rw [hv, hv'] at h
        cases h
      | some v' =>
        rw [hv, hv'] at h
        obtain ⟨sizeText, hsize, h⟩ := Sequence.bind_eq_ok_iff.mp h
        obtain ⟨text, htext, h⟩ := Sequence.bind_eq_ok_iff.mp h
        obtain ⟨text', htext', h⟩ := Sequence.bind_eq_ok_iff.mp h
        obtain rfl := Option.some.inj (Except.ok.inj h)
        obtain rfl := printValue_spec hsize
        obtain rfl := printValue_spec htext
        obtain rfl := printValue_spec htext'
        exact .cons _ (sound_intText "exp".toList symSize values_spec) .nil

theorem specPublics_writtenFrom {limit : Nat} {c : Dict Text Int} {notes : List (Text × Value)}
    {symSize : Int} {texts : List Text} (h : specPublics limit c notes symSize = .ok (some texts)) :
    WrittenFrom texts (publicEntries c notes symSize) := by
  unfold specPublics at h
  unfold publicEntries
  cases hnote : layoutNote notes "public_layout".toList with
  | cons entry rest =>
    rw [hnote] at h
    exact abacusPublicParts_writtenFrom h
  | nil =>
    rw [hnote] at h
    dsimp only [legacyPublicParts] at h ⊢
    cases hbase : c.get? "base".toList with
    | none =>
      rw [hbase] at h
      obtain rfl : [] = texts := Option.some.inj (Except.ok.inj h)
      exact .nil
    | some base =>
      cases hmod : c.get? "mod".toList with
      | none =>
        rw [hbase, hmod] at h
        obtain rfl : [] = texts := Option.some.inj (Except.ok.inj h)
        exact .nil
      | some mod =>
        rw [hbase, hmod] at h
        obtain ⟨sizeText, hsize, h⟩ := Sequence.bind_eq_ok_iff.mp h
        obtain ⟨text, htext, h⟩ := Sequence.bind_eq_ok_iff.mp h
        obtain ⟨text', htext', h⟩ := Sequence.bind_eq_ok_iff.mp h
        obtain rfl := Option.some.inj (Except.ok.inj h)
        obtain rfl := printValue_spec hsize
        obtain rfl := printValue_spec htext
        obtain rfl := printValue_spec htext'
        exact .cons _ (sound_intText "base".toList symSize fun c hc => intText_spec hc)
          (.cons _ (sound_intText "mod".toList symSize fun c hc => intText_spec hc) .nil)

/-! ## Through the parser -/

section Parsing

variable {ν : Type} {parseEntry : Nat → Text → Except Exc ((Text × ν) × Nat)} {sizeOf : ν → Nat}

/-- An entry that is read has the name and the size that were written. -/
def ReadsParts (parseEntry : Nat → Text → Except Exc ((Text × ν) × Nat)) (sizeOf : ν → Nat) :
    Prop :=
  ∀ (limit : Nat) (p : Part) (name : Text) (value : ν) (limit' : Nat),
    (∀ c ∈ p.name, isPlain c = true) → p.Sound →
      parseEntry limit p.text = .ok ((name, value), limit') →
        name = p.name ∧ (sizeOf value : Int) = p.size

theorem Part.text_spec {p : Part} (hname : ∀ c ∈ p.name, isPlain c = true) (hp : p.Sound) :
    ∀ c ∈ p.text, isSpace c = false ∧ c ≠ ',' := by
  have hplain : ∀ c, isPlain c = true → isSpace c = false ∧ c ≠ ',' := by
    intro c hc
    constructor
    · exact isSpace_of_plain (s := [c]) (by simpa using hc) c (by simp)
    · rintro rfl
      exact absurd hc (by decide)
  intro c hc
  rcases List.mem_append.mp hc with hc | hc
  · exact hplain c (hname c hc)
  · rcases List.mem_cons.mp hc with rfl | hc
    · decide
    · rcases List.mem_append.mp hc with hc | hc
      · exact hplain c (hp.sizePlain c hc)
      · rcases List.mem_cons.mp hc with rfl | hc
        · decide
        · exact hp.valuesSpec c hc

theorem Part.text_ne_nil (p : Part) : p.text ≠ [] := by
  unfold Part.text
  simp

/-- The head of a written entry, if it is read. -/
theorem parseEntryHead_part {limit : Nat} {kind : SpecKind} {p : Part} {name values : Text}
    {size : Nat} (hname : ∀ c ∈ p.name, isPlain c = true) (hp : p.Sound)
    (h : parseEntryHead limit kind p.text = .ok (name, size, values)) :
    name = p.name ∧ (size : Int) = p.size := by
  have heq : partition? '=' p.text = some (p.name ++ ':' :: p.sizeText, p.values) := by
    have hnot : '=' ∉ p.name ++ ':' :: p.sizeText := by
      simp only [List.mem_append, List.mem_cons, not_or]
      exact ⟨notMem_of_plain hname (by decide), by decide,
        notMem_of_plain hp.sizePlain (by decide)⟩
    have hassoc : p.text = (p.name ++ ':' :: p.sizeText) ++ '=' :: p.values := by
      unfold Part.text
      simp
    rw [hassoc, partition?, if_pos (by simp), split1_append hnot]
  unfold parseEntryHead at h
  rw [heq] at h
  dsimp only at h
  rw [partition?_append hname (show isPlain ':' = false by decide)] at h
  dsimp only at h
  cases hint : int0 limit p.sizeText with
  | error e =>
    rw [hint] at h
    cases h
  | ok n =>
    rw [hint] at h
    dsimp only at h
    by_cases hn : n ≤ 0
    · rw [if_pos hn] at h
      cases h
    · rw [if_neg hn] at h
      obtain ⟨rfl, hrest⟩ := Prod.mk.inj (Except.ok.inj h)
      obtain ⟨rfl, -⟩ := Prod.mk.inj hrest
      refine ⟨strip_of_forall (isSpace_of_plain hname), ?_⟩
      rw [← hp.reads limit n hint]
      omega

theorem readsParts_secret : ReadsParts parseSecretEntry SecretValue.size := by
  intro limit p name value limit' hname hp h
  unfold parseSecretEntry at h
  cases hhead : parseEntryHead limit secretSpec p.text with
  | error e =>
    rw [hhead] at h
    cases h
  | ok head =>
    obtain ⟨name', size, values⟩ := head
    obtain ⟨rfl, hsize⟩ := parseEntryHead_part hname hp hhead
    rw [hhead] at h
    dsimp only at h
    cases hpart : partition? '/' values with
    | none =>
      rw [hpart] at h
      cases h
    | some sides =>
      rw [hpart] at h
      dsimp only at h
      cases horig : parseInputValueInt limit sides.1 p.text "original secret".toList with
      | error e =>
        rw [horig] at h
        cases h
      | ok orig =>
        rw [horig] at h
        dsimp only at h
        cases hprime : parseInputValueInt orig.2 sides.2 p.text "prime secret".toList with
        | error e =>
          rw [hprime] at h
          cases h
        | ok prime =>
          rw [hprime] at h
          obtain ⟨hvalue, -⟩ := Prod.mk.inj (Except.ok.inj h)
          obtain ⟨rfl, rfl⟩ := Prod.mk.inj hvalue
          exact ⟨rfl, hsize⟩

theorem readsParts_public : ReadsParts parsePublicEntry PublicValue.size := by
  intro limit p name value limit' hname hp h
  unfold parsePublicEntry at h
  cases hhead : parseEntryHead limit publicSpec p.text with
  | error e =>
    rw [hhead] at h
    cases h
  | ok head =>
    obtain ⟨name', size, values⟩ := head
    obtain ⟨rfl, hsize⟩ := parseEntryHead_part hname hp hhead
    rw [hhead] at h
    dsimp only at h
    cases hread : parseInputValueInt limit values p.text "public".toList with
    | error e =>
      rw [hread] at h
      cases h
    | ok read =>
      rw [hread] at h
      obtain ⟨hvalue, -⟩ := Prod.mk.inj (Except.ok.inj h)
      obtain ⟨rfl, rfl⟩ := Prod.mk.inj hvalue
      exact ⟨rfl, hsize⟩

/-- **Run lemma** of the parsing loop: what it assigns has the names and the sizes that
were written. -/
theorem parseEntries_parts (hread : ReadsParts parseEntry sizeOf) {parts : List Part}
    (hparts : ∀ p ∈ parts, (∀ c ∈ p.name, isPlain c = true) ∧ p.Sound)
    {limit limit' : Nat} {result d : Dict Text ν}
    (h : parseEntries parseEntry limit result (parts.map Part.text) = .ok (d, limit')) :
    ∃ items : List (Text × ν), d = result.setAll items ∧
      items.map (fun i => (i.1, (sizeOf i.2 : Int))) = parts.map fun p => (p.name, p.size) := by
  induction parts generalizing limit result with
  | nil =>
    obtain ⟨rfl, -⟩ := Prod.mk.inj (Except.ok.inj h)
    exact ⟨[], rfl, rfl⟩
  | cons p parts ih =>
    obtain ⟨hname, hp⟩ := hparts p (by simp)
    have hstrip : strip p.text = p.text :=
      strip_of_forall fun c hc => (Part.text_spec hname hp c hc).1
    rw [List.map_cons, parseEntries, hstrip, if_neg p.text_ne_nil] at h
    cases hentry : parseEntry limit p.text with
    | error e =>
      rw [hentry] at h
      cases h
    | ok read =>
      obtain ⟨⟨name, value⟩, limit₁⟩ := read
      obtain ⟨rfl, hsize⟩ := hread limit p name value limit₁ hname hp hentry
      rw [hentry] at h
      obtain ⟨items, rfl, hitems⟩ := ih (fun q hq => hparts q (by simp [hq])) h
      refine ⟨(p.name, value) :: items, rfl, ?_⟩
      rw [List.map_cons, List.map_cons, hitems, hsize]

/-- A specification that is read assigns the names and the sizes it was written with. -/
theorem parseSpec_sizes (hread : ReadsParts parseEntry sizeOf) {texts : List Text}
    {entries : List (Text × Int)} (hwritten : WrittenFrom texts entries)
    (hplain : ∀ e ∈ entries, ∀ c ∈ e.1, isPlain c = true) (hnodup : (entries.map Prod.fst).Nodup)
    {limit limit' : Nat} {d : Dict Text ν}
    (h : parseSpec parseEntry limit (join [','] texts) = .ok (d, limit')) :
    d.items.map (fun i => (i.1, (sizeOf i.2 : Int))) = entries := by
  obtain ⟨parts, rfl, rfl, hsound⟩ := hwritten
  have hparts : ∀ p ∈ parts, (∀ c ∈ p.name, isPlain c = true) ∧ p.Sound := by
    intro p hp
    exact ⟨hplain (p.name, p.size) (List.mem_map.mpr ⟨p, hp, rfl⟩), hsound p hp⟩
  cases parts with
  | nil =>
    obtain ⟨rfl, -⟩ := Prod.mk.inj (Except.ok.inj h)
    rfl
  | cons p rest =>
    have hjoin : join [','] ((p :: rest).map Part.text) ≠ [] := by
      have hne := p.text_ne_nil
      cases rest <;> simp [join, List.intercalate, hne]
    have hcomma : ∀ l ∈ (p :: rest).map Part.text, ',' ∉ l := by
      intro l hl hc
      obtain ⟨q, hq, rfl⟩ := List.mem_map.mp hl
      exact (Part.text_spec (hparts q hq).1 (hparts q hq).2 _ hc).2 rfl
    rw [parseSpec, if_neg hjoin, join, List.splitOn_intercalate _ hcomma (by simp)] at h
    obtain ⟨items, rfl, hitems⟩ := parseEntries_parts hread hparts h
    have hkeys : items.map Prod.fst =
        ((p :: rest).map fun p => (p.name, p.size)).map Prod.fst := by
      rw [← hitems, List.map_map]
      rfl
    rw [Dict.items_setAll_empty (by rw [hkeys]; exact hnodup)]
    exact hitems

end Parsing

/-! ## The files -/

/-- The names and the lengths of the files of a dictionary. -/
def fileSizes (files : Dict Text (List UInt8)) : List (Text × Int) :=
  files.items.map fun file => (file.1, (file.2.length : Int))

/-- **Run lemma** of the loop over the secrets: both files get the size of the secret. -/
theorem buildSecrets_sizes {items : List (Text × SecretValue)}
    {orig prime orig' prime' : Dict Text (List UInt8)}
    (h : buildSecrets orig prime items = .ok (orig', prime')) :
    ∃ fs fs' : List (Text × List UInt8), orig' = orig.setAll fs ∧ prime' = prime.setAll fs' ∧
      fs.map (fun f => (f.1, f.2.length)) = items.map (fun i => (i.1, i.2.size)) ∧
      fs'.map (fun f => (f.1, f.2.length)) = items.map (fun i => (i.1, i.2.size)) := by
  induction items generalizing orig prime with
  | nil =>
    obtain ⟨rfl, rfl⟩ := Prod.mk.inj (Except.ok.inj h)
    exact ⟨[], [], rfl, rfl, rfl, rfl⟩
  | cons item items ih =>
    obtain ⟨name, s⟩ := item
    unfold buildSecrets at h
    cases ha : toBytes .big s.size s.orig with
    | none =>
      rw [ha] at h
      cases h
    | some a =>
      cases hb : toBytes .big s.size s.prime with
      | none =>
        rw [ha, hb] at h
        cases h
      | some b =>
        rw [ha, hb] at h
        obtain ⟨fs, fs', rfl, rfl, hfs, hfs'⟩ := ih h
        refine ⟨(name, a) :: fs, (name, b) :: fs', rfl, rfl, ?_, ?_⟩
        · rw [List.map_cons, List.map_cons, hfs, (toBytes_spec ha .big).2.1]
        · rw [List.map_cons, List.map_cons, hfs', (toBytes_spec hb .big).2.1]

theorem buildPublics_sizes {items : List (Text × PublicValue)}
    {values values' : Dict Text (List UInt8)} (h : buildPublics values items = .ok values') :
    ∃ fs : List (Text × List UInt8), values' = values.setAll fs ∧
      fs.map (fun f => (f.1, f.2.length)) = items.map (fun i => (i.1, i.2.size)) := by
  induction items generalizing values with
  | nil =>
    obtain rfl := Except.ok.inj h
    exact ⟨[], rfl, rfl⟩
  | cons item items ih =>
    obtain ⟨name, p⟩ := item
    unfold buildPublics at h
    cases ha : toBytes .big p.size p.value with
    | none =>
      rw [ha] at h
      cases h
    | some a =>
      rw [ha] at h
      obtain ⟨fs, rfl, hfs⟩ := ih h
      refine ⟨(name, a) :: fs, rfl, ?_⟩
      rw [List.map_cons, List.map_cons, hfs, (toBytes_spec ha .big).2.1]

/-- Files that were written one after the other under distinct names. -/
theorem fileSizes_setAll {ν : Type} {fs : List (Text × List UInt8)} {items : List (Text × ν)}
    {sizeOf : ν → Nat} (hnodup : (items.map Prod.fst).Nodup)
    (h : fs.map (fun f => (f.1, f.2.length)) = items.map (fun i => (i.1, sizeOf i.2))) :
    fileSizes (Dict.empty.setAll fs) = items.map (fun i => (i.1, (sizeOf i.2 : Int))) := by
  have hkeys : fs.map Prod.fst = items.map Prod.fst := by
    have := congrArg (List.map Prod.fst) h
    rwa [List.map_map, List.map_map] at this
  have hcast := congrArg (List.map fun e : Text × Nat => (e.1, (e.2 : Int))) h
  rw [List.map_map, List.map_map] at hcast
  rw [fileSizes, Dict.items_setAll_empty (by rw [hkeys]; exact hnodup)]
  exact hcast

/-- A row that gets as far as the replay, taken apart. -/
theorem rowInputs_spec {limit : Nat} {c : Dict Text Int} {notes : List (Text × Value)}
    {symSize : Int} {inputs : InputBytes}
    (h : rowInputs limit c notes symSize = .ok (some inputs)) :
    ∃ secretParts publicParts, specSecrets limit c notes symSize = .ok (some secretParts) ∧
      specPublics limit c notes symSize = .ok (some publicParts) ∧
      parseInputs limit (join [','] secretParts) (join [','] publicParts) = .ok inputs := by
  unfold rowInputs buildAbacusSpecs at h
  cases hs : specSecrets limit c notes symSize with
  | error e =>
    rw [hs] at h
    cases h
  | ok secretParts =>
    cases secretParts with
    | none =>
      rw [hs] at h
      cases h
    | some secretParts =>
      rw [hs] at h
      dsimp only at h
      cases hp : specPublics limit c notes symSize with
      | error e =>
        rw [hp] at h
        cases h
      | ok publicParts =>
        cases publicParts with
        | none =>
          rw [hp] at h
          cases h
        | some publicParts =>
          rw [hp] at h
          dsimp only at h
          refine ⟨secretParts, publicParts, rfl, rfl, ?_⟩
          cases hparse : parseInputs limit (join [','] secretParts) (join [','] publicParts) with
          | error e =>
            rw [hparse] at h
            cases h
          | ok bytes =>
            rw [hparse] at h
            rw [Option.some.inj (Except.ok.inj h)]

theorem parseInputs_spec {limit : Nat} {secretText publicText : Text} {inputs : InputBytes}
    (h : parseInputs limit secretText publicText = .ok inputs) :
    ∃ secrets publics limit₁ limit₂,
      parseSpec parseSecretEntry limit secretText = .ok (secrets, limit₁) ∧
      parseSpec parsePublicEntry limit₁ publicText = .ok (publics, limit₂) ∧
      buildValueInputBytes secrets publics = .ok inputs := by
  unfold parseInputs parseSecretInputSpec parsePublicInputSpec at h
  cases hs : parseSpec parseSecretEntry limit secretText with
  | error e =>
    rw [hs] at h
    cases h
  | ok secrets =>
    rw [hs] at h
    dsimp only at h
    cases hp : parseSpec parsePublicEntry secrets.2 publicText with
    | error e =>
      rw [hp] at h
      cases h
    | ok publics =>
      rw [hp] at h
      exact ⟨secrets.1, publics.1, secrets.2, publics.2, rfl, hp, h⟩

theorem buildValueInputBytes_spec {secrets : Dict Text SecretValue}
    {publics : Dict Text PublicValue} {inputs : InputBytes}
    (h : buildValueInputBytes secrets publics = .ok inputs) :
    ∃ orig prime values, buildSecrets .empty .empty secrets.items = .ok (orig, prime) ∧
      buildPublics .empty publics.items = .ok values ∧
      inputs = { secretOrig := orig, secretPrime := prime, publicValues := values } := by
  unfold buildValueInputBytes at h
  cases hs : buildSecrets .empty .empty secrets.items with
  | error e =>
    rw [hs] at h
    cases h
  | ok built =>
    rw [hs] at h
    dsimp only at h
    cases hp : buildPublics .empty publics.items with
    | error e =>
      rw [hp] at h
      cases h
    | ok values =>
      rw [hp] at h
      exact ⟨built.1, built.2, values, rfl, rfl, (Except.ok.inj h).symm⟩

/-- What the sizes of a row's files are read from: plain, distinct names. -/
structure PlainNames (entries : List (Text × Int)) : Prop where
  plain : ∀ e ∈ entries, ∀ c ∈ e.1, isPlain c = true
  nodup : (entries.map Prod.fst).Nodup

/-- **The files have the recorded sizes**, if the row gets as far as the replay. -/
theorem rowInputs_sizes {limit : Nat} {c : Dict Text Int} {notes : List (Text × Value)}
    {symSize : Int} {inputs : InputBytes} (h : rowInputs limit c notes symSize = .ok (some inputs))
    (hsecrets : PlainNames (secretEntries notes symSize))
    (hpublics : PlainNames (publicEntries c notes symSize)) :
    fileSizes inputs.secretOrig = secretEntries notes symSize ∧
      fileSizes inputs.secretPrime = secretEntries notes symSize ∧
      fileSizes inputs.publicValues = publicEntries c notes symSize := by
  obtain ⟨secretParts, publicParts, hs, hp, hparse⟩ := rowInputs_spec h
  obtain ⟨secrets, publics, l₁, l₂, hsec, hpub, hbuild⟩ := parseInputs_spec hparse
  have hsizes := parseSpec_sizes readsParts_secret (specSecrets_writtenFrom hs)
    hsecrets.plain hsecrets.nodup hsec
  have hsizes' := parseSpec_sizes readsParts_public (specPublics_writtenFrom hp)
    hpublics.plain hpublics.nodup hpub
  obtain ⟨orig, prime, values, hbs, hbp, rfl⟩ := buildValueInputBytes_spec hbuild
  obtain ⟨fs, fs', rfl, rfl, hfs, hfs'⟩ := buildSecrets_sizes hbs
  obtain ⟨gs, rfl, hgs⟩ := buildPublics_sizes hbp
  exact ⟨(fileSizes_setAll secrets.nodup hfs).trans hsizes,
    (fileSizes_setAll secrets.nodup hfs').trans hsizes,
    (fileSizes_setAll publics.nodup hgs).trans hsizes'⟩

end KleeDeps.Converters
