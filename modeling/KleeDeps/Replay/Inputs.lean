import KleeDeps.Py.Dict
import KleeDeps.Py.Int

/-!
# Replay inputs on the command line

`reproduce_positives.py --input` receives the two assignments of a finding as
text: `name:bytes=orig/prime` for every secret, `name:bytes=value` for every
public input, joined by commas. This module is the parser of these
specifications and the construction of the input files' content.

The digit limit of the interpreter is state here: `_parse_input_value_int`
switches it off for good when a number is longer than it.

- `parseSecretInputSpec`, `parsePublicInputSpec`, `buildValueInputBytes`: the
  source functions;
- `secretPart`, `publicPart`, `join`: the writer's side;
- `parseSecretInputSpec_join`, `parsePublicInputSpec_join`: **whatever is
  written is read back**, in order, whatever the digit limit of the reader is.
-/

namespace KleeDeps.Replay

open Py

/-! ## The parser -/

/-- `_parse_input_value_int`: the number, and the digit limit from then on. -/
def parseInputValueInt (limit : Nat) (rawValue entry valueName : Text) :
    Except Exc (Int × Nat) :=
  let invalid : Exc := .valueError
    ("Invalid ".toList ++ valueName ++ " value in specification '".toList ++ entry ++ ['\''])
  match int0 limit (strip rawValue) with
  | .ok n => .ok (n, limit)
  | .error .invalid => .error invalid
  | .error .exceedsLimit =>
    match int0 0 (strip rawValue) with
    | .ok n => .ok (n, 0)
    | .error _ => .error invalid

/-- The two sides of `text.split(sep, 1)`, where `sep` occurs. -/
def partition? (sep : Char) (text : Text) : Option (Text × Text) :=
  if sep ∈ text then some (split1 sep text) else none

/-- The texts in which the two parsers differ. -/
structure SpecKind where
  noun : Text
  shape : Text
  deriving DecidableEq, Repr

/-- Secrets: `name:bytes=orig/prime`. -/
def secretSpec : SpecKind := { noun := "secret".toList, shape := "name:bytes=orig/prime".toList }

/-- Publics: `name:bytes=value`. -/
def publicSpec : SpecKind := { noun := "public".toList, shape := "name:bytes=value".toList }

/-- The error for an entry of the wrong shape. -/
def SpecKind.invalid (kind : SpecKind) (entry : Text) : Exc :=
  .valueError ("Invalid ".toList ++ kind.noun ++ " specification '".toList ++ entry ++
    "', expected ".toList ++ kind.shape)

/-- The name, the size and the text behind the `=` of an entry. -/
def parseEntryHead (limit : Nat) (kind : SpecKind) (entry : Text) :
    Except Exc (Text × Nat × Text) :=
  match partition? '=' entry with
  | none => .error (kind.invalid entry)
  | some (namePart, valuesPart) =>
    match partition? ':' namePart with
    | none => .error (kind.invalid entry)
    | some (name, sizeStr) =>
      match int0 limit sizeStr with
      | .error _ => .error (.valueError ("Invalid byte size in ".toList ++ kind.noun ++
          " specification '".toList ++ entry ++ ['\'']))
      | .ok size =>
        if size ≤ 0 then .error (.valueError ("Byte size must be positive in ".toList ++
          kind.noun ++ " specification '".toList ++ entry ++ ['\'']))
        else .ok (strip name, size.toNat, valuesPart)

/-- A parsed secret: its size and its two values. -/
structure SecretValue where
  size : Nat
  orig : Int
  prime : Int
  deriving DecidableEq, Repr

/-- A parsed public input. -/
structure PublicValue where
  size : Nat
  value : Int
  deriving DecidableEq, Repr

/-- One entry of `parse_secret_input_spec`. -/
def parseSecretEntry (limit : Nat) (entry : Text) : Except Exc ((Text × SecretValue) × Nat) :=
  match parseEntryHead limit secretSpec entry with
  | .error e => .error e
  | .ok (name, size, valuesPart) =>
    match partition? '/' valuesPart with
    | none => .error (secretSpec.invalid entry)
    | some (origStr, primeStr) =>
      match parseInputValueInt limit origStr entry "original secret".toList with
      | .error e => .error e
      | .ok (orig, limit) =>
        match parseInputValueInt limit primeStr entry "prime secret".toList with
        | .error e => .error e
        | .ok (prime, limit) => .ok ((name, { size := size, orig := orig, prime := prime }), limit)

/-- One entry of `parse_public_input_spec`. -/
def parsePublicEntry (limit : Nat) (entry : Text) : Except Exc ((Text × PublicValue) × Nat) :=
  match parseEntryHead limit publicSpec entry with
  | .error e => .error e
  | .ok (name, size, valueStr) =>
    match parseInputValueInt limit valueStr entry "public".toList with
    | .error e => .error e
    | .ok (value, limit) => .ok ((name, { size := size, value := value }), limit)

section Entries

variable {ν : Type}

/-- The loop both parsers run over the comma-separated items; blank items are
skipped, a repeated name overwrites. -/
def parseEntries (parseEntry : Nat → Text → Except Exc ((Text × ν) × Nat)) :
    Nat → Dict Text ν → List Text → Except Exc (Dict Text ν × Nat)
  | limit, result, [] => .ok (result, limit)
  | limit, result, item :: rest =>
    if strip item = [] then parseEntries parseEntry limit result rest
    else match parseEntry limit (strip item) with
      | .error e => .error e
      | .ok ((name, value), limit) => parseEntries parseEntry limit (result.set name value) rest

/-- The body both parsers share. -/
def parseSpec (parseEntry : Nat → Text → Except Exc ((Text × ν) × Nat)) (limit : Nat)
    (spec : Text) : Except Exc (Dict Text ν × Nat) :=
  if spec = [] then .ok (.empty, limit)
  else parseEntries parseEntry limit .empty (spec.splitOn ',')

end Entries

/-- `parse_secret_input_spec`, with the digit limit before and after. -/
def parseSecretInputSpec (limit : Nat) (spec : Text) : Except Exc (Dict Text SecretValue × Nat) :=
  parseSpec parseSecretEntry limit spec

/-- `parse_public_input_spec`, with the digit limit before and after. -/
def parsePublicInputSpec (limit : Nat) (spec : Text) : Except Exc (Dict Text PublicValue × Nat) :=
  parseSpec parsePublicEntry limit spec

/-- The three dictionaries of `build_value_input_bytes`. -/
structure InputBytes where
  secretOrig : Dict Text (List UInt8)
  secretPrime : Dict Text (List UInt8)
  publicValues : Dict Text (List UInt8)
  deriving DecidableEq

/-- The first loop of `build_value_input_bytes`. -/
def buildSecrets (orig prime : Dict Text (List UInt8)) :
    List (Text × SecretValue) → Except Exc (Dict Text (List UInt8) × Dict Text (List UInt8))
  | [] => .ok (orig, prime)
  | (name, s) :: rest =>
    match toBytes .big s.size s.orig, toBytes .big s.size s.prime with
    | some a, some b => buildSecrets (orig.set name a) (prime.set name b) rest
    | _, _ => .error (.valueError ("Secret value for '".toList ++ name ++
        "' does not fit in ".toList ++ decimal s.size ++ " bytes".toList))

/-- The second loop of `build_value_input_bytes`. -/
def buildPublics (values : Dict Text (List UInt8)) :
    List (Text × PublicValue) → Except Exc (Dict Text (List UInt8))
  | [] => .ok values
  | (name, p) :: rest =>
    match toBytes .big p.size p.value with
    | some a => buildPublics (values.set name a) rest
    | none => .error (.valueError ("Public value for '".toList ++ name ++
        "' does not fit in ".toList ++ decimal p.size ++ " bytes".toList))

/-- `build_value_input_bytes`. -/
def buildValueInputBytes (secrets : Dict Text SecretValue) (publics : Dict Text PublicValue) :
    Except Exc InputBytes :=
  match buildSecrets .empty .empty secrets.items with
  | .error e => .error e
  | .ok (orig, prime) =>
    match buildPublics .empty publics.items with
    | .error e => .error e
    | .ok values => .ok { secretOrig := orig, secretPrime := prime, publicValues := values }

/-- The first `try` of `validate_input_values`: from the two specifications to
the bytes the replay executable is given. -/
def parseInputs (limit : Nat) (secretSpec publicSpec : Text) : Except Exc InputBytes :=
  match parseSecretInputSpec limit secretSpec with
  | .error e => .error e
  | .ok (secrets, limit) =>
    match parsePublicInputSpec limit publicSpec with
    | .error e => .error e
    | .ok (publics, _) => buildValueInputBytes secrets publics

/-! ## The writer's side -/

/-- Letters, digits and the underscore. -/
def isIdentifierChar (c : Char) : Bool :=
  let n := c.toNat
  (0x30 ≤ n && n ≤ 0x39) || (0x41 ≤ n && n ≤ 0x5a) || n == 0x5f || (0x61 ≤ n && n ≤ 0x7a)

/-- The C identifiers that input names are. -/
def isIdentifier : Text → Bool
  | [] => false
  | c :: rest => isIdentifierChar c && !(0x30 ≤ c.toNat && c.toNat ≤ 0x39) &&
      rest.all isIdentifierChar

/-- `f"{name}:{size}={value}/{prime_value}"`. -/
def secretPart (name : Text) (size orig prime : Nat) : Text :=
  name ++ ':' :: (decimal size ++ '=' :: (decimal orig ++ '/' :: decimal prime))

/-- `f"{name}:{size}={value}"`. -/
def publicPart (name : Text) (size value : Nat) : Text :=
  name ++ ':' :: (decimal size ++ '=' :: decimal value)

/-- The characters names and numbers are written with: none of the separators,
no white space. -/
def isPlain (c : Char) : Bool := !isSpace c && c ∉ [',', ':', '=', '/']

theorem isPlain_of_isIdentifierChar {c : Char} (h : isIdentifierChar c = true) :
    isPlain c = true := by
  have hsp : isSpace c = false := by
    simp only [isIdentifierChar, Bool.or_eq_true, Bool.and_eq_true, decide_eq_true_eq,
      beq_iff_eq] at h
    rw [Bool.eq_false_iff]
    intro hs
    simp only [isSpace, Bool.or_eq_true, Bool.and_eq_true, decide_eq_true_eq, beq_iff_eq] at hs
    omega
  have hsep : c ∉ [',', ':', '=', '/'] := by
    intro hc
    simp only [List.mem_cons, List.not_mem_nil, or_false] at hc
    rcases hc with rfl | rfl | rfl | rfl <;> exact absurd h (by decide)
  simp only [isPlain, hsp, Bool.not_false, Bool.true_and]
  exact decide_eq_true hsep

theorem isPlain_of_isIdentifier {name : Text} (h : isIdentifier name = true) {c : Char}
    (hc : c ∈ name) : isPlain c = true := by
  cases name with
  | nil => simp at hc
  | cons d rest =>
    simp only [isIdentifier, Bool.and_eq_true, List.all_eq_true] at h
    rcases List.mem_cons.mp hc with rfl | hc
    · exact isPlain_of_isIdentifierChar h.1.1
    · exact isPlain_of_isIdentifierChar (h.2 c hc)

theorem isPlain_of_mem_decimal {n : Nat} {c : Char} (hc : c ∈ decimal n) : isPlain c = true := by
  obtain ⟨hsp, -, hsep⟩ := mem_toDigits_spec (by decide) (by decide) hc
  simp only [isPlain, hsp, Bool.not_false, Bool.true_and]
  refine decide_eq_true fun hmem => hsep ?_
  simp only [List.mem_cons, List.not_mem_nil, or_false] at hmem ⊢
  tauto

section Plain

variable {s : Text}

theorem isSpace_of_plain (h : ∀ c ∈ s, isPlain c = true) : ∀ c ∈ s, isSpace c = false := by
  intro c hc
  have := h c hc
  simp only [isPlain, Bool.and_eq_true, Bool.not_eq_true'] at this
  exact this.1

theorem notMem_of_plain (h : ∀ c ∈ s, isPlain c = true) {sep : Char}
    (hsep : isPlain sep = false) : sep ∉ s := fun hc => by
  rw [h sep hc] at hsep
  cases hsep

/-- Splitting at a separator that the left side does not contain. -/
theorem partition?_append (h : ∀ c ∈ s, isPlain c = true) {sep : Char}
    (hsep : isPlain sep = false) (t : Text) :
    partition? sep (s ++ sep :: t) = some (s, t) := by
  rw [partition?, if_pos (by simp), split1_append (notMem_of_plain h hsep)]

end Plain

/-! ## Reading back what was written -/

/-- The digit limits the interpreter accepts: none, or at least `640`. -/
def ValidLimit (limit : Nat) : Prop := limit = 0 ∨ 640 ≤ limit

/-- A number is read whatever the limit is; at most the limit is gone then. -/
theorem parseInputValueInt_decimal {limit : Nat} (hlimit : ValidLimit limit) (n : Nat)
    (entry valueName : Text) :
    ∃ limit', ValidLimit limit' ∧
      parseInputValueInt limit (decimal n) entry valueName = .ok ((n : Int), limit') := by
  have hstrip : strip (decimal n) = decimal n :=
    strip_of_forall (isSpace_of_plain fun c hc => isPlain_of_mem_decimal hc)
  unfold parseInputValueInt
  rw [hstrip, int0_decimal]
  by_cases h : limit ≠ 0 ∧ limit < (decimal n).length
  · refine ⟨0, Or.inl rfl, ?_⟩
    rw [if_pos h]
    simp only [int0_decimal_ok (Or.inl rfl)]
  · exact ⟨limit, hlimit, by rw [if_neg h]⟩

/-- The head of a written entry, with `values` the text behind the `=`. -/
theorem parseEntryHead_written {limit : Nat} (hlimit : ValidLimit limit) (kind : SpecKind)
    {name : Text} {size : Nat} (hname : isIdentifier name = true) (hpos : 0 < size)
    (hsize : size ≤ maxSize) (values : Text) :
    parseEntryHead limit kind (name ++ ':' :: (decimal size ++ '=' :: values)) =
      .ok (name, size, values) := by
  have hplain : ∀ c ∈ name, isPlain c = true := fun c hc => isPlain_of_isIdentifier hname hc
  have heq : partition? '=' (name ++ ':' :: (decimal size ++ '=' :: values)) =
      some (name ++ ':' :: decimal size, values) := by
    have hnot : '=' ∉ name ++ ':' :: decimal size := by
      simp only [List.mem_append, List.mem_cons, not_or]
      exact ⟨notMem_of_plain hplain (by decide), by decide,
        notMem_of_plain (fun c hc => isPlain_of_mem_decimal hc) (by decide)⟩
    have hassoc : name ++ ':' :: (decimal size ++ '=' :: values) =
        (name ++ ':' :: decimal size) ++ '=' :: values := by simp
    rw [hassoc, partition?, if_pos (by simp), split1_append hnot]
  have hint : int0 limit (decimal size) = .ok (size : Int) := by
    apply int0_decimal_ok
    have := length_decimal_le_of_le_maxSize hsize
    rcases hlimit with h | h
    · exact Or.inl h
    · exact Or.inr (by omega)
  have hneg : ¬ (size : Int) ≤ 0 := by omega
  unfold parseEntryHead
  rw [heq]
  simp only [partition?_append hplain (show isPlain ':' = false by decide), hint, if_neg hneg,
    strip_of_forall (isSpace_of_plain hplain), Int.toNat_natCast]

theorem parseSecretEntry_secretPart {limit : Nat} (hlimit : ValidLimit limit) {name : Text}
    {size : Nat} (hname : isIdentifier name = true) (hpos : 0 < size) (hsize : size ≤ maxSize)
    (orig prime : Nat) :
    ∃ limit', ValidLimit limit' ∧ parseSecretEntry limit (secretPart name size orig prime) =
      .ok ((name, { size := size, orig := orig, prime := prime }), limit') := by
  unfold parseSecretEntry
  obtain ⟨l₁, hl₁, h₁⟩ := parseInputValueInt_decimal hlimit orig
    (secretPart name size orig prime) "original secret".toList
  obtain ⟨l₂, hl₂, h₂⟩ := parseInputValueInt_decimal hl₁ prime
    (secretPart name size orig prime) "prime secret".toList
  refine ⟨l₂, hl₂, ?_⟩
  rw [show parseEntryHead limit secretSpec (secretPart name size orig prime) =
      .ok (name, size, decimal orig ++ '/' :: decimal prime) from
    parseEntryHead_written hlimit secretSpec hname hpos hsize _]
  simp only [partition?_append (fun c hc => isPlain_of_mem_decimal hc)
    (show isPlain '/' = false by decide), h₁, h₂]

theorem parsePublicEntry_publicPart {limit : Nat} (hlimit : ValidLimit limit) {name : Text}
    {size : Nat} (hname : isIdentifier name = true) (hpos : 0 < size) (hsize : size ≤ maxSize)
    (value : Nat) :
    ∃ limit', ValidLimit limit' ∧ parsePublicEntry limit (publicPart name size value) =
      .ok ((name, { size := size, value := value }), limit') := by
  unfold parsePublicEntry
  obtain ⟨l₁, hl₁, h₁⟩ := parseInputValueInt_decimal hlimit value
    (publicPart name size value) "public".toList
  refine ⟨l₁, hl₁, ?_⟩
  rw [show parseEntryHead limit publicSpec (publicPart name size value) =
      .ok (name, size, decimal value) from
    parseEntryHead_written hlimit publicSpec hname hpos hsize _]
  simp only [h₁]

section Loop

variable {α ν : Type} {parseEntry : Nat → Text → Except Exc ((Text × ν) × Nat)}
  {write : α → Text} {item : α → Text × ν}

/-- **Run lemma** of the parsing loop: if every written entry is read back under
every limit, the loop assigns all of them, in order. -/
theorem parseEntries_map {xs : List α}
    (hread : ∀ x ∈ xs, ∀ limit, ValidLimit limit → ∃ limit', ValidLimit limit' ∧
      parseEntry limit (write x) = .ok (item x, limit'))
    (hplain : ∀ x ∈ xs, write x ≠ [] ∧ ∀ c ∈ write x, isSpace c = false)
    {limit : Nat} (hlimit : ValidLimit limit) (result : Dict Text ν) :
    ∃ limit', ValidLimit limit' ∧ parseEntries parseEntry limit result (xs.map write) =
      .ok (result.setAll (xs.map item), limit') := by
  induction xs generalizing limit result with
  | nil => exact ⟨limit, hlimit, rfl⟩
  | cons x xs ih =>
    obtain ⟨hne, hsp⟩ := hplain x (by simp)
    obtain ⟨l₁, hl₁, h₁⟩ := hread x (by simp) limit hlimit
    obtain ⟨l₂, hl₂, h₂⟩ := ih (fun y hy => hread y (by simp [hy]))
      (fun y hy => hplain y (by simp [hy])) hl₁ (result.set (item x).1 (item x).2)
    refine ⟨l₂, hl₂, ?_⟩
    rw [List.map_cons, parseEntries, strip_of_forall hsp, if_neg hne, h₁]
    exact h₂

/-- **Round trip** of a whole specification. -/
theorem parseSpec_join (parseEntry : Nat → Text → Except Exc ((Text × ν) × Nat))
    (write : α → Text) (item : α → Text × ν) (xs : List α)
    (hread : ∀ x ∈ xs, ∀ limit, ValidLimit limit → ∃ limit', ValidLimit limit' ∧
      parseEntry limit (write x) = .ok (item x, limit'))
    (hplain : ∀ x ∈ xs, write x ≠ [] ∧ (∀ c ∈ write x, isSpace c = false) ∧ ',' ∉ write x)
    (hnodup : (xs.map fun x => (item x).1).Nodup) {limit : Nat} (hlimit : ValidLimit limit) :
    ∃ d limit', ValidLimit limit' ∧ d.items = xs.map item ∧
      parseSpec parseEntry limit (join [','] (xs.map write)) = .ok (d, limit') := by
  obtain ⟨l₁, hl₁, h₁⟩ := parseEntries_map hread
    (fun x hx => ⟨(hplain x hx).1, (hplain x hx).2.1⟩) hlimit .empty
  refine ⟨Dict.empty.setAll (xs.map item), l₁, hl₁, ?_, ?_⟩
  · exact Dict.items_setAll_empty (by simpa [Function.comp_def] using hnodup)
  · cases xs with
    | nil =>
      obtain rfl : limit = l₁ := congrArg Prod.snd (Except.ok.inj h₁)
      rfl
    | cons x xs =>
      have hjoin : join [','] ((x :: xs).map write) ≠ [] := by
        have hx := (hplain x (by simp)).1
        cases xs <;> simp [join, List.intercalate, hx]
      rw [parseSpec, if_neg hjoin, join, List.splitOn_intercalate _ _ (by simp), h₁]
      intro l hl
      obtain ⟨y, hy, rfl⟩ := List.mem_map.mp hl
      exact (hplain y hy).2.2

end Loop

/-! ## From bytes through text to bytes -/

/-- The content of a secret's two input files. -/
structure SecretFile where
  name : Text
  orig : List UInt8
  prime : List UInt8
  deriving DecidableEq, Repr

/-- The content of a public input file. -/
structure PublicFile where
  name : Text
  bytes : List UInt8
  deriving DecidableEq, Repr

/-- A file name and size the command line can carry. -/
def Sendable (name : Text) (size : Nat) : Prop :=
  isIdentifier name = true ∧ 0 < size ∧ size ≤ maxSize

/-- The specification entry of a secret. -/
def SecretFile.part (s : SecretFile) : Text :=
  secretPart s.name s.orig.length (fromBytes .big s.orig) (fromBytes .big s.prime)

/-- The specification entry of a public input. -/
def PublicFile.part (p : PublicFile) : Text :=
  publicPart p.name p.bytes.length (fromBytes .big p.bytes)

theorem decimal_spec {n : Nat} {c : Char} (hc : c ∈ decimal n) : isSpace c = false ∧ c ≠ ',' :=
  ⟨isSpace_of_plain (fun _ h => isPlain_of_mem_decimal h) c hc, fun he =>
    notMem_of_plain (fun _ h => isPlain_of_mem_decimal h) (by decide) (he ▸ hc)⟩

/-- A written entry is not blank, and survives stripping and the comma. -/
theorem written_spec {name : Text} (hname : isIdentifier name = true) (size : Nat) (values : Text)
    (hvalues : ∀ c ∈ values, isSpace c = false ∧ c ≠ ',') {t : Text}
    (ht : t = name ++ ':' :: (decimal size ++ '=' :: values)) :
    t ≠ [] ∧ (∀ c ∈ t, isSpace c = false) ∧ ',' ∉ t := by
  have hplain : ∀ c ∈ name, isPlain c = true := fun c hc => isPlain_of_isIdentifier hname hc
  have hall : ∀ c ∈ t, isSpace c = false ∧ c ≠ ',' := by
    intro c hc
    simp only [ht, List.mem_append, List.mem_cons] at hc
    rcases hc with hc | rfl | hc | rfl | hc
    · exact ⟨isSpace_of_plain hplain c hc, fun he => notMem_of_plain hplain (by decide) (he ▸ hc)⟩
    · decide
    · exact decimal_spec hc
    · decide
    · exact hvalues c hc
  exact ⟨by simp [ht], fun c hc => (hall c hc).1, fun hc => (hall _ hc).2 rfl⟩

theorem SecretFile.part_spec {s : SecretFile} (h : isIdentifier s.name = true) :
    s.part ≠ [] ∧ (∀ c ∈ s.part, isSpace c = false) ∧ ',' ∉ s.part := by
  refine written_spec h _ (decimal _ ++ '/' :: decimal _) (fun c hc => ?_) rfl
  simp only [List.mem_append, List.mem_cons] at hc
  rcases hc with hc | rfl | hc
  · exact decimal_spec hc
  · decide
  · exact decimal_spec hc

theorem PublicFile.part_spec {p : PublicFile} (h : isIdentifier p.name = true) :
    p.part ≠ [] ∧ (∀ c ∈ p.part, isSpace c = false) ∧ ',' ∉ p.part :=
  written_spec h _ _ (fun _ hc => decimal_spec hc) rfl

/-- The parsed form of a secret file. -/
def SecretFile.value (s : SecretFile) : SecretValue :=
  { size := s.orig.length, orig := fromBytes .big s.orig, prime := fromBytes .big s.prime }

/-- The parsed form of a public file. -/
def PublicFile.value (p : PublicFile) : PublicValue :=
  { size := p.bytes.length, value := fromBytes .big p.bytes }

/-- Big-endian text survives: packing the number of a byte string of an allowed
length gives the byte string, leading zeros included. -/
theorem toBytes_fromBytes_big {bs : List UInt8} {size : Nat} (hlen : bs.length = size)
    (hsize : size ≤ maxSize) : toBytes .big size (fromBytes .big bs : Nat) = some bs := by
  subst hlen
  rw [toBytes_of_lt hsize (fromBytes_lt .big bs), packBytes_fromBytes]

theorem buildSecrets_map {secrets : List SecretFile}
    (h : ∀ s ∈ secrets, s.orig.length ≤ maxSize ∧ s.prime.length = s.orig.length)
    (orig prime : Dict Text (List UInt8)) :
    buildSecrets orig prime (secrets.map fun s => (s.name, s.value)) =
      .ok (orig.setAll (secrets.map fun s => (s.name, s.orig)),
        prime.setAll (secrets.map fun s => (s.name, s.prime))) := by
  induction secrets generalizing orig prime with
  | nil => rfl
  | cons s secrets ih =>
    obtain ⟨hs, hsame⟩ := h s (by simp)
    have horig : toBytes .big s.value.size s.value.orig = some s.orig :=
      toBytes_fromBytes_big rfl hs
    have hprime : toBytes .big s.value.size s.value.prime = some s.prime :=
      toBytes_fromBytes_big hsame hs
    rw [List.map_cons, buildSecrets, horig, hprime]
    exact ih (fun t ht => h t (by simp [ht])) _ _

theorem buildPublics_map {publics : List PublicFile}
    (h : ∀ p ∈ publics, p.bytes.length ≤ maxSize) (values : Dict Text (List UInt8)) :
    buildPublics values (publics.map fun p => (p.name, p.value)) =
      .ok (values.setAll (publics.map fun p => (p.name, p.bytes))) := by
  induction publics generalizing values with
  | nil => rfl
  | cons p publics ih =>
    have hbytes : toBytes .big p.value.size p.value.value = some p.bytes :=
      toBytes_fromBytes_big rfl (h p (by simp))
    rw [List.map_cons, buildPublics, hbytes]
    exact ih (fun q hq => h q (by simp [hq])) _

/-- **Delivery**: specifications written from bytes are turned back into exactly
these bytes, under the same names in the same order, whatever digit limit the
reading process starts with. -/
theorem parseInputs_parts {limit : Nat} (hlimit : ValidLimit limit) (secrets : List SecretFile)
    (publics : List PublicFile)
    (hs : ∀ s ∈ secrets, Sendable s.name s.orig.length ∧ s.prime.length = s.orig.length)
    (hp : ∀ p ∈ publics, Sendable p.name p.bytes.length)
    (hsn : (secrets.map SecretFile.name).Nodup) (hpn : (publics.map PublicFile.name).Nodup) :
    ∃ r, parseInputs limit (join [','] (secrets.map SecretFile.part))
        (join [','] (publics.map PublicFile.part)) = .ok r ∧
      r.secretOrig.items = secrets.map (fun s => (s.name, s.orig)) ∧
      r.secretPrime.items = secrets.map (fun s => (s.name, s.prime)) ∧
      r.publicValues.items = publics.map (fun p => (p.name, p.bytes)) := by
  obtain ⟨ds, l₁, hl₁, hds, h₁⟩ := parseSpec_join parseSecretEntry SecretFile.part
    (fun s => (s.name, s.value)) secrets
    (fun s hmem limit hlim => parseSecretEntry_secretPart hlim (hs s hmem).1.1
      (hs s hmem).1.2.1 (hs s hmem).1.2.2 _ _)
    (fun s hmem => SecretFile.part_spec (hs s hmem).1.1) hsn hlimit
  obtain ⟨dp, l₂, -, hdp, h₂⟩ := parseSpec_join parsePublicEntry PublicFile.part
    (fun p => (p.name, p.value)) publics
    (fun p hmem limit hlim => parsePublicEntry_publicPart hlim (hp p hmem).1 (hp p hmem).2.1
      (hp p hmem).2.2 _)
    (fun p hmem => PublicFile.part_spec (hp p hmem).1) hpn hl₁
  have hitems : ∀ {β : Type} {xs : List β} {name : β → Text} {bytes : β → List UInt8},
      (xs.map name).Nodup → ((Dict.empty : Dict Text (List UInt8)).setAll
        (xs.map fun x => (name x, bytes x))).items = xs.map fun x => (name x, bytes x) := by
    intro β xs name bytes hn
    exact Dict.items_setAll_empty (by simpa [Function.comp_def] using hn)
  refine ⟨⟨_, _, _⟩, ?_, hitems hsn, hitems hsn, hitems hpn⟩
  unfold parseInputs parseSecretInputSpec parsePublicInputSpec
  rw [h₁]
  simp only [h₂, buildValueInputBytes, hds, hdp,
    buildSecrets_map fun s hmem => ⟨(hs s hmem).1.2.2, (hs s hmem).2⟩,
    buildPublics_map fun p hmem => (hp p hmem).2.2]
  rfl

end KleeDeps.Replay
