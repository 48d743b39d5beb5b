import Mathlib.Data.Nat.Size
import KleeDeps.Py.Int

/-!
# The values of a combined JSON file

`_encode_json_value` and `_decode_json_value` of `tools/shared/common.py`. A combined JSON file
is read by programs that convert integers to decimal text, which Python refuses beyond a few
thousand digits; so integers of more than 4096 bits are stored as tagged hexadecimal strings.

- `decode_encode`: what can be told from a tagged integer comes back unchanged;
- `jsonLike_decode`: a decoded payload is of this kind;
- `combined_json_lossless`: **both together, for every JSON-like value and every payload**.
-/

namespace KleeDeps.Shared

open Py

namespace CombinedJson

/-- The Python values that occur. A float is given by its `repr`, the keys of a dictionary are
strings and distinct. -/
inductive Object where
  | none
  | bool (b : Bool)
  | int (n : Int)
  | float (literal : Text)
  | str (s : Text)
  | list (xs : List Object)
  | tuple (xs : List Object)
  | dict (items : List (Text × Object))
  /-- `pd.NA` -/
  | na
  /-- an object with a method `item` that returns this, or raises -/
  | scalar (item : Option Object) (isna : Bool)

def bigintHexPrefix : Text := "__combined_json_bigint_hex__:".toList

def bigintHexThresholdBits : Nat := 4096

/-- `abs(n).bit_length()` -/
def bitLength (n : Int) : Nat := Nat.size n.natAbs

/-! ### Decoding -/

/-- The integer of a tag, unless `int(payload, 16)` raises `ValueError`. -/
def bigintPayload (payload : Text) : Option Int :=
  let negative : Bool := payload.head? = some '-'
  let payload := if negative then payload.tail else payload
  if payload = [] then none
  else
    match int16 payload with
    | .error _ => none
    | .ok decoded => some (if negative then -decoded else decoded)

/-- A string is returned unchanged, if it is no tagged integer. -/
def decodeStr (s : Text) : Object :=
  if bigintHexPrefix.isPrefixOf s then
    match bigintPayload (s.drop bigintHexPrefix.length) with
    | none => .str s
    | some decoded => .int decoded
  else .str s

mutual

/-- `_decode_json_value` -/
def decode : Object → Object
  | .dict items => .dict (decodeItems items)
  | .list xs => .list (decodeList xs)
  | .str s => decodeStr s
  | .none => .none
  | .bool b => .bool b
  | .int n => .int n
  | .float literal => .float literal
  | .tuple xs => .tuple xs
  | .na => .na
  | .scalar item isna => .scalar item isna

def decodeList : List Object → List Object
  | [] => []
  | x :: xs => decode x :: decodeList xs

def decodeItems : List (Text × Object) → List (Text × Object)
  | [] => []
  | (key, x) :: items => (key, decode x) :: decodeItems items

end

/-! ### Encoding -/

/-- `pd.isna`, of a single value. -/
def isna : Object → Bool
  | .none | .na => true
  | .float literal => literal = "nan".toList
  | .scalar _ isna => isna
  | _ => false

/-- The text of a large integer. -/
def tagged (n : Int) : Text :=
  bigintHexPrefix ++ (if n < 0 then ['-'] else []) ++ Nat.toDigits 16 n.natAbs

/-- The end of `_encode_json_value`. -/
def encodeScalar : Object → Object
  | .int n => if bitLength n > bigintHexThresholdBits then .str (tagged n) else .int n
  | value => if isna value then .none else value

mutual

/-- `_encode_json_value` -/
def encode : Object → Object
  | .na => .none
  | .dict items => .dict (encodeItems items)
  | .list xs => .list (encodeList xs)
  | .tuple xs => .list (encodeList xs)
  | .scalar (some value) _ => encodeScalar value
  | .scalar .none isna => encodeScalar (.scalar .none isna)
  | .none => encodeScalar .none
  | .bool b => encodeScalar (.bool b)
  | .int n => encodeScalar (.int n)
  | .float literal => encodeScalar (.float literal)
  | .str s => encodeScalar (.str s)

def encodeList : List Object → List Object
  | [] => []
  | x :: xs => encode x :: encodeList xs

def encodeItems : List (Text × Object) → List (Text × Object)
  | [] => []
  | (key, x) :: items => (key, encode x) :: encodeItems items

end

/-- JSON-like values whose strings meet a condition; floats are finite, or infinite. -/
inductive JsonLike (ok : Text → Prop) : Object → Prop
  | none : JsonLike ok .none
  | bool (b : Bool) : JsonLike ok (.bool b)
  | int (n : Int) : JsonLike ok (.int n)
  | float {literal : Text} (h : literal ≠ "nan".toList) : JsonLike ok (.float literal)
  | str {s : Text} (h : ok s) : JsonLike ok (.str s)
  | list {xs : List Object} (h : ∀ x ∈ xs, JsonLike ok x) : JsonLike ok (.list xs)
  | dict {items : List (Text × Object)} (h : ∀ p ∈ items, JsonLike ok p.2) :
    JsonLike ok (.dict items)

/-- The string does not start with the tag. -/
def Untagged (s : Text) : Prop := bigintHexPrefix.isPrefixOf s = false

mutual

/-- The integers left as numbers. -/
def numbers : Object → List Int
  | .int n => [n]
  | .list xs => numbersList xs
  | .tuple xs => numbersList xs
  | .dict items => numbersItems items
  | .scalar (some value) _ => numbers value
  | .scalar .none _ => []
  | .none | .bool _ | .float _ | .str _ | .na => []

def numbersList : List Object → List Int
  | [] => []
  | x :: xs => numbers x ++ numbersList xs

def numbersItems : List (Text × Object) → List Int
  | [] => []
  | (_, x) :: items => numbers x ++ numbersItems items

end

/-! ### Containers -/

theorem decodeList_eq (xs : List Object) : decodeList xs = xs.map decode := by
  induction xs with
  | nil => rfl
  | cons x xs ih => exact congrArg (decode x :: ·) ih

theorem decodeItems_eq (items : List (Text × Object)) :
    decodeItems items = items.map fun p => (p.1, decode p.2) := by
  induction items with
  | nil => rfl
  | cons p items ih => exact congrArg ((p.1, decode p.2) :: ·) ih

theorem encodeList_eq (xs : List Object) : encodeList xs = xs.map encode := by
  induction xs with
  | nil => rfl
  | cons x xs ih => exact congrArg (encode x :: ·) ih

theorem encodeItems_eq (items : List (Text × Object)) :
    encodeItems items = items.map fun p => (p.1, encode p.2) := by
  induction items with
  | nil => rfl
  | cons p items ih => exact congrArg ((p.1, encode p.2) :: ·) ih

theorem mem_numbersList {n : Int} {xs : List Object} (h : n ∈ numbersList xs) :
    ∃ x ∈ xs, n ∈ numbers x := by
  induction xs with
  | nil => exact absurd h List.not_mem_nil
  | cons x xs ih =>
    rcases List.mem_append.mp h with hx | hxs
    · exact ⟨x, List.mem_cons_self, hx⟩
    · obtain ⟨y, hy, hn⟩ := ih hxs
      exact ⟨y, List.mem_cons_of_mem x hy, hn⟩

theorem mem_numbersItems {n : Int} {items : List (Text × Object)} (h : n ∈ numbersItems items) :
    ∃ p ∈ items, n ∈ numbers p.2 := by
  induction items with
  | nil => exact absurd h List.not_mem_nil
  | cons p items ih =>
    rcases List.mem_append.mp h with hp | hitems
    · exact ⟨p, List.mem_cons_self, hp⟩
    · obtain ⟨q, hq, hn⟩ := ih hitems
      exact ⟨q, List.mem_cons_of_mem p hq, hn⟩

/-! ### Tagged integers -/

theorem plain_of_mem_toDigits {n : Nat} {c : Char} (hc : c ∈ Nat.toDigits 16 n) :
    (isSpace c = false ∧ asciiDigit c = c) ∧ c ≠ '-' ∧ c ≠ '+' ∧ c ≠ 'x' ∧ c ≠ 'X' := by
  obtain ⟨hspace, hascii, hnot⟩ := mem_toDigits_spec (b := 16) (by decide) (by decide) hc
  refine ⟨⟨hspace, hascii⟩, ?_, ?_, ?_, ?_⟩ <;>
  · rintro rfl
    exact hnot (by decide)

theorem radixPrefix_toDigits (n : Nat) (body : Text) :
    radixPrefix (Nat.toDigits 16 n) ≠ some (16, body) := by
  intro h
  unfold radixPrefix at h
  split at h
  · rename_i c rest hdigits
    have hc : c ∈ Nat.toDigits 16 n := hdigits ▸ List.mem_cons_of_mem _ List.mem_cons_self
    obtain ⟨-, -, -, hx, hX⟩ := plain_of_mem_toDigits hc
    rw [if_neg (by rintro (h | h); exacts [hx h, hX h])] at h
    -- the other prefixes are hexadecimal digits
    split_ifs at h
    · have hbase : (8 : Nat) = 16 := (Prod.mk.inj (Option.some.inj h)).1
      omega
    · have hbase : (2 : Nat) = 16 := (Prod.mk.inj (Option.some.inj h)).1
      omega
  · cases h

/-- `int(text, 16)` reads what `format(n, "x")` prints. -/
theorem int16_toDigits (n : Nat) : int16 (Nat.toDigits 16 n) = .ok (n : Int) := by
  obtain ⟨ds, hds, hlt, hne, hval⟩ := toDigits_eq_map (b := 16) (by decide) n
  have hsign : (Nat.toDigits 16 n).head? ∉ [some '-', some '+'] := by
    intro hmem
    rcases List.mem_cons.mp hmem with h | hmem
    · exact (plain_of_mem_toDigits (List.mem_of_mem_head? h)).2.1 rfl
    · exact (plain_of_mem_toDigits (List.mem_of_mem_head? (List.mem_singleton.mp hmem))).2.2.1 rfl
  have hdigits : digitsOf 16 (Nat.toDigits 16 n) = some ds := by
    rw [hds]
    exact digitsOf_map (by decide) ds hlt hne
  have hunsigned : unsigned16 (Nat.toDigits 16 n) = .ok n := by
    unfold unsigned16
    split
    · exact absurd ‹_› (radixPrefix_toDigits n _)
    · simp only [hdigits, hval]
  rw [int16, signed_of_plain (fun c hc => (plain_of_mem_toDigits hc).1) hsign, hunsigned]

theorem decodeStr_of_untagged {s : Text} (h : Untagged s) : decodeStr s = .str s := by
  have h : bigintHexPrefix.isPrefixOf s = false := h
  rw [decodeStr, h]
  rfl

/-- A string is kept, or is an integer. -/
theorem decodeStr_cases (s : Text) : decodeStr s = .str s ∨ ∃ n, decodeStr s = .int n := by
  rw [decodeStr]
  split
  · split
    · exact .inl rfl
    · exact .inr ⟨_, rfl⟩
  · exact .inl rfl

theorem bigintPayload_digits (n : Nat) : bigintPayload (Nat.toDigits 16 n) = some (n : Int) := by
  have hhead : (Nat.toDigits 16 n).head? ≠ some '-' := fun h =>
    (plain_of_mem_toDigits (List.mem_of_mem_head? h)).2.1 rfl
  have hne : Nat.toDigits 16 n ≠ [] := Nat.toDigits_ne_nil
  simp only [bigintPayload, decide_eq_false hhead, Bool.false_eq_true, if_false, if_neg hne,
    int16_toDigits]

theorem bigintPayload_negative (n : Nat) :
    bigintPayload ('-' :: Nat.toDigits 16 n) = some (-(n : Int)) := by
  have hne : Nat.toDigits 16 n ≠ [] := Nat.toDigits_ne_nil
  simp only [bigintPayload, List.head?_cons, decide_true, if_true, List.tail_cons, if_neg hne,
    int16_toDigits]

theorem decodeStr_tagged (n : Int) : decodeStr (tagged n) = .int n := by
  have hprefix : bigintHexPrefix.isPrefixOf (tagged n) = true := by
    rw [List.isPrefixOf_iff_prefix, tagged, List.append_assoc]
    exact List.prefix_append _ _
  have hpayload : bigintPayload ((tagged n).drop bigintHexPrefix.length) = some n := by
    rw [tagged, List.append_assoc, List.drop_left]
    by_cases hn : n < 0
    · rw [if_pos hn]
      refine (bigintPayload_negative n.natAbs).trans (congrArg some ?_)
      omega
    · rw [if_neg hn]
      refine (bigintPayload_digits n.natAbs).trans (congrArg some ?_)
      omega
  rw [decodeStr, if_pos hprefix, hpayload]

/-! ### Whole values -/

theorem encode_float {literal : Text} (h : literal ≠ "nan".toList) :
    encode (.float literal) = .float literal := if_neg fun hnan => h (of_decide_eq_true hnan)

/-- What can be told from a tagged integer comes back unchanged. -/
theorem decode_encode {v : Object} (h : JsonLike (fun s => decodeStr s = .str s) v) :
    decode (encode v) = v := by
  induction h with
  | none => rfl
  | bool b => rfl
  | int n =>
    show decode (encodeScalar (.int n)) = _
    rw [encodeScalar]
    -- an integer above the threshold travels as a tagged text
    split
    · exact decodeStr_tagged n
    · rfl
  | float hnan =>
    rw [encode_float hnan]
    rfl
  | str hs => exact hs
  | @list xs _ ih =>
    show Object.list (decodeList (encodeList xs)) = _
    rw [encodeList_eq, decodeList_eq, List.map_map]
    refine congrArg Object.list ?_
    calc xs.map (decode ∘ encode) = xs.map id := List.map_congr_left ih
      _ = xs := List.map_id xs
  | @dict items _ ih =>
    show Object.dict (decodeItems (encodeItems items)) = _
    rw [encodeItems_eq, decodeItems_eq, List.map_map]
    refine congrArg Object.dict ?_
    calc items.map ((fun p => (p.1, decode p.2)) ∘ fun p => (p.1, encode p.2))
      _ = items.map id := List.map_congr_left fun p hp => Prod.ext rfl (ih p hp)
      _ = items := List.map_id items

/-- A decoded payload holds no string that would be decoded again. -/
theorem jsonLike_decode {p : Object} (h : JsonLike (fun _ => True) p) :
    JsonLike (fun s => decodeStr s = .str s) (decode p) := by
  induction h with
  | none => exact .none
  | bool b => exact .bool b
  | int n => exact .int n
  | float hnan => exact .float hnan
  | @str s _ =>
    show JsonLike _ (decodeStr s)
    rcases decodeStr_cases s with hs | ⟨n, hn⟩
    · rw [hs]
      exact .str hs
    · rw [hn]
      exact .int n
  | @list xs _ ih =>
    show JsonLike _ (.list (decodeList xs))
    rw [decodeList_eq]
    refine .list fun x hx => ?_
    obtain ⟨y, hy, rfl⟩ := List.mem_map.mp hx
    exact ih y hy
  | @dict items _ ih =>
    show JsonLike _ (.dict (decodeItems items))
    rw [decodeItems_eq]
    refine .dict fun p hp => ?_
    obtain ⟨q, hq, rfl⟩ := List.mem_map.mp hp
    exact ih q hq

theorem JsonLike.mono {ok ok' : Text → Prop} (hok : ∀ s, ok s → ok' s) {v : Object}
    (h : JsonLike ok v) : JsonLike ok' v := by
  induction h with
  | none => exact .none
  | bool b => exact .bool b
  | int n => exact .int n
  | float hnan => exact .float hnan
  | str hs => exact .str (hok _ hs)
  | list _ ih => exact .list ih
  | dict _ ih => exact .dict ih

/-- An integer is left as a number only within the threshold. -/
theorem bitLength_of_mem_numbers {ok : Text → Prop} {v : Object} (h : JsonLike ok v) {n : Int}
    (hn : n ∈ numbers (encode v)) : bitLength n ≤ bigintHexThresholdBits := by
  induction h with
  | none => exact absurd hn List.not_mem_nil
  | bool b => exact absurd hn List.not_mem_nil
  | int m =>
    have hn : n ∈ numbers (encodeScalar (.int m)) := hn
    rw [encodeScalar] at hn
    split at hn
    · exact absurd hn List.not_mem_nil
    · rw [List.mem_singleton.mp hn]
      exact Nat.le_of_not_gt ‹_›
  | float hnan =>
    rw [encode_float hnan] at hn
    exact absurd hn List.not_mem_nil
  | str hs => exact absurd hn List.not_mem_nil
  | @list xs _ ih =>
    obtain ⟨x, hx, hn⟩ := mem_numbersList hn
    rw [encodeList_eq] at hx
    obtain ⟨y, hy, rfl⟩ := List.mem_map.mp hx
    exact ih y hy hn
  | @dict items _ ih =>
    obtain ⟨p, hp, hn⟩ := mem_numbersItems hn
    rw [encodeItems_eq] at hp
    obtain ⟨q, hq, rfl⟩ := List.mem_map.mp hp
    exact ih q hq hn

/-- **The combined encoding is lossless**: a value without tagged strings comes back, no number
in its encoding exceeds the threshold, and the encoding is what a decoded payload is encoded to
again; this last holds of every payload, tagged strings included. -/
theorem combined_json_lossless {v payload : Object} (hv : JsonLike Untagged v)
    (hpayload : JsonLike (fun _ => True) payload) :
    decode (encode v) = v ∧
      (∀ n ∈ numbers (encode v), bitLength n ≤ bigintHexThresholdBits) ∧
      encode (decode (encode v)) = encode v ∧
      encode (decode (encode (decode payload))) = encode (decode payload) := by
  have hround := decode_encode (hv.mono fun _ hs => decodeStr_of_untagged hs)
  refine ⟨hround, fun n hn => bitLength_of_mem_numbers hv hn, ?_, ?_⟩
  · rw [hround]
  · rw [decode_encode (jsonLike_decode hpayload)]

/-- A string of digits without the tag, and a payload with a small integer under one. -/
theorem combined_json_lossless_tagged :
    decode (encode (.list [.int (-5), .str "12".toList])) = .list [.int (-5), .str "12".toList] ∧
      encode (decode (encode (decode (.str (bigintHexPrefix ++ "-1f".toList))))) =
        encode (decode (.str (bigintHexPrefix ++ "-1f".toList))) := by
  have hv : JsonLike Untagged (.list [.int (-5), .str "12".toList]) := by
    refine .list fun x hx => ?_
    rcases List.mem_cons.mp hx with rfl | hx
    · exact .int (-5)
    · rw [List.mem_singleton.mp hx]
      exact .str (by unfold Untagged; decide)
  have h := combined_json_lossless hv (.str (s := bigintHexPrefix ++ "-1f".toList) trivial)
  exact ⟨h.1, h.2.2.2⟩

end CombinedJson

end KleeDeps.Shared
