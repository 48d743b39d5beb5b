import Mathlib.Data.Nat.Digits.Defs
import Mathlib.Tactic.IntervalCases
import Mathlib.Tactic.Ring
import KleeDeps.Py.Text

/-!
# Python integers as text and as bytes

`int(text, 0)`, `str(n)` and `int.to_bytes` / `int.from_bytes`. The text side
follows the interpreter: `int` accepts any Unicode decimal digit, the radix
prefixes, single underscores between digits and surrounding white space, and
both directions refuse decimal text longer than the digit limit of the
process (`sys.set_int_max_str_digits`; a limit of `0` switches the guard off).

- `strInt limit n`: `str(n)` under a limit;
- `int0 limit s`: `int(s, 0)` under a limit;
- `int0_decimal`, `int0_showbaseHex`: what the printers write, the parser
  reads back;
- `toBytes`, `fromBytes`: fixed-width bytes in either byte order, with both
  round trips.
-/

namespace Py

/-! ## Digits -/

/-- The code points of the digit zero of every decimal digit block
(category `Nd`) of Unicode 15. -/
def decimalZeros : List Nat :=
  [0x30, 0x660, 0x6f0, 0x7c0, 0x966, 0x9e6, 0xa66, 0xae6, 0xb66, 0xbe6, 0xc66, 0xce6, 0xd66,
   0xde6, 0xe50, 0xed0, 0xf20, 0x1040, 0x1090, 0x17e0, 0x1810, 0x1946, 0x19d0, 0x1a80, 0x1a90,
   0x1b50, 0x1bb0, 0x1c40, 0x1c50, 0xa620, 0xa8d0, 0xa900, 0xa9d0, 0xa9f0, 0xaa50, 0xabf0,
   0xff10, 0x104a0, 0x10d30, 0x11066, 0x110f0, 0x11136, 0x111d0, 0x112f0, 0x11450, 0x114d0,
   0x11650, 0x116c0, 0x11730, 0x118e0, 0x11950, 0x11c50, 0x11d50, 0x11da0, 0x11f50, 0x16a60,
   0x16ac0, 0x16b50, 0x1d7ce, 0x1d7d8, 0x1d7e2, 0x1d7ec, 0x1d7f6, 0x1e140, 0x1e2f0, 0x1e4f0,
   0x1e950, 0x1fbf0]

/-- The value of a decimal digit of any script. -/
def decimal? (c : Char) : Option Nat :=
  (decimalZeros.find? fun z => z ≤ c.toNat && c.toNat < z + 10).map (c.toNat - ·)

/-- `int` first maps every decimal digit to its ASCII form. -/
def asciiDigit (c : Char) : Char :=
  match decimal? c with
  | some d => Nat.digitChar d
  | none => c

/-- The value of an ASCII digit in base `b`; letters count from ten. -/
def digitValue (b : Nat) (c : Char) : Option Nat :=
  let n := c.toNat
  let v := if 0x30 ≤ n ∧ n ≤ 0x39 then some (n - 0x30)
    else if 0x61 ≤ n ∧ n ≤ 0x7a then some (n - 0x61 + 10)
    else if 0x41 ≤ n ∧ n ≤ 0x5a then some (n - 0x41 + 10)
    else none
  v.filter (· < b)

/-- The digits of a literal body: at least one, with at most one underscore
between two of them. -/
def digitsOf (b : Nat) : Text → Option (List Nat)
  | [] => none
  | [c] => (digitValue b c).map ([·])
  | c :: u :: r =>
    match digitValue b c with
    | none => none
    | some d => (if u = '_' then digitsOf b r else digitsOf b (u :: r)).map (d :: ·)

/-- The number a most-significant-first digit list denotes. -/
def ofDigits (b : Nat) (ds : List Nat) : Nat := ds.foldl (fun acc d => acc * b + d) 0

theorem ofDigits_concat (b : Nat) (ds : List Nat) (d : Nat) :
    ofDigits b (ds ++ [d]) = ofDigits b ds * b + d := by
  simp [ofDigits]

/-! ## `int(text, 0)` -/

/-- Why `int` raised `ValueError`: the literal is malformed, or it has more
decimal digits than the limit of the process. -/
inductive IntError where
  | invalid
  | exceedsLimit
  deriving DecidableEq, Repr

/-- The exception, without the literal and the limit its message quotes. -/
def IntError.exc : IntError → Exc
  | .invalid => .valueError "invalid literal for int() with base 0".toList
  | .exceedsLimit => .valueError "Exceeds the limit for integer string conversion".toList

/-- The white space `int` skips itself: `str.isspace` without the ASCII
separators `0x1c`–`0x1f`. -/
def isIntSpace (c : Char) : Bool := isSpace c && !(0x1c ≤ c.toNat && c.toNat ≤ 0x1f)

/-- The sign and the unsigned rest of a literal. -/
def splitSign : Text → Bool × Text
  | '-' :: s => (true, s)
  | '+' :: s => (false, s)
  | s => (false, s)

/-- The radix prefix of an unsigned literal, if it has one, and its body; one
underscore may follow the prefix. -/
def radixPrefix : Text → Option (Nat × Text)
  | '0' :: c :: s =>
    let body := match s with
      | '_' :: r => r
      | r => r
    if c = 'x' ∨ c = 'X' then some (16, body)
    else if c = 'o' ∨ c = 'O' then some (8, body)
    else if c = 'b' ∨ c = 'B' then some (2, body)
    else none
  | _ => none

/-- The value of an unsigned literal. A decimal literal may start with a zero
only if it is zero, and is the only kind the digit limit applies to. -/
def unsigned0 (limit : Nat) (s : Text) : Except IntError Nat :=
  match radixPrefix s with
  | some (b, body) =>
    match digitsOf b body with
    | some ds => .ok (ofDigits b ds)
    | none => .error .invalid
  | none =>
    match digitsOf 10 s with
    | none => .error .invalid
    | some ds =>
      if limit ≠ 0 ∧ limit < ds.length then .error .exceedsLimit
      else if s.head? = some '0' ∧ ofDigits 10 ds ≠ 0 then .error .invalid
      else .ok (ofDigits 10 ds)

/-- The value of an unsigned decimal literal with no radix: `int(text)`. -/
def unsigned10 (limit : Nat) (s : Text) : Except IntError Nat :=
  match digitsOf 10 s with
  | none => .error .invalid
  | some ds =>
    if limit ≠ 0 ∧ limit < ds.length then .error .exceedsLimit else .ok (ofDigits 10 ds)

/-- The value of an unsigned hexadecimal literal, with or without its prefix. -/
def unsigned16 (s : Text) : Except IntError Nat :=
  let body := match radixPrefix s with
    | some (16, body) => body
    | _ => s
  match digitsOf 16 body with
  | some ds => .ok (ofDigits 16 ds)
  | none => .error .invalid

/-- A literal with white space around it, foreign digits and a sign, over a
reader for what is left. -/
def signed (unsigned : Text → Except IntError Nat) (text : Text) : Except IntError Int :=
  let t := ((text.dropWhile isIntSpace).rdropWhile isIntSpace).map asciiDigit
  match unsigned (splitSign t).2 with
  | .ok n => .ok (if (splitSign t).1 then -(n : Int) else n)
  | .error e => .error e

/-- `int(text, 0)` under a digit limit. -/
def int0 (limit : Nat) (text : Text) : Except IntError Int := signed (unsigned0 limit) text

/-- `int(text)` under a digit limit. -/
def int10 (limit : Nat) (text : Text) : Except IntError Int := signed (unsigned10 limit) text

/-- `int(text, 16)`; no digit limit applies to a power of two. -/
def int16 (text : Text) : Except IntError Int := signed unsigned16 text

/-! ## Printing -/

/-- The decimal text of a number. -/
def decimal (n : Nat) : Text := Nat.toDigits 10 n

/-- The decimal text of an integer. -/
def intText (n : Int) : Text := if n < 0 then '-' :: decimal n.natAbs else decimal n.natAbs

/-- `str(n)` for any integer: the limit counts digits, not the sign. -/
def strInt (limit : Nat) (n : Int) : Except IntError Text :=
  if limit ≠ 0 ∧ limit < (decimal n.natAbs).length then .error .exceedsLimit else .ok (intText n)

theorem strInt_natCast {limit n : Nat} (h : limit = 0 ∨ (decimal n).length ≤ limit) :
    strInt limit (n : Int) = .ok (decimal n) := by
  have hn : ¬ (limit ≠ 0 ∧ limit < (decimal n).length) := by
    rintro ⟨h0, h1⟩
    rcases h with h | h
    · exact h0 h
    · omega
  have hneg : ¬ (n : Int) < 0 := by omega
  simp [strInt, intText, hn, hneg]

/-- `f"0x{value:x}"`. -/
def hexText (value : Int) : Text :=
  '0' :: 'x' :: ((if value < 0 then ['-'] else []) ++ Nat.toDigits 16 value.natAbs)

/-- `out << std::showbase << std::hex << n`: zero has no prefix. -/
def showbaseHex (n : Nat) : Text :=
  if n = 0 then ['0'] else '0' :: 'x' :: Nat.toDigits 16 n

/-! ## What is printed is read back -/

theorem digitValue_digitChar {b d : Nat} (hb : b ≤ 16) (hd : d < b) :
    digitValue b d.digitChar = some d := by
  have h16 : d < 16 := by omega
  have hv : digitValue 16 d.digitChar = some d := by
    interval_cases d <;> decide
  unfold digitValue at hv ⊢
  simp only [Option.filter_eq_some_iff] at hv ⊢
  exact ⟨hv.1, decide_eq_true hd⟩

/-- Digit characters are neither white space, nor signs, nor separators. -/
theorem digitChar_spec {d : Nat} (hd : d < 16) :
    isSpace d.digitChar = false ∧ asciiDigit d.digitChar = d.digitChar ∧
      d.digitChar ∉ ['_', '-', '+', ',', ':', '=', '/', 'x', 'X', 'o', 'O', '\n', '\r'] := by
  interval_cases d <;> decide

/-- The characters of a printed number are digit characters of its digits. -/
theorem toDigits_eq_map {b : Nat} (hb : 1 < b) (n : Nat) :
    ∃ ds : List Nat, Nat.toDigits b n = ds.map Nat.digitChar ∧ (∀ d ∈ ds, d < b) ∧
      ds ≠ [] ∧ ofDigits b ds = n := by
  induction n using Nat.strong_induction_on with
  | _ n ih =>
    by_cases h : n < b
    · refine ⟨[n], ?_, ?_, List.cons_ne_nil _ _, ?_⟩
      · rw [Nat.toDigits_of_lt_base h]; rfl
      · simpa using h
      · simp [ofDigits]
    · have hle : b ≤ n := Nat.le_of_not_lt h
      obtain ⟨ds, hds, hlt, -, hval⟩ := ih (n / b) (Nat.div_lt_self (by omega) hb)
      refine ⟨ds ++ [n % b], ?_, ?_, by simp, ?_⟩
      · rw [Nat.toDigits_of_base_le hb hle, hds, List.map_append]
        rfl
      · intro d hd
        rcases List.mem_append.mp hd with hd | hd
        · exact hlt d hd
        · rw [List.mem_singleton.mp hd]
          exact Nat.mod_lt _ (by omega)
      · rw [ofDigits_concat, hval, Nat.mul_comm]
        exact Nat.div_add_mod n b

/-- Every character of a printed number is harmless text. -/
theorem mem_toDigits_spec {b n : Nat} (hb : 1 < b) (hb' : b ≤ 16) {c : Char}
    (hc : c ∈ Nat.toDigits b n) :
    isSpace c = false ∧ asciiDigit c = c ∧
      c ∉ ['_', '-', '+', ',', ':', '=', '/', 'x', 'X', 'o', 'O', '\n', '\r'] := by
  obtain ⟨ds, hds, hlt, -, -⟩ := toDigits_eq_map hb n
  rw [hds] at hc
  obtain ⟨d, hd, rfl⟩ := List.mem_map.mp hc
  exact digitChar_spec (by have := hlt d hd; omega)

theorem digitsOf_map {b : Nat} (hb : b ≤ 16) :
    ∀ ds : List Nat, (∀ d ∈ ds, d < b) → ds ≠ [] →
      digitsOf b (ds.map Nat.digitChar) = some ds
  | [], _, h => absurd rfl h
  | [d], hlt, _ => by
    simp [digitsOf, digitValue_digitChar hb (hlt d (by simp))]
  | d :: e :: ds, hlt, _ => by
    have he : e.digitChar ≠ '_' := fun hc =>
      (digitChar_spec (d := e) (by have := hlt e (by simp); omega)).2.2 (by simp [hc])
    have ih := digitsOf_map hb (e :: ds) (fun x hx => hlt x (by simp [hx]))
      (List.cons_ne_nil _ _)
    rw [List.map_cons] at ih
    simp [digitsOf, digitValue_digitChar hb (hlt d (by simp)), he, ih]

/-- Nothing to strip. -/
theorem signed_of_unspaced {unsigned : Text → Except IntError Nat} {s : Text}
    (hs : ∀ c ∈ s, isSpace c = false) :
    signed unsigned s =
      match unsigned (splitSign (s.map asciiDigit)).2 with
      | .ok n => .ok (if (splitSign (s.map asciiDigit)).1 then -(n : Int) else n)
      | .error e => .error e := by
  have hsp : ∀ c ∈ s, isIntSpace c = false := fun c hc => by
    simp [isIntSpace, hs c hc]
  have hdrop : s.dropWhile isIntSpace = s := by
    cases s with
    | nil => rfl
    | cons c s => simp [hsp c (by simp)]
  have hrdrop : s.rdropWhile isIntSpace = s := by
    rw [List.rdropWhile_eq_self_iff]
    intro hne
    simp [hsp _ (List.getLast_mem hne)]
  unfold signed
  rw [hdrop, hrdrop]

/-- Nothing to strip, nothing to map. -/
theorem signed_of_clean {unsigned : Text → Except IntError Nat} {s : Text}
    (hs : ∀ c ∈ s, isSpace c = false ∧ asciiDigit c = c) :
    signed unsigned s =
      match unsigned (splitSign s).2 with
      | .ok n => .ok (if (splitSign s).1 then -(n : Int) else n)
      | .error e => .error e := by
  have hmap : s.map asciiDigit = s := by
    conv_rhs => rw [← List.map_id s]
    exact List.map_congr_left fun c hc => (hs c hc).2
  rw [signed_of_unspaced fun c hc => (hs c hc).1, hmap]

/-- No sign to split off. -/
theorem splitSign_of_head {s : Text} (h : s.head? ∉ [some '-', some '+']) :
    splitSign s = (false, s) := by
  cases s with
  | nil => rfl
  | cons c s =>
    simp only [List.head?_cons, List.mem_cons, Option.some.injEq, List.not_mem_nil,
      or_false, not_or] at h
    unfold splitSign
    split
    · exact absurd (List.cons.inj ‹_›).1 h.1
    · exact absurd (List.cons.inj ‹_›).1 h.2
    · rfl

/-- `int` sees printed digits unchanged: nothing to strip, nothing to map, no
sign. -/
theorem signed_of_plain {unsigned : Text → Except IntError Nat} {s : Text}
    (hs : ∀ c ∈ s, isSpace c = false ∧ asciiDigit c = c)
    (hsign : s.head? ∉ [some '-', some '+']) :
    signed unsigned s =
      match unsigned s with
      | .ok n => .ok (n : Int)
      | .error e => .error e := by
  rw [signed_of_clean hs, splitSign_of_head hsign]
  rfl

theorem decimal_ne_nil (n : Nat) : decimal n ≠ [] := Nat.toDigits_ne_nil

/-- A printed decimal that starts with `0` is the number zero. -/
theorem decimal_head_zero {n : Nat} (h : (decimal n).head? = some '0') : n = 0 := by
  induction n using Nat.strong_induction_on with
  | _ n ih =>
    by_cases hn : n < 10
    · rw [decimal, Nat.toDigits_of_lt_base hn] at h
      interval_cases n <;> first | rfl | exact absurd h (by decide)
    · have hle : 10 ≤ n := Nat.le_of_not_lt hn
      have hq : 0 < n / 10 := Nat.div_pos hle (by decide)
      have hne : Nat.toDigits 10 (n / 10) ≠ [] := Nat.toDigits_ne_nil
      rw [decimal, Nat.toDigits_of_base_le (by decide) hle,
        List.head?_append_of_ne_nil _ hne] at h
      exact absurd (ih (n / 10) (Nat.div_lt_self (by omega) (by decide)) h) (by omega)

theorem radixPrefix_decimal (n : Nat) : radixPrefix (decimal n) = none := by
  have hmem : ∀ c ∈ decimal n, c ∉ ['_', '-', '+', ',', ':', '=', '/', 'x', 'X', 'o', 'O',
      '\n', '\r'] := fun c hc => (mem_toDigits_spec (by decide) (by decide) hc).2.2
  cases hd : decimal n with
  | nil => exact absurd hd (decimal_ne_nil n)
  | cons c s =>
    by_cases hc : c = '0'
    · -- a leading zero is the whole number, so nothing follows it
      have hz : n = 0 := decimal_head_zero (by rw [hd, hc]; rfl)
      subst hz
      have : decimal 0 = ['0'] := by decide
      rw [this] at hd
      rw [← hd]
      rfl
    · unfold radixPrefix
      split
      · exact absurd (List.cons.inj ‹_›).1 hc
      · rfl

theorem unsigned0_decimal (limit n : Nat) :
    unsigned0 limit (decimal n) =
      if limit ≠ 0 ∧ limit < (decimal n).length then .error .exceedsLimit else .ok n := by
  obtain ⟨ds, hds, hlt, hne, hval⟩ := toDigits_eq_map (b := 10) (by decide) n
  have hlen : ds.length = (decimal n).length := by rw [decimal, hds, List.length_map]
  have hdig : digitsOf 10 (decimal n) = some ds := by
    rw [decimal, hds]
    exact digitsOf_map (by decide) ds hlt hne
  have hzero : ¬ ((decimal n).head? = some '0' ∧ ofDigits 10 ds ≠ 0) := by
    rintro ⟨h0, h1⟩
    exact h1 (by rw [hval]; exact decimal_head_zero h0)
  unfold unsigned0
  rw [radixPrefix_decimal]
  simp only [hdig]
  rw [hlen, if_neg hzero, hval]

theorem unsigned10_decimal (limit n : Nat) :
    unsigned10 limit (decimal n) =
      if limit ≠ 0 ∧ limit < (decimal n).length then .error .exceedsLimit else .ok n := by
  obtain ⟨ds, hds, hlt, hne, hval⟩ := toDigits_eq_map (b := 10) (by decide) n
  have hlen : ds.length = (decimal n).length := by rw [decimal, hds, List.length_map]
  have hdig : digitsOf 10 (decimal n) = some ds := by
    rw [decimal, hds]
    exact digitsOf_map (by decide) ds hlt hne
  simp only [unsigned10, hdig, hlen, hval]

/-- A reader that knows decimal text, applied to decimal text. -/
theorem signed_decimal {unsigned : Text → Except IntError Nat} {limit n : Nat}
    (h : unsigned (decimal n) =
      if limit ≠ 0 ∧ limit < (decimal n).length then .error .exceedsLimit else .ok n) :
    signed unsigned (decimal n) =
      if limit ≠ 0 ∧ limit < (decimal n).length then .error .exceedsLimit
      else .ok (n : Int) := by
  have hspec : ∀ c ∈ decimal n, isSpace c = false ∧ asciiDigit c = c ∧
      c ∉ ['_', '-', '+', ',', ':', '=', '/', 'x', 'X', 'o', 'O', '\n', '\r'] :=
    fun c hc => mem_toDigits_spec (by decide) (by decide) hc
  have hsign : (decimal n).head? ∉ [some '-', some '+'] := by
    cases hd : decimal n with
    | nil => exact absurd hd (decimal_ne_nil n)
    | cons c s =>
      have hc := (hspec c (by rw [hd]; simp)).2.2
      simp only [List.head?_cons, List.mem_cons, Option.some.injEq, List.not_mem_nil, or_false]
      rintro (rfl | rfl) <;> simp at hc
  rw [signed_of_plain (fun c hc => ⟨(hspec c hc).1, (hspec c hc).2.1⟩) hsign, h]
  by_cases hl : limit ≠ 0 ∧ limit < (decimal n).length
  · rw [if_pos hl, if_pos hl]
  · rw [if_neg hl, if_neg hl]

/-- **Decimal round trip**: `int(_, 0)` reads back whatever `str` prints, unless
the text is longer than its limit. -/
theorem int0_decimal (limit n : Nat) :
    int0 limit (decimal n) =
      if limit ≠ 0 ∧ limit < (decimal n).length then .error .exceedsLimit
      else .ok (n : Int) :=
  signed_decimal (unsigned0_decimal limit n)

theorem int10_decimal (limit n : Nat) :
    int10 limit (decimal n) =
      if limit ≠ 0 ∧ limit < (decimal n).length then .error .exceedsLimit
      else .ok (n : Int) :=
  signed_decimal (unsigned10_decimal limit n)

/-- A reader of unsigned decimal numbers reads printed integers, too. -/
theorem signed_intText {unsigned : Text → Except IntError Nat} {limit : Nat} {n : Int}
    (h : unsigned (decimal n.natAbs) =
      if limit ≠ 0 ∧ limit < (decimal n.natAbs).length then .error .exceedsLimit
      else .ok n.natAbs) :
    signed unsigned (intText n) =
      if limit ≠ 0 ∧ limit < (decimal n.natAbs).length then .error .exceedsLimit else .ok n := by
  unfold intText
  by_cases hneg : n < 0
  · rw [if_pos hneg]
    have hclean : ∀ c ∈ '-' :: decimal n.natAbs, isSpace c = false ∧ asciiDigit c = c := by
      intro c hc
      rcases List.mem_cons.mp hc with rfl | hc
      · decide
      · have hspec := @mem_toDigits_spec 10 n.natAbs (by decide) (by decide) c hc
        exact ⟨hspec.1, hspec.2.1⟩
    rw [signed_of_clean hclean]
    simp only [splitSign, h]
    by_cases hl : limit ≠ 0 ∧ limit < (decimal n.natAbs).length
    · rw [if_pos hl, if_pos hl]
    · rw [if_neg hl, if_neg hl]
      simp only [if_true]
      congr 1
      omega
  · rw [if_neg hneg, signed_decimal h]
    by_cases hl : limit ≠ 0 ∧ limit < (decimal n.natAbs).length
    · rw [if_pos hl, if_pos hl]
    · rw [if_neg hl, if_neg hl]
      congr 1
      omega

/-- **Integer round trip**: `int` reads back whatever `str` prints, unless it has more
digits than the limit allows. -/
theorem int10_intText (limit : Nat) (n : Int) :
    int10 limit (intText n) =
      if limit ≠ 0 ∧ limit < (decimal n.natAbs).length then .error .exceedsLimit else .ok n :=
  signed_intText (unsigned10_decimal limit n.natAbs)

theorem int0_intText (limit : Nat) (n : Int) :
    int0 limit (intText n) =
      if limit ≠ 0 ∧ limit < (decimal n.natAbs).length then .error .exceedsLimit else .ok n :=
  signed_intText (unsigned0_decimal limit n.natAbs)

theorem intText_injective : Function.Injective intText := by
  intro a b hab
  have ha := int10_intText 0 a
  rw [hab, int10_intText] at ha
  simpa using ha.symm

theorem isSpace_of_mem_intText {n : Int} {c : Char} (h : c ∈ intText n) : isSpace c = false := by
  unfold intText at h
  split at h
  · rcases List.mem_cons.mp h with rfl | h
    · decide
    · exact (@mem_toDigits_spec 10 n.natAbs (by decide) (by decide) c h).1
  · exact (@mem_toDigits_spec 10 n.natAbs (by decide) (by decide) c h).1

theorem intText_ne_nil (n : Int) : intText n ≠ [] := by
  unfold intText
  split
  · exact List.cons_ne_nil _ _
  · exact decimal_ne_nil _

theorem int0_decimal_ok {limit n : Nat} (h : limit = 0 ∨ (decimal n).length ≤ limit) :
    int0 limit (decimal n) = .ok (n : Int) := by
  rw [int0_decimal, if_neg]
  rintro ⟨h0, h1⟩
  rcases h with h | h
  · exact h0 h
  · omega

/-- **Hexadecimal round trip**: the address format of a C++ stream. -/
theorem int0_showbaseHex (limit n : Nat) : int0 limit (showbaseHex n) = .ok (n : Int) := by
  unfold showbaseHex
  split
  · next h =>
    subst h
    exact int0_decimal_ok (n := 0) (Nat.eq_zero_or_pos limit)
  · obtain ⟨ds, hds, hlt, hne, hval⟩ := toDigits_eq_map (b := 16) (by decide) n
    have hspec : ∀ c ∈ '0' :: 'x' :: Nat.toDigits 16 n,
        isSpace c = false ∧ asciiDigit c = c := by
      intro c hc
      rcases List.mem_cons.mp hc with rfl | hc
      · decide
      rcases List.mem_cons.mp hc with rfl | hc
      · decide
      · have := mem_toDigits_spec (by decide) (by decide) hc
        exact ⟨this.1, this.2.1⟩
    rw [int0, signed_of_plain hspec (by simp)]
    have hbody : radixPrefix ('0' :: 'x' :: Nat.toDigits 16 n)
        = some (16, Nat.toDigits 16 n) := by
      cases hd : Nat.toDigits 16 n with
      | nil => exact absurd hd Nat.toDigits_ne_nil
      | cons c s =>
        have hc : c ≠ '_' := fun he =>
          (mem_toDigits_spec (b := 16) (by decide) (by decide) (n := n) (c := c)
            (by rw [hd]; simp)).2.2 (by simp [he])
        unfold radixPrefix
        split
        · next h1 =>
          obtain ⟨-, h2⟩ := List.cons.inj h1
          obtain ⟨rfl, rfl⟩ := List.cons.inj h2
          simp [hc]
        · next h1 => exact absurd rfl (h1 _ _)
    have hdig : digitsOf 16 (Nat.toDigits 16 n) = some ds := by
      rw [hds]
      exact digitsOf_map (by decide) ds hlt hne
    unfold unsigned0
    rw [hbody]
    simp only [hdig, hval]

/-! ## Fixed-width bytes -/

/-- The `byteorder` argument of `int.to_bytes`. -/
inductive ByteOrder where
  | little
  | big
  deriving DecidableEq, Repr

/-- The `size` low-order bytes of `v`, least significant first. -/
def leBytes : Nat → Nat → List UInt8
  | 0, _ => []
  | size + 1, v => UInt8.ofNat v :: leBytes size (v / 256)

/-- The number a least-significant-first byte list denotes. -/
def ofLeBytes : List UInt8 → Nat
  | [] => 0
  | b :: bs => b.toNat + 256 * ofLeBytes bs

/-- `v.to_bytes(size, order, signed=False)` for a value that fits. -/
def packBytes (order : ByteOrder) (size v : Nat) : List UInt8 :=
  match order with
  | .little => leBytes size v
  | .big => (leBytes size v).reverse

/-- `int.from_bytes(bs, order, signed=False)`. -/
def fromBytes (order : ByteOrder) (bs : List UInt8) : Nat :=
  match order with
  | .little => ofLeBytes bs
  | .big => ofLeBytes bs.reverse

/-- `sys.maxsize`, the longest byte string there is. -/
def maxSize : Nat := 2 ^ 63 - 1

/-- `v.to_bytes(size, order, signed=False)`: `none` is `OverflowError`, raised
for a value that does not fit and for a size beyond `sys.maxsize`. -/
def toBytes (order : ByteOrder) (size : Nat) (v : Int) : Option (List UInt8) :=
  if size ≤ maxSize ∧ 0 ≤ v ∧ v < 256 ^ size then some (packBytes order size v.toNat) else none

@[simp] theorem leBytes_length (size v : Nat) : (leBytes size v).length = size := by
  induction size generalizing v with
  | zero => rfl
  | succ size ih => rw [leBytes, List.length_cons, ih]

theorem ofLeBytes_leBytes (size v : Nat) : ofLeBytes (leBytes size v) = v % 256 ^ size := by
  induction size generalizing v with
  | zero => simp [leBytes, ofLeBytes, Nat.mod_one]
  | succ size ih =>
    rw [leBytes, ofLeBytes, ih, pow_succ', Nat.mod_mul]
    simp

theorem leBytes_ofLeBytes (bs : List UInt8) : leBytes bs.length (ofLeBytes bs) = bs := by
  induction bs with
  | nil => rfl
  | cons b bs ih =>
    have hb : b.toNat < 256 := b.toNat_lt
    have hdiv : (b.toNat + 256 * ofLeBytes bs) / 256 = ofLeBytes bs := by omega
    have hhead : UInt8.ofNat (b.toNat + 256 * ofLeBytes bs) = b := by
      apply UInt8.toNat_inj.mp
      rw [UInt8.toNat_ofNat']
      omega
    rw [List.length_cons, leBytes, ofLeBytes, hdiv, ih, hhead]

theorem ofLeBytes_lt (bs : List UInt8) : ofLeBytes bs < 256 ^ bs.length := by
  induction bs with
  | nil => simp [ofLeBytes]
  | cons b bs ih =>
    have hb : b.toNat < 256 := b.toNat_lt
    rw [ofLeBytes, List.length_cons, pow_succ']
    omega

@[simp] theorem packBytes_length (order : ByteOrder) (size v : Nat) :
    (packBytes order size v).length = size := by
  cases order <;> simp [packBytes]

theorem fromBytes_lt (order : ByteOrder) (bs : List UInt8) :
    fromBytes order bs < 256 ^ bs.length := by
  cases order with
  | little => exact ofLeBytes_lt bs
  | big => simpa [fromBytes] using ofLeBytes_lt bs.reverse

/-- Packing what was unpacked gives the bytes back, leading zeros included. -/
theorem packBytes_fromBytes (order : ByteOrder) (bs : List UInt8) :
    packBytes order bs.length (fromBytes order bs) = bs := by
  cases order with
  | little => exact leBytes_ofLeBytes bs
  | big =>
    have h := leBytes_ofLeBytes bs.reverse
    rw [List.length_reverse] at h
    simp only [packBytes, fromBytes, h, List.reverse_reverse]

/-- Unpacking what was packed gives the number back. -/
theorem fromBytes_packBytes {order : ByteOrder} {size v : Nat} (h : v < 256 ^ size) :
    fromBytes order (packBytes order size v) = v := by
  cases order with
  | little => rw [packBytes, fromBytes, ofLeBytes_leBytes, Nat.mod_eq_of_lt h]
  | big =>
    rw [packBytes, fromBytes, List.reverse_reverse, ofLeBytes_leBytes, Nat.mod_eq_of_lt h]

theorem toBytes_of_lt {order : ByteOrder} {size v : Nat} (hsize : size ≤ maxSize)
    (h : v < 256 ^ size) : toBytes order size (v : Int) = some (packBytes order size v) := by
  have hv : (v : Int) < 256 ^ size := by exact_mod_cast h
  rw [toBytes, if_pos ⟨hsize, by omega, hv⟩, Int.toNat_natCast]

/-- What `to_bytes` returns has the size asked for, and unpacking and packing it
in any order gives it back. -/
theorem toBytes_spec {order : ByteOrder} {size : Nat} {v : Int} {bs : List UInt8}
    (h : toBytes order size v = some bs) (order' : ByteOrder) :
    size ≤ maxSize ∧ bs.length = size ∧
      toBytes order' size (fromBytes order' bs : Nat) = some bs := by
  unfold toBytes at h
  split at h
  · next hv =>
    obtain rfl := Option.some.inj h
    have hlen := packBytes_length order size v.toNat
    refine ⟨hv.1, hlen, ?_⟩
    have hlt := fromBytes_lt order' (packBytes order size v.toNat)
    have hpack := packBytes_fromBytes order' (packBytes order size v.toNat)
    rw [hlen] at hlt hpack
    rw [toBytes_of_lt hv.1 hlt, hpack]
  · cases h

/-- Sizes print short: no digit limit the interpreter accepts refuses them. -/
theorem length_decimal_le_of_le_maxSize {n : Nat} (h : n ≤ maxSize) : (decimal n).length ≤ 19 := by
  rw [decimal, Nat.length_toDigits_le_iff (by decide) (by decide)]
  unfold maxSize at h
  omega

end Py
