import Mathlib.Algebra.BigOperators.Group.List.Basic
import Mathlib.Algebra.Ring.Nat
import KleeDeps.Postprocess.VerificationTimings
import KleeDeps.Py.Digits

/-!
# Durations

`duration_to_seconds` of `scripts/experiments/common.py`, and `_format_duration` of
`merge_verification_timings.py`, which prints what it reads. A string of digits is a number of
seconds; any other one is scanned for amounts with a unit, from the left and up to its end.

- `scan_iff`: the scan succeeds exactly on sequences of amounts with units;
- `duration_iff`: **the parser accepts its grammar**;
- `duration_formatDuration`: **and reads every printed duration back**.
-/

namespace KleeDeps.Experiments

open Py Regex Postprocess

namespace Durations

/-! ### The program -/

/-- `[hmsHMS]` -/
def units : Text := "hmsHMS".toList

def unitRe : Regex :=
  units.foldr (fun unit r => .alt (.lit [unit]) r) (.look fun _ => false)

/-- `_DURATION_TOKEN_RE` -/
def durationTokenRe : Regex :=
  .seq (.group "amount".toList (.many isDecimal 1 true)) (.group "unit".toList unitRe)

/-- `match.group("amount")`, `match.group("unit")`, and the text behind the match. -/
structure Token where
  amount : Text
  unit : Text
  rest : Text

/-- `_DURATION_TOKEN_RE.match(text, position)`, on the text from the position on. -/
def nextToken (text : Text) : Option Token :=
  (matchAt durationTokenRe text).head?.map fun m =>
    { amount := (get m.1 "amount".toList).getD []
      unit := (get m.1 "unit".toList).getD []
      rest := m.2 }

/-- `multipliers` -/
def multipliers : Dict Text Nat :=
  ((Dict.empty.set ['h'] 3600).set ['m'] 60).set ['s'] 1

def notPositive (location : Text) : Exc :=
  .valueError (location ++ " must be a positive duration".toList)

/-- `total_seconds += int(amount) * multipliers[unit.lower()]` -/
def addToken (limit : Nat) (total : Int) (token : Token) : Except Exc Int :=
  match int10 limit token.amount with
  | .error e => .error e.exc
  | .ok amount =>
    match multipliers.get? (token.unit.map Char.toLower) with
    | none => .error (.keyError (token.unit.map Char.toLower))
    | some multiplier => .ok (total + amount * multiplier)

theorem mem_unitRe {s : Text} {m : Captures × Text} :
    m ∈ matchAt unitRe s ↔ m.1 = [] ∧ ∃ unit ∈ units, s = unit :: m.2 := by
  have hclass : ∀ us : Text,
      m ∈ matchAt (us.foldr (fun unit r => .alt (.lit [unit]) r) (.look fun _ => false)) s ↔
        m.1 = [] ∧ ∃ unit ∈ us, s = unit :: m.2 := by
    intro us
    induction us with
    | nil => simp
    | cons u us ih =>
      show m ∈ matchAt (.lit [u]) s ++ matchAt _ s ↔ _
      rw [List.mem_append, ih, mem_matchAt_lit]
      simp only [List.mem_cons, exists_eq_or_imp, List.singleton_append]
      tauto
  exact hclass units

/-- A unit is no digit, so an amount ends in front of the first one. -/
theorem isDecimal_unit : ∀ unit ∈ units, isDecimal unit = false := by
  have hall : units.all (fun unit => !isDecimal unit) = true := rfl
  simpa using hall

theorem mem_durationTokenRe {s : Text} {m : Captures × Text} :
    m ∈ matchAt durationTokenRe s ↔
      ∃ amount unit, amount ≠ [] ∧ (∀ c ∈ amount, isDecimal c = true) ∧ unit ∈ units ∧
        s = amount ++ unit :: m.2 ∧
        m.1 = [("amount".toList, amount), ("unit".toList, [unit])] := by
  rw [durationTokenRe, mem_matchAt_seq]
  constructor
  · rintro ⟨m₁, h₁, m₂, h₂, rfl⟩
    obtain ⟨amount, hs, hm₁, hdecimal, hleast⟩ := mem_matchAt_group_many.mp h₁
    obtain ⟨m', h', w, hw, rfl⟩ := mem_matchAt_group.mp h₂
    obtain ⟨hnil, unit, hunit, hrest⟩ := mem_unitRe.mp h'
    have hone : w = [unit] := List.append_cancel_right (hw.symm.trans hrest)
    refine ⟨amount, unit, List.length_pos_iff.mp hleast, hdecimal, hunit, ?_, ?_⟩
    · rw [hs, hrest]
    · rw [hm₁, hnil, hone]
      rfl
  · rintro ⟨amount, unit, hne, hdecimal, hunit, hs, hm⟩
    refine ⟨([("amount".toList, amount)], unit :: m.2), ?_, ([("unit".toList, [unit])], m.2),
      ?_, ?_⟩
    · exact mem_matchAt_group_many.mpr ⟨amount, hs, rfl, hdecimal, List.length_pos_iff.mpr hne⟩
    · exact mem_matchAt_group.mpr
        ⟨([], m.2), mem_unitRe.mpr ⟨rfl, unit, hunit, rfl⟩, [unit], rfl, rfl⟩
    · exact Prod.ext hm rfl

/-- There is at most one way to read an amount and its unit. -/
theorem amount_unique {amount amount' : Text} {unit unit' : Char} {rest rest' : Text}
    (h : ∀ c ∈ amount, isDecimal c = true) (h' : ∀ c ∈ amount', isDecimal c = true)
    (hunit : unit ∈ units) (hunit' : unit' ∈ units)
    (heq : amount ++ unit :: rest = amount' ++ unit' :: rest') :
    amount = amount' ∧ unit = unit' ∧ rest = rest' := by
  induction amount generalizing amount' with
  | nil =>
    cases amount' with
    | nil => exact ⟨rfl, List.cons.inj heq⟩
    | cons c amount' =>
      have hdecimal := h' c List.mem_cons_self
      rw [← (List.cons.inj heq).1, isDecimal_unit unit hunit] at hdecimal
      cases hdecimal
  | cons c amount ih =>
    cases amount' with
    | nil =>
      have hdecimal := h c List.mem_cons_self
      rw [(List.cons.inj heq).1, isDecimal_unit unit' hunit'] at hdecimal
      cases hdecimal
    | cons c' amount' =>
      obtain ⟨rfl, hrest⟩ := List.cons.inj heq
      obtain ⟨rfl, hsame⟩ := ih (fun x hx => h x (List.mem_cons_of_mem _ hx))
        (fun x hx => h' x (List.mem_cons_of_mem _ hx)) hrest
      exact ⟨rfl, hsame⟩

theorem nextToken_eq_some_iff {text : Text} {token : Token} :
    nextToken text = some token ↔
      ∃ unit, token.amount ≠ [] ∧ (∀ c ∈ token.amount, isDecimal c = true) ∧ unit ∈ units ∧
        token.unit = [unit] ∧ text = token.amount ++ unit :: token.rest := by
  constructor
  · intro h
    obtain ⟨m, hm, rfl⟩ := Option.map_eq_some_iff.mp h
    obtain ⟨amount, unit, hne, hdecimal, hunit, hs, hcaptures⟩ :=
      mem_durationTokenRe.mp (List.mem_of_mem_head? hm)
    have hamount : (get m.1 "amount".toList).getD [] = amount := by rw [hcaptures]; rfl
    have hunits : (get m.1 "unit".toList).getD [] = [unit] := by rw [hcaptures]; rfl
    refine ⟨unit, ?_⟩
    dsimp only
    rw [hamount, hunits]
    exact ⟨hne, hdecimal, hunit, rfl, hs⟩
  · rintro ⟨unit, hne, hdecimal, hunit, hone, hs⟩
    obtain ⟨amount, units', rest⟩ := token
    dsimp only at hne hdecimal hone hs
    subst hone
    have hmem : ([("amount".toList, amount), ("unit".toList, [unit])], rest) ∈
        matchAt durationTokenRe text :=
      mem_durationTokenRe.mpr ⟨amount, unit, hne, hdecimal, hunit, hs, rfl⟩
    cases hmatches : matchAt durationTokenRe text with
    | nil =>
      rw [hmatches] at hmem
      exact absurd hmem List.not_mem_nil
    | cons first others =>
      -- every match is this one
      obtain ⟨amount', unit', -, hdecimal', hunit', hs', hcaptures⟩ :=
        mem_durationTokenRe.mp (hmatches ▸ List.mem_cons_self : first ∈ matchAt durationTokenRe text)
      obtain ⟨rfl, rfl, hrest⟩ := amount_unique hdecimal hdecimal' hunit hunit' (hs.symm.trans hs')
      rw [nextToken, hmatches, List.head?_cons, Option.map_some, hcaptures, ← hrest]
      rfl

theorem length_rest_lt {text : Text} {token : Token} (h : nextToken text = some token) :
    token.rest.length < text.length := by
  obtain ⟨unit, -, -, -, -, rfl⟩ := nextToken_eq_some_iff.mp h
  rw [List.length_append, List.length_cons]
  omega

/-- The loop of `duration_to_seconds`. -/
def scan (limit : Nat) (location : Text) (total : Int) (text : Text) : Except Exc Int :=
  if text = [] then .ok total
  else
    match _h : nextToken text with
    | none => .error (.valueError
        (location ++ " must use h/m/s suffixes like '1m', '4h', or '2h30m'".toList))
    | some token =>
      match addToken limit total token with
      | .error e => .error e
      | .ok total => scan limit location total token.rest
termination_by text.length
decreasing_by exact length_rest_lt _h

/-- `value.strip().replace(" ", "")` -/
def cleaned (s : Text) : Text := (strip s).filter (· ≠ ' ')

/-- The seconds of a text, by `int` if it consists of digits. -/
def secondsOf (limit : Nat) (location text : Text) : Except Exc Int :=
  if isdigit text then (int10 limit text).mapError IntError.exc
  else scan limit location 0 text

/-- `duration_to_seconds`; both ways to read a string end in the same test. -/
def durationToSeconds (limit : Nat) (value : Value) (location : Text) : Except Exc Int :=
  match value with
  | .bool _ => .error (notPositive location)
  | .int n => if n ≤ 0 then .error (notPositive location) else .ok n
  | .str s =>
    if strip s = [] then .error (.valueError (location ++
      " must be a non-empty duration string like '60', '1m', or '2h30m'".toList))
    else
      match secondsOf limit location (cleaned s) with
      | .error e => .error e
      | .ok seconds => if seconds ≤ 0 then .error (notPositive location) else .ok seconds
  | _ => .error (.valueError (location ++
      " must be a non-empty duration string like '60', '1m', or '2h30m'".toList))

/-! ### The grammar -/

/-- The seconds of a unit. -/
def unitSeconds (unit : Char) : Nat :=
  if unit = 'h' ∨ unit = 'H' then 3600 else if unit = 'm' ∨ unit = 'M' then 60 else 1

/-- A digit string followed by a unit. -/
structure Part where
  digits : Text
  unit : Char
  nonempty : digits ≠ []
  decimals : ∀ c ∈ digits, isDecimal c = true
  isUnit : unit ∈ units

def Part.text (part : Part) : Text := part.digits ++ [part.unit]

def Part.seconds (part : Part) : Nat := decimalValue part.digits * unitSeconds part.unit

/-- The seconds of a text of the grammar. -/
inductive Denotes : Text → Nat → Prop
  | plain {text : Text} (hne : text ≠ []) (hdecimals : ∀ c ∈ text, isDecimal c = true) :
    Denotes text (decimalValue text)
  | parts {parts : List Part} (hne : parts ≠ []) :
    Denotes (parts.flatMap Part.text) (parts.map Part.seconds).sum

/-! ### The scan -/

theorem get?_multipliers : ∀ unit ∈ units,
    multipliers.get? ([unit].map Char.toLower) = some (unitSeconds unit) := by
  have hall : units.all (fun unit =>
      multipliers.get? ([unit].map Char.toLower) == some (unitSeconds unit)) = true := rfl
  exact fun unit hunit => beq_iff_eq.mp (List.all_eq_true.mp hall unit hunit)

theorem addToken_part (total : Int) (part : Part) (rest : Text) :
    addToken 0 total ⟨part.digits, [part.unit], rest⟩ = .ok (total + part.seconds) := by
  rw [addToken, int10_of_decimals part.nonempty part.decimals]
  simp only [get?_multipliers part.unit part.isUnit]
  rw [Part.seconds, Nat.cast_mul]

theorem scan_nil (location : Text) (total : Int) : scan 0 location total [] = .ok total := by
  rw [scan, if_pos rfl]

/-- **Step lemma**: one part is taken off. -/
theorem scan_part (location : Text) (total : Int) (part : Part) (rest : Text) :
    scan 0 location total (part.text ++ rest) =
      scan 0 location (total + part.seconds) rest := by
  have htext : part.text ++ rest = part.digits ++ part.unit :: rest := by
    rw [Part.text, List.append_assoc]
    rfl
  have hnext : nextToken (part.text ++ rest) = some ⟨part.digits, [part.unit], rest⟩ :=
    nextToken_eq_some_iff.mpr
      ⟨part.unit, part.nonempty, part.decimals, part.isUnit, rfl, htext⟩
  have hne : part.text ++ rest ≠ [] := by
    rw [htext]
    exact List.append_ne_nil_of_right_ne_nil _ (List.cons_ne_nil _ _)
  rw [scan, if_neg hne]
  split
  · rename_i hnone
    cases hnone.symm.trans hnext
  · rename_i token htoken
    obtain rfl := Option.some.inj (htoken.symm.trans hnext)
    rw [addToken_part]

theorem scan_parts (location : Text) (parts : List Part) (total : Int) :
    scan 0 location total (parts.flatMap Part.text) =
      .ok (total + (parts.map Part.seconds).sum) := by
  induction parts generalizing total with
  | nil => exact (scan_nil location total).trans (congrArg _ (by simp))
  | cons part parts ih =>
    rw [List.flatMap_cons, scan_part, ih, List.map_cons, List.sum_cons, Nat.cast_add, add_assoc]

/-- The scan succeeds on sequences of parts only. -/
theorem scan_iff {location text : Text} {total n : Int} :
    scan 0 location total text = .ok n ↔
      ∃ parts : List Part, text = parts.flatMap Part.text ∧
        n = total + (parts.map Part.seconds).sum := by
  constructor
  · intro h
    induction hlength : text.length using Nat.strong_induction_on generalizing text total with
    | _ length ih =>
      by_cases hnil : text = []
      · subst hnil
        rw [scan_nil] at h
        exact ⟨[], rfl, by simpa using (Except.ok.inj h).symm⟩
      · rw [scan, if_neg hnil] at h
        split at h
        · cases h
        · rename_i token htoken
          -- the token read is a part, and the scan goes on behind it with the sum so far
          obtain ⟨unit, hne, hdecimals, hunit, hone, htext⟩ := nextToken_eq_some_iff.mp htoken
          obtain ⟨part, hpart⟩ : ∃ part : Part, part = ⟨token.amount, unit, hne, hdecimals, hunit⟩ :=
            ⟨_, rfl⟩
          have hadd : addToken 0 total token = .ok (total + part.seconds) := by
            have := addToken_part total part token.rest
            rw [hpart] at this ⊢
            dsimp only at this
            rw [← hone] at this
            exact this
          rw [hadd] at h
          obtain ⟨parts, hrest, hn⟩ := ih _ (hlength ▸ length_rest_lt htoken) h rfl
          refine ⟨part :: parts, ?_, ?_⟩
          · rw [List.flatMap_cons, ← hrest, htext, hpart, Part.text, List.append_assoc]
            rfl
          · rw [hn, List.map_cons, List.sum_cons, Nat.cast_add, add_assoc]
  · rintro ⟨parts, rfl, rfl⟩
    exact scan_parts location parts total

/-! ### The parser -/

theorem isDigit_unit : ∀ unit ∈ units, isDigit unit = false := by
  have hall : units.all (fun unit => !isDigit unit) = true := rfl
  simpa using hall

theorem isSpace_unit : ∀ unit ∈ units, isSpace unit = false := by
  have hall : units.all (fun unit => !isSpace unit) = true := rfl
  simpa using hall

theorem Part.text_ne_nil (part : Part) : part.text ≠ [] :=
  List.append_ne_nil_of_right_ne_nil _ (List.cons_ne_nil _ _)

/-- A sequence of parts is no string of digits. -/
theorem exists_unit_mem {parts : List Part} (hne : parts ≠ []) :
    ∃ c ∈ parts.flatMap Part.text, isDigit c = false := by
  obtain ⟨part, hpart⟩ := List.exists_mem_of_ne_nil parts hne
  refine ⟨part.unit, List.mem_flatMap.mpr ⟨part, hpart, ?_⟩, isDigit_unit _ part.isUnit⟩
  exact List.mem_append_right _ (List.mem_singleton.mpr rfl)

theorem forall_of_isdigit {s : Text} (h : isdigit s = true) :
    s ≠ [] ∧ ∀ c ∈ s, isDigit c = true := by
  obtain ⟨hne, hall⟩ := Bool.and_eq_true_iff.mp h
  refine ⟨?_, List.all_eq_true.mp hall⟩
  rintro rfl
  cases hne

theorem isdigit_of_forall {s : Text} (hne : s ≠ []) (h : ∀ c ∈ s, isDigit c = true) :
    isdigit s = true := by
  refine Bool.and_eq_true_iff.mpr ⟨?_, List.all_eq_true.mpr h⟩
  cases s with
  | nil => exact absurd rfl hne
  | cons c s => rfl

theorem not_denotes_nil {k : Nat} : ¬ Denotes [] k := by
  generalize hnil : ([] : Text) = text
  intro h
  cases h with
  | plain hne => exact hne hnil.symm
  | parts hne =>
    obtain ⟨c, hc, -⟩ := exists_unit_mem hne
    rw [← hnil] at hc
    exact List.not_mem_nil hc

/-- A string of digits is a number of seconds, if all its digits are decimal. -/
theorem plain_iff {text : Text} (hdigits : isdigit text = true) {k : Nat} :
    Denotes text k ↔ (∀ c ∈ text, isDecimal c = true) ∧ k = decimalValue text := by
  obtain ⟨hne, hall⟩ := forall_of_isdigit hdigits
  constructor
  · intro h
    cases h with
    | plain _ hdecimals => exact ⟨hdecimals, rfl⟩
    | @parts parts hparts =>
      obtain ⟨c, hc, hnot⟩ := exists_unit_mem hparts
      cases hnot.symm.trans (hall c hc)
  · rintro ⟨hdecimals, rfl⟩
    exact .plain hne hdecimals

/-- Any other text is a sequence of parts. -/
theorem parts_iff {text : Text} (hdigits : isdigit text ≠ true) {k : Nat} :
    Denotes text k ↔ ∃ parts : List Part, parts ≠ [] ∧ text = parts.flatMap Part.text ∧
      k = (parts.map Part.seconds).sum := by
  constructor
  · intro h
    cases h with
    | plain hne hdecimals =>
      exact absurd (isdigit_of_forall hne fun c hc => isDigit_of_isDecimal (hdecimals c hc)) hdigits
    | @parts parts hparts => exact ⟨parts, hparts, rfl, rfl⟩
  · rintro ⟨parts, hne, rfl, rfl⟩
    exact .parts hne

/-- What is read is what the text denotes; no text at all is read as no seconds. -/
theorem secondsOf_iff {location text : Text} {n : Int} :
    secondsOf 0 location text = .ok n ↔
      text = [] ∧ n = 0 ∨ ∃ k : Nat, Denotes text k ∧ n = k := by
  rw [secondsOf]
  by_cases hdigits : isdigit text = true
  · obtain ⟨hne, hall⟩ := forall_of_isdigit hdigits
    rw [if_pos hdigits]
    by_cases hdecimals : ∀ c ∈ text, isDecimal c = true
    · rw [int10_of_decimals hne hdecimals]
      constructor
      · intro h
        exact .inr ⟨_, .plain hne hdecimals, (Except.ok.inj h).symm⟩
      · rintro (⟨hnil, -⟩ | ⟨k, h, rfl⟩)
        · exact absurd hnil hne
        · rw [((plain_iff hdigits).mp h).2]
          rfl
    · -- `int` refuses the other digits
      obtain ⟨c, hc, hnot⟩ : ∃ c ∈ text, isDecimal c = false := by
        simpa using hdecimals
      rw [int10_of_digits hall hc hnot]
      constructor
      · rintro ⟨⟩
      · rintro (⟨hnil, -⟩ | ⟨k, h, -⟩)
        · exact absurd hnil hne
        · exact absurd ((plain_iff hdigits).mp h).1 hdecimals
  · rw [if_neg hdigits, scan_iff]
    constructor
    · rintro ⟨parts, rfl, rfl⟩
      rw [zero_add]
      by_cases hne : parts = []
      · subst hne
        exact .inl ⟨rfl, rfl⟩
      · exact .inr ⟨_, .parts hne, rfl⟩
    · rintro (⟨rfl, rfl⟩ | ⟨k, h, rfl⟩)
      · exact ⟨[], rfl, rfl⟩
      · obtain ⟨parts, -, htext, rfl⟩ := (parts_iff hdigits).mp h
        exact ⟨parts, htext, (zero_add _).symm⟩

theorem duration_iff {location s : Text} {n : Int} :
    durationToSeconds 0 (.str s) location = .ok n ↔
      ∃ k : Nat, 0 < k ∧ n = k ∧ Denotes (cleaned s) k := by
  rw [durationToSeconds]
  by_cases hblank : strip s = []
  · rw [if_pos hblank, cleaned, hblank]
    constructor
    · rintro ⟨⟩
    · rintro ⟨k, -, -, h⟩
      exact absurd h not_denotes_nil
  · rw [if_neg hblank]
    constructor
    · intro h
      split at h
      · cases h
      · rename_i seconds hseconds
        split at h
        · cases h
        · obtain rfl := Except.ok.inj h
          rcases secondsOf_iff.mp hseconds with ⟨-, rfl⟩ | ⟨k, hdenotes, rfl⟩
          · omega
          · exact ⟨k, by omega, rfl, hdenotes⟩
    · rintro ⟨k, hpos, rfl, hdenotes⟩
      rw [secondsOf_iff.mpr (.inr ⟨k, hdenotes, rfl⟩)]
      exact if_neg (by omega)

/-! ### The printer -/

theorem decimalValue_decimal (k : Nat) : decimalValue (decimal k) = k := by
  obtain ⟨ds, hds, hlt, -, hvalue⟩ := @toDigits_eq_map 10 (by decide) k
  have hread : ∀ d < 10, decimal? (Nat.digitChar d) = some d := by decide
  have hdigits : (ds.map Nat.digitChar).filterMap decimal? = ds := by
    clear hds hvalue
    induction ds with
    | nil => rfl
    | cons d ds ih =>
      rw [List.map_cons, List.filterMap_cons_some (hread d (hlt d List.mem_cons_self)),
        ih fun x hx => hlt x (List.mem_cons_of_mem d hx)]
  rw [decimalValue, decimal, hds, hdigits, hvalue]

theorem isDecimal_of_mem_decimal {k : Nat} {c : Char} (hc : c ∈ decimal k) :
    isDecimal c = true := by
  obtain ⟨ds, hds, hlt, -, -⟩ := @toDigits_eq_map 10 (by decide) k
  rw [decimal, hds] at hc
  obtain ⟨d, hd, rfl⟩ := List.mem_map.mp hc
  have hread : ∀ d < 10, isDecimal (Nat.digitChar d) = true := by decide
  exact hread d (hlt d hd)

/-- A printed amount. -/
def Part.ofNat (k : Nat) (unit : Char) (hunit : unit ∈ units) : Part where
  digits := decimal k
  unit := unit
  nonempty := decimal_ne_nil k
  decimals := fun _ hc => isDecimal_of_mem_decimal hc
  isUnit := hunit

/-- A printed amount is parsed as it stands, and means what was printed. -/
theorem duration_ofNat {location : Text} {k : Nat} {unit : Char} (hunit : unit ∈ units)
    (hpos : 0 < k * unitSeconds unit) :
    durationToSeconds 0 (.str (decimal k ++ [unit])) location = .ok (k * unitSeconds unit : Nat) := by
  have hspace : ∀ c ∈ decimal k ++ [unit], isSpace c = false := by
    intro c hc
    rcases List.mem_append.mp hc with hc | hc
    · exact isSpace_of_isDigit (isDigit_of_isDecimal (isDecimal_of_mem_decimal hc))
    · rw [List.mem_singleton.mp hc]
      exact isSpace_unit unit hunit
  have hcleaned : cleaned (decimal k ++ [unit]) = decimal k ++ [unit] := by
    rw [cleaned, strip_of_forall hspace, List.filter_eq_self]
    intro c hc
    refine decide_eq_true fun heq => ?_
    cases (hspace c hc).symm.trans (heq ▸ rfl : isSpace c = true)
  refine duration_iff.mpr ⟨k * unitSeconds unit, hpos, rfl, ?_⟩
  have hdenotes := Denotes.parts (List.cons_ne_nil (Part.ofNat k unit hunit) [])
  have htext : [Part.ofNat k unit hunit].flatMap Part.text = decimal k ++ [unit] := by
    rw [List.flatMap_singleton]
    rfl
  have hseconds : ([Part.ofNat k unit hunit].map Part.seconds).sum = k * unitSeconds unit := by
    show decimalValue (decimal k) * unitSeconds unit + 0 = _
    rw [decimalValue_decimal, Nat.add_zero]
  rwa [hcleaned, ← htext, ← hseconds]

theorem duration_formatDuration {location : Text} {n : Int} (hn : 0 < n) :
    durationToSeconds 0 (.str (formatDuration n)) location = .ok n := by
  obtain ⟨k, rfl⟩ : ∃ k : Nat, n = k := ⟨n.toNat, by omega⟩
  have hprint : ∀ d : Nat, intText ((k : Int) / d) = decimal (k / d) := by
    intro d
    have hneg : ¬ (k : Int) / d < 0 :=
      not_lt.mpr (Int.ediv_nonneg (Int.natCast_nonneg k) (Int.natCast_nonneg d))
    rw [intText, if_neg hneg, ← Int.natCast_div, Int.natAbs_natCast]
  rw [formatDuration]
  split_ifs with hhours hminutes
  · -- whole hours
    have hk : k / 3600 * unitSeconds 'h' = k := by
      show k / 3600 * 3600 = k
      omega
    have hread := @duration_ofNat location (k / 3600) 'h' (by decide) (by rw [hk]; omega)
    rw [hk] at hread
    exact (hprint 3600).symm ▸ hread
  · have hk : k / 60 * unitSeconds 'm' = k := by
      show k / 60 * 60 = k
      omega
    have hread := @duration_ofNat location (k / 60) 'm' (by decide) (by rw [hk]; omega)
    rw [hk] at hread
    exact (hprint 60).symm ▸ hread
  · have hk : k / 1 * unitSeconds 's' = k := by
      show k / 1 * 1 = k
      omega
    have hread := @duration_ofNat location (k / 1) 's' (by decide) (by rw [hk]; omega)
    rw [hk] at hread
    have hone : intText (k : Int) = decimal (k / 1) := by
      have := hprint 1
      rwa [Nat.cast_one, Int.ediv_one] at this
    rw [hone]
    exact hread

/-- **The parser accepts exactly its grammar, and inverts the printer.** -/
theorem duration_read (location s : Text) (n : Int) :
    (durationToSeconds 0 (.str s) location = .ok n ↔
      ∃ k : Nat, 0 < k ∧ n = k ∧ Denotes (cleaned s) k) ∧
    (0 < n → durationToSeconds 0 (.str (formatDuration n)) location = .ok n) :=
  ⟨duration_iff, duration_formatDuration⟩

theorem duration_read_hours :
    durationToSeconds 0 (.str (formatDuration 7200)) "timeout".toList = .ok 7200 :=
  (duration_read "timeout".toList [] 7200).2 (by decide)

end Durations

end KleeDeps.Experiments
