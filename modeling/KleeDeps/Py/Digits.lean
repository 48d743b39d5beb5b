import KleeDeps.Py.Int

/-!
# `str.isdigit` and the integers of digit strings

`str.isdigit` holds of more than the decimal digits that `int` reads: superscripts, circled
numbers and the like are digits as well.

- `isDecimal`: a decimal digit of any script, the class `\d` of a `str` pattern;
- `isDigit`, `isdigit`: `str.isdigit`;
- `int10_of_decimals`, `int10_of_digits`: `int` reads the strings of decimal digits, and no other
  string of digits.
-/

namespace Py

/-- A decimal digit of any script: the class `\d` of a `str` pattern. -/
def isDecimal (c : Char) : Bool := (decimal? c).isSome

/-- The digits that are no decimal digits, first and last of each block (Unicode 15). -/
def otherDigits : List (Nat × Nat) :=
  [(0xb2, 0xb3), (0xb9, 0xb9), (0x1369, 0x1371), (0x19da, 0x19da), (0x2070, 0x2070),
   (0x2074, 0x2079), (0x2080, 0x2089), (0x2460, 0x2468), (0x2474, 0x247c), (0x2488, 0x2490),
   (0x24ea, 0x24ea), (0x24f5, 0x24fd), (0x24ff, 0x24ff), (0x2776, 0x277e), (0x2780, 0x2788),
   (0x278a, 0x2792), (0x10a40, 0x10a43), (0x10e60, 0x10e68), (0x11052, 0x1105a),
   (0x1f100, 0x1f10a)]

/-- `c.isdigit()` -/
def isDigit (c : Char) : Bool :=
  isDecimal c || otherDigits.any fun block => block.1 ≤ c.toNat && c.toNat ≤ block.2

/-- `s.isdigit()` -/
def isdigit (s : Text) : Bool := !s.isEmpty && s.all isDigit

/-- The value of a string of decimal digits. -/
def decimalValue (s : Text) : Nat := ofDigits 10 (s.filterMap decimal?)

theorem isDigit_of_isDecimal {c : Char} (h : isDecimal c = true) : isDigit c = true := by
  rw [isDigit, h, Bool.true_or]

theorem decimal?_eq_some {c : Char} {d : Nat} (h : decimal? c = some d) :
    d < 10 ∧ ∃ z ∈ decimalZeros, c.toNat = z + d := by
  obtain ⟨z, hz, rfl⟩ := Option.map_eq_some_iff.mp h
  have hmem := List.mem_of_find?_eq_some hz
  have hbounds := List.find?_some hz
  simp only [Bool.and_eq_true, decide_eq_true_eq] at hbounds
  exact ⟨by omega, z, hmem, by omega⟩

/-! ### Digits and white space -/

/-- All blocks of digits. -/
def digitBlocks : List (Nat × Nat) := otherDigits ++ decimalZeros.map fun z => (z, z + 9)

/-- The blocks of white space. -/
def spaceBlocks : List (Nat × Nat) :=
  [(0x09, 0x0d), (0x1c, 0x20), (0x85, 0x85), (0xa0, 0xa0), (0x1680, 0x1680), (0x2000, 0x200a),
   (0x2028, 0x2028), (0x2029, 0x2029), (0x202f, 0x202f), (0x205f, 0x205f), (0x3000, 0x3000)]

theorem exists_digitBlock {c : Char} (h : isDigit c = true) :
    ∃ block ∈ digitBlocks, block.1 ≤ c.toNat ∧ c.toNat ≤ block.2 := by
  rcases Bool.or_eq_true_iff.mp h with hdecimal | hother
  · obtain ⟨d, hd⟩ := Option.isSome_iff_exists.mp hdecimal
    obtain ⟨hlt, z, hz, hc⟩ := decimal?_eq_some hd
    exact ⟨(z, z + 9), List.mem_append_right _ (List.mem_map.mpr ⟨z, hz, rfl⟩), by
      dsimp only
      omega⟩
  · obtain ⟨block, hblock, hc⟩ := List.any_eq_true.mp hother
    simp only [Bool.and_eq_true, decide_eq_true_eq] at hc
    exact ⟨block, List.mem_append_left _ hblock, hc⟩

theorem exists_spaceBlock {c : Char} (h : isSpace c = true) :
    ∃ block ∈ spaceBlocks, block.1 ≤ c.toNat ∧ c.toNat ≤ block.2 := by
  simp only [isSpace, Bool.or_eq_true, Bool.and_eq_true, decide_eq_true_eq, beq_iff_eq] at h
  simp only [spaceBlocks, List.mem_cons, List.not_mem_nil, or_false, exists_eq_or_imp,
    exists_eq_left]
  omega

theorem isSpace_of_isDigit {c : Char} (h : isDigit c = true) : isSpace c = false := by
  have hdisjoint : ∀ space ∈ spaceBlocks, ∀ digit ∈ digitBlocks,
      space.2 < digit.1 ∨ digit.2 < space.1 := by decide
  obtain ⟨digit, hdigit, hfirst, hlast⟩ := exists_digitBlock h
  rw [Bool.eq_false_iff]
  intro hspace
  obtain ⟨space, hmem, hfirst', hlast'⟩ := exists_spaceBlock hspace
  have := hdisjoint space hmem digit hdigit
  omega

/-! ### `int` of a string of digits -/

theorem asciiDigit_of_isDigit {c : Char} (h : isDigit c = true) :
    asciiDigit c ≠ '-' ∧ asciiDigit c ≠ '+' := by
  cases hd : decimal? c with
  | none =>
    have hsame : asciiDigit c = c := by rw [asciiDigit, hd]
    rw [hsame]
    constructor
    · rintro rfl
      exact absurd h (by decide)
    · rintro rfl
      exact absurd h (by decide)
  | some d =>
    have hdigit : asciiDigit c = Nat.digitChar d := by rw [asciiDigit, hd]
    have hlt := (decimal?_eq_some hd).1
    have hspec := (@digitChar_spec d (by omega)).2.2
    rw [hdigit]
    exact ⟨fun heq => hspec (by simp [heq]), fun heq => hspec (by simp [heq])⟩

/-- Digits are no signs, so all of them are the literal. -/
theorem signed_of_digits {unsigned : Text → Except IntError Nat} {s : Text}
    (hs : ∀ c ∈ s, isDigit c = true) :
    signed unsigned s =
      match unsigned (s.map asciiDigit) with
      | .ok n => .ok (n : Int)
      | .error e => .error e := by
  have hsign : (s.map asciiDigit).head? ∉ [some '-', some '+'] := by
    cases s with
    | nil => decide
    | cons c s =>
      obtain ⟨hminus, hplus⟩ := asciiDigit_of_isDigit (hs c List.mem_cons_self)
      simp [hminus, hplus]
  rw [signed_of_unspaced fun c hc => isSpace_of_isDigit (hs c hc), splitSign_of_head hsign]
  rfl

/-- `int` reads a string of decimal digits. -/
theorem int10_of_decimals {s : Text} (hne : s ≠ []) (hs : ∀ c ∈ s, isDecimal c = true) :
    int10 0 s = .ok (decimalValue s : Int) := by
  have hdigits : ∀ t : Text, (∀ c ∈ t, isDecimal c = true) →
      t.map asciiDigit = (t.filterMap decimal?).map Nat.digitChar := by
    intro t
    induction t with
    | nil => exact fun _ => rfl
    | cons c t ih =>
      intro ht
      obtain ⟨d, hd⟩ := Option.isSome_iff_exists.mp (ht c List.mem_cons_self)
      rw [List.map_cons, List.filterMap_cons_some hd, List.map_cons,
        ih fun x hx => ht x (List.mem_cons_of_mem c hx), asciiDigit, hd]
  have hlt : ∀ d ∈ s.filterMap decimal?, d < 10 := by
    intro d hd
    obtain ⟨c, -, hc⟩ := List.mem_filterMap.mp hd
    exact (decimal?_eq_some hc).1
  have hne' : s.filterMap decimal? ≠ [] := by
    intro hnil
    have := congrArg List.length (hdigits s hs)
    rw [hnil, List.length_map] at this
    exact hne (List.length_eq_zero_iff.mp this)
  have hunsigned : unsigned10 0 (s.map asciiDigit) = .ok (decimalValue s) := by
    rw [unsigned10, hdigits s hs, digitsOf_map (by decide) _ hlt hne']
    rfl
  rw [int10, signed_of_digits fun c hc => isDigit_of_isDecimal (hs c hc), hunsigned]

/-- All characters of a literal body are digits, or underscores. -/
theorem isSome_of_digitsOf {b : Nat} : ∀ {s : Text} {ds : List Nat}, digitsOf b s = some ds →
    ∀ c ∈ s, c = '_' ∨ (digitValue b c).isSome
  | [], _, h, _, _ => by cases h
  | [c], ds, h, x, hx => by
    obtain ⟨d, hd, -⟩ := Option.map_eq_some_iff.mp h
    rw [List.mem_singleton.mp hx, hd]
    exact .inr rfl
  | c :: u :: r, ds, h, x, hx => by
    rw [digitsOf] at h
    split at h
    · cases h
    · rename_i d hd
      obtain ⟨rest, hrest, -⟩ := Option.map_eq_some_iff.mp h
      rcases List.mem_cons.mp hx with rfl | hx
      · exact .inr (by rw [hd]; rfl)
      · split at hrest
        · rename_i hu
          rcases List.mem_cons.mp hx with rfl | hx
          · exact .inl hu
          · exact isSome_of_digitsOf hrest x hx
        · exact isSome_of_digitsOf hrest x hx

theorem isDecimal_of_digitValue {c : Char} (h : (digitValue 10 c).isSome = true) :
    isDecimal c = true := by
  obtain ⟨d, hd⟩ := Option.isSome_iff_exists.mp h
  obtain ⟨hvalue, hlt⟩ := Option.filter_eq_some_iff.mp hd
  have hlt : d < 10 := of_decide_eq_true hlt
  -- letters count from ten
  have hrange : 0x30 ≤ c.toNat ∧ c.toNat ≤ 0x39 := by
    split_ifs at hvalue with h₁ h₂ h₃
    · exact h₁
    · have := Option.some.inj hvalue
      omega
    · have := Option.some.inj hvalue
      omega
  have hfind : decimalZeros.find? (fun z => z ≤ c.toNat && c.toNat < z + 10) = some 0x30 := by
    refine List.find?_cons_of_pos ?_
    simp only [Bool.and_eq_true, decide_eq_true_eq]
    omega
  rw [isDecimal, decimal?, hfind]
  rfl

/-- `int` refuses every other string of digits. -/
theorem int10_of_digits {s : Text} (hs : ∀ c ∈ s, isDigit c = true) {c : Char} (hc : c ∈ s)
    (hnot : isDecimal c = false) : int10 0 s = .error .invalid := by
  have hascii : asciiDigit c = c := by
    rw [asciiDigit, Option.not_isSome_iff_eq_none.mp (Bool.eq_false_iff.mp hnot)]
  have hvalue : (digitValue 10 c).isSome = false := by
    rw [Bool.eq_false_iff]
    intro hsome
    cases hnot.symm.trans (isDecimal_of_digitValue hsome)
  have hunsigned : unsigned10 0 (s.map asciiDigit) = .error .invalid := by
    rw [unsigned10]
    cases hdigits : digitsOf 10 (s.map asciiDigit) with
    | none => rfl
    | some ds =>
      rcases isSome_of_digitsOf hdigits c (hascii ▸ List.mem_map_of_mem hc) with rfl | hsome
      · exact absurd (hs _ hc) (by decide)
      · cases hvalue.symm.trans hsome
  rw [int10, signed_of_digits hs, hunsigned]

end Py
