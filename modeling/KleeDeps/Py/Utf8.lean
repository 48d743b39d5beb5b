import Mathlib.Data.List.Basic
import KleeDeps.Py.Text

/-!
# Decoding UTF-8 with replacement

`bytes.decode("utf-8", errors="replace")`. The decoder reads units: a lead byte with those of
the bytes it asks for that are there. A unit with all its bytes is a character, every other
unit (a truncated character, a byte that starts none) becomes one replacement character.

- `units`: the units of a byte stream; `decode` gives a character for each;
- `BetweenUnits front rest`: no unit of the stream `front ++ rest` lies across the cut;
- `units_append_of_betweenUnits`, `length_units_lt`: a cut between units changes nothing, a cut
  inside one makes the decoded text longer;
- `flatMap_decode_iff`: decoding piece by piece gives the text of the stream exactly when all
  the cuts lie between units.
-/

namespace Py

namespace Utf8

abbrev Bytes := List UInt8

/-- The least and the greatest of the bytes that may come next. -/
structure ByteRange where
  low : UInt8
  high : UInt8

def ByteRange.holds (range : ByteRange) (b : UInt8) : Bool := range.low ≤ b ∧ b ≤ range.high

/-- Any continuation byte. -/
def tail : ByteRange := ⟨0x80, 0xBF⟩

/-- What a lead byte asks for; the ranges of the second byte exclude overlong forms, surrogates
and what lies above the last code point. -/
def continuation (lead : UInt8) : List ByteRange :=
  if lead < 0xC2 then []
  else if lead < 0xE0 then [tail]
  else if lead = 0xE0 then [⟨0xA0, 0xBF⟩, tail]
  else if lead = 0xED then [⟨0x80, 0x9F⟩, tail]
  else if lead < 0xF0 then [tail, tail]
  else if lead = 0xF0 then [⟨0x90, 0xBF⟩, tail, tail]
  else if lead < 0xF4 then [tail, tail, tail]
  else if lead = 0xF4 then [⟨0x80, 0x8F⟩, tail, tail]
  else []

/-- The units of `unit` and the bytes behind it; `unit` has begun and asks for `expected`. -/
def scan : List ByteRange → Bytes → Bytes → List Bytes
  | _, unit, [] => [unit]
  | [], unit, b :: rest => unit :: scan (continuation b) [b] rest
  | range :: ranges, unit, b :: rest =>
    if range.holds b then scan ranges (unit ++ [b]) rest
    -- the byte that does not fit is read again, as a lead byte
    else unit :: scan (continuation b) [b] rest

def units : Bytes → List Bytes
  | [] => []
  | b :: rest => scan (continuation b) [b] rest

/-- The bits of a lead byte that count. -/
def leadBits (lead : UInt8) : Nat :=
  match continuation lead with
  | [] => lead.toNat
  | [_] => lead.toNat % 0x20
  | [_, _] => lead.toNat % 0x10
  | _ => lead.toNat % 0x08

def replacement : Char := Char.ofNat 0xFFFD

def decodeUnit : Bytes → Char
  | [] => replacement
  | lead :: rest =>
    if (lead < 0x80 ∨ 0xC2 ≤ lead ∧ lead ≤ 0xF4) ∧ rest.length = (continuation lead).length then
      Char.ofNat (rest.foldl (fun code b => code * 0x40 + b.toNat % 0x40) (leadBits lead))
    else replacement

/-- `bs.decode("utf-8", errors="replace")`. -/
def decode (bs : Bytes) : Text := (units bs).map decodeUnit

-- the Euro sign, whole and cut short; a surrogate is three invalid bytes
example : decode [0xE2, 0x82, 0xAC] = ['€'] := by decide
example : decode [0x61, 0xE2, 0x82, 0x62] = ['a', replacement, 'b'] := by decide
example : decode [0xED, 0xA0, 0x80] = [replacement, replacement, replacement] := by decide

theorem length_decode (bs : Bytes) : (decode bs).length = (units bs).length := List.length_map _

/-! ### The units of a stream -/

@[simp] theorem units_nil : units [] = [] := rfl

/-- Only continuation bytes are asked for. -/
def Tails (expected : List ByteRange) : Prop :=
  ∀ range ∈ expected, ∀ b, range.holds b = true → tail.holds b = true

theorem tails_continuation (lead : UInt8) : Tails (continuation lead) := by
  have hrows : ∀ r ∈ continuation lead, 0x80 ≤ r.low ∧ r.high ≤ 0xBF := by
    rw [continuation]
    split_ifs <;> simp [tail]
  intro range hrange b hb
  obtain ⟨hlow, hhigh⟩ := hrows range hrange
  have hb' := of_decide_eq_true hb
  exact decide_eq_true ⟨UInt8.le_trans hlow hb'.1, UInt8.le_trans hb'.2 hhigh⟩

/-- A continuation byte asks for nothing. -/
theorem continuation_of_tail {b : UInt8} (hb : tail.holds b = true) : continuation b = [] := by
  have hhigh : b ≤ 0xBF := (of_decide_eq_true hb).2
  have hlt : b < 0xC2 := UInt8.lt_of_le_of_lt hhigh (by decide)
  exact if_pos hlt

theorem scan_nil (unit rest : Bytes) : scan [] unit rest = unit :: units rest := by
  cases rest with
  | nil => rfl
  | cons b rest => rfl

theorem scan_of_holds {range : ByteRange} {b : UInt8} (h : range.holds b = true)
    (ranges : List ByteRange) (unit rest : Bytes) :
    scan (range :: ranges) unit (b :: rest) = scan ranges (unit ++ [b]) rest := if_pos h

theorem scan_of_not_holds {range : ByteRange} {b : UInt8} (h : range.holds b ≠ true)
    (ranges : List ByteRange) (unit rest : Bytes) :
    scan (range :: ranges) unit (b :: rest) = unit :: units (b :: rest) := if_neg h

/-- The unit that has begun is the start of the first one. -/
theorem scan_eq_cons (expected : List ByteRange) (unit rest : Bytes) :
    ∃ more others, scan expected unit rest = (unit ++ more) :: others := by
  induction rest generalizing expected unit with
  | nil => exact ⟨[], [], by rw [List.append_nil]; rfl⟩
  | cons b rest ih =>
    cases expected with
    | nil => exact ⟨[], units (b :: rest), by rw [List.append_nil, scan_nil]⟩
    | cons range ranges =>
      by_cases h : range.holds b = true
      · obtain ⟨more, others, heq⟩ := ih ranges (unit ++ [b])
        exact ⟨b :: more, others, by rw [scan_of_holds h, heq, List.append_assoc]; rfl⟩
      · exact ⟨[], units (b :: rest), by rw [List.append_nil, scan_of_not_holds h]⟩

/-- Where the decoder stands behind a part of the stream: with some units closed and one begun. -/
theorem scan_append {expected : List ByteRange} (hexpected : Tails expected) {unit : Bytes}
    (hunit : unit ≠ []) (front : Bytes) :
    ∃ closed expected' unit', Tails expected' ∧ unit' ≠ [] ∧
      closed.flatten ++ unit' = unit ++ front ∧
      ∀ rest, scan expected unit (front ++ rest) = closed ++ scan expected' unit' rest := by
  induction front generalizing expected unit with
  | nil => exact ⟨[], expected, unit, hexpected, hunit, (List.append_nil unit).symm, fun _ => rfl⟩
  | cons b front ih =>
    -- `b` begins the next unit
    have hclose : (∀ rest, scan expected unit (b :: rest) = unit :: units (b :: rest)) →
        ∃ closed expected' unit', Tails expected' ∧ unit' ≠ [] ∧
          closed.flatten ++ unit' = unit ++ b :: front ∧
          ∀ rest, scan expected unit (b :: front ++ rest) =
            closed ++ scan expected' unit' rest := by
      intro heq
      obtain ⟨closed, expected', unit', hexpected', hunit', hflatten, hscan⟩ :=
        ih (tails_continuation b) (List.cons_ne_nil b [])
      refine ⟨unit :: closed, expected', unit', hexpected', hunit', ?_, fun rest => ?_⟩
      · rw [List.flatten_cons, List.append_assoc, hflatten]
        rfl
      · rw [List.cons_append, heq]
        exact congrArg (unit :: ·) (hscan rest)
    cases expected with
    | nil => exact hclose fun rest => scan_nil unit (b :: rest)
    | cons range ranges =>
      by_cases h : range.holds b = true
      · obtain ⟨closed, expected', unit', hexpected', hunit', hflatten, hscan⟩ :=
          ih (fun r hr => hexpected r (List.mem_cons_of_mem _ hr))
            (List.append_ne_nil_of_right_ne_nil unit (List.cons_ne_nil b []))
        refine ⟨closed, expected', unit', hexpected', hunit', ?_, fun rest => ?_⟩
        · rw [hflatten, List.append_assoc]
          rfl
        · rw [List.cons_append, scan_of_holds h, hscan]
      · exact hclose fun rest => scan_of_not_holds h ranges unit rest

theorem flatten_units (bs : Bytes) : (units bs).flatten = bs := by
  cases bs with
  | nil => rfl
  | cons b bs =>
    obtain ⟨closed, expected, unit, -, -, hflatten, hscan⟩ :=
      scan_append (tails_continuation b) (List.cons_ne_nil b []) bs
    have hunits : units (b :: bs) = closed ++ [unit] := by
      have := hscan []
      rwa [List.append_nil] at this
    rw [hunits, List.flatten_append, List.flatten_singleton, hflatten]
    rfl

/-! ### Cutting a stream -/

/-- Between `front` and `rest` no unit of the stream is cut. -/
def BetweenUnits (front rest : Bytes) : Prop :=
  ∃ us vs, units (front ++ rest) = us ++ vs ∧ us.flatten = front

/-- A byte taken into a unit would have been a unit of its own. -/
theorem units_cons_of_tail {b : UInt8} (h : tail.holds b = true) (rest : Bytes) :
    units (b :: rest) = [b] :: units rest := by
  show scan (continuation b) [b] rest = _
  rw [continuation_of_tail h, scan_nil]

theorem length_scan_le {expected : List ByteRange} (hexpected : Tails expected)
    (unit rest : Bytes) : (scan expected unit rest).length ≤ (units rest).length + 1 := by
  induction rest generalizing expected unit with
  | nil => exact le_refl 1
  | cons b rest ih =>
    cases expected with
    | nil => rw [scan_nil, List.length_cons]
    | cons range ranges =>
      by_cases h : range.holds b = true
      · have htail := hexpected range List.mem_cons_self b h
        have hle := ih (fun r hr => hexpected r (List.mem_cons_of_mem _ hr)) (unit ++ [b])
        rw [scan_of_holds h, units_cons_of_tail htail, List.length_cons]
        omega
      · rw [scan_of_not_holds h, List.length_cons]

/-- The units of a stream are those of its parts, or one lies across the cut and there are
fewer. -/
theorem units_append_cases (front rest : Bytes) :
    units (front ++ rest) = units front ++ units rest ∨
      ¬ BetweenUnits front rest ∧
        (units (front ++ rest)).length < (units front).length + (units rest).length := by
  cases front with
  | nil => exact .inl rfl
  | cons a front =>
    obtain ⟨closed, expected, unit, hexpected, hunit, hflatten, hscan⟩ :=
      scan_append (tails_continuation a) (List.cons_ne_nil a []) front
    have hwhole : units (a :: front ++ rest) = closed ++ scan expected unit rest := hscan rest
    have hfront : units (a :: front) = closed ++ [unit] := by
      have := hscan []
      rwa [List.append_nil] at this
    cases rest with
    | nil => exact .inl (by rw [List.append_nil, units_nil, List.append_nil])
    | cons b rest =>
      have hclose : scan expected unit (b :: rest) = unit :: units (b :: rest) →
          units (a :: front ++ b :: rest) = units (a :: front) ++ units (b :: rest) := by
        intro heq
        rw [hwhole, hfront, heq, List.append_assoc]
        rfl
      cases expected with
      | nil => exact .inl (hclose (scan_nil unit (b :: rest)))
      | cons range ranges =>
        by_cases h : range.holds b = true
        · right
          rw [scan_of_holds h] at hwhole
          constructor
          · -- the unit that takes `b` in begins before the cut and ends behind it
            rintro ⟨us, vs, heq, hus⟩
            obtain ⟨more, others, hfirst⟩ := scan_eq_cons ranges (unit ++ [b]) rest
            have hpos : 0 < unit.length := List.length_pos_iff.mpr hunit
            have hsize := congrArg List.length hflatten
            rw [show [a] ++ front = us.flatten from hus.symm, List.length_append] at hsize
            rw [hwhole, hfirst] at heq
            rcases List.append_eq_append_iff.mp heq with ⟨as, rfl, has⟩ | ⟨as, rfl, -⟩
            · rw [List.flatten_append, List.length_append] at hsize
              cases as with
              | nil => simp only [List.flatten_nil, List.length_nil] at hsize; omega
              | cons w as =>
                obtain rfl := (List.cons.inj has).1
                simp only [List.flatten_cons, List.length_append, List.length_singleton] at hsize
                omega
            · rw [List.flatten_append, List.length_append] at hsize
              omega
          · have htail := hexpected range List.mem_cons_self b h
            have hle := length_scan_le (fun r hr => hexpected r (List.mem_cons_of_mem _ hr))
              (unit ++ [b]) rest
            rw [hwhole, hfront, units_cons_of_tail htail, List.length_append, List.length_append,
              List.length_singleton, List.length_cons]
            omega
        · exact .inl (hclose (scan_of_not_holds h ranges unit rest))

theorem units_append_of_betweenUnits {front rest : Bytes} (h : BetweenUnits front rest) :
    units (front ++ rest) = units front ++ units rest :=
  (units_append_cases front rest).resolve_right fun hcut => hcut.1 h

theorem betweenUnits_of_units_append {front rest : Bytes}
    (h : units (front ++ rest) = units front ++ units rest) : BetweenUnits front rest :=
  ⟨units front, units rest, h, flatten_units front⟩

theorem length_units_append_le (front rest : Bytes) :
    (units (front ++ rest)).length ≤ (units front).length + (units rest).length := by
  rcases units_append_cases front rest with heq | ⟨-, hlt⟩
  · rw [heq, List.length_append]
  · exact hlt.le

/-- Behind a cut between units, the cuts between units are those of the rest. -/
theorem betweenUnits_append_iff {front mid rest : Bytes} (h : BetweenUnits front (mid ++ rest)) :
    BetweenUnits (front ++ mid) rest ↔ BetweenUnits mid rest := by
  have hfront := units_append_of_betweenUnits h
  constructor
  · rintro ⟨us, vs, heq, hus⟩
    rw [List.append_assoc, hfront] at heq
    rcases List.append_eq_append_iff.mp heq with ⟨as, rfl, has⟩ | ⟨as, hunits, has⟩
    · have hmid : front ++ as.flatten = front ++ mid := by
        rw [← hus, List.flatten_append, flatten_units]
      exact ⟨as, vs, has, List.append_cancel_left hmid⟩
    · -- `us` ends before the cut, so nothing lies between
      have hsplit : us.flatten ++ as.flatten = front := by
        rw [← List.flatten_append, ← hunits, flatten_units]
      rw [hus, List.append_assoc] at hsplit
      have hnil := List.append_right_eq_self.mp hsplit
      obtain rfl := (List.append_eq_nil_iff.mp hnil).1
      exact ⟨[], units rest, rfl, rfl⟩
  · rintro ⟨us, vs, heq, hus⟩
    refine ⟨units front ++ us, vs, ?_, ?_⟩
    · rw [List.append_assoc, hfront, heq, List.append_assoc]
    · rw [List.flatten_append, flatten_units, hus]

/-! ### Decoding piece by piece -/

/-- All the cuts between the chunks lie between units of the stream. -/
def CutsBetweenUnits (chunks : List Bytes) : Prop :=
  ∀ xs ys, chunks = xs ++ ys → BetweenUnits xs.flatten ys.flatten

theorem cutsBetweenUnits_cons_iff {chunk : Bytes} {chunks : List Bytes} :
    CutsBetweenUnits (chunk :: chunks) ↔
      BetweenUnits chunk chunks.flatten ∧ CutsBetweenUnits chunks := by
  constructor
  · intro h
    have hchunk : BetweenUnits chunk chunks.flatten := by
      have := h [chunk] chunks rfl
      rwa [List.flatten_singleton] at this
    refine ⟨hchunk, fun xs ys heq => ?_⟩
    rw [heq, List.flatten_append] at hchunk
    exact (betweenUnits_append_iff hchunk).mp (h (chunk :: xs) ys (by rw [heq]; rfl))
  · rintro ⟨hchunk, hchunks⟩ xs ys heq
    cases xs with
    | nil => exact ⟨[], units ys.flatten, rfl, rfl⟩
    | cons x xs =>
      obtain ⟨rfl, hrest⟩ := List.cons.inj heq
      have hrest : chunks = xs ++ ys := hrest
      rw [hrest, List.flatten_append] at hchunk
      exact (betweenUnits_append_iff hchunk).mpr (hchunks xs ys hrest)

theorem length_decode_flatten_le (chunks : List Bytes) :
    (decode chunks.flatten).length ≤ (chunks.flatMap decode).length := by
  induction chunks with
  | nil => exact le_refl 0
  | cons chunk chunks ih =>
    have hle := length_units_append_le chunk chunks.flatten
    rw [List.flatten_cons, List.flatMap_cons, List.length_append]
    simp only [length_decode] at *
    omega

/-- **Decoding piece by piece gives the text of the stream exactly when no unit is cut.** -/
theorem flatMap_decode_iff (chunks : List Bytes) :
    chunks.flatMap decode = decode chunks.flatten ↔ CutsBetweenUnits chunks := by
  induction chunks with
  | nil => exact ⟨fun _ xs ys heq => by
      obtain ⟨rfl, rfl⟩ := List.nil_eq_append_iff.mp heq
      exact ⟨[], [], rfl, rfl⟩, fun _ => rfl⟩
  | cons chunk chunks ih =>
    rw [cutsBetweenUnits_cons_iff, ← ih, List.flatMap_cons, List.flatten_cons]
    constructor
    · intro heq
      rcases units_append_cases chunk chunks.flatten with hunits | ⟨-, hlt⟩
      · refine ⟨betweenUnits_of_units_append hunits, ?_⟩
        rw [decode, decode, hunits, List.map_append] at heq
        exact List.append_cancel_left heq
      · have hle := length_decode_flatten_le chunks
        have hsize := congrArg List.length heq
        rw [List.length_append] at hsize
        simp only [length_decode] at *
        omega
    · rintro ⟨hchunk, hchunks⟩
      rw [hchunks, decode, decode, decode, units_append_of_betweenUnits hchunk, List.map_append]

end Utf8

end Py
