import Mathlib.Data.List.Dedup
import Mathlib.Data.List.Sort
import Mathlib.Order.Bounds.Basic

/-!
# Searching a sorted list

`bisect` on a list in strictly ascending order, and what the entries next to the insertion
point are: the nearest element at or below a value, below it, above it.

- `bisectRight_spec`: the entry before the insertion point is the greatest one at or below;
- `nearestBelow_neighbours`, `nearestAbove_neighbours`: the neighbours of a value;
- `mem_sortedSet`, `pairwise_sortedSet`: `sorted` of a set.
-/

universe u

namespace SortedSearch

variable {α : Type u} [LinearOrder α]

/-- `bisect.bisect_right`: the number of entries at or below. -/
def bisectRight (xs : List α) (a : α) : Nat := (xs.takeWhile (· ≤ a)).length

/-- `bisect.bisect_left`: the number of entries below. -/
def bisectLeft (xs : List α) (a : α) : Nat := (xs.takeWhile (· < a)).length

/-- `sorted` of the set of the elements of a list. -/
def sortedSet (xs : List α) : List α := xs.dedup.insertionSort (· ≤ ·)

theorem mem_sortedSet {xs : List α} {x : α} : x ∈ sortedSet xs ↔ x ∈ xs :=
  (List.mem_insertionSort _).trans List.mem_dedup

theorem pairwise_sortedSet (xs : List α) : (sortedSet xs).Pairwise (· < ·) := by
  have hle : (sortedSet xs).Pairwise (· ≤ ·) := List.pairwise_insertionSort _ _
  have hnodup : (sortedSet xs).Nodup :=
    (List.perm_insertionSort _ _).nodup_iff.mpr (List.nodup_dedup xs)
  exact (hle.and hnodup).imp fun ⟨hle, hne⟩ => lt_of_le_of_ne hle hne

/-- Where a list in ascending order is split by a property that only its lower part has. -/
theorem takeWhile_split {p : α → Bool} (hp : ∀ x y, x < y → p y = true → p x = true)
    {xs : List α} (h : xs.Pairwise (· < ·)) :
    ∃ low high, xs = low ++ high ∧ low.length = (xs.takeWhile p).length ∧
      (∀ x ∈ low, p x = true) ∧ ∀ x ∈ high, p x = false := by
  induction xs with
  | nil =>
    exact ⟨[], [], rfl, rfl, fun x hx => absurd hx List.not_mem_nil,
      fun x hx => absurd hx List.not_mem_nil⟩
  | cons x xs ih =>
    rw [List.pairwise_cons] at h
    -- downward closed: the first element that fails ends the low part
    cases hx : p x with
    | true =>
      obtain ⟨low, high, rfl, hlength, hlow, hhigh⟩ := ih h.2
      refine ⟨x :: low, high, rfl, ?_, fun y hy => ?_, hhigh⟩
      · rw [List.takeWhile_cons_of_pos hx, List.length_cons, List.length_cons, hlength]
      · rcases List.mem_cons.mp hy with rfl | hy
        · exact hx
        · exact hlow y hy
    | false =>
      refine ⟨[], x :: xs, rfl, ?_, fun y hy => absurd hy List.not_mem_nil, fun y hy => ?_⟩
      · rw [List.takeWhile_cons_of_neg (Bool.eq_false_iff.mp hx)]
      · rcases List.mem_cons.mp hy with rfl | hy
        · exact hx
        · rw [Bool.eq_false_iff]
          intro hpy
          rw [hp x y (h.1 y hy) hpy] at hx
          exact absurd hx.symm Bool.false_ne_true

omit [LinearOrder α] in
/-- The entry before the end of the lower part. -/
theorem getElem?_length_sub_one (low high : List α) (h : low ≠ []) :
    (low ++ high)[low.length - 1]? = some (low.getLast h) := by
  have hpos := List.length_pos_of_ne_nil h
  rw [List.getElem?_append_left (by omega), List.getLast_eq_getElem,
    List.getElem?_eq_getElem (by omega)]

theorem le_getLast {low : List α} (hsorted : low.Pairwise (· < ·)) (h : low ≠ []) :
    ∀ x ∈ low, x ≤ low.getLast h := by
  intro x hx
  have hsplit := List.dropLast_append_getLast h
  rw [← hsplit] at hx hsorted
  rcases List.mem_append.mp hx with hinit | hlast
  · exact le_of_lt ((List.pairwise_append.mp hsorted).2.2 x hinit _ (List.mem_singleton_self _))
  · exact le_of_eq (List.mem_singleton.mp hlast)

/-- The entry before the insertion point of `bisect_right` is the greatest one at or below the
value; there is none iff all entries are above it. -/
theorem bisectRight_spec {xs : List α} (h : xs.Pairwise (· < ·)) (a : α) :
    (bisectRight xs a = 0 ∧ ∀ x ∈ xs, a < x) ∨
      (bisectRight xs a ≠ 0 ∧ ∃ x, xs[bisectRight xs a - 1]? = some x ∧
        IsGreatest {y | y ∈ xs ∧ y ≤ a} x) := by
  obtain ⟨low, high, rfl, hlength, hlow, hhigh⟩ := takeWhile_split (p := (· ≤ a))
    (fun x y hxy hy => decide_eq_true ((le_of_lt hxy).trans (of_decide_eq_true hy))) h
  have hbelow : ∀ x ∈ low, x ≤ a := fun x hx => of_decide_eq_true (hlow x hx)
  have habove : ∀ x ∈ high, a < x := fun x hx => lt_of_not_ge (of_decide_eq_false (hhigh x hx))
  show (((low ++ high).takeWhile (· ≤ a)).length = 0 ∧ _) ∨
    (((low ++ high).takeWhile (· ≤ a)).length ≠ 0 ∧ _)
  rw [bisectRight, ← hlength]
  by_cases hnil : low = []
  · subst hnil
    exact Or.inl ⟨rfl, habove⟩
  · have hpos := List.length_pos_of_ne_nil hnil
    refine Or.inr ⟨by omega, low.getLast hnil, getElem?_length_sub_one low high hnil, ?_, ?_⟩
    · have hlast := List.getLast_mem hnil
      exact ⟨List.mem_append_left _ hlast, hbelow _ hlast⟩
    · rintro y ⟨hy, hya⟩
      rcases List.mem_append.mp hy with hy | hy
      · exact le_getLast (List.pairwise_append.mp h).1 hnil y hy
      · exact absurd hya (not_le_of_gt (habove y hy))

/-- The greatest element below a value, if there is one. -/
def NearestBelow (s : Set α) (a : α) : Option α → Prop
  | none => ∀ x ∈ s, ¬x < a
  | some x => IsGreatest {y | y ∈ s ∧ y < a} x

/-- The least element above a value, if there is one. -/
def NearestAbove (s : Set α) (a : α) : Option α → Prop
  | none => ∀ x ∈ s, ¬a < x
  | some x => IsLeast {y | y ∈ s ∧ a < y} x

/-- The entries around a value: one before its insertion point, and the next one that differs
from it. -/
def neighbours (xs : List α) (a : α) : Option α × Option α :=
  let i := bisectLeft xs a
  let previous := if i > 0 then xs[i - 1]? else none
  if xs[i]? = some a then (previous, xs[i + 1]?) else (previous, xs[i]?)

theorem bisectLeft_split {xs : List α} (h : xs.Pairwise (· < ·)) (a : α) :
    ∃ low high, xs = low ++ high ∧ low.length = bisectLeft xs a ∧
      (∀ x ∈ low, x < a) ∧ ∀ x ∈ high, a ≤ x := by
  obtain ⟨low, high, hsplit, hlength, hlow, hhigh⟩ := takeWhile_split (p := (· < a))
    (fun x y hxy hy => decide_eq_true (hxy.trans (of_decide_eq_true hy))) h
  exact ⟨low, high, hsplit, hlength, fun x hx => of_decide_eq_true (hlow x hx),
    fun x hx => le_of_not_gt (of_decide_eq_false (hhigh x hx))⟩

theorem nearestBelow_neighbours {xs : List α} (h : xs.Pairwise (· < ·)) (a : α) :
    NearestBelow {x | x ∈ xs} a (neighbours xs a).1 := by
  obtain ⟨low, high, rfl, hlength, hlow, hhigh⟩ := bisectLeft_split h a
  have hprevious : (neighbours (low ++ high) a).1 =
      if low.length > 0 then (low ++ high)[low.length - 1]? else none := by
    rw [neighbours, ← hlength]
    split <;> rfl
  rw [hprevious]
  by_cases hnil : low = []
  · subst hnil
    intro x hx
    exact not_lt_of_ge (hhigh x hx)
  · rw [if_pos (List.length_pos_of_ne_nil hnil), getElem?_length_sub_one low high hnil]
    have hlast := List.getLast_mem hnil
    refine ⟨⟨List.mem_append_left _ hlast, hlow _ hlast⟩, ?_⟩
    rintro y ⟨hy, hya⟩
    rcases List.mem_append.mp hy with hy | hy
    · exact le_getLast (List.pairwise_append.mp h).1 hnil y hy
    · exact absurd hya (not_lt_of_ge (hhigh y hy))

/-- The head of the part above a value is the nearest entry above it. -/
theorem nearestAbove_head {low high : List α} {a : α} (hlow : ∀ x ∈ low, x ≤ a)
    (hhigh : ∀ x ∈ high, a < x) (hsorted : high.Pairwise (· < ·)) :
    NearestAbove {x | x ∈ low ++ high} a high.head? := by
  cases high with
  | nil =>
    intro x hx
    have hmem : x ∈ low ++ [] := hx
    rw [List.append_nil] at hmem
    exact not_lt_of_ge (hlow x hmem)
  | cons x high =>
    refine ⟨⟨List.mem_append_right _ List.mem_cons_self, hhigh x List.mem_cons_self⟩, ?_⟩
    rintro y ⟨hy, hya⟩
    rcases List.mem_append.mp hy with hy | hy
    · exact absurd hya (not_lt_of_ge (hlow y hy))
    · rcases List.mem_cons.mp hy with rfl | hy
      · exact le_refl _
      · exact le_of_lt ((List.pairwise_cons.mp hsorted).1 y hy)

theorem nearestAbove_neighbours {xs : List α} (h : xs.Pairwise (· < ·)) (a : α) :
    NearestAbove {x | x ∈ xs} a (neighbours xs a).2 := by
  obtain ⟨low, high, rfl, hlength, hlow, hhigh⟩ := bisectLeft_split h a
  have hsorted := (List.pairwise_append.mp h).2.1
  have hat : (low ++ high)[low.length]? = high.head? := by
    rw [List.getElem?_append_right (Nat.le_refl _), Nat.sub_self, List.head?_eq_getElem?]
  rw [neighbours, ← hlength]
  by_cases hhead : high.head? = some a
  · -- the value is an entry: the one behind it
    rw [if_pos (hat.trans hhead)]
    obtain ⟨rest, rfl⟩ := List.head?_eq_some_iff.mp hhead
    rw [List.pairwise_cons] at hsorted
    have hnext : (low ++ a :: rest)[low.length + 1]? = rest.head? := by
      rw [List.getElem?_append_right (Nat.le_succ _), Nat.succ_sub (Nat.le_refl _), Nat.sub_self,
        List.head?_eq_getElem?]
      rfl
    show NearestAbove _ a ((low ++ a :: rest)[low.length + 1]?)
    rw [hnext, List.append_cons]
    refine nearestAbove_head (fun x hx => ?_) hsorted.1 hsorted.2
    rcases List.mem_append.mp hx with hx | hx
    · exact le_of_lt (hlow x hx)
    · exact le_of_eq (List.mem_singleton.mp hx)
  · rw [if_neg fun heq => hhead (hat.symm.trans heq)]
    show NearestAbove _ a ((low ++ high)[low.length]?)
    rw [hat]
    refine nearestAbove_head (fun x hx => le_of_lt (hlow x hx)) (fun x hx => ?_) hsorted
    refine lt_of_le_of_ne (hhigh x hx) fun heq => ?_
    subst heq
    -- the value is no entry, so it is not behind the head either
    cases high with
    | nil => exact absurd hx List.not_mem_nil
    | cons y high =>
      rcases List.mem_cons.mp hx with rfl | hmem
      · exact hhead rfl
      · have hlt := (List.pairwise_cons.mp hsorted).1 a hmem
        exact absurd hlt (not_lt_of_ge (hhigh y List.mem_cons_self))

end SortedSearch
