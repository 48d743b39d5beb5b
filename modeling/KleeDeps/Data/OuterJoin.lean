import Mathlib.Data.List.Nodup
import Mathlib.Data.List.Perm.Basic

/-!
# Outer joins

Two lists are joined on a key: an element of one list is combined with every element of
the other that has its key, and stands alone where there is none.

- `outerJoin`: the rows of the join;
- `nodup_key_iff`: **one row for each key iff both lists have one element for each key**;
- `lefts_outerJoin`, `rights_outerJoin`: every element is then used exactly once.
-/

namespace OuterJoin

universe u v w

/-- A row of an outer join. -/
inductive Joined (α : Type u) (β : Type v) where
  | left (a : α)
  | both (a : α) (b : β)
  | right (b : β)

variable {α : Type u} {β : Type v} {κ : Type w}

namespace Joined

/-- The left part of a row. -/
def left? : Joined α β → Option α
  | .left a | .both a _ => some a
  | .right _ => none

/-- The right part of a row. -/
def right? : Joined α β → Option β
  | .both _ b | .right b => some b
  | .left _ => none

/-- The key of a row. -/
def key (kl : α → κ) (kr : β → κ) : Joined α β → κ
  | .left a | .both a _ => kl a
  | .right b => kr b

end Joined

variable [DecidableEq κ] (kl : α → κ) (kr : β → κ)

/-- The elements with a key. -/
def matching (ys : List β) (k : κ) : List β := ys.filter fun y => kr y = k

/-- The rows of a left element. -/
def rowsOf (ys : List β) (x : α) : List (Joined α β) :=
  match matching kr ys (kl x) with
  | [] => [.left x]
  | ms => ms.map (.both x)

/-- The right elements that no left one has the key of. -/
def unmatched (xs : List α) (ys : List β) : List β := ys.filter fun y => kr y ∉ xs.map kl

/-- The rows of the join. -/
def outerJoin (xs : List α) (ys : List β) : List (Joined α β) :=
  xs.flatMap (rowsOf kl kr ys) ++ (unmatched kl kr xs ys).map .right

variable {kl kr}

/-! ### Single rows -/

theorem rowsOf_ne_nil (ys : List β) (x : α) : rowsOf kl kr ys x ≠ [] := by
  unfold rowsOf
  split
  · exact List.cons_ne_nil _ _
  · next hne => simpa using hne

theorem key_of_mem_rowsOf {ys : List β} {x : α} {row : Joined α β}
    (h : row ∈ rowsOf kl kr ys x) : row.key kl kr = kl x := by
  unfold rowsOf at h
  split at h
  · obtain rfl := List.mem_singleton.mp h
    rfl
  · obtain ⟨y, -, rfl⟩ := List.mem_map.mp h
    rfl

theorem left?_of_mem_rowsOf {ys : List β} {x : α} {row : Joined α β}
    (h : row ∈ rowsOf kl kr ys x) : row.left? = some x := by
  unfold rowsOf at h
  split at h
  · obtain rfl := List.mem_singleton.mp h
    rfl
  · obtain ⟨y, -, rfl⟩ := List.mem_map.mp h
    rfl

/-- The right parts of the rows of an element are the elements with its key. -/
theorem filterMap_right?_rowsOf (ys : List β) (x : α) :
    (rowsOf kl kr ys x).filterMap Joined.right? = matching kr ys (kl x) := by
  unfold rowsOf
  split
  · next hnil => simp [Joined.right?, hnil]
  · rw [List.filterMap_map]
    exact List.filterMap_some

/-- A row of the join and its right part have the same key. -/
theorem right?_key {xs : List α} {ys : List β} {row : Joined α β} {y : β}
    (h : row ∈ outerJoin kl kr xs ys) (hy : row.right? = some y) : row.key kl kr = kr y := by
  rcases List.mem_append.mp h with h | h
  · obtain ⟨x, -, hrow⟩ := List.mem_flatMap.mp h
    have hmem : y ∈ matching kr ys (kl x) := by
      rw [← filterMap_right?_rowsOf]
      exact List.mem_filterMap.mpr ⟨row, hrow, hy⟩
    rw [key_of_mem_rowsOf hrow]
    exact (of_decide_eq_true (List.mem_filter.mp hmem).2).symm
  · obtain ⟨z, -, rfl⟩ := List.mem_map.mp h
    obtain rfl := Option.some.inj hy
    rfl

theorem left?_key {xs : List α} {ys : List β} {row : Joined α β} {x : α}
    (h : row ∈ outerJoin kl kr xs ys) (hx : row.left? = some x) : row.key kl kr = kl x := by
  rcases List.mem_append.mp h with h | h
  · obtain ⟨z, -, hrow⟩ := List.mem_flatMap.mp h
    rw [left?_of_mem_rowsOf hrow] at hx
    rw [key_of_mem_rowsOf hrow, Option.some.inj hx]
  · obtain ⟨z, -, rfl⟩ := List.mem_map.mp h
    cases hx

/-- The parts of a row come from the lists. -/
theorem mem_of_left? {xs : List α} {ys : List β} {row : Joined α β} {x : α}
    (h : row ∈ outerJoin kl kr xs ys) (hx : row.left? = some x) : x ∈ xs := by
  rcases List.mem_append.mp h with h | h
  · obtain ⟨z, hz, hrow⟩ := List.mem_flatMap.mp h
    rw [left?_of_mem_rowsOf hrow] at hx
    exact Option.some.inj hx ▸ hz
  · obtain ⟨z, -, rfl⟩ := List.mem_map.mp h
    cases hx

/-- Every left element has a row. -/
theorem exists_left {xs : List α} (ys : List β) {x : α} (h : x ∈ xs) :
    ∃ row ∈ outerJoin kl kr xs ys, row.left? = some x := by
  obtain ⟨row, hrow⟩ := List.exists_mem_of_ne_nil _ (@rowsOf_ne_nil _ _ _ _ kl kr ys x)
  exact ⟨row, List.mem_append_left _ (List.mem_flatMap.mpr ⟨x, h, hrow⟩),
    left?_of_mem_rowsOf hrow⟩

/-- Every right element has a row. -/
theorem exists_right (xs : List α) {ys : List β} {y : β} (h : y ∈ ys) :
    ∃ row ∈ outerJoin kl kr xs ys, row.right? = some y := by
  by_cases hkey : kr y ∈ xs.map kl
  · obtain ⟨x, hx, hxy⟩ := List.mem_map.mp hkey
    have hmem : y ∈ (rowsOf kl kr ys x).filterMap Joined.right? := by
      rw [filterMap_right?_rowsOf]
      exact List.mem_filter.mpr ⟨h, decide_eq_true hxy.symm⟩
    obtain ⟨row, hrow, hy⟩ := List.mem_filterMap.mp hmem
    exact ⟨row, List.mem_append_left _ (List.mem_flatMap.mpr ⟨x, hx, hrow⟩), hy⟩
  · refine ⟨.right y, List.mem_append_right _ (List.mem_map_of_mem ?_), rfl⟩
    exact List.mem_filter.mpr ⟨h, decide_eq_true hkey⟩

/-! ### One row for each key -/

theorem length_matching (ys : List β) (k : κ) :
    (matching kr ys k).length = (ys.map kr).count k := by
  induction ys with
  | nil => rfl
  | cons y ys ih =>
    unfold matching at ih ⊢
    by_cases h : kr y = k
    · simp [h, ih]
    · simp [h, ih]

/-- The rows of an element: one, or as many as there are matches. -/
theorem length_rowsOf (ys : List β) (x : α) :
    (rowsOf kl kr ys x).length = max 1 ((ys.map kr).count (kl x)) := by
  rw [← length_matching]
  unfold rowsOf
  split
  · next hnil => simp [hnil]
  · next hne =>
    have hpos := List.length_pos_iff.mpr hne
    rw [List.length_map]
    omega

theorem map_key_rowsOf (ys : List β) (x : α) :
    (rowsOf kl kr ys x).map (Joined.key kl kr) =
      List.replicate (max 1 ((ys.map kr).count (kl x))) (kl x) := by
  rw [← length_rowsOf, List.eq_replicate_iff]
  refine ⟨List.length_map _, fun k hk => ?_⟩
  obtain ⟨row, hrow, rfl⟩ := List.mem_map.mp hk
  exact key_of_mem_rowsOf hrow

/-- The rows of the left elements with a key. -/
theorem count_key_flatMap (xs : List α) (ys : List β) (k : κ) :
    ((xs.flatMap (rowsOf kl kr ys)).map (Joined.key kl kr)).count k =
      (xs.map kl).count k * max 1 ((ys.map kr).count k) := by
  induction xs with
  | nil => simp
  | cons x xs ih =>
    rw [List.flatMap_cons, List.map_append, List.count_append, ih, map_key_rowsOf,
      List.map_cons, List.count_cons, List.count_replicate]
    by_cases h : kl x = k
    · subst h
      simp only [beq_self_eq_true, if_true]
      rw [Nat.add_mul, Nat.one_mul, Nat.add_comm]
    · simp [h]

/-- The rows of the right elements with a key that stand alone. -/
theorem count_key_unmatched (xs : List α) (ys : List β) (k : κ) :
    ((unmatched kl kr xs ys).map kr).count k =
      if k ∈ xs.map kl then 0 else (ys.map kr).count k := by
  induction ys with
  | nil => simp [unmatched]
  | cons y ys ih =>
    unfold unmatched at ih ⊢
    rw [List.filter_cons, List.map_cons, List.count_cons]
    by_cases hy : kr y ∈ xs.map kl
    · rw [if_neg (by simpa using hy), ih]
      split
      · rfl
      · next hk =>
        have hne : kr y ≠ k := fun heq => hk (heq ▸ hy)
        simp [hne]
    · rw [if_pos (by simpa using hy), List.map_cons, List.count_cons, ih]
      split
      · next hk =>
        have hne : kr y ≠ k := fun heq => hy (heq ▸ hk)
        simp [hne]
      · rfl

/-- How often a key comes out of the join. -/
theorem count_key_outerJoin (xs : List α) (ys : List β) (k : κ) :
    ((outerJoin kl kr xs ys).map (Joined.key kl kr)).count k =
      if (xs.map kl).count k = 0 then (ys.map kr).count k
      else (xs.map kl).count k * max 1 ((ys.map kr).count k) := by
  have hright : ((unmatched kl kr xs ys).map .right).map (Joined.key kl kr) =
      (unmatched kl kr xs ys).map kr := by
    rw [List.map_map]
    rfl
  unfold outerJoin
  rw [List.map_append, List.count_append, hright, count_key_flatMap, count_key_unmatched]
  by_cases hk : k ∈ xs.map kl
  · have hpos : (xs.map kl).count k ≠ 0 := by
      rw [Ne, List.count_eq_zero]
      exact not_not.mpr hk
    rw [if_pos hk, if_neg hpos, Nat.add_zero]
  · have hzero : (xs.map kl).count k = 0 := List.count_eq_zero.mpr hk
    rw [if_neg hk, if_pos hzero, hzero, Nat.zero_mul, Nat.zero_add]

/-- **One row for each key**: the join repeats a key iff one of the lists does. -/
theorem nodup_key_iff (xs : List α) (ys : List β) :
    ((outerJoin kl kr xs ys).map (Joined.key kl kr)).Nodup ↔
      (xs.map kl).Nodup ∧ (ys.map kr).Nodup := by
  simp only [List.nodup_iff_count_le_one, count_key_outerJoin]
  rw [← forall_and]
  refine forall_congr' fun k => ?_
  generalize (xs.map kl).count k = a
  generalize (ys.map kr).count k = b
  split
  · omega
  · next ha =>
    constructor
    · intro hle
      have hb : 1 ≤ max 1 b := Nat.le_max_left _ _
      have hale : a ≤ a * max 1 b := Nat.le_mul_of_pos_right a hb
      have hble : max 1 b ≤ a * max 1 b := Nat.le_mul_of_pos_left _ (Nat.pos_of_ne_zero ha)
      exact ⟨by omega, by omega⟩
    · rintro ⟨hale, hble⟩
      obtain rfl : a = 1 := by omega
      rw [Nat.one_mul]
      omega

/-! ### Every element once -/

/-- If no right key repeats, every left element has one row. -/
theorem lefts_outerJoin (xs : List α) {ys : List β} (h : (ys.map kr).Nodup) :
    (outerJoin kl kr xs ys).filterMap Joined.left? = xs := by
  have hone : ∀ x, (rowsOf kl kr ys x).filterMap Joined.left? = [x] := by
    intro x
    have hlength : (rowsOf kl kr ys x).length = 1 := by
      rw [length_rowsOf]
      have := List.nodup_iff_count_le_one.mp h (kl x)
      omega
    obtain ⟨row, hrow⟩ := List.length_eq_one_iff.mp hlength
    have hleft := left?_of_mem_rowsOf (hrow ▸ List.mem_singleton_self row)
    simp [hrow, hleft]
  have hright : ((unmatched kl kr xs ys).map Joined.right).filterMap
      (@Joined.left? α β) = [] := by
    rw [List.filterMap_map]
    exact List.filterMap_eq_nil_iff.mpr fun y _ => rfl
  unfold outerJoin
  rw [List.filterMap_append, hright, List.append_nil, List.filterMap_flatMap]
  simp [hone]

theorem filter_or_perm {p q : β → Bool} (h : ∀ y, p y = true → q y = false) (ys : List β) :
    (ys.filter p ++ ys.filter q).Perm (ys.filter fun y => p y || q y) := by
  induction ys with
  | nil => exact List.Perm.nil
  | cons y ys ih =>
    cases hp : p y with
    | true => simpa [hp, h y hp] using ih
    | false =>
      cases hq : q y with
      | true =>
        simp only [List.filter_cons, hp, hq, Bool.or_true, if_true]
        exact List.perm_middle.trans (ih.cons y)
      | false => simpa [hp, hq] using ih

/-- If no left key repeats, every right element has one row. -/
theorem rights_outerJoin {xs : List α} (ys : List β) (h : (xs.map kl).Nodup) :
    ((outerJoin kl kr xs ys).filterMap Joined.right?).Perm ys := by
  -- distinct keys on the left: each right row is matched at most once
  have hmatched : (xs.flatMap fun x => matching kr ys (kl x)).Perm
      (ys.filter fun y => decide (kr y ∈ xs.map kl)) := by
    induction xs with
    | nil => simp
    | cons x xs ih =>
      obtain ⟨hx, hxs⟩ := List.nodup_cons.mp h
      rw [List.flatMap_cons]
      refine ((ih hxs).append_left _).trans ?_
      unfold matching
      refine (filter_or_perm ?_ ys).trans (List.Perm.of_eq ?_)
      · intro y hy
        rw [of_decide_eq_true hy]
        exact decide_eq_false hx
      · refine List.filter_congr fun y _ => ?_
        simp [List.mem_cons]
  have hright : ((unmatched kl kr xs ys).map Joined.right).filterMap
      (@Joined.right? α β) = unmatched kl kr xs ys := by
    rw [List.filterMap_map]
    exact List.filterMap_some
  unfold outerJoin
  rw [List.filterMap_append, hright, List.filterMap_flatMap]
  simp only [filterMap_right?_rowsOf]
  refine (hmatched.append_right _).trans ?_
  have hsplit := List.filter_append_perm (fun y => decide (kr y ∈ xs.map kl)) ys
  unfold unmatched
  simpa only [decide_not] using hsplit

end OuterJoin
