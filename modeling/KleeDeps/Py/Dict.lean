import Mathlib.Data.List.Induction
import Mathlib.Data.List.Nodup
import Mathlib.Data.List.Perm.Basic

/-!
# Insertion-ordered dictionaries

A Python `dict`: distinct keys in the order of their first insertion;
assigning to a present key replaces its value and keeps its place. Order
matters to the callers that turn a dictionary into an argument list, so two
dictionaries are equal here only if their item lists are.

- `get?_set`: what a lookup sees after an assignment;
- `items_set_of_notMem`: a new key goes to the end;
- `setAll`: assigning a list of items one by one; distinct new keys are
  appended as they are (`items_setAll`);
- `group`: the elements of a list by a key (`get?_group`, `mem_group_iff`).
-/

universe u v w

namespace Py

/-- A `dict`: its items in insertion order. -/
structure Dict (κ : Type u) (ν : Type v) where
  items : List (κ × ν)
  nodup : (items.map Prod.fst).Nodup

namespace Dict

variable {κ : Type u} {ν : Type v}

@[ext] theorem ext {d e : Dict κ ν} (h : d.items = e.items) : d = e := by
  cases d
  cases e
  simp only at h
  subst h
  rfl

instance [DecidableEq κ] [DecidableEq ν] : DecidableEq (Dict κ ν) := fun _ _ =>
  decidable_of_iff _ (Iff.symm Dict.ext_iff)

/-- `{}`. -/
def empty : Dict κ ν := ⟨[], List.nodup_nil⟩

/-- `list(d.keys())`. -/
def keys (d : Dict κ ν) : List κ := d.items.map Prod.fst

/-- Lookup in an item list. -/
def lookup [DecidableEq κ] (k : κ) : List (κ × ν) → Option ν
  | [] => none
  | (k', v) :: items => if k' = k then some v else lookup k items

/-- Assignment in an item list. -/
def insert [DecidableEq κ] (k : κ) (v : ν) : List (κ × ν) → List (κ × ν)
  | [] => [(k, v)]
  | (k', v') :: items => if k' = k then (k, v) :: items else (k', v') :: insert k v items

section

variable [DecidableEq κ]

theorem keys_insert (k : κ) (v : ν) (items : List (κ × ν)) :
    (insert k v items).map Prod.fst =
      if k ∈ items.map Prod.fst then items.map Prod.fst else items.map Prod.fst ++ [k] := by
  induction items with
  | nil => simp [insert]
  | cons item items ih =>
    obtain ⟨k', v'⟩ := item
    by_cases h : k' = k
    · subst h
      simp [insert]
    · have hk : k ≠ k' := Ne.symm h
      rw [insert, if_neg h, List.map_cons, List.map_cons, ih]
      by_cases hmem : k ∈ items.map Prod.fst
      · rw [if_pos hmem, if_pos (List.mem_cons_of_mem _ hmem)]
      · rw [if_neg hmem, if_neg (by simpa [hk] using hmem), List.cons_append]

/-- `d[k] = v`. -/
def set (d : Dict κ ν) (k : κ) (v : ν) : Dict κ ν where
  items := insert k v d.items
  nodup := by
    rw [keys_insert]
    split
    · exact d.nodup
    · next h => exact List.nodup_append.mpr ⟨d.nodup, List.nodup_singleton k, by
        rintro a ha b hb rfl
        exact h (List.mem_singleton.mp hb ▸ ha)⟩

theorem mem_keys_set (d : Dict κ ν) (k k' : κ) (v : ν) :
    k' ∈ (d.set k v).keys ↔ k' = k ∨ k' ∈ d.keys := by
  show k' ∈ (insert k v d.items).map Prod.fst ↔ _
  rw [keys_insert]
  split
  · next hk =>
    constructor
    · exact Or.inr
    · rintro (rfl | h)
      · exact hk
      · exact h
  · rw [List.mem_append, List.mem_singleton, or_comm]
    rfl

/-- `d.get(k)`. -/
def get? (d : Dict κ ν) (k : κ) : Option ν := lookup k d.items

@[simp] theorem get?_empty (k : κ) : (empty : Dict κ ν).get? k = none := rfl

theorem lookup_insert (k k' : κ) (v : ν) (items : List (κ × ν)) :
    lookup k' (insert k v items) = if k = k' then some v else lookup k' items := by
  induction items with
  | nil => rfl
  | cons item items ih =>
    obtain ⟨k'', v''⟩ := item
    by_cases h : k'' = k
    · subst h
      by_cases hk : k'' = k'
      · simp [insert, lookup, hk]
      · simp [insert, lookup, hk]
    · rw [insert, if_neg h, lookup, lookup, ih]
      by_cases hk : k = k'
      · subst hk
        simp [h]
      · simp [hk]

theorem get?_set (d : Dict κ ν) (k k' : κ) (v : ν) :
    (d.set k v).get? k' = if k = k' then some v else d.get? k' :=
  lookup_insert k k' v d.items

@[simp] theorem get?_set_self (d : Dict κ ν) (k : κ) (v : ν) : (d.set k v).get? k = some v := by
  rw [get?_set, if_pos rfl]

theorem get?_set_of_ne (d : Dict κ ν) {k k' : κ} (h : k ≠ k') (v : ν) :
    (d.set k v).get? k' = d.get? k' := by
  rw [get?_set, if_neg h]

theorem insert_of_notMem {k : κ} (v : ν) {items : List (κ × ν)} (h : k ∉ items.map Prod.fst) :
    insert k v items = items ++ [(k, v)] := by
  induction items with
  | nil => rfl
  | cons item items ih =>
    obtain ⟨k', v'⟩ := item
    simp only [List.map_cons, List.mem_cons, not_or] at h
    rw [insert, if_neg (Ne.symm h.1), ih h.2, List.cons_append]

/-- A new key goes to the end. -/
theorem items_set_of_notMem (d : Dict κ ν) {k : κ} (v : ν) (h : k ∉ d.keys) :
    (d.set k v).items = d.items ++ [(k, v)] :=
  insert_of_notMem v h

/-- Assign a list of items one by one. -/
def setAll (d : Dict κ ν) (items : List (κ × ν)) : Dict κ ν :=
  items.foldl (fun d item => d.set item.1 item.2) d

/-- Distinct new keys: the items are appended as they are. -/
theorem items_setAll (d : Dict κ ν) {items : List (κ × ν)}
    (h : (d.items ++ items).map Prod.fst |>.Nodup) :
    (d.setAll items).items = d.items ++ items := by
  induction items generalizing d with
  | nil => simp [setAll]
  | cons item items ih =>
    obtain ⟨k, v⟩ := item
    have hk : k ∉ d.keys := by
      rw [List.map_append, List.map_cons, List.nodup_append] at h
      exact fun hmem => h.2.2 k hmem k (by simp) rfl
    have hset := items_set_of_notMem d v hk
    show ((d.set k v).setAll items).items = _
    rw [ih (d.set k v) (by rw [hset]; simpa using h), hset]
    simp

theorem lookup_of_mem {k : κ} {v : ν} {items : List (κ × ν)} (h : (items.map Prod.fst).Nodup)
    (hmem : (k, v) ∈ items) : lookup k items = some v := by
  induction items with
  | nil => simp at hmem
  | cons item items ih =>
    obtain ⟨k', v'⟩ := item
    rw [List.map_cons, List.nodup_cons] at h
    rcases List.mem_cons.mp hmem with he | hmem
    · cases he
      rw [lookup, if_pos rfl]
    · have hk : k' ≠ k := by
        rintro rfl
        exact h.1 (List.mem_map.mpr ⟨_, hmem, rfl⟩)
      rw [lookup, if_neg hk, ih h.2 hmem]

/-- An item of the dictionary is what a lookup finds. -/
theorem get?_of_mem (d : Dict κ ν) {k : κ} {v : ν} (h : (k, v) ∈ d.items) : d.get? k = some v :=
  lookup_of_mem d.nodup h

theorem mem_of_lookup {k : κ} {v : ν} {items : List (κ × ν)} (h : lookup k items = some v) :
    (k, v) ∈ items := by
  induction items with
  | nil => cases h
  | cons item items ih =>
    obtain ⟨k', v'⟩ := item
    rw [lookup] at h
    by_cases hk : k' = k
    · rw [if_pos hk] at h
      rw [← Option.some.inj h, ← hk]
      exact List.mem_cons_self
    · rw [if_neg hk] at h
      exact List.mem_cons_of_mem _ (ih h)

theorem exists_lookup_of_mem {k : κ} {items : List (κ × ν)} (h : k ∈ items.map Prod.fst) :
    ∃ v, lookup k items = some v := by
  induction items with
  | nil => cases h
  | cons item items ih =>
    obtain ⟨k', v⟩ := item
    rw [lookup]
    by_cases hk : k' = k
    · exact ⟨v, if_pos hk⟩
    · rw [if_neg hk]
      rcases List.mem_cons.mp h with he | h
      · exact absurd he.symm hk
      · exact ih h

theorem mem_items_iff {d : Dict κ ν} {k : κ} {v : ν} : (k, v) ∈ d.items ↔ d.get? k = some v :=
  ⟨get?_of_mem d, mem_of_lookup⟩

theorem mem_keys_of_get? {d : Dict κ ν} {k : κ} {v : ν} (h : d.get? k = some v) : k ∈ d.keys :=
  List.mem_map.mpr ⟨(k, v), mem_items_iff.mpr h, rfl⟩

theorem exists_get?_of_mem_keys {d : Dict κ ν} {k : κ} (h : k ∈ d.keys) :
    ∃ v, d.get? k = some v := by
  obtain ⟨⟨k', v⟩, hmem, rfl⟩ := List.mem_map.mp h
  exact ⟨v, get?_of_mem d hmem⟩

/-- A lookup finds the first item of the key. -/
theorem exists_split_of_lookup {k : κ} {v : ν} {items : List (κ × ν)}
    (h : lookup k items = some v) :
    ∃ before after, items = before ++ (k, v) :: after ∧ ∀ item ∈ before, item.1 ≠ k := by
  induction items with
  | nil => cases h
  | cons item items ih =>
    obtain ⟨k', v'⟩ := item
    rw [lookup] at h
    by_cases hk : k' = k
    · rw [if_pos hk] at h
      refine ⟨[], items, ?_, fun item hitem => absurd hitem List.not_mem_nil⟩
      rw [hk, Option.some.inj h]
      rfl
    · rw [if_neg hk] at h
      obtain ⟨before, after, rfl, hbefore⟩ := ih h
      refine ⟨(k', v') :: before, after, rfl, fun item hitem => ?_⟩
      rcases List.mem_cons.mp hitem with rfl | hitem
      · exact hk
      · exact hbefore item hitem

/-- `{key: f(value) for key, value in d.items()}`. -/
def mapValues {ξ : Type w} (f : ν → ξ) (d : Dict κ ν) : Dict κ ξ where
  items := d.items.map fun item => (item.1, f item.2)
  nodup := by
    rw [List.map_map]
    exact d.nodup

theorem get?_mapValues {ξ : Type w} (f : ν → ξ) (d : Dict κ ν) (k : κ) :
    (d.mapValues f).get? k = (d.get? k).map f := by
  show lookup k (d.items.map fun item => (item.1, f item.2)) = (lookup k d.items).map f
  induction d.items with
  | nil => rfl
  | cons item items ih =>
    obtain ⟨k', v⟩ := item
    rw [List.map_cons, lookup, lookup, ih]
    split
    · rfl
    · rfl

theorem mem_keys_setAll (d : Dict κ ν) (items : List (κ × ν)) (k : κ) :
    k ∈ (d.setAll items).keys ↔ k ∈ d.keys ∨ k ∈ items.map Prod.fst := by
  induction items generalizing d with
  | nil => exact (or_iff_left List.not_mem_nil).symm
  | cons item items ih =>
    show k ∈ ((d.set item.1 item.2).setAll items).keys ↔ _
    rw [ih, mem_keys_set, List.map_cons, List.mem_cons]
    tauto

theorem setAll_append (d : Dict κ ν) (xs ys : List (κ × ν)) :
    d.setAll (xs ++ ys) = (d.setAll xs).setAll ys := by
  rw [setAll, List.foldl_append]
  rfl

/-- What a lookup sees after assigning a list of items: the last assignment to
the key, or what was there before. -/
theorem get?_setAll (d : Dict κ ν) (items : List (κ × ν)) (k : κ) :
    (d.setAll items).get? k = (lookup k items.reverse).or (d.get? k) := by
  induction items using List.reverseRecOn with
  | nil => simp [setAll, lookup]
  | append_singleton items item ih =>
    rw [setAll_append, List.reverse_append]
    show ((d.setAll items).set item.1 item.2).get? k = (lookup k (item :: items.reverse)).or _
    rw [get?_set, ih, lookup]
    split
    · rfl
    · rfl

/-- Items assigned to an empty dictionary, distinct keys. -/
theorem items_setAll_empty {items : List (κ × ν)} (h : (items.map Prod.fst).Nodup) :
    ((empty : Dict κ ν).setAll items).items = items := by
  rw [items_setAll _ (by simpa [empty] using h)]
  rfl

/-- The order in which distinct keys are assigned shows in no lookup. -/
theorem get?_setAll_empty_congr {xs ys : List (κ × ν)} (hx : (xs.map Prod.fst).Nodup)
    (hy : (ys.map Prod.fst).Nodup) (h : ∀ x, x ∈ xs ↔ x ∈ ys) (k : κ) :
    (setAll empty xs).get? k = (setAll empty ys).get? k := by
  refine Option.ext fun v => ?_
  rw [← mem_items_iff, ← mem_items_iff, items_setAll_empty hx, items_setAll_empty hy]
  exact h (k, v)

theorem get?_setAll_of_notMem (d : Dict κ ν) {k : κ} {items : List (κ × ν)}
    (h : k ∉ items.map Prod.fst) : (d.setAll items).get? k = d.get? k := by
  induction items generalizing d with
  | nil => rfl
  | cons item items ih =>
    rw [List.map_cons, List.mem_cons, not_or] at h
    show ((d.set item.1 item.2).setAll items).get? k = _
    rw [ih _ h.2, get?_set_of_ne _ (Ne.symm h.1)]

/-- Where all items of a key have a property, what is found there has it. -/
theorem exists_get?_setAll {p : ν → Prop} (d : Dict κ ν) {items : List (κ × ν)} {k : κ}
    (hitems : ∀ v, (k, v) ∈ items → p v)
    (h : (∃ v, d.get? k = some v ∧ p v) ∨ k ∈ items.map Prod.fst) :
    ∃ v, (d.setAll items).get? k = some v ∧ p v := by
  induction items generalizing d with
  | nil =>
    rcases h with h | h
    · exact h
    · cases h
  | cons item items ih =>
    obtain ⟨k', v'⟩ := item
    show ∃ v, ((d.set k' v').setAll items).get? k = some v ∧ p v
    refine ih _ (fun v hv => hitems v (List.mem_cons_of_mem _ hv)) ?_
    by_cases hk : k' = k
    · subst hk
      exact Or.inl ⟨v', get?_set_self d k' v', hitems v' List.mem_cons_self⟩
    · rw [get?_set_of_ne _ hk]
      rcases h with h | h
      · exact Or.inl h
      · rcases List.mem_cons.mp h with he | h
        · exact absurd he.symm hk
        · exact Or.inr h

theorem filter_insert {p : κ × ν → Bool} {k : κ} (hp : ∀ v, p (k, v) = false) (v : ν)
    (items : List (κ × ν)) : (insert k v items).filter p = items.filter p := by
  induction items with
  | nil => rw [insert, List.filter_cons, if_neg (by rw [hp v]; decide)]
  | cons item items ih =>
    obtain ⟨k', v'⟩ := item
    by_cases hk : k' = k
    · subst hk
      rw [insert, if_pos rfl, List.filter_cons_of_neg (by rw [hp v]; decide),
        List.filter_cons_of_neg (by rw [hp v']; decide)]
    · rw [insert, if_neg hk, List.filter_cons, List.filter_cons, ih]

/-- What is assigned to other keys does not show among the items of some. -/
theorem filter_setAll {p : κ × ν → Bool} {items : List (κ × ν)}
    (hp : ∀ item ∈ items, ∀ v, p (item.1, v) = false) (d : Dict κ ν) :
    (d.setAll items).items.filter p = d.items.filter p := by
  induction items generalizing d with
  | nil => rfl
  | cons item items ih =>
    show ((d.set item.1 item.2).setAll items).items.filter p = _
    rw [ih fun other hother => hp other (List.mem_cons_of_mem _ hother)]
    exact filter_insert (hp item List.mem_cons_self) item.2 d.items

/-! ## Grouping -/

/-- `for x in xs: groups.setdefault(key(x), []).append(x)`. -/
def group {α : Type w} (key : α → κ) (xs : List α) : Dict κ (List α) :=
  xs.foldl (fun groups x => groups.set (key x) ((groups.get? (key x)).getD [] ++ [x])) empty

/-- The group of a key: the elements with this key, if there are any. -/
theorem get?_group {α : Type w} (key : α → κ) (xs : List α) (k : κ) :
    (group key xs).get? k =
      if xs.filter (key · = k) = [] then none else some (xs.filter (key · = k)) := by
  induction xs using List.reverseRecOn with
  | nil => rfl
  | append_singleton xs x ih =>
    have hstep : group key (xs ++ [x]) =
        (group key xs).set (key x) (((group key xs).get? (key x)).getD [] ++ [x]) := by
      rw [group, List.foldl_append]
      rfl
    rw [hstep, get?_set, List.filter_append]
    by_cases hk : key x = k
    · subst hk
      have hone : [x].filter (key · = key x) = [x] := List.filter_cons_of_pos (by simp)
      have hne : xs.filter (key · = key x) ++ [x] ≠ [] := by simp
      rw [if_pos rfl, ih, hone, if_neg hne]
      by_cases hnil : xs.filter (key · = key x) = []
      · rw [if_pos hnil, hnil]
        rfl
      · rw [if_neg hnil]
        rfl
    · have hone : [x].filter (key · = k) = [] := List.filter_cons_of_neg (by simpa using hk)
      rw [if_neg hk, ih, hone, List.append_nil]

/-- The groups hold the elements, and nothing else. -/
theorem mem_group_iff {α : Type w} {key : α → κ} {xs : List α} {x : α} :
    (∃ item ∈ (group key xs).items, x ∈ item.2) ↔ x ∈ xs := by
  constructor
  · rintro ⟨⟨k, members⟩, hitem, hx⟩
    have hget := get?_group key xs k
    rw [get?_of_mem _ hitem] at hget
    by_cases hnil : xs.filter (key · = k) = []
    · rw [if_pos hnil] at hget
      cases hget
    · rw [if_neg hnil] at hget
      rw [Option.some.inj hget] at hx
      exact (List.mem_filter.mp hx).1
  · intro hx
    have hmem : x ∈ xs.filter (key · = key x) := List.mem_filter.mpr ⟨hx, by simp⟩
    have hget := get?_group key xs (key x)
    rw [if_neg (List.ne_nil_of_mem hmem)] at hget
    exact ⟨_, mem_of_lookup hget, hmem⟩

end

end Dict

end Py
