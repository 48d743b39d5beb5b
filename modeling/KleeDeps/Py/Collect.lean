import KleeDeps.Py.Dict

/-!
# A dictionary filled in a loop

The loop `for x in xs: d[k] = add(d.get(k, start), x)`, where `k` is the key of `x` and an
element without a key is skipped: at each key it collects the elements of this key, in order.

- `collect`: the loop; `collected`: what it finds at one key;
- `get?_collect`: **the loop, seen from a key**.
-/

universe u v w

namespace Py.Dict

variable {κ : Type u} {σ : Type v} {α : Type w} [DecidableEq κ]

/-- One round of the loop. -/
def collectOne (key : α → Option κ) (start : σ) (add : σ → α → σ) (d : Dict κ σ) (x : α) :
    Dict κ σ :=
  match key x with
  | none => d
  | some k => d.set k (add ((d.get? k).getD start) x)

/-- The loop. -/
def collect (key : α → Option κ) (start : σ) (add : σ → α → σ) (d : Dict κ σ) (xs : List α) :
    Dict κ σ :=
  xs.foldl (collectOne key start add) d

/-- What is collected from the elements of one key: nothing if there are none. -/
def collected (start : σ) (add : σ → α → σ) (xs : List α) : Option σ :=
  if xs.isEmpty then none else some (xs.foldl add start)

/-- The elements of a key. -/
def ofKey (key : α → Option κ) (k : κ) (xs : List α) : List α :=
  xs.filter fun x => decide (key x = some k)

variable {key : α → Option κ} {start : σ} {add : σ → α → σ} {k : κ} {xs ys : List α}
  {d : Dict κ σ}

theorem mem_ofKey {x : α} : x ∈ ofKey key k xs ↔ x ∈ xs ∧ key x = some k := by
  rw [ofKey, List.mem_filter, decide_eq_true_iff]

theorem ofKey_append : ofKey key k (xs ++ ys) = ofKey key k xs ++ ofKey key k ys :=
  List.filter_append xs ys

theorem collected_append_singleton (x : α) :
    collected start add (xs ++ [x]) = some (add ((collected start add xs).getD start) x) := by
  cases xs with
  | nil => rfl
  | cons y ys =>
    show some ((y :: (ys ++ [x])).foldl add start) = some (add ((y :: ys).foldl add start) x)
    rw [← List.cons_append, List.foldl_append]
    rfl

theorem collected_eq_some_iff {s : σ} :
    collected start add xs = some s ↔ xs ≠ [] ∧ xs.foldl add start = s := by
  cases xs with
  | nil => exact ⟨fun h => (by cases h), fun h => absurd rfl h.1⟩
  | cons x xs =>
    rw [collected, List.isEmpty_cons, if_neg Bool.false_ne_true, Option.some.injEq]
    exact ⟨fun h => ⟨List.cons_ne_nil x xs, h⟩, fun h => h.2⟩

/-- **Step lemma**: a round adds its element to what its key has collected. -/
theorem get?_collectOne (h : d.get? k = collected start add xs) (x : α) :
    (collectOne key start add d x).get? k = collected start add (xs ++ ofKey key k [x]) := by
  rw [collectOne]
  cases hkey : key x with
  | none =>
    have hother : ofKey key k [x] = [] := by
      rw [ofKey, List.filter_singleton, hkey]
      rfl
    rw [hother, List.append_nil]
    exact h
  | some k' =>
    dsimp only
    rw [get?_set]
    by_cases hk : k' = k
    · have hown : ofKey key k [x] = [x] := by
        rw [ofKey, List.filter_singleton, hkey, hk, decide_eq_true rfl]
        rfl
      rw [if_pos hk, hown, collected_append_singleton, hk, h]
    · have hother : ofKey key k [x] = [] := by
        rw [ofKey, List.filter_singleton, hkey, decide_eq_false fun he => hk (Option.some.inj he)]
        rfl
      rw [if_neg hk, hother, List.append_nil]
      exact h

/-- **Run lemma**: the loop goes on from what its keys have collected. -/
theorem get?_collect_of (h : d.get? k = collected start add xs) (ys : List α) :
    (collect key start add d ys).get? k = collected start add (xs ++ ofKey key k ys) := by
  induction ys generalizing d xs with
  | nil =>
    rw [ofKey, List.filter_nil, List.append_nil]
    exact h
  | cons y ys ih =>
    have hrest := ih (@get?_collectOne _ _ _ _ key start add k xs d h y)
    rw [List.append_assoc, ← ofKey_append, List.singleton_append] at hrest
    exact hrest

/-- **The loop, seen from a key.** -/
theorem get?_collect (xs : List α) :
    (collect key start add .empty xs).get? k = collected start add (ofKey key k xs) := by
  have hempty : Dict.get? .empty k = collected start add ([] : List α) := rfl
  exact get?_collect_of hempty xs

theorem mem_keys_iff : k ∈ d.keys ↔ ∃ s, d.get? k = some s :=
  ⟨exists_get?_of_mem_keys, fun ⟨_, hs⟩ => mem_keys_of_get? hs⟩

theorem exists_collected_iff : (∃ s, collected start add xs = some s) ↔ xs ≠ [] :=
  ⟨fun ⟨_, hs⟩ => (collected_eq_some_iff.mp hs).1, fun h =>
    ⟨_, collected_eq_some_iff.mpr ⟨h, rfl⟩⟩⟩

end Py.Dict
