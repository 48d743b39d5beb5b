import Mathlib.Data.List.MinMax
import Mathlib.Data.List.Pairwise
import KleeDeps.Data.Sequence
import KleeDeps.Py.Dict

/-!
# The best element of each key

Two ways to choose an element of least cost for every key of a list, and to rank the elements of
a key.

- `keep`: one pass, the best so far of each key in a dictionary. `get?_best` and `keys_best` say
  what it ends with, `mem_values_best_iff` that it has the optimal elements;
- `numbered`: each element with the number of earlier ones of its key. `mem_numbered_iff`: where
  the costs of a key go up, that is the number of better ones.
-/

namespace KleeDeps.BestByKey

open Py

universe u

variable {α κ C : Type u}

/-! ## First appearances -/

section FirstAppearances

variable [BEq α] [LawfulBEq α]

theorem nodup_eraseDups (xs : List α) : xs.eraseDups.Nodup := by
  induction hn : xs.length using Nat.strong_induction_on generalizing xs with
  | _ n ih =>
    cases xs with
    | nil => exact List.nodup_nil
    | cons x xs =>
      rw [List.eraseDups_cons, List.nodup_cons]
      refine ⟨fun hmem => ?_, ih _ ?_ _ rfl⟩
      · have hx := (List.mem_filter.mp (List.mem_eraseDups.mp hmem)).2
        rw [beq_self_eq_true] at hx
        cases hx
      · rw [← hn]
        exact Nat.lt_succ_of_le (List.length_filter_le _ xs)

theorem eraseDups_of_nodup {xs : List α} (h : xs.Nodup) : xs.eraseDups = xs := by
  induction xs with
  | nil => rfl
  | cons x xs ih =>
    obtain ⟨hx, hxs⟩ := List.nodup_cons.mp h
    have hall : ∀ y ∈ xs, (!y == x) = true := by
      intro y hy
      rw [Bool.not_eq_true', beq_eq_false_iff_ne]
      rintro rfl
      exact hx hy
    rw [List.eraseDups_cons, List.filter_eq_self.mpr hall, ih hxs]

end FirstAppearances

/-! ## Costs -/

section Optimal

variable (key : α → κ) (cost : α → C)

/-- An element of the list that no element of its key undercuts. -/
def Optimal [LE C] (xs : List α) (x : α) : Prop :=
  x ∈ xs ∧ ∀ y ∈ xs, key y = key x → cost x ≤ cost y

/-- No two elements of a key cost the same. -/
def Apart (xs : List α) : Prop := xs.Pairwise fun x y => key x = key y → cost x ≠ cost y

/-- The costs of a key go up along the list. -/
def Ascending [LE C] (xs : List α) : Prop :=
  xs.Pairwise fun x y => key x = key y → cost x ≤ cost y

end Optimal

variable [DecidableEq κ] {key : α → κ} {cost : α → C}

omit [DecidableEq κ] in
theorem Apart.perm {xs ys : List α} (h : xs.Perm ys) :
    Apart key cost xs ↔ Apart key cost ys :=
  h.pairwise_iff fun hne hkey hcost => hne hkey.symm hcost.symm

omit [DecidableEq κ] in
theorem Apart.eq_of {xs : List α} (h : Apart key cost xs) {x y : α} (hx : x ∈ xs) (hy : y ∈ xs)
    (hkey : key x = key y) (hcost : cost x = cost y) : x = y := by
  by_contra hne
  have : Std.Symm fun x y => key x = key y → cost x ≠ cost y :=
    ⟨fun _ _ hxy hkey hcost => hxy hkey.symm hcost.symm⟩
  exact List.Pairwise.forall h hx hy hne hkey hcost

/-- The elements of a key. -/
def ofKey (key : α → κ) (xs : List α) (k : κ) : List α := xs.filter fun x => key x = k

theorem mem_ofKey {xs : List α} {k : κ} {x : α} : x ∈ ofKey key xs k ↔ x ∈ xs ∧ key x = k := by
  rw [ofKey, List.mem_filter, decide_eq_true_eq]

theorem ofKey_append (xs ys : List α) (k : κ) :
    ofKey key (xs ++ ys) k = ofKey key xs k ++ ofKey key ys k :=
  List.filter_append xs ys

theorem ofKey_cons_self (x : α) (xs : List α) :
    ofKey key (x :: xs) (key x) = x :: ofKey key xs (key x) :=
  List.filter_cons_of_pos (decide_eq_true rfl)

theorem ofKey_cons_of_ne {x : α} {k : κ} (h : key x ≠ k) (xs : List α) :
    ofKey key (x :: xs) k = ofKey key xs k :=
  List.filter_cons_of_neg fun heq => h (of_decide_eq_true heq)

/-! ## One pass -/

section OnePass

variable [LinearOrder C] (key cost)

/-- A step: the element takes the place of a worse one of its key. -/
def keep (best : Dict κ α) (x : α) : Dict κ α :=
  match best.get? (key x) with
  | none => best.set (key x) x
  | some y => if cost x < cost y then best.set (key x) x else best

/-- The whole pass. -/
def best (xs : List α) : Dict κ α := xs.foldl (keep key cost) .empty

variable {key cost}

omit [DecidableEq κ] in
theorem Optimal.perm {xs ys : List α} (h : xs.Perm ys) {x : α} :
    Optimal key cost xs x ↔ Optimal key cost ys x := by
  simp only [Optimal, h.mem_iff]

omit [DecidableEq κ] in
theorem Optimal.unique {xs : List α} (h : Apart key cost xs) {x y : α}
    (hx : Optimal key cost xs x) (hy : Optimal key cost xs y) (hkey : key x = key y) : x = y :=
  h.eq_of hx.1 hy.1 hkey (le_antisymm (hx.2 y hy.1 hkey.symm) (hy.2 x hx.1 hkey))

/-- **Step lemma**: under each key stands the least of the elements so far. -/
theorem get?_keep {xs : List α} {d : Dict κ α}
    (h : ∀ k, d.get? k = (ofKey key xs k).argmin cost) (x : α) (k : κ) :
    (keep key cost d x).get? k = (ofKey key (xs ++ [x]) k).argmin cost := by
  rw [ofKey_append]
  by_cases hk : key x = k
  · subst hk
    rw [ofKey_cons_self, show ofKey key [] (key x) = [] from rfl, List.argmin_concat, ← h, keep]
    cases hprevious : d.get? (key x) with
    | none => exact Dict.get?_set_self d (key x) x
    | some y =>
      by_cases hless : cost x < cost y
      · simp only [if_pos hless, Dict.get?_set_self]
      · simp only [if_neg hless, hprevious]
  · rw [ofKey_cons_of_ne hk, show ofKey key [] k = [] from rfl, List.append_nil, ← h, keep]
    split
    · exact Dict.get?_set_of_ne d hk x
    · split
      · exact Dict.get?_set_of_ne d hk x
      · rfl

theorem get?_best (xs : List α) (k : κ) :
    (best key cost xs).get? k = (ofKey key xs k).argmin cost :=
  Sequence.foldl_induction (f := keep key cost)
    (fun done d => ∀ k, d.get? k = (ofKey key done k).argmin cost) (s := Dict.empty) []
    (fun _ => rfl) (fun _ x _ hdone k => get?_keep hdone x k) xs k

theorem keys_keep (d : Dict κ α) (x : α) :
    (keep key cost d x).keys = if key x ∈ d.keys then d.keys else d.keys ++ [key x] := by
  have hset : (d.set (key x) x).keys = if key x ∈ d.keys then d.keys else d.keys ++ [key x] :=
    Dict.keys_insert (key x) x d.items
  rw [keep]
  split
  · exact hset
  · next y hy =>
    split
    · exact hset
    · rw [if_pos]
      exact Dict.mem_keys_of_get? hy

variable (key cost) in
/-- The keys stand in the order in which they appear. -/
theorem keys_best [BEq κ] [LawfulBEq κ] (xs : List α) : (best key cost xs).keys = (xs.map key).eraseDups := by
  refine Sequence.foldl_induction (f := keep key cost)
    (fun done d => d.keys = (done.map key).eraseDups) (s := Dict.empty) [] rfl ?_ xs
  intro done x d hdone
  rw [keys_keep, hdone, List.map_append, List.map_singleton, List.eraseDups_append]
  by_cases hmem : key x ∈ done.map key
  · rw [if_pos (List.mem_eraseDups.mpr hmem), List.removeAll, List.filter_cons_of_neg (by simpa using hmem)]
    exact (List.append_nil _).symm
  · rw [if_neg fun h => hmem (List.mem_eraseDups.mp h), List.removeAll,
      List.filter_cons_of_pos (by simpa using hmem)]
    rfl

/-- The elements that are kept, in the order of their keys. -/
theorem values_best [BEq κ] [LawfulBEq κ] (xs : List α) :
    (best key cost xs).items.map Prod.snd =
      (xs.map key).eraseDups.filterMap fun k => (ofKey key xs k).argmin cost := by
  rw [← keys_best key cost, Dict.keys, List.filterMap_map, ← List.filterMap_eq_map]
  refine (List.filterMap_congr fun item hitem => ?_).symm
  rw [Function.comp_apply, ← get?_best, Dict.get?_of_mem _ hitem]
  rfl

variable (key cost) in
/-- Each element that is kept stands under its own key. -/
theorem map_key_values_best [BEq κ] [LawfulBEq κ] (xs : List α) :
    ((best key cost xs).items.map Prod.snd).map key = (xs.map key).eraseDups := by
  rw [← keys_best key cost, Dict.keys, List.map_map]
  refine List.map_congr_left fun item hitem => ?_
  have hmin := Dict.get?_of_mem _ hitem
  rw [get?_best] at hmin
  exact (mem_ofKey.mp (List.argmin_mem hmin)).2

theorem argmin_eq_some_iff {xs : List α} (h : Apart key cost xs) {k : κ} {x : α} :
    (ofKey key xs k).argmin cost = some x ↔ Optimal key cost xs x ∧ key x = k := by
  constructor
  · intro hmin
    obtain ⟨hx, rfl⟩ := mem_ofKey.mp (List.argmin_mem hmin)
    exact ⟨⟨hx, fun y hy hkey => List.le_of_mem_argmin (mem_ofKey.mpr ⟨hy, hkey⟩) hmin⟩, rfl⟩
  · rintro ⟨⟨hx, hle⟩, rfl⟩
    cases hmin : (ofKey key xs (key x)).argmin cost with
    | none =>
      have hnil := List.argmin_eq_none.mp hmin
      exact absurd (mem_ofKey.mpr ⟨hx, rfl⟩) (hnil ▸ List.not_mem_nil)
    | some y =>
      obtain ⟨hy, hkey⟩ := mem_ofKey.mp (List.argmin_mem hmin)
      have hyx : cost y ≤ cost x := List.le_of_mem_argmin (mem_ofKey.mpr ⟨hx, rfl⟩) hmin
      rw [h.eq_of hy hx hkey (le_antisymm hyx (hle y hy hkey))]

theorem mem_values_best_iff {xs : List α} (h : Apart key cost xs) {x : α} :
    x ∈ (best key cost xs).items.map Prod.snd ↔ Optimal key cost xs x := by
  rw [values_best, List.mem_filterMap]
  constructor
  · rintro ⟨k, -, hmin⟩
    exact ((argmin_eq_some_iff h).mp hmin).1
  · intro hoptimal
    exact ⟨key x, List.mem_eraseDups.mpr (List.mem_map_of_mem hoptimal.1),
      (argmin_eq_some_iff h).mpr ⟨hoptimal, rfl⟩⟩

/-- What is kept does not depend on the order of the list. -/
theorem values_best_perm {xs ys : List α} (hperm : xs.Perm ys) (h : Apart key cost ys) :
    ((best key cost xs).items.map Prod.snd).Perm ((best key cost ys).items.map Prod.snd) := by
  have hkeys : (xs.map key).eraseDups.Perm (ys.map key).eraseDups := by
    rw [List.perm_ext_iff_of_nodup (nodup_eraseDups _) (nodup_eraseDups _)]
    intro k
    rw [List.mem_eraseDups, List.mem_eraseDups, (hperm.map key).mem_iff]
  have hargmin : ∀ k, (ofKey key xs k).argmin cost = (ofKey key ys k).argmin cost := by
    intro k
    refine Option.ext fun x => ?_
    rw [argmin_eq_some_iff ((Apart.perm hperm).mpr h), argmin_eq_some_iff h, Optimal.perm hperm]
  rw [values_best, values_best]
  simp only [hargmin]
  exact hkeys.filterMap _

end OnePass

/-! ## Ranks -/

/-- Each element with the number of those before it that have its key. -/
def numberedFrom (key : α → κ) (done : List α) : List α → List (α × Nat)
  | [] => []
  | x :: xs => (x, (ofKey key done (key x)).length) :: numberedFrom key (done ++ [x]) xs

/-- `numberedFrom` the start of the list. -/
def numbered (key : α → κ) (xs : List α) : List (α × Nat) := numberedFrom key [] xs

theorem map_fst_numberedFrom (done xs : List α) :
    (numberedFrom key done xs).map Prod.fst = xs := by
  induction xs generalizing done with
  | nil => rfl
  | cons x xs ih => rw [numberedFrom, List.map_cons, ih]

theorem mem_numberedFrom {done xs : List α} {x : α} {n : Nat} :
    (x, n) ∈ numberedFrom key done xs ↔
      ∃ before after, xs = before ++ x :: after ∧
        n = (ofKey key (done ++ before) (key x)).length := by
  induction xs generalizing done with
  | nil => simp [numberedFrom]
  | cons y xs ih =>
    rw [numberedFrom, List.mem_cons, ih]
    constructor
    · rintro (heq | ⟨before, after, rfl, rfl⟩)
      · obtain ⟨rfl, rfl⟩ := Prod.mk.inj heq
        exact ⟨[], xs, rfl, by rw [List.append_nil]⟩
      · exact ⟨y :: before, after, rfl, by rw [List.append_assoc]; rfl⟩
    · rintro ⟨before, after, hxs, rfl⟩
      cases before with
      | nil =>
        obtain ⟨rfl, rfl⟩ := List.cons.inj hxs
        exact .inl (by rw [List.append_nil])
      | cons z before =>
        obtain ⟨rfl, rfl⟩ := List.cons.inj hxs
        exact .inr ⟨before, after, rfl, by rw [List.append_assoc]; rfl⟩

variable (key) in
/-- The numbers of a key are those below the number of its elements, in order. -/
theorem numbers_of_key (done xs : List α) (k : κ) :
    ((numberedFrom key done xs).filter fun item => key item.1 = k).map Prod.snd =
      List.range' (ofKey key done k).length (ofKey key xs k).length := by
  induction xs generalizing done with
  | nil => rfl
  | cons x xs ih =>
    rw [numberedFrom]
    by_cases hk : key x = k
    · subst hk
      rw [List.filter_cons_of_pos (by exact decide_eq_true rfl), List.map_cons, ih,
        ofKey_cons_self, List.length_cons, List.range'_succ, ofKey_append, ofKey_cons_self,
        List.length_append]
      rfl
    · rw [List.filter_cons_of_neg (by exact fun heq => hk (of_decide_eq_true heq)), ih,
        ofKey_cons_of_ne hk, ofKey_append, ofKey_cons_of_ne hk, show ofKey key [] k = [] from rfl, List.append_nil]

variable (key) in
/-- Numbering a second time gives the same numbers. -/
theorem numberedFrom_numberedFrom (done : List (α × Nat)) (xs : List α) :
    numberedFrom (fun item => key item.1) done (numberedFrom key (done.map Prod.fst) xs) =
      (numberedFrom key (done.map Prod.fst) xs).map fun item => (item, item.2) := by
  induction xs generalizing done with
  | nil => rfl
  | cons x xs ih =>
    have hlength : (ofKey (fun item : α × Nat => key item.1) done (key x)).length =
        (ofKey key (done.map Prod.fst) (key x)).length := by
      rw [ofKey, ofKey, List.filter_map, List.length_map]
      rfl
    have hrest := ih (done ++ [(x, (ofKey key (done.map Prod.fst) (key x)).length)])
    rw [List.map_append, List.map_singleton] at hrest
    rw [numberedFrom, numberedFrom, hlength, hrest, List.map_cons]

variable (key) in
theorem numberedFrom_map {β : Type u} (f : β → α) (done xs : List β) :
    numberedFrom key (done.map f) (xs.map f) =
      (numberedFrom (key ∘ f) done xs).map (Prod.map f id) := by
  induction xs generalizing done with
  | nil => rfl
  | cons x xs ih =>
    have hrest := ih (done ++ [x])
    rw [List.map_append, List.map_singleton] at hrest
    rw [List.map_cons, numberedFrom, numberedFrom, hrest, List.map_cons, ofKey, ofKey,
      List.filter_map, List.length_map]
    rfl

variable [LinearOrder C]

/-- The elements of the same key that cost less. -/
def better (key : α → κ) (cost : α → C) (xs : List α) (x : α) : List α :=
  (ofKey key xs (key x)).filter fun y => cost y < cost x

variable (key cost) in
theorem length_better_map {β : Type u} (f : β → α) (xs : List β) (x : β) :
    (better (key ∘ f) (cost ∘ f) xs x).length = (better key cost (xs.map f) (f x)).length := by
  rw [better, better, ofKey, ofKey, List.filter_map, List.filter_map, List.length_map]
  rfl

theorem better_eq_nil_iff {xs : List α} {x : α} (hx : x ∈ xs) :
    better key cost xs x = [] ↔ Optimal key cost xs x := by
  rw [better, List.filter_eq_nil_iff]
  constructor
  · intro h
    refine ⟨hx, fun y hy hkey => ?_⟩
    exact not_lt.mp fun hlt => h y (mem_ofKey.mpr ⟨hy, hkey⟩) (decide_eq_true hlt)
  · rintro ⟨-, hle⟩ y hy hlt
    obtain ⟨hy, hkey⟩ := mem_ofKey.mp hy
    exact absurd (of_decide_eq_true hlt) (not_lt.mpr (hle y hy hkey))

/-- Where the costs of a key go up, the better elements are those before. -/
theorem better_append {before after : List α} {x : α}
    (hup : Ascending key cost (before ++ x :: after))
    (hapart : Apart key cost (before ++ x :: after)) :
    better key cost (before ++ x :: after) x = ofKey key before (key x) := by
  obtain ⟨-, hafter, hbefore⟩ := List.pairwise_append.mp hup
  obtain ⟨-, -, hne⟩ := List.pairwise_append.mp hapart
  have hkept : ∀ y ∈ ofKey key before (key x), decide (cost y < cost x) = true := by
    intro y hy
    obtain ⟨hy, hkey⟩ := mem_ofKey.mp hy
    exact decide_eq_true (lt_of_le_of_ne (hbefore y hy x List.mem_cons_self hkey)
      (hne y hy x List.mem_cons_self hkey))
  have hdropped : ∀ y ∈ x :: ofKey key after (key x), ¬ decide (cost y < cost x) = true := by
    intro y hy hlt
    rcases List.mem_cons.mp hy with rfl | hy
    · exact lt_irrefl _ (of_decide_eq_true hlt)
    · obtain ⟨hy, hkey⟩ := mem_ofKey.mp hy
      exact absurd (of_decide_eq_true hlt)
        (not_lt.mpr ((List.pairwise_cons.mp hafter).1 y hy hkey.symm))
  rw [better, ofKey_append, ofKey_cons_self, List.filter_append, List.filter_eq_self.mpr hkept,
    List.filter_eq_nil_iff.mpr hdropped, List.append_nil]

theorem mem_numbered_iff {xs : List α} (hup : Ascending key cost xs)
    (hapart : Apart key cost xs) {x : α} {n : Nat} :
    (x, n) ∈ numbered key xs ↔ x ∈ xs ∧ n = (better key cost xs x).length := by
  rw [numbered, mem_numberedFrom]
  constructor
  · rintro ⟨before, after, rfl, rfl⟩
    rw [better_append hup hapart]
    exact ⟨List.mem_append_right _ List.mem_cons_self, rfl⟩
  · rintro ⟨hx, rfl⟩
    obtain ⟨before, after, rfl⟩ := List.append_of_mem hx
    exact ⟨before, after, rfl, by rw [better_append hup hapart]; rfl⟩

end KleeDeps.BestByKey
