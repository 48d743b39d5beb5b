import Mathlib.Data.List.DropRight
import Mathlib.Data.List.Forall2
import Mathlib.Data.List.Perm.Basic

/-!
# Comparing two sequences, and bounded look-back

Two notions any tool that walks two logs side by side needs.

- `commonPrefix a b`: the longest common prefix of two lists
  (`commonPrefix_prefix_left`, `commonPrefix_prefix_right`,
  `prefix_commonPrefix`: it is a common prefix, and every common prefix is a
  prefix of it);
- `exists_common_split`: the form in which a loop meets it — both lists are
  the common part followed by tails that do not start alike;
- `split_last_unique`: the last separator of a list splits it in one way;
- `push n q x`: append to a queue that keeps its last `n` elements;
  `foldl_push`: pushing a whole list keeps the last `n` elements of all that
  was ever pushed;
- `bind_eq_ok_iff`, `mapM_eq_ok_iff`: a fallible sequence succeeds step by step, a
  fallible map over a list element by element;
- `foldlM_ok_induction`: an invariant of a fallible loop, over what is done.
-/

universe u

namespace Sequence

variable {α β : Type u}

/-! ## Longest common prefix -/

section CommonPrefix

variable [DecidableEq α] [DecidableEq β]

/-- The longest common prefix of two lists. -/
def commonPrefix : List α → List α → List α
  | a :: as, b :: bs => if a = b then a :: commonPrefix as bs else []
  | _, _ => []

theorem commonPrefix_prefix_left : ∀ a b : List α, commonPrefix a b <+: a
  | [], _ => by simp [commonPrefix]
  | a :: as, [] => by simp [commonPrefix]
  | a :: as, b :: bs => by
    unfold commonPrefix
    split
    · exact (List.prefix_cons_inj a).mpr (commonPrefix_prefix_left as bs)
    · exact List.nil_prefix

theorem commonPrefix_comm : ∀ a b : List α, commonPrefix a b = commonPrefix b a
  | [], [] => rfl
  | [], _ :: _ => rfl
  | _ :: _, [] => rfl
  | a :: as, b :: bs => by
    unfold commonPrefix
    by_cases h : a = b
    · rw [if_pos h, if_pos h.symm, h, commonPrefix_comm as bs]
    · rw [if_neg h, if_neg (Ne.symm h)]

theorem commonPrefix_prefix_right (a b : List α) : commonPrefix a b <+: b :=
  commonPrefix_comm a b ▸ commonPrefix_prefix_left b a

/-- The longest common prefix is above every common prefix. -/
theorem prefix_commonPrefix :
    ∀ {p a b : List α}, p <+: a → p <+: b → p <+: commonPrefix a b
  | [], _, _, _, _ => List.nil_prefix
  | _ :: _, [], _, h, _ => absurd (List.prefix_nil.mp h) (List.cons_ne_nil _ _)
  | _ :: _, _ :: _, [], _, h => absurd (List.prefix_nil.mp h) (List.cons_ne_nil _ _)
  | x :: p, a :: as, b :: bs, ha, hb => by
    obtain ⟨rfl, hpa⟩ := List.cons_prefix_cons.mp ha
    obtain ⟨rfl, hpb⟩ := List.cons_prefix_cons.mp hb
    rw [commonPrefix, if_pos rfl]
    exact (List.prefix_cons_inj x).mpr (prefix_commonPrefix hpa hpb)

/-- Both lists are the common prefix followed by tails that do not start with
the same element. -/
theorem exists_common_split (a b : List α) :
    ∃ s t, a = commonPrefix a b ++ s ∧ b = commonPrefix a b ++ t ∧
      ∀ x, s.head? = some x → t.head? ≠ some x := by
  obtain ⟨s, hs⟩ := commonPrefix_prefix_left a b
  obtain ⟨t, ht⟩ := commonPrefix_prefix_right a b
  refine ⟨s, t, hs.symm, ht.symm, fun x hx hy => ?_⟩
  -- a shared next element would extend the common prefix
  obtain ⟨s', rfl⟩ := List.head?_eq_some_iff.mp hx
  obtain ⟨t', rfl⟩ := List.head?_eq_some_iff.mp hy
  have hext : commonPrefix a b ++ [x] <+: commonPrefix a b :=
    prefix_commonPrefix ⟨s', by rw [List.append_assoc]; exact hs⟩
      ⟨t', by rw [List.append_assoc]; exact ht⟩
  have hlen := hext.length_le
  rw [List.length_append, List.length_singleton] at hlen
  omega

/-- Tails that do not start alike add nothing to the common prefix. -/
theorem commonPrefix_append :
    ∀ {p s t : List α}, (∀ x, s.head? = some x → t.head? ≠ some x) →
      commonPrefix (p ++ s) (p ++ t) = p
  | [], [], _, _ => by simp [commonPrefix]
  | [], _ :: _, [], _ => by simp [commonPrefix]
  | [], x :: _, y :: _, h => by
    have hxy : x ≠ y := fun he => h x rfl (by rw [he]; rfl)
    simp [commonPrefix, hxy]
  | x :: p, s, t, h => by
    simp only [List.cons_append, commonPrefix, if_true]
    rw [commonPrefix_append h]

end CommonPrefix

/-! ## Splitting at the last separator -/

/-- The last separator splits a list in one way only. -/
theorem split_last_unique {a b a' b' : List α} {x : α} (hb : x ∉ b) (hb' : x ∉ b')
    (h : a ++ x :: b = a' ++ x :: b') : a = a' ∧ b = b' := by
  rcases List.append_eq_append_iff.mp h with ⟨c, hc, hrest⟩ | ⟨c, hc, hrest⟩
  · cases c with
    | nil =>
      rw [List.append_nil] at hc
      exact ⟨hc.symm, (List.cons.inj hrest).2⟩
    | cons y c =>
      obtain ⟨rfl, rfl⟩ := List.cons.inj hrest
      exact absurd (by simp) hb
  · cases c with
    | nil =>
      rw [List.append_nil] at hc
      exact ⟨hc, (List.cons.inj hrest).2.symm⟩
    | cons y c =>
      obtain ⟨rfl, rfl⟩ := List.cons.inj hrest
      exact absurd (by simp) hb'

/-! ## A queue that keeps its last elements -/

/-- Append to a queue of capacity `n`; the oldest element falls out. -/
def push (n : Nat) (q : List α) (x : α) : List α := (q ++ [x]).rtake n

theorem push_rtake (n : Nat) (l : List α) (x : α) : push n (l.rtake n) x = (l ++ [x]).rtake n := by
  cases n with
  | zero => simp [push]
  | succ n =>
    simp only [push, List.rtake_concat_succ]
    congr 1
    rw [List.rtake_eq_reverse_take_reverse, List.rtake_eq_reverse_take_reverse,
      List.rtake_eq_reverse_take_reverse, List.reverse_reverse, List.take_take]
    simp

/-- **Run lemma** of the queue: after pushing `xs` one by one the queue holds
the last `n` elements of everything pushed so far. -/
theorem foldl_push (n : Nat) (l xs : List α) :
    xs.foldl (push n) (l.rtake n) = (l ++ xs).rtake n := by
  induction xs generalizing l with
  | nil => simp
  | cons x xs ih =>
    rw [List.foldl_cons, push_rtake, ih, List.append_assoc]
    rfl

/-- A queue that keeps anything keeps the newest element. -/
theorem getLast?_rtake {n : Nat} (hn : 0 < n) (l : List α) :
    (l.rtake n).getLast? = l.getLast? := by
  obtain ⟨m, rfl⟩ : ∃ m, n = m + 1 := ⟨n - 1, by omega⟩
  rcases List.eq_nil_or_concat l with rfl | ⟨l, x, rfl⟩
  · simp
  · rw [List.concat_eq_append, List.rtake_concat_succ]
    simp

/-! ## Fallible maps -/

theorem bind_eq_ok_iff {ε : Type u} {x : Except ε α} {f : α → Except ε β} {b : β} :
    (x >>= f) = .ok b ↔ ∃ a, x = .ok a ∧ f a = .ok b := by
  cases x with
  | error e =>
    constructor
    · intro h
      cases h
    · rintro ⟨a, ha, -⟩
      cases ha
  | ok a =>
    constructor
    · intro h
      exact ⟨a, rfl, h⟩
    · rintro ⟨a', ha, h⟩
      cases ha
      exact h

theorem mapM_eq_ok_iff {ε : Type u} {f : α → Except ε β} {xs : List α} {ys : List β} :
    xs.mapM f = .ok ys ↔ List.Forall₂ (fun x y => f x = .ok y) xs ys := by
  induction xs generalizing ys with
  | nil =>
    rw [List.mapM_nil, List.forall₂_nil_left_iff]
    exact ⟨fun h => (Except.ok.inj h).symm, fun h => h ▸ rfl⟩
  | cons x xs ih =>
    rw [List.mapM_cons, List.forall₂_cons_left_iff]
    constructor
    · intro h
      simp only [bind, Except.bind] at h
      split at h
      · cases h
      · next y hy =>
        split at h
        · cases h
        · next ys' hys =>
          obtain rfl := Except.ok.inj h
          exact ⟨y, ys', hy, ih.mp hys, rfl⟩
    · rintro ⟨y, ys', hy, hys, rfl⟩
      rw [hy, ih.mpr hys]
      rfl

theorem exists_left_of_forall₂ {r : α → β → Prop} {xs : List α} {ys : List β}
    (h : List.Forall₂ r xs ys) {y : β} (hy : y ∈ ys) : ∃ x ∈ xs, r x y := by
  induction h with
  | nil => cases hy
  | cons hhead _ ih =>
    rcases List.mem_cons.mp hy with rfl | hy
    · exact ⟨_, List.mem_cons_self, hhead⟩
    · obtain ⟨x, hx, hr⟩ := ih hy
      exact ⟨x, List.mem_cons_of_mem _ hx, hr⟩

/-- A successful map succeeds at every element. -/
theorem exists_right_of_mapM {ε : Type u} {f : α → Except ε β} {xs : List α} {ys : List β}
    (h : xs.mapM f = .ok ys) {x : α} (hx : x ∈ xs) : ∃ y ∈ ys, f x = .ok y := by
  have hall := mapM_eq_ok_iff.mp h
  clear h
  induction hall with
  | nil => cases hx
  | cons hhead _ ih =>
    rcases List.mem_cons.mp hx with rfl | hx
    · exact ⟨_, List.mem_cons_self, hhead⟩
    · obtain ⟨y, hy, hstep⟩ := ih hx
      exact ⟨y, List.mem_cons_of_mem _ hy, hstep⟩

/-- What a successful map returns comes from an element. -/
theorem exists_left_of_mapM {ε : Type u} {f : α → Except ε β} {xs : List α} {ys : List β}
    (h : xs.mapM f = .ok ys) {y : β} (hy : y ∈ ys) : ∃ x ∈ xs, f x = .ok y := by
  have hall := mapM_eq_ok_iff.mp h
  clear h
  induction hall with
  | nil => cases hy
  | cons hhead _ ih =>
    rcases List.mem_cons.mp hy with rfl | hy
    · exact ⟨_, List.mem_cons_self, hhead⟩
    · obtain ⟨x, hx, hstep⟩ := ih hy
      exact ⟨x, List.mem_cons_of_mem _ hx, hstep⟩

/-- A successful map succeeds on the elements in any order. -/
theorem mapM_perm {ε : Type u} {f : α → Except ε β} {xs xs' : List α} {ys : List β}
    (hperm : xs'.Perm xs) (h : xs.mapM f = .ok ys) :
    ∃ ys', xs'.mapM f = .ok ys' ∧ ys'.Perm ys := by
  obtain ⟨ys', hall, hys⟩ := List.perm_comp_forall₂ hperm (mapM_eq_ok_iff.mp h)
  exact ⟨ys', mapM_eq_ok_iff.mpr hall, hys⟩

theorem mapM_congr {ε : Type u} {f g : α → Except ε β} {xs : List α}
    (h : ∀ x ∈ xs, f x = g x) : xs.mapM f = xs.mapM g := by
  induction xs with
  | nil => rfl
  | cons x xs ih =>
    rw [List.mapM_cons, List.mapM_cons, h x List.mem_cons_self,
      ih fun y hy => h y (List.mem_cons_of_mem x hy)]

/-- A map that fails at some element fails as it fails at some element. -/
theorem exists_error_of_mapM {ε : Type u} {f : α → Except ε β} {xs : List α} {P : ε → Prop}
    (hP : ∀ x ∈ xs, ∀ e, f x = .error e → P e) {x : α} (hx : x ∈ xs) {e : ε}
    (he : f x = .error e) : ∃ e', P e' ∧ xs.mapM f = .error e' := by
  induction xs with
  | nil => cases hx
  | cons y ys ih =>
    rw [List.mapM_cons]
    cases hy : f y with
    | error e' => exact ⟨e', hP y List.mem_cons_self e' hy, rfl⟩
    | ok b =>
      rcases List.mem_cons.mp hx with rfl | hx
      · rw [hy] at he
        cases he
      · obtain ⟨e', he', hmap⟩ := ih (fun z hz => hP z (List.mem_cons_of_mem y hz)) hx
        exact ⟨e', he', by rw [hmap]; rfl⟩

/-- A map that fails does so at some element. -/
theorem exists_of_mapM_error {ε : Type u} {f : α → Except ε β} {xs : List α} {e : ε}
    (h : xs.mapM f = .error e) : ∃ x ∈ xs, f x = .error e := by
  induction xs with
  | nil => cases h
  | cons x xs ih =>
    rw [List.mapM_cons] at h
    cases hx : f x with
    | error e' =>
      rw [hx] at h
      obtain rfl := Except.error.inj h
      exact ⟨x, List.mem_cons_self, hx⟩
    | ok b =>
      rw [hx] at h
      cases hxs : xs.mapM f with
      | error e' =>
        rw [hxs] at h
        obtain rfl := Except.error.inj h
        obtain ⟨y, hy, hfy⟩ := ih hxs
        exact ⟨y, List.mem_cons_of_mem x hy, hfy⟩
      | ok bs =>
        rw [hxs] at h
        cases h

/-- Two fallible maps, one after the other, are one. -/
theorem exists_mapM_mapM_iff {ε γ : Type u} {f : α → Except ε β} {g : β → Except ε γ}
    {xs : List α} {zs : List γ} :
    (∃ ys, xs.mapM f = .ok ys ∧ ys.mapM g = .ok zs) ↔
      List.Forall₂ (fun x z => ∃ y, f x = .ok y ∧ g y = .ok z) xs zs := by
  simp only [mapM_eq_ok_iff]
  constructor
  · rintro ⟨ys, hxy, hyz⟩
    induction hxy generalizing zs with
    | nil =>
      cases hyz
      exact .nil
    | cons hhead _ ih =>
      cases hyz with
      | cons hhead' hrest => exact .cons ⟨_, hhead, hhead'⟩ (ih hrest)
  · intro h
    induction h with
    | nil => exact ⟨[], .nil, .nil⟩
    | cons hhead _ ih =>
      obtain ⟨y, hxy, hyz⟩ := hhead
      obtain ⟨ys, hxys, hyzs⟩ := ih
      exact ⟨y :: ys, .cons hxy hxys, .cons hyz hyzs⟩

theorem exists_forall₂_iff {γ : Type u} {r : α → γ → Prop} {xs : List α} :
    (∃ zs, List.Forall₂ r xs zs) ↔ ∀ x ∈ xs, ∃ z, r x z := by
  induction xs with
  | nil => exact ⟨fun _ x hx => absurd hx List.not_mem_nil, fun _ => ⟨[], .nil⟩⟩
  | cons x xs ih =>
    rw [List.forall_mem_cons, ← ih]
    constructor
    · rintro ⟨zs, h⟩
      cases h with
      | cons hhead hrest => exact ⟨⟨_, hhead⟩, ⟨_, hrest⟩⟩
    · rintro ⟨⟨z, hhead⟩, zs, hrest⟩
      exact ⟨z :: zs, .cons hhead hrest⟩

/-- The invariant rule of a loop: what holds of the elements done so far and the state holds of
all elements and the last state. -/
theorem foldl_induction {σ : Type u} {f : σ → α → σ} (P : List α → σ → Prop) {s : σ}
    (done : List α) (hstart : P done s) (hstep : ∀ done x s, P done s → P (done ++ [x]) (f s x))
    (xs : List α) : P (done ++ xs) (xs.foldl f s) := by
  induction xs generalizing done s with
  | nil => rwa [List.append_nil]
  | cons x xs ih =>
    have hrest := ih (done ++ [x]) (hstep done x s hstart)
    rwa [List.append_assoc] at hrest

/-- A loop whose steps are computed from the elements alone: first the computations, then the
assignments. -/
theorem foldlM_eq_mapM {ε σ : Type u} {f : σ → α → Except ε σ} {g : α → Except ε β} {h : σ → β → σ}
    (hf : ∀ s x, f s x = (g x).map (h s)) (xs : List α) (s : σ) :
    xs.foldlM f s = (xs.mapM g).map (·.foldl h s) := by
  induction xs generalizing s with
  | nil => rfl
  | cons x xs ih =>
    rw [List.foldlM_cons, List.mapM_cons, hf]
    cases g x with
    | error e => rfl
    | ok y =>
      show xs.foldlM f (h s y) = _
      rw [ih]
      cases xs.mapM g with
      | error e => rfl
      | ok ys => rfl

/-- A loop that fails has failed at an element. -/
theorem exists_of_foldlM_error {ε σ : Type u} {f : σ → α → Except ε σ} {xs : List α} {s : σ} {e : ε}
    (h : xs.foldlM f s = .error e) : ∃ x ∈ xs, ∃ t, f t x = .error e := by
  induction xs generalizing s with
  | nil => cases h
  | cons x xs ih =>
    rw [List.foldlM_cons] at h
    cases hx : f s x with
    | error e' =>
      rw [hx] at h
      obtain rfl := Except.error.inj h
      exact ⟨x, List.mem_cons_self, s, hx⟩
    | ok s' =>
      rw [hx] at h
      obtain ⟨y, hy, t, ht⟩ := ih h
      exact ⟨y, List.mem_cons_of_mem _ hy, t, ht⟩

/-- The invariant rule of a fallible loop: what holds of the elements done so far and the
state holds of all elements and the last state. -/
theorem foldlM_ok_induction {ε σ : Type u} {f : σ → α → Except ε σ} (P : List α → σ → Prop)
    {xs : List α} {s t : σ} (h : xs.foldlM f s = .ok t) (done : List α) (hstart : P done s)
    (hstep : ∀ done x s t, x ∈ xs → P done s → f s x = .ok t → P (done ++ [x]) t) :
    P (done ++ xs) t := by
  induction xs generalizing done s with
  | nil =>
    rw [List.foldlM_nil] at h
    rw [List.append_nil, ← Except.ok.inj h]
    exact hstart
  | cons x xs ih =>
    rw [List.foldlM_cons] at h
    simp only [bind, Except.bind] at h
    split at h
    · cases h
    · next s' hs' =>
      have hnext := hstep done x s s' List.mem_cons_self hstart hs'
      have hrest := ih h (done ++ [x]) hnext fun done y s t hy =>
        hstep done y s t (List.mem_cons_of_mem _ hy)
      rwa [List.append_assoc] at hrest

end Sequence
