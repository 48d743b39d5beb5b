import KleeDeps.Converters.Delivery

/-!
# The two forms of a divergent input

A divergent input in an ABACUS log is a list of bytes, or a list of bytes with the offsets they
have in the secrets, one after the other. The converter has a function for each form.

- `storeBytes_perm`: distinct offsets may be stored in any order;
- `exists_counterexamplesFromOffsets_iff`: which lists are accepted;
- `divergent_forms_agree`: **both functions build the same dictionary**, and the second one
  changes exactly the bytes it is given.
-/

namespace KleeDeps.Converters

open Py

/-! ### Storing bytes -/

/-- An offset and a byte that `_counterexamples_from_offsets` accepts. -/
def InRange (total : Nat) (pair : Int × Int) : Prop :=
  0 ≤ pair.1 ∧ pair.1 < total ∧ 0 ≤ pair.2 ∧ pair.2 ≤ 0xFF

section Store

variable {bytes : List UInt8} {pairs others : List (Int × Int)}

theorem getElem?_storeBytes_of_notMem {n : Nat} (h : ∀ pair ∈ pairs, pair.1.toNat ≠ n) :
    (storeBytes bytes pairs)[n]? = bytes[n]? := by
  induction pairs generalizing bytes with
  | nil => rfl
  | cons pair rest ih =>
    show (storeBytes (bytes.set _ _) rest)[n]? = _
    rw [ih fun q hq => h q (List.mem_cons_of_mem pair hq),
      List.getElem?_set_ne (h pair List.mem_cons_self)]

/-- Of distinct offsets none is overwritten. -/
theorem getElem?_storeBytes_of_mem (hnodup : (pairs.map fun pair => pair.1.toNat).Nodup)
    {pair : Int × Int} (hpair : pair ∈ pairs) (hlt : pair.1.toNat < bytes.length) :
    (storeBytes bytes pairs)[pair.1.toNat]? = some (UInt8.ofNat pair.2.toNat) := by
  induction pairs generalizing bytes with
  | nil => cases hpair
  | cons first rest ih =>
    rw [List.map_cons, List.nodup_cons] at hnodup
    show (storeBytes (bytes.set _ _) rest)[pair.1.toNat]? = _
    rcases List.mem_cons.mp hpair with rfl | hpair
    · rw [getElem?_storeBytes_of_notMem fun q hq heq => hnodup.1 (List.mem_map.mpr ⟨q, hq, heq⟩)]
      exact List.getElem?_set_self hlt
    · exact ih hnodup.2 hpair (by rwa [List.length_set])

theorem storeBytes_perm (h : pairs.Perm others)
    (hnodup : (pairs.map fun pair => pair.1.toNat).Nodup)
    (hlt : ∀ pair ∈ pairs, pair.1.toNat < bytes.length) :
    storeBytes bytes pairs = storeBytes bytes others := by
  have hnodup' := (h.map fun pair => pair.1.toNat).nodup hnodup
  refine List.ext_getElem? fun n => ?_
  by_cases hn : ∃ pair ∈ pairs, pair.1.toNat = n
  · obtain ⟨pair, hpair, rfl⟩ := hn
    rw [getElem?_storeBytes_of_mem hnodup hpair (hlt pair hpair),
      getElem?_storeBytes_of_mem hnodup' (h.mem_iff.mp hpair) (hlt pair hpair)]
  · have hnone : ∀ pair ∈ pairs, pair.1.toNat ≠ n := fun pair hp heq => hn ⟨pair, hp, heq⟩
    rw [getElem?_storeBytes_of_notMem hnone,
      getElem?_storeBytes_of_notMem fun pair hp => hnone pair (h.mem_iff.mpr hp)]

/-- Distinct offsets in range are distinct places. -/
theorem nodup_toNat {total : Nat} (hnodup : (pairs.map Prod.fst).Nodup)
    (hrange : ∀ pair ∈ pairs, InRange total pair) :
    (pairs.map fun pair => pair.1.toNat).Nodup := by
  induction pairs with
  | nil => exact List.nodup_nil
  | cons first rest ih =>
    rw [List.map_cons, List.nodup_cons] at hnodup ⊢
    refine ⟨fun hmem => ?_, ih hnodup.2 fun q hq => hrange q (List.mem_cons_of_mem first hq)⟩
    obtain ⟨q, hq, heq⟩ := List.mem_map.mp hmem
    have hfirst := (hrange first List.mem_cons_self).1
    have hother := (hrange q (List.mem_cons_of_mem first hq)).1
    exact hnodup.1 (List.mem_map.mpr ⟨q, hq, by omega⟩)

end Store

/-! ### What is accepted -/

theorem exists_storeAll_iff {layout : List AbacusSecret} {pairs : List (Int × Int)}
    (primeBytes : Dict Text (List UInt8)) : (∃ result, storeAll layout primeBytes pairs =
      .ok result) ↔ ∀ pair ∈ pairs, InRange (totalSize layout) pair := by
  induction pairs generalizing primeBytes with
  | nil => exact ⟨fun _ _ hp => absurd hp List.not_mem_nil, fun _ => ⟨_, rfl⟩⟩
  | cons pair rest ih =>
    obtain ⟨offset, value⟩ := pair
    rw [storeAll, List.forall_mem_cons]
    split
    · next hoffset =>
      -- an offset out of range is rejected
      constructor
      · rintro ⟨_, h⟩
        cases h
      · intro h
        have hlow : 0 ≤ offset := h.1.1
        have hhigh : offset < totalSize layout := h.1.2.1
        omega
    · next hoffset =>
      split
      · next hvalue =>
        constructor
        · rintro ⟨_, h⟩
          cases h
        · intro h
          have hlow : 0 ≤ value := h.1.2.2.1
          have hhigh : value ≤ 0xFF := h.1.2.2.2
          omega
      · next hvalue =>
        rw [ih]
        refine (and_iff_right ?_).symm
        rw [InRange]
        omega

/-- A list of pairs is accepted if there is any and all of them are in range. -/
theorem exists_counterexamplesFromOffsets_iff {layout : List AbacusSecret}
    {pairs : List (Int × Int)} : (∃ c, counterexamplesFromOffsets layout pairs = .ok c) ↔
      pairs ≠ [] ∧ ∀ pair ∈ pairs, InRange (totalSize layout) pair := by
  rw [counterexamplesFromOffsets]
  by_cases hnil : pairs = []
  · rw [if_pos hnil]
    exact ⟨fun ⟨_, h⟩ => (by cases h), fun h => absurd hnil h.1⟩
  · rw [if_neg hnil, ← exists_storeAll_iff
      (.setAll .empty (layout.map fun e => (e.name, e.seedBytes)))]
    refine ⟨fun ⟨c, h⟩ => ⟨hnil, ?_⟩, fun ⟨_, result, h⟩ => ?_⟩
    · split at h
      · cases h
      · next result hresult => exact ⟨result, hresult⟩
    · rw [h]
      exact ⟨_, rfl⟩

/-! ### One dictionary -/

section Forms

variable {layout : List AbacusSecret} {pairs others : List (Int × Int)} {bytes : List UInt8}

/-- The dictionary of the offset form, by the files it stands for. -/
theorem offsetItems_eq {primeBytes : Dict Text (List UInt8)}
    (hlength : bytes.length = totalSize layout)
    (h : ∀ s ∈ cut layout bytes, primeBytes.get? s.name = some s.prime) :
    offsetItems layout primeBytes =
      (cut layout bytes).map (fun s => (s.name, bigEndian s.orig)) ++
        (cut layout bytes).map fun s => (primeName s.name, bigEndian s.prime) := by
  have hseeds : layout.map (fun e => (e.name, (bytesToInt e.seedBytes : Int))) =
      (cut layout bytes).map fun s => (s.name, bigEndian s.orig) := by
    have hcut := congrArg (List.map fun p : Text × List UInt8 => (p.1, bigEndian p.2))
      (cut_spec hlength).1
    rw [List.map_map, List.map_map] at hcut
    refine Eq.trans (List.map_congr_left fun e _ => ?_) hcut.symm
    rw [bytesToInt_eq]
    rfl
  have hprimes : layout.map (fun e => (primeName e.name,
      (bytesToInt ((primeBytes.get? e.name).getD []) : Int))) =
        (cut layout bytes).map fun s => (primeName s.name, bigEndian s.prime) := by
    have hcut := congrArg (List.map fun n : Text =>
      (primeName n, (bytesToInt ((primeBytes.get? n).getD []) : Int))) (cut_names layout bytes)
    rw [List.map_map, List.map_map] at hcut
    refine Eq.trans hcut.symm (List.map_congr_left fun s hs => ?_)
    show (primeName s.name, (bytesToInt ((primeBytes.get? s.name).getD []) : Int)) = _
    rw [h s hs, Option.getD_some, bytesToInt_eq]
    rfl
  rw [offsetItems, hseeds, hprimes]

/-- **Both forms build the same dictionary.** -/
theorem get?_of_forms (hnames : DistinctNames (layout.map AbacusSecret.name))
    (hlength : bytes.length = totalSize layout) {c c' : Dict Text Int}
    (hbytes : counterexamplesFromBytes layout bytes = .ok c)
    (hpairs : counterexamplesFromOffsets layout pairs = .ok c')
    (hstored : storeBytes (layout.flatMap AbacusSecret.seedBytes) pairs = bytes) (k : Text) :
    c.get? k = c'.get? k := by
  rw [counterexamplesFromBytes, if_neg (not_not.mpr hlength)] at hbytes
  obtain rfl := Except.ok.inj hbytes
  obtain ⟨primeBytes, hstore, rfl⟩ := counterexamplesFromOffsets_eq hpairs
  have hget := get?_of_storeAll hnames.nodup hstore
  rw [hstored] at hget
  rw [assignBytes_eq, List.drop_zero]
  refine Dict.get?_setAll_empty_congr ?_ (nodup_keys_offsetItems primeBytes hnames)
    (fun x => ?_) k
  · have hkeys := keys_items (cut layout bytes) []
    rw [show publicItems [] = [] from rfl, List.append_nil] at hkeys
    rw [hkeys, cut_names]
    exact (show DistinctNames (layout.map AbacusSecret.name ++ []) by
      rwa [List.append_nil]).nodup_keys
  · rw [offsetItems_eq hlength hget, secretItems, List.mem_flatMap, List.mem_append,
      List.mem_map, List.mem_map]
    constructor
    · rintro ⟨s, hs, hx⟩
      simp only [List.mem_cons, List.not_mem_nil, or_false] at hx
      rcases hx with rfl | rfl
      · exact .inl ⟨s, hs, rfl⟩
      · exact .inr ⟨s, hs, rfl⟩
    · rintro (⟨s, hs, rfl⟩ | ⟨s, hs, rfl⟩)
      · exact ⟨s, hs, List.mem_cons_self⟩
      · exact ⟨s, hs, List.mem_cons_of_mem _ List.mem_cons_self⟩

/-- The dictionary depends on the bytes that are stored, not on the order. -/
theorem fromOffsets_congr (hnames : DistinctNames (layout.map AbacusSecret.name))
    {c c' : Dict Text Int} (h : counterexamplesFromOffsets layout pairs = .ok c)
    (h' : counterexamplesFromOffsets layout others = .ok c')
    (hstored : storeBytes (layout.flatMap AbacusSecret.seedBytes) pairs =
      storeBytes (layout.flatMap AbacusSecret.seedBytes) others) : c = c' := by
  obtain ⟨primeBytes, hstore, rfl⟩ := counterexamplesFromOffsets_eq h
  obtain ⟨primeBytes', hstore', rfl⟩ := counterexamplesFromOffsets_eq h'
  have hlength : (storeBytes (layout.flatMap AbacusSecret.seedBytes) pairs).length =
      totalSize layout := by
    rw [length_storeBytes, length_seeds]
  have hget := get?_of_storeAll hnames.nodup hstore
  have hget' := get?_of_storeAll hnames.nodup hstore'
  rw [← hstored] at hget'
  rw [offsetItems_eq hlength hget, offsetItems_eq hlength hget']

/-- The pairs `(i, bytes[i])`. -/
def positions (bytes : List UInt8) : List (Int × Int) :=
  bytes.zipIdx.map fun p => ((p.2 : Int), (p.1.toNat : Int))

theorem mem_positions {pair : Int × Int} : pair ∈ positions bytes ↔
    ∃ (i : Nat) (b : UInt8), bytes[i]? = some b ∧ pair = ((i : Int), (b.toNat : Int)) := by
  rw [positions, List.mem_map]
  constructor
  · rintro ⟨⟨b, i⟩, hmem, rfl⟩
    exact ⟨i, b, List.mem_zipIdx_iff_getElem?.mp hmem, rfl⟩
  · rintro ⟨i, b, hb, rfl⟩
    exact ⟨(b, i), List.mem_zipIdx_iff_getElem?.mpr hb, rfl⟩

theorem positions_inRange (hlength : bytes.length = totalSize layout) :
    ∀ pair ∈ positions bytes, InRange (totalSize layout) pair := by
  intro pair hpair
  obtain ⟨i, b, hb, rfl⟩ := mem_positions.mp hpair
  obtain ⟨hi, -⟩ := List.getElem?_eq_some_iff.mp hb
  have hbyte : b.toNat < 256 := b.toNat_lt
  simp only [InRange]
  omega

theorem positions_nodup (bytes : List UInt8) :
    ((positions bytes).map fun pair => pair.1.toNat).Nodup := by
  have hoffsets : (positions bytes).map (fun pair => pair.1.toNat) =
      List.range' 0 bytes.length := by
    rw [positions, List.map_map, ← List.zipIdx_map_snd 0 bytes]
    rfl
  rw [hoffsets]
  exact List.nodup_range'

theorem storeBytes_positions {seeds : List UInt8} (hlength : seeds.length = bytes.length)
    (h : pairs.Perm (positions bytes)) : storeBytes seeds pairs = bytes := by
  have hnodup := (h.map fun pair => pair.1.toNat).symm.nodup (positions_nodup bytes)
  refine List.ext_getElem? fun n => ?_
  by_cases hn : n < bytes.length
  · have hmem : ((n : Int), (bytes[n].toNat : Int)) ∈ pairs := h.mem_iff.mpr
      (mem_positions.mpr ⟨n, bytes[n], List.getElem?_eq_getElem hn, rfl⟩)
    have hstored := @getElem?_storeBytes_of_mem seeds _ hnodup _ hmem
      (show n < seeds.length by omega)
    rw [Int.toNat_natCast, Int.toNat_natCast, UInt8.ofNat_toNat] at hstored
    rw [List.getElem?_eq_getElem hn]
    exact hstored
  · rw [List.getElem?_eq_none (by rw [length_storeBytes]; omega),
      List.getElem?_eq_none (by omega)]

end Forms

/-- **The two forms agree**, for every layout with a secret: the pairs `(i, b[i])`, in any order,
build the dictionary of `b`. And a list of pairs with distinct offsets builds the same dictionary
in any order, from the seeds in which exactly the listed bytes are changed; it is accepted if all
offsets and values are in range. The empty list of pairs is rejected. -/
theorem divergent_forms_agree {layout : List AbacusSecret} (hlayout : layout ≠ [])
    (hnames : DistinctNames (layout.map AbacusSecret.name))
    (hsize : ∀ entry ∈ layout, 0 < entry.size) :
    (∀ (bytes : List UInt8) (pairs : List (Int × Int)), bytes.length = totalSize layout →
      pairs.Perm (positions bytes) →
      ∃ c c', counterexamplesFromBytes layout bytes = .ok c ∧
        counterexamplesFromOffsets layout pairs = .ok c' ∧ ∀ k, c.get? k = c'.get? k) ∧
    ∀ pairs : List (Int × Int), pairs ≠ [] → (pairs.map Prod.fst).Nodup →
      (∀ others, others.Perm pairs → (counterexamplesFromOffsets layout others).toOption =
        (counterexamplesFromOffsets layout pairs).toOption) ∧
      ((∃ e, counterexamplesFromOffsets layout pairs = .error e) ↔
        ∃ pair ∈ pairs, ¬InRange (totalSize layout) pair) ∧
      ∀ c, counterexamplesFromOffsets layout pairs = .ok c →
        ∃ primes : List UInt8, HoldsDivergent layout primes c ∧
          (∀ pair ∈ pairs, primes[pair.1.toNat]? = some (UInt8.ofNat pair.2.toNat)) ∧
          ∀ i : Nat, (∀ pair ∈ pairs, pair.1 ≠ i) →
            primes[i]? = (layout.flatMap AbacusSecret.seedBytes)[i]? := by
  refine ⟨fun bytes pairs hlength hperm => ?_, fun pairs hne hnodup => ⟨fun others hperm => ?_,
    ?_, fun c hc => ?_⟩⟩
  · -- a layout with a secret has a byte
    have hpos : 0 < totalSize layout := by
      cases layout with
      | nil => exact absurd rfl hlayout
      | cons entry rest =>
        have := hsize entry List.mem_cons_self
        rw [totalSize, List.map_cons, List.sum_cons]
        omega
    have hne : pairs ≠ [] := by
      rintro rfl
      have hempty := hperm.length_eq
      rw [positions, List.length_map, List.length_zipIdx, List.length_nil] at hempty
      omega
    obtain ⟨c', hc'⟩ := exists_counterexamplesFromOffsets_iff.mpr
      ⟨hne, fun pair hp => positions_inRange hlength pair (hperm.mem_iff.mp hp)⟩
    have hc : counterexamplesFromBytes layout bytes = .ok (assignBytes bytes 0 .empty layout) := by
      rw [counterexamplesFromBytes, if_neg (not_not.mpr hlength)]
    refine ⟨_, c', hc, hc', get?_of_forms hnames hlength hc hc' ?_⟩
    exact storeBytes_positions ((length_seeds layout).trans hlength.symm) hperm
  · by_cases hrange : ∀ pair ∈ pairs, InRange (totalSize layout) pair
    · obtain ⟨c, hc⟩ := exists_counterexamplesFromOffsets_iff.mpr ⟨hne, hrange⟩
      have hrange' : ∀ pair ∈ others, InRange (totalSize layout) pair := fun pair hp =>
        hrange pair (hperm.mem_iff.mp hp)
      have hne' : others ≠ [] := by
        rintro rfl
        exact hne hperm.symm.eq_nil
      obtain ⟨c', hc'⟩ := exists_counterexamplesFromOffsets_iff.mpr ⟨hne', hrange'⟩
      have hstored := @storeBytes_perm (layout.flatMap AbacusSecret.seedBytes) _ _ hperm.symm
        (nodup_toNat hnodup hrange) fun pair hp => by
          obtain ⟨hlow, hhigh, -⟩ := hrange pair hp
          rw [length_seeds]
          omega
      rw [hc, hc', fromOffsets_congr hnames hc hc' hstored]
    · -- a pair out of range is rejected wherever it stands
      have hrejected : ∀ list : List (Int × Int), (∀ pair, pair ∈ list ↔ pair ∈ pairs) →
          (counterexamplesFromOffsets layout list).toOption = none := by
        intro list hlist
        cases hc : counterexamplesFromOffsets layout list with
        | error e => rfl
        | ok c =>
          have hin := (exists_counterexamplesFromOffsets_iff.mp ⟨c, hc⟩).2
          exact absurd (fun pair hp => hin pair ((hlist pair).mpr hp)) hrange
      rw [hrejected others fun pair => hperm.mem_iff, hrejected pairs fun _ => Iff.rfl]
  · constructor
    · rintro ⟨e, he⟩
      by_contra hall
      have hrange : ∀ pair ∈ pairs, InRange (totalSize layout) pair := fun pair hp =>
        not_not.mp fun hout => hall ⟨pair, hp, hout⟩
      obtain ⟨c, hc⟩ := exists_counterexamplesFromOffsets_iff.mpr ⟨hne, hrange⟩
      rw [he] at hc
      cases hc
    · rintro ⟨pair, hp, hout⟩
      cases hc : counterexamplesFromOffsets layout pairs with
      | error e => exact ⟨e, rfl⟩
      | ok c =>
        exact absurd ((exists_counterexamplesFromOffsets_iff.mp ⟨c, hc⟩).2 pair hp) hout
  · have hrange := (exists_counterexamplesFromOffsets_iff.mp ⟨c, hc⟩).2
    refine ⟨_, holdsDivergent_of_offsets hnames hc, fun pair hp => ?_, fun i hi => ?_⟩
    · obtain ⟨hlow, hhigh, -⟩ := hrange pair hp
      exact getElem?_storeBytes_of_mem (nodup_toNat hnodup hrange) hp (by
        rw [length_seeds]
        omega)
    · refine getElem?_storeBytes_of_notMem fun pair hp heq => hi pair hp ?_
      obtain ⟨hlow, -⟩ := hrange pair hp
      omega

theorem divergent_forms_agree_key :
    (∃ c c', counterexamplesFromBytes [⟨"key".toList, [1, 2]⟩] [3, 4] = .ok c ∧
      counterexamplesFromOffsets [⟨"key".toList, [1, 2]⟩] [(1, 4), (0, 3)] = .ok c' ∧
      ∀ k, c.get? k = c'.get? k) ∧
    ∃ e, counterexamplesFromOffsets [⟨"key".toList, [1, 2]⟩] [(1, 4), (2, 3)] = .error e := by
  have hkey := @divergent_forms_agree [⟨"key".toList, [1, 2]⟩] (by decide)
    ⟨by decide, by decide⟩ (by decide)
  refine ⟨hkey.1 [3, 4] [(1, 4), (0, 3)] rfl (by decide), ?_⟩
  exact (hkey.2 [(1, 4), (2, 3)] (by decide) (by decide)).2.1.mpr
    ⟨(2, 3), by decide, by simp [InRange, totalSize, AbacusSecret.size]⟩

/-- Without secrets the bytes are accepted and the pairs are not: there are none. -/
theorem no_pairs_rejected : positions [] = [] ∧
    counterexamplesFromBytes [] [] = .ok .empty ∧
    counterexamplesFromOffsets [] [] =
      .error (.valueError "offset-aware divergent input is empty".toList) ∧
    counterexamplesFromOffsets [⟨"key".toList, [1]⟩] [] =
      .error (.valueError "offset-aware divergent input is empty".toList) :=
  ⟨rfl, rfl, rfl, rfl⟩

end KleeDeps.Converters
