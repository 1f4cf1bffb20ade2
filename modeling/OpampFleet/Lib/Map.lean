import Mathlib.Algebra.GroupWithZero.Nat
import Mathlib.Data.Finset.Card
import Mathlib.Data.List.AList
import Mathlib.Data.List.Sort

/-!
# Finite maps

Maps are Mathlib's association lists without the dependency of a value's type on its key, with `insert` and `erase`
read through `lookup` by one equation each.
-/

namespace OpampFleet.Lib

open List AList

abbrev Map (K V : Type) := AList fun _ : K => V

namespace Map

variable {K V : Type} [DecidableEq K]

lemma lookup_insert_ite (m : Map K V) (j k : K) (v : V) :
    (m.insert k v).lookup j = if j = k then some v else m.lookup j := by
  by_cases h : j = k
  · subst h
    rw [lookup_insert, if_pos rfl]
  · rw [lookup_insert_ne h, if_neg h]

lemma lookup_erase_ite (m : Map K V) (j k : K) : (m.erase k).lookup j = if j = k then none else m.lookup j := by
  by_cases h : j = k
  · subst h
    rw [lookup_erase, if_pos rfl]
  · rw [lookup_erase_ne h, if_neg h]

variable {m : Map K V} {k : K} {v : V}

lemma lookup_of_erase {j : K} (h : (m.erase k).lookup j = some v) : m.lookup j = some v := by
  rw [lookup_erase_ite] at h
  split at h
  · cases h
  · exact h

lemma lookup_erase_none {j : K} (h : m.lookup j = none) : (m.erase k).lookup j = none := by
  rw [lookup_erase_ite]
  split
  · rfl
  · exact h

lemma ne_of_lookup {j : K} (h : m.lookup k = some v) (hnone : m.lookup j = none) : k ≠ j := by
  rintro rfl
  simp [h] at hnone

/-- What is found after an insertion is the new value or was found before. -/
lemma lookup_of_insert {j : K} {w : V} (h : (m.insert k v).lookup j = some w) :
    j = k ∧ v = w ∨ m.lookup j = some w := by
  rw [lookup_insert_ite] at h
  split at h
  next hj =>
    exact .inl ⟨hj, Option.some.inj h⟩
  · exact .inr h

/-- An insertion keeps what holds of all values, where it holds of the new one. -/
lemma forall_lookup_insert {P : K → V → Prop} (hnew : P k v)
    (hheld : ∀ j w, m.lookup j = some w → P j w) : ∀ j w, (m.insert k v).lookup j = some w → P j w := by
  intro j w hlookup
  rcases lookup_of_insert hlookup with ⟨rfl, rfl⟩ | hlookup
  · exact hnew
  · exact hheld j w hlookup

lemma lookup_foldl_erase (keys : List K) (m : Map K V) (k : K) :
    (keys.foldl (fun m j => m.erase j) m).lookup k = if k ∈ keys then none else m.lookup k := by
  induction keys generalizing m with
  | nil => simp
  | cons j keys ih =>
    rw [foldl_cons, ih, lookup_erase_ite]
    by_cases h : k = j <;> simp [h]

lemma lookup_foldl_insert {α : Type} (key : α → K) (value : α → V) (xs : List α) (m : Map K V)
    (h : (xs.foldl (fun m x => m.insert (key x) (value x)) m).lookup k = some v) :
    m.lookup k = some v ∨ ∃ x ∈ xs, key x = k ∧ value x = v := by
  induction xs generalizing m with
  | nil => exact .inl h
  | cons first xs ih =>
    rcases ih _ h with hheld | ⟨x, hx, hkey⟩
    · rcases lookup_of_insert hheld with ⟨hfirst, hvalue⟩ | hheld
      · exact .inr ⟨first, mem_cons_self .., hfirst.symm, hvalue⟩
      · exact .inl hheld
    · exact .inr ⟨x, mem_cons_of_mem _ hx, hkey⟩

/-- A map laid over another answers first. -/
lemma lookup_foldl_entries {W : Type} (f : W → V) (top : Map K W) (m : Map K V) (k : K) :
    (top.entries.foldl (fun m e => m.insert e.1 (f e.2)) m).lookup k = ((top.lookup k).map f).or (m.lookup k) := by
  have hlist : ∀ (entries : List (Sigma fun _ : K => W)) (m : Map K V), entries.NodupKeys →
      (entries.foldl (fun m e => m.insert e.1 (f e.2)) m).lookup k = ((entries.dlookup k).map f).or (m.lookup k) := by
    intro entries
    induction entries with
    | nil => simp
    | cons e entries ih =>
      intro m hnodup
      obtain ⟨hnew, hnodup⟩ := nodupKeys_cons.mp hnodup
      rw [foldl_cons, ih _ hnodup, lookup_insert_ite]
      by_cases h : k = e.1
      · subst h
        rw [dlookup_eq_none.mpr hnew, if_pos rfl, dlookup_cons_eq]
        rfl
      · rw [if_neg h, dlookup_cons_ne _ _ h]
  exact hlist top.entries m top.nodupKeys

def sortedKeys [LinearOrder K] (m : Map K V) : List K := m.keys.insertionSort (· ≤ ·)

lemma mem_sortedKeys [LinearOrder K] : k ∈ m.sortedKeys ↔ (m.lookup k).isSome := by
  unfold sortedKeys
  rw [mem_insertionSort, AList.lookup_isSome, AList.mem_keys]

def set (m : Map K V) (k : K) : Option V → Map K V
  | some v => m.insert k v
  | none => m.erase k

lemma lookup_set (m : Map K V) (j k : K) (v : Option V) :
    (m.set k v).lookup j = if j = k then v else m.lookup j := by
  cases v with
  | none => exact lookup_erase_ite m j k
  | some v => exact lookup_insert_ite m j k v

def values (m : Map K V) : List V := m.entries.map fun e => e.2

lemma mem_values : v ∈ m.values ↔ ∃ k, m.lookup k = some v := by
  constructor
  · intro h
    obtain ⟨e, he, rfl⟩ := mem_map.mp h
    exact ⟨e.1, mem_lookup_iff.mpr he⟩
  · rintro ⟨k, hk⟩
    exact mem_map.mpr ⟨⟨k, v⟩, mem_lookup_iff.mp hk, rfl⟩

lemma entries_perm_erase (h : m.lookup k = some v) : m.entries.Perm (⟨k, v⟩ :: (m.erase k).entries) := by
  have hmem := mem_lookup_iff.mp h
  obtain ⟨w, l, l', -, heq, herase⟩ := exists_of_kerase (mem_keys_of_mem hmem)
  have hw : w = v := m.nodupKeys.eq_of_mk_mem (by rw [heq]; simp) hmem
  subst hw
  change m.entries.Perm (⟨k, w⟩ :: m.entries.kerase k)
  rw [herase, heq]
  exact perm_middle

def sum (m : Map K V) (f : V → Nat) : Nat := (m.entries.map fun e => f e.2).sum

/-- Erasing takes the value's share from the sum. -/
lemma sum_erase (m : Map K V) (k : K) (f : V → Nat) : sum (m.erase k) f + (m.lookup k).elim 0 f = m.sum f := by
  unfold sum
  cases h : m.lookup k with
  | none =>
    change ((m.entries.kerase k).map fun e => f e.2).sum + 0 = _
    rw [kerase_of_notMem_keys (lookup_eq_none.mp h), Nat.add_zero]
  | some v =>
    rw [((entries_perm_erase h).map fun e => f e.2).sum_nat, map_cons, sum_cons]
    exact Nat.add_comm _ _

/-- An insertion replaces a value's share of the sum. -/
lemma sum_insert (m : Map K V) (k : K) (v : V) (f : V → Nat) :
    sum (m.insert k v) f + (m.lookup k).elim 0 f = m.sum f + f v := by
  have hinsert : sum (m.insert k v) f = f v + sum (m.erase k) f := by
    unfold sum
    rw [entries_insert, map_cons, sum_cons]
    rfl
  rw [hinsert, Nat.add_assoc, sum_erase, Nat.add_comm]

lemma sum_set (m : Map K V) (k : K) (v : Option V) (f : V → Nat) :
    sum (m.set k v) f + (m.lookup k).elim 0 f = m.sum f + v.elim 0 f := by
  cases v with
  | none => exact sum_erase m k f
  | some v => exact sum_insert m k v f

lemma exists_of_sum_pos {f : V → Nat} (h : 0 < m.sum f) : ∃ k v, m.lookup k = some v ∧ 0 < f v := by
  obtain ⟨x, hx, hpos⟩ := List.sum_pos_iff_exists_pos_nat.mp h
  obtain ⟨e, he, rfl⟩ := mem_map.mp hx
  exact ⟨e.1, e.2, mem_lookup_iff.mpr he, hpos⟩

omit [DecidableEq K] in
lemma sum_add_le {f g w : V → Nat} (h : ∀ v, f v + g v ≤ w v) (m : Map K V) : m.sum f + m.sum g ≤ m.sum w := by
  unfold sum
  induction m.entries with
  | nil => simp
  | cons e entries ih =>
    have he := h e.2
    simp only [map_cons, sum_cons]
    omega

/-- A part of a map has at most its sum. -/
lemma sum_le_of_lookup {m' : Map K V} (h : ∀ k v, m'.lookup k = some v → m.lookup k = some v) (f : V → Nat) :
    m'.sum f ≤ m.sum f := by
  have hsublist : ∀ {l l' : List (Sigma fun _ : K => V)}, l'.Sublist l →
      (l'.map fun e => f e.2).sum ≤ (l.map fun e => f e.2).sum := by
    intro l l' hsub
    induction hsub with
    | slnil => exact le_rfl
    | cons e _ ih =>
      rw [map_cons, sum_cons]
      omega
    | cons_cons e _ ih =>
      rw [map_cons, sum_cons, map_cons, sum_cons]
      omega
  have hsubset : m'.entries ⊆ m.entries := by
    rintro ⟨k, v⟩ hmem
    exact mem_lookup_iff.mp (h k v (mem_lookup_iff.mpr hmem))
  obtain ⟨l, hperm, hsub⟩ := m'.nodupKeys.nodup.subperm hsubset
  unfold sum
  rw [← (hperm.map fun e => f e.2).sum_nat]
  exact hsublist hsub

/-- Values that are each within an amount booked under their key come to no more than all that is booked. -/
lemma sum_le_booked {f : V → Nat} {booked : List (K × Nat)}
    (h : ∀ k v, m.lookup k = some v → f v = 0 ∨ ∃ n, (k, n) ∈ booked ∧ f v ≤ n) :
    m.sum f ≤ (booked.map Prod.snd).sum := by
  have hlist : ∀ (entries : List (Sigma fun _ : K => V)) (booked : List (K × Nat)), entries.NodupKeys →
      (∀ e ∈ entries, f e.2 = 0 ∨ ∃ n, (e.1, n) ∈ booked ∧ f e.2 ≤ n) →
      (entries.map fun e => f e.2).sum ≤ (booked.map Prod.snd).sum := by
    intro entries
    induction entries with
    | nil => simp
    | cons e entries ih =>
      intro booked hnodup hbooked
      obtain ⟨hnew, hnodup⟩ := nodupKeys_cons.mp hnodup
      rw [map_cons, sum_cons]
      rcases hbooked e (mem_cons_self ..) with hzero | ⟨n, hn, hle⟩
      · have htail := ih booked hnodup fun x hx => hbooked x (mem_cons_of_mem _ hx)
        omega
      -- the other keys are booked without what this one is booked with
      have htail := ih (booked.erase (e.1, n)) hnodup fun x hx => by
        rcases hbooked x (mem_cons_of_mem _ hx) with hzero | ⟨k, hk, hlek⟩
        · exact .inl hzero
        · refine .inr ⟨k, (mem_erase_of_ne ?_).mpr hk, hlek⟩
          intro heq
          have hkey : x.1 = e.1 := congrArg Prod.fst heq
          exact hnew (hkey ▸ mem_keys_of_mem hx)
      have hperm := ((perm_cons_erase hn).map Prod.snd).sum_nat
      rw [map_cons, sum_cons] at hperm
      omega
  exact hlist m.entries booked m.nodupKeys fun e he => h e.1 e.2 (mem_lookup_iff.mpr he)

lemma mem_pairs : (k, v) ∈ m.entries.map (fun e => (e.1, e.2)) ↔ m.lookup k = some v := by
  rw [mem_map]
  constructor
  · rintro ⟨e, he, heq⟩
    cases heq
    exact mem_lookup_iff.mpr he
  · exact fun h => ⟨⟨k, v⟩, mem_lookup_iff.mp h, rfl⟩

lemma entries_insert_of_none (h : m.lookup k = none) (v : V) : (m.insert k v).entries = ⟨k, v⟩ :: m.entries := by
  rw [entries_insert, kerase_of_notMem_keys]
  exact lookup_eq_none.mp h

lemma lookup_foldl_insert_eq {α : Type} (key : α → K) (value : α → V) (decided : K → V) (xs : List α)
    (hdecided : ∀ x ∈ xs, value x = decided (key x)) (m : Map K V) (k : K) :
    (xs.foldl (fun m x => m.insert (key x) (value x)) m).lookup k =
      if k ∈ xs.map key then some (decided k) else m.lookup k := by
  induction xs generalizing m with
  | nil => simp
  | cons x xs ih =>
    rw [foldl_cons, ih fun y hy => hdecided y (mem_cons_of_mem _ hy), lookup_insert_ite,
      hdecided x (mem_cons_self ..)]
    by_cases hk : k = key x
    · subst hk
      simp
    · simp [hk]

def countP (m : Map K V) (p : V → Bool) : Nat := m.values.countP p

lemma countP_pos_iff {p : V → Bool} : 0 < m.countP p ↔ ∃ k v, m.lookup k = some v ∧ p v = true := by
  unfold countP
  rw [List.countP_pos_iff]
  constructor
  · rintro ⟨v, hv, hp⟩
    obtain ⟨k, hk⟩ := mem_values.mp hv
    exact ⟨k, v, hk, hp⟩
  · rintro ⟨k, v, hk, hp⟩
    exact ⟨v, mem_values.mpr ⟨k, hk⟩, hp⟩

def keysWith (m : Map K V) (p : V → Bool) : Finset K := m.keys.toFinset.filter fun k => (m.lookup k).any p = true

lemma mem_keysWith {p : V → Bool} : k ∈ m.keysWith p ↔ ∃ v, m.lookup k = some v ∧ p v = true := by
  unfold keysWith
  rw [Finset.mem_filter, mem_toFinset, Option.any_eq_true]
  constructor
  · exact And.right
  · rintro ⟨v, hv, hp⟩
    exact ⟨mem_keys.mp (lookup_isSome.mp (by rw [hv]; rfl)), v, hv, hp⟩

lemma card_keysWith (m : Map K V) (p : V → Bool) : (m.keysWith p).card = m.countP p := by
  have hmap : m.keysWith p = ((m.entries.filter fun e => p e.2).map fun e => e.1).toFinset := by
    ext k
    rw [mem_keysWith, mem_toFinset, mem_map]
    constructor
    · rintro ⟨v, hv, hp⟩
      exact ⟨⟨k, v⟩, mem_filter.mpr ⟨mem_lookup_iff.mp hv, hp⟩, rfl⟩
    · rintro ⟨e, he, rfl⟩
      obtain ⟨hmem, hp⟩ := mem_filter.mp he
      exact ⟨e.2, mem_lookup_iff.mpr hmem, hp⟩
  have hnodup : ((m.entries.filter fun e => p e.2).map fun e => e.1).Nodup :=
    (filter_sublist.map _).nodup m.nodupKeys
  rw [hmap, toFinset_card_of_nodup hnodup, length_map, countP, values, countP_map,
    countP_eq_length_filter]
  rfl

lemma card_keysWith_true (m : Map K V) : (m.keysWith fun _ => true).card = m.entries.length := by
  rw [card_keysWith, countP, values, countP_true, length_map]

/-- One more where there is room, or in place of another, is not too many. -/
lemma card_le_of_insert {held held' : Finset K} (new : K) (evicted : List K) {limit : Nat}
    (hsub : ∀ v ∈ held', v = new ∨ v ∈ held ∧ v ∉ evicted) (hle : held.card ≤ limit)
    (hroom : held.card < limit ∨ ∃ v ∈ held, v ∈ evicted) : held'.card ≤ limit := by
  rcases hroom with hlt | ⟨v, hv, hevicted⟩
  · have hinsert : held' ⊆ insert new held := by
      intro u hu
      rw [Finset.mem_insert]
      exact (hsub u hu).imp_right And.left
    have hcard := Finset.card_le_card hinsert
    have hone := Finset.card_insert_le new held
    omega
  · have hinsert : held' ⊆ insert new (held.erase v) := by
      intro u hu
      rw [Finset.mem_insert, Finset.mem_erase]
      refine (hsub u hu).imp_right fun h => ⟨?_, h.1⟩
      rintro rfl
      exact h.2 hevicted
    have hcard := Finset.card_le_card hinsert
    have hone := Finset.card_insert_le new (held.erase v)
    have herase := Finset.card_erase_add_one hv
    omega

def filter (m : Map K V) (p : K → V → Bool) : Map K V :=
  ⟨m.entries.filter fun e => p e.1 e.2, List.NodupKeys.sublist filter_sublist m.nodupKeys⟩

lemma lookup_filter (m : Map K V) (p : K → V → Bool) (k : K) :
    (m.filter p).lookup k = (m.lookup k).filter (p k) := by
  ext v
  rw [← Option.mem_def, mem_lookup_iff, Option.filter_eq_some_iff, ← Option.mem_def, mem_lookup_iff]
  simp [filter]

def mapValues {W : Type} (m : Map K V) (f : K → V → W) : Map K W :=
  ⟨m.entries.map fun e => ⟨e.1, f e.1 e.2⟩, by
    unfold List.NodupKeys List.keys
    rw [map_map]
    exact m.nodupKeys⟩

lemma lookup_mapValues {W : Type} (m : Map K V) (f : K → V → W) (k : K) :
    (m.mapValues f).lookup k = (m.lookup k).map (f k) := by
  ext w
  rw [← Option.mem_def, mem_lookup_iff, Option.map_eq_some_iff]
  constructor
  · intro h
    obtain ⟨e, he, heq⟩ := mem_map.mp h
    cases heq
    exact ⟨e.2, mem_lookup_iff.mpr he, rfl⟩
  · rintro ⟨v, hv, rfl⟩
    exact mem_map.mpr ⟨⟨k, v⟩, mem_lookup_iff.mp hv, rfl⟩

end Map

end OpampFleet.Lib
