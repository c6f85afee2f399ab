-- Finite maps as lists sorted by key, the way an ordered tree iterates over
-- them. Two maps with the same lookups are equal, so an operation is described
-- by what a lookup finds after it.
import Mathlib.Order.Defs.LinearOrder
import Mathlib.Order.Basic
import Mathlib.Data.List.Sort
import Mathlib.Data.Finset.Card
import Mathlib.Order.Interval.Finset.Nat

namespace ordmap

variable {K V : Type} [LinearOrder K]

/-- A list of pairs in the order of their keys, each key once. -/
structure OrdMap (K V : Type) [LinearOrder K] where
  entries : List (K × V)
  sorted : entries.Pairwise (fun a b => a.1 < b.1)

instance [DecidableEq V] : DecidableEq (OrdMap K V) := fun a b =>
  decidable_of_iff (a.entries = b.entries) (by
    cases a
    cases b
    simp)

/-- No key at all. -/
def OrdMap.empty : OrdMap K V := ⟨[], .nil⟩

/-- The value under a key. -/
def OrdMap.get? (m : OrdMap K V) (k : K) : Option V :=
  (m.entries.find? fun p => p.1 = k).map Prod.snd

/-- Keep the entries whose key passes the test. -/
def OrdMap.filterKeys (m : OrdMap K V) (p : K → Bool) : OrdMap K V :=
  ⟨m.entries.filter fun e => p e.1, m.sorted.filter _⟩

/-- Drop a key. -/
def OrdMap.erase (m : OrdMap K V) (k : K) : OrdMap K V := m.filterKeys fun j => j ≠ k

/-- Put a value under a key, over the one that was there. -/
def OrdMap.insert (m : OrdMap K V) (k : K) (v : V) : OrdMap K V where
  entries := (m.entries.filter fun e => e.1 < k) ++ (k, v) :: m.entries.filter fun e => k < e.1
  sorted := by
    rw [List.pairwise_append, List.pairwise_cons]
    refine ⟨m.sorted.filter _, ⟨?_, m.sorted.filter _⟩, ?_⟩
    · intro e he
      simpa using (List.mem_filter.mp he).2
    · intro a ha b hb
      have hak : a.1 < k := by simpa using (List.mem_filter.mp ha).2
      rcases List.mem_cons.mp hb with rfl | hb
      · exact hak
      · have hkb : k < b.1 := by simpa using (List.mem_filter.mp hb).2
        exact hak.trans hkb

/-- The pair with the largest key. -/
def OrdMap.last? (m : OrdMap K V) : Option (K × V) := m.entries.getLast?

/-- The values in the order of their keys. -/
def OrdMap.values (m : OrdMap K V) : List V := m.entries.map Prod.snd

/-- The keys in their order. -/
def OrdMap.keys (m : OrdMap K V) : List K := m.entries.map Prod.fst

/-- The values between two keys, both included, in the order of the keys. -/
def OrdMap.range (m : OrdMap K V) (lo hi : K) : List V :=
  (m.filterKeys fun k => lo ≤ k ∧ k ≤ hi).values

/-- Insert every pair of a list, the later ones last. -/
def OrdMap.insertAll (m : OrdMap K V) (l : List (K × V)) : OrdMap K V :=
  l.foldl (fun m e => m.insert e.1 e.2) m

/-! ## Lookups -/

theorem OrdMap.get?_eq_some_iff (m : OrdMap K V) (k : K) (v : V) :
    m.get? k = some v ↔ (k, v) ∈ m.entries := by
  obtain ⟨l, hl⟩ := m
  unfold OrdMap.get?
  dsimp only
  induction l with
  | nil => simp
  | cons e l ih =>
    rw [List.pairwise_cons] at hl
    obtain ⟨j, w⟩ := e
    by_cases hj : j = k
    · subst hj
      simp only [List.find?_cons_of_pos, decide_true, Option.map_some, Option.some.injEq,
        List.mem_cons, Prod.mk.injEq, true_and]
      constructor
      · intro h
        exact .inl h.symm
      · rintro (h | h)
        · exact h.symm
        · exact absurd (hl.1 _ h) (lt_irrefl _)
    · rw [List.find?_cons_of_neg (by simpa using hj), ih hl.2]
      simp [Ne.symm hj]

@[ext] theorem OrdMap.ext_get? {m₁ m₂ : OrdMap K V} (h : ∀ k, m₁.get? k = m₂.get? k) :
    m₁ = m₂ := by
  have hmem : ∀ e, e ∈ m₁.entries ↔ e ∈ m₂.entries := by
    rintro ⟨k, v⟩
    rw [← m₁.get?_eq_some_iff, ← m₂.get?_eq_some_iff, h k]
  have hnd : ∀ m : OrdMap K V, m.entries.Nodup := fun m =>
    m.sorted.imp fun hlt heq => absurd (heq ▸ hlt) (lt_irrefl _)
  have heq : m₁.entries = m₂.entries :=
    ((List.perm_ext_iff_of_nodup (hnd m₁) (hnd m₂)).mpr hmem).eq_of_pairwise
      (fun a b _ _ hab hba => absurd (hab.trans hba) (lt_irrefl _)) m₁.sorted m₂.sorted
  cases m₁
  cases m₂
  simpa using heq

@[simp] theorem OrdMap.get?_empty (k : K) : (OrdMap.empty : OrdMap K V).get? k = none := rfl

theorem OrdMap.get?_filterKeys (m : OrdMap K V) (p : K → Bool) (k : K) :
    (m.filterKeys p).get? k = if p k then m.get? k else none := by
  have key : ∀ v, (m.filterKeys p).get? k = some v ↔ p k = true ∧ m.get? k = some v := by
    intro v
    rw [OrdMap.get?_eq_some_iff, OrdMap.get?_eq_some_iff]
    simp [OrdMap.filterKeys, and_comm]
  cases hg : (m.filterKeys p).get? k with
  | some v =>
    obtain ⟨hp, hv⟩ := (key v).mp hg
    simp [hp, hv]
  | none =>
    split
    · rename_i hp
      cases hv : m.get? k with
      | none => rfl
      | some v =>
        rw [(key v).mpr ⟨hp, hv⟩] at hg
        cases hg
    · rfl

theorem OrdMap.get?_insert (m : OrdMap K V) (k : K) (v : V) (j : K) :
    (m.insert k v).get? j = if j = k then some v else m.get? j := by
  have key : ∀ w, (m.insert k v).get? j = some w ↔
      (j = k ∧ w = v) ∨ (j ≠ k ∧ m.get? j = some w) := by
    intro w
    rw [OrdMap.get?_eq_some_iff, OrdMap.get?_eq_some_iff]
    simp only [OrdMap.insert, List.mem_append, List.mem_filter, List.mem_cons, Prod.mk.injEq,
      decide_eq_true_eq]
    constructor
    · rintro (⟨hm, hlt⟩ | ⟨rfl, rfl⟩ | ⟨hm, hlt⟩)
      · exact .inr ⟨hlt.ne, hm⟩
      · exact .inl ⟨rfl, rfl⟩
      · exact .inr ⟨hlt.ne', hm⟩
    · rintro (⟨rfl, rfl⟩ | ⟨hne, hm⟩)
      · exact .inr (.inl ⟨rfl, rfl⟩)
      · rcases lt_or_gt_of_ne hne with hlt | hgt
        · exact .inl ⟨hm, hlt⟩
        · exact .inr (.inr ⟨hm, hgt⟩)
  split
  · rename_i hj
    exact (key v).mpr (.inl ⟨hj, rfl⟩)
  · rename_i hj
    cases hv : m.get? j with
    | some w => exact (key w).mpr (.inr ⟨hj, hv⟩)
    | none =>
      cases hg : (m.insert k v).get? j with
      | none => rfl
      | some w =>
        rcases (key w).mp hg with ⟨hjk, -⟩ | ⟨-, hw⟩
        · exact absurd hjk hj
        · rw [hv] at hw
          cases hw

@[simp] theorem OrdMap.get?_insert_self (m : OrdMap K V) (k : K) (v : V) :
    (m.insert k v).get? k = some v := by
  simp [OrdMap.get?_insert]

theorem OrdMap.get?_insert_of_ne (m : OrdMap K V) {k j : K} (h : j ≠ k) (v : V) :
    (m.insert k v).get? j = m.get? j := by
  simp [OrdMap.get?_insert, h]

theorem OrdMap.get?_erase (m : OrdMap K V) (k j : K) :
    (m.erase k).get? j = if j = k then none else m.get? j := by
  rw [OrdMap.erase, OrdMap.get?_filterKeys]
  by_cases h : j = k <;> simp [h]

/-- Giving the same value to every key of a list. -/
theorem OrdMap.get?_insertAll_const (m : OrdMap K V) (ks : List K) (v : V) (k : K) :
    (m.insertAll (ks.map fun j => (j, v))).get? k = if k ∈ ks then some v else m.get? k := by
  induction ks generalizing m with
  | nil => simp [OrdMap.insertAll]
  | cons j ks ih =>
    have hcons : m.insertAll ((j :: ks).map fun j => (j, v)) =
        (m.insert j v).insertAll (ks.map fun j => (j, v)) := rfl
    rw [hcons, ih, OrdMap.get?_insert]
    by_cases hk : k ∈ ks
    · simp [hk]
    · by_cases hkj : k = j <;> simp [hk, hkj]

/-- The last entry is the one with the greatest key. -/
theorem OrdMap.last?_eq_some_iff (m : OrdMap K V) (k : K) (v : V) :
    m.last? = some (k, v) ↔ m.get? k = some v ∧ ∀ j, m.get? j ≠ none → j ≤ k := by
  rw [OrdMap.get?_eq_some_iff]
  have hmem : ∀ j, m.get? j ≠ none ↔ ∃ w, (j, w) ∈ m.entries := by
    intro j
    rw [Option.ne_none_iff_exists']
    exact ⟨fun ⟨w, hw⟩ => ⟨w, (m.get?_eq_some_iff j w).mp hw⟩,
      fun ⟨w, hw⟩ => ⟨w, (m.get?_eq_some_iff j w).mpr hw⟩⟩
  unfold OrdMap.last?
  constructor
  · intro h
    refine ⟨List.mem_of_getLast? h, ?_⟩
    intro j hj
    obtain ⟨w, hw⟩ := (hmem j).mp hj
    obtain ⟨ys, hys⟩ := List.getLast?_eq_some_iff.mp h
    have hs := m.sorted
    rw [hys, List.pairwise_append] at hs
    rw [hys, List.mem_append, List.mem_singleton] at hw
    rcases hw with hw | hw
    · exact (hs.2.2 _ hw (k, v) (by simp)).le
    · rw [(Prod.mk.inj hw).1]
  · rintro ⟨hkv, hmax⟩
    have hne : m.entries ≠ [] := List.ne_nil_of_mem hkv
    obtain ⟨e, he⟩ : ∃ e, m.entries.getLast? = some e :=
      ⟨_, List.getLast?_eq_some_getLast hne⟩
    obtain ⟨ys, hys⟩ := List.getLast?_eq_some_iff.mp he
    have hs := m.sorted
    rw [hys, List.pairwise_append] at hs
    rw [hys, List.mem_append, List.mem_singleton] at hkv
    rcases hkv with hkv | rfl
    · have hlt := hs.2.2 _ hkv e (by simp)
      have hle := hmax e.1 ((hmem e.1).mpr ⟨e.2, by rw [hys]; simp⟩)
      exact absurd hlt (not_lt.mpr hle)
    · exact he

theorem OrdMap.last?_eq_none_iff (m : OrdMap K V) : m.last? = none ↔ ∀ k, m.get? k = none := by
  unfold OrdMap.last?
  rw [List.getLast?_eq_none_iff]
  constructor
  · intro h k
    simp [OrdMap.get?, h]
  · intro h
    by_contra hne
    obtain ⟨⟨k, v⟩, l, hl⟩ := List.exists_cons_of_ne_nil hne
    have := (m.get?_eq_some_iff k v).mpr (by simp [hl])
    rw [h k] at this
    cases this

theorem OrdMap.get?_insertAll_ne_none (m : OrdMap K V) (l : List (K × V)) (k : K) :
    (m.insertAll l).get? k ≠ none ↔ m.get? k ≠ none ∨ k ∈ l.map Prod.fst := by
  induction l generalizing m with
  | nil => simp [OrdMap.insertAll]
  | cons e l ih =>
    have hcons : m.insertAll (e :: l) = (m.insert e.1 e.2).insertAll l := rfl
    rw [hcons, ih, OrdMap.get?_insert]
    by_cases hk : k = e.1
    · simp [hk]
    · simp [hk]

/-- Every value found after the insertions was there before, or was inserted. -/
theorem OrdMap.get?_insertAll_cases (m : OrdMap K V) (l : List (K × V)) {k : K} {v : V}
    (h : (m.insertAll l).get? k = some v) : m.get? k = some v ∨ (k, v) ∈ l := by
  induction l generalizing m with
  | nil => exact .inl h
  | cons e l ih =>
    have hcons : m.insertAll (e :: l) = (m.insert e.1 e.2).insertAll l := rfl
    rw [hcons] at h
    rcases ih _ h with hget | hmem
    · rw [OrdMap.get?_insert] at hget
      split at hget
      · rename_i hk
        obtain rfl := Option.some.inj hget
        exact .inr (by simp [hk])
      · exact .inl hget
    · exact .inr (List.mem_cons_of_mem _ hmem)

/-! ## Keys -/

/-- The keys whose value passes the test. -/
def OrdMap.keysWhere (m : OrdMap K V) (p : V → Bool) : Finset K :=
  ((m.entries.filter fun e => p e.2).map Prod.fst).toFinset

theorem OrdMap.mem_keysWhere (m : OrdMap K V) (p : V → Bool) (k : K) :
    k ∈ m.keysWhere p ↔ ∃ v, m.get? k = some v ∧ p v = true := by
  simp only [OrdMap.keysWhere, List.mem_toFinset, List.mem_map, List.mem_filter]
  constructor
  · rintro ⟨⟨j, v⟩, ⟨hmem, hp⟩, rfl⟩
    exact ⟨v, (m.get?_eq_some_iff j v).mpr hmem, hp⟩
  · rintro ⟨v, hget, hp⟩
    exact ⟨(k, v), ⟨(m.get?_eq_some_iff k v).mp hget, hp⟩, rfl⟩

/-- No key is counted twice. -/
theorem OrdMap.card_keysWhere (m : OrdMap K V) (p : V → Bool) :
    (m.keysWhere p).card = (m.values.filter p).length := by
  have hnodup : ((m.entries.filter fun e => p e.2).map Prod.fst).Nodup := by
    refine List.Pairwise.map _ (fun a b hab => ?_) (m.sorted.filter _)
    exact ne_of_lt hab
  rw [OrdMap.keysWhere, List.toFinset_card_of_nodup hnodup, List.length_map, OrdMap.values,
    List.filter_map, List.length_map]
  rfl

theorem OrdMap.nodup_keys (m : OrdMap K V) : m.keys.Nodup :=
  (List.pairwise_map.mpr m.sorted).imp fun hlt => ne_of_lt hlt

/-- A map with so many different keys has at least as many entries. -/
theorem OrdMap.length_le_of_keys {m : OrdMap K V} {ks : List K} (hks : ks.Nodup)
    (hget : ∀ k ∈ ks, m.get? k ≠ none) : ks.length ≤ m.entries.length := by
  have hsub : ks ⊆ m.keys := by
    intro k hk
    obtain ⟨v, hv⟩ := Option.ne_none_iff_exists'.mp (hget k hk)
    exact List.mem_map.mpr ⟨(k, v), (m.get?_eq_some_iff k v).mp hv, rfl⟩
  have hlen := (hks.subperm hsub).length_le
  unfold OrdMap.keys at hlen
  rwa [List.length_map] at hlen

/-- No insertion makes a map smaller. -/
theorem OrdMap.length_le_insert (m : OrdMap K V) (k : K) (v : V) :
    m.entries.length ≤ (m.insert k v).entries.length := by
  have hlen : m.keys.length ≤ (m.insert k v).entries.length := by
    refine length_le_of_keys m.nodup_keys fun j hj => ?_
    obtain ⟨⟨j, w⟩, hmem, rfl⟩ := List.mem_map.mp hj
    rw [OrdMap.get?_insert]
    split
    · simp
    · rw [(m.get?_eq_some_iff j w).mpr hmem]
      simp
  unfold OrdMap.keys at hlen
  rwa [List.length_map] at hlen

/-- A range of numbers has no more values than keys it could have. -/
theorem OrdMap.range_length (m : OrdMap Nat V) (lo hi : Nat) :
    (m.range lo hi).length ≤ hi + 1 - lo := by
  have hkeys : (m.filterKeys fun k => decide (lo ≤ k ∧ k ≤ hi)).keys.Nodup :=
    (m.filterKeys _).nodup_keys
  have hsub : (m.filterKeys fun k => decide (lo ≤ k ∧ k ≤ hi)).keys.toFinset ⊆
      Finset.Icc lo hi := by
    intro k hk
    obtain ⟨p, hp, rfl⟩ := List.mem_map.mp (List.mem_toFinset.mp hk)
    simpa using (List.mem_filter.mp hp).2
  have hcard := Finset.card_le_card hsub
  rw [List.toFinset_card_of_nodup hkeys, Nat.card_Icc] at hcard
  unfold OrdMap.range OrdMap.values
  rw [List.length_map]
  unfold OrdMap.keys at hcard
  rw [List.length_map] at hcard
  exact hcard

/-! ## Walks -/

/-- The key is past the one that was last seen. -/
def Past (seen : Option K) (k : K) : Prop := ∀ j ∈ seen, j < k

instance (seen : Option K) (k : K) : Decidable (Past seen k) :=
  match seen with
  | none => isTrue (by simp [Past])
  | some j => decidable_of_iff (j < k) (by simp [Past])

theorem past_none (k : K) : Past none k := fun _ hj => by cases hj

theorem not_past_some {j k : K} : ¬Past (some j) k ↔ k ≤ j := by simp [Past]

theorem Past.trans {seen : Option K} {j k : K} (h : Past seen j) (hlt : j < k) : Past seen k :=
  fun i hi => (h i hi).trans hlt

/-- The next pair of a walk that goes by keys, so that it can go on in another map. -/
def OrdMap.next? (m : OrdMap K V) (seen : Option K) : Option (K × V) :=
  m.entries.find? fun e => Past seen e.1

/-- The walk goes to the least key that it has not passed. -/
theorem OrdMap.next?_some {m : OrdMap K V} {seen : Option K} {k : K} {v : V}
    (h : m.next? seen = some (k, v)) :
    m.get? k = some v ∧ Past seen k ∧ ∀ j, Past seen j → j < k → m.get? j = none := by
  unfold OrdMap.next? at h
  have hpast : Past seen k := by simpa using List.find?_some h
  refine ⟨(m.get?_eq_some_iff k v).mpr (List.mem_of_find?_eq_some h), hpast, fun j hj hlt => ?_⟩
  cases hget : m.get? j with
  | none => rfl
  | some u =>
    have hmem := (m.get?_eq_some_iff j u).mp hget
    obtain ⟨-, before, after, heq, hbefore⟩ := List.find?_eq_some_iff_append.mp h
    have hsorted := m.sorted
    rw [heq] at hmem hsorted
    rcases List.mem_append.mp hmem with hin | hin
    · exact absurd hj (by simpa using hbefore _ hin)
    · rcases List.mem_cons.mp hin with heq | hin
      · exact absurd (congrArg Prod.fst heq) hlt.ne
      · have hlater := (List.pairwise_cons.mp (List.pairwise_append.mp hsorted).2.1).1 _ hin
        exact absurd hlater (not_lt.mpr hlt.le)

theorem OrdMap.next?_none {m : OrdMap K V} {seen : Option K} (h : m.next? seen = none) {j : K}
    (hj : Past seen j) : m.get? j = none := by
  cases hget : m.get? j with
  | none => rfl
  | some u =>
    have hno := List.find?_eq_none.mp h _ ((m.get?_eq_some_iff j u).mp hget)
    exact absurd hj (by simpa using hno)

/-- What such a walk has passed when nothing changes. -/
def OrdMap.seenValues (m : OrdMap K V) (seen : Option K) : List V :=
  (m.filterKeys fun k => ¬Past seen k).values

@[simp] theorem OrdMap.seenValues_none (m : OrdMap K V) : m.seenValues none = [] := by
  have hnone : m.entries.filter (fun e => decide ¬Past none e.1) = [] := by
    rw [List.filter_eq_nil_iff]
    intro e _
    simp [Past]
  change (m.entries.filter _).map Prod.snd = []
  rw [hnone]
  rfl

theorem OrdMap.seenValues_next {m : OrdMap K V} {seen : Option K} {k : K} {v : V}
    (h : m.next? seen = some (k, v)) : m.seenValues (some k) = m.seenValues seen ++ [v] := by
  have hlist : ∀ l : List (K × V), l.Pairwise (fun a b => a.1 < b.1) →
      l.find? (fun e => Past seen e.1) = some (k, v) →
      l.filter (fun e => ¬Past (some k) e.1) = l.filter (fun e => ¬Past seen e.1) ++ [(k, v)] := by
    intro l hl hfind
    induction l with
    | nil => cases hfind
    | cons x xs ih =>
      obtain ⟨hx, hxs⟩ := List.pairwise_cons.mp hl
      by_cases hpast : Past seen x.1
      · rw [List.find?_cons_of_pos (by simpa using hpast)] at hfind
        obtain rfl := Option.some.inj hfind
        have hrest : xs.filter (fun e => decide ¬Past seen e.1) = [] := by
          rw [List.filter_eq_nil_iff]
          intro e he
          simp only [decide_eq_true_eq, not_not]
          exact fun j hj => (hpast j hj).trans (hx e he)
        have hrest' : xs.filter (fun e => decide ¬Past (some k) e.1) = [] := by
          rw [List.filter_eq_nil_iff]
          intro e he
          simp only [decide_eq_true_eq, not_not]
          rintro j ⟨⟩
          exact hx e he
        rw [List.filter_cons_of_pos (by simp [Past]),
          List.filter_cons_of_neg (by simpa using hpast), hrest, hrest', List.nil_append]
      · rw [List.find?_cons_of_neg (by simpa using hpast)] at hfind
        have hlt : Past seen k := by simpa using List.find?_some hfind
        rw [List.filter_cons_of_pos, List.filter_cons_of_pos, ih hxs hfind, List.cons_append]
        · simpa using hpast
        · have hmem := List.mem_of_find?_eq_some hfind
          have := hx _ hmem
          simp only [decide_eq_true_eq, Past, Option.mem_some_iff, forall_eq', not_lt]
          exact this.le
  change (m.entries.filter _).map Prod.snd = (m.entries.filter _).map Prod.snd ++ [v]
  rw [hlist m.entries m.sorted h, List.map_append]
  rfl

/-- The walk is over when it has passed all there is. -/
theorem OrdMap.seenValues_end {m : OrdMap K V} {seen : Option K} (h : m.next? seen = none) :
    m.seenValues seen = m.values := by
  have hall : m.entries.filter (fun e => decide ¬Past seen e.1) = m.entries := by
    rw [List.filter_eq_self]
    intro e he
    have := List.find?_eq_none.mp h e he
    simpa using this
  change (m.entries.filter _).map Prod.snd = m.entries.map Prod.snd
  rw [hall]

end ordmap
