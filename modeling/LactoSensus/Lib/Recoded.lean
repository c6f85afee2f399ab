-- An ordered map whose keys and values are written down in another form. As long as
-- the form of the keys keeps their order, every operation on the written map is the
-- written form of the operation, and the map is walked in the same order.
import LactoSensus.Lib.OrdMap
import Mathlib.Order.Monotone.Basic
import Mathlib.Data.List.Sort

namespace ordmap

variable {K L V W : Type} [LinearOrder K] [LinearOrder L]

/-- Remove every key of a list. -/
def OrdMap.eraseAll (m : OrdMap K V) (ks : List K) : OrdMap K V := ks.foldl OrdMap.erase m

theorem OrdMap.get?_eraseAll (m : OrdMap K V) (ks : List K) (k : K) :
    (m.eraseAll ks).get? k = if k ∈ ks then none else m.get? k := by
  induction ks generalizing m with
  | nil => simp [OrdMap.eraseAll]
  | cons j ks ih =>
    unfold OrdMap.eraseAll at ih ⊢
    rw [List.foldl_cons, ih, OrdMap.get?_erase]
    by_cases hk : k = j <;> simp [hk]

/-- To remove keys one by one is to keep the others. -/
theorem OrdMap.eraseAll_eq_filterKeys (m : OrdMap K V) (ks : List K) :
    m.eraseAll ks = m.filterKeys fun k => k ∉ ks := by
  ext1 k
  rw [OrdMap.get?_eraseAll, OrdMap.get?_filterKeys]
  by_cases hk : k ∈ ks <;> simp [hk]

/-- The keys of a map are those of an ordered list that it has. -/
theorem OrdMap.keys_eq_filter (m : OrdMap K V) {ks : List K} (hks : ks.Pairwise (· < ·))
    (h : ∀ k v, m.get? k = some v → k ∈ ks) : m.keys = ks.filter fun k => (m.get? k).isSome := by
  have hkeys : m.keys.Pairwise (· < ·) := by
    unfold OrdMap.keys
    rw [List.pairwise_map]
    exact m.sorted
  apply hkeys.eq_of_mem_iff (hks.filter _)
  intro k
  simp only [List.mem_filter, Option.isSome_iff_exists]
  constructor
  · intro hk
    obtain ⟨e, he, rfl⟩ := List.mem_map.mp hk
    have hfound := (m.get?_eq_some_iff e.1 e.2).mpr he
    exact ⟨h _ _ hfound, _, hfound⟩
  · rintro ⟨-, v, hv⟩
    exact List.mem_map_of_mem ((m.get?_eq_some_iff k v).mp hv)

/-- The second map is the first one, written down: its keys by `f`, its values by `g`. -/
structure Recoded (S : Set K) (f : K → L) (g : V → W) (m : OrdMap K V) (m' : OrdMap L W) :
    Prop where
  keys : ∀ e ∈ m.entries, e.1 ∈ S
  entries : m'.entries = m.entries.map fun e => (f e.1, g e.2)

variable {S : Set K} {f : K → L} {g : V → W} {m : OrdMap K V} {m' : OrdMap L W} {k : K} {v : V}

theorem Recoded.empty : Recoded S f g OrdMap.empty OrdMap.empty := ⟨nofun, rfl⟩

theorem Recoded.get? (hf : StrictMonoOn f S) (h : Recoded S f g m m') (hk : k ∈ S) :
    m'.get? (f k) = (m.get? k).map g := by
  have hfind : ∀ es : List (K × V), (∀ e ∈ es, e.1 ∈ S) →
      (es.map fun e => (f e.1, g e.2)).find? (fun p => p.1 = f k) =
        (es.find? fun p => p.1 = k).map fun e => (f e.1, g e.2) := by
    intro es hes
    induction es with
    | nil => rfl
    | cons e es ih =>
      have hinj : f e.1 = f k ↔ e.1 = k := hf.injOn.eq_iff (hes e List.mem_cons_self) hk
      have hrest := ih fun e he => hes e (List.mem_cons_of_mem _ he)
      by_cases heq : e.1 = k
      · simp [heq]
      · rw [List.map_cons, List.find?_cons_of_neg (by simpa [hinj] using heq), hrest,
          List.find?_cons_of_neg (by simpa using heq)]
  unfold OrdMap.get?
  rw [h.entries, hfind m.entries h.keys]
  cases m.entries.find? fun p => p.1 = k <;> rfl

/-- A test of the written keys that tests the keys. -/
theorem Recoded.filterKeys (h : Recoded S f g m m') {p : K → Bool} {q : L → Bool}
    (hpq : ∀ j ∈ S, q (f j) = p j) : Recoded S f g (m.filterKeys p) (m'.filterKeys q) := by
  refine ⟨fun e he => h.keys e (List.mem_of_mem_filter he), ?_⟩
  unfold OrdMap.filterKeys
  dsimp only
  rw [h.entries, List.filter_map]
  congr 1
  exact List.filter_congr fun e he => hpq e.1 (h.keys e he)

theorem Recoded.insert (hf : StrictMonoOn f S) (h : Recoded S f g m m') (hk : k ∈ S) :
    Recoded S f g (m.insert k v) (m'.insert (f k) (g v)) := by
  have hbelow : m'.entries.filter (fun e => e.1 < f k) =
      (m.entries.filter fun e => e.1 < k).map fun e => (f e.1, g e.2) := by
    rw [h.entries, List.filter_map]
    congr 1
    exact List.filter_congr fun e he => by simp [hf.lt_iff_lt (h.keys e he) hk]
  have habove : m'.entries.filter (fun e => f k < e.1) =
      (m.entries.filter fun e => k < e.1).map fun e => (f e.1, g e.2) := by
    rw [h.entries, List.filter_map]
    congr 1
    exact List.filter_congr fun e he => by simp [hf.lt_iff_lt hk (h.keys e he)]
  refine ⟨fun e he => ?_, ?_⟩
  · rcases List.mem_append.mp he with hold | hnew
    · exact h.keys e (List.mem_of_mem_filter hold)
    · rcases List.mem_cons.mp hnew with rfl | hold
      · exact hk
      · exact h.keys e (List.mem_of_mem_filter hold)
  · unfold OrdMap.insert
    dsimp only
    rw [hbelow, habove, List.map_append, List.map_cons]

theorem Recoded.insertAll (hf : StrictMonoOn f S) (h : Recoded S f g m m')
    {es : List (K × V)} (hes : ∀ e ∈ es, e.1 ∈ S) :
    Recoded S f g (m.insertAll es) (m'.insertAll (es.map fun e => (f e.1, g e.2))) := by
  induction es generalizing m m' with
  | nil => exact h
  | cons e es ih =>
    exact ih (h.insert hf (hes e List.mem_cons_self)) fun e he =>
      hes e (List.mem_cons_of_mem _ he)

theorem Recoded.erase (hf : StrictMonoOn f S) (h : Recoded S f g m m') (hk : k ∈ S) :
    Recoded S f g (m.erase k) (m'.erase (f k)) :=
  h.filterKeys fun j hj => by simp [hf.injOn.eq_iff hj hk]

theorem Recoded.eraseAll (hf : StrictMonoOn f S) (h : Recoded S f g m m') {ks : List K}
    (hks : ∀ j ∈ ks, j ∈ S) : Recoded S f g (m.eraseAll ks) (m'.eraseAll (ks.map f)) := by
  induction ks generalizing m m' with
  | nil => exact h
  | cons j ks ih =>
    exact ih (h.erase hf (hks j List.mem_cons_self)) fun j hj => hks j (List.mem_cons_of_mem _ hj)

theorem Recoded.last? (h : Recoded S f g m m') :
    m'.last? = m.last?.map fun e => (f e.1, g e.2) := by
  unfold OrdMap.last?
  rw [h.entries, List.getLast?_map]

theorem Recoded.values_eq (h : Recoded S f g m m') : m'.values = m.values.map g := by
  unfold OrdMap.values
  rw [h.entries, List.map_map, List.map_map]
  rfl

theorem Recoded.keys_eq (h : Recoded S f g m m') : m'.keys = m.keys.map f := by
  unfold OrdMap.keys
  rw [h.entries, List.map_map, List.map_map]
  rfl

/-- What lies between two written keys is what lies between the keys, in their order. -/
theorem Recoded.range (hf : StrictMonoOn f S) (h : Recoded S f g m m') {lo hi : K}
    (hlo : lo ∈ S) (hhi : hi ∈ S) : m'.range (f lo) (f hi) = (m.range lo hi).map g := by
  have hfiltered := h.filterKeys (p := fun k => lo ≤ k ∧ k ≤ hi)
    (q := fun l => f lo ≤ l ∧ l ≤ f hi)
    fun j hj => by simp [hf.le_iff_le hlo hj, hf.le_iff_le hj hhi]
  unfold OrdMap.range OrdMap.values
  rw [hfiltered.entries, List.map_map, List.map_map]
  rfl

/-! ## Single values -/

section cells

variable {X Y E : Type}

/-- A key that is missing, or what is read from what is written there. -/
def readOr (data : Option W) (default : Y) (read : W → Except E Y) : Except E Y :=
  match data with
  | none => .ok default
  | some d => read d

/-- What stands under a key: nothing, or something that fits. -/
structure Cell (data : Option W) (x : Option X) (write : X → W) (fits : X → Prop) : Prop where
  data : data = x.map write
  fits : ∀ y, x = some y → fits y

variable {data : Option W} {x : Option X} {write : X → W} {fits : X → Prop}

theorem Cell.none : Cell none none write fits := ⟨rfl, nofun⟩

/-- What fits is read back. -/
theorem Cell.read (h : Cell data x write fits) (read : W → Except E Y) (view : X → Y)
    (hread : ∀ y, fits y → read (write y) = .ok (view y)) (default : Y) :
    readOr data default read = .ok ((x.map view).getD default) := by
  obtain ⟨rfl, hfits⟩ := h
  cases x with
  | none => rfl
  | some y => exact hread y (hfits y rfl)

/-- The key was just written. -/
theorem Cell.written (write : X → W) {y : X} (m : OrdMap L W) (k : L) (hy : fits y) :
    Cell ((m.insert k (write y)).get? k) (Option.some y) write fits := by
  rw [OrdMap.get?_insert_self]
  refine ⟨rfl, fun z hz => ?_⟩
  obtain rfl := Option.some.inj hz
  exact hy

/-- The key was just removed. -/
theorem Cell.erased (write : X → W) (m : OrdMap L W) (k : L) :
    Cell ((m.erase k).get? k) Option.none write fits := by
  rw [OrdMap.get?_erase, if_pos rfl]
  exact .none

variable {n : OrdMap L W} {j l : L}

/-- Another key was written. -/
theorem Cell.frame (h : Cell (n.get? j) x write fits) (hne : j ≠ l) (d : W) :
    Cell ((n.insert l d).get? j) x write fits := by
  rw [OrdMap.get?_insert_of_ne n hne]
  exact h

/-- Another key was removed. -/
theorem Cell.frame_erase (h : Cell (n.get? j) x write fits) (hne : j ≠ l) :
    Cell ((n.erase l).get? j) x write fits := by
  rw [OrdMap.get?_erase, if_neg hne]
  exact h

end cells

end ordmap
