-- The merge of a log with a window of another one: cut before the first entry of
-- another term, then continued with the window. A window that the log already
-- has changes nothing.
import LactoSensus.Lib.Raft.Protocol

namespace raft

variable {D : Type}

/-- The first place where the lists have entries of different terms. -/
def firstDiff : List (Entry D) → List (Entry D) → Option Nat
  | x :: xs, y :: ys => if x.term = y.term then (firstDiff xs ys).map (· + 1) else some 0
  | _, _ => none

/-- The log with the entries `es`, which follow its first `d` ones. -/
def merge (l : List (Entry D)) (d : Nat) (es : List (Entry D)) : List (Entry D) :=
  match firstDiff (l.drop d) es with
  | some i => l.take (d + i) ++ es.drop i
  | none => l ++ es.drop (l.length - d)

variable {l xs ys es : List (Entry D)} {d i : Nat}

theorem firstDiff_nil_left : firstDiff ([] : List (Entry D)) ys = none := by
  cases ys <;> rfl

theorem firstDiff_nil_right : firstDiff xs ([] : List (Entry D)) = none := by
  cases xs <;> rfl

theorem firstDiff_some (h : firstDiff xs ys = some i) :
    ∃ x y, xs[i]? = some x ∧ ys[i]? = some y ∧ x.term ≠ y.term ∧
      ∀ j < i, ∀ (x y : Entry D), xs[j]? = some x → ys[j]? = some y → x.term = y.term := by
  induction xs generalizing ys i with
  | nil => rw [firstDiff_nil_left] at h; cases h
  | cons x xs ih =>
    cases ys with
    | nil => cases h
    | cons y ys =>
      unfold firstDiff at h
      split at h
      · rename_i heq
        obtain ⟨k, hk, rfl⟩ := Option.map_eq_some_iff.mp h
        obtain ⟨x', y', hx, hy, hne, hbelow⟩ := ih hk
        refine ⟨x', y', hx, hy, hne, fun j hj a b ha hb => ?_⟩
        cases j with
        | zero =>
          obtain rfl := Option.some.inj ha
          obtain rfl := Option.some.inj hb
          exact heq
        | succ j => exact hbelow j (by omega) a b ha hb
      · rename_i hne
        obtain rfl := Option.some.inj h
        exact ⟨x, y, rfl, rfl, hne, fun j hj => absurd hj (Nat.not_lt_zero j)⟩

theorem firstDiff_none_iff : firstDiff xs ys = none ↔
    ∀ (j : Nat) (x y : Entry D), xs[j]? = some x → ys[j]? = some y → x.term = y.term := by
  induction xs generalizing ys with
  | nil => simp [firstDiff_nil_left]
  | cons x xs ih =>
    cases ys with
    | nil => simp [firstDiff_nil_right]
    | cons y ys =>
      unfold firstDiff
      split
      · rename_i heq
        rw [Option.map_eq_none_iff, ih]
        constructor
        · intro h j a b ha hb
          cases j with
          | zero =>
            obtain rfl := Option.some.inj ha
            obtain rfl := Option.some.inj hb
            exact heq
          | succ j => exact h j a b ha hb
        · exact fun h j a b ha hb => h (j + 1) a b ha hb
      · rename_i hne
        simp only [reduceCtorEq, false_iff]
        exact fun h => hne (h 0 x y rfl rfl)

/-- Where the log agrees with the window it is only continued. -/
theorem merge_of_agree (h : firstDiff (l.drop d) es = none) :
    merge l d es = l ++ es.drop (l.length - d) := by
  unfold merge
  rw [h]

theorem merge_of_differ (h : firstDiff (l.drop d) es = some i) :
    merge l d es = l.take (d + i) ++ es.drop i := by
  unfold merge
  rw [h]

/-- A window that the log has already leaves the log as it is. -/
theorem merge_known (h : firstDiff (l.drop d) es = none) (hlen : d + es.length ≤ l.length) :
    merge l d es = l := by
  rw [merge_of_agree h, List.drop_of_length_le (by omega), List.append_nil]

theorem firstDiff_lt (h : firstDiff (l.drop d) es = some i) :
    d + i < l.length ∧ i < es.length := by
  obtain ⟨x, y, hx, hy, -⟩ := firstDiff_some h
  have hxl := (List.getElem?_eq_some_iff.mp hx).1
  have hyl := (List.getElem?_eq_some_iff.mp hy).1
  rw [List.length_drop] at hxl
  omega

theorem merge_length_differ (h : firstDiff (l.drop d) es = some i) :
    (merge l d es).length = d + es.length := by
  obtain ⟨hil, hie⟩ := firstDiff_lt h
  rw [merge_of_differ h, List.length_append, List.length_take_of_le hil.le, List.length_drop]
  omega

theorem merge_length_agree (h : firstDiff (l.drop d) es = none) (hd : d ≤ l.length) :
    (merge l d es).length = max l.length (d + es.length) := by
  rw [merge_of_agree h, List.length_append, List.length_drop]
  omega

theorem le_merge_length (hd : d ≤ l.length) : d + es.length ≤ (merge l d es).length := by
  cases h : firstDiff (l.drop d) es with
  | none =>
    rw [merge_length_agree h hd]
    exact Nat.le_max_right _ _
  | some i => rw [merge_length_differ h]

/-- Below the window nothing changes. -/
theorem merge_below (hd : d ≤ l.length) : (merge l d es).take d = l.take d := by
  cases h : firstDiff (l.drop d) es with
  | none => rw [merge_of_agree h, List.take_append_of_le_length hd]
  | some i =>
    obtain ⟨hil, -⟩ := firstDiff_lt h
    rw [merge_of_differ h, List.take_append_of_le_length (by rw [List.length_take]; omega),
      List.take_take, Nat.min_eq_left (by omega)]

/-- In the window the log has the terms of the window. -/
theorem merge_window (hd : d ≤ l.length) {e : Entry D} (he : es[i]? = some e) :
    ∃ x, (merge l d es)[d + i]? = some x ∧ x.term = e.term := by
  have hi := (List.getElem?_eq_some_iff.mp he).1
  cases h : firstDiff (l.drop d) es with
  | none =>
    rw [merge_of_agree h]
    by_cases hil : d + i < l.length
    · rw [List.getElem?_append_left hil]
      have hx : (l.drop d)[i]? = some l[d + i] := by
        rw [List.getElem?_drop, List.getElem?_eq_getElem hil]
      exact ⟨l[d + i], List.getElem?_eq_getElem hil, firstDiff_none_iff.mp h i _ e hx he⟩
    · rw [List.getElem?_append_right (by omega), List.getElem?_drop]
      exact ⟨e, by rw [← he]; congr 1; omega, rfl⟩
  | some j =>
    obtain ⟨hjl, -⟩ := firstDiff_lt h
    have htake : (l.take (d + j)).length = d + j := List.length_take_of_le hjl.le
    rw [merge_of_differ h]
    by_cases hij : i < j
    · have hil : d + i < l.length := by omega
      have hx : (l.drop d)[i]? = some l[d + i] := by
        rw [List.getElem?_drop, List.getElem?_eq_getElem hil]
      obtain ⟨-, -, -, -, -, hbelow⟩ := firstDiff_some h
      rw [List.getElem?_append_left (by omega), List.getElem?_take_of_lt (by omega)]
      exact ⟨l[d + i], List.getElem?_eq_getElem hil, hbelow i hij _ e hx he⟩
    · rw [List.getElem?_append_right (by omega), htake, List.getElem?_drop]
      exact ⟨e, by rw [← he]; congr 1; omega, rfl⟩

end raft
