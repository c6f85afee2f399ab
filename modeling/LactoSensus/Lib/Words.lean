-- The words of a list: the maximal runs of elements that count, with whatever
-- is between them left out. Words that are joined by something that does not
-- count are the words of what they make, so the joined list gives them back.
import Mathlib.Data.List.Induction

namespace words

variable {A : Type} {p : A → Bool}

/-- The maximal runs of elements that count, in their order. -/
def maximalRuns (p : A → Bool) (l : List A) : List (List A) :=
  (l.splitOnP fun a => !p a).filter fun w => !w.isEmpty

/-- A run that is not empty, of elements that count. -/
structure Run (p : A → Bool) (w : List A) : Prop where
  nonempty : w ≠ []
  counts : ∀ a ∈ w, p a = true

/-! ## Splitting from the end -/

/-- What a list has split off for good, and the piece that goes on. -/
theorem splitOnP_going (q : A → Bool) (l : List A) :
    ∃ ended going, ∀ rest, (∀ a ∈ rest, q a = false) →
      (l ++ rest).splitOnP q = ended ++ [going ++ rest] := by
  induction l using List.reverseRecOn with
  | nil => exact ⟨[], [], fun rest hrest => List.splitOnP_eq_singleton hrest⟩
  | append_singleton l a ih =>
    cases ha : q a with
    | true =>
      refine ⟨l.splitOnP q, [], fun rest hrest => ?_⟩
      rw [List.append_assoc, List.singleton_append, List.splitOnP_append_cons l rest ha,
        List.splitOnP_eq_singleton hrest, List.nil_append]
    | false =>
      obtain ⟨ended, going, hsplit⟩ := ih
      refine ⟨ended, going ++ [a], fun rest hrest => ?_⟩
      rw [List.append_assoc, hsplit ([a] ++ rest) (by simpa [ha] using hrest), List.append_assoc]

/-- An element that does not separate goes to the last piece. -/
theorem splitOnP_concat {q : A → Bool} {l going : List A} {ended : List (List A)} {a : A}
    (hl : l.splitOnP q = ended ++ [going]) (ha : q a = false) :
    (l ++ [a]).splitOnP q = ended ++ [going ++ [a]] := by
  obtain ⟨ended', going', hsplit⟩ := splitOnP_going q l
  have hnil := hsplit [] (by simp)
  rw [List.append_nil, List.append_nil, hl] at hnil
  obtain ⟨rfl, heq⟩ := List.append_inj' hnil rfl
  obtain rfl := List.singleton_inj.mp heq
  exact hsplit [a] (by simpa using ha)

/-- An element that separates begins a piece that has nothing yet. -/
theorem splitOnP_concat_sep {q : A → Bool} (l : List A) {a : A} (ha : q a = true) :
    (l ++ [a]).splitOnP q = l.splitOnP q ++ [[]] := by
  rw [List.splitOnP_append_cons l [] ha, List.splitOnP_nil]

/-! ## Pieces and runs -/

theorem mem_splitOnP {q : A → Bool} {l w : List A} (hw : w ∈ l.splitOnP q) :
    ∀ a ∈ w, q a = false := by
  induction l generalizing w with
  | nil =>
    obtain rfl : w = [] := by simpa using hw
    simp
  | cons b l ih =>
    rw [List.splitOnP_cons_eq_if_modifyHead] at hw
    obtain ⟨head, tail, hsplit⟩ := List.exists_cons_of_ne_nil (List.splitOnP_ne_nil q l)
    rw [hsplit] at hw ih
    split at hw
    · rcases List.mem_cons.mp hw with rfl | hw
      · simp
      · exact ih hw
    · rename_i hb
      rw [List.modifyHead_cons] at hw
      rcases List.mem_cons.mp hw with rfl | hw
      · exact List.forall_mem_cons.mpr ⟨by simpa using hb, ih List.mem_cons_self⟩
      · exact ih (List.mem_cons_of_mem _ hw)

theorem run_of_mem {l w : List A} (hw : w ∈ maximalRuns p l) : Run p w := by
  obtain ⟨hmem, hne⟩ := List.mem_filter.mp hw
  exact ⟨by simpa using hne, fun a ha => by simpa using mem_splitOnP hmem a ha⟩

/-! ## Words that are joined -/

theorem intercalate_concat (sep : A) (ws : List (List A)) (w : List A) :
    [sep].intercalate (ws ++ [w]) = ws.flatMap (fun v => v ++ [sep]) ++ w := by
  induction ws with
  | nil => simp
  | cons v ws ih =>
    rw [List.cons_append, List.intercalate_cons_of_ne_nil (by simp), ih]
    simp

theorem intercalate_cons (sep : A) (w : List A) (ws : List (List A)) :
    [sep].intercalate (w :: ws) = w ++ ws.flatMap fun v => sep :: v := by
  induction ws generalizing w with
  | nil => simp
  | cons v ws ih =>
    rw [List.intercalate_cons_cons, ih v]
    simp

/-- Words that are joined are the runs of the whole. -/
theorem maximalRuns_intercalate {sep : A} {ws : List (List A)} (hsep : p sep = false)
    (hws : ∀ w ∈ ws, Run p w) : maximalRuns p ([sep].intercalate ws) = ws := by
  unfold maximalRuns
  induction ws with
  | nil => simp
  | cons w ws ih =>
    obtain ⟨hw, hrest⟩ := List.forall_mem_cons.mp hws
    have hcounts : ∀ a ∈ w, (!p a) = false := fun a ha => by simp [hw.counts a ha]
    cases ws with
    | nil =>
      rw [List.intercalate_singleton, List.splitOnP_eq_singleton hcounts]
      simp [hw.nonempty]
    | cons v ws =>
      rw [List.intercalate_cons_of_ne_nil (by simp), List.append_assoc, List.singleton_append,
        List.splitOnP_append_cons_of_forall_mem hcounts sep (by simp [hsep])]
      rw [List.filter_cons_of_pos (by simpa using hw.nonempty), ih hrest]

end words
