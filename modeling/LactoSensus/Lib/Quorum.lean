-- Majorities of a finite set of voters, and the median of a list of
-- counters. Two majorities always share a voter, and more than half of the
-- counters of a list are as large as its median.
import Mathlib.Data.Finset.Card
import Mathlib.Data.List.Sort
import Mathlib.Data.List.Count
import Mathlib.Data.List.GetD

namespace quorum

variable {N : Type} [DecidableEq N]

/-- More than half of the members. -/
structure Majority (members Q : Finset N) : Prop where
  sub : Q ⊆ members
  more_than_half : members.card < 2 * Q.card

/-- Two majorities of the same members share a member. -/
theorem Majority.meet {members Q₁ Q₂ : Finset N} (h₁ : Majority members Q₁)
    (h₂ : Majority members Q₂) : ∃ n, n ∈ Q₁ ∧ n ∈ Q₂ := by
  by_contra hno
  have hdis : Disjoint Q₁ Q₂ := by
    rw [Finset.disjoint_left]
    intro n hn₁ hn₂
    exact hno ⟨n, hn₁, hn₂⟩
  have hcard : (Q₁ ∪ Q₂).card ≤ members.card :=
    Finset.card_le_card (Finset.union_subset h₁.sub h₂.sub)
  rw [Finset.card_union_of_disjoint hdis] at hcard
  have := h₁.more_than_half
  have := h₂.more_than_half
  omega

omit [DecidableEq N] in
/-- A set of members with `n / 2 + 1` of the `n` members is a majority. -/
theorem majority_of_card {members Q : Finset N} (hsub : Q ⊆ members)
    (hcard : members.card / 2 + 1 ≤ Q.card) : Majority members Q :=
  ⟨hsub, by omega⟩

/-! ## The median -/

/-- The element at position `(n - 1) / 2` of the sorted list. -/
def median (l : List Nat) : Nat := (l.insertionSort (· ≤ ·)).getD ((l.length - 1) / 2) 0

/-- More than half of the elements are as large as the median. -/
theorem median_le_of_most (l : List Nat) (hl : l ≠ []) :
    l.length < 2 * (l.filter (fun x => median l ≤ x)).length := by
  have hpos : 0 < l.length := List.length_pos_of_ne_nil hl
  have hperm := List.perm_insertionSort (· ≤ ·) l
  have hsorted : (l.insertionSort (· ≤ ·)).Pairwise (· ≤ ·) :=
    List.pairwise_insertionSort (· ≤ ·) l
  have hlen : (l.insertionSort (· ≤ ·)).length = l.length := hperm.length_eq
  have hfil : (l.filter (fun x => median l ≤ x)).length =
      ((l.insertionSort (· ≤ ·)).filter (fun x => median l ≤ x)).length :=
    (hperm.filter _).length_eq.symm
  set s := l.insertionSort (· ≤ ·) with hs
  set k := (l.length - 1) / 2 with hk
  have hks : k < s.length := by omega
  have hmed : median l = s[k] := by
    unfold median
    rw [← hs, ← hk, List.getD_eq_getElem _ _ hks]
  -- every element from position `k` on is as large as the one at `k`
  have hall : ∀ x ∈ s.drop k, median l ≤ x := by
    intro x hx
    obtain ⟨j, hj, rfl⟩ := List.getElem_of_mem hx
    rw [hmed, List.getElem_drop]
    rcases Nat.eq_zero_or_pos j with rfl | hj0
    · simp
    · have := (List.pairwise_iff_getElem.mp hsorted) k (k + j) hks
        (by rw [List.length_drop] at hj; omega) (by omega)
      simpa using this
  have hle : (s.drop k).length ≤ (s.filter (fun x => median l ≤ x)).length := by
    calc (s.drop k).length = ((s.drop k).filter (fun x => median l ≤ x)).length := by
          rw [List.filter_eq_self.mpr (fun x hx => by simpa using hall x hx)]
      _ ≤ (s.filter (fun x => median l ≤ x)).length :=
          ((List.drop_sublist k s).filter _).length_le
  rw [List.length_drop] at hle
  omega

/-- No larger value has more than half of the elements. -/
theorem le_median_of_most (l : List Nat) {i : Nat}
    (hmost : l.length < 2 * (l.filter (fun x => i ≤ x)).length) : i ≤ median l := by
  by_contra hlt
  have hperm := List.perm_insertionSort (· ≤ ·) l
  have hsorted : (l.insertionSort (· ≤ ·)).Pairwise (· ≤ ·) :=
    List.pairwise_insertionSort (· ≤ ·) l
  have hlen : (l.insertionSort (· ≤ ·)).length = l.length := hperm.length_eq
  have hfil : (l.filter (fun x => i ≤ x)).length =
      ((l.insertionSort (· ≤ ·)).filter (fun x => i ≤ x)).length :=
    (hperm.filter _).length_eq.symm
  have hpos : 0 < l.length := by
    have := List.length_filter_le (fun x => i ≤ x) l
    omega
  set s := l.insertionSort (· ≤ ·) with hs
  set k := (l.length - 1) / 2 with hk
  have hks : k < s.length := by omega
  have hmed : median l = s[k] := by
    unfold median
    rw [← hs, ← hk, List.getD_eq_getElem _ _ hks]
  -- every element up to position `k` is below `i`
  have hnone : (s.take (k + 1)).filter (fun x => i ≤ x) = [] := by
    rw [List.filter_eq_nil_iff]
    intro x hx
    obtain ⟨j, hj, rfl⟩ := List.getElem_of_mem hx
    rw [List.length_take] at hj
    rw [List.getElem_take]
    have hle : s[j] ≤ s[k] := by
      rcases Nat.eq_or_lt_of_le (show j ≤ k by omega) with heq | hjk
      · simp [heq]
      · exact (List.pairwise_iff_getElem.mp hsorted) j k (by omega) hks hjk
    simp only [decide_eq_true_eq]
    omega
  have hsplit : (s.filter (fun x => i ≤ x)).length ≤ (s.drop (k + 1)).length := by
    conv_lhs => rw [← List.take_append_drop (k + 1) s, List.filter_append, hnone, List.nil_append]
    exact List.length_filter_le _ _
  rw [List.length_drop] at hsplit
  omega

end quorum
