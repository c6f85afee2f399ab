-- Elections: a vote is given once per term, a candidate votes for itself, and
-- a leader has the votes of a majority. Two leaders of one term would share a
-- voter, so there is only one.
import LactoSensus.Lib.Raft.Protocol

open Function
open quorum

namespace raft

variable {N D : Type}

/-- What the votes of a run look like. -/
structure Election (members : Finset N) (s : State N D) : Prop where
  voted_le : ∀ n t c, s.voted n t = some c → t ≤ s.term n
  voted_cand : ∀ n t c, s.voted n t = some c → s.cand c t ≠ none
  cand_voted : ∀ n t l, s.cand n t = some l → s.voted n t = some n
  cand_pos : ∀ n t, s.cand n t ≠ none → 0 < t
  leader_cand : ∀ t n, s.leader t = some n → s.cand n t ≠ none
  electors_majority : ∀ t n, s.leader t = some n → Majority members (s.electors t)
  electors_voted : ∀ t n, s.leader t = some n → ∀ q ∈ s.electors t, s.voted q t = some n
  role_candidate : ∀ n, s.role n = .candidate →
    s.cand n (s.term n) = some (s.log n) ∧ s.leader (s.term n) ≠ some n
  role_leader : ∀ n, s.role n = .leader →
    s.leader (s.term n) = some n ∧ s.glog (s.term n) = s.log n

theorem Election.init (members : Finset N) : Election members (State.init : State N D) := by
  constructor <;> simp [State.init]

variable {members : Finset N} {s s' : State N D}

/-- A node has not voted in a term it has not reached. -/
theorem Election.voted_none (h : Election members s) {n : N} {t : Nat} (ht : s.term n < t) :
    s.voted n t = none := by
  cases hv : s.voted n t with
  | none => rfl
  | some c =>
    have := h.voted_le n t c hv
    omega

theorem Election.cand_none (h : Election members s) {n : N} {t : Nat} (ht : s.term n < t) :
    s.cand n t = none := by
  cases hc : s.cand n t with
  | none => rfl
  | some l =>
    have hv := h.cand_voted n t l hc
    rw [h.voted_none ht] at hv
    cases hv

/-- Two nodes that lead in the same term are the same node. -/
theorem Election.one_leader (h : Election members s) {n m : N} (hn : s.role n = .leader)
    (hm : s.role m = .leader) (ht : s.term n = s.term m) : n = m := by
  have h₁ := (h.role_leader n hn).1
  have h₂ := (h.role_leader m hm).1
  rw [ht, h₂] at h₁
  exact (Option.some.inj h₁).symm

section votes

variable [DecidableEq N]

/-- A majority of votes for one node leaves no room for another leader. -/
theorem Election.votes_are_for_the_leader (h : Election members s) {n m : N} {t : Nat}
    {Q : Finset N} (hQ : Majority members Q) (hvotes : ∀ q ∈ Q, s.voted q t = some n)
    (hlead : s.leader t = some m) : m = n := by
  obtain ⟨q, hq₁, hq₂⟩ := (h.electors_majority t m hlead).meet hQ
  have h₁ := h.electors_voted t m hlead q hq₁
  rw [hvotes q hq₂] at h₁
  exact (Option.some.inj h₁).symm

/-- When a candidate collects a majority, its term has no leader yet. -/
theorem Election.leader_none_of_elected (h : Election members s) {n : N} {Q : Finset N}
    (hrole : s.role n = .candidate) (hQ : Majority members Q)
    (hvotes : ∀ q ∈ Q, s.voted q (s.term n) = some n) : s.leader (s.term n) = none := by
  cases hl : s.leader (s.term n) with
  | none => rfl
  | some m =>
    have := h.votes_are_for_the_leader hQ hvotes hl
    subst this
    exact absurd hl (h.role_candidate m hrole).2

end votes

/-! ## Every step keeps the election facts -/

/-- A step that keeps votes, campaigns and leaders, and only lowers roles or raises terms. -/
theorem Election.of_quiet (h : Election members s) (hvoted : s'.voted = s.voted)
    (hcand : s'.cand = s.cand) (hleader : s'.leader = s.leader)
    (helectors : s'.electors = s.electors) (hterm : ∀ n, s.term n ≤ s'.term n)
    (hrole : ∀ n, s'.role n = .follower ∨
      (s'.role n = s.role n ∧ s'.term n = s.term n ∧
        (s'.role n = .candidate → s'.log n = s.log n) ∧
        (s'.role n = .leader → s'.glog (s.term n) = s'.log n))) :
    Election members s' := by
  constructor
  · intro n t c hv
    rw [hvoted] at hv
    exact (h.voted_le n t c hv).trans (hterm n)
  · intro n t c hv
    rw [hvoted] at hv
    rw [hcand]
    exact h.voted_cand n t c hv
  · intro n t l hc
    rw [hcand] at hc
    rw [hvoted]
    exact h.cand_voted n t l hc
  · rw [hcand]
    exact h.cand_pos
  · intro t n hl
    rw [hleader] at hl
    rw [hcand]
    exact h.leader_cand t n hl
  · intro t n hl
    rw [hleader] at hl
    rw [helectors]
    exact h.electors_majority t n hl
  · intro t n hl q hq
    rw [hleader] at hl
    rw [helectors] at hq
    rw [hvoted]
    exact h.electors_voted t n hl q hq
  · intro n hn
    rcases hrole n with hf | ⟨hr, ht, hlog, -⟩
    · rw [hf] at hn
      cases hn
    · rw [hcand, hleader, ht, hlog hn]
      exact h.role_candidate n (by rw [← hr, hn])
  · intro n hn
    rcases hrole n with hf | ⟨hr, ht, -, hlog⟩
    · rw [hf] at hn
      cases hn
    · have := h.role_leader n (by rw [← hr, hn])
      rw [hleader, ht]
      exact ⟨this.1, hlog hn⟩

section steps

variable [DecidableEq N]

theorem Election.campaign (h : Election members s) (n : N) :
    Election members
      { s with
        term := update s.term n (s.term n + 1)
        role := update s.role n .candidate
        voted := update₂ s.voted n (s.term n + 1) (some n)
        cand := update₂ s.cand n (s.term n + 1) (some (s.log n)) } := by
  have hnone : s.leader (s.term n + 1) ≠ some n := by
    intro hl
    exact h.leader_cand _ _ hl (h.cand_none (by omega))
  constructor
  · intro m t c hv
    by_cases hm : m = n ∧ t = s.term n + 1
    · obtain ⟨rfl, rfl⟩ := hm
      simp
    · simp only [update₂_of_ne _ _ _ _ hm] at hv
      have := h.voted_le m t c hv
      by_cases hmn : m = n
      · subst hmn
        simp
        omega
      · simpa [hmn] using this
  · intro m t c hv
    by_cases hc : c = n ∧ t = s.term n + 1
    · obtain ⟨rfl, rfl⟩ := hc
      simp
    · simp only [update₂_of_ne _ _ _ _ hc]
      by_cases hm : m = n ∧ t = s.term n + 1
      · obtain ⟨rfl, rfl⟩ := hm
        simp only [update₂_same, Option.some.injEq] at hv
        exact absurd ⟨hv.symm, rfl⟩ hc
      · simp only [update₂_of_ne _ _ _ _ hm] at hv
        exact h.voted_cand m t c hv
  · intro m t l hc
    by_cases hm : m = n ∧ t = s.term n + 1
    · obtain ⟨rfl, rfl⟩ := hm
      simp
    · simp only [update₂_of_ne _ _ _ _ hm] at hc ⊢
      exact h.cand_voted m t l hc
  · intro m t hc
    by_cases hm : m = n ∧ t = s.term n + 1
    · omega
    · simp only [update₂_of_ne _ _ _ _ hm] at hc
      exact h.cand_pos m t hc
  · intro t m hl
    by_cases hm : m = n ∧ t = s.term n + 1
    · obtain ⟨rfl, rfl⟩ := hm
      simp
    · simp only [update₂_of_ne _ _ _ _ hm]
      exact h.leader_cand t m hl
  · exact h.electors_majority
  · intro t m hl q hq
    have hv := h.electors_voted t m hl q hq
    by_cases hqn : q = n ∧ t = s.term n + 1
    · obtain ⟨rfl, rfl⟩ := hqn
      rw [h.voted_none (by omega)] at hv
      cases hv
    · simpa only [update₂_of_ne _ _ _ _ hqn] using hv
  · intro m hm
    by_cases hmn : m = n
    · subst hmn
      simpa using hnone
    · simp only [update_of_ne hmn] at hm ⊢
      rw [update₂_of_ne _ _ _ _ (by simp [hmn])]
      exact h.role_candidate m hm
  · intro m hm
    by_cases hmn : m = n
    · subst hmn
      simp at hm
    · simp only [update_of_ne hmn] at hm ⊢
      exact h.role_leader m hm

theorem Election.grant (h : Election members s) (n c : N) {l : List (Entry D)}
    (hfree : s.voted n (s.term n) = none ∨ s.voted n (s.term n) = some c)
    (hcand : s.cand c (s.term n) = some l) :
    Election members { s with voted := update₂ s.voted n (s.term n) (some c) } := by
  have hkeep : ∀ m t d, s.voted m t = some d →
      update₂ s.voted n (s.term n) (some c) m t = some d := by
    intro m t d hv
    by_cases hm : m = n ∧ t = s.term n
    · obtain ⟨rfl, rfl⟩ := hm
      rcases hfree with hf | hf
      · rw [hf] at hv
        cases hv
      · rw [update₂_same, ← hf, hv]
    · rw [update₂_of_ne _ _ _ _ hm, hv]
  constructor
  · intro m t d hv
    by_cases hm : m = n ∧ t = s.term n
    · obtain ⟨rfl, rfl⟩ := hm
      exact le_rfl
    · simp only [update₂_of_ne _ _ _ _ hm] at hv
      exact h.voted_le m t d hv
  · intro m t d hv
    by_cases hm : m = n ∧ t = s.term n
    · obtain ⟨rfl, rfl⟩ := hm
      simp only [update₂_same, Option.some.injEq] at hv
      subst hv
      simp [hcand]
    · simp only [update₂_of_ne _ _ _ _ hm] at hv
      exact h.voted_cand m t d hv
  · intro m t l' hc
    exact hkeep _ _ _ (h.cand_voted m t l' hc)
  · exact h.cand_pos
  · exact h.leader_cand
  · exact h.electors_majority
  · intro t m hl q hq
    exact hkeep _ _ _ (h.electors_voted t m hl q hq)
  · exact h.role_candidate
  · exact h.role_leader

theorem Election.elect (h : Election members s) (n : N) {Q : Finset N}
    (hrole : s.role n = .candidate) (hmaj : Majority members Q)
    (hvotes : ∀ q ∈ Q, s.voted q (s.term n) = some n) :
    Election members
      { s with
        role := update s.role n .leader
        leader := update s.leader (s.term n) (some n)
        electors := update s.electors (s.term n) Q
        glog := update s.glog (s.term n) (s.log n)
        ack := update₂ s.ack n (s.term n) (s.log n).length } := by
  have hnone := h.leader_none_of_elected hrole hmaj hvotes
  have hcand := (h.role_candidate n hrole).1
  constructor
  · exact h.voted_le
  · exact h.voted_cand
  · exact h.cand_voted
  · exact h.cand_pos
  · intro t m hl
    by_cases ht : t = s.term n
    · subst ht
      simp only [update_self, Option.some.injEq] at hl
      subst hl
      simp [hcand]
    · simp only [update_of_ne ht] at hl
      exact h.leader_cand t m hl
  · intro t m hl
    by_cases ht : t = s.term n
    · subst ht
      simpa using hmaj
    · simp only [update_of_ne ht] at hl ⊢
      exact h.electors_majority t m hl
  · intro t m hl q hq
    by_cases ht : t = s.term n
    · subst ht
      simp only [update_self, Option.some.injEq] at hl hq
      subst hl
      exact hvotes q hq
    · simp only [update_of_ne ht] at hl hq
      exact h.electors_voted t m hl q hq
  · intro m hm
    by_cases hmn : m = n
    · subst hmn
      simp at hm
    · simp only [update_of_ne hmn] at hm ⊢
      obtain ⟨h₁, h₂⟩ := h.role_candidate m hm
      refine ⟨h₁, ?_⟩
      by_cases ht : s.term m = s.term n
      · rw [ht, update_self]
        intro heq
        exact hmn (Option.some.inj heq).symm
      · rwa [update_of_ne ht]
  · intro m hm
    by_cases hmn : m = n
    · subst hmn
      simp
    · simp only [update_of_ne hmn] at hm ⊢
      obtain ⟨h₁, h₂⟩ := h.role_leader m hm
      have ht : s.term m ≠ s.term n := by
        intro ht
        rw [ht, hnone] at h₁
        cases h₁
      rw [update_of_ne ht, update_of_ne ht]
      exact ⟨h₁, h₂⟩

theorem Election.propose (h : Election members s) (n : N) (d : D) (hrole : s.role n = .leader) :
    Election members
      { s with
        log := update s.log n (s.log n ++ [⟨s.term n, d⟩])
        glog := update s.glog (s.term n) (s.log n ++ [⟨s.term n, d⟩])
        ack := update₂ s.ack n (s.term n) ((s.log n).length + 1) } := by
  refine h.of_quiet rfl rfl rfl rfl (fun _ => le_rfl) ?_
  intro m
  refine .inr ⟨rfl, rfl, ?_, ?_⟩
  · intro hm
    have hmn : m ≠ n := by
      rintro rfl
      simp [hrole] at hm
    exact update_of_ne hmn _ _
  · intro hm
    by_cases hmn : m = n
    · subst hmn
      simp
    · have ht : s.term m ≠ s.term n := fun ht => hmn (h.one_leader hm hrole ht)
      change update s.glog _ _ (s.term m) = update s.log _ _ m
      rw [update_of_ne hmn, update_of_ne ht]
      exact (h.role_leader m hm).2

/-- Only a follower's log is replaced, so candidates and leaders keep theirs. -/
theorem Election.relog (h : Election members s) (n : N) (l : List (Entry D))
    (hrole : s.role n = .follower) :
    Election members { s with log := update s.log n l } := by
  refine h.of_quiet rfl rfl rfl rfl (fun _ => le_rfl) ?_
  intro m
  by_cases hmn : m = n
  · subst hmn
    exact .inl hrole
  · refine .inr ⟨rfl, rfl, fun _ => update_of_ne hmn _ _, ?_⟩
    intro hm
    change s.glog (s.term m) = update s.log _ _ m
    rw [update_of_ne hmn]
    exact (h.role_leader m hm).2

theorem Election.demote (h : Election members s) (n : N) (t : Nat) (ht : s.term n ≤ t) :
    Election members
      { s with term := update s.term n t, role := update s.role n .follower } := by
  refine h.of_quiet rfl rfl rfl rfl ?_ ?_
  · intro m
    by_cases hmn : m = n
    · subst hmn
      simpa using ht
    · simp [hmn]
  · intro m
    by_cases hmn : m = n
    · subst hmn
      simp
    · have hr : update s.role n .follower m = s.role m := update_of_ne hmn _ _
      exact .inr ⟨hr, update_of_ne hmn _ _, fun _ => rfl,
        fun hm => (h.role_leader m (hr.symm.trans hm)).2⟩

theorem Election.step (h : Election members s) {n : N} (hs : Step members n s s') :
    Election members s' := by
  cases hs with
  | observe t hlt => exact h.demote n t hlt.le
  | retire => simpa using h.demote n (s.term n) le_rfl
  | campaign => exact h.campaign n
  | grant c l hfree hcand _ => exact h.grant n c hfree hcand
  | elect Q hrole hmaj hvotes => exact h.elect n hrole hmaj hvotes
  | propose d hrole => exact h.propose n d hrole
  | extend T m hrole _ _ _ => exact h.relog n _ hrole
  | cut T k a b hrole _ _ _ _ _ => exact h.relog n _ hrole
  | confirm m _ _ =>
    exact h.of_quiet rfl rfl rfl rfl (fun _ => le_rfl)
      fun m => .inr ⟨rfl, rfl, fun _ => rfl, fun hm => (h.role_leader m hm).2⟩
  | learn k _ _ =>
    exact h.of_quiet rfl rfl rfl rfl (fun _ => le_rfl)
      fun m => .inr ⟨rfl, rfl, fun _ => rfl, fun hm => (h.role_leader m hm).2⟩

end steps

end raft
