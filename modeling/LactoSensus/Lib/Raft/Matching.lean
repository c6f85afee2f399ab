-- Log matching: every entry of every log was written by the leader of its
-- term, and what stands before it is what that leader had before it. A log may
-- run ahead of its node's term; such a node can campaign but never win.
import LactoSensus.Lib.Raft.Election

open Function
open quorum

namespace raft

variable {N D : Type}

/-- Each entry of the log stands where the leader of its term put it. -/
def Traced (s : State N D) (l : List (Entry D)) : Prop :=
  ∀ i e, l[i]? = some e → l.take (i + 1) <+: s.glog e.term

theorem Traced.nil (s : State N D) : Traced s [] := by
  intro i e he
  simp at he

theorem Traced.grow {s s' : State N D} (h : Grows s s') {l : List (Entry D)}
    (hl : Traced s l) : Traced s' l :=
  fun i e he => (hl i e he).trans (h.glog_grow e.term)

theorem Traced.shorter {s : State N D} {l l' : List (Entry D)} (hpre : l' <+: l)
    (hl : Traced s l) : Traced s l' := by
  intro i e he
  have htake : l'.take (i + 1) = l.take (i + 1) := by
    obtain ⟨r, rfl⟩ := hpre
    have := (List.getElem?_eq_some_iff.mp he).1
    rw [List.take_append_of_le_length this]
  rw [htake]
  exact hl i e (prefix_get hpre he)

/-- Two traced logs with the same term at one place are equal up to there. -/
theorem Traced.matching {s : State N D} {l₁ l₂ : List (Entry D)} (h₁ : Traced s l₁)
    (h₂ : Traced s l₂) {i : Nat} {a b : Entry D} (ha : l₁[i]? = some a) (hb : l₂[i]? = some b)
    (hab : a.term = b.term) : l₁.take (i + 1) = l₂.take (i + 1) := by
  have hp₁ := h₁ i a ha
  have hp₂ := h₂ i b hb
  rw [hab] at hp₁
  have hlen₁ := (List.getElem?_eq_some_iff.mp ha).1
  have hlen₂ := (List.getElem?_eq_some_iff.mp hb).1
  have hle : (l₁.take (i + 1)).length = (l₂.take (i + 1)).length := by
    simp only [List.length_take]
    omega
  exact (List.prefix_of_prefix_length_le hp₁ hp₂ hle.le).eq_of_length hle

/-- The entry of a traced log is also in the log of its term's leader. -/
theorem Traced.mem_glog {s : State N D} {l : List (Entry D)} (hl : Traced s l) {e : Entry D}
    (he : e ∈ l) : e ∈ s.glog e.term := by
  obtain ⟨i, hi⟩ := List.mem_iff_getElem?.mp he
  refine (hl i e hi).subset ?_
  have hlt := (List.getElem?_eq_some_iff.mp hi).1
  rw [List.mem_iff_getElem?]
  exact ⟨i, by rw [List.getElem?_take_of_lt (by omega), hi]⟩

/-- What the logs of a run look like. -/
structure Matching (s : State N D) : Prop where
  log_traced : ∀ n, Traced s (s.log n)
  cand_traced : ∀ n t l, s.cand n t = some l → Traced s l
  glog_traced : ∀ t, Traced s (s.glog t)
  glog_terms : ∀ t e, e ∈ s.glog t → e.term ≤ t
  glog_nil : ∀ t, s.leader t = none → s.glog t = []
  ack_le_glog : ∀ n t, s.ack n t ≤ (s.glog t).length
  /-- Who made the leader of a later term has not voted for this candidate. -/
  no_late_votes : ∀ n t l e, s.cand n t = some l → e ∈ l → t < e.term →
    ∀ q ∈ s.electors e.term, s.voted q t ≠ some n

theorem Matching.init : Matching (State.init : State N D) := by
  constructor <;> simp [State.init, Traced]

variable {members : Finset N} {s s' : State N D}

theorem Matching.leader_of_mem (h : Matching s) {l : List (Entry D)} (hl : Traced s l)
    {e : Entry D} (he : e ∈ l) : s.leader e.term ≠ none := by
  intro hnone
  have := hl.mem_glog he
  rw [h.glog_nil _ hnone] at this
  cases this

/-- Terms never decrease along a traced log. -/
theorem Matching.terms_sorted (h : Matching s) {l : List (Entry D)} (hl : Traced s l)
    {i j : Nat} {a b : Entry D} (ha : l[i]? = some a) (hb : l[j]? = some b) (hij : i ≤ j) :
    a.term ≤ b.term := by
  refine h.glog_terms b.term a ((hl j b hb).subset ?_)
  rw [List.mem_iff_getElem?]
  exact ⟨i, by rw [List.getElem?_take_of_lt (by omega), ha]⟩

/-- Every entry of a traced log is of a real term. -/
theorem Matching.term_pos (h : Matching s) (he : Election members s) {l : List (Entry D)}
    (hl : Traced s l) {e : Entry D} (hmem : e ∈ l) : 0 < e.term := by
  obtain ⟨n, hn⟩ := Option.ne_none_iff_exists'.mp (h.leader_of_mem hl hmem)
  exact he.cand_pos n e.term (he.leader_cand e.term n hn)

section steps

variable [DecidableEq N]

/-- A candidate with a majority of the votes holds only entries of earlier terms. -/
theorem Matching.winner_terms_lt (h : Matching s) (he : Election members s) {n : N}
    {Q : Finset N} (hrole : s.role n = .candidate) (hmaj : Majority members Q)
    (hvotes : ∀ q ∈ Q, s.voted q (s.term n) = some n) {e : Entry D} (hmem : e ∈ s.log n) :
    e.term < s.term n := by
  have hcand := (he.role_candidate n hrole).1
  have hlead := h.leader_of_mem (h.log_traced n) hmem
  obtain ⟨m, hm⟩ := Option.ne_none_iff_exists'.mp hlead
  rcases Nat.lt_trichotomy e.term (s.term n) with hlt | heq | hgt
  · exact hlt
  · rw [heq, he.leader_none_of_elected hrole hmaj hvotes] at hm
    cases hm
  · obtain ⟨q, hq₁, hq₂⟩ := (he.electors_majority _ m hm).meet hmaj
    exact absurd (hvotes q hq₂) (h.no_late_votes n _ _ e hcand hmem hgt q hq₁)

/-- Every step keeps all that was known before it. -/
theorem Step.grows (he : Election members s) (h : Matching s) {n : N}
    (hs : Step members n s s') : Grows s s' := by
  cases hs with
  | observe t hlt =>
    refine { Grows.refl s with term_le := ?_ }
    intro m
    by_cases hm : m = n
    · subst hm
      simpa using hlt.le
    · simp [hm]
  | retire => exact { Grows.refl s with }
  | campaign =>
    refine { Grows.refl s with term_le := ?_, voted_keep := ?_, cand_keep := ?_ }
    · intro m
      by_cases hm : m = n
      · subst hm
        simp
      · simp [hm]
    · intro m t c hv
      have hne : ¬(m = n ∧ t = s.term n + 1) := by
        rintro ⟨rfl, rfl⟩
        rw [he.voted_none (by omega)] at hv
        cases hv
      simpa only [update₂_of_ne _ _ _ _ hne] using hv
    · intro m t l hc
      have hne : ¬(m = n ∧ t = s.term n + 1) := by
        rintro ⟨rfl, rfl⟩
        rw [he.cand_none (by omega)] at hc
        cases hc
      simpa only [update₂_of_ne _ _ _ _ hne] using hc
  | grant c l hfree _ _ =>
    refine { Grows.refl s with voted_keep := ?_ }
    intro m t d hv
    by_cases hm : m = n ∧ t = s.term n
    · obtain ⟨rfl, rfl⟩ := hm
      rcases hfree with hf | hf
      · rw [hf] at hv
        cases hv
      · simp only [update₂_same]
        rw [← hf, hv]
    · simpa only [update₂_of_ne _ _ _ _ hm] using hv
  | elect Q hrole hmaj hvotes =>
    have hnone := he.leader_none_of_elected hrole hmaj hvotes
    have hnil := h.glog_nil _ hnone
    refine { Grows.refl s with
      leader_keep := ?_, electors_keep := ?_, glog_grow := ?_, ack_le := ?_ }
    · intro t m hl
      have ht : t ≠ s.term n := by
        rintro rfl
        rw [hnone] at hl
        cases hl
      simpa only [update_of_ne ht] using hl
    · intro t m hl
      have ht : t ≠ s.term n := by
        rintro rfl
        rw [hnone] at hl
        cases hl
      simp only [update_of_ne ht]
    · intro t
      by_cases ht : t = s.term n
      · subst ht
        simp [hnil]
      · simp [ht]
    · intro m t
      by_cases hm : m = n ∧ t = s.term n
      · obtain ⟨rfl, rfl⟩ := hm
        have := h.ack_le_glog m (s.term m)
        rw [hnil] at this
        simp at this
        simp [this]
      · simp only [update₂_of_ne _ _ _ _ hm, le_refl]
  | propose d hrole =>
    have hglog := (he.role_leader n hrole).2
    refine { Grows.refl s with glog_grow := ?_, ack_le := ?_ }
    · intro t
      by_cases ht : t = s.term n
      · subst ht
        simp [hglog]
      · simp [ht]
    · intro m t
      by_cases hm : m = n ∧ t = s.term n
      · obtain ⟨rfl, rfl⟩ := hm
        have := h.ack_le_glog m (s.term m)
        rw [hglog] at this
        simp only [update₂_same]
        omega
      · simp only [update₂_of_ne _ _ _ _ hm, le_refl]
  | extend T m _ _ _ _ => exact { Grows.refl s with }
  | cut T k a b _ _ _ _ _ _ => exact { Grows.refl s with }
  | confirm m _ _ =>
    refine { Grows.refl s with ack_le := ?_ }
    intro v t
    by_cases hm : v = n ∧ t = s.term n
    · obtain ⟨rfl, rfl⟩ := hm
      simp
    · simp only [update₂_of_ne _ _ _ _ hm, le_refl]
  | learn k _ _ => exact { Grows.refl s with }

/-! ## Every step keeps the matching facts -/

/-- A step that only replaces the log of one node by a traced one. -/
theorem Matching.relog (h : Matching s) (n : N) {l : List (Entry D)} (hl : Traced s l) :
    Matching { s with log := update s.log n l } := by
  refine { h with log_traced := ?_ }
  intro m
  change Traced s (update s.log n l m)
  by_cases hm : m = n
  · subst hm
    simpa using hl
  · simpa [hm] using h.log_traced m

theorem Matching.campaign (h : Matching s) (he : Election members s) (n : N) :
    Matching
      { s with
        term := update s.term n (s.term n + 1)
        role := update s.role n .candidate
        voted := update₂ s.voted n (s.term n + 1) (some n)
        cand := update₂ s.cand n (s.term n + 1) (some (s.log n)) } := by
  refine { h with cand_traced := ?_, no_late_votes := ?_ }
  · intro m t l hc
    by_cases hm : m = n ∧ t = s.term n + 1
    · obtain ⟨rfl, rfl⟩ := hm
      simp only [update₂_same, Option.some.injEq] at hc
      subst hc
      exact h.log_traced m
    · simp only [update₂_of_ne _ _ _ _ hm] at hc
      exact h.cand_traced m t l hc
  · intro m t l e hc hmem hlt q hq
    have htr : Traced s l := by
      by_cases hm : m = n ∧ t = s.term n + 1
      · obtain ⟨rfl, rfl⟩ := hm
        simp only [update₂_same, Option.some.injEq] at hc
        exact hc ▸ h.log_traced m
      · simp only [update₂_of_ne _ _ _ _ hm] at hc
        exact h.cand_traced m t l hc
    obtain ⟨p, hp⟩ := Option.ne_none_iff_exists'.mp (h.leader_of_mem htr hmem)
    have hqle := he.voted_le q _ _ (he.electors_voted _ p hp q hq)
    -- the new vote is the candidate's own, and it has not reached the later term
    have hqn : ¬(q = n ∧ t = s.term n + 1) := by
      rintro ⟨rfl, rfl⟩
      omega
    simp only [update₂_of_ne _ _ _ _ hqn]
    by_cases hm : m = n ∧ t = s.term n + 1
    · obtain ⟨rfl, rfl⟩ := hm
      intro hv
      exact he.voted_cand _ _ _ hv (he.cand_none (by omega))
    · simp only [update₂_of_ne _ _ _ _ hm] at hc
      exact h.no_late_votes m t l e hc hmem hlt q hq

theorem Matching.grant (h : Matching s) (he : Election members s) (n c : N) :
    Matching { s with voted := update₂ s.voted n (s.term n) (some c) } := by
  refine { h with no_late_votes := ?_ }
  intro m t l e hc hmem hlt q hq
  obtain ⟨p, hp⟩ := Option.ne_none_iff_exists'.mp
    (h.leader_of_mem (h.cand_traced m t l hc) hmem)
  have hqle := he.voted_le q _ _ (he.electors_voted _ p hp q hq)
  have hqn : ¬(q = n ∧ t = s.term n) := by
    rintro ⟨rfl, rfl⟩
    omega
  simp only [update₂_of_ne _ _ _ _ hqn]
  exact h.no_late_votes m t l e hc hmem hlt q hq

theorem Matching.elect (h : Matching s) (he : Election members s) (n : N) {Q : Finset N}
    (hrole : s.role n = .candidate) (hmaj : Majority members Q)
    (hvotes : ∀ q ∈ Q, s.voted q (s.term n) = some n) :
    Matching
      { s with
        role := update s.role n .leader
        leader := update s.leader (s.term n) (some n)
        electors := update s.electors (s.term n) Q
        glog := update s.glog (s.term n) (s.log n)
        ack := update₂ s.ack n (s.term n) (s.log n).length } := by
  have hg := Step.grows he h (.elect s Q hrole hmaj hvotes)
  have hnone := he.leader_none_of_elected hrole hmaj hvotes
  constructor
  · exact fun m => (h.log_traced m).grow hg
  · exact fun m t l hc => (h.cand_traced m t l hc).grow hg
  · intro t
    by_cases ht : t = s.term n
    · subst ht
      simpa using (h.log_traced n).grow hg
    · simpa [ht] using (h.glog_traced t).grow hg
  · intro t e hmem
    by_cases ht : t = s.term n
    · subst ht
      simp only [update_self] at hmem
      exact (h.winner_terms_lt he hrole hmaj hvotes hmem).le
    · simp only [update_of_ne ht] at hmem
      exact h.glog_terms t e hmem
  · intro t hl
    by_cases ht : t = s.term n
    · subst ht
      simp at hl
    · simp only [update_of_ne ht] at hl ⊢
      exact h.glog_nil t hl
  · intro m t
    by_cases hm : m = n ∧ t = s.term n
    · obtain ⟨rfl, rfl⟩ := hm
      simp
    · simp only [update₂_of_ne _ _ _ _ hm]
      exact (h.ack_le_glog m t).trans (hg.glog_grow t).length_le
  · intro m t l e hc hmem hlt q hq
    have ht : e.term ≠ s.term n := by
      intro ht
      have := h.leader_of_mem (h.cand_traced m t l hc) hmem
      rw [ht] at this
      exact this hnone
    simp only [update_of_ne ht] at hq
    exact h.no_late_votes m t l e hc hmem hlt q hq

theorem Matching.propose (h : Matching s) (he : Election members s) (n : N) (d : D)
    (hrole : s.role n = .leader) :
    Matching
      { s with
        log := update s.log n (s.log n ++ [⟨s.term n, d⟩])
        glog := update s.glog (s.term n) (s.log n ++ [⟨s.term n, d⟩])
        ack := update₂ s.ack n (s.term n) ((s.log n).length + 1) } := by
  obtain ⟨hlead, hglog⟩ := he.role_leader n hrole
  have hg := Step.grows he h (.propose s d hrole)
  set s₁ : State N D :=
    { s with
      log := update s.log n (s.log n ++ [⟨s.term n, d⟩])
      glog := update s.glog (s.term n) (s.log n ++ [⟨s.term n, d⟩])
      ack := update₂ s.ack n (s.term n) ((s.log n).length + 1) } with hs₁
  have hnew : Traced s₁ (s.log n ++ [⟨s.term n, d⟩]) := by
    intro i e hi
    rcases Nat.lt_or_ge i (s.log n).length with hlt | hge
    · rw [List.getElem?_append_left hlt] at hi
      rw [List.take_append_of_le_length hlt]
      exact (h.log_traced n).grow hg i e hi
    · have hi' := (List.getElem?_eq_some_iff.mp hi).1
      simp only [List.length_append, List.length_singleton] at hi'
      have : i = (s.log n).length := by omega
      subst this
      simp only [List.getElem?_concat_length, Option.some.injEq] at hi
      subst hi
      rw [List.take_of_length_le (by simp)]
      simp [hs₁]
  constructor
  · intro m
    by_cases hm : m = n
    · subst hm
      simpa [hs₁] using hnew
    · simpa [hs₁, hm] using (h.log_traced m).grow hg
  · exact fun m t l hc => (h.cand_traced m t l hc).grow hg
  · intro t
    by_cases ht : t = s.term n
    · subst ht
      simpa [hs₁] using hnew
    · simpa [hs₁, ht] using (h.glog_traced t).grow hg
  · intro t e hmem
    by_cases ht : t = s.term n
    · subst ht
      simp only [hs₁, update_self, List.mem_append, List.mem_singleton] at hmem
      rcases hmem with hmem | rfl
      · exact h.glog_terms _ e (hglog ▸ hmem)
      · exact le_rfl
    · simp only [hs₁, update_of_ne ht] at hmem
      exact h.glog_terms t e hmem
  · intro t hl
    have ht : t ≠ s.term n := by
      rintro rfl
      rw [show s₁.leader (s.term n) = s.leader (s.term n) from rfl, hlead] at hl
      cases hl
    simpa [hs₁, ht] using h.glog_nil t hl
  · intro m t
    by_cases hm : m = n ∧ t = s.term n
    · obtain ⟨rfl, rfl⟩ := hm
      simp [hs₁]
    · simp only [hs₁, update₂_of_ne _ _ _ _ hm]
      exact (h.ack_le_glog m t).trans (hg.glog_grow t).length_le
  · exact h.no_late_votes

theorem Matching.confirm (h : Matching s) (n : N) {m : Nat}
    (hlen : m ≤ (s.glog (s.term n)).length) :
    Matching
      { s with ack := update₂ s.ack n (s.term n) (max (s.ack n (s.term n)) m) } := by
  refine { h with ack_le_glog := ?_ }
  intro v t
  by_cases hv : v = n ∧ t = s.term n
  · obtain ⟨rfl, rfl⟩ := hv
    simpa using ⟨h.ack_le_glog v (s.term v), hlen⟩
  · simpa only [update₂_of_ne _ _ _ _ hv] using h.ack_le_glog v t

theorem Matching.step (h : Matching s) (he : Election members s) {n : N}
    (hs : Step members n s s') : Matching s' := by
  cases hs with
  | observe t hlt => exact { h with }
  | retire => exact { h with }
  | campaign => exact h.campaign he n
  | grant c l _ _ _ => exact h.grant he n c
  | elect Q hrole hmaj hvotes => exact h.elect he n hrole hmaj hvotes
  | propose d hrole => exact h.propose he n d hrole
  | extend T m _ _ _ _ => exact h.relog n ((h.glog_traced T).shorter (List.take_prefix _ _))
  | cut T k a b _ _ _ _ _ _ =>
    exact h.relog n ((h.log_traced n).shorter (List.take_prefix _ _))
  | confirm m hlen _ => exact h.confirm n hlen
  | learn k _ _ => exact { h with }

end steps

end raft
