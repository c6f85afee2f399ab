-- Leader completeness: what a majority may still acknowledge is in the log of
-- every later leader. The induction goes over the steps; the votes of the next
-- leader meet the acknowledgements in one node, and its vote carries them over.
import LactoSensus.Lib.Raft.Matching

open Function
open quorum

namespace raft

variable {N D : Type}

/-- The first `k` entries of term `t` are committed or may still become so. -/
structure Choosable (members : Finset N) (s : State N D) (t k : Nat) : Prop where
  ends : EndsIn s t k
  quorum : ∃ Q, Majority members Q ∧ ∀ q ∈ Q, k ≤ s.ack q t ∨ s.term q ≤ t

theorem Committed.choosable {members : Finset N} {s : State N D} {t k : Nat}
    (h : Committed members s t k) : Choosable members s t k := by
  obtain ⟨he, Q, hQ, hack⟩ := h
  exact ⟨he, Q, hQ, fun q hq => .inl (hack q hq)⟩

/-- Where choosable entries are kept. -/
structure Completeness (members : Finset N) (s : State N D) : Prop where
  ack_le_term : ∀ n t, 0 < s.ack n t → t ≤ s.term n
  /-- A leader acknowledged its own log. -/
  own_ack : ∀ n, s.role n = .leader → (s.log n).length ≤ s.ack n (s.term n)
  /-- A node that acknowledged them holds them. -/
  acked : ∀ t k n, Choosable members s t k → k ≤ s.ack n t → (s.glog t).take k <+: s.log n
  /-- A later leader holds them. -/
  later : ∀ t k u, Choosable members s t k → t < u → s.leader u ≠ none →
    (s.glog t).take k <+: s.glog u
  /-- A candidate voted for by a node that acknowledged them holds them. -/
  voted : ∀ t k u q c l, Choosable members s t k → t < u → s.leader u = none →
    s.voted q u = some c → k ≤ s.ack q t → s.cand c u = some l → (s.glog t).take k <+: l
  /-- What a node takes as committed is committed. -/
  commit_le : ∀ n, s.commit n ≤ (s.log n).length
  settled : ∀ n, Settled members s (s.term n) ((s.log n).take (s.commit n))

theorem Completeness.init (members : Finset N) :
    Completeness members (State.init : State N D) := by
  constructor <;> simp [State.init, Settled]

variable {members : Finset N} {s s' : State N D}

theorem EndsIn.of_glog_eq {t k : Nat} (hk : s'.glog t = s.glog t) (he : EndsIn s' t k) :
    EndsIn s t k := by
  obtain ⟨e, hpos, hget, hterm⟩ := he
  exact ⟨e, hpos, hk ▸ hget, hterm⟩

/-- Choosable entries were choosable before, when the log of their term had them. -/
theorem Choosable.of_grows (hg : Grows s s') {t k : Nat} (he : EndsIn s t k)
    (hack : ∀ q, s'.ack q t = s.ack q t ∨ s.term q ≤ t) (h : Choosable members s' t k) :
    Choosable members s t k := by
  obtain ⟨-, Q, hQ, hall⟩ := h
  refine ⟨he, Q, hQ, fun q hq => ?_⟩
  rcases hall q hq with hk | ht
  · rcases hack q with heq | hle
    · exact .inl (heq ▸ hk)
    · exact .inr hle
  · exact .inr ((hg.term_le q).trans ht)

/-- Settled entries are in the log of every leader from their term on. -/
theorem Completeness.settled_in_leader (h : Completeness members s) {t u : Nat}
    {p : List (Entry D)} (hp : Settled members s t p) (htu : t ≤ u)
    (hlead : s.leader u ≠ none) : p <+: s.glog u := by
  rcases hp with rfl | ⟨w, k, hw, hc, hpre⟩
  · exact List.nil_prefix
  · rcases Nat.eq_or_lt_of_le (hw.trans htu) with rfl | hlt
    · exact hpre.trans (List.take_prefix _ _)
    · exact hpre.trans (h.later w k u hc.choosable hlt hlead)

/-- A term that committed something has a leader. -/
theorem Matching.leader_of_ends (hm : Matching s) {t k : Nat} (he : EndsIn s t k) :
    s.leader t ≠ none := by
  intro hnone
  obtain ⟨e, -, hget, -⟩ := he
  rw [hm.glog_nil t hnone] at hget
  simp at hget

/-- Two lists of settled entries never disagree. -/
theorem Completeness.settled_agree (h : Completeness members s) (hm : Matching s) {t₁ t₂ : Nat}
    {p q : List (Entry D)} (hp : Settled members s t₁ p) (hq : Settled members s t₂ q) :
    p <+: q ∨ q <+: p := by
  rcases hp with rfl | ⟨u, k, hu, hcp, hpp⟩
  · exact .inl List.nil_prefix
  rcases hq with rfl | ⟨w, j, hw, hcq, hqp⟩
  · exact .inr List.nil_prefix
  have hp' : Settled members s u p := .inr ⟨u, k, le_rfl, hcp, hpp⟩
  have hq' : Settled members s w q := .inr ⟨w, j, le_rfl, hcq, hqp⟩
  rcases Nat.le_total u w with hle | hle
  · exact List.prefix_or_prefix_of_prefix
      (h.settled_in_leader hp' hle (hm.leader_of_ends hcq.ends))
      (h.settled_in_leader hq' le_rfl (hm.leader_of_ends hcq.ends))
  · exact List.prefix_or_prefix_of_prefix
      (h.settled_in_leader hp' le_rfl (hm.leader_of_ends hcp.ends))
      (h.settled_in_leader hq' hle (hm.leader_of_ends hcp.ends))

/-! ## The vote carries the entries over -/

theorem lastTerm_eq {l : List (Entry D)} {e : Entry D} (he : l.getLast? = some e) :
    lastTerm l = e.term := by
  simp [lastTerm, he]

/-- A log that holds choosable entries of `t` and is traced ends in term `t` or later. -/
theorem Matching.le_lastTerm (hm : Matching s) {t k : Nat} (he : EndsIn s t k)
    {l : List (Entry D)} (hl : Traced s l) (hpre : (s.glog t).take k <+: l) :
    ∃ e, l.getLast? = some e ∧ t ≤ e.term ∧ k ≤ l.length := by
  obtain ⟨a, hk, hget, hterm⟩ := he
  have hlt := (List.getElem?_eq_some_iff.mp hget).1
  have ha : l[k - 1]? = some a := by
    refine prefix_get hpre ?_
    rw [List.getElem?_take_of_lt (by omega), hget]
  have hlen := (List.getElem?_eq_some_iff.mp ha).1
  have hlast : l.getLast? = l[l.length - 1]? := List.getLast?_eq_getElem?
  obtain ⟨e, hge⟩ : ∃ e, l[l.length - 1]? = some e := ⟨_, List.getElem?_eq_getElem (by omega)⟩
  refine ⟨e, hlast.trans hge, ?_, by omega⟩
  rw [← hterm]
  exact hm.terms_sorted hl ha hge (by omega)

/-- An entry of a later term stands behind all choosable entries of an earlier one. -/
theorem Completeness.prefix_of_later_entry (h : Completeness members s) (hm : Matching s)
    {t k : Nat} (hc : Choosable members s t k) {l : List (Entry D)} (hl : Traced s l)
    {i : Nat} {e : Entry D} (he : l[i]? = some e) (hlt : t < e.term) :
    (s.glog t).take k <+: l := by
  have hlead := hm.leader_of_mem hl (List.mem_of_getElem? he)
  have hpre := h.later t k e.term hc hlt hlead
  have htr := hl i e he
  have hi := (List.getElem?_eq_some_iff.mp he).1
  -- the entry is past the first `k` ones, which are of term `t` at most
  have hki : k ≤ i + 1 := by
    by_contra hcon
    have hek : (s.glog e.term)[i]? = some e := by
      refine prefix_get htr ?_
      rw [List.getElem?_take_of_lt (by omega), he]
    have hkl := hc.ends.le_length
    obtain ⟨a, -, hga, hat⟩ := hc.ends
    have hak : (s.glog e.term)[k - 1]? = some a := by
      refine prefix_get hpre ?_
      rw [List.getElem?_take_of_lt (by omega), hga]
    have := hm.terms_sorted (hm.glog_traced e.term) hek hak (by omega)
    omega
  have hle : ((s.glog t).take k).length ≤ (l.take (i + 1)).length := by
    simp only [List.length_take]
    omega
  exact (List.prefix_of_prefix_length_le hpre htr hle).trans (List.take_prefix _ _)

/-- A log as fresh as one that holds choosable entries holds them too. -/
theorem Completeness.upToDate_carries (h : Completeness members s) (hm : Matching s)
    {t k : Nat} (hc : Choosable members s t k) {l v : List (Entry D)} (hl : Traced s l)
    (hv : Traced s v) (hpre : (s.glog t).take k <+: v) (hup : UpToDate l v) :
    (s.glog t).take k <+: l := by
  obtain ⟨b, hb, htb, hkv⟩ := hm.le_lastTerm hc.ends hv hpre
  have hvb := lastTerm_eq hb
  cases ha : l.getLast? with
  | none =>
    have hnil : l = [] := List.getLast?_eq_none_iff.mp ha
    subst hnil
    have hk := hc.ends.choose_spec.1
    rcases hup with hlt | ⟨-, hlen⟩
    · simp [lastTerm] at hlt
    · simp at hlen
      subst hlen
      simp at hkv
      omega
  | some a =>
    have hla := lastTerm_eq ha
    have hga : l[l.length - 1]? = some a := by rw [← List.getLast?_eq_getElem?, ha]
    rcases Nat.lt_or_ge t a.term with hlt | hge
    · exact h.prefix_of_later_entry hm hc hl hga hlt
    · -- both logs end in term `t` itself
      have hba : b.term = a.term ∧ v.length ≤ l.length := by
        rcases hup with hlt | ⟨heq, hlen⟩
        · omega
        · exact ⟨by omega, hlen⟩
      have hat : a.term = t := by omega
      have hlpre := hl _ a hga
      have hpos := (List.getElem?_eq_some_iff.mp hga).1
      rw [hat, List.take_of_length_le (by omega)] at hlpre
      refine List.prefix_of_prefix_length_le (List.take_prefix _ _) hlpre ?_
      simp only [List.length_take]
      omega

/-! ## Every step keeps the entries -/

section steps

variable [DecidableEq N]

theorem Completeness.demote (h : Completeness members s) (n : N) (t : Nat)
    (hg : Grows s { s with term := update s.term n t, role := update s.role n .follower }) :
    Completeness members
      { s with term := update s.term n t, role := update s.role n .follower } := by
  have hch : ∀ w k, Choosable members
      { s with term := update s.term n t, role := update s.role n .follower } w k →
      Choosable members s w k :=
    fun w k hc => hc.of_grows hg hc.ends fun _ => .inl rfl
  constructor
  · exact fun m w hpos => (h.ack_le_term m w hpos).trans (hg.term_le m)
  · intro m hr
    by_cases hm : m = n
    · subst hm
      simp at hr
    · simp only [update_of_ne hm] at hr ⊢
      exact h.own_ack m hr
  · exact fun w k m hc => h.acked w k m (hch w k hc)
  · exact fun w k u hc => h.later w k u (hch w k hc)
  · exact fun w k u q c l hc => h.voted w k u q c l (hch w k hc)
  · exact h.commit_le
  · exact fun m => ((h.settled m).grow hg).mono (hg.term_le m)

theorem Completeness.campaign (h : Completeness members s) (he : Election members s)
    (hm : Matching s) (n : N) :
    Completeness members
      { s with
        term := update s.term n (s.term n + 1)
        role := update s.role n .candidate
        voted := update₂ s.voted n (s.term n + 1) (some n)
        cand := update₂ s.cand n (s.term n + 1) (some (s.log n)) } := by
  have hg := Step.grows he hm (Step.campaign s : Step members n s _)
  set s₁ : State N D :=
    { s with
      term := update s.term n (s.term n + 1)
      role := update s.role n .candidate
      voted := update₂ s.voted n (s.term n + 1) (some n)
      cand := update₂ s.cand n (s.term n + 1) (some (s.log n)) } with hs₁
  have hch : ∀ w k, Choosable members s₁ w k → Choosable members s w k :=
    fun w k hc => hc.of_grows hg hc.ends fun _ => .inl rfl
  constructor
  · exact fun m w hpos => (h.ack_le_term m w hpos).trans (hg.term_le m)
  · intro m hr
    by_cases hmn : m = n
    · subst hmn
      simp [hs₁] at hr
    · simp only [hs₁, update_of_ne hmn] at hr ⊢
      exact h.own_ack m hr
  · exact fun w k m hc => h.acked w k m (hch w k hc)
  · exact fun w k u hc => h.later w k u (hch w k hc)
  · intro w k u q c l hc hlt hnone hv hk hcand
    by_cases hq : q = n ∧ u = s.term n + 1
    · obtain ⟨rfl, rfl⟩ := hq
      simp only [hs₁, update₂_same, Option.some.injEq] at hv
      subst hv
      simp only [hs₁, update₂_same, Option.some.injEq] at hcand
      subst hcand
      exact h.acked w k q (hch w k hc) hk
    · simp only [hs₁, update₂_of_ne _ _ _ _ hq] at hv
      have hcn : ¬(c = n ∧ u = s.term n + 1) := by
        rintro ⟨rfl, rfl⟩
        exact he.voted_cand _ _ _ hv (he.cand_none (by omega))
      simp only [hs₁, update₂_of_ne _ _ _ _ hcn] at hcand
      exact h.voted w k u q c l (hch w k hc) hlt hnone hv hk hcand
  · exact h.commit_le
  · exact fun m => ((h.settled m).grow hg).mono (hg.term_le m)

theorem Completeness.grant (h : Completeness members s) (he : Election members s)
    (hm : Matching s) (n c : N) {l : List (Entry D)}
    (hfree : s.voted n (s.term n) = none ∨ s.voted n (s.term n) = some c)
    (hcand : s.cand c (s.term n) = some l)
    (hfresh : s.leader (s.term n) = none → UpToDate l (s.log n)) :
    Completeness members { s with voted := update₂ s.voted n (s.term n) (some c) } := by
  have hg := Step.grows he hm (Step.grant s c l hfree hcand hfresh : Step members n s _)
  have hch : ∀ w k, Choosable members
      { s with voted := update₂ s.voted n (s.term n) (some c) } w k → Choosable members s w k :=
    fun w k hc => hc.of_grows hg hc.ends fun _ => .inl rfl
  refine { h with acked := ?_, later := ?_, voted := ?_, settled := ?_ }
  · exact fun w k m hc => h.acked w k m (hch w k hc)
  · exact fun w k u hc => h.later w k u (hch w k hc)
  · intro w k u q d l' hc hlt hnone hv hk hcand'
    by_cases hq : q = n ∧ u = s.term n
    · obtain ⟨rfl, rfl⟩ := hq
      simp only [update₂_same, Option.some.injEq] at hv
      subst hv
      rw [show l' = l from Option.some.inj (hcand'.symm.trans hcand)]
      exact h.upToDate_carries hm (hch w k hc) (hm.cand_traced c _ l hcand) (hm.log_traced q)
        (h.acked w k q (hch w k hc) hk) (hfresh hnone)
    · simp only [update₂_of_ne _ _ _ _ hq] at hv
      exact h.voted w k u q d l' (hch w k hc) hlt hnone hv hk hcand'
  · exact fun m => (h.settled m).grow hg

theorem Completeness.elect (h : Completeness members s) (he : Election members s)
    (hm : Matching s) (n : N) {Q : Finset N} (hrole : s.role n = .candidate)
    (hmaj : Majority members Q) (hvotes : ∀ q ∈ Q, s.voted q (s.term n) = some n) :
    Completeness members
      { s with
        role := update s.role n .leader
        leader := update s.leader (s.term n) (some n)
        electors := update s.electors (s.term n) Q
        glog := update s.glog (s.term n) (s.log n)
        ack := update₂ s.ack n (s.term n) (s.log n).length } := by
  have hg := Step.grows he hm (.elect s Q hrole hmaj hvotes)
  have hcand := (he.role_candidate n hrole).1
  have hnone := he.leader_none_of_elected hrole hmaj hvotes
  set s₁ : State N D :=
    { s with
      role := update s.role n .leader
      leader := update s.leader (s.term n) (some n)
      electors := update s.electors (s.term n) Q
      glog := update s.glog (s.term n) (s.log n)
      ack := update₂ s.ack n (s.term n) (s.log n).length } with hs₁
  -- the new leader has nothing of its own term yet
  have hne : ∀ w k, Choosable members s₁ w k → w ≠ s.term n := by
    rintro w k hc rfl
    obtain ⟨e, -, hget, hterm⟩ := hc.ends
    simp only [hs₁, update_self] at hget
    have := hm.winner_terms_lt he hrole hmaj hvotes (List.mem_of_getElem? hget)
    omega
  have hglog : ∀ w, w ≠ s.term n → s₁.glog w = s.glog w := fun w hw => update_of_ne hw _ _
  have hack : ∀ q w, w ≠ s.term n → s₁.ack q w = s.ack q w :=
    fun q w hw => update₂_of_ne _ _ _ _ (fun hcon => hw hcon.2)
  have hch : ∀ w k, Choosable members s₁ w k → Choosable members s w k := fun w k hc =>
    hc.of_grows hg (hc.ends.of_glog_eq (hglog w (hne w k hc)))
      fun q => .inl (hack q w (hne w k hc))
  constructor
  · intro m w hpos
    by_cases hw : m = n ∧ w = s.term n
    · obtain ⟨rfl, rfl⟩ := hw
      exact le_rfl
    · simp only [hs₁, update₂_of_ne _ _ _ _ hw] at hpos
      exact h.ack_le_term m w hpos
  · intro m hr
    by_cases hmn : m = n
    · subst hmn
      simp [hs₁]
    · simp only [hs₁, update_of_ne hmn] at hr
      simp only [hs₁, update₂_of_ne _ _ _ _ (fun hcon => hmn hcon.1)]
      exact h.own_ack m hr
  · intro w k m hc hk
    rw [hglog w (hne w k hc)]
    rw [hack m w (hne w k hc)] at hk
    exact h.acked w k m (hch w k hc) hk
  · intro w k u hc hlt hlead
    rw [hglog w (hne w k hc)]
    by_cases hu : u = s.term n
    · subst hu
      obtain ⟨A, hA, hall⟩ := (hch w k hc).quorum
      obtain ⟨q, hqQ, hqA⟩ := hmaj.meet hA
      have hvq := hvotes q hqQ
      have hterm := he.voted_le q _ _ hvq
      have hk : k ≤ s.ack q w := by
        rcases hall q hqA with hk | hle
        · exact hk
        · omega
      simp only [hs₁, update_self]
      exact h.voted w k _ q n (s.log n) (hch w k hc) hlt hnone hvq hk hcand
    · rw [hglog u hu]
      simp only [hs₁, update_of_ne hu] at hlead
      exact h.later w k u (hch w k hc) hlt hlead
  · intro w k u q c l hc hlt hnone' hv hk hcand'
    rw [hglog w (hne w k hc)]
    rw [hack q w (hne w k hc)] at hk
    have hu : u ≠ s.term n := by
      rintro rfl
      simp [hs₁] at hnone'
    simp only [hs₁, update_of_ne hu] at hnone'
    exact h.voted w k u q c l (hch w k hc) hlt hnone' hv hk hcand'
  · exact h.commit_le
  · exact fun m => (h.settled m).grow hg

theorem Completeness.propose (h : Completeness members s) (he : Election members s)
    (hm : Matching s) (n : N) (d : D) (hrole : s.role n = .leader) :
    Completeness members
      { s with
        log := update s.log n (s.log n ++ [⟨s.term n, d⟩])
        glog := update s.glog (s.term n) (s.log n ++ [⟨s.term n, d⟩])
        ack := update₂ s.ack n (s.term n) ((s.log n).length + 1) } := by
  obtain ⟨hlead, hglog⟩ := he.role_leader n hrole
  have hg := Step.grows he hm (Step.propose s d hrole : Step members n s _)
  set s₁ : State N D :=
    { s with
      log := update s.log n (s.log n ++ [⟨s.term n, d⟩])
      glog := update s.glog (s.term n) (s.log n ++ [⟨s.term n, d⟩])
      ack := update₂ s.ack n (s.term n) ((s.log n).length + 1) } with hs₁
  have hlog : ∀ m, s.log m <+: s₁.log m := by
    intro m
    by_cases hmn : m = n
    · subst hmn
      simp [hs₁]
    · simp [hs₁, hmn]
  have hackne : ∀ q w, ¬(q = n ∧ w = s.term n) → s₁.ack q w = s.ack q w :=
    fun q w hq => update₂_of_ne _ _ _ _ hq
  have hch : ∀ w k, Choosable members s₁ w k → k ≤ (s.glog w).length →
      Choosable members s w k := by
    intro w k hc hk
    refine hc.of_grows hg ?_ ?_
    · obtain ⟨e, hpos, hget, hterm⟩ := hc.ends
      obtain ⟨r, hr⟩ := hg.glog_grow w
      rw [← hr, List.getElem?_append_left (by omega)] at hget
      exact ⟨e, hpos, hget, hterm⟩
    · intro q
      by_cases hq : q = n ∧ w = s.term n
      · obtain ⟨rfl, rfl⟩ := hq
        exact .inr le_rfl
      · exact .inl (hackne q w hq)
  -- the new entry is not yet anywhere else
  have hfresh : ∀ w k, Choosable members s₁ w k → (s.glog w).length < k →
      w = s.term n ∧ (∀ q, k ≤ s₁.ack q w → q = n) ∧
        ∃ Q, Majority members Q ∧ ∀ q ∈ Q, s.term q ≤ w := by
    intro w k hc hk
    have hw : w = s.term n := by
      by_contra hw
      have := hc.ends.le_length
      simp only [hs₁, update_of_ne hw] at this
      omega
    have honly : ∀ q, k ≤ s₁.ack q w → q = n := by
      intro q hq
      by_contra hqn
      rw [hackne q w (fun hcon => hqn hcon.1)] at hq
      have := hm.ack_le_glog q w
      omega
    obtain ⟨Q, hQ, hall⟩ := hc.quorum
    refine ⟨hw, honly, Q, hQ, fun q hq => ?_⟩
    rcases hall q hq with hk' | hle
    · rw [honly q hk', hw]
    · exact hle
  constructor
  · intro m w hpos
    by_cases hw : m = n ∧ w = s.term n
    · obtain ⟨rfl, rfl⟩ := hw
      exact le_rfl
    · rw [hackne m w hw] at hpos
      exact h.ack_le_term m w hpos
  · intro m hr
    by_cases hmn : m = n
    · subst hmn
      simp [hs₁]
    · rw [hackne m _ (fun hcon => hmn hcon.1)]
      simp only [hs₁, update_of_ne hmn]
      exact h.own_ack m hr
  · intro w k m hc hk
    rcases Nat.lt_or_ge (s.glog w).length k with hlt | hge
    · obtain ⟨rfl, honly, -⟩ := hfresh w k hc hlt
      have hmn := honly m hk
      subst hmn
      simp only [hs₁, update_self]
      exact List.take_prefix _ _
    · rw [hg.take_eq hge]
      by_cases hmw : m = n ∧ w = s.term n
      · obtain ⟨rfl, rfl⟩ := hmw
        rw [hglog]
        exact (List.take_prefix _ _).trans (hlog m)
      · rw [hackne m w hmw] at hk
        exact (h.acked w k m (hch w k hc hge) hk).trans (hlog m)
  · intro w k u hc hlt hl
    rcases Nat.lt_or_ge (s.glog w).length k with hnew | hge
    · obtain ⟨rfl, -, Q, hQ, hle⟩ := hfresh w k hc hnew
      obtain ⟨p, hp⟩ := Option.ne_none_iff_exists'.mp hl
      obtain ⟨q, hq₁, hq₂⟩ := (he.electors_majority u p hp).meet hQ
      have := he.voted_le q u p (he.electors_voted u p hp q hq₁)
      have := hle q hq₂
      omega
    · rw [hg.take_eq hge]
      exact (h.later w k u (hch w k hc hge) hlt hl).trans (hg.glog_grow u)
  · intro w k u q c l hc hlt hnone hv hk hcand
    rcases Nat.lt_or_ge (s.glog w).length k with hnew | hge
    · obtain ⟨rfl, honly, -⟩ := hfresh w k hc hnew
      have hqn := honly q hk
      subst hqn
      have := he.voted_le q u c hv
      omega
    · rw [hg.take_eq hge]
      have hqw : ¬(q = n ∧ w = s.term n) := by
        rintro ⟨rfl, rfl⟩
        have := he.voted_le q u c hv
        omega
      rw [hackne q w hqw] at hk
      exact h.voted w k u q c l (hch w k hc hge) hlt hnone hv hk hcand
  · intro m
    exact (h.commit_le m).trans (hlog m).length_le
  · intro m
    obtain ⟨r, hr⟩ := hlog m
    rw [← hr, show s₁.commit m = s.commit m from rfl,
      List.take_append_of_le_length (h.commit_le m)]
    exact (h.settled m).grow hg

/-- Replacing a log by one that keeps the acknowledged and the committed entries. -/
theorem Completeness.relog (h : Completeness members s) (n : N) {l : List (Entry D)}
    (hrole : s.role n = .follower)
    (hacked : ∀ t k, Choosable members s t k → k ≤ s.ack n t → (s.glog t).take k <+: l)
    (hcommit : (s.log n).take (s.commit n) <+: l) :
    Completeness members { s with log := update s.log n l } := by
  have hlen : ((s.log n).take (s.commit n)).length = s.commit n := by
    simpa using h.commit_le n
  refine { h with
    own_ack := ?_, acked := ?_, later := ?_, voted := ?_, commit_le := ?_, settled := ?_ }
  · intro m hr
    have hmn : m ≠ n := by
      rintro rfl
      rw [show s.role m = .leader from hr] at hrole
      cases hrole
    simp only [update_of_ne hmn]
    exact h.own_ack m hr
  · intro w k m hc hk
    have hc' : Choosable members s w k := ⟨hc.ends, hc.quorum⟩
    by_cases hmn : m = n
    · subst hmn
      simpa using hacked w k hc' hk
    · simpa [hmn] using h.acked w k m hc' hk
  · exact fun w k u hc => h.later w k u ⟨hc.ends, hc.quorum⟩
  · exact fun w k u q c l hc => h.voted w k u q c l ⟨hc.ends, hc.quorum⟩
  · intro m
    by_cases hmn : m = n
    · subst hmn
      have := hcommit.length_le
      simp only [update_self]
      omega
    · simpa [hmn] using h.commit_le m
  · intro m
    have hg : Grows s { s with log := update s.log n l } := { Grows.refl s with }
    refine Settled.grow hg ?_
    by_cases hmn : m = n
    · subst hmn
      have htake : l.take (s.commit m) = (s.log m).take (s.commit m) := by
        have := List.prefix_iff_eq_take.mp hcommit
        rw [hlen] at this
        exact this.symm
      simp only [update_self]
      rw [htake]
      exact h.settled m
    · simpa [hmn] using h.settled m

theorem Completeness.extend (h : Completeness members s) (n : N) {l : List (Entry D)}
    (hrole : s.role n = .follower) (hpre : s.log n <+: l) :
    Completeness members { s with log := update s.log n l } :=
  h.relog n hrole (fun t k hc hk => (h.acked t k n hc hk).trans hpre)
    ((List.take_prefix _ _).trans hpre)

/-- A common prefix of two lists ends before the first place where they differ. -/
theorem prefix_take_of_ne {X : Type} {p l₁ l₂ : List X} (h₁ : p <+: l₁) (h₂ : p <+: l₂)
    {k : Nat} {a b : X} (ha : l₁[k]? = some a) (hb : l₂[k]? = some b) (hne : a ≠ b) :
    p <+: l₁.take k := by
  rw [List.prefix_take_iff]
  refine ⟨h₁, ?_⟩
  by_contra hlt
  have hpk : p[k]? = some p[k] := List.getElem?_eq_getElem (by omega)
  have e₁ := prefix_get h₁ hpk
  have e₂ := prefix_get h₂ hpk
  rw [ha] at e₁
  rw [hb] at e₂
  exact hne ((Option.some.inj e₁).trans (Option.some.inj e₂).symm)

theorem Completeness.cut (h : Completeness members s) (n : N) {T k : Nat} {a b : Entry D}
    (hrole : s.role n = .follower) (hlead : s.leader T ≠ none) (hterm : s.term n ≤ T)
    (ha : (s.log n)[k]? = some a) (hb : (s.glog T)[k]? = some b) (hne : a ≠ b) :
    Completeness members { s with log := update s.log n ((s.log n).take k) } := by
  refine h.relog n hrole ?_ ?_
  · intro t j hc hj
    have hpre := h.acked t j n hc hj
    have hpos := hc.ends.choose_spec.1
    have htn := h.ack_le_term n t (by omega)
    refine prefix_take_of_ne hpre ?_ ha hb hne
    rcases Nat.eq_or_lt_of_le (htn.trans hterm) with rfl | hlt
    · exact List.take_prefix _ _
    · exact h.later t j T hc hlt hlead
  · exact prefix_take_of_ne (List.take_prefix _ _)
      (h.settled_in_leader (h.settled n) hterm hlead) ha hb hne

theorem Completeness.confirm (h : Completeness members s) (he : Election members s)
    (hm : Matching s) (n : N) {m : Nat} (hlen : m ≤ (s.glog (s.term n)).length)
    (hpre : (s.glog (s.term n)).take m <+: s.log n) :
    Completeness members
      { s with ack := update₂ s.ack n (s.term n) (max (s.ack n (s.term n)) m) } := by
  have hg := Step.grows he hm (Step.confirm s m hlen hpre : Step members n s _)
  set s₁ : State N D :=
    { s with ack := update₂ s.ack n (s.term n) (max (s.ack n (s.term n)) m) } with hs₁
  have hackne : ∀ q w, ¬(q = n ∧ w = s.term n) → s₁.ack q w = s.ack q w :=
    fun q w hq => update₂_of_ne _ _ _ _ hq
  have hch : ∀ w k, Choosable members s₁ w k → Choosable members s w k := by
    intro w k hc
    refine hc.of_grows hg hc.ends fun q => ?_
    by_cases hq : q = n ∧ w = s.term n
    · obtain ⟨rfl, rfl⟩ := hq
      exact .inr le_rfl
    · exact .inl (hackne q w hq)
  constructor
  · intro v w hpos
    by_cases hv : v = n ∧ w = s.term n
    · obtain ⟨rfl, rfl⟩ := hv
      exact le_rfl
    · rw [hackne v w hv] at hpos
      exact h.ack_le_term v w hpos
  · intro v hr
    exact (h.own_ack v hr).trans (hg.ack_le v _)
  · intro w k v hc hk
    by_cases hv : v = n ∧ w = s.term n
    · obtain ⟨rfl, rfl⟩ := hv
      simp only [hs₁, update₂_same] at hk
      rcases le_max_iff.mp hk with hle | hle
      · exact h.acked _ k v (hch _ k hc) hle
      · exact (List.take_prefix_take_left hle).trans hpre
    · rw [hackne v w hv] at hk
      exact h.acked w k v (hch w k hc) hk
  · exact fun w k u hc => h.later w k u (hch w k hc)
  · intro w k u q c l hc hlt hnone hv hk hcand
    have hq : ¬(q = n ∧ w = s.term n) := by
      rintro ⟨rfl, rfl⟩
      have := he.voted_le q u c hv
      omega
    rw [hackne q w hq] at hk
    exact h.voted w k u q c l (hch w k hc) hlt hnone hv hk hcand
  · exact h.commit_le
  · exact fun v => (h.settled v).grow hg

theorem Completeness.learn (h : Completeness members s) (n : N) {k : Nat}
    (hlen : k ≤ (s.log n).length) (hset : Settled members s (s.term n) ((s.log n).take k)) :
    Completeness members { s with commit := update s.commit n k } := by
  refine { h with acked := ?_, later := ?_, voted := ?_, commit_le := ?_, settled := ?_ }
  · exact fun w k m hc => h.acked w k m ⟨hc.ends, hc.quorum⟩
  · exact fun w k u hc => h.later w k u ⟨hc.ends, hc.quorum⟩
  · exact fun w k u q c l hc => h.voted w k u q c l ⟨hc.ends, hc.quorum⟩
  · intro m
    by_cases hmn : m = n
    · subst hmn
      simpa using hlen
    · simpa [hmn] using h.commit_le m
  · intro m
    have hg : Grows s { s with commit := update s.commit n k } := { Grows.refl s with }
    refine Settled.grow hg ?_
    by_cases hmn : m = n
    · subst hmn
      simpa using hset
    · simpa [hmn] using h.settled m

theorem Completeness.step (h : Completeness members s) (he : Election members s)
    (hm : Matching s) {n : N} (hs : Step members n s s') : Completeness members s' := by
  have hg := hs.grows he hm
  cases hs with
  | observe t hlt => exact h.demote n t hg
  | retire =>
    have := h.demote n (s.term n) (by simpa using hg)
    simpa using this
  | campaign => exact h.campaign he hm n
  | grant c l hfree hcand hfresh => exact h.grant he hm n c hfree hcand hfresh
  | elect Q hrole hmaj hvotes => exact h.elect he hm n hrole hmaj hvotes
  | propose d hrole => exact h.propose he hm n d hrole
  | extend T m hrole _ _ hpre => exact h.extend n hrole hpre
  | cut T k a b hrole hlead hterm ha hb hne => exact h.cut n hrole hlead hterm ha hb hne
  | confirm m hlen hpre => exact h.confirm he hm n hlen hpre
  | learn k hlen hset => exact h.learn n hlen hset

/-! ## The whole invariant -/

structure Safe (members : Finset N) (s : State N D) : Prop where
  election : Election members s
  matching : Matching s
  complete : Completeness members s

omit [DecidableEq N] in
theorem Safe.init (members : Finset N) : Safe members (State.init : State N D) :=
  ⟨.init members, .init, .init members⟩

theorem Safe.step (h : Safe members s) {n : N} (hs : Step members n s s') : Safe members s' :=
  ⟨h.election.step hs, h.matching.step h.election hs, h.complete.step h.election h.matching hs⟩

/-- Any number of steps keeps the invariant, and all that was known. -/
theorem Safe.steps (h : Safe members s) {n : N} (hs : Steps members n s s') :
    Safe members s' ∧ Grows s s' := by
  induction hs with
  | refl => exact ⟨h, .refl s⟩
  | tail _ hstep ih =>
    exact ⟨ih.1.step hstep, ih.2.trans (hstep.grows ih.1.election ih.1.matching)⟩

end steps

end raft
