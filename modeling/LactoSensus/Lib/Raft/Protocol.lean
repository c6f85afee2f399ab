-- The protocol in its own terms: who voted for whom, who led each term with
-- which log, who acknowledged how much of it. Nothing here speaks of messages
-- or of a disk; a program refines it when each of its steps is one of these.
import Mathlib.Logic.Function.Basic
import LactoSensus.Lib.Quorum

open Function
open quorum

namespace raft

variable {N D : Type}

inductive Role where
  | follower
  | candidate
  | leader
deriving DecidableEq, Repr

structure Entry (D : Type) where
  term : Nat
  data : D
deriving DecidableEq, Repr

/-- What the nodes hold now, and the histories the proofs speak about. -/
structure State (N D : Type) where
  term : N → Nat
  role : N → Role
  log : N → List (Entry D)
  commit : N → Nat
  /-- Whom a node voted for in a term. -/
  voted : N → Nat → Option N
  /-- The log a node started its campaign of a term with. -/
  cand : N → Nat → Option (List (Entry D))
  leader : Nat → Option N
  /-- The voters whose votes made the leader of a term. -/
  electors : Nat → Finset N
  /-- The log of the leader of a term, as long as it ever was in that term. -/
  glog : Nat → List (Entry D)
  /-- How much of the log of a term's leader a node acknowledged in that term. -/
  ack : N → Nat → Nat

def State.init : State N D where
  term := fun _ => 0
  role := fun _ => .follower
  log := fun _ => []
  commit := fun _ => 0
  voted := fun _ _ => none
  cand := fun _ _ => none
  leader := fun _ => none
  electors := fun _ => ∅
  glog := fun _ => []
  ack := fun _ _ => 0

section steps

variable [DecidableEq N]

def update₂ {X : Type} (f : N → Nat → X) (n : N) (t : Nat) (x : X) : N → Nat → X :=
  fun m u => if m = n ∧ u = t then x else f m u

@[simp] theorem update₂_same {X : Type} (f : N → Nat → X) (n : N) (t : Nat) (x : X) :
    update₂ f n t x n t = x := by
  simp [update₂]

theorem update₂_of_ne {X : Type} (f : N → Nat → X) (n : N) (t : Nat) (x : X) {m : N} {u : Nat}
    (h : ¬(m = n ∧ u = t)) : update₂ f n t x m u = f m u := by
  simp [update₂, h]

def lastTerm (l : List (Entry D)) : Nat := (l.getLast?.map Entry.term).getD 0

/-- The log of a candidate is at least as fresh as the log of a voter. -/
def UpToDate (candidate voter : List (Entry D)) : Prop :=
  lastTerm voter < lastTerm candidate ∨
    lastTerm voter = lastTerm candidate ∧ voter.length ≤ candidate.length

theorem prefix_get {X : Type} {l₁ l₂ : List X} (h : l₁ <+: l₂) {i : Nat} {x : X}
    (hx : l₁[i]? = some x) : l₂[i]? = some x := by
  obtain ⟨r, rfl⟩ := h
  obtain ⟨hlt, rfl⟩ := List.getElem?_eq_some_iff.mp hx
  rw [List.getElem?_append_left hlt, List.getElem?_eq_getElem hlt]

/-- The first `k` entries of the leader of `t` end with an entry of `t`. -/
def EndsIn (s : State N D) (t k : Nat) : Prop :=
  ∃ e, 0 < k ∧ (s.glog t)[k - 1]? = some e ∧ e.term = t

/-- A majority acknowledged `k` entries in term `t`, the last of them of `t`. -/
structure Committed (members : Finset N) (s : State N D) (t k : Nat) : Prop where
  ends : EndsIn s t k
  quorum : ∃ Q, Majority members Q ∧ ∀ q ∈ Q, k ≤ s.ack q t

/-- The entries `p` are committed, and a term up to `t` committed them. -/
def Settled (members : Finset N) (s : State N D) (t : Nat) (p : List (Entry D)) : Prop :=
  p = [] ∨ ∃ u k, u ≤ t ∧ Committed members s u k ∧ p <+: (s.glog u).take k

/-- One step of the node `n`. -/
inductive Step (members : Finset N) (n : N) : State N D → State N D → Prop where
  | observe (s : State N D) (t : Nat) (hlt : s.term n < t) :
      Step members n s
        { s with term := update s.term n t, role := update s.role n .follower }
  | retire (s : State N D) :
      Step members n s { s with role := update s.role n .follower }
  | campaign (s : State N D) :
      Step members n s
        { s with
          term := update s.term n (s.term n + 1)
          role := update s.role n .candidate
          voted := update₂ s.voted n (s.term n + 1) (some n)
          cand := update₂ s.cand n (s.term n + 1) (some (s.log n)) }
  | grant (s : State N D) (c : N) (l : List (Entry D))
      (hfree : s.voted n (s.term n) = none ∨ s.voted n (s.term n) = some c)
      (hcand : s.cand c (s.term n) = some l)
      (hfresh : s.leader (s.term n) = none → UpToDate l (s.log n)) :
      Step members n s { s with voted := update₂ s.voted n (s.term n) (some c) }
  | elect (s : State N D) (Q : Finset N) (hrole : s.role n = .candidate)
      (hmaj : Majority members Q) (hvotes : ∀ q ∈ Q, s.voted q (s.term n) = some n) :
      Step members n s
        { s with
          role := update s.role n .leader
          leader := update s.leader (s.term n) (some n)
          electors := update s.electors (s.term n) Q
          glog := update s.glog (s.term n) (s.log n)
          ack := update₂ s.ack n (s.term n) (s.log n).length }
  | propose (s : State N D) (d : D) (hrole : s.role n = .leader) :
      Step members n s
        { s with
          log := update s.log n (s.log n ++ [⟨s.term n, d⟩])
          glog := update s.glog (s.term n) (s.log n ++ [⟨s.term n, d⟩])
          ack := update₂ s.ack n (s.term n) ((s.log n).length + 1) }
  | extend (s : State N D) (T m : Nat) (hrole : s.role n = .follower)
      (hlead : s.leader T ≠ none) (hterm : s.term n ≤ T)
      (hpre : s.log n <+: (s.glog T).take m) :
      Step members n s { s with log := update s.log n ((s.glog T).take m) }
  | cut (s : State N D) (T k : Nat) (a b : Entry D) (hrole : s.role n = .follower)
      (hlead : s.leader T ≠ none) (hterm : s.term n ≤ T)
      (ha : (s.log n)[k]? = some a) (hb : (s.glog T)[k]? = some b) (hne : a ≠ b) :
      Step members n s { s with log := update s.log n ((s.log n).take k) }
  | confirm (s : State N D) (m : Nat) (hlen : m ≤ (s.glog (s.term n)).length)
      (hpre : (s.glog (s.term n)).take m <+: s.log n) :
      Step members n s
        { s with ack := update₂ s.ack n (s.term n) (max (s.ack n (s.term n)) m) }
  | learn (s : State N D) (k : Nat) (hlen : k ≤ (s.log n).length)
      (hset : Settled members s (s.term n) ((s.log n).take k)) :
      Step members n s { s with commit := update s.commit n k }

/-- Any number of steps of the node `n`. -/
inductive Steps (members : Finset N) (n : N) : State N D → State N D → Prop where
  | refl (s : State N D) : Steps members n s s
  | tail {s₁ s₂ s₃ : State N D} (h : Steps members n s₁ s₂) (hs : Step members n s₂ s₃) :
      Steps members n s₁ s₃

theorem Steps.single {members : Finset N} {n : N} {s s' : State N D}
    (h : Step members n s s') : Steps members n s s' :=
  .tail (.refl s) h

theorem Steps.trans {members : Finset N} {n : N} {s₁ s₂ s₃ : State N D}
    (h₁ : Steps members n s₁ s₂) (h₂ : Steps members n s₂ s₃) : Steps members n s₁ s₃ := by
  induction h₂ with
  | refl => exact h₁
  | tail _ hs ih => exact .tail ih hs

end steps

/-! ## Histories only grow -/

/-- What one state knows, the other one still knows. -/
structure Grows (s s' : State N D) : Prop where
  term_le : ∀ n, s.term n ≤ s'.term n
  voted_keep : ∀ n t c, s.voted n t = some c → s'.voted n t = some c
  cand_keep : ∀ n t l, s.cand n t = some l → s'.cand n t = some l
  leader_keep : ∀ t n, s.leader t = some n → s'.leader t = some n
  electors_keep : ∀ t n, s.leader t = some n → s'.electors t = s.electors t
  glog_grow : ∀ t, s.glog t <+: s'.glog t
  ack_le : ∀ n t, s.ack n t ≤ s'.ack n t

theorem Grows.refl (s : State N D) : Grows s s :=
  ⟨fun _ => le_rfl, fun _ _ _ h => h, fun _ _ _ h => h, fun _ _ h => h, fun _ _ _ => rfl,
    fun _ => List.prefix_rfl, fun _ _ => le_rfl⟩

theorem Grows.trans {s₁ s₂ s₃ : State N D} (h₁ : Grows s₁ s₂) (h₂ : Grows s₂ s₃) :
    Grows s₁ s₃ where
  term_le n := (h₁.term_le n).trans (h₂.term_le n)
  voted_keep n t c h := h₂.voted_keep n t c (h₁.voted_keep n t c h)
  cand_keep n t l h := h₂.cand_keep n t l (h₁.cand_keep n t l h)
  leader_keep t n h := h₂.leader_keep t n (h₁.leader_keep t n h)
  electors_keep t n h := by
    rw [h₂.electors_keep t n (h₁.leader_keep t n h), h₁.electors_keep t n h]
  glog_grow t := (h₁.glog_grow t).trans (h₂.glog_grow t)
  ack_le n t := (h₁.ack_le n t).trans (h₂.ack_le n t)

theorem EndsIn.grow {s s' : State N D} (h : Grows s s') {t k : Nat} (he : EndsIn s t k) :
    EndsIn s' t k := by
  obtain ⟨e, hk, hget, hterm⟩ := he
  exact ⟨e, hk, prefix_get (h.glog_grow t) hget, hterm⟩

theorem EndsIn.le_length {s : State N D} {t k : Nat} (he : EndsIn s t k) :
    k ≤ (s.glog t).length := by
  obtain ⟨e, hk, hget, -⟩ := he
  obtain ⟨hlt, -⟩ := List.getElem?_eq_some_iff.mp hget
  omega

theorem Committed.grow {members : Finset N} {s s' : State N D} (h : Grows s s') {t k : Nat}
    (hc : Committed members s t k) : Committed members s' t k := by
  obtain ⟨he, Q, hQ, hack⟩ := hc
  exact ⟨he.grow h, Q, hQ, fun q hq => (hack q hq).trans (h.ack_le q t)⟩

/-- Growth does not change the entries that were there. -/
theorem Grows.take_eq {s s' : State N D} (h : Grows s s') {t k : Nat}
    (hk : k ≤ (s.glog t).length) : (s'.glog t).take k = (s.glog t).take k := by
  obtain ⟨r, hr⟩ := h.glog_grow t
  rw [← hr, List.take_append_of_le_length hk]

theorem Settled.grow {members : Finset N} {s s' : State N D} (h : Grows s s') {t : Nat}
    {p : List (Entry D)} (hp : Settled members s t p) : Settled members s' t p := by
  rcases hp with rfl | ⟨u, k, hu, hc, hpre⟩
  · exact .inl rfl
  · refine .inr ⟨u, k, hu, hc.grow h, ?_⟩
    rwa [h.take_eq hc.ends.le_length]

theorem Settled.mono {members : Finset N} {s : State N D} {t t' : Nat} (hle : t ≤ t')
    {p : List (Entry D)} (hp : Settled members s t p) : Settled members s t' p := by
  rcases hp with rfl | ⟨u, k, hu, hc, hpre⟩
  · exact .inl rfl
  · exact .inr ⟨u, k, hu.trans hle, hc, hpre⟩

theorem Settled.shorter {members : Finset N} {s : State N D} {t : Nat}
    {p q : List (Entry D)} (hpq : p <+: q) (hq : Settled members s t q) :
    Settled members s t p := by
  rcases hq with rfl | ⟨u, k, hu, hc, hpre⟩
  · exact .inl (List.prefix_nil.mp hpq)
  · exact .inr ⟨u, k, hu, hc, hpq.trans hpre⟩

section frames

variable [DecidableEq N]

/-- A step of one node leaves what the other nodes hold as it is. -/
structure Frame (n : N) (s s' : State N D) : Prop where
  term_eq : ∀ m, m ≠ n → s'.term m = s.term m
  role_eq : ∀ m, m ≠ n → s'.role m = s.role m
  log_eq : ∀ m, m ≠ n → s'.log m = s.log m
  commit_eq : ∀ m, m ≠ n → s'.commit m = s.commit m
  voted_eq : ∀ m t, m ≠ n → s'.voted m t = s.voted m t

theorem Step.frame {members : Finset N} {n : N} {s s' : State N D}
    (h : Step members n s s') : Frame n s s' := by
  cases h <;> constructor <;> intros <;> simp_all [update₂]

theorem Steps.frame {members : Finset N} {n : N} {s s' : State N D}
    (h : Steps members n s s') : Frame n s s' := by
  induction h with
  | refl => exact ⟨fun _ _ => rfl, fun _ _ => rfl, fun _ _ => rfl, fun _ _ => rfl,
      fun _ _ _ => rfl⟩
  | tail _ hs ih =>
    have hf := hs.frame
    exact
      ⟨fun m hm => (hf.term_eq m hm).trans (ih.term_eq m hm),
        fun m hm => (hf.role_eq m hm).trans (ih.role_eq m hm),
        fun m hm => (hf.log_eq m hm).trans (ih.log_eq m hm),
        fun m hm => (hf.commit_eq m hm).trans (ih.commit_eq m hm),
        fun m t hm => (hf.voted_eq m t hm).trans (ih.voted_eq m t hm)⟩

end frames

end raft
