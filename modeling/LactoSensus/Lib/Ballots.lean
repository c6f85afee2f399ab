-- Votes that are written down before they are told. A voter keeps the last term it
-- has seen and its vote in it; nothing older can be asked of it, and of later terms
-- it has told nobody. Whoever has the votes of a majority in a term is the only one.
import LactoSensus.Lib.Quorum

open quorum

namespace ballots

variable {N : Type}

/-- Whom each voter has voted for in each term. -/
abbrev Ballots (N : Type) := N → Nat → Option N

/-- One voter may have given votes, and nothing was taken back. -/
structure Adds (n : N) (b b' : Ballots N) : Prop where
  keeps : ∀ m t c, b m t = some c → b' m t = some c
  others : ∀ m t, m ≠ n → b' m t = b m t

/-- What a voter has on disk: its vote in the last term it has seen. It has voted in no later
one. -/
structure Filed (b : Ballots N) (n : N) (term : Nat) (vote : Option N) : Prop where
  vote : b n term = vote
  free : ∀ t, term < t → b n t = none

/-- A majority has voted for the node in the term. -/
def Elected (members : Finset N) (b : Ballots N) (t : Nat) (n : N) : Prop :=
  ∃ Q, Majority members Q ∧ ∀ q ∈ Q, b q t = some n

variable {b b₁ b' : Ballots N} {n m : N} {t t' : Nat} {vote : Option N}

theorem Adds.refl (n : N) (b : Ballots N) : Adds n b b := ⟨fun _ _ _ h => h, fun _ _ _ => rfl⟩

theorem Adds.trans (h : Adds n b b₁) (h' : Adds n b₁ b') : Adds n b b' where
  keeps m t c hc := h'.keeps m t c (h.keeps m t c hc)
  others m t hm := (h'.others m t hm).trans (h.others m t hm)

/-- Another voter has what it had. -/
theorem Filed.frame (h : Filed b m t vote) (ha : Adds n b b') (hne : m ≠ n) :
    Filed b' m t vote where
  vote := (ha.others m t hne).trans h.vote
  free u hu := (ha.others m u hne).trans (h.free u hu)

/-- A later term is seen. -/
theorem Filed.raise (h : Filed b n t vote) (hlt : t < t') : Filed b n t' none where
  vote := h.free t' hlt
  free u hu := h.free u (hlt.trans hu)

theorem Elected.keep {members : Finset N} (h : Elected members b t m) (ha : Adds n b b') :
    Elected members b' t m := by
  obtain ⟨Q, hQ, hvotes⟩ := h
  exact ⟨Q, hQ, fun q hq => ha.keeps q t m (hvotes q hq)⟩

variable [DecidableEq N]

/-- The ballots with one more vote. -/
def cast (b : Ballots N) (n : N) (t : Nat) (c : N) : Ballots N :=
  fun m u => if m = n ∧ u = t then some c else b m u

@[simp] theorem cast_self (b : Ballots N) (n : N) (t : Nat) (c : N) :
    cast b n t c n t = some c := by
  simp [cast]

theorem Filed.cast_adds (h : Filed b n t vote) {c : N} (hfree : vote = none ∨ vote = some c) :
    Adds n b (cast b n t c) := by
  refine ⟨fun m u x hx => ?_, fun m u hm => by simp [cast, hm]⟩
  unfold cast
  split
  · rename_i heq
    obtain ⟨rfl, rfl⟩ := heq
    rw [h.vote] at hx
    rcases hfree with hnone | hsame
    · rw [hnone] at hx
      cases hx
    · exact hsame.symm.trans hx
  · exact hx

theorem Filed.cast (h : Filed b n t vote) (c : N) : Filed (cast b n t c) n t (some c) where
  vote := cast_self b n t c
  free u hu := by
    unfold ballots.cast
    rw [if_neg (by omega)]
    exact h.free u hu

/-- Two majorities of one term have elected the same node. -/
theorem Elected.unique {members : Finset N} (h : Elected members b t n)
    (h' : Elected members b t m) : n = m := by
  obtain ⟨Q, hQ, hvotes⟩ := h
  obtain ⟨Q', hQ', hvotes'⟩ := h'
  obtain ⟨q, hq, hq'⟩ := hQ.meet hQ'
  exact Option.some.inj ((hvotes q hq).symm.trans (hvotes' q hq'))

end ballots
