-- What holds of an entry and of what stands before it when a leader writes it
-- holds of it in every log: the entries before it are the same everywhere.
import LactoSensus.Lib.Raft.Completeness

open Function

namespace raft

variable {N D : Type} {P : List (Entry D) → Entry D → Prop}

/-- Each entry of the list meets `P` together with the entries before it. -/
def Each (P : List (Entry D) → Entry D → Prop) (l : List (Entry D)) : Prop :=
  ∀ k e, l[k]? = some e → P (l.take k) e

theorem Each.nil : Each P [] := by
  intro k e he
  cases he

theorem Each.shorter {l l' : List (Entry D)} (hpre : l' <+: l) (h : Each P l) : Each P l' := by
  intro k e he
  have hk := (List.getElem?_eq_some_iff.mp he).1
  obtain ⟨r, rfl⟩ := hpre
  have heach := h k e (prefix_get (List.prefix_append l' r) he)
  rwa [List.take_append_of_le_length hk.le] at heach

theorem Each.snoc {l : List (Entry D)} {e : Entry D} (h : Each P l) (he : P l e) :
    Each P (l ++ [e]) := by
  intro k x hx
  rcases Nat.lt_trichotomy k l.length with hlt | rfl | hgt
  · rw [List.getElem?_append_left hlt] at hx
    rw [List.take_append_of_le_length hlt.le]
    exact h k x hx
  · rw [List.getElem?_concat_length] at hx
    obtain rfl := Option.some.inj hx
    rwa [List.take_left']
    rfl
  · have hlen := (List.getElem?_eq_some_iff.mp hx).1
    simp only [List.length_append, List.length_singleton] at hlen
    omega

theorem Each.imp {Q : List (Entry D) → Entry D → Prop} {l : List (Entry D)} (h : Each P l)
    (himp : ∀ k e, l[k]? = some e → P (l.take k) e → Q (l.take k) e) : Each Q l :=
  fun k e he => himp k e he (h k e he)

/-- The entries of every leader's log meet `P`. -/
def Written (P : List (Entry D) → Entry D → Prop) (s : State N D) : Prop :=
  ∀ t, Each P (s.glog t)

variable {s s' : State N D}

theorem Written.init : Written P (State.init : State N D) := fun _ => .nil

theorem Written.imp {Q : List (Entry D) → Entry D → Prop} (h : Written P s)
    (himp : ∀ t k e, (s.glog t)[k]? = some e → P ((s.glog t).take k) e → Q ((s.glog t).take k) e) :
    Written Q s :=
  fun t => (h t).imp (himp t)

theorem Written.traced (h : Written P s) {l : List (Entry D)} (hl : Traced s l) : Each P l := by
  intro k e he
  have hpre := hl k e he
  have hk := (List.getElem?_eq_some_iff.mp he).1
  have hlast : (l.take (k + 1))[k]? = some e := by
    rw [List.getElem?_take_of_lt (Nat.lt_succ_self k)]
    exact he
  have heach := (h e.term).shorter hpre k e hlast
  rwa [List.take_take, Nat.min_eq_left (Nat.le_succ k)] at heach

theorem Written.settled {members : Finset N} (h : Written P s) {t : Nat} {p : List (Entry D)}
    (hp : Settled members s t p) : Each P p := by
  rcases hp with rfl | ⟨u, k, -, -, hpre⟩
  · exact .nil
  · exact (h u).shorter (hpre.trans (List.take_prefix _ _))

/-- What a leader writes next is in no log at its place yet. -/
theorem own_entry_lt {members : Finset N} (he : Election members s) (hm : Matching s) {n : N}
    (hrole : s.role n = .leader) {t k : Nat} {e : Entry D} (hk : (s.glog t)[k]? = some e)
    (hterm : e.term = s.term n) : k < (s.log n).length := by
  have hpre := hm.glog_traced t k e hk
  rw [hterm, (he.role_leader n hrole).2] at hpre
  have hlen := (List.getElem?_eq_some_iff.mp hk).1
  have hle := hpre.length_le
  rw [List.length_take] at hle
  omega

section steps

variable [DecidableEq N] {members : Finset N} {n : N}

/-- A step that leaves the logs of the leaders alone: only a new leader brings a log, and
every log is made of what leaders have written. -/
theorem Written.keep (h : Written P s) (he : Election members s) (hm : Matching s)
    (hs : Step members n s s') (hglog : ∀ t, s.leader t ≠ none → s'.glog t = s.glog t) :
    Written P s' := by
  cases hs with
  | elect Q hrole hmaj hvotes =>
    intro t
    by_cases ht : t = s.term n
    · subst ht
      simp only [update_self]
      exact h.traced (hm.log_traced n)
    · simp only [update_of_ne ht]
      exact h t
  | propose d hrole =>
    intro t
    by_cases ht : t = s.term n
    · subst ht
      rw [hglog _ (by rw [(he.role_leader n hrole).1]; simp)]
      exact h _
    · simp only [update_of_ne ht]
      exact h t
  | _ => exact h

/-- A leader that writes an entry which meets `P` with its log. -/
theorem Written.write (h : Written P s) (hm : Matching s) {d : D}
    (hd : P (s.log n) ⟨s.term n, d⟩) :
    Written P { s with
      log := update s.log n (s.log n ++ [⟨s.term n, d⟩])
      glog := update s.glog (s.term n) (s.log n ++ [⟨s.term n, d⟩])
      ack := update₂ s.ack n (s.term n) ((s.log n).length + 1) } := by
  intro t
  by_cases ht : t = s.term n
  · subst ht
    simp only [update_self]
    exact (h.traced (hm.log_traced n)).snoc hd
  · simp only [update_of_ne ht]
    exact h t

end steps

end raft
