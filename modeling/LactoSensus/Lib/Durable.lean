-- A store whose calls write to a disk and may be cut short by a crash between any two
-- writes. One store refines another if every call answers alike and leaves behind, at
-- every write, something that the other store could have left.
import LactoSensus.Lib.Journal

namespace durable

open journal

variable {S T Op R : Type}

theorem writeAll_append (j : Journal S) (fs gs : List (S → S)) :
    j.writeAll (fs ++ gs) = (j.writeAll fs).writeAll gs := List.foldl_append

/-- Two journals of which the second one shows all that the first one has shown. -/
structure Mirrored (H : S → T → Prop) (j : Journal S) (j' : Journal T) : Prop where
  now : H j.now j'.now
  past : ∀ s ∈ j.past, ∃ t ∈ j'.past, H s t

variable {H : S → T → Prop} {j : Journal S} {j' : Journal T}

theorem Mirrored.settled {s : S} {t : T} (h : H s t) : Mirrored H (.settled s) (.settled t) :=
  ⟨h, nofun⟩

theorem Mirrored.write (h : Mirrored H j j') {f : S → S} {g : T → T}
    (hfg : H (f j.now) (g j'.now)) : Mirrored H (j.write f) (j'.write g) := by
  refine ⟨hfg, fun s hs => ?_⟩
  rcases List.mem_cons.mp hs with rfl | hs
  · exact ⟨j'.now, List.mem_cons_self, h.now⟩
  · obtain ⟨t, ht, hst⟩ := h.past s hs
    exact ⟨t, List.mem_cons_of_mem _ ht, hst⟩

/-- A write that changes nothing may be left out. -/
theorem Mirrored.skip (h : Mirrored H j j') {g : T → T} (hg : g j'.now = j'.now) :
    Mirrored H j (j'.write g) := by
  refine ⟨?_, fun s hs => ?_⟩
  · rw [Journal.write_now, hg]
    exact h.now
  · obtain ⟨t, ht, hst⟩ := h.past s hs
    exact ⟨t, List.mem_cons_of_mem _ ht, hst⟩

theorem Mirrored.writeAll {X : Type} {f : X → S → S} {g : X → T → T} {xs : List X}
    (hfg : ∀ x ∈ xs, ∀ s t, H s t → H (f x s) (g x t)) (h : Mirrored H j j') :
    Mirrored H (j.writeAll (xs.map f)) (j'.writeAll (xs.map g)) := by
  induction xs generalizing j j' with
  | nil => exact h
  | cons x xs ih =>
    refine ih (fun y hy => hfg y (List.mem_cons_of_mem _ hy)) (h.write ?_)
    exact hfg x List.mem_cons_self _ _ h.now

theorem Mirrored.crash_points (h : Mirrored H j j') {s : S} (hs : s ∈ j.crash_points) :
    ∃ t ∈ j'.crash_points, H s t := by
  rcases List.mem_cons.mp hs with rfl | hs
  · exact ⟨j'.now, List.mem_cons_self, h.now⟩
  · obtain ⟨t, ht, hst⟩ := h.past s hs
    exact ⟨t, List.mem_cons_of_mem _ ht, hst⟩

/-! ## Stores -/

/-- What a call writes and answers, and what a start writes. -/
structure Store (S Op R : Type) where
  call : Op → S → Journal S × R
  reopen : S → Journal S

inductive Life (S : Type) where
  | Up (s : S)
  | Down (disk : S)

inductive Event (Op R : Type) where
  | Answered (op : Op) (res : R)
  | CrashedIn (op : Op)
  | Opened
  | CrashedOpening

/-- The events of a store over its life, and what comes of it. -/
inductive Trace (st : Store S Op R) : Life S → List (Event Op R) → Life S → Prop where
  | nil (x : Life S) : Trace st x [] x
  | answered {s : S} {op : Op} {evs : List (Event Op R)} {x : Life S}
      (h : Trace st (.Up (st.call op s).1.now) evs x) :
      Trace st (.Up s) (.Answered op (st.call op s).2 :: evs) x
  | crashedIn {s d : S} {op : Op} {evs : List (Event Op R)} {x : Life S}
      (hd : d ∈ (st.call op s).1.crash_points) (h : Trace st (.Down d) evs x) :
      Trace st (.Up s) (.CrashedIn op :: evs) x
  | opened {d : S} {evs : List (Event Op R)} {x : Life S}
      (h : Trace st (.Up (st.reopen d).now) evs x) : Trace st (.Down d) (.Opened :: evs) x
  | crashedOpening {d d' : S} {evs : List (Event Op R)} {x : Life S}
      (hd : d' ∈ (st.reopen d).crash_points) (h : Trace st (.Down d') evs x) :
      Trace st (.Down d) (.CrashedOpening :: evs) x

/-- The calls that are made are ones that may be made. -/
def Event.Meets (P : Op → Prop) : Event Op R → Prop
  | .Answered op _ => P op
  | .CrashedIn op => P op
  | .Opened => True
  | .CrashedOpening => True

/-- The first store does what the second one does, as long as its calls meet `P`. -/
structure Refines (st : Store S Op R) (st' : Store T Op R) (H : S → T → Prop) (P : Op → Prop) :
    Prop where
  answer : ∀ op s t, P op → H s t → (st.call op s).2 = (st'.call op t).2
  call : ∀ op s t, P op → H s t → Mirrored H (st.call op s).1 (st'.call op t).1
  reopen : ∀ s t, H s t → Mirrored H (st.reopen s) (st'.reopen t)

inductive Agree (H : S → T → Prop) : Life S → Life T → Prop where
  | up {s : S} {t : T} (h : H s t) : Agree H (.Up s) (.Up t)
  | down {s : S} {t : T} (h : H s t) : Agree H (.Down s) (.Down t)

/-- Whatever the one store shows over its life, the other one may show. -/
theorem Refines.trace {st : Store S Op R} {st' : Store T Op R} {P : Op → Prop}
    (href : Refines st st' H P) {x x' : Life S} {evs : List (Event Op R)}
    (htrace : Trace st x evs x') {y : Life T} (hxy : Agree H x y)
    (hevs : ∀ ev ∈ evs, ev.Meets P) : ∃ y', Trace st' y evs y' ∧ Agree H x' y' := by
  induction htrace generalizing y with
  | nil x => exact ⟨y, .nil y, hxy⟩
  | @answered s op evs x h ih =>
    cases hxy with
    | @up _ t hst =>
      have hop : P op := hevs _ List.mem_cons_self
      have hnow := (href.call op s t hop hst).now
      obtain ⟨y', hy', hagree⟩ := ih (.up hnow) fun ev hev => hevs ev (List.mem_cons_of_mem _ hev)
      refine ⟨y', ?_, hagree⟩
      rw [href.answer op s t hop hst]
      exact .answered hy'
  | @crashedIn s d op evs x hd h ih =>
    cases hxy with
    | @up _ t hst =>
      have hop : P op := hevs _ List.mem_cons_self
      obtain ⟨d', hd', hdd⟩ := (href.call op s t hop hst).crash_points hd
      obtain ⟨y', hy', hagree⟩ := ih (.down hdd) fun ev hev => hevs ev (List.mem_cons_of_mem _ hev)
      exact ⟨y', .crashedIn hd' hy', hagree⟩
  | @opened d evs x h ih =>
    cases hxy with
    | @down _ t hst =>
      have hnow := (href.reopen d t hst).now
      obtain ⟨y', hy', hagree⟩ := ih (.up hnow) fun ev hev => hevs ev (List.mem_cons_of_mem _ hev)
      exact ⟨y', .opened hy', hagree⟩
  | @crashedOpening d d₁ evs x hd h ih =>
    cases hxy with
    | @down _ t hst =>
      obtain ⟨d', hd', hdd⟩ := (href.reopen d t hst).crash_points hd
      obtain ⟨y', hy', hagree⟩ := ih (.down hdd) fun ev hev => hevs ev (List.mem_cons_of_mem _ hev)
      exact ⟨y', .crashedOpening hd' hy', hagree⟩

end durable
