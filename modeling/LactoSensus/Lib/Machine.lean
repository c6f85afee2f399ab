-- Runs of a machine whose steps are labelled by actions: what one step keeps,
-- every run keeps. A run can be asked to take only steps that meet a condition
-- on the state before the step.
import Mathlib.Order.Defs.PartialOrder

namespace machine

variable {S A : Type}

/-- A run from one state to another, every step of which meets `P`. -/
inductive Run (step : S → A → Option S) (P : S → A → Prop) : S → S → Prop where
  | refl (s : S) : Run step P s s
  | tail {s₁ s₂ s₃ : S} {a : A} (h : Run step P s₁ s₂) (hp : P s₂ a)
      (hs : step s₂ a = some s₃) : Run step P s₁ s₃

/-- Run a list of actions. -/
def exec (step : S → A → Option S) : S → List A → Option S
  | s, [] => some s
  | s, a :: as => (step s a).bind fun s' => exec step s' as

variable {step : S → A → Option S} {P Q : S → A → Prop}

theorem Run.trans {s₁ s₂ s₃ : S} (h₁ : Run step P s₁ s₂) (h₂ : Run step P s₂ s₃) :
    Run step P s₁ s₃ := by
  induction h₂ with
  | refl => exact h₁
  | tail _ hp hs ih => exact .tail ih hp hs

theorem Run.head {s₁ s₂ s₃ : S} {a : A} (hp : P s₁ a) (hs : step s₁ a = some s₂)
    (h : Run step P s₂ s₃) : Run step P s₁ s₃ :=
  (Run.tail (.refl s₁) hp hs).trans h

theorem Run.weaken (hPQ : ∀ s a, P s a → Q s a) {s₁ s₂ : S} (h : Run step P s₁ s₂) :
    Run step Q s₁ s₂ := by
  induction h with
  | refl => exact .refl _
  | tail _ hp hs ih => exact .tail ih (hPQ _ _ hp) hs

/-- What every step keeps, every run keeps. -/
theorem Run.invariant {I : S → Prop}
    (hstep : ∀ s a s', I s → P s a → step s a = some s' → I s') {s₁ s₂ : S}
    (h : Run step P s₁ s₂) (h₁ : I s₁) : I s₂ := by
  induction h with
  | refl => exact h₁
  | tail _ hp hs ih => exact hstep _ _ _ ih hp hs

/-- A property holds to the end of a run, or there is the step in which it is lost. -/
theorem Run.loses {I : S → Prop} {s₁ s₂ : S} (h : Run step P s₁ s₂) (h₁ : I s₁) :
    I s₂ ∨ ∃ s a s', Run step P s₁ s ∧ I s ∧ P s a ∧ step s a = some s' ∧ ¬I s' ∧
      Run step P s' s₂ := by
  induction h with
  | refl => exact .inl h₁
  | @tail s₂ s₃ a hrun hp hs ih =>
    rcases ih with hkept | ⟨s, b, s', hbefore, hi, hb, hlost, hno, hafter⟩
    · by_cases hnext : I s₃
      · exact .inl hnext
      · exact .inr ⟨s₂, a, s₃, hrun, hkept, hp, hs, hnext, .refl s₃⟩
    · exact .inr ⟨s, b, s', hbefore, hi, hb, hlost, hno, .tail hafter hp hs⟩

/-- A run of the machine is followed by any number of steps of a second one. -/
theorem Run.simulates {T : Type} {R : S → T → Prop} {To : T → T → Prop}
    (hrefl : ∀ t, To t t) (htrans : ∀ {t₁ t₂ t₃}, To t₁ t₂ → To t₂ t₃ → To t₁ t₃)
    (hstep : ∀ s a s' t, R s t → P s a → step s a = some s' → ∃ t', To t t' ∧ R s' t')
    {s₁ s₂ : S} (h : Run step P s₁ s₂) {t₁ : T} (h₁ : R s₁ t₁) :
    ∃ t₂, To t₁ t₂ ∧ R s₂ t₂ := by
  induction h with
  | refl => exact ⟨t₁, hrefl t₁, h₁⟩
  | tail _ hp hs ih =>
    obtain ⟨t₂, ht₂, hr₂⟩ := ih
    obtain ⟨t₃, ht₃, hr₃⟩ := hstep _ _ _ _ hr₂ hp hs
    exact ⟨t₃, htrans ht₂ ht₃, hr₃⟩

/-- What a list of actions reaches is reached by a run. -/
theorem run_of_exec {s₁ s₂ : S} (as : List A)
    (hP : ∀ s, ∀ a ∈ as, P s a) (h : exec step s₁ as = some s₂) : Run step P s₁ s₂ := by
  induction as generalizing s₁ with
  | nil =>
    simp only [exec, Option.some.injEq] at h
    subst h
    exact .refl s₁
  | cons a as ih =>
    obtain ⟨s', hs', hrest⟩ := Option.bind_eq_some_iff.mp h
    have hrest' := ih (fun s a ha => hP s a (List.mem_cons_of_mem _ ha)) hrest
    exact .head (hP _ a List.mem_cons_self) hs' hrest'

theorem exec_append (s : S) (as bs : List A) :
    exec step s (as ++ bs) = (exec step s as).bind fun s' => exec step s' bs := by
  induction as generalizing s with
  | nil => rfl
  | cons a as ih =>
    simp only [List.cons_append, exec, Option.bind_assoc]
    congr 1
    funext s'
    exact ih s'

/-- A list of actions each of which meets the condition where it is taken. -/
theorem run_of_prefixes {s₁ s₂ : S} (as : List A)
    (hP : ∀ k a s, as[k]? = some a → exec step s₁ (as.take k) = some s → P s a)
    (h : exec step s₁ as = some s₂) : Run step P s₁ s₂ := by
  induction as generalizing s₁ with
  | nil =>
    simp only [exec, Option.some.injEq] at h
    subst h
    exact .refl s₁
  | cons a as ih =>
    obtain ⟨s', hs', hrest⟩ := Option.bind_eq_some_iff.mp h
    refine .head (hP 0 a s₁ rfl rfl) hs' (ih (fun k b s hb hs => hP (k + 1) b s hb ?_) hrest)
    simp only [List.take_succ_cons, exec, hs', Option.bind_some]
    exact hs

/-- As before, for a list that can be run to its end. -/
theorem run_of_takes {s₁ : S} (as : List A)
    (hP : ∀ k a, as[k]? = some a → P ((exec step s₁ (as.take k)).getD s₁) a)
    (h : (exec step s₁ as).isSome = true) : Run step P s₁ ((exec step s₁ as).getD s₁) := by
  obtain ⟨s₂, hs₂⟩ := Option.isSome_iff_exists.mp h
  rw [hs₂, Option.getD_some]
  refine run_of_prefixes as (fun k a s ha hs => ?_) hs₂
  have hreached := hP k a ha
  rw [hs, Option.getD_some] at hreached
  exact hreached

/-! ## Machines given by a relation -/

/-- A run of a machine that is given by a relation, every step of which meets `P`. -/
inductive Trail (moves : S → A → S → Prop) (P : S → A → Prop) : S → S → Prop where
  | refl (s : S) : Trail moves P s s
  | tail {s₁ s₂ s₃ : S} {a : A} (h : Trail moves P s₁ s₂) (hp : P s₂ a) (hs : moves s₂ a s₃) :
      Trail moves P s₁ s₃

theorem Trail.invariant {moves : S → A → S → Prop} {I : S → Prop}
    (hstep : ∀ s a s', I s → P s a → moves s a s' → I s') {s₁ s₂ : S}
    (h : Trail moves P s₁ s₂) (h₁ : I s₁) : I s₂ := by
  induction h with
  | refl => exact h₁
  | tail _ hp hs ih => exact hstep _ _ _ ih hp hs

end machine
