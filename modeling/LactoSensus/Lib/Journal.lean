-- A durable value written in program order: each write keeps what stood there
-- before it, so that a crash inside a handler can find every value that was on
-- disk between two of its writes.

namespace journal

structure Journal (S : Type) where
  now : S
  /-- What was on disk before each write of the running handler, latest first. -/
  past : List S
deriving DecidableEq, Repr

variable {S : Type}

/-- No handler is running. -/
def Journal.settled (s : S) : Journal S := ⟨s, []⟩

def Journal.write (j : Journal S) (f : S → S) : Journal S := ⟨f j.now, j.now :: j.past⟩

/-- A list of writes, the first one first. -/
def Journal.writeAll (j : Journal S) (fs : List (S → S)) : Journal S := fs.foldl Journal.write j

/-- What a crash of the running handler may find on disk. -/
def Journal.crash_points (j : Journal S) : List S := j.now :: j.past

@[simp] theorem Journal.write_now (j : Journal S) (f : S → S) : (j.write f).now = f j.now := rfl

@[simp] theorem Journal.write_past (j : Journal S) (f : S → S) :
    (j.write f).past = j.now :: j.past := rfl

@[simp] theorem Journal.settled_now (s : S) : (Journal.settled s).now = s := rfl

@[simp] theorem Journal.settled_past (s : S) : (Journal.settled s).past = [] := rfl

@[simp] theorem Journal.writeAll_nil (j : Journal S) : j.writeAll [] = j := rfl

@[simp] theorem Journal.writeAll_cons (j : Journal S) (f : S → S) (fs : List (S → S)) :
    j.writeAll (f :: fs) = (j.write f).writeAll fs := rfl

theorem Journal.writeAll_now (j : Journal S) (fs : List (S → S)) :
    (j.writeAll fs).now = fs.foldl (fun s f => f s) j.now := by
  induction fs generalizing j with
  | nil => rfl
  | cons f fs ih =>
    rw [Journal.writeAll_cons, ih]
    rfl

/-- What stood on disk since `j₀` meets `P`. -/
structure Since (j₀ : Journal S) (P : S → Prop) (j : Journal S) : Prop where
  now : P j.now
  past : ∀ s ∈ j.past, s ∈ j₀.past ∨ P s

variable {j₀ j : Journal S} {P : S → Prop}

theorem Since.start (h : P j₀.now) : Since j₀ P j₀ := ⟨h, fun _ hs => .inl hs⟩

theorem Since.write {f : S → S} (h : Since j₀ P j) (hf : P (f j.now)) : Since j₀ P (j.write f) := by
  refine ⟨hf, fun s hs => ?_⟩
  rcases List.mem_cons.mp hs with rfl | hs
  · exact .inr h.now
  · exact h.past s hs

theorem Since.writeAll {fs : List (S → S)} (h : Since j₀ P j)
    (hfs : ∀ f ∈ fs, ∀ s, P s → P (f s)) : Since j₀ P (j.writeAll fs) := by
  induction fs generalizing j with
  | nil => exact h
  | cons f fs ih =>
    rw [Journal.writeAll_cons]
    refine ih (h.write (hfs f List.mem_cons_self _ h.now)) fun g hg => ?_
    exact hfs g (List.mem_cons_of_mem f hg)

theorem Since.trans {j₁ j₂ : Journal S} {Q : S → Prop} (h₁ : Since j₀ P j₁) (h₂ : Since j₁ Q j₂)
    (hQ : ∀ s, Q s → P s) : Since j₀ P j₂ := by
  refine ⟨hQ _ h₂.now, fun s hs => ?_⟩
  rcases h₂.past s hs with hold | hnew
  · exact h₁.past s hold
  · exact .inr (hQ s hnew)

theorem Since.crash_points (h : Since (.settled s) P j) {d : S} (hd : d ∈ j.crash_points) :
    P d := by
  rcases List.mem_cons.mp hd with rfl | hd
  · exact h.now
  · rcases h.past d hd with hnil | hp
    · cases hnil
    · exact hp

end journal
