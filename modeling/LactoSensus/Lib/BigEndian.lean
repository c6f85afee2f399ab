-- Numbers of a fixed width, the most significant digit first. Written so, they are
-- in the same order as lists as they are as numbers, so a tree that compares keys
-- digit by digit walks them by size.
import Mathlib.Data.List.Lex
import Mathlib.Data.Fin.Basic
import Mathlib.Order.Fin.Basic
import Mathlib.Tactic.Ring
import Mathlib.Tactic.Linarith

namespace bigendian

variable {b : ℕ} [NeZero b]

/-- The last `w` digits of a number. -/
def digits (b : ℕ) [NeZero b] : ℕ → ℕ → List (Fin b)
  | 0, _ => []
  | w + 1, n => Fin.ofNat b (n / b ^ w) :: digits b w n

def value : List (Fin b) → ℕ
  | [] => 0
  | d :: ds => d * b ^ ds.length + value ds

omit [NeZero b] in
@[simp] theorem value_nil : value ([] : List (Fin b)) = 0 := rfl

omit [NeZero b] in
@[simp] theorem value_cons (d : Fin b) (ds : List (Fin b)) :
    value (d :: ds) = d * b ^ ds.length + value ds := rfl

@[simp] theorem length_digits (w n : ℕ) : (digits b w n).length = w := by
  induction w with
  | zero => rfl
  | succ w ih => simp [digits, ih]

omit [NeZero b] in
theorem value_lt (ds : List (Fin b)) : value ds < b ^ ds.length := by
  induction ds with
  | nil => simp
  | cons d ds ih =>
    have hd : (d + 1) * b ^ ds.length ≤ b * b ^ ds.length := Nat.mul_le_mul_right _ d.isLt
    rw [value_cons, List.length_cons, pow_succ']
    linarith

theorem value_digits_mod (w n : ℕ) : value (digits b w n) = n % b ^ w := by
  induction w with
  | zero => simp [digits, Nat.mod_one]
  | succ w ih =>
    rw [digits, value_cons, length_digits, ih, Fin.val_ofNat, pow_succ, Nat.mod_mul,
      Nat.add_comm, Nat.mul_comm]

/-- A number that fits is read as it was written. -/
theorem value_digits {w n : ℕ} (hn : n < b ^ w) : value (digits b w n) = n := by
  rw [value_digits_mod, Nat.mod_eq_of_lt hn]

omit [NeZero b] in
/-- Of two numbers of one width the smaller one is the earlier list. -/
theorem value_lt_value {ds es : List (Fin b)} (hlen : ds.length = es.length) :
    value ds < value es ↔ ds < es := by
  induction ds generalizing es with
  | nil =>
    obtain rfl := List.eq_nil_of_length_eq_zero hlen.symm
    simp
  | cons d ds ih =>
    cases es with
    | nil => cases hlen
    | cons e es =>
      have hlen' : ds.length = es.length := Nat.succ.inj hlen
      have hds := value_lt ds
      have hes := value_lt es
      rw [value_cons, value_cons, List.cons_lt_cons_iff, ← ih hlen']
      rw [hlen'] at hds ⊢
      rcases lt_trichotomy d e with hlt | rfl | hgt
      · have hstep : (d + 1) * b ^ es.length ≤ e * b ^ es.length := Nat.mul_le_mul_right _ hlt
        simp only [hlt, true_or, iff_true]
        linarith
      · simp
      · have hstep : (e + 1) * b ^ es.length ≤ d * b ^ es.length := Nat.mul_le_mul_right _ hgt
        simp only [hgt.not_gt, hgt.ne', false_and, or_false, iff_false, not_lt]
        linarith

/-- Numbers that fit keep their order. -/
theorem digits_strictMonoOn (w : ℕ) : StrictMonoOn (digits b w) (Set.Iio (b ^ w)) := by
  intro n hn m hm hlt
  rw [← value_lt_value (by simp), value_digits hn, value_digits hm]
  exact hlt

/-! ## Bytes -/

abbrev Bytes := List (Fin 256)

/-- The 64-bit numbers. -/
abbrev u64 : Set ℕ := Set.Iio (256 ^ 8)

def to_be_bytes (n : ℕ) : Bytes := @digits 256 ⟨Nat.succ_ne_zero 255⟩ 8 n

theorem to_be_bytes_mono : StrictMonoOn to_be_bytes u64 := digits_strictMonoOn 8

@[simp] theorem length_to_be_bytes (n : ℕ) : (to_be_bytes n).length = 8 := length_digits 8 n

theorem value_to_be_bytes {n : ℕ} (hn : n ∈ u64) : value (to_be_bytes n) = n := value_digits hn

end bigendian
