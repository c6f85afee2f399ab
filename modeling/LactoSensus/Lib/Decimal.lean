-- Decimal numbers of any size: a mantissa and its number of places. Their
-- arithmetic, the rounding to the nearest number of so many places with ties to
-- the even one, and their text, from which the same number is read again.
import Mathlib.Algebra.Order.Field.Basic
import Mathlib.Algebra.Order.Ring.Abs
import Mathlib.Data.Rat.Cast.Order
import Mathlib.Tactic.FieldSimp
import Mathlib.Tactic.GCongr
import Mathlib.Tactic.Linarith
import Mathlib.Tactic.LinearCombination
import Mathlib.Tactic.NormNum
import Mathlib.Tactic.Positivity
import Mathlib.Tactic.Ring

namespace decimal

/-! ## Rounding -/

/-- The integer is a nearest one, and the even one of two. -/
structure RoundsTo (n : ℤ) (x : ℚ) : Prop where
  within : |x - n| ≤ 1 / 2
  even : |x - n| = 1 / 2 → n % 2 = 0

/-- An integer that is closer than a half is what a number is rounded to. -/
theorem RoundsTo.eq_of_close {n k : ℤ} {x : ℚ} (h : RoundsTo n x) (hk : |x - k| < 1 / 2) :
    n = k := by
  have hlt : |((n - k : ℤ) : ℚ)| < 1 := by
    have heq : ((n - k : ℤ) : ℚ) = (x - k) - (x - n) := by
      push_cast
      ring
    calc |((n - k : ℤ) : ℚ)| = |(x - k) - (x - n)| := by rw [heq]
      _ ≤ |x - k| + |x - n| := abs_sub _ _
      _ < 1 := by linarith [h.within]
  have hzero : |n - k| < 1 := by exact_mod_cast hlt
  have := Int.abs_lt_one_iff.mp hzero
  omega

theorem RoundsTo.of_int {n k : ℤ} (h : RoundsTo n k) : n = k :=
  h.eq_of_close (by simp)

/-- A number that is no integer is rounded to the one it is off from by less than a half, or
to the even one of two. -/
theorem RoundsTo.unique {n k : ℤ} {x : ℚ} (hn : RoundsTo n x) (hk : RoundsTo k x) : n = k := by
  rcases lt_or_eq_of_le hk.within with hlt | heq
  · exact hn.eq_of_close hlt
  · rcases lt_or_eq_of_le hn.within with hlt' | heq'
    · exact (hk.eq_of_close hlt').symm
    · -- both are half away, so they are the same or next to each other
      have hkeven := hk.even heq
      have hneven := hn.even heq'
      have hle : |((n - k : ℤ) : ℚ)| ≤ 1 := by
        have hsub : ((n - k : ℤ) : ℚ) = (x - k) - (x - n) := by
          push_cast
          ring
        calc |((n - k : ℤ) : ℚ)| = |(x - k) - (x - n)| := by rw [hsub]
          _ ≤ |x - k| + |x - n| := abs_sub _ _
          _ = 1 := by rw [heq, heq']; norm_num
      have hone : |n - k| ≤ 1 := by exact_mod_cast hle
      have := abs_le.mp hone
      omega

/-- A whole number times a factor that is 1 or at least 2, rounded, divided by the factor and
rounded again, is the number. The quotient may be off by a tenth. -/
theorem round_back {k n₁ n₂ : ℤ} {m r : ℚ} (hm : m = 1 ∨ 2 ≤ m) (hin : RoundsTo n₁ (k * m))
    (hr : |r - n₁ / m| ≤ 1 / 10) (hout : RoundsTo n₂ r) : n₂ = k := by
  have hquot : |n₁ / m - k| ≤ 1 / 4 := by
    rcases hm with rfl | hm
    · rw [mul_one] at hin
      rw [hin.of_int]
      simp
    · have hpos : (0 : ℚ) < m := by linarith
      have heq : n₁ / m - k = -((k * m - n₁) / m) := by
        field_simp
        ring
      rw [heq, abs_neg, abs_div, abs_of_pos hpos, div_le_iff₀ hpos]
      linarith [hin.within]
  refine hout.eq_of_close ?_
  calc |r - k| = |(r - n₁ / m) + (n₁ / m - k)| := by ring_nf
    _ ≤ |r - n₁ / m| + |n₁ / m - k| := abs_add_le _ _
    _ < 1 / 2 := by linarith

/-- The integer nearest to `x / f`, the even one of two. -/
def nearest (x f : ℤ) : ℤ :=
  if 2 * (x % f) < f then x / f
  else if f < 2 * (x % f) then x / f + 1
  else if x / f % 2 = 0 then x / f
  else x / f + 1

theorem nearest_rounds (x : ℤ) {f : ℤ} (hf : 0 < f) : RoundsTo (nearest x f) (x / f) := by
  have hdiv := Int.ediv_mul_add_emod x f
  have hpos : (0 : ℚ) < f := by exact_mod_cast hf
  -- twice the distance, in units of the divisor
  have hdist : ∀ n : ℤ, |(x : ℚ) / f - n| = |2 * ((x : ℚ) - n * f)| / (2 * f) := fun n => by
    have heq : (x : ℚ) / f - n = 2 * (x - n * f) / (2 * f) := by
      field_simp
    rw [heq, abs_div, abs_of_pos (by linarith : (0 : ℚ) < 2 * f)]
  have hwithin : |2 * (x - nearest x f * f)| ≤ f := by
    unfold nearest
    rw [abs_le]
    have h0 := Int.emod_nonneg x (by omega : f ≠ 0)
    have h1 := Int.emod_lt_of_pos x hf
    split_ifs <;> constructor <;> first | omega | (rw [Int.add_mul]; omega)
  have heven : |2 * (x - nearest x f * f)| = f → nearest x f % 2 = 0 := by
    unfold nearest
    have h0 := Int.emod_nonneg x (by omega : f ≠ 0)
    have h1 := Int.emod_lt_of_pos x hf
    split_ifs with hlow hhigh hq
    · intro heq
      rw [abs_of_nonneg (by omega)] at heq
      omega
    · intro heq
      rw [Int.add_mul, abs_of_nonpos (by omega)] at heq
      omega
    · exact fun _ => hq
    · exact fun _ => by omega
  constructor
  · rw [hdist, div_le_iff₀ (by linarith)]
    have : ((|2 * (x - nearest x f * f)| : ℤ) : ℚ) ≤ f := by exact_mod_cast hwithin
    push_cast at this
    linarith
  · intro heq
    apply heven
    rw [hdist, div_eq_iff (by linarith)] at heq
    have : ((|2 * (x - nearest x f * f)| : ℤ) : ℚ) = f := by
      push_cast
      linarith
    exact_mod_cast this

/-! ## Numbers -/

/-- A number of so many decimal places. -/
structure Decimal where
  mantissa : ℤ
  scale : ℕ
deriving DecidableEq, Repr

/-- The number as a fraction. -/
def Decimal.value (d : Decimal) : ℚ := d.mantissa / 10 ^ d.scale

/-- The mantissa with so many places. -/
def Decimal.aligned (d : Decimal) (scale : ℕ) : ℤ := d.mantissa * 10 ^ (scale - d.scale)

theorem Decimal.aligned_div (d : Decimal) {scale : ℕ} (h : d.scale ≤ scale) :
    (d.aligned scale : ℚ) / 10 ^ scale = d.value := by
  obtain ⟨k, rfl⟩ := Nat.exists_eq_add_of_le h
  unfold Decimal.aligned Decimal.value
  rw [Nat.add_sub_cancel_left, pow_add]
  push_cast
  field_simp

/-- The sum has the places of the term that has more. -/
def Decimal.add (a b : Decimal) : Decimal :=
  let scale := max a.scale b.scale
  ⟨a.aligned scale + b.aligned scale, scale⟩

theorem Decimal.add_value (a b : Decimal) : (a.add b).value = a.value + b.value := by
  rw [← a.aligned_div (le_max_left a.scale b.scale),
    ← b.aligned_div (le_max_right a.scale b.scale)]
  unfold Decimal.add Decimal.value
  push_cast
  rw [add_div]

/-- The number with the other sign. -/
def Decimal.neg (a : Decimal) : Decimal := ⟨-a.mantissa, a.scale⟩

theorem Decimal.neg_value (a : Decimal) : a.neg.value = -a.value := by
  unfold Decimal.neg Decimal.value
  push_cast
  rw [neg_div]

/-- The difference as a sum. -/
def Decimal.sub (a b : Decimal) : Decimal := a.add b.neg

theorem Decimal.sub_value (a b : Decimal) : (a.sub b).value = a.value - b.value := by
  unfold Decimal.sub
  rw [Decimal.add_value, Decimal.neg_value, sub_eq_add_neg]

/-- The product has the places of both factors. -/
def Decimal.mul (a b : Decimal) : Decimal := ⟨a.mantissa * b.mantissa, a.scale + b.scale⟩

theorem Decimal.mul_value (a b : Decimal) : (a.mul b).value = a.value * b.value := by
  unfold Decimal.mul Decimal.value
  push_cast
  rw [pow_add, mul_div_mul_comm]

/-- The quotient with so many places; there is none by zero. -/
def Decimal.div (places : ℕ) (a b : Decimal) : Option Decimal :=
  if b.mantissa = 0 then none
  else some ⟨nearest (a.mantissa * b.mantissa.sign * 10 ^ (places + b.scale))
    (b.mantissa.natAbs * 10 ^ a.scale), places⟩

theorem Decimal.div_within {places : ℕ} {a b r : Decimal} (h : a.div places b = some r) :
    |r.value - a.value / b.value| ≤ 1 / (2 * 10 ^ places) := by
  unfold Decimal.div at h
  split_ifs at h with hb
  rw [← Option.some.inj h]
  clear h
  have hf : (0 : ℤ) < b.mantissa.natAbs * 10 ^ a.scale := by
    have := Int.natAbs_pos.mpr hb
    positivity
  have hround := (nearest_rounds (a.mantissa * b.mantissa.sign * 10 ^ (places + b.scale)) hf).within
  set n := nearest (a.mantissa * b.mantissa.sign * 10 ^ (places + b.scale))
    (b.mantissa.natAbs * 10 ^ a.scale) with hn
  have hquot : ((a.mantissa * b.mantissa.sign * 10 ^ (places + b.scale) : ℤ) : ℚ) /
      ((b.mantissa.natAbs * 10 ^ a.scale : ℤ) : ℚ) = a.value / b.value * 10 ^ places := by
    have hb' : (b.mantissa : ℚ) ≠ 0 := by exact_mod_cast hb
    have habs : |(b.mantissa : ℚ)| ≠ 0 := abs_ne_zero.mpr hb'
    have hsign : (b.mantissa.sign : ℚ) * b.mantissa = |(b.mantissa : ℚ)| := by
      exact_mod_cast Int.sign_mul_self_eq_abs b.mantissa
    unfold Decimal.value
    push_cast [pow_add]
    field_simp
    linear_combination (a.mantissa : ℚ) * hsign
  rw [hquot] at hround
  have hp : (0 : ℚ) < 10 ^ places := by positivity
  have heq : (⟨n, places⟩ : Decimal).value - a.value / b.value =
      -((a.value / b.value * 10 ^ places - n) / 10 ^ places) := by
    unfold Decimal.value
    field_simp
    ring
  rw [heq, abs_neg, abs_div, abs_of_pos hp, div_le_iff₀ hp]
  calc |a.value / b.value * 10 ^ places - n| ≤ 1 / 2 := hround
    _ = 1 / (2 * 10 ^ places) * 10 ^ places := by field_simp

/-- A number with no more places stays as it is. -/
def Decimal.round (places : ℕ) (d : Decimal) : Decimal :=
  if d.scale ≤ places then d else ⟨nearest d.mantissa (10 ^ (d.scale - places)), places⟩

/-- The rational is the other one, rounded to so many places. -/
def RoundedTo (places : ℕ) (x y : ℚ) : Prop :=
  ∃ n : ℤ, RoundsTo n (x * 10 ^ places) ∧ y = n / 10 ^ places

theorem Decimal.round_value (places : ℕ) (d : Decimal) :
    RoundedTo places d.value (d.round places).value := by
  unfold Decimal.round
  split_ifs with h
  · refine ⟨d.aligned places, ⟨?_, ?_⟩, (d.aligned_div h).symm⟩ <;>
    · rw [← d.aligned_div h, div_mul_cancel₀ _ (by positivity)]
      simp
  · obtain ⟨k, hk⟩ := Nat.exists_eq_add_of_le (Nat.le_of_lt (Nat.lt_of_not_le h))
    refine ⟨_, ?_, rfl⟩
    have hvalue : d.value * 10 ^ places =
        (d.mantissa : ℚ) / ((10 ^ (d.scale - places) : ℤ) : ℚ) := by
      unfold Decimal.value
      rw [hk, Nat.add_sub_cancel_left, pow_add]
      push_cast
      field_simp
    rw [hvalue]
    exact nearest_rounds _ (by positivity)

theorem Decimal.round_scale (places : ℕ) (d : Decimal) : (d.round places).scale ≤ places := by
  unfold Decimal.round
  split_ifs with h
  · exact h
  · exact le_refl _

/-! ## Text -/

/-- The digits of the mantissa, at least one of them before the point. -/
def Decimal.digits (d : Decimal) : List Char :=
  let ds := Nat.toDigits 10 d.mantissa.natAbs
  List.replicate (d.scale + 1 - ds.length) '0' ++ ds

/-- The sign, the digits, and a point in front of the places. -/
def Decimal.text (d : Decimal) : String :=
  String.ofList ((if d.mantissa < 0 then ['-'] else []) ++
    d.digits.take (d.digits.length - d.scale) ++
    (if d.scale = 0 then [] else '.' :: d.digits.drop (d.digits.length - d.scale)))

/-- Digits with at most one point among them. -/
def magnitude (cs : List Char) : Option Decimal :=
  let whole := cs.takeWhile (· ≠ '.')
  let places := (cs.dropWhile (· ≠ '.')).drop 1
  if whole ++ places = [] ∨ ¬(whole ++ places).all Char.isDigit then none
  else some ⟨Nat.ofDigitChars 10 (whole ++ places) 0, places.length⟩

/-- A sign may stand in front. -/
def parse (s : String) : Option Decimal :=
  match s.toList with
  | '-' :: cs => (magnitude cs).map Decimal.neg
  | '+' :: cs => magnitude cs
  | cs => magnitude cs

theorem Decimal.scale_lt_digits (d : Decimal) : d.scale < d.digits.length := by
  unfold Decimal.digits
  simp only [List.length_append, List.length_replicate]
  omega

theorem Decimal.isDigit_of_mem_digits {d : Decimal} {c : Char} (h : c ∈ d.digits) :
    c.isDigit = true := by
  unfold Decimal.digits at h
  rcases List.mem_append.mp h with h | h
  · rw [(List.mem_replicate.mp h).2]
    rfl
  · exact Nat.isDigit_of_mem_toDigits (by norm_num) (le_refl 10) h

theorem Decimal.ofDigitChars_digits (d : Decimal) :
    Nat.ofDigitChars 10 d.digits 0 = d.mantissa.natAbs := by
  unfold Decimal.digits
  rw [Nat.ofDigitChars_append, Nat.ofDigitChars_replicate_zero, Nat.mul_zero,
    Nat.ofDigitChars_ten_toDigits]

theorem ne_point_of_isDigit {c : Char} (h : c.isDigit = true) : c ≠ '.' := by
  rintro rfl
  cases h

/-- What is read off the digits with the point where it belongs. -/
theorem magnitude_digits (d : Decimal) :
    magnitude (d.digits.take (d.digits.length - d.scale) ++
      (if d.scale = 0 then [] else '.' :: d.digits.drop (d.digits.length - d.scale))) =
      some ⟨d.mantissa.natAbs, d.scale⟩ := by
  set whole := d.digits.take (d.digits.length - d.scale) with hwhole
  set places := d.digits.drop (d.digits.length - d.scale) with hplaces
  have hall : whole ++ places = d.digits := List.take_append_drop _ _
  have hlength : places.length = d.scale := by
    rw [hplaces, List.length_drop]
    have := d.scale_lt_digits
    omega
  have hnopoint : ∀ c ∈ whole, decide (c ≠ '.') = true := fun c hc =>
    decide_eq_true (ne_point_of_isDigit
      (Decimal.isDigit_of_mem_digits (hall ▸ List.mem_append_left _ hc)))
  have htail : (if d.scale = 0 then [] else '.' :: places).takeWhile (· ≠ '.') = [] ∧
      ((if d.scale = 0 then [] else '.' :: places).dropWhile (· ≠ '.')).drop 1 = places := by
    split_ifs with hzero
    · rw [hzero] at hlength
      simp [List.eq_nil_of_length_eq_zero hlength]
    · simp
  unfold magnitude
  rw [List.takeWhile_append_of_pos hnopoint, List.dropWhile_append_of_pos hnopoint, htail.1,
    htail.2, List.append_nil]
  dsimp only
  rw [hall, hlength, d.ofDigitChars_digits, if_neg]
  rintro (hnil | hdigit)
  · have := d.scale_lt_digits
    rw [hnil] at this
    simp at this
  · exact hdigit (List.all_eq_true.mpr fun c hc => Decimal.isDigit_of_mem_digits hc)

/-- The first character is the sign or a digit. -/
theorem parse_digits {ds tail : List Char} (hne : ds ≠ []) (h : ∀ c ∈ ds, c.isDigit = true) :
    parse (String.ofList (ds ++ tail)) = magnitude (ds ++ tail) := by
  cases ds with
  | nil => exact absurd rfl hne
  | cons c cs =>
    have hc := h c List.mem_cons_self
    have hminus : c ≠ '-' := by
      rintro rfl
      cases hc
    have hplus : c ≠ '+' := by
      rintro rfl
      cases hc
    unfold parse
    simp [hminus, hplus]

/-- The text of a number is read as the number. -/
theorem parse_text (d : Decimal) : parse d.text = some d := by
  have hread := magnitude_digits d
  have hdigits : ∀ c ∈ d.digits.take (d.digits.length - d.scale), c.isDigit = true :=
    fun c hc => Decimal.isDigit_of_mem_digits (List.mem_of_mem_take hc)
  have hne : d.digits.take (d.digits.length - d.scale) ≠ [] := by
    have := d.scale_lt_digits
    rw [← List.length_pos_iff, List.length_take]
    omega
  unfold Decimal.text
  generalize d.digits.take (d.digits.length - d.scale) = whole at hread hdigits hne ⊢
  generalize (if d.scale = 0 then [] else '.' :: d.digits.drop (d.digits.length - d.scale)) =
    tail at hread ⊢
  by_cases hneg : d.mantissa < 0
  · have hminus : parse (String.ofList (['-'] ++ whole ++ tail)) =
        (magnitude (whole ++ tail)).map Decimal.neg := by
      unfold parse
      simp
    have hmantissa : -(d.mantissa.natAbs : ℤ) = d.mantissa := by omega
    rw [if_pos hneg, hminus, hread, Option.map_some]
    simp only [Decimal.neg, hmantissa]
  · have hmantissa : (d.mantissa.natAbs : ℤ) = d.mantissa := by omega
    rw [if_neg hneg, List.nil_append, parse_digits hne hdigits, hread, hmantissa]

end decimal
