-- The unit registry: symbols with their dimension and factor, the conversion to
-- the base unit and back, and the arithmetic that stays in one dimension.
-- Decimals are those of a library, which may round what it computes; where it
-- computes exactly or not at all, a display undoes a conversion.
import LactoSensus.Lib.Decimal

open decimal

namespace common.units

variable {D : Type}

/-! ## The library -/

/-- What the code uses of `rust_decimal`; the rounding strategy is `MidpointNearestEven`. -/
structure DecimalLib (D : Type) where
  mantissa : D → Int
  scale : D → Nat
  ONE : D
  from_int : Nat → D
  /-- `Decimal::from_parts(lo, 0, 0, false, scale)`. -/
  from_parts : Nat → Nat → D
  from_str : String → Option D
  to_string : D → String
  checked_add : D → D → Option D
  checked_sub : D → D → Option D
  checked_mul : D → D → Option D
  checked_div : D → D → Option D
  round_dp : D → Nat → D
  is_sign_negative : D → Bool
  is_zero : D → Bool

/-- The number that a decimal stands for. -/
def DecimalLib.value (L : DecimalLib D) (d : D) : ℚ := L.mantissa d / 10 ^ L.scale d

/-- What is read has the same value, and as many places. -/
structure DecimalLib.Same (L : DecimalLib D) (d d' : D) : Prop where
  value : L.value d' = L.value d
  scale : L.scale d' = L.scale d

/-- What holds of the library whatever it rounds: constants, texts, places and signs are exact.
An operation may return a neighbour of its result. -/
structure DecimalLib.Lawful (L : DecimalLib D) : Prop where
  one : L.value L.ONE = 1
  from_int : ∀ n, L.value (L.from_int n) = n
  from_parts : ∀ lo scale, L.value (L.from_parts lo scale) = lo / 10 ^ scale
  /-- A text is read as the number that it was made of. -/
  read_back : ∀ d, ∃ d', L.from_str (L.to_string d) = some d' ∧ L.Same d d'
  add_scale : ∀ a b r, L.checked_add a b = some r → L.scale r ≤ max (L.scale a) (L.scale b)
  sub_scale : ∀ a b r, L.checked_sub a b = some r → L.scale r ≤ max (L.scale a) (L.scale b)
  round : ∀ d places, RoundedTo places (L.value d) (L.value (L.round_dp d places))
  round_scale : ∀ d places, L.scale (L.round_dp d places) ≤ places
  sign : ∀ d, L.is_sign_negative d = false → 0 ≤ L.value d
  zero : ∀ d, L.is_zero d = false → L.value d ≠ 0

/-- The operations are exact or fail, up to a quotient that is off by at most the fifth
place. -/
structure DecimalLib.Exact (L : DecimalLib D) : Prop extends L.Lawful where
  add : ∀ a b r, L.checked_add a b = some r → L.value r = L.value a + L.value b
  sub : ∀ a b r, L.checked_sub a b = some r → L.value r = L.value a - L.value b
  mul : ∀ a b r, L.checked_mul a b = some r → L.value r = L.value a * L.value b
  /-- No overflow when nothing gets larger. -/
  div_defined : ∀ a b, 1 ≤ L.value b → ∃ r, L.checked_div a b = some r
  div_within : ∀ a b r, L.checked_div a b = some r →
    |L.value r - L.value a / L.value b| ≤ 1 / 10 ^ 5

/-- Decimals of any size, with quotients of 28 places. -/
def fixedPoint : DecimalLib Decimal where
  mantissa := Decimal.mantissa
  scale := Decimal.scale
  ONE := ⟨1, 0⟩
  from_int n := ⟨n, 0⟩
  from_parts lo scale := ⟨lo, scale⟩
  from_str := parse
  to_string := Decimal.text
  checked_add a b := some (a.add b)
  checked_sub a b := some (a.sub b)
  checked_mul a b := some (a.mul b)
  checked_div := Decimal.div 28
  round_dp d places := d.round places
  is_sign_negative d := d.mantissa < 0
  is_zero d := d.mantissa = 0

theorem fixedPoint_value (d : Decimal) : fixedPoint.value d = d.value := rfl

theorem fixedPoint_exact : fixedPoint.Exact where
  one := by simp [DecimalLib.value, fixedPoint]
  from_int n := by simp [DecimalLib.value, fixedPoint]
  from_parts lo scale := by simp [DecimalLib.value, fixedPoint]
  read_back d := ⟨d, parse_text d, rfl, rfl⟩
  add a b r h := by
    rw [← Option.some.inj h]
    exact a.add_value b
  add_scale a b r h := by
    rw [← Option.some.inj h]
    exact le_refl _
  sub a b r h := by
    rw [← Option.some.inj h]
    exact a.sub_value b
  sub_scale a b r h := by
    rw [← Option.some.inj h]
    exact le_refl _
  mul a b r h := by
    rw [← Option.some.inj h]
    exact a.mul_value b
  div_defined a b h := by
    have hb : b.mantissa ≠ 0 := fun hzero => by
      rw [fixedPoint_value, Decimal.value, hzero] at h
      norm_num at h
    exact ⟨_, if_neg hb⟩
  div_within a b r h := by
    apply le_trans (Decimal.div_within h)
    norm_num
  round d places := d.round_value places
  round_scale d places := d.round_scale places
  sign d h := by
    have hneg : ¬d.mantissa < 0 := of_decide_eq_false h
    have hpos : (0 : ℚ) ≤ d.mantissa := by exact_mod_cast Int.not_lt.mp hneg
    exact div_nonneg hpos (by positivity)
  zero d h := by
    have hne : d.mantissa ≠ 0 := of_decide_eq_false h
    have hne' : (d.mantissa : ℚ) ≠ 0 := by exact_mod_cast hne
    exact div_ne_zero hne' (by positivity)

variable {L : DecimalLib D}

/-! ## Dimensions and quantities -/

/-- The decimal places that a quantity is rounded to. -/
def SI_STABILIZATION_PRECISION : Nat := 4

/-- Why a quantity cannot be converted. -/
inductive UnitError where
  | InvalidSymbol (symbol : String)
  | DimensionalMismatch
  | InvalidQuantity (quantity : String)
  | ArithmeticError
deriving DecidableEq, Repr

/-- The text of the error, as it is shown. -/
def UnitError.text : UnitError → String
  | .InvalidSymbol symbol => s!"Invalid unit symbol: {symbol}"
  | .DimensionalMismatch => "Dimensional mismatch: operation not permitted across dimensions"
  | .InvalidQuantity quantity => s!"Invalid quantity format: {quantity}"
  | .ArithmeticError => "Arithmetic overflow or underflow"

/-- Quantities of two dimensions never meet. -/
inductive Dimension where
  | Mass
  | Volume
  | Count
  | Anomalous
deriving DecidableEq, Repr

/-- The unit that quantities of the dimension are kept in. -/
def Dimension.base_unit : Dimension → String
  | .Mass => "g"
  | .Volume => "ml"
  | .Count => "units"
  | .Anomalous => "misc"

/-- A number of base units of a dimension. -/
inductive PhysicalQuantity (D : Type) where
  | Mass (val : D)
  | Volume (val : D)
  | Count (val : D)
  | Anomalous (val : D)
deriving DecidableEq, Repr

def PhysicalQuantity.value : PhysicalQuantity D → D
  | .Mass val => val
  | .Volume val => val
  | .Count val => val
  | .Anomalous val => val

def PhysicalQuantity.dimension : PhysicalQuantity D → Dimension
  | .Mass _ => .Mass
  | .Volume _ => .Volume
  | .Count _ => .Count
  | .Anomalous _ => .Anomalous

/-- The number with its dimension. -/
def construct_quantity (dimension : Dimension) (val : D) : PhysicalQuantity D :=
  match dimension with
  | .Mass => .Mass val
  | .Volume => .Volume val
  | .Count => .Count val
  | .Anomalous => .Anomalous val

@[simp] theorem construct_quantity_value (dimension : Dimension) (val : D) :
    (construct_quantity dimension val).value = val := by
  cases dimension <;> rfl

@[simp] theorem construct_quantity_dimension (dimension : Dimension) (val : D) :
    (construct_quantity dimension val).dimension = dimension := by
  cases dimension <;> rfl

/-- The dimensional fence around a checked operation. -/
def fenced (op : D → D → Option D) (a b : PhysicalQuantity D) :
    Except UnitError (PhysicalQuantity D) :=
  if a.dimension = b.dimension then
    match op a.value b.value with
    | some res => .ok (construct_quantity a.dimension res)
    | none => .error .ArithmeticError
  else .error .DimensionalMismatch

/-- The sum, within one dimension. -/
def PhysicalQuantity.add (L : DecimalLib D) :
    PhysicalQuantity D → PhysicalQuantity D → Except UnitError (PhysicalQuantity D) :=
  fenced L.checked_add

/-- The difference, within one dimension; it may be negative. -/
def PhysicalQuantity.sub (L : DecimalLib D) :
    PhysicalQuantity D → PhysicalQuantity D → Except UnitError (PhysicalQuantity D) :=
  fenced L.checked_sub

theorem fenced_ok {op : D → D → Option D} {a b r : PhysicalQuantity D} (h : fenced op a b = .ok r) :
    a.dimension = b.dimension ∧ r.dimension = a.dimension ∧ op a.value b.value = some r.value := by
  unfold fenced at h
  split at h
  · rename_i hdim
    split at h
    · rename_i res hop
      rw [← Except.ok.inj h]
      exact ⟨hdim, construct_quantity_dimension _ _, by rw [construct_quantity_value, hop]⟩
    · cases h
  · cases h

/-! ## Symbols -/

/-- The characters with the property `White_Space`. -/
def is_whitespace (c : Char) : Bool :=
  (9 ≤ c.toNat && c.toNat ≤ 13) || c.toNat == 32 || c.toNat == 133 || c.toNat == 160 ||
    c.toNat == 5760 || (8192 ≤ c.toNat && c.toNat ≤ 8202) || c.toNat == 8232 ||
    c.toNat == 8233 || c.toNat == 8239 || c.toNat == 8287 || c.toNat == 12288

/-- `str::trim`. -/
def trim (cs : List Char) : List Char :=
  ((cs.dropWhile is_whitespace).reverse.dropWhile is_whitespace).reverse

/-- What the lower case of a character outside ASCII is, between what stands before it (the
nearest first) and after it. -/
abbrev Lower := List Char → Char → List Char → List Char

/-- `str::to_lowercase` from a place in the text on. -/
def to_lowercase (lower : Lower) : List Char → List Char → List Char
  | _, [] => []
  | before, c :: after =>
    (if c.toNat < 128 then [c.toLower] else lower before c after) ++
      to_lowercase lower (c :: before) after

/-- A symbol without its case and the white space around it. -/
def normalize_symbol (lower : Lower) (symbol : String) : String :=
  String.ofList ((to_lowercase lower [] (trim symbol.toList)).map fun c =>
    if c = '-' ∨ c = ' ' then '_' else c)

/-- A unit; the multiplier of a contextual one depends on the item. -/
structure UnitRegistryEntry (D : Type) where
  symbol : String
  dimension : Dimension
  multiplier : D
  is_contextual : Bool
deriving DecidableEq, Repr

/-- 453.59237 g. -/
def MULTIPLIER_LB (L : DecimalLib D) : D := L.from_parts 45359237 5
/-- 28.34952 g. -/
def MULTIPLIER_OZ (L : DecimalLib D) : D := L.from_parts 2834952 5
/-- 3785.41178 ml. -/
def MULTIPLIER_GAL (L : DecimalLib D) : D := L.from_parts 378541178 5
/-- 29.57353 ml. -/
def MULTIPLIER_FL_OZ (L : DecimalLib D) : D := L.from_parts 2957353 5

/-- The arms of `resolve_symbol`: the normalized symbols, and the entry that they stand for. -/
def registry (L : DecimalLib D) : List (List String × UnitRegistryEntry D) :=
  [(["g", "gram", "grams"], ⟨"g", .Mass, L.ONE, false⟩),
    (["kg", "kilogram", "kilograms"], ⟨"kg", .Mass, L.from_int 1000, false⟩),
    (["lb", "lbs", "pound", "pounds"], ⟨"lb", .Mass, MULTIPLIER_LB L, false⟩),
    (["oz", "ounce", "ounces"], ⟨"oz", .Mass, MULTIPLIER_OZ L, false⟩),
    (["ml", "milliliter", "milliliters", "millilitre", "millilitres"],
      ⟨"ml", .Volume, L.ONE, false⟩),
    (["l", "liter", "liters", "litre", "litres"], ⟨"L", .Volume, L.from_int 1000, false⟩),
    (["gal", "gallon", "gallons"], ⟨"gal", .Volume, MULTIPLIER_GAL L, false⟩),
    (["fl_oz", "fluid_ounce", "fluid_ounces"], ⟨"fl_oz", .Volume, MULTIPLIER_FL_OZ L, false⟩),
    (["units", "unit", "pc", "pcs"], ⟨"units", .Count, L.ONE, false⟩),
    (["dozens", "dozen"], ⟨"dozens", .Count, L.from_int 12, false⟩),
    (["packs", "pack"], ⟨"packs", .Count, L.ONE, true⟩),
    (["misc", "handful", "bunch", "handfuls", "bunches"], ⟨"misc", .Anomalous, L.ONE, true⟩)]

/-- The entry of the registry that a symbol stands for. -/
def resolve_symbol (L : DecimalLib D) (lower : Lower) (symbol : String) :
    Except UnitError (UnitRegistryEntry D) :=
  let normalized := normalize_symbol lower symbol
  match (registry L).find? fun arm => normalized ∈ arm.1 with
  | some arm => .ok arm.2
  | none => .error (.InvalidSymbol normalized)

variable {lower : Lower}

theorem resolve_symbol_mem {symbol : String} {entry : UnitRegistryEntry D}
    (h : resolve_symbol L lower symbol = .ok entry) : ∃ arm ∈ registry L, arm.2 = entry := by
  unfold resolve_symbol at h
  dsimp only at h
  split at h
  · rename_i arm hfind
    exact ⟨arm, List.mem_of_find?_eq_some hfind, Except.ok.inj h⟩
  · cases h

/-- A factor that is the same for every item is 1 or larger than 2. -/
theorem DecimalLib.Lawful.multiplier (hL : L.Lawful) {arm : List String × UnitRegistryEntry D}
    (h : arm ∈ registry L) : L.value arm.2.multiplier = 1 ∨ 2 ≤ L.value arm.2.multiplier := by
  simp only [registry, List.mem_cons, List.not_mem_nil, or_false] at h
  rcases h with rfl | rfl | rfl | rfl | rfl | rfl | rfl | rfl | rfl | rfl | rfl | rfl
  case inl => exact .inl hL.one
  all_goals
    simp only [MULTIPLIER_LB, MULTIPLIER_OZ, MULTIPLIER_GAL, MULTIPLIER_FL_OZ, hL.one, hL.from_int,
      hL.from_parts]
    norm_num

/-! ## Conversion -/

/-- The product is checked first and rounded then. -/
def convert_to_base_val (L : DecimalLib D) (quantity : String) (multiplier : D) :
    Except UnitError D :=
  match L.from_str quantity with
  | none => .error (.InvalidQuantity quantity)
  | some qty =>
    match L.checked_mul qty multiplier with
    | none => .error .ArithmeticError
    | some result => .ok (L.round_dp result SI_STABILIZATION_PRECISION)

/-- A quantity in its unit, in base units. -/
def parse_and_convert (L : DecimalLib D) (lower : Lower) (quantity unit : String) :
    Except UnitError (PhysicalQuantity D) :=
  match resolve_symbol L lower unit with
  | .error e => .error e
  | .ok entry =>
    match convert_to_base_val L quantity entry.multiplier with
    | .error e => .error e
    | .ok base_val => .ok (construct_quantity entry.dimension base_val)

/-- The same, with the multiplier that the oracle has given. -/
def parse_and_convert_with_multiplier (L : DecimalLib D) (lower : Lower) (quantity unit : String)
    (multiplier : D) : Except UnitError (PhysicalQuantity D) :=
  match resolve_symbol L lower unit with
  | .error e => .error e
  | .ok entry =>
    match convert_to_base_val L quantity multiplier with
    | .error e => .error e
    | .ok base_val => .ok (construct_quantity entry.dimension base_val)

/-- Back from base units; a contextual unit has no way back. -/
def convert_to_display_value (L : DecimalLib D) (lower : Lower)
    (base_quantity display_unit : String) : Option String :=
  match resolve_symbol L lower display_unit with
  | .error _ => none
  | .ok entry =>
    if entry.is_contextual then none
    else
      match L.from_str base_quantity with
      | none => none
      | some base =>
        match L.checked_div base entry.multiplier with
        | none => none
        | some r => some (L.to_string (L.round_dp r SI_STABILIZATION_PRECISION))

/-- What a conversion that succeeds has read, and by what it has multiplied. -/
theorem convert_to_base_val_ok {quantity : String} {multiplier base_val : D}
    (h : convert_to_base_val L quantity multiplier = .ok base_val) :
    ∃ qty result, L.from_str quantity = some qty ∧ L.checked_mul qty multiplier = some result ∧
      base_val = L.round_dp result SI_STABILIZATION_PRECISION := by
  unfold convert_to_base_val at h
  split at h
  · cases h
  · rename_i qty hqty
    split at h
    · cases h
    · rename_i result hresult
      exact ⟨qty, result, hqty, hresult, (Except.ok.inj h).symm⟩

theorem parse_and_convert_ok {quantity unit : String} {q : PhysicalQuantity D}
    (h : parse_and_convert L lower quantity unit = .ok q) :
    ∃ entry, resolve_symbol L lower unit = .ok entry ∧ q.dimension = entry.dimension ∧
      convert_to_base_val L quantity entry.multiplier = .ok q.value := by
  unfold parse_and_convert at h
  split at h
  · cases h
  · rename_i entry hentry
    split at h
    · cases h
    · rename_i base_val hbase
      rw [← Except.ok.inj h]
      exact ⟨entry, hentry, construct_quantity_dimension _ _,
        by rw [construct_quantity_value, hbase]⟩

theorem parse_and_convert_with_multiplier_ok {quantity unit : String} {multiplier : D}
    {q : PhysicalQuantity D}
    (h : parse_and_convert_with_multiplier L lower quantity unit multiplier = .ok q) :
    ∃ entry, resolve_symbol L lower unit = .ok entry ∧ q.dimension = entry.dimension ∧
      convert_to_base_val L quantity multiplier = .ok q.value := by
  unfold parse_and_convert_with_multiplier at h
  split at h
  · cases h
  · rename_i entry hentry
    split at h
    · cases h
    · rename_i base_val hbase
      rw [← Except.ok.inj h]
      exact ⟨entry, hentry, construct_quantity_dimension _ _,
        by rw [construct_quantity_value, hbase]⟩

/-- What has been rounded has four places at most. -/
theorem DecimalLib.Lawful.base_scale (hL : L.Lawful) {quantity : String} {multiplier base_val : D}
    (h : convert_to_base_val L quantity multiplier = .ok base_val) :
    L.scale base_val ≤ SI_STABILIZATION_PRECISION := by
  obtain ⟨qty, result, -, -, rfl⟩ := convert_to_base_val_ok h
  exact hL.round_scale result _

/-- What has been converted is what the product came to, rounded to a number of last places. -/
theorem DecimalLib.Lawful.base_units (hL : L.Lawful) {quantity : String} {multiplier base_val : D}
    (h : convert_to_base_val L quantity multiplier = .ok base_val) :
    ∃ qty result, ∃ n : ℤ, L.from_str quantity = some qty ∧
      L.checked_mul qty multiplier = some result ∧
      RoundsTo n (L.value result * 10 ^ SI_STABILIZATION_PRECISION) ∧
      L.value base_val = n / 10 ^ SI_STABILIZATION_PRECISION := by
  obtain ⟨qty, result, hqty, hresult, rfl⟩ := convert_to_base_val_ok h
  obtain ⟨n, hn, hvalue⟩ := hL.round result SI_STABILIZATION_PRECISION
  exact ⟨qty, result, n, hqty, hresult, hn, hvalue⟩

/-! ## Display -/

/-- The number that was set is the number that is shown. -/
theorem display_undoes_stabilization (hL : L.Exact) {quantity unit : String}
    {entry : UnitRegistryEntry D} {q : D} {stored : PhysicalQuantity D}
    (hunit : resolve_symbol L lower unit = .ok entry) (hfixed : entry.is_contextual = false)
    (hq : L.from_str quantity = some q)
    (hplaces : ∃ n : ℤ, L.value q = n / 10 ^ SI_STABILIZATION_PRECISION)
    (hstored : parse_and_convert L lower quantity unit = .ok stored) :
    ∃ shown d, convert_to_display_value L lower (L.to_string stored.value) unit = some shown ∧
      L.from_str shown = some d ∧ L.value d = L.value q := by
  obtain ⟨k, hk⟩ := hplaces
  obtain ⟨entry', hunit', -, hconv⟩ := parse_and_convert_ok hstored
  obtain rfl : entry' = entry := Except.ok.inj (hunit'.symm.trans hunit)
  obtain ⟨qty, product, n₁, hqty, hproduct, hin, hbase⟩ := hL.base_units hconv
  rw [hL.mul _ _ _ hproduct] at hin
  obtain rfl : qty = q := Option.some.inj (hqty.symm.trans hq)
  obtain ⟨base, hread, hsame⟩ := hL.read_back stored.value
  obtain ⟨arm, harm, rfl⟩ := resolve_symbol_mem hunit
  have hm := hL.multiplier harm
  have hone : 1 ≤ L.value arm.2.multiplier := by
    rcases hm with hm | hm <;> linarith
  obtain ⟨r, hr⟩ := hL.div_defined base arm.2.multiplier hone
  obtain ⟨d, hd, hshown⟩ := hL.read_back (L.round_dp r SI_STABILIZATION_PRECISION)
  refine ⟨_, d, ?_, hd, ?_⟩
  · simp [convert_to_display_value, hunit, hfixed, hread, hr]
  -- both roundings in units of the last place
  obtain ⟨n₂, hout, hn₂⟩ := hL.round r SI_STABILIZATION_PRECISION
  have hunits : L.value qty * L.value arm.2.multiplier * 10 ^ SI_STABILIZATION_PRECISION =
      k * L.value arm.2.multiplier := by
    rw [hk]
    field_simp
  have hquot : |L.value r * 10 ^ SI_STABILIZATION_PRECISION - n₁ / L.value arm.2.multiplier| ≤
      1 / 10 := by
    have hbasevalue : L.value base = n₁ / 10 ^ SI_STABILIZATION_PRECISION := by
      rw [hsame.value, hbase]
    have heq : L.value r * 10 ^ SI_STABILIZATION_PRECISION - n₁ / L.value arm.2.multiplier =
        (L.value r - L.value base / L.value arm.2.multiplier) *
          10 ^ SI_STABILIZATION_PRECISION := by
      rw [hbasevalue]
      field_simp
    rw [heq, abs_mul, abs_of_pos (by positivity : (0 : ℚ) < 10 ^ SI_STABILIZATION_PRECISION)]
    have hwithin := hL.div_within _ _ _ hr
    calc |L.value r - L.value base / L.value arm.2.multiplier| * 10 ^ SI_STABILIZATION_PRECISION
        ≤ 1 / 10 ^ 5 * 10 ^ SI_STABILIZATION_PRECISION := by gcongr
      _ = 1 / 10 := by norm_num [SI_STABILIZATION_PRECISION]
  rw [hunits] at hin
  have hsameint := round_back hm hin hquot hout
  rw [hshown.value, hn₂, hsameint, hk]

/-- The characters outside ASCII have no case. -/
def unchanged : Lower := fun _ c _ => [c]

/-- Two pounds, read as 907.1847 g. -/
theorem display_undoes_stabilization_of_pounds :
    ∃ shown d, convert_to_display_value fixedPoint unchanged "907.1847" " LBS" = some shown ∧
      fixedPoint.from_str shown = some d ∧ fixedPoint.value d = fixedPoint.value ⟨20, 1⟩ := by
  have htext : fixedPoint.to_string (PhysicalQuantity.Mass (⟨9071847, 4⟩ : Decimal)).value =
      "907.1847" := by decide +kernel
  rw [← htext]
  exact display_undoes_stabilization fixedPoint_exact
    (show resolve_symbol fixedPoint unchanged " LBS" =
      .ok ⟨"lb", .Mass, ⟨45359237, 5⟩, false⟩ by decide +kernel) rfl
    (show fixedPoint.from_str "2.0" = some ⟨20, 1⟩ by decide +kernel)
    ⟨20000, by norm_num [DecimalLib.value, fixedPoint, SI_STABILIZATION_PRECISION]⟩
    (by decide +kernel)

end common.units
