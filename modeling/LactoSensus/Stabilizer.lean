-- The stabilizer: what the oracle has resolved is checked against the registries
-- and turned into the quantity that is proposed. A subtraction takes from the
-- item that the inventory holds; where it holds none, the quantity itself is
-- what is left.
import LactoSensus.Taxonomy
import LactoSensus.Units

open common.proto
open common.slug
open common.taxonomy
open common.units
open decimal

namespace tonic

/-- The codes that are used here. -/
inductive Code where
  | Internal
  | InvalidArgument
  | FailedPrecondition
  | DeadlineExceeded
deriving DecidableEq, Repr

/-- An error of the gateway. -/
structure Status where
  code : Code
  message : String
deriving DecidableEq, Repr

end tonic

namespace gateway.veto

/-- What the oracle answers. -/
structure VetoOutcome where
  is_approved : Bool
  category_assignment : String
  moral_justification : String
  resolved_item_key : String
  suggested_display_name : String
  resolved_unit : String
  conversion_multiplier_to_base : String
deriving DecidableEq, Repr

end gateway.veto

namespace gateway.ingress.stabilizer

open gateway.veto
open gateway.ingress (Operation ScrubbedIntent StabilizedMutation)

variable {D : Type} {L : DecimalLib D} {lower : Lower}

/-! ## The checks -/

/-- `Status::internal`. -/
def internal {X : Type} (message : String) : Except tonic.Status X := .error ⟨.Internal, message⟩

/-- `Status::invalid_argument`. -/
def invalid_argument {X : Type} (message : String) : Except tonic.Status X :=
  .error ⟨.InvalidArgument, message⟩

/-- The category that the oracle has given is one of the registry. -/
def verify_category_registry (category_str : String) : Except tonic.Status GroceryCategory :=
  match GroceryCategory.from_str category_str with
  | some category => .ok category
  | none => internal "Request rejected"

/-- A contextual unit is converted by the multiplier of the oracle, any other by its own. -/
def verify_unit_stabilization (L : DecimalLib D) (lower : Lower)
    (quantity unit_symbol ai_multiplier : String) : Except tonic.Status (PhysicalQuantity D) :=
  match resolve_symbol L lower unit_symbol with
  | .error _ => invalid_argument "Request rejected"
  | .ok entry =>
    match L.from_str ai_multiplier with
    | none => internal "Request rejected"
    | some ai_val =>
      match if entry.is_contextual then
          parse_and_convert_with_multiplier L lower quantity unit_symbol ai_val
        else parse_and_convert L lower quantity unit_symbol with
      | .error _ => invalid_argument "Request rejected"
      | .ok base_quantity =>
        if L.is_sign_negative base_quantity.value ∨ L.is_zero base_quantity.value then
          invalid_argument
            "Physical Invariant Violation: Stabilized quantity must be strictly positive."
        else .ok base_quantity

/-- The item of the inventory that has the key. -/
def existing (inventory : List GroceryItem) (resolved_key : String) : Option GroceryItem :=
  inventory.find? fun i => i.item_key = resolved_key

/-- What is added or subtracted is of the dimension of the item that is held. -/
def enforce_physical_invariants (L : DecimalLib D) (lower : Lower) (intent : ScrubbedIntent)
    (resolved_key : String) (new_quantity : PhysicalQuantity D)
    (current_inventory : List GroceryItem) : Except tonic.Status Unit :=
  if intent.operation = .Add ∨ intent.operation = .Subtract then
    match existing current_inventory resolved_key with
    | none => .ok ()
    | some existing_item =>
      match resolve_symbol L lower existing_item.unit with
      | .error _ => internal "Request rejected"
      | .ok existing_unit =>
        if existing_unit.dimension ≠ new_quantity.dimension then
          invalid_argument "Request rejected"
        else .ok ()
  else .ok ()

/-- The operation on quantities, where there is one. -/
def arithmetic (L : DecimalLib D) :
    Operation → Option (PhysicalQuantity D → PhysicalQuantity D →
      Except UnitError (PhysicalQuantity D))
  | .Add => some (PhysicalQuantity.add L)
  | .Subtract => some (PhysicalQuantity.sub L)
  | .Set => none
  | .Delete => none

/-- The quantity that the item has afterwards, never a negative one. -/
def apply_arithmetic_accumulation (L : DecimalLib D) (lower : Lower) (intent : ScrubbedIntent)
    (resolved_key : String) (base_quantity : PhysicalQuantity D)
    (current_inventory : List GroceryItem) : Except tonic.Status (PhysicalQuantity D) :=
  match arithmetic L intent.operation with
  | none => .ok base_quantity
  | some op =>
    match existing current_inventory resolved_key with
    | none => .ok base_quantity
    | some existing_item =>
      match parse_and_convert L lower existing_item.quantity existing_item.unit with
      | .error e => internal s!"Failed to parse existing quantity: {e.text}"
      | .ok existing_qty =>
        match op existing_qty base_quantity with
        | .error e =>
          invalid_argument s!"Physical Invariant Violation: Arithmetic failed ({e.text})"
        | .ok result =>
          if L.is_sign_negative result.value then
            invalid_argument
              "Physical Invariant Violation: Resulting quantity would be negative."
          else .ok result

/-- All checks in their order, and the mutation that has passed them. -/
def validate_and_stabilize (L : DecimalLib D) (lower : Lower) (intent : ScrubbedIntent)
    (veto : VetoOutcome) (current_inventory : List GroceryItem) :
    Except tonic.Status StabilizedMutation :=
  match verify_category_registry veto.category_assignment with
  | .error e => .error e
  | .ok category =>
    if slugify veto.resolved_item_key ≠ veto.resolved_item_key then internal "Request rejected"
    else if intent.operation = .Delete then
      .ok ⟨veto.resolved_item_key, veto.suggested_display_name, "0", "units", veto.resolved_unit,
        category, veto.moral_justification⟩
    else
      match intent.quantity with
      | none => invalid_argument "quantity is missing"
      | some q_str =>
        match verify_unit_stabilization L lower q_str veto.resolved_unit
            veto.conversion_multiplier_to_base with
        | .error e => .error e
        | .ok base_quantity =>
          match enforce_physical_invariants L lower intent veto.resolved_item_key base_quantity
              current_inventory with
          | .error e => .error e
          | .ok () =>
            match apply_arithmetic_accumulation L lower intent veto.resolved_item_key
                base_quantity current_inventory with
            | .error e => .error e
            | .ok accumulated =>
              .ok ⟨veto.resolved_item_key, veto.suggested_display_name,
                L.to_string accumulated.value, accumulated.dimension.base_unit,
                veto.resolved_unit, category, veto.moral_justification⟩

/-! ## What a check that passes says -/

theorem verify_unit_stabilization_ok {quantity unit_symbol ai_multiplier : String}
    {q : PhysicalQuantity D}
    (h : verify_unit_stabilization L lower quantity unit_symbol ai_multiplier = .ok q) :
    ∃ entry multiplier, resolve_symbol L lower unit_symbol = .ok entry ∧
      q.dimension = entry.dimension ∧ convert_to_base_val L quantity multiplier = .ok q.value ∧
      L.is_sign_negative q.value = false ∧ L.is_zero q.value = false := by
  unfold verify_unit_stabilization at h
  split at h
  · cases h
  rename_i entry hentry
  split at h
  · cases h
  rename_i ai_val hai
  split at h
  · cases h
  rename_i base_quantity hconv
  split at h
  · cases h
  rename_i hpos
  obtain rfl := Except.ok.inj h
  rw [not_or, Bool.not_eq_true, Bool.not_eq_true] at hpos
  split at hconv
  · obtain ⟨entry', hentry', hdim, hbase⟩ := parse_and_convert_with_multiplier_ok hconv
    exact ⟨entry', _, hentry', hdim, hbase, hpos⟩
  · obtain ⟨entry', hentry', hdim, hbase⟩ := parse_and_convert_ok hconv
    exact ⟨entry', _, hentry', hdim, hbase, hpos⟩

theorem enforce_physical_invariants_ok {intent : ScrubbedIntent} {resolved_key : String}
    {new_quantity : PhysicalQuantity D} {inventory : List GroceryItem} {item : GroceryItem}
    (h : enforce_physical_invariants L lower intent resolved_key new_quantity inventory = .ok ())
    (hop : intent.operation = .Add ∨ intent.operation = .Subtract)
    (hitem : existing inventory resolved_key = some item) :
    ∃ entry, resolve_symbol L lower item.unit = .ok entry ∧
      entry.dimension = new_quantity.dimension := by
  unfold enforce_physical_invariants at h
  rw [if_pos hop, hitem] at h
  dsimp only at h
  split at h
  · cases h
  · rename_i entry hentry
    split at h
    · cases h
    · rename_i hdim
      exact ⟨entry, hentry, not_not.mp hdim⟩

theorem arithmetic_dimension {op : Operation}
    {f : PhysicalQuantity D → PhysicalQuantity D → Except UnitError (PhysicalQuantity D)}
    {a b r : PhysicalQuantity D} (hf : arithmetic L op = some f) (h : f a b = .ok r) :
    r.dimension = b.dimension := by
  cases op with
  | Add =>
    obtain rfl := Option.some.inj hf
    obtain ⟨hsame, hdim, -⟩ := fenced_ok h
    rw [hdim, hsame]
  | Subtract =>
    obtain rfl := Option.some.inj hf
    obtain ⟨hsame, hdim, -⟩ := fenced_ok h
    rw [hdim, hsame]
  | Set => cases hf
  | Delete => cases hf

/-- Either the quantity stays as it is, or it is put together with that of the item. -/
theorem apply_arithmetic_accumulation_ok {intent : ScrubbedIntent} {resolved_key : String}
    {base total : PhysicalQuantity D} {inventory : List GroceryItem}
    (h : apply_arithmetic_accumulation L lower intent resolved_key base inventory = .ok total) :
    (arithmetic L intent.operation = none ∨ existing inventory resolved_key = none) ∧
        total = base ∨
      ∃ op item held, arithmetic L intent.operation = some op ∧
        existing inventory resolved_key = some item ∧
        parse_and_convert L lower item.quantity item.unit = .ok held ∧
        op held base = .ok total ∧ L.is_sign_negative total.value = false := by
  unfold apply_arithmetic_accumulation at h
  split at h
  · rename_i hop
    exact .inl ⟨.inl hop, (Except.ok.inj h).symm⟩
  rename_i op hop
  split at h
  · rename_i hnone
    exact .inl ⟨.inr hnone, (Except.ok.inj h).symm⟩
  rename_i item hitem
  split at h
  · cases h
  rename_i held hheld
  split at h
  · cases h
  rename_i result hresult
  split at h
  · cases h
  rename_i hpos
  obtain rfl := Except.ok.inj h
  exact .inr ⟨op, item, held, hop, hitem, hheld, hresult, by simpa using hpos⟩

/-- What stands behind a stabilized mutation that is no deletion. -/
structure Behind (L : DecimalLib D) (lower : Lower) (intent : ScrubbedIntent) (veto : VetoOutcome)
    (inventory : List GroceryItem) (s : StabilizedMutation) (q_str : String)
    (base total : PhysicalQuantity D) : Prop where
  quantity : intent.quantity = some q_str
  converted : verify_unit_stabilization L lower q_str veto.resolved_unit
    veto.conversion_multiplier_to_base = .ok base
  fenced : enforce_physical_invariants L lower intent veto.resolved_item_key base inventory = .ok ()
  accumulated : apply_arithmetic_accumulation L lower intent veto.resolved_item_key base
    inventory = .ok total
  updated : s.updated_base_quantity = L.to_string total.value
  unit : s.base_unit = total.dimension.base_unit
  display : s.display_unit = veto.resolved_unit

theorem validate_and_stabilize_ok {intent : ScrubbedIntent} {veto : VetoOutcome}
    {inventory : List GroceryItem} {s : StabilizedMutation}
    (h : validate_and_stabilize L lower intent veto inventory = .ok s) :
    s.resolved_item_key = veto.resolved_item_key ∧
      slugify s.resolved_item_key = s.resolved_item_key ∧
      (intent.operation = .Delete ∨
        intent.operation ≠ .Delete ∧
          ∃ q_str base total, Behind L lower intent veto inventory s q_str base total) := by
  unfold validate_and_stabilize at h
  split at h
  · cases h
  split at h
  · cases h
  rename_i hslug
  rw [not_not] at hslug
  split at h
  · rename_i hdelete
    rw [← Except.ok.inj h]
    exact ⟨rfl, hslug, .inl hdelete⟩
  rename_i hdelete
  split at h
  · cases h
  rename_i q_str hq
  split at h
  · cases h
  rename_i base hbase
  split at h
  · cases h
  rename_i hfence
  split at h
  · cases h
  rename_i total htotal
  rw [← Except.ok.inj h]
  exact ⟨rfl, hslug, .inr ⟨hdelete, q_str, base, total, hq, hbase, hfence, htotal, rfl, rfl, rfl⟩⟩

/-! ## Subtraction -/

/-- What the inventory holds of the key, in the base unit; an item that it does not hold, or
holds in another dimension, counts as nothing. -/
def heldQuantity (L : DecimalLib D) (lower : Lower) (inventory : List GroceryItem)
    (resolved_key base_unit : String) : ℚ :=
  match existing inventory resolved_key with
  | none => 0
  | some item =>
    match L.from_str item.quantity, resolve_symbol L lower item.unit with
    | some quantity, .ok entry =>
      if entry.dimension.base_unit = base_unit then L.value quantity * L.value entry.multiplier
      else 0
    | _, _ => 0

/-- There is no more of the item than before. -/
def NoMoreStock (L : DecimalLib D) (lower : Lower) (inventory : List GroceryItem)
    (s : StabilizedMutation) : Prop :=
  ∃ updated, L.from_str s.updated_base_quantity = some updated ∧
    L.value updated ≤ heldQuantity L lower inventory s.resolved_item_key s.base_unit

theorem existing_iff {inventory : List GroceryItem} {key : String} :
    existing inventory key ≠ none ↔ ∃ item ∈ inventory, item.item_key = key := by
  unfold existing
  simp

theorem verified_positive (hL : L.Lawful) {quantity unit_symbol ai_multiplier : String}
    {q : PhysicalQuantity D}
    (h : verify_unit_stabilization L lower quantity unit_symbol ai_multiplier = .ok q) :
    0 < L.value q.value := by
  obtain ⟨-, -, -, -, -, hsign, hzero⟩ := verify_unit_stabilization_ok h
  exact lt_of_le_of_ne (hL.sign _ hsign) (hL.zero _ hzero).symm

/-- The decimal operations that an update of an item meets are exact at their operands: the
product that brings the quantity it has to the base unit, and the sum or the difference. Where
the inventory has no item with the key none is met. -/
structure MetExactly (L : DecimalLib D) (lower : Lower) (intent : ScrubbedIntent)
    (veto : VetoOutcome) (inventory : List GroceryItem) : Prop where
  product : ∀ item qty entry r, existing inventory veto.resolved_item_key = some item →
    L.from_str item.quantity = some qty → resolve_symbol L lower item.unit = .ok entry →
    L.checked_mul qty entry.multiplier = some r →
    L.value r = L.value qty * L.value entry.multiplier
  sum : ∀ item q_str base held r, existing inventory veto.resolved_item_key = some item →
    intent.quantity = some q_str → intent.operation = .Add →
    verify_unit_stabilization L lower q_str veto.resolved_unit
      veto.conversion_multiplier_to_base = .ok base →
    parse_and_convert L lower item.quantity item.unit = .ok held →
    L.checked_add held.value base.value = some r →
    L.value r = L.value held.value + L.value base.value
  difference : ∀ item q_str base held r, existing inventory veto.resolved_item_key = some item →
    intent.quantity = some q_str → intent.operation = .Subtract →
    verify_unit_stabilization L lower q_str veto.resolved_unit
      veto.conversion_multiplier_to_base = .ok base →
    parse_and_convert L lower item.quantity item.unit = .ok held →
    L.checked_sub held.value base.value = some r →
    L.value r = L.value held.value - L.value base.value

theorem metExactly_of_exact (hL : L.Exact) (intent : ScrubbedIntent)
    (veto : VetoOutcome) (inventory : List GroceryItem) :
    MetExactly L lower intent veto inventory where
  product _ _ _ _ _ _ _ h := hL.mul _ _ _ h
  sum _ _ _ _ _ _ _ _ _ _ h := hL.add _ _ _ h
  difference _ _ _ _ _ _ _ _ _ _ h := hL.sub _ _ _ h

/-- What is taken off is one last place at least, more than the rounding has added. -/
theorem subtracted_lt (hL : L.Lawful) {item : GroceryItem}
    {quantity unit_symbol ai_multiplier : String} {base held total : PhysicalQuantity D}
    (hbase : verify_unit_stabilization L lower quantity unit_symbol ai_multiplier = .ok base)
    (hheld : parse_and_convert L lower item.quantity item.unit = .ok held)
    (hproduct : ∀ qty entry r, L.from_str item.quantity = some qty →
      resolve_symbol L lower item.unit = .ok entry → L.checked_mul qty entry.multiplier = some r →
      L.value r = L.value qty * L.value entry.multiplier)
    (hsub : held.sub L base = .ok total)
    (hdifference : ∀ r, L.checked_sub held.value base.value = some r →
      L.value r = L.value held.value - L.value base.value) :
    ∃ qty entry, L.from_str item.quantity = some qty ∧
      resolve_symbol L lower item.unit = .ok entry ∧ entry.dimension = total.dimension ∧
      L.value total.value < L.value qty * L.value entry.multiplier := by
  obtain ⟨hdim, hdim', hop⟩ := fenced_ok hsub
  obtain ⟨entry, hentry, hheldDim, hconv⟩ := parse_and_convert_ok hheld
  obtain ⟨qty, product, n, hqty, hmul, hround, hn⟩ := hL.base_units hconv
  obtain ⟨-, multiplier, -, -, hbaseConv, -⟩ := verify_unit_stabilization_ok hbase
  obtain ⟨-, -, k, -, -, -, hk⟩ := hL.base_units hbaseConv
  refine ⟨qty, entry, hqty, hentry, by rw [hdim', hheldDim], ?_⟩
  have hpos := verified_positive hL hbase
  rw [hk] at hpos
  have hunit : (0 : ℚ) < 10 ^ SI_STABILIZATION_PRECISION := by positivity
  have hone : (1 : ℚ) ≤ k := by
    have : (0 : ℚ) < k := (div_pos_iff_of_pos_right hunit).mp hpos
    exact_mod_cast this
  rw [hproduct qty entry product hqty hentry hmul] at hround
  have hwithin := abs_le.mp hround.within
  rw [hdifference _ hop, hn, hk, ← sub_div, div_lt_iff₀ hunit]
  linarith [hwithin.1]

/-- A subtraction whose operations are exact leaves no more than there was exactly when there is
an item to subtract from. -/
theorem subtract_no_more_stock_iff (hL : L.Lawful) {intent : ScrubbedIntent} {veto : VetoOutcome}
    {inventory : List GroceryItem} {s : StabilizedMutation} (hop : intent.operation = .Subtract)
    (hs : validate_and_stabilize L lower intent veto inventory = .ok s)
    (hmet : MetExactly L lower intent veto inventory) :
    NoMoreStock L lower inventory s ↔
      ∃ item ∈ inventory, item.item_key = veto.resolved_item_key := by
  obtain ⟨hkey, -, hdelete | ⟨-, q_str, base, total, hbehind⟩⟩ := validate_and_stabilize_ok hs
  · rw [hop] at hdelete
    cases hdelete
  obtain ⟨updated, hread, hsame⟩ := hL.read_back total.value
  have hstock : NoMoreStock L lower inventory s ↔ L.value total.value ≤
      heldQuantity L lower inventory veto.resolved_item_key total.dimension.base_unit := by
    unfold NoMoreStock
    rw [hbehind.updated, hread, hbehind.unit, hkey, ← hsame.value]
    simp
  rw [hstock, ← existing_iff]
  rcases apply_arithmetic_accumulation_ok hbehind.accumulated with
    ⟨hnone | hnone, htotal⟩ | ⟨op, item, held, hop', hitem, hheld, hresult, -⟩
  · rw [hop] at hnone
    cases hnone
  · -- nothing to subtract from: all of it is new
    have hpos := verified_positive hL hbehind.converted
    unfold heldQuantity
    rw [hnone, htotal]
    simp [hpos]
  · rw [hop] at hop'
    obtain rfl := Option.some.inj hop'
    obtain ⟨qty, entry, hqty, hentry, hdim, hlt⟩ := subtracted_lt hL hbehind.converted hheld
      (fun qty entry r => hmet.product item qty entry r hitem) hresult
      (fun r => hmet.difference item q_str base held r hitem hbehind.quantity hop
        hbehind.converted hheld)
    unfold heldQuantity
    rw [hitem]
    simp [hqty, hentry, hdim, hlt.le]

/-- Take a quantity of milk away. -/
def milkIntent (quantity : String) : ScrubbedIntent :=
  ⟨"milk", .Subtract, some quantity, some "ml", none⟩

/-- The oracle approves of milk. -/
def milkOutcome : VetoOutcome :=
  ⟨true, "Animal Secretions", "Approved", "milk", "Milk", "ml", "1"⟩

/-- Milk in the inventory. -/
def milkItem (quantity : String) : GroceryItem :=
  ⟨"milk", quantity, "ml", "Animal Secretions", "client", some ⟨0, 0⟩, 0, "ml"⟩

/-- The mutation that leaves a quantity of milk. -/
def milkLeft (quantity : String) : StabilizedMutation :=
  ⟨"milk", "Milk", quantity, "ml", "ml", .AnimalSecretions, "Approved"⟩

theorem subtract_no_more_stock_once :
    NoMoreStock fixedPoint unchanged [milkItem "10"] (milkLeft "7") ↔
      ∃ item ∈ [milkItem "10"], item.item_key = milkOutcome.resolved_item_key :=
  subtract_no_more_stock_iff fixedPoint_exact.toLawful
    (show (milkIntent "3").operation = .Subtract from rfl)
    (show validate_and_stabilize fixedPoint unchanged (milkIntent "3") milkOutcome [milkItem "10"] =
      .ok (milkLeft "7") by decide +kernel)
    (metExactly_of_exact fixedPoint_exact _ _ _)

/-- Five millilitres taken from an empty inventory are in it afterwards. -/
theorem subtract_creates_stock :
    ¬∀ (inventory : List GroceryItem) (intent : ScrubbedIntent) (veto : VetoOutcome)
        (s : StabilizedMutation), intent.operation = .Subtract → veto.is_approved = true →
      validate_and_stabilize fixedPoint unchanged intent veto inventory = .ok s →
      NoMoreStock fixedPoint unchanged inventory s := by
  intro h
  obtain ⟨updated, hread, hle⟩ := h [] (milkIntent "5") milkOutcome (milkLeft "5") rfl rfl
    (by decide +kernel)
  have hfive : fixedPoint.from_str (milkLeft "5").updated_base_quantity = some ⟨5, 0⟩ := by
    decide +kernel
  obtain rfl := Option.some.inj (hread.symm.trans hfive)
  norm_num [heldQuantity, existing, fixedPoint_value, Decimal.value] at hle

end gateway.ingress.stabilizer
