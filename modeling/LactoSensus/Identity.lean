-- The text of a node id, as headers, messages and the vote on disk carry it, and
-- what is read back of it; and what a cluster may be called.
import LactoSensus.Types
import LactoSensus.Units
import Mathlib.Data.Nat.Digits.Defs

open common.units (trim)

namespace common.types

/-! ## Numbers as text -/

inductive ParseIntError where
  | Empty
  | InvalidDigit
  | PosOverflow
deriving DecidableEq, Repr

def ParseIntError.text : ParseIntError → String
  | .Empty => "cannot parse integer from empty string"
  | .InvalidDigit => "invalid digit found in string"
  | .PosOverflow => "number too large to fit in target type"

/-- The digits after those that made `result`; the first fault counts. -/
def scan_u64 (result : Nat) : List Char → Except ParseIntError Nat
  | [] => .ok result
  | c :: cs =>
    if c.isDigit then
      let next := 10 * result + (c.toNat - '0'.toNat)
      if next ≤ u64Max then scan_u64 next cs else .error .PosOverflow
    else .error .InvalidDigit

/-- `str::parse::<u64>`: digits, with a plus sign before them or without. -/
def parse_u64 (s : String) : Except ParseIntError Nat :=
  match s.toList with
  | [] => .error .Empty
  | ['+'] => .error .InvalidDigit
  | '+' :: cs => scan_u64 0 cs
  | cs => scan_u64 0 cs

theorem le_ofDigitChars (cs : List Char) (n : Nat) : n ≤ Nat.ofDigitChars 10 cs n := by
  induction cs generalizing n with
  | nil => exact le_rfl
  | cons c cs ih =>
    have hnext := ih (10 * n + (c.toNat - '0'.toNat))
    rw [Nat.ofDigitChars_cons]
    omega

theorem scan_u64_digits {cs : List Char} (hcs : ∀ c ∈ cs, c.isDigit = true) {n : Nat}
    (hmax : Nat.ofDigitChars 10 cs n ≤ u64Max) :
    scan_u64 n cs = .ok (Nat.ofDigitChars 10 cs n) := by
  induction cs generalizing n with
  | nil => rfl
  | cons c cs ih =>
    rw [Nat.ofDigitChars_cons] at hmax ⊢
    have hnext := (le_ofDigitChars cs (10 * n + (c.toNat - '0'.toNat))).trans hmax
    rw [scan_u64, if_pos (hcs c List.mem_cons_self), if_pos hnext]
    exact ih (fun d hd => hcs d (List.mem_cons_of_mem c hd)) hmax

/-- What is printed is read back. -/
theorem parse_u64_repr {n : Nat} (hn : n ≤ u64Max) : parse_u64 (toString n) = .ok n := by
  have hdigits : ∀ c ∈ Nat.toDigits 10 n, c.isDigit = true := fun c hc =>
    Nat.isDigit_of_mem_toDigits (by norm_num) le_rfl hc
  have hread : scan_u64 0 (Nat.toDigits 10 n) = .ok n := by
    rw [scan_u64_digits hdigits (by rw [Nat.ofDigitChars_ten_toDigits]; exact hn),
      Nat.ofDigitChars_ten_toDigits]
  have htext : (toString n).toList = Nat.toDigits 10 n := by
    change (Nat.repr n).toList = _
    simp [Nat.repr]
  unfold parse_u64
  rw [htext]
  split
  · rename_i hnil
    exact absurd hnil Nat.toDigits_ne_nil
  · rename_i hplus
    have := hdigits '+' (by rw [hplus]; simp)
    cases this
  · rename_i cs _ hplus
    have := hdigits '+' (by rw [hplus]; simp)
    cases this
  · exact hread

/-! ## Node ids -/

inductive IdentityError where
  | InvalidNodeIdFormat (input : String) (source : ParseIntError)
  | ReservedNodeId
  | EmptyClusterId
  | InvalidClusterId (id : String)
deriving DecidableEq, Repr

def IdentityError.text : IdentityError → String
  | .InvalidNodeIdFormat input source => s!"Invalid NodeId format: '{input}' ({source.text})"
  | .ReservedNodeId => "NodeId(0) is reserved and cannot be used for active nodes"
  | .EmptyClusterId => "ClusterId cannot be empty or consist only of whitespace"
  | .InvalidClusterId id =>
    s!"ClusterId '{id}' contains invalid characters (must be alphanumeric, dashes, or underscores)"

/-- `NodeId::try_new`. -/
def NodeId.try_new (id : Nat) : Except IdentityError NodeId :=
  if id = 0 then .error .ReservedNodeId else .ok id

/-- `NodeId::from_str`. -/
def NodeId.from_str (s : String) : Except IdentityError NodeId :=
  match parse_u64 s with
  | .error e => .error (.InvalidNodeIdFormat s e)
  | .ok id => NodeId.try_new id

/-- What the type promises of a node id. -/
def NodeId.Valid (id : NodeId) : Prop := 0 < id ∧ id ≤ u64Max

instance (id : NodeId) : Decidable (NodeId.Valid id) := by
  unfold NodeId.Valid
  infer_instance

/-- The text of a node id names the node. -/
theorem from_str_text {id : NodeId} (h : NodeId.Valid id) :
    NodeId.from_str (toString id) = .ok id := by
  unfold NodeId.from_str NodeId.try_new
  rw [parse_u64_repr h.2]
  dsimp only
  rw [if_neg (Nat.pos_iff_ne_zero.mp h.1)]

/-! ## Cluster ids -/

/-- `char::is_alphanumeric`; what it says of a character outside ASCII is left open. -/
def is_alphanumeric (beyond : Char → Bool) (c : Char) : Bool :=
  if c.toNat < 128 then c.isAlphanum else beyond c

/-- `ClusterId::try_new`. -/
def ClusterId.try_new (beyond : Char → Bool) (id : String) : Except IdentityError String :=
  let trimmed := trim id.toList
  if trimmed.isEmpty then .error .EmptyClusterId
  else if !trimmed.all (fun c => is_alphanumeric beyond c || c == '-' || c == '_') then
    .error (.InvalidClusterId (String.ofList trimmed))
  else .ok (String.ofList trimmed)

theorem ClusterId.try_new_chars {beyond : Char → Bool} {raw id : String}
    (h : ClusterId.try_new beyond raw = .ok id) :
    ∀ c ∈ id.toList, is_alphanumeric beyond c = true ∨ c = '-' ∨ c = '_' := by
  unfold ClusterId.try_new at h
  dsimp only at h
  split at h
  · cases h
  split at h
  · cases h
  rename_i hall
  obtain rfl := Except.ok.inj h
  rw [Bool.not_eq_true, Bool.not_eq_false', List.all_eq_true] at hall
  intro c hc
  rw [String.toList_ofList] at hc
  simpa [or_assoc] using hall c hc

end common.types
