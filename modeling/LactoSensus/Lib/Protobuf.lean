-- The wire format of protocol buffers: numbers in groups of seven bits, the least
-- significant group first, and a message as its fields one after the other, each under
-- its number. A message is read back as the list of fields it was written from.
import Mathlib.Data.Fin.Basic
import Mathlib.Tactic.Ring
import Mathlib.Tactic.Linarith

namespace protobuf

abbrev Byte := Fin 256

/-! ## Numbers -/

/-- A number in at most `w + 1` groups; every group but the last has its high bit set. -/
def groups : ℕ → ℕ → List Byte
  | 0, n => [Fin.ofNat 256 n]
  | w + 1, n =>
    if n < 128 then [Fin.ofNat 256 n] else Fin.ofNat 256 (n % 128 + 128) :: groups w (n / 128)

/-- A number in as many groups as it needs. -/
def varint (n : ℕ) : List Byte := groups n n

/-- A number, and what stands after it. -/
def takeGroups : ℕ → List Byte → Option (ℕ × List Byte)
  | _, [] => none
  | fuel, c :: cs =>
    if c.val < 128 then some (c.val, cs)
    else
      match fuel with
      | 0 => none
      | fuel + 1 => (takeGroups fuel cs).map fun r => (c.val - 128 + 128 * r.1, r.2)

def takeVarint (cs : List Byte) : Option (ℕ × List Byte) := takeGroups cs.length cs

theorem takeGroups_small {n : ℕ} (hn : n < 128) (fuel : ℕ) (rest : List Byte) :
    takeGroups fuel (Fin.ofNat 256 n :: rest) = some (n, rest) := by
  have hval : (Fin.ofNat 256 n : Byte).val = n := by
    rw [Fin.val_ofNat]
    omega
  unfold takeGroups
  rw [hval, if_pos hn]

theorem takeGroups_groups {w n fuel : ℕ} (hn : n < 128 ^ (w + 1)) (rest : List Byte)
    (hfuel : (groups w n).length ≤ fuel) :
    takeGroups fuel (groups w n ++ rest) = some (n, rest) := by
  induction w generalizing n fuel with
  | zero => exact takeGroups_small (by simpa using hn) fuel rest
  | succ w ih =>
    unfold groups at hfuel ⊢
    split
    · rename_i hsmall
      exact takeGroups_small hsmall fuel rest
    · rename_i hlarge
      rw [if_neg hlarge, List.length_cons] at hfuel
      obtain ⟨fuel, rfl⟩ : ∃ k, fuel = k + 1 := Nat.exists_eq_succ_of_ne_zero (by omega)
      have hnext : n / 128 < 128 ^ (w + 1) := by
        rw [Nat.div_lt_iff_lt_mul (by norm_num)]
        calc n < 128 ^ (w + 1 + 1) := hn
          _ = 128 ^ (w + 1) * 128 := by ring
      have hval : (Fin.ofNat 256 (n % 128 + 128) : Byte).val = n % 128 + 128 := by
        rw [Fin.val_ofNat]
        omega
      rw [List.cons_append, takeGroups, hval, if_neg (by omega),
        ih hnext (Nat.le_of_succ_le_succ hfuel), Option.map_some]
      congr 2
      omega

/-- A number is read back, and no more than it. -/
theorem takeVarint_varint (n : ℕ) (rest : List Byte) :
    takeVarint (varint n ++ rest) = some (n, rest) := by
  have hn : n < 128 ^ (n + 1) :=
    (Nat.lt_pow_self (by norm_num)).trans (Nat.pow_lt_pow_right (by norm_num) n.lt_succ_self)
  exact takeGroups_groups hn rest (by simp [varint])

theorem varint_ne_nil (n : ℕ) : varint n ≠ [] := by
  unfold varint
  cases n with
  | zero => exact List.cons_ne_nil _ _
  | succ w =>
    unfold groups
    split <;> exact List.cons_ne_nil _ _

/-- A signed number is written as the 64-bit number that is congruent to it. -/
def signed (i : ℤ) : ℕ := (i % 2 ^ 64).toNat

def int64 (n : ℕ) : ℤ := (n : ℤ).bmod (2 ^ 64)

/-- The low half alone. -/
def int32 (n : ℕ) : ℤ := (n : ℤ).bmod (2 ^ 32)

theorem int64_signed {i : ℤ} (hi : -9223372036854775808 ≤ i ∧ i < 9223372036854775808) :
    int64 (signed i) = i := by
  unfold int64 signed Int.bmod
  dsimp only
  split <;> omega

theorem int32_signed {i : ℤ} (hi : -2147483648 ≤ i ∧ i < 2147483648) :
    int32 (signed i) = i := by
  unfold int32 signed Int.bmod
  dsimp only
  split <;> omega

/-! ## Messages -/

/-- A field is a number, or bytes with their length before them. -/
inductive Field where
  | Varint (n : ℕ)
  | Bytes (data : List Byte)
deriving DecidableEq

def Field.wire_type : Field → ℕ
  | .Varint _ => 0
  | .Bytes _ => 2

def Field.encode : Field → List Byte
  | .Varint n => varint n
  | .Bytes data => varint data.length ++ data

/-- The fields of a message with their numbers, in their order. -/
abbrev Message := List (ℕ × Field)

def encode (m : Message) : List Byte :=
  m.flatMap fun f => varint (8 * f.1 + f.2.wire_type) ++ f.2.encode

/-- The field of the wire type at the front. -/
def takeField (wire_type : ℕ) (cs : List Byte) : Option (Field × List Byte) :=
  if wire_type = 0 then (takeVarint cs).map fun r => (.Varint r.1, r.2)
  else if wire_type = 2 then
    (takeVarint cs).bind fun r =>
      if r.1 ≤ r.2.length then some (.Bytes (r.2.take r.1), r.2.drop r.1) else none
  else none

/-- Read fields until nothing is left; every one of them takes at least one byte. -/
def decodeFrom : ℕ → List Byte → Option Message
  | 0, cs => if cs = [] then some [] else none
  | fuel + 1, cs =>
    if cs = [] then some []
    else
      (takeVarint cs).bind fun tag =>
        (takeField (tag.1 % 8) tag.2).bind fun field =>
          (decodeFrom fuel field.2).map fun m => (tag.1 / 8, field.1) :: m

def decode (cs : List Byte) : Option Message := decodeFrom cs.length cs

theorem takeField_encode (field : Field) (rest : List Byte) :
    takeField field.wire_type (field.encode ++ rest) = some (field, rest) := by
  unfold takeField
  cases field with
  | Varint n =>
    rw [if_pos (show (Field.Varint n).wire_type = 0 from rfl),
      show (Field.Varint n).encode = varint n from rfl, takeVarint_varint]
    rfl
  | Bytes data =>
    rw [if_neg (show (Field.Bytes data).wire_type ≠ 0 by simp [Field.wire_type]),
      if_pos (show (Field.Bytes data).wire_type = 2 from rfl),
      show (Field.Bytes data).encode = varint data.length ++ data from rfl, List.append_assoc,
      takeVarint_varint, Option.bind_some]
    simp

theorem decodeFrom_encode (m : Message) {fuel : ℕ} (hfuel : m.length ≤ fuel) :
    decodeFrom fuel (encode m) = some m := by
  induction m generalizing fuel with
  | nil => cases fuel <;> simp [encode, decodeFrom]
  | cons f m ih =>
    obtain ⟨fuel, rfl⟩ : ∃ k, fuel = k + 1 := Nat.exists_eq_succ_of_ne_zero (by
      rw [List.length_cons] at hfuel
      omega)
    have hrest := ih (Nat.le_of_succ_le_succ hfuel)
    have htype : f.2.wire_type ≤ 2 := by
      cases f.2 <;> simp [Field.wire_type]
    have hcons : encode (f :: m) =
        varint (8 * f.1 + f.2.wire_type) ++ (f.2.encode ++ encode m) := by
      simp [encode]
    have hne : encode (f :: m) ≠ [] := by
      rw [hcons]
      simp [varint_ne_nil]
    have hmod : (8 * f.1 + f.2.wire_type) % 8 = f.2.wire_type := by omega
    have hdiv : (8 * f.1 + f.2.wire_type) / 8 = f.1 := by omega
    unfold decodeFrom
    rw [if_neg hne, hcons, takeVarint_varint, Option.bind_some, hmod, takeField_encode,
      Option.bind_some, hrest, hdiv]
    rfl

theorem length_le_encode (m : Message) : m.length ≤ (encode m).length := by
  induction m with
  | nil => exact le_rfl
  | cons f m ih =>
    have hpos : 0 < (varint (8 * f.1 + f.2.wire_type)).length :=
      List.length_pos_iff.mpr (varint_ne_nil _)
    simp only [encode, List.flatMap_cons, List.length_append, List.length_cons] at ih ⊢
    omega

/-- A message is read back as it was written. -/
theorem decode_encode (m : Message) : decode (encode m) = some m :=
  decodeFrom_encode m (length_le_encode m)

/-! ## Fields by number -/

/-- The last number under `k`. -/
def numberFrom (k found : ℕ) (m : Message) : ℕ :=
  m.foldl (fun found f => match f with
    | (j, .Varint n) => if j = k then n else found
    | _ => found) found

/-- The last bytes under `k`. -/
def bytesFrom (k : ℕ) (found : Option (List Byte)) (m : Message) : Option (List Byte) :=
  m.foldl (fun found f => match f with
    | (j, .Bytes data) => if j = k then some data else found
    | _ => found) found

/-- A number that is missing is zero. -/
def number (m : Message) (k : ℕ) : ℕ := numberFrom k 0 m

def optional (m : Message) (k : ℕ) : Option (List Byte) := bytesFrom k none m

def bytes (m : Message) (k : ℕ) : List Byte := (optional m k).getD []

/-- Defaults are not written. -/
def numberField (k n : ℕ) : Message := if n = 0 then [] else [(k, .Varint n)]

def bytesField (k : ℕ) (data : List Byte) : Message := if data = [] then [] else [(k, .Bytes data)]

def optionalField (k : ℕ) (data : Option (List Byte)) : Message :=
  data.toList.map fun d => (k, .Bytes d)

variable {k j n found : ℕ} {data : List Byte} {maybe held : Option (List Byte)} {m : Message}

@[simp] theorem numberFrom_self : numberFrom k 0 (numberField k n ++ m) = numberFrom k n m := by
  unfold numberField
  split_ifs with hn <;> simp [numberFrom, hn]

@[simp] theorem numberFrom_other (hne : j ≠ k) :
    numberFrom k found (numberField j n ++ m) = numberFrom k found m := by
  unfold numberField
  split_ifs <;> simp [numberFrom, hne]

@[simp] theorem numberFrom_bytes :
    numberFrom k found (bytesField j data ++ m) = numberFrom k found m := by
  unfold bytesField
  split_ifs <;> simp [numberFrom]

@[simp] theorem numberFrom_optional :
    numberFrom k found (optionalField j maybe ++ m) = numberFrom k found m := by
  cases maybe <;> simp [optionalField, numberFrom]

@[simp] theorem bytesFrom_number :
    bytesFrom k held (numberField j n ++ m) = bytesFrom k held m := by
  unfold numberField
  split_ifs <;> simp [bytesFrom]

@[simp] theorem bytesFrom_self : bytesFrom k none (bytesField k data ++ m) =
    bytesFrom k (if data = [] then none else some data) m := by
  unfold bytesField
  split_ifs <;> simp [bytesFrom]

@[simp] theorem bytesFrom_other (hne : j ≠ k) :
    bytesFrom k held (bytesField j data ++ m) = bytesFrom k held m := by
  unfold bytesField
  split_ifs <;> simp [bytesFrom, hne]

@[simp] theorem bytesFrom_optional_self :
    bytesFrom k none (optionalField k maybe ++ m) = bytesFrom k maybe m := by
  cases maybe <;> simp [optionalField, bytesFrom]

@[simp] theorem bytesFrom_optional_other (hne : j ≠ k) :
    bytesFrom k held (optionalField j maybe ++ m) = bytesFrom k held m := by
  cases maybe <;> simp [optionalField, bytesFrom, hne]

@[simp] theorem numberFrom_nil : numberFrom k found [] = found := rfl

@[simp] theorem bytesFrom_nil : bytesFrom k held [] = held := rfl

@[simp] theorem getD_written : (if data = [] then none else some data).getD [] = data := by
  split_ifs with hnil <;> simp [hnil]

end protobuf
