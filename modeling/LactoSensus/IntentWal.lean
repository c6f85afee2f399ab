-- The log of intents as it lies in its database: one tree, by sequence id with the most
-- significant byte first. A recovery finds every intent that was appended and not
-- removed since, each once and as it was appended last, in the order of the ids.
import LactoSensus.SledTrees
import LactoSensus.Client

open ordmap
open bigendian

namespace client_cli.wal

variable {R : Type}

/-- How a request becomes bytes. What is written is read back. -/
structure RequestCodec (R : Type) where
  encode : R → Bytes
  decode : Bytes → Except String R
  back : ∀ req, decode (encode req) = .ok req

/-- What a recovery can fail with. -/
inductive WalError where
  | Corruption (msg : String)
  | Serialization (msg : String)
deriving DecidableEq, Repr

/-- The text of the error, as it is shown. -/
def WalError.text : WalError → String
  | .Corruption msg => s!"Data corruption: {msg}"
  | .Serialization msg => s!"Serialization failure: {msg}"

/-- The tree of the database. -/
structure IntentWal where
  db : OrdMap Bytes Bytes
deriving DecidableEq

/-- An intent is written before it is sent. -/
def IntentWal.append (c : RequestCodec R) (sequence_id : Nat) (req : R) (wal : IntentWal) :
    IntentWal :=
  ⟨wal.db.insert (to_be_bytes sequence_id) (c.encode req)⟩

/-- An intent that has been answered is forgotten. -/
def IntentWal.remove (sequence_id : Nat) (wal : IntentWal) : IntentWal :=
  ⟨wal.db.erase (to_be_bytes sequence_id)⟩

/-- A key is eight bytes. -/
def decode_entry (c : RequestCodec R) (e : Bytes × Bytes) : Except WalError (Nat × R) :=
  if e.1.length = 8 then
    match c.decode e.2 with
    | .ok req => .ok (value e.1, req)
    | .error msg => .error (.Serialization msg)
  else .error (.Corruption "Invalid sequence ID key length")

/-- The loop over the tree; the first entry that cannot be read ends it. -/
def decodeAll (c : RequestCodec R) : List (Bytes × Bytes) → Except WalError (List (Nat × R))
  | [] => .ok []
  | e :: es =>
    match decode_entry c e with
    | .error err => .error err
    | .ok entry => (decodeAll c es).map (entry :: ·)

/-- All that is left of the last life of the client. -/
def IntentWal.recover (c : RequestCodec R) (wal : IntentWal) : Except WalError (List (Nat × R)) :=
  (decodeAll c wal.db.entries).map fun recovered =>
    recovered.mergeSort fun a b => a.1 ≤ b.1

/-! ## Appends and removals -/

/-- What the client does with its log. -/
inductive WalOp (R : Type) where
  | Append (sequence_id : Nat) (req : R)
  | Remove (sequence_id : Nat)

/-- The intent that the call is about. -/
def WalOp.sequence_id : WalOp R → Nat
  | .Append sequence_id _ => sequence_id
  | .Remove sequence_id => sequence_id

/-- The call on the database. -/
def WalOp.apply (c : RequestCodec R) (wal : IntentWal) : WalOp R → IntentWal
  | .Append sequence_id req => wal.append c sequence_id req
  | .Remove sequence_id => wal.remove sequence_id

/-- The log by number, as the client sees it. -/
def WalOp.note (log : OrdMap Nat R) : WalOp R → OrdMap Nat R
  | .Append sequence_id req => log.insert sequence_id req
  | .Remove sequence_id => log.erase sequence_id

/-- What a call leaves under the id. -/
def WalOp.leaves (id : Nat) (found : Option R) (op : WalOp R) : Option R :=
  if op.sequence_id = id then
    match op with
    | .Append _ req => some req
    | .Remove _ => none
  else found

/-- What the last of the calls for the id has left. -/
def pending (id : Nat) (ops : List (WalOp R)) : Option R := ops.foldl (WalOp.leaves id) none

theorem note_get? (log : OrdMap Nat R) (ops : List (WalOp R)) (id : Nat) :
    (ops.foldl WalOp.note log).get? id = ops.foldl (WalOp.leaves id) (log.get? id) := by
  induction ops generalizing log with
  | nil => rfl
  | cons op ops ih =>
    rw [List.foldl_cons, List.foldl_cons, ih]
    congr 1
    cases op with
    | Append sequence_id req =>
      change (log.insert sequence_id req).get? id =
        if sequence_id = id then some req else log.get? id
      rw [OrdMap.get?_insert]
      simp only [eq_comm]
    | Remove sequence_id =>
      change (log.erase sequence_id).get? id = if sequence_id = id then none else log.get? id
      rw [OrdMap.get?_erase]
      simp only [eq_comm]

/-! ## Recovery -/

variable {c : RequestCodec R} {log : OrdMap Nat R} {wal : IntentWal}

/-- The database holds the log by number. -/
abbrev Logged (c : RequestCodec R) (log : OrdMap Nat R) (wal : IntentWal) : Prop :=
  Recoded u64 to_be_bytes c.encode log wal.db

theorem Logged.op (h : Logged c log wal) {op : WalOp R} (hop : op.sequence_id ∈ u64) :
    Logged c (op.note log) (op.apply c wal) := by
  cases op with
  | Append sequence_id req => exact Recoded.insert to_be_bytes_mono h hop
  | Remove sequence_id => exact Recoded.erase to_be_bytes_mono h hop

theorem Logged.ops (h : Logged c log wal) {ops : List (WalOp R)}
    (hops : ∀ op ∈ ops, op.sequence_id ∈ u64) :
    Logged c (ops.foldl WalOp.note log) (ops.foldl (WalOp.apply c) wal) := by
  induction ops generalizing log wal with
  | nil => exact h
  | cons op ops ih =>
    exact ih (Logged.op h (hops op List.mem_cons_self)) fun o ho =>
      hops o (List.mem_cons_of_mem _ ho)

theorem decodeAll_back (c : RequestCodec R) {es : List (Nat × R)} (hes : ∀ e ∈ es, e.1 ∈ u64) :
    decodeAll c (es.map fun e => (to_be_bytes e.1, c.encode e.2)) = .ok es := by
  induction es with
  | nil => rfl
  | cons e es ih =>
    have hentry : decode_entry c (to_be_bytes e.1, c.encode e.2) = .ok e := by
      unfold decode_entry to_be_bytes
      rw [if_pos (bigendian.length_digits 8 e.1), c.back,
        value_digits (hes e List.mem_cons_self)]
    rw [List.map_cons, decodeAll, hentry, ih fun e he => hes e (List.mem_cons_of_mem _ he)]
    rfl

/-- The tree is walked in the order of the ids, so the sort changes nothing. -/
theorem Logged.recover (h : Logged c log wal) : wal.recover c = .ok log.entries := by
  have hsorted : log.entries.Pairwise fun a b => decide (a.1 ≤ b.1) = true :=
    log.sorted.imp fun hlt => decide_eq_true hlt.le
  unfold IntentWal.recover
  rw [h.entries, decodeAll_back c h.keys]
  exact congrArg Except.ok (List.mergeSort_of_pairwise hsorted)

/-- A recovery fails on nothing that was logged. It finds each intent whose last call was an
append, once, as it was appended, and in the order of the ids: the log that the client goes by. -/
theorem recover_finds_pending (c : RequestCodec R) (ops : List (WalOp R))
    (hops : ∀ op ∈ ops, op.sequence_id ∈ u64) :
    ∃ recovered, (ops.foldl (WalOp.apply c) ⟨.empty⟩).recover c = .ok recovered ∧
      recovered = (ops.foldl WalOp.note .empty).entries ∧
      recovered.Pairwise (fun a b => a.1 < b.1) ∧
      ∀ id req, (id, req) ∈ recovered ↔ pending id ops = some req := by
  have hlogged : Logged c (ops.foldl WalOp.note .empty) (ops.foldl (WalOp.apply c) ⟨.empty⟩) :=
    have hempty : Logged c .empty ⟨.empty⟩ := .empty
    Logged.ops hempty hops
  refine ⟨_, Logged.recover hlogged, rfl, (ops.foldl WalOp.note .empty).sorted, fun id req => ?_⟩
  rw [← OrdMap.get?_eq_some_iff, note_get?, OrdMap.get?_empty]
  rfl

/-! ## The requests as the schema has them -/

open protobuf (numberField bytesField optionalField)
open gateway.ingress (Operation)

/-- The numbers of `OperationType`. -/
def operationNumber : Operation → Nat
  | .Add => 1
  | .Subtract => 2
  | .Set => 3
  | .Delete => 4

/-- The number 0 is no operation. -/
def numberedOperation : Nat → Except String Operation
  | 1 => .ok .Add
  | 2 => .ok .Subtract
  | 3 => .ok .Set
  | 4 => .ok .Delete
  | _ => .error "unspecified operation"

theorem numberedOperation_back (op : Operation) :
    numberedOperation (operationNumber op) = .ok op := by
  cases op <;> rfl

/-- A text that may be missing. -/
def optional_utf8 : Option Bytes → Except String (Option String)
  | none => .ok none
  | some data => (utf8.decode data).map some

theorem optional_utf8_back (s : Option String) : optional_utf8 (s.map utf8.encode) = .ok s := by
  cases s with
  | none => rfl
  | some s =>
    change (utf8.decode (utf8.encode s)).map some = _
    rw [utf8.decode_encode]
    rfl

/-- The message of an intent. -/
def encodeIntent (intent : MutationIntent) : Bytes :=
  protobuf.encode (bytesField 1 (utf8.encode intent.item_key) ++
    (optionalField 2 (intent.quantity.map utf8.encode) ++
      (optionalField 3 (intent.unit.map utf8.encode) ++
        (optionalField 4 (intent.category.map utf8.encode) ++
        (numberField 5 (operationNumber intent.operation) ++ [])))))

/-- The intent of a message. -/
def decodeIntent (data : Bytes) : Except String MutationIntent :=
  match protobuf.decode data with
  | none => .error "invalid wire format"
  | some m => do
    let item_key ← utf8.decode (protobuf.bytes m 1)
    let quantity ← optional_utf8 (protobuf.optional m 2)
    let unit ← optional_utf8 (protobuf.optional m 3)
    let category ← optional_utf8 (protobuf.optional m 4)
    let operation ← numberedOperation (protobuf.number m 5)
    .ok ⟨item_key, quantity, unit, category, operation⟩

theorem decodeIntent_back (intent : MutationIntent) :
    decodeIntent (encodeIntent intent) = .ok intent := by
  unfold decodeIntent encodeIntent
  rw [protobuf.decode_encode]
  simp [-List.append_nil, protobuf.number, protobuf.bytes, protobuf.optional, utf8.decode_encode,
    optional_utf8_back, numberedOperation_back, bind, Except.bind]

/-- The message of a request. -/
def schema : RequestCodec ProposeMutationRequest where
  encode req :=
    protobuf.encode (bytesField 1 (utf8.encode req.client_id) ++ (numberField 2 req.sequence_id ++
      (optionalField 3 (req.intent.map encodeIntent) ++ [])))
  decode data :=
    match protobuf.decode data with
    | none => .error "invalid wire format"
    | some m => do
      let client_id ← utf8.decode (protobuf.bytes m 1)
      let intent ← match protobuf.optional m 3 with
        | none => .ok none
        | some data => (decodeIntent data).map some
      .ok ⟨client_id, protobuf.number m 2, intent⟩
  back req := by
    obtain ⟨client_id, sequence_id, intent⟩ := req
    rw [protobuf.decode_encode]
    cases intent <;> simp [-List.append_nil, protobuf.number, protobuf.bytes, protobuf.optional,
      utf8.decode_encode, decodeIntent_back, bind, Except.bind, Except.map]

/-- Add one of an item. -/
def intentOf (item_key : String) (sequence_id : Nat) : ProposeMutationRequest :=
  .new "alice" sequence_id ⟨item_key, some "1", none, none, .Add⟩

/-- Two intents out of their order, one of them appended again and the other one removed. -/
def scattered : List (WalOp ProposeMutationRequest) :=
  [.Append 256 (intentOf "milk" 256), .Append 255 (intentOf "rice" 255),
    .Append 256 (intentOf "oats" 256), .Append 300 (intentOf "eggs" 300), .Remove 300]

theorem recover_finds_pending_scattered :
    (scattered.foldl (WalOp.apply schema) ⟨.empty⟩).recover schema =
      .ok [(255, intentOf "rice" 255), (256, intentOf "oats" 256)] := by
  have hfits : ∀ op ∈ scattered, op.sequence_id ∈ u64 := by
    simp [scattered, WalOp.sequence_id]
  obtain ⟨recovered, hrecover, heq, -, -⟩ := recover_finds_pending schema scattered hfits
  rw [hrecover, heq]
  rfl

end client_cli.wal
