-- The counters and errors every crate shares. Terms, log indices and sequence
-- ids are 64-bit numbers with checked arithmetic: a sum or difference that
-- leaves the range is an error, never a wrapped value.
import LactoSensus.Lib.OrdMap

namespace common.types

/-- The number of a node. -/
abbrev NodeId := Nat

/-- The largest number of 64 bits. -/
def u64Max : Nat := 2 ^ 64 - 1

/-- A counter that leaves its range, with the name of its type. -/
inductive ArithmeticError where
  | Overflow (type_name : String)
  | Underflow (type_name : String)
deriving DecidableEq, Repr

/-- The text of the error, as it is shown. -/
def ArithmeticError.text : ArithmeticError → String
  | .Overflow type_name =>
    s!"Consensus Invariant Violation: Arithmetic overflow in {type_name}"
  | .Underflow type_name =>
    s!"Consensus Invariant Violation: Arithmetic underflow in {type_name}"

/-- What a node can fail with. -/
inductive NodeError where
  | Physical (msg : String)
  | NotLeader (leader_hint : Option NodeId)
  | Protocol (msg : String)
  | Integrity (msg : String)
  | Arithmetic (e : ArithmeticError)
deriving DecidableEq, Repr

/-- The text of the error, as it is shown. -/
def NodeError.text : NodeError → String
  | .Physical msg => s!"Physical Storage Failure (Retriable): {msg}"
  | .NotLeader leader_hint =>
    let hint := match leader_hint with
      | none => "None"
      | some id => s!"Some(NodeId({id}))"
    s!"Routing Mismatch: I am not the leader (Redirection Hint: {hint})"
  | .Protocol msg => s!"Protocol Invariant Violation (Fatal): {msg}"
  | .Integrity msg => s!"Data Integrity Violation (Fatal): {msg}"
  | .Arithmetic e => s!"Arithmetic Failure (Fatal): {e.text}"

/-- What a caller of the consensus handle is told. -/
inductive ConsensusError where
  | NotLeader
  | LeaderUnknown
  | CommitTimeout (index : Nat)
  | Timeout
  | Poisoned
  | Internal (msg : String)
  | Terminated
deriving DecidableEq, Repr

/-- `Add<u64>` of a counter type. -/
def checked_add (type_name : String) (a b : Nat) : Except ArithmeticError Nat :=
  if a + b ≤ u64Max then .ok (a + b) else .error (.Overflow type_name)

/-- `Sub<u64>` of `LogIndex`. -/
def checked_sub (a b : Nat) : Except ArithmeticError Nat :=
  if b ≤ a then .ok (a - b) else .error (.Underflow "LogIndex")

theorem checked_add_ok {type_name : String} {a b c : Nat}
    (h : checked_add type_name a b = .ok c) : c = a + b ∧ a + b ≤ u64Max := by
  unfold checked_add at h
  split at h
  · rename_i hle
    exact ⟨(Except.ok.inj h).symm, hle⟩
  · cases h

theorem checked_sub_ok {a b c : Nat} (h : checked_sub a b = .ok c) : c = a - b ∧ b ≤ a := by
  unfold checked_sub at h
  split at h
  · rename_i hle
    exact ⟨(Except.ok.inj h).symm, hle⟩
  · cases h

/-- One entry of the replicated log. -/
structure LogEntry (α : Type) where
  index : Nat
  term : Nat
  data : α
deriving DecidableEq, Repr

end common.types
