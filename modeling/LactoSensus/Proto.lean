-- The messages of the application: what a client asks for, what the ledger
-- records and what the store keeps. Enumerations travel as integers, so a
-- record can hold one that no variant has.
import LactoSensus.Types

namespace common.proto

/-- `google.protobuf.Timestamp`: seconds may be negative. -/
structure Timestamp where
  seconds : Int
  nanos : Int
deriving DecidableEq, Repr

/-- The outcome of a proposal, as the ledger has it. -/
inductive MutationStatus where
  | Unspecified
  | Committed
  | Rejected
  | Vetoed
deriving DecidableEq, Repr

/-- `status as i32`. -/
def MutationStatus.toInt : MutationStatus → Int
  | .Unspecified => 0
  | .Committed => 1
  | .Rejected => 2
  | .Vetoed => 3

/-- A number that the schema does not know is no status. -/
def MutationStatus.try_from (i : Int) : Option MutationStatus :=
  if i = 0 then some .Unspecified
  else if i = 1 then some .Committed
  else if i = 2 then some .Rejected
  else if i = 3 then some .Vetoed
  else none

/-- What a log entry says of an item. -/
structure CommittedMutation where
  resolved_item_key : String
  suggested_display_name : String
  updated_base_quantity : String
  base_unit : String
  display_unit : String
  updated_category : String
  client_id : String
  sequence_id : Nat
  raw_user_input : String
  moral_justification : String
  event_time : Option Timestamp
  is_delete : Bool
  status : Int
deriving DecidableEq, Repr

/-- `CommittedMutation::new`; the clock of the host gives `now`. -/
def CommittedMutation.new (client_id : String) (sequence_id : Nat) (resolved_item_key : String)
    (suggested_display_name updated_base_quantity base_unit display_unit : String)
    (updated_category raw_user_input moral_justification : String) (is_delete : Bool)
    (status : MutationStatus) (now : Timestamp) : CommittedMutation where
  client_id := client_id
  sequence_id := sequence_id
  resolved_item_key := resolved_item_key
  suggested_display_name := suggested_display_name
  updated_base_quantity := updated_base_quantity
  base_unit := base_unit
  display_unit := display_unit
  updated_category := updated_category
  raw_user_input := raw_user_input
  moral_justification := moral_justification
  is_delete := is_delete
  status := status.toInt
  event_time := some now

/-- The answer to a proposal. -/
structure ProposeMutationResponse where
  status : Int
  state_version : Nat
  leader_hint : String
  error_message : String
deriving DecidableEq, Repr

/-- An item of the inventory. -/
structure GroceryItem where
  item_key : String
  quantity : String
  unit : String
  category : String
  last_modifier_id : String
  last_activity : Option Timestamp
  state_version : Nat
  display_unit : String
deriving DecidableEq, Repr

/-- What the store remembers of a client: its last request and what became of it. -/
structure SessionRecord where
  client_id : String
  last_sequence_id : Nat
  status : Int
  log_index : Nat
  moral_justification : String
  last_activity_effective_time : Option Timestamp
deriving DecidableEq, Repr

end common.proto
