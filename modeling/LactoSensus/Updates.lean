-- No lost update: what an entry writes was computed before the entry has its
-- place in the log. Beside each request stands what its quantity was computed
-- from, and beside each entry what the request behind it was. An item is worth
-- what the requests have added to it as long as each of them was shown the item
-- as the log had it in front of the entry, and its arithmetic rounded nothing off.
import Mathlib.Algebra.BigOperators.Intervals
import LactoSensus.Inventory
import LactoSensus.Outcomes

open common.proto
open common.types
open common.units
open decimal
open lacto_fsm
open machine
open ordmap
open raft (Each Safe Traced Written)

namespace gateway.ingress

open gateway.veto
open gateway.ingress.stabilizer

variable {α D : Type} {L : DecimalLib D} {lower : Lower} {c : Codec α} {members : Finset NodeId}

/-! ## Requests and what they were computed from -/

/-- What the quantity of a request was computed from: the inventory that the handler was shown,
and the reply of the oracle that it went by. -/
structure Origin where
  intent : ScrubbedIntent
  inventory : List GroceryItem
  veto : VetoOutcome
deriving DecidableEq

/-- The gateway, with the origin of each request that has one and of each entry, by its term and
the number of entries in front of it. -/
structure Noted where
  raft : raft.State NodeId CommittedMutation
  requests : List (Request × Option Origin)
  answers : List Answer
  origin : Nat → Nat → Option Origin

def Noted.init : Noted := ⟨raft.State.init, [], [], fun _ _ => none⟩

/-- What there is without the notes. -/
def Noted.bare (w : Noted) : Gateway := ⟨w.raft, w.requests.map Prod.fst, w.answers⟩

def Noted.withStage (w : Noted) (i : Nat) (r : Request) (stage : Stage) (note : Option Origin) :
    Noted :=
  { w with requests := w.requests.set i ({ r with stage := stage }, note) }

def Noted.finish (w : Noted) (i : Nat) (r : Request) (response : ProposeMutationResponse) :
    Noted :=
  { w with
    requests := w.requests.eraseIdx i
    answers := ⟨r.client_id, r.sequence_id, response⟩ :: w.answers }

/-- The steps of the gateway. The origin of a request is noted when its loop is done, and becomes
that of the entry which is proposed. -/
inductive NotedMoves (members : Finset NodeId) (c : Codec α) (L : DecimalLib D) (lower : Lower)
    (w : Noted) : GatewayAct → Noted → Prop where
  | replicate {n : NodeId} {s : raft.State NodeId CommittedMutation}
      (hs : Replicates members n w.raft s) :
      NotedMoves members c L lower w (.Replicate n) { w with raft := s }
  | arrive {n : NodeId} {raw client_id : String} {sequence_id : Nat} {intent : ScrubbedIntent}
      {raw_user_input : String} (hrole : w.raft.role n = .leader)
      (hid : c.parse_uuid raw = .ok client_id) :
      NotedMoves members c L lower w (.Arrive n) { w with
        requests :=
          (⟨n, client_id, sequence_id, intent, raw_user_input, .Authorized⟩, none) :: w.requests }
  | answer {i k : Nat} {r : Request} {note : Option Origin} {store : LactoStore}
      {response : ProposeMutationResponse} (hr : w.requests[i]? = some (r, note))
      (hstage : r.stage = .Authorized) (hstore : Serving c w.raft r.node k store)
      (hwall : enforce_sequence_firewall store r.client_id r.sequence_id = .ok (some response)) :
      NotedMoves members c L lower w (.Firewall i) (w.finish i r response)
  | pass {i k : Nat} {r : Request} {note : Option Origin} {store : LactoStore}
      (hr : w.requests[i]? = some (r, note)) (hstage : r.stage = .Authorized)
      (hstore : Serving c w.raft r.node k store)
      (hwall : enforce_sequence_firewall store r.client_id r.sequence_id = .ok none) :
      NotedMoves members c L lower w (.Firewall i) (w.withStage i r .Passed note)
  | lock {i k : Nat} {r : Request} {note : Option Origin} {store : LactoStore}
      {inventory : List GroceryItem} (hr : w.requests[i]? = some (r, note))
      (hstage : r.stage = .Passed) (hfree : w.bare.lockFree r.node)
      (hstore : Serving c w.raft r.node k store) (hread : store.get_inventory = .ok inventory) :
      NotedMoves members c L lower w (.Lock i) (w.withStage i r (.Evaluating inventory) note)
  | resolve {i : Nat} {r : Request} {note : Option Origin} {inventory : List GroceryItem}
      {status : ProposalStatus} {stabilized : StabilizedMutation} {veto : VetoOutcome}
      (hr : w.requests[i]? = some (r, note)) (hstage : r.stage = .Evaluating inventory)
      (horacle : resolvedBy L lower inventory r.intent (status, stabilized))
      (hveto : status = .Committed →
        validate_and_stabilize L lower r.intent veto inventory = .ok stabilized) :
      NotedMoves members c L lower w (.Resolve i)
        (w.withStage i r (.Resolved status stabilized) (some ⟨r.intent, inventory, veto⟩))
  | propose {i : Nat} {r : Request} {note : Option Origin} {status : ProposalStatus}
      {stabilized : StabilizedMutation} {now : Timestamp} {m : CommittedMutation}
      (hr : w.requests[i]? = some (r, note)) (hstage : r.stage = .Resolved status stabilized)
      (hrole : w.raft.role r.node = .leader)
      (hm : m = proposedMutation r.client_id r.sequence_id r.intent stabilized r.raw_user_input
        status now) :
      NotedMoves members c L lower w (.Propose i)
        { w.withStage i r (.Waiting ((w.raft.log r.node).length + 1) status
            stabilized.moral_justification ⟨w.raft.term r.node, m⟩) note with
          raft := proposeOn w.raft r.node m
          origin := raft.update₂ w.origin (w.raft.term r.node) (w.raft.log r.node).length note }
  | acknowledge {i proposal_index : Nat} {r : Request} {note : Option Origin}
      {status : ProposalStatus} {moral_justification : String}
      {entry : raft.Entry CommittedMutation} (hr : w.requests[i]? = some (r, note))
      (hstage : r.stage = .Waiting proposal_index status moral_justification entry)
      (hrole : w.raft.role r.node = .leader) (hle : proposal_index ≤ w.raft.commit r.node) :
      NotedMoves members c L lower w (.Acknowledge i)
        (w.finish i r (build_mutation_response proposal_index status moral_justification))
  | drop {i : Nat} :
      NotedMoves members c L lower w (.Drop i) { w with requests := w.requests.eraseIdx i }

def NotedRun (members : Finset NodeId) (c : Codec α) (L : DecimalLib D) (lower : Lower)
    (P : Noted → GatewayAct → Prop) : Noted → Noted → Prop :=
  Trail (NotedMoves members c L lower) P

variable {w w' : Noted} {g : Gateway} {a : GatewayAct} {P : Noted → GatewayAct → Prop}

/-! ## The notes change nothing -/

theorem Noted.bare_withStage (w : Noted) (i : Nat) (r : Request) (stage : Stage)
    (note : Option Origin) :
    (w.withStage i r stage note).bare = w.bare.withStage i r stage := by
  simp [Noted.bare, Noted.withStage, Gateway.withStage, List.map_set]

theorem Noted.bare_finish (w : Noted) (i : Nat) (r : Request)
    (response : ProposeMutationResponse) :
    (w.finish i r response).bare = w.bare.finish i r response := by
  simp [Noted.bare, Noted.finish, Gateway.finish, List.eraseIdx_map]

theorem Noted.request {i : Nat} {r : Request} {note : Option Origin}
    (hr : w.requests[i]? = some (r, note)) : w.bare.requests[i]? = some r := by
  simp [Noted.bare, List.getElem?_map, hr]

/-- A step with notes is a step of the gateway. -/
theorem NotedMoves.moves (hs : NotedMoves members c L lower w a w') :
    Moves members c (resolvedBy L lower) w.bare a w'.bare := by
  cases hs with
  | replicate hs => exact .replicate hs
  | arrive hrole hid => exact .arrive hrole hid
  | answer hr hstage hstore hwall =>
    rw [Noted.bare_finish]
    exact .answer (Noted.request hr) hstage hstore hwall
  | pass hr hstage hstore hwall =>
    rw [Noted.bare_withStage]
    exact .pass (Noted.request hr) hstage hstore hwall
  | lock hr hstage hfree hstore hread =>
    rw [Noted.bare_withStage]
    exact .lock (Noted.request hr) hstage hfree hstore hread
  | resolve hr hstage horacle hveto =>
    rw [Noted.bare_withStage]
    exact .resolve (Noted.request hr) hstage horacle
  | @propose i r note status stabilized now m hr hstage hrole hm =>
    have heq := w.bare_withStage i r (.Waiting ((w.raft.log r.node).length + 1) status
      stabilized.moral_justification ⟨w.raft.term r.node, m⟩) note
    have hpropose : Moves members c (resolvedBy L lower) w.bare (.Propose i) _ :=
      .propose (Noted.request hr) hstage hrole hm
    change Moves members c (resolvedBy L lower) w.bare (.Propose i)
      { (w.withStage i r _ note).bare with raft := proposeOn w.raft r.node m }
    rw [heq]
    exact hpropose
  | acknowledge hr hstage hrole hle =>
    rw [Noted.bare_finish]
    exact .acknowledge (Noted.request hr) hstage hrole hle
  | @drop i =>
    have heq : ({ w with requests := w.requests.eraseIdx i } : Noted).bare =
        { w.bare with requests := w.bare.requests.eraseIdx i } := by
      simp [Noted.bare, List.eraseIdx_map]
    rw [heq]
    exact .drop

/-- Every step of the gateway can be taken with notes. -/
theorem Moves.noted (hs : Moves members c (resolvedBy L lower) w.bare a g) :
    ∃ w', NotedMoves members c L lower w a w' ∧ w'.bare = g := by
  have hrequest : ∀ {i : Nat} {r : Request}, w.bare.requests[i]? = some r →
      ∃ note, w.requests[i]? = some (r, note) := by
    intro i r hr
    unfold Noted.bare at hr
    rw [List.getElem?_map] at hr
    obtain ⟨⟨r', note⟩, hx, rfl⟩ := Option.map_eq_some_iff.mp hr
    exact ⟨note, hx⟩
  cases hs with
  | replicate hs => exact ⟨_, .replicate hs, rfl⟩
  | arrive hrole hid => exact ⟨_, .arrive hrole hid, rfl⟩
  | answer hr hstage hstore hwall =>
    obtain ⟨note, hr⟩ := hrequest hr
    exact ⟨_, .answer hr hstage hstore hwall, w.bare_finish _ _ _⟩
  | pass hr hstage hstore hwall =>
    obtain ⟨note, hr⟩ := hrequest hr
    exact ⟨_, .pass hr hstage hstore hwall, w.bare_withStage _ _ _ _⟩
  | lock hr hstage hfree hstore hread =>
    obtain ⟨note, hr⟩ := hrequest hr
    exact ⟨_, .lock hr hstage hfree hstore hread, w.bare_withStage _ _ _ _⟩
  | @resolve i r inventory status stabilized hr hstage horacle =>
    obtain ⟨note, hr⟩ := hrequest hr
    have hveto : ∃ veto, status = .Committed →
        validate_and_stabilize L lower r.intent veto inventory = .ok stabilized := by
      cases status with
      | Committed =>
        obtain ⟨veto, hvalid⟩ := resolvedBy_committed horacle
        exact ⟨veto, fun _ => hvalid⟩
      | Vetoed => exact ⟨⟨false, "", "", "", "", "", ""⟩, by simp⟩
    obtain ⟨veto, hveto⟩ := hveto
    exact ⟨_, .resolve hr hstage horacle hveto, w.bare_withStage _ _ _ _⟩
  | @propose i r status stabilized now m hr hstage hrole hm =>
    obtain ⟨note, hr⟩ := hrequest hr
    refine ⟨_, .propose hr hstage hrole hm, ?_⟩
    have heq := w.bare_withStage i r (.Waiting ((w.raft.log r.node).length + 1) status
      stabilized.moral_justification ⟨w.raft.term r.node, m⟩) note
    change { (w.withStage i r _ note).bare with raft := proposeOn w.raft r.node m } = _
    rw [heq]
    rfl
  | acknowledge hr hstage hrole hle =>
    obtain ⟨note, hr⟩ := hrequest hr
    exact ⟨_, .acknowledge hr hstage hrole hle, w.bare_finish _ _ _⟩
  | drop => exact ⟨_, .drop, by simp [Noted.bare, List.eraseIdx_map]⟩

/-- What has been noted on the way to a state of the gateway. -/
theorem noted_run (hrun : GatewayRun members c (resolvedBy L lower) (fun _ _ => True)
    Gateway.init g) :
    ∃ w, NotedRun members c L lower (fun _ _ => True) Noted.init w ∧ w.bare = g := by
  induction hrun with
  | refl => exact ⟨_, .refl _, rfl⟩
  | tail _ _ hs ih =>
    obtain ⟨w, hw, rfl⟩ := ih
    obtain ⟨w', hs', rfl⟩ := hs.noted
    exact ⟨w', .tail hw trivial hs', rfl⟩

theorem NotedRun.bare (hrun : NotedRun members c L lower P Noted.init w) :
    GatewayRun members c (resolvedBy L lower) (fun _ _ => True) Gateway.init w.bare := by
  induction hrun with
  | refl => exact .refl _
  | tail _ _ hs ih => exact .tail ih trivial hs.moves

/-! ## What an item is worth -/

/-- What the request adds to an item, in base units. -/
def Origin.amount (L : DecimalLib D) (lower : Lower) (o : Origin) : ℚ :=
  match o.intent.quantity.map fun quantity => verify_unit_stabilization L lower quantity
      o.veto.resolved_unit o.veto.conversion_multiplier_to_base with
  | some (.ok base) =>
    match o.intent.operation with
    | .Add => L.value base.value
    | .Subtract => -L.value base.value
    | _ => 0
  | _ => 0

/-- The entry writes the item: it is approved, and the first of its client and sequence. -/
def Writes (key : String) (before : List (raft.Entry CommittedMutation))
    (e : raft.Entry CommittedMutation) : Prop :=
  e.data.status = MutationStatus.Committed.toInt ∧ e.data.resolved_item_key = key ∧ New before e

instance (key : String) (before : List (raft.Entry CommittedMutation))
    (e : raft.Entry CommittedMutation) : Decidable (Writes key before e) :=
  inferInstanceAs (Decidable (_ ∧ _ ∧ _ ∉ _))

/-- What the entry behind the first `i` of a log adds to the item. -/
def Noted.added (w : Noted) (L : DecimalLib D) (lower : Lower) (key : String)
    (log : List (raft.Entry CommittedMutation)) (i : Nat) : ℚ :=
  match log[i]? with
  | some e =>
    if Writes key (log.take i) e then ((w.origin e.term i).map (Origin.amount L lower)).getD 0
    else 0
  | none => 0

/-- The item is what it was, in the base unit of its dimension: reading it rounds nothing off. -/
theorem held_value (hL : L.Lawful) {item : GroceryItem} (hitem : ItemOk L lower item)
    {held : PhysicalQuantity D}
    (hheld : parse_and_convert L lower item.quantity item.unit = .ok held) {q : D}
    (hq : L.from_str item.quantity = some q)
    (hproduct : ∀ entry r, resolve_symbol L lower item.unit = .ok entry →
      L.checked_mul q entry.multiplier = some r →
      L.value r = L.value q * L.value entry.multiplier) : L.value held.value = L.value q := by
  obtain ⟨dimension, -, -, hunit, -⟩ := hitem.units
  obtain ⟨q', hq', -, hscale⟩ := hitem.quantity
  obtain rfl := Option.some.inj (hq.symm.trans hq')
  obtain ⟨entry, hentry, -, hconv⟩ := parse_and_convert_ok hheld
  have hone : L.value entry.multiplier = 1 := by
    have hbase := hentry
    unfold resolve_symbol at hbase
    rw [hunit, normalize_base_unit] at hbase
    cases dimension <;>
    · obtain rfl := Except.ok.inj hbase
      exact hL.one
  obtain ⟨qty, product, n, hqty, hmul, hround, hvalue⟩ := hL.base_units hconv
  obtain rfl := Option.some.inj (hq.symm.trans hqty)
  rw [hproduct entry product hentry hmul] at hround
  have hint : L.value q * 10 ^ SI_STABILIZATION_PRECISION =
      ((L.mantissa q * 10 ^ (SI_STABILIZATION_PRECISION - L.scale q) : ℤ) : ℚ) := by
    obtain ⟨k, hk⟩ := Nat.exists_eq_add_of_le hscale
    unfold DecimalLib.value
    rw [hk, Nat.add_sub_cancel_left, pow_add]
    push_cast
    field_simp
  rw [hone, mul_one, hint] at hround
  rw [hvalue, hround.of_int, ← hint]
  field_simp

/-- An addition or a subtraction that finds the item writes what it held and what is added. -/
theorem accumulated_value (hL : L.Lawful) {o : Origin} {s : StabilizedMutation}
    (hs : validate_and_stabilize L lower o.intent o.veto o.inventory = .ok s)
    (hmet : MetExactly L lower o.intent o.veto o.inventory)
    (hop : o.intent.operation = .Add ∨ o.intent.operation = .Subtract) {item : GroceryItem}
    (hfound : existing o.inventory s.resolved_item_key = some item) (hitem : ItemOk L lower item)
    {q : D} (hq : L.from_str item.quantity = some q) :
    ∃ q', L.from_str s.updated_base_quantity = some q' ∧
      L.value q' = L.value q + o.amount L lower := by
  obtain ⟨hkey, -, hdelete | ⟨-, q_str, base, total, h⟩⟩ := validate_and_stabilize_ok hs
  · rcases hop with hop | hop <;>
    · rw [hop] at hdelete
      cases hdelete
  rw [hkey] at hfound
  obtain ⟨q', hread, hsame⟩ := hL.read_back total.value
  refine ⟨q', by rw [h.updated, hread], ?_⟩
  rw [hsame.value]
  rcases apply_arithmetic_accumulation_ok h.accumulated with
    ⟨hnone | hnone, -⟩ | ⟨op, item', held, hop', hitem', hheld, hresult, -⟩
  · rcases hop with hop | hop <;>
    · rw [hop] at hnone
      cases hnone
  · rw [hnone] at hfound
    cases hfound
  obtain rfl := Option.some.inj (hitem'.symm.trans hfound)
  have hamount : o.amount L lower = match o.intent.operation with
      | .Add => L.value base.value
      | .Subtract => -L.value base.value
      | _ => 0 := by
    unfold Origin.amount
    rw [h.quantity, Option.map_some, h.converted]
  rw [hamount, ← held_value hL hitem hheld hq
    fun entry r => hmet.product item' q entry r hfound hq]
  rcases hop with hop | hop
  · have hsum := hmet.sum item' q_str base held total.value hfound h.quantity hop h.converted hheld
    rw [hop] at hop' ⊢
    obtain rfl := Option.some.inj hop'
    exact hsum (fenced_ok hresult).2.2
  · have hdifference := hmet.difference item' q_str base held total.value hfound h.quantity hop
      h.converted hheld
    rw [hop] at hop' ⊢
    obtain rfl := Option.some.inj hop'
    rw [hdifference (fenced_ok hresult).2.2, sub_eq_add_neg]

/-! ## One entry -/

theorem mutations_concat (before : List (raft.Entry CommittedMutation))
    (e : raft.Entry CommittedMutation) :
    mutations (before ++ [e]) = mutations before ++ [e.data] := by
  simp [mutations]

/-- An entry that writes another item, or nothing, leaves the item as it is. -/
theorem inventoryOf_passed {key : String} {before : List (raft.Entry CommittedMutation)}
    {e : raft.Entry CommittedMutation} (hstatus : MutationStatus.try_from e.data.status ≠ none)
    (h : ¬Writes key before e) :
    (inventoryOf (mutations (before ++ [e]))).get? key =
      (inventoryOf (mutations before)).get? key := by
  rw [mutations_concat]
  by_cases hnew : New before e
  · obtain ⟨status, hstatus⟩ := Option.ne_none_iff_exists'.mp hstatus
    rw [inventoryOf_new hnew (try_from_toInt hstatus)]
    unfold updateInventory
    by_cases hcommitted : status = .Committed
    · have hkey : e.data.resolved_item_key ≠ key := fun hkey =>
        h ⟨by rw [← try_from_toInt hstatus, hcommitted], hkey, hnew⟩
      rw [if_pos hcommitted]
      split
      · rw [OrdMap.get?_erase, if_neg (Ne.symm hkey)]
      · rw [OrdMap.get?_insert, if_neg (Ne.symm hkey)]
    · rw [if_neg hcommitted]
  · unfold inventoryOf
    rw [firsts_duplicate (not_not.mp hnew)]

theorem inventoryOf_written {key : String} {before : List (raft.Entry CommittedMutation)}
    {e : raft.Entry CommittedMutation} (h : Writes key before e)
    (hdelete : e.data.is_delete = false) :
    (inventoryOf (mutations (before ++ [e]))).get? key =
      some (item_from_mutation ((mutations before).length + 1) e.data) := by
  obtain ⟨hstatus, hkey, hnew⟩ := h
  rw [mutations_concat, inventoryOf_new hnew hstatus.symm]
  unfold updateInventory
  rw [if_pos rfl, hdelete, if_neg (by simp), OrdMap.get?_insert, if_pos hkey.symm]

/-! ## What the runs keep -/

/-- What the handler was shown of the item is what the entries in front make of it. -/
def Current (c : Codec α) (key : String) (before : List (raft.Entry CommittedMutation))
    (o : Origin) : Prop :=
  existing o.inventory key = (replay c (mutations before)).1.inventory.get? key

/-- The operation changes a quantity by an amount. -/
def Origin.Changes (o : Origin) : Prop :=
  o.intent.operation = .Add ∨ o.intent.operation = .Subtract

/-- A change of the item that is proposed behind the first `p` entries has been computed from
what the item is in front of it, by operations that are exact. -/
def Fresh (L : DecimalLib D) (lower : Lower) (c : Codec α) (key : String) (p : Nat) (w : Noted) :
    GatewayAct → Prop
  | .Propose i => ∀ r o stabilized, w.requests[i]? = some (r, some o) →
      r.stage = .Resolved .Committed stabilized → stabilized.resolved_item_key = key →
      o.Changes → p ≤ (w.raft.log r.node).length →
      (r.client_id, r.sequence_id) ∉ (mutations (w.raft.log r.node)).map keyOf →
      Current c key (w.raft.log r.node) o ∧ MetExactly L lower o.intent o.veto o.inventory
  | _ => True

/-- What the entry was proposed as. -/
def Origin.Proposes (L : DecimalLib D) (lower : Lower) (o : Origin) (m : CommittedMutation) :
    Prop :=
  ∃ status s client_id sequence_id raw now,
    m = proposedMutation client_id sequence_id o.intent s raw status now ∧
    (status = .Committed → validate_and_stabilize L lower o.intent o.veto o.inventory = .ok s)

/-- An entry, what it came from, and that this was current. -/
structure Made (L : DecimalLib D) (lower : Lower) (c : Codec α) (key : String) (p : Nat)
    (before : List (raft.Entry CommittedMutation)) (e : raft.Entry CommittedMutation)
    (o : Origin) : Prop where
  proposes : o.Proposes L lower e.data
  current : Writes key before e → o.Changes → p ≤ before.length →
    Current c key before o ∧ MetExactly L lower o.intent o.veto o.inventory

structure Kept (L : DecimalLib D) (lower : Lower) (c : Codec α) (members : Finset NodeId)
    (key : String) (p : Nat) (w : Noted) : Prop where
  stocked : Stocked L lower members w.bare
  sequenced : Sequenced members c w.bare
  resolved : ∀ x ∈ w.requests, ∀ status s, x.1.stage = .Resolved status s →
    ∃ o, x.2 = some o ∧ o.intent = x.1.intent ∧
      (status = .Committed → validate_and_stabilize L lower o.intent o.veto o.inventory = .ok s)
  written : Written (fun before e => ∃ o, w.origin e.term before.length = some o ∧
    Made L lower c key p before e o) w.raft

variable {key : String} {p : Nat}

theorem Kept.init : Kept L lower c members key p Noted.init :=
  ⟨.init, .init, by simp [Noted.init], .init⟩

theorem Kept.carry (h : Kept L lower c members key p w) (hstocked : Stocked L lower members w'.bare)
    (hsequenced : Sequenced members c w'.bare) (hraft : w'.raft = w.raft)
    (horigin : w'.origin = w.origin)
    (hrequests : ∀ x' ∈ w'.requests, x' ∈ w.requests ∨ ∀ status s,
      x'.1.stage = .Resolved status s → ∃ o, x'.2 = some o ∧ o.intent = x'.1.intent ∧
        (status = .Committed →
          validate_and_stabilize L lower o.intent o.veto o.inventory = .ok s)) :
    Kept L lower c members key p w' := by
  refine ⟨hstocked, hsequenced, fun x' hx' => ?_, ?_⟩
  · rcases hrequests x' hx' with hold | hnew
    · exact h.resolved x' hold
    · exact hnew
  · rw [hraft, horigin]
    exact h.written

theorem Kept.step (hL : L.Lawful) (hcanonical : ∀ raw id, c.parse_uuid raw = .ok id →
    c.parse_uuid id = .ok id) (h : Kept L lower c members key p w)
    (hfresh : Fresh L lower c key p w a)
    (hs : NotedMoves members c L lower w a w') : Kept L lower c members key p w' := by
  have hstocked := h.stocked.step hL hs.moves
  have hsequenced := h.sequenced.step hcanonical hs.moves
  have hsafe : Safe members w.raft := h.stocked.safe
  have hstage : ∀ {i : Nat} {r : Request} {stage : Stage} {note : Option Origin},
      (∀ status s, stage ≠ .Resolved status s) →
      ∀ x' ∈ (w.withStage i r stage note).requests, x' ∈ w.requests ∨ ∀ status s,
        x'.1.stage = .Resolved status s → ∃ o, x'.2 = some o ∧ o.intent = x'.1.intent ∧
          (status = .Committed →
            validate_and_stabilize L lower o.intent o.veto o.inventory = .ok s) := by
    intro i r stage note hno x' hx'
    rcases List.mem_or_eq_of_mem_set hx' with hold | rfl
    · exact .inl hold
    · exact .inr fun status s heq => absurd heq (hno status s)
  cases hs with
  | replicate hs =>
    obtain ⟨hstep, hglog⟩ := hs
    exact ⟨hstocked, hsequenced, h.resolved,
      h.written.keep hsafe.election hsafe.matching hstep hglog⟩
  | arrive hrole hid =>
    refine h.carry hstocked hsequenced rfl rfl fun x' hx' => ?_
    rcases List.mem_cons.mp hx' with rfl | hold
    · exact .inr fun status s heq => by cases heq
    · exact .inl hold
  | answer hr hstage hstore hwall =>
    exact h.carry hstocked hsequenced rfl rfl fun x' hx' => .inl (List.mem_of_mem_eraseIdx hx')
  | pass hr hst hstore hwall =>
    exact h.carry hstocked hsequenced rfl rfl (hstage fun _ _ => by simp)
  | lock hr hst hfree hstore hread =>
    exact h.carry hstocked hsequenced rfl rfl (hstage fun _ _ => by simp)
  | @resolve i r note inventory status stabilized veto hr hst horacle hveto =>
    refine h.carry hstocked hsequenced rfl rfl fun x' hx' => ?_
    rcases List.mem_or_eq_of_mem_set hx' with hold | rfl
    · exact .inl hold
    · refine .inr fun status' s heq => ?_
      cases heq
      exact ⟨_, rfl, rfl, hveto⟩
  | @propose i r note status stabilized now m hr hst hrole hm =>
    obtain ⟨o, rfl, hintent, hvalid⟩ := h.resolved _ (List.mem_of_getElem? hr) status stabilized hst
    refine ⟨hstocked, hsequenced, fun x' hx' => ?_, ?_⟩
    · rcases hstage (fun _ _ => by simp) x' hx' with hold | hnew
      · exact h.resolved x' hold
      · exact hnew
    have hold : Written (fun before e => ∃ o', raft.update₂ w.origin (w.raft.term r.node)
        (w.raft.log r.node).length (some o) e.term before.length = some o' ∧
        Made L lower c key p before e o') w.raft := by
      refine h.written.imp fun t k e he hmade => ?_
      obtain ⟨o', ho', hmade⟩ := hmade
      refine ⟨o', ?_, hmade⟩
      rw [raft.update₂_of_ne _ _ _ _ ?_]
      · exact ho'
      · rintro ⟨hterm, hlen⟩
        have hlt := raft.own_entry_lt hsafe.election hsafe.matching hrole he hterm
        rw [List.length_take] at hlen
        have := (List.getElem?_eq_some_iff.mp he).1
        omega
    refine hold.write hsafe.matching ⟨o, raft.update₂_same _ _ _ _, ?_, ?_⟩
    · exact ⟨status, stabilized, _, _, _, now, by rw [hm, hintent], hvalid⟩
    · rintro ⟨hstatus, hkey, hnew⟩ hop hp
      rw [hm] at hstatus hkey hnew
      have hcommitted : status = .Committed := by
        cases status with
        | Committed => rfl
        | Vetoed => cases hstatus
      subst hcommitted
      exact hfresh r o stabilized hr hst hkey hop hp hnew
  | acknowledge hr hst hrole hle =>
    exact h.carry hstocked hsequenced rfl rfl fun x' hx' => .inl (List.mem_of_mem_eraseIdx hx')
  | drop =>
    exact h.carry hstocked hsequenced rfl rfl fun x' hx' => .inl (List.mem_of_mem_eraseIdx hx')

/-! ## The entries of a log, one after the other -/

theorem Noted.added_some {log : List (raft.Entry CommittedMutation)} {i : Nat}
    {e : raft.Entry CommittedMutation} (he : log[i]? = some e) (hwrites : Writes key (log.take i) e)
    {o : Origin} (ho : w.origin e.term i = some o) :
    w.added L lower key log i = o.amount L lower := by
  unfold Noted.added
  rw [he]
  dsimp only
  rw [if_pos hwrites, ho]
  rfl

/-- Whatever a node has applied, and had applied on the way to it. -/
theorem Kept.replayed (h : Kept L lower c members key p w) {n : NodeId} {k : Nat}
    {store : LactoStore} (happlied : replay c (mutations ((w.raft.log n).take k)) = (store, .ok ()))
    {i : Nat} (hi : i ≤ k) : ∃ store', replay c (mutations ((w.raft.log n).take i)) =
      (store', .ok ()) ∧ store'.inventory = inventoryOf (mutations ((w.raft.log n).take i)) := by
  obtain ⟨rest, hrest⟩ := mutations_mono (List.take_prefix_take_left (l := w.raft.log n) hi)
  rw [← hrest] at happlied
  obtain ⟨store', hstore'⟩ := replay_init happlied
  have hfits := (h.sequenced.written.traced (h.sequenced.safe.matching.log_traced n)).shorter
    (List.take_prefix i _)
  exact ⟨store', hstore', (Each.tidy hfits hstore').1.reference.inventory⟩

/-- What the next entry does to the item. -/
theorem Kept.next (hL : L.Lawful) (h : Kept L lower c members key p w) {n : NodeId} {k : Nat}
    {store : LactoStore}
    (happlied : replay c (mutations ((w.raft.log n).take (k + 1))) = (store, .ok ()))
    (hp : p ≤ k) (hops : ∀ e o, (w.raft.log n)[k]? = some e →
      Writes key ((w.raft.log n).take k) e → w.origin e.term k = some o → o.Changes)
    {item : GroceryItem} {q : D}
    (hitem : (inventoryOf (mutations ((w.raft.log n).take k))).get? key = some item)
    (hq : L.from_str item.quantity = some q) :
    ∃ item' q', (inventoryOf (mutations ((w.raft.log n).take (k + 1)))).get? key = some item' ∧
      L.from_str item'.quantity = some q' ∧
      L.value q' = L.value q + w.added L lower key (w.raft.log n) k := by
  cases he : (w.raft.log n)[k]? with
  | none =>
    have hlen := List.getElem?_eq_none_iff.mp he
    refine ⟨item, q, ?_, hq, ?_⟩
    · rw [List.take_of_length_le (by omega)]
      rwa [List.take_of_length_le hlen] at hitem
    · unfold Noted.added
      rw [he]
      simp
  | some e =>
    have htraced : Traced w.raft (w.raft.log n) := h.stocked.safe.matching.log_traced n
    have hsplit : (w.raft.log n).take (k + 1) = (w.raft.log n).take k ++ [e] := by
      rw [List.take_add_one, he]
      rfl
    have hlen : ((w.raft.log n).take k).length = k :=
      List.length_take_of_le (List.getElem?_eq_some_iff.mp he).1.le
    obtain ⟨hwell, -, -⟩ := h.sequenced.written.traced htraced k e he
    rw [hsplit]
    by_cases hwrites : Writes key ((w.raft.log n).take k) e
    · obtain ⟨o, ho, hmade⟩ := h.written.traced htraced k e he
      rw [hlen] at ho
      have hchanges : o.Changes := hops e o he hwrites ho
      obtain ⟨status, s, client_id, sequence_id, raw, now, hdata, hvalid⟩ := hmade.proposes
      have hcommitted : status = .Committed := by
        have hstatus := hwrites.1
        rw [hdata] at hstatus
        cases status with
        | Committed => rfl
        | Vetoed => cases hstatus
      have hkey : s.resolved_item_key = key := by
        have hkey := hwrites.2.1
        rwa [hdata] at hkey
      have hdelete : e.data.is_delete = false := by
        rw [hdata]
        refine decide_eq_false ?_
        rcases hchanges with hop | hop <;> simp [hop]
      -- what the handler was shown is what the entries in front leave
      obtain ⟨store', hstore', hinventory⟩ := h.replayed happlied (Nat.le_succ k)
      obtain ⟨hcurrent, hmet⟩ := hmade.current hwrites hchanges (by omega)
      unfold Current at hcurrent
      rw [hstore', hinventory, hitem] at hcurrent
      have hok : ItemOk L lower item := by
        have hstore := h.stocked.store (c := c) hL n k
        change InventoryOk L lower (replay c (mutations ((w.raft.log n).take k))).1.inventory
          at hstore
        rw [hstore', hinventory] at hstore
        exact (hstore key item hitem).2
      obtain ⟨q', hread, hvalue⟩ := accumulated_value hL (hvalid hcommitted) hmet hchanges
        (by rw [hkey]; exact hcurrent) hok hq
      refine ⟨_, q', inventoryOf_written hwrites hdelete, ?_, ?_⟩
      · rw [hdata]
        exact hread
      · rw [hvalue, Noted.added_some he hwrites ho]
    · refine ⟨item, q, ?_, hq, ?_⟩
      · rw [inventoryOf_passed hwell.status hwrites]
        exact hitem
      · unfold Noted.added
        rw [he]
        dsimp only
        rw [if_neg hwrites, add_zero]

/-- Where all that writes the item behind the first `p` entries changes its quantity, a node
that has applied more of its log holds what there was and all that was added. -/
def Accounted (L : DecimalLib D) (lower : Lower) (c : Codec α) (key : String) (p : Nat)
    (w : Noted) : Prop :=
  ∀ n k store₀ store item₀ q₀, Serving c w.raft n k store → p ≤ k →
    replay c (mutations ((w.raft.log n).take p)) = (store₀, .ok ()) →
    store₀.inventory.get? key = some item₀ → L.from_str item₀.quantity = some q₀ →
    (∀ i e o, p ≤ i → i < k → (w.raft.log n)[i]? = some e →
      Writes key ((w.raft.log n).take i) e → w.origin e.term i = some o → o.Changes) →
    ∃ item q, store.inventory.get? key = some item ∧ L.from_str item.quantity = some q ∧
      L.value q = L.value q₀ + ∑ i ∈ Finset.Ico p k, w.added L lower key (w.raft.log n) i

/-- Every run of the gateway can be noted, and in every noted run no update is lost as long as
each was computed from the item as it was in front of the entry and rounded nothing off,
whoever asks and whoever leads. -/
theorem updates_accounted_when_fresh (hL : L.Lawful)
    (hcanonical : ∀ raw id, c.parse_uuid raw = .ok id → c.parse_uuid id = .ok id) :
    (∀ g, GatewayRun members c (resolvedBy L lower) (fun _ _ => True) Gateway.init g →
      ∃ w, NotedRun members c L lower (fun _ _ => True) Noted.init w ∧ w.bare = g) ∧
    ∀ w, NotedRun members c L lower (Fresh L lower c key p) Noted.init w →
      GatewayRun members c (resolvedBy L lower) (fun _ _ => True) Gateway.init w.bare ∧
        Accounted L lower c key p w := by
  refine ⟨fun g hrun => noted_run hrun, fun w hrun => ⟨hrun.bare, ?_⟩⟩
  have h : Kept L lower c members key p w :=
    Trail.invariant (fun _ _ _ h hfresh hs => h.step hL hcanonical hfresh hs) hrun .init
  intro n k store₀ store item₀ q₀ hserve hp hstart hitem hq hops
  have hworth : ∀ i, p ≤ i → i ≤ k → ∃ item q,
      (inventoryOf (mutations ((w.raft.log n).take i))).get? key = some item ∧
      L.from_str item.quantity = some q ∧
      L.value q = L.value q₀ + ∑ j ∈ Finset.Ico p i, w.added L lower key (w.raft.log n) j := by
    intro i hpi
    induction i, hpi using Nat.le_induction with
    | base =>
      intro hk
      obtain ⟨store', hstore', hinventory⟩ := h.replayed hserve.applied hk
      obtain ⟨rfl, -⟩ := Prod.mk.inj (hstart.symm.trans hstore')
      rw [hinventory] at hitem
      exact ⟨item₀, q₀, hitem, hq, by simp⟩
    | succ i hpi ih =>
      intro hk
      obtain ⟨item, q, hget, hread, hvalue⟩ := ih (Nat.le_of_succ_le hk)
      obtain ⟨store', hstore', -⟩ := h.replayed hserve.applied hk
      obtain ⟨item', q', hget', hread', hvalue'⟩ :=
        h.next hL hstore' hpi (fun e o => hops i e o hpi hk) hget hread
      refine ⟨item', q', hget', hread', ?_⟩
      rw [hvalue', hvalue, Finset.sum_Ico_succ_top hpi, add_assoc]
  obtain ⟨item, q, hget, hread, hvalue⟩ := hworth k hp le_rfl
  obtain ⟨store', hstore', hinventory⟩ := h.replayed hserve.applied le_rfl
  obtain ⟨rfl, -⟩ := Prod.mk.inj (hserve.applied.symm.trans hstore')
  rw [← hinventory] at hget
  exact ⟨item, q, hget, hread, hvalue⟩

/-! ## Milk -/

variable {w₀ : Noted} {s : raft.State NodeId CommittedMutation} {answers : List Answer}
  {origin : Nat → Nat → Option Origin} {requests : List (Request × Option Origin)}

theorem NotedRun.replicated (hrun : NotedRun members c L lower P w₀ w)
    (hP : ∀ w n, P w (.Replicate n))
    (h : GatewayRun members c (resolvedBy L lower) (fun _ a => ∃ n, a = .Replicate n) w.bare g) :
    NotedRun members c L lower P w₀ { w with raft := g.raft } := by
  induction h with
  | refl => exact hrun
  | tail _ hp hs ih =>
    obtain ⟨n, rfl⟩ := hp
    cases hs with
    | replicate hs => exact .tail ih (hP _ n) (.replicate hs)

/-- A request from its arrival to its entry, while nobody has the lock. -/
theorem NotedRun.proposed (r : Request) (stabilized : StabilizedMutation) (veto : VetoOutcome)
    (now : Timestamp) {k : Nat} {store : LactoStore} {inventory : List GroceryItem}
    (hrun : NotedRun members c L lower P w₀ ⟨s, [], answers, origin⟩)
    (hP : ∀ w a, (∀ i, a ≠ .Propose i) → P w a) (hrole : s.role r.node = .leader)
    (hid : c.parse_uuid r.client_id = .ok r.client_id) (hstore : Serving c s r.node k store)
    (hwall : enforce_sequence_firewall store r.client_id r.sequence_id = .ok none)
    (hread : store.get_inventory = .ok inventory)
    (horacle : resolvedBy L lower inventory r.intent (.Committed, stabilized))
    (hveto : validate_and_stabilize L lower r.intent veto inventory = .ok stabilized)
    (hok : P ⟨s, [({ r with stage := .Resolved .Committed stabilized },
      some ⟨r.intent, inventory, veto⟩)], answers, origin⟩ (.Propose 0))
    {m : CommittedMutation} (hm : m = proposedMutation r.client_id r.sequence_id r.intent stabilized
      r.raw_user_input .Committed now) :
    NotedRun members c L lower P w₀
      ⟨proposeOn s r.node m, [({ r with
          stage := .Waiting ((s.log r.node).length + 1) .Committed stabilized.moral_justification
            ⟨s.term r.node, m⟩ }, some ⟨r.intent, inventory, veto⟩)], answers,
        raft.update₂ origin (s.term r.node) (s.log r.node).length
          (some ⟨r.intent, inventory, veto⟩)⟩ := by
  have harrive : NotedRun members c L lower P w₀
      ⟨s, [({ r with stage := .Authorized }, none)], answers, origin⟩ :=
    .tail hrun (hP _ (.Arrive r.node) (by simp)) (.arrive hrole hid)
  have hpass : NotedRun members c L lower P w₀
      ⟨s, [({ r with stage := .Passed }, none)], answers, origin⟩ :=
    .tail harrive (hP _ (.Firewall 0) (by simp))
      (.pass (r := { r with stage := .Authorized }) rfl rfl hstore hwall)
  have hlock : NotedRun members c L lower P w₀
      ⟨s, [({ r with stage := .Evaluating inventory }, none)], answers, origin⟩ :=
    .tail hpass (hP _ (.Lock 0) (by simp)) (.lock (r := { r with stage := .Passed }) rfl rfl
      (by simp [Gateway.lockFree, Noted.bare, Stage.hasLock]) hstore hread)
  have hresolve : NotedRun members c L lower P w₀
      ⟨s, [({ r with stage := .Resolved .Committed stabilized },
        some ⟨r.intent, inventory, veto⟩)], answers, origin⟩ :=
    .tail hlock (hP _ (.Resolve 0) (by simp))
      (.resolve (r := { r with stage := .Evaluating inventory }) rfl rfl horacle fun _ => hveto)
  exact .tail hresolve hok
    (.propose (r := { r with stage := .Resolved .Committed stabilized }) rfl rfl hrole hm)

def milkBy (client_id : String) : Request := { milkRequest with client_id := client_id }

/-- There is milk now, so many millilitres of it. -/
def milkTo (quantity : String) : StabilizedMutation :=
  { moreMilk with updated_base_quantity := quantity }

def milkEntry (client_id quantity : String) : CommittedMutation :=
  proposedMutation client_id 1 addMilk (milkTo quantity) "add milk" .Committed ⟨7, 0⟩

/-- A client adds a litre of milk and is told that this is committed. -/
theorem milk_round (client_id quantity : String) {k : Nat} {store : LactoStore}
    {inventory : List GroceryItem} (hs : Leading s)
    (hrun : NotedRun {1, 2, 3} plain fixedPoint unchanged P w₀ ⟨s, [], answers, origin⟩)
    (hP : ∀ w a, (∀ i, a ≠ .Propose i) → P w a) (hstore : Serving plain s 1 k store)
    (hwall : enforce_sequence_firewall store client_id 1 = .ok none)
    (hread : store.get_inventory = .ok inventory)
    (hveto : validate_and_stabilize fixedPoint unchanged addMilk approvedMilk inventory =
      .ok (milkTo quantity))
    (horacle : resolvedBy fixedPoint unchanged inventory addMilk (.Committed, milkTo quantity))
    (hok : P ⟨s, [({ milkBy client_id with stage := .Resolved .Committed (milkTo quantity) },
      some ⟨addMilk, inventory, approvedMilk⟩)], answers, origin⟩ (.Propose 0)) :
    ∃ answers', NotedRun {1, 2, 3} plain fixedPoint unchanged P w₀
      ⟨agreed (proposeOn s 1 (milkEntry client_id quantity)), [], answers',
        raft.update₂ origin 1 (s.log 1).length (some ⟨addMilk, inventory, approvedMilk⟩)⟩ := by
  have hproposed := NotedRun.proposed (milkBy client_id) (milkTo quantity) approvedMilk ⟨7, 0⟩ hrun
    hP hs.role₁ rfl hstore hwall hread horacle hveto hok rfl
  have hagreed := hproposed.replicated (fun w n => hP w (.Replicate n) (by simp))
    (Leading.agreed_run (hs.propose _) (by simp [proposeOn]) (.refl _) fun _ n => ⟨n, rfl⟩)
  rw [show s.term (milkBy client_id).node = 1 from hs.term₁] at hagreed
  have hle : (s.log 1).length + 1 ≤
      (agreed (proposeOn s 1 (milkEntry client_id quantity))).commit 1 := by
    simp [agreed, proposeOn]
  exact ⟨_, .tail hagreed (hP _ (.Acknowledge 0) (by simp))
    (.acknowledge rfl rfl (hs.propose _).agreed.role₁ hle)⟩

def firstLitre : CommittedMutation := milkEntry "6ba7b810-9dad-11d1-80b4-00c04fd430c8" "1000"
def secondLitre : CommittedMutation := milkEntry "6ba7b811-9dad-11d1-80b4-00c04fd430c8" "2000"
def thirdLitre : CommittedMutation := milkEntry "6ba7b812-9dad-11d1-80b4-00c04fd430c8" "2000"

/-- The inventory after the first entry. -/
def litre : List GroceryItem := [item_from_mutation 1 firstLitre]

def emptyOrigin : Origin := ⟨addMilk, [], approvedMilk⟩
def litreOrigin : Origin := ⟨addMilk, litre, approvedMilk⟩

def oneAdded : raft.State NodeId CommittedMutation := agreed (proposeOn ledByOne 1 firstLitre)
def twoAdded : raft.State NodeId CommittedMutation := agreed (proposeOn oneAdded 1 secondLitre)
def threeAdded : raft.State NodeId CommittedMutation := agreed (proposeOn twoAdded 1 thirdLitre)

def originOne : Nat → Nat → Option Origin :=
  raft.update₂ (fun _ _ => none) 1 0 (some emptyOrigin)
def originTwo : Nat → Nat → Option Origin := raft.update₂ originOne 1 1 (some litreOrigin)
def originThree : Nat → Nat → Option Origin := raft.update₂ originTwo 1 2 (some litreOrigin)

/-- The store with the first entry applied. -/
def litreStore : LactoStore := (replay plain [firstLitre]).1

theorem oneAdded_leading : Leading oneAdded := (ledByOne_leading.propose _).agreed
theorem twoAdded_leading : Leading twoAdded := (oneAdded_leading.propose _).agreed

theorem litre_resolved :
    resolvedBy fixedPoint unchanged litre addMilk (.Committed, milkTo "2000") :=
  ⟨1, fun _ => .ok approvedMilk, by decide +kernel⟩

theorem litre_stabilized :
    validate_and_stabilize fixedPoint unchanged addMilk approvedMilk litre =
      .ok (milkTo "2000") := by
  decide +kernel

theorem oneAdded_run (hP : ∀ w a, (∀ i, a ≠ .Propose i) → P w a)
    (hok : P ⟨ledByOne, [({ milkBy firstLitre.client_id with
      stage := .Resolved .Committed (milkTo "1000") }, some emptyOrigin)], [], fun _ _ => none⟩
      (.Propose 0)) :
    ∃ answers, NotedRun {1, 2, 3} plain fixedPoint unchanged P Noted.init
      ⟨oneAdded, [], answers, originOne⟩ := by
  have hled : NotedRun {1, 2, 3} plain fixedPoint unchanged P Noted.init
      ⟨ledByOne, [], [], fun _ _ => none⟩ :=
    NotedRun.replicated (.refl Noted.init) (fun w n => hP w (.Replicate n) (by simp))
      (ledByOne_run fun _ n => ⟨n, rfl⟩)
  exact milk_round firstLitre.client_id "1000" ledByOne_leading hled hP serving_new rfl rfl
    (by decide +kernel) approvedMilk_resolved hok

theorem oneAdded_serving : Serving plain oneAdded 1 1 litreStore := ⟨le_rfl, rfl⟩

/-- The second litre is added to the first. -/
theorem twoAdded_run (hP : ∀ w a, (∀ i, a ≠ .Propose i) → P w a)
    (hfirst : P ⟨ledByOne, [({ milkBy firstLitre.client_id with
      stage := .Resolved .Committed (milkTo "1000") }, some emptyOrigin)], [], fun _ _ => none⟩
      (.Propose 0))
    (hsecond : ∀ answers, P ⟨oneAdded, [({ milkBy secondLitre.client_id with
      stage := .Resolved .Committed (milkTo "2000") }, some litreOrigin)], answers, originOne⟩
      (.Propose 0)) :
    ∃ answers, NotedRun {1, 2, 3} plain fixedPoint unchanged P Noted.init
      ⟨twoAdded, [], answers, originTwo⟩ := by
  obtain ⟨answers, hone⟩ := oneAdded_run hP hfirst
  exact milk_round secondLitre.client_id "2000" oneAdded_leading hone hP oneAdded_serving
    (by decide +kernel) (by decide +kernel) litre_stabilized litre_resolved (hsecond answers)

/-- The third is added to the first as well: its handler has the lock when the second is
committed, and reads the store before that is applied. -/
theorem threeAdded_run : ∃ answers, NotedRun {1, 2, 3} plain fixedPoint unchanged
    (fun _ _ => True) Noted.init ⟨threeAdded, [], answers, originThree⟩ := by
  obtain ⟨answers, htwo⟩ := twoAdded_run (fun _ _ _ => trivial) trivial fun _ => trivial
  have hserving : Serving plain twoAdded 1 1 litreStore := ⟨by decide, rfl⟩
  exact milk_round thirdLitre.client_id "2000" twoAdded_leading htwo (fun _ _ _ => trivial)
    hserving (by decide +kernel) (by decide +kernel) litre_stabilized litre_resolved trivial

def twoLitres : LactoStore := (replay plain [firstLitre, secondLitre]).1
def threeLitres : LactoStore := (replay plain [firstLitre, secondLitre, thirdLitre]).1

theorem updates_accounted_twice :
    ∃ answers item q, twoLitres.inventory.get? "milk" = some item ∧
      fixedPoint.from_str item.quantity = some q ∧
      fixedPoint.value q = fixedPoint.value ⟨1000, 0⟩ + ∑ i ∈ Finset.Ico 1 2,
        (⟨twoAdded, [], answers, originTwo⟩ : Noted).added fixedPoint unchanged "milk"
          (twoAdded.log 1) i := by
  have hquiet : ∀ w a, (∀ i, a ≠ .Propose i) → Fresh fixedPoint unchanged plain "milk" 1 w a := by
    intro w a ha
    cases a with
    | Propose i => exact absurd rfl (ha i)
    | _ => trivial
  have hrun : ∃ answers, NotedRun {1, 2, 3} plain fixedPoint unchanged
      (Fresh fixedPoint unchanged plain "milk" 1) Noted.init
      ⟨twoAdded, [], answers, originTwo⟩ := by
    refine twoAdded_run hquiet ?_ fun answers => ?_
    · rintro r o stabilized hr - - - hp -
      cases hr
      cases hp
    · rintro r o stabilized hr - - - - -
      cases hr
      exact ⟨rfl, metExactly_of_exact fixedPoint_exact _ _ _⟩
  obtain ⟨answers, hrun⟩ := hrun
  have haccounted := ((updates_accounted_when_fresh fixedPoint_exact.toLawful
    fun _ _ _ => rfl).2 _ hrun).2
  refine ⟨answers, haccounted 1 2 litreStore twoLitres (item_from_mutation 1 firstLitre)
    ⟨1000, 0⟩ ⟨le_rfl, rfl⟩ (by decide) rfl rfl (by decide +kernel) ?_⟩
  intro i e o hi hlt he hwrites ho
  obtain rfl : i = 1 := by omega
  cases he
  cases ho
  exact .inl rfl

theorem litre_amount : litreOrigin.amount fixedPoint unchanged = 1000 := by
  decide +kernel

/-- Two litres are added to one, and there are two. -/
theorem update_lost :
    ¬∀ w, NotedRun {1, 2, 3} plain fixedPoint unchanged (fun _ _ => True) Noted.init w →
      Accounted fixedPoint unchanged plain "milk" 1 w := by
  intro h
  obtain ⟨answers, hrun⟩ := threeAdded_run
  obtain ⟨item, q, hget, hread, hvalue⟩ := h _ hrun 1 3 litreStore threeLitres
    (item_from_mutation 1 firstLitre) ⟨1000, 0⟩ ⟨le_rfl, rfl⟩ (by decide) rfl rfl
    (by decide +kernel) (by
      intro i e o hi hlt he hwrites ho
      obtain rfl | rfl : i = 1 ∨ i = 2 := by omega
      all_goals
        cases he
        cases ho
        exact .inl rfl)
  have hsum : ∑ i ∈ Finset.Ico 1 3, (⟨threeAdded, [], answers, originThree⟩ : Noted).added
      fixedPoint unchanged "milk" (threeAdded.log 1) i = 1000 + 1000 := by
    rw [Finset.sum_Ico_succ_top (by decide), Finset.sum_Ico_succ_top (by decide), Finset.Ico_self,
      Finset.sum_empty, zero_add]
    congr 1
    · exact (Noted.added_some (e := ⟨1, secondLitre⟩) rfl (by decide) rfl).trans litre_amount
    · exact (Noted.added_some (e := ⟨1, thirdLitre⟩) rfl (by decide) rfl).trans litre_amount
  obtain rfl : item = item_from_mutation 3 thirdLitre := (Option.some.inj hget).symm
  have htwo : fixedPoint.from_str (item_from_mutation 3 thirdLitre).quantity = some ⟨2000, 0⟩ := by
    decide +kernel
  obtain rfl := Option.some.inj (hread.symm.trans htwo)
  rw [hsum] at hvalue
  norm_num [fixedPoint_value, Decimal.value] at hvalue

end gateway.ingress
