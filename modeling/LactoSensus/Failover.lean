-- The retry loop among nodes that fail. A call that breaks and a rejection both
-- take the loop to another node; a connection that is refused ends it, and
-- leaves the node in front.
import LactoSensus.Client

open common.proto

namespace client_cli

/-! ## The network -/

/-- What an address that is not the leader's does with an attempt. -/
inductive Behaviour where
  | Refused
  | TransportError
  | EmptyHint
  /-- A rejection with the address of the leader. -/
  | Hint
deriving DecidableEq, Repr

/-- A rejection, of the type that the call waits for. -/
def Call.rejection (leader_hint : String) : Call → Reply
  | .Query => .Query true leader_hint
  | _ => .Mutation ⟨MutationStatus.Rejected.toInt, 0, leader_hint, ""⟩

/-- A node that refuses connections breaks the call on a channel that was open. -/
def Behaviour.reply (leader : String) (call : Call) : Behaviour → Reply
  | .Refused => .Status .Other
  | .TransportError => .Status .Other
  | .EmptyHint => call.rejection ""
  | .Hint => call.rejection leader

/-- How an iteration of the loop ends. -/
inductive Sought where
  /-- The request is on its way to the leader. -/
  | Leader (client : Client)
  /-- The call has returned an error. -/
  | Error (client : Client)
  | Again (client : Client)
deriving DecidableEq

/-- The address that an attempt goes to: a channel is always one to the node in front. -/
def Client.front (client : Client) : Option String :=
  client.process.bind fun p => p.state.known_nodes.head?

/-- The call that waits for its answer. -/
def Client.waiting (client : Client) : Option Call :=
  client.process.bind fun p =>
    match p.stage with
    | .Awaiting call _ _ => some call
    | _ => none

/-- One attempt, and what comes back when it has not gone to the leader. The state file can be
written. -/
def Client.iterate (net : Nat → String → Behaviour) (leader : String) (i : Nat)
    (client : Client) : Sought :=
  let addr := client.front.getD ""
  let behaviour := net i addr
  match clientStep client (.Attempt (addr = leader ∨ behaviour ≠ .Refused)) with
  | none => .Error client
  | some sent =>
    match sent.waiting with
    | none => .Error sent
    | some call =>
      if addr = leader then .Leader sent
      else
        match clientStep sent (.Receive (behaviour.reply leader call) .Written) with
        | none => .Error sent
        | some client => .Again client

/-- The loop up to the leader or an error, in so many iterations at most. -/
def Client.seek (net : Nat → String → Behaviour) (leader : String) :
    Nat → Nat → Client → Sought
  | 0, _, client => .Again client
  | left + 1, i, client =>
    match client.iterate net leader i with
    | .Again client => client.seek net leader left (i + 1)
    | out => out

/-! ## One iteration -/

variable {net : Nat → String → Behaviour} {leader : String} {client : Client} {p : Process}
  {call : Call} {i max_retries : Nat} {addr : String} {rest : List String}

/-- The loop is at the attempt with the number, with these nodes. -/
structure Trying (client : Client) (p : Process) (call : Call) (i max_retries : Nat)
    (nodes : List String) : Prop where
  process : client.process = some p
  stage : p.stage = .Retrying call i max_retries
  nodes : p.state.known_nodes = nodes
  file : client.file = .Saved p.state

theorem Trying.front (h : Trying client p call i max_retries (addr :: rest)) :
    client.front = some addr := by
  simp [Client.front, h.process, h.nodes]

/-- An attempt that can be made is on its way. -/
theorem Trying.sent (h : Trying client p call i max_retries (addr :: rest))
    (hlt : i < max_retries) (reachable : Bool) (hreach : p.connected = true ∨ reachable = true) :
    ∃ sent p', clientStep client (.Attempt reachable) = some sent ∧ sent.process = some p' ∧
      p'.state = p.state ∧ p'.stage = .Awaiting call (i + 1) max_retries ∧
      sent.waiting = some call := by
  have hno : ¬(p.connected = false ∧ (p.state.known_nodes = [] ∨ reachable = false)) := by
    rw [h.nodes]
    rcases hreach with hreach | hreach <;> simp [hreach]
  refine ⟨{ client with
      process := some { p with connected := true, stage := .Awaiting call (i + 1) max_retries }
      sent := call.payload?.toList ++ client.sent }, _, ?_, rfl, rfl, rfl, rfl⟩
  simp only [clientStep, h.process, Option.bind_some, h.stage, Client.attempt]
  rw [if_neg (by omega), if_neg hno]

variable (net) in
theorem Trying.reaches (h : Trying client p call i max_retries (leader :: rest))
    (hlt : i < max_retries) : ∃ sent, client.iterate net leader i = .Leader sent := by
  obtain ⟨sent, -, hsent, -, -, -, hwaiting⟩ := h.sent hlt true (.inr rfl)
  refine ⟨sent, ?_⟩
  simp only [Client.iterate, h.front, Option.getD_some, true_or, decide_true, hsent, hwaiting,
    if_true]

/-- No channel, and the connection is refused: the call ends, and the state stays. -/
theorem Trying.refused (h : Trying client p call i max_retries (addr :: rest))
    (hlt : i < max_retries) (hne : addr ≠ leader) (hrefused : net i addr = .Refused)
    (hopen : p.connected = false) :
    ∃ ended, client.iterate net leader i = .Error ended ∧ ended.file = client.file := by
  have hstep : clientStep client (.Attempt false) = some (client.fail p call) := by
    simp only [clientStep, h.process, Option.bind_some, h.stage, Client.attempt]
    rw [if_neg (by omega), if_pos (by simp [hopen])]
  have hwaiting : (client.fail p call).waiting = none := by
    cases call <;> rfl
  have hfile : (client.fail p call).file = client.file := by
    cases call <;> rfl
  refine ⟨_, ?_, hfile⟩
  simp only [Client.iterate, h.front, Option.getD_some, hne, hrefused, ne_eq, not_true,
    or_self, decide_false, hstep, hwaiting]

/-- The hint that the reply comes with. -/
def Behaviour.hint (leader : String) : Behaviour → Option String
  | .Refused => none
  | .TransportError => none
  | .EmptyHint => some ""
  | .Hint => some leader

theorem receive_reply (client : Client) (p : Process) (call : Call) (retry_count max_retries : Nat)
    (behaviour : Behaviour) :
    client.receive p call retry_count max_retries .Written (behaviour.reply leader call) =
      client.reconcile_routing_failure p call retry_count max_retries (behaviour.hint leader)
        .Written := by
  cases behaviour <;> cases call <;> rfl

variable (net) in
/-- What comes back takes the loop to another node. -/
theorem Trying.again (h : Trying client p call i max_retries (addr :: rest))
    (hlt : i < max_retries) (hne : addr ≠ leader)
    (hreach : p.connected = true ∨ net i addr ≠ .Refused) {state : ClientState}
    (hstate : p.state.reroute ((net i addr).hint leader) = some state) :
    ∃ client' p', client.iterate net leader i = .Again client' ∧ p'.connected = false ∧
      Trying client' p' call (i + 1) max_retries state.known_nodes := by
  obtain ⟨sent, p', hsent, hp', hsame, hstage, hwaiting⟩ := h.sent hlt
    (decide (addr = leader ∨ net i addr ≠ .Refused))
    (hreach.imp_right fun hok => decide_eq_true (.inr hok))
  have hfits : ((net i addr).reply leader call).fits call = true := by
    cases net i addr <;> cases call <;> rfl
  have hreceive : clientStep sent (.Receive ((net i addr).reply leader call) .Written) =
      some (sent.reconcile_routing_failure p' call (i + 1) max_retries
        ((net i addr).hint leader) .Written) := by
    rw [← receive_reply]
    simp only [clientStep, hp', Option.bind_some, hstage, hfits, if_true]
  have hagain : client.iterate net leader i = .Again (sent.reconcile_routing_failure p' call
      (i + 1) max_retries ((net i addr).hint leader) .Written) := by
    simp only [Client.iterate, h.front, Option.getD_some, hsent, hwaiting, if_neg hne, hreceive]
  rw [← hsame] at hstate
  rw [hagain, Client.reconcile_routing_failure, hstate]
  exact ⟨_, _, rfl, rfl, rfl, rfl, rfl, rfl⟩

/-! ## The loop -/

/-- The loop goes no further than the index: there is the leader, or a node that names it. -/
def StopsAt (net : Nat → String → Behaviour) (leader : String) (nodes : List String) (i : Nat) :
    Prop :=
  ∃ addr, nodes[i]? = some addr ∧ (addr = leader ∨ net i addr = .Hint)

/-- The node at the index refuses, and there is no open channel to it. -/
def RefusedAt (net : Nat → String → Behaviour) (connected : Bool) (nodes : List String) (i : Nat) :
    Prop :=
  ∃ addr, nodes[i]? = some addr ∧ net i addr = .Refused ∧ ¬(i = 0 ∧ connected = true)

theorem reroute_hint {s : ClientState} (hne : leader ≠ "")
    (hfront : s.known_nodes.head? ≠ some leader) :
    ∃ state rest, s.reroute (Behaviour.Hint.hint leader) = some state ∧
      state.known_nodes = leader :: rest := by
  refine ⟨{ s with known_nodes :=
      (leader :: s.known_nodes.filter (· ≠ leader)).take MAX_KNOWN_NODES }, _, ?_, rfl⟩
  simp only [ClientState.reroute, Behaviour.hint, if_pos hne, ClientState.record_hint,
    ClientState.record_success, if_neg hfront]

variable (leader) in
/-- Without a hint the node in front goes to the end. -/
theorem reroute_rotate {s : ClientState} {behaviour : Behaviour} (hno : behaviour ≠ .Hint)
    (hnodes : s.known_nodes = addr :: rest) (hrest : rest ≠ []) :
    ∃ state, s.reroute (behaviour.hint leader) = some state ∧
      state.known_nodes = (addr :: rest).rotate 1 := by
  have hrotate : s.reroute (behaviour.hint leader) = s.rotate_nodes := by
    cases behaviour with
    | Hint => exact absurd rfl hno
    | EmptyHint => simp [ClientState.reroute, Behaviour.hint]
    | Refused => rfl
    | TransportError => rfl
  cases rest with
  | nil => exact absurd rfl hrest
  | cons next rest =>
    rw [hrotate, ClientState.rotate_nodes, hnodes]
    exact ⟨_, rfl, by simp⟩

theorem rotate_at {nodes : List String} (h : nodes[i]? = some addr) :
    nodes.rotate i = addr :: (nodes.drop (i + 1) ++ nodes.take i) := by
  obtain ⟨hlt, rfl⟩ := List.getElem?_eq_some_iff.mp h
  rw [List.rotate_eq_drop_append_take hlt.le, List.drop_eq_getElem_cons hlt, List.cons_append]

variable (net max_retries) in
/-- From any attempt on: the loop reaches the leader, or the first node that refuses ends it
and stays in front. -/
theorem seek_from {nodes : List String} {k : Nat} (connected : Bool) (hne : leader ≠ "")
    (hleader : leader ∈ nodes) (hstop : StopsAt net leader nodes k)
    (hfirst : ∀ j < k, ¬StopsAt net leader nodes j) (hmax : k + 1 < max_retries) :
    ∀ (d i left : Nat) (client : Client) (p : Process), i + d = k → d + 2 ≤ left →
      Trying client p call i max_retries (nodes.rotate i) →
      p.connected = (decide (i = 0) && connected) →
      (∃ sent, client.seek net leader left i = .Leader sent) ∧
          (∀ j, i ≤ j → j < k → ¬RefusedAt net connected nodes j) ∨
        ∃ j addr ended state, i ≤ j ∧ j < k ∧ RefusedAt net connected nodes j ∧
          nodes[j]? = some addr ∧ net j addr = .Refused ∧
          client.seek net leader left i = .Error ended ∧ ended.file = .Saved state ∧
          state.known_nodes.head? = some addr := by
  intro d
  induction d with
  | zero =>
    intro i left client p hk hleft htry _
    obtain rfl : i = k := hk
    obtain ⟨left, rfl⟩ : ∃ n, left = n + 2 := ⟨left - 2, by omega⟩
    refine .inl ⟨?_, fun j hj hj' => by omega⟩
    obtain ⟨addr, haddr, hstop⟩ := hstop
    rw [rotate_at haddr] at htry
    by_cases hsame : addr = leader
    · subst hsame
      obtain ⟨sent, hsent⟩ := htry.reaches net (by omega)
      exact ⟨sent, by rw [Client.seek, hsent]⟩
    · have hhint := hstop.resolve_left hsame
      obtain ⟨state, rest, hstate, hnodes⟩ := reroute_hint (s := p.state) hne
        (by rw [htry.nodes]; simpa using hsame)
      obtain ⟨client', p', hagain, -, htry'⟩ := htry.again net (by omega) hsame
        (.inr (by rw [hhint]; simp)) (by rw [hhint]; exact hstate)
      rw [hnodes] at htry'
      obtain ⟨sent, hsent⟩ := htry'.reaches net (by omega)
      exact ⟨sent, by simp only [Client.seek, hagain, hsent]⟩
  | succ d ih =>
    intro i left client p hk hleft htry hconn
    obtain ⟨left, rfl⟩ : ∃ n, left = n + 1 := ⟨left - 1, by omega⟩
    have hlt : i < nodes.length := by
      obtain ⟨_, hget, -⟩ := hstop
      have := (List.getElem?_eq_some_iff.mp hget).1
      omega
    obtain ⟨addr, haddr⟩ : ∃ addr, nodes[i]? = some addr := ⟨_, List.getElem?_eq_getElem hlt⟩
    have hnostop := hfirst i (by omega)
    have hother : addr ≠ leader := fun heq => hnostop ⟨addr, haddr, .inl heq⟩
    have hnohint : net i addr ≠ .Hint := fun heq => hnostop ⟨addr, haddr, .inr heq⟩
    have hrotated := rotate_at haddr
    rw [hrotated] at htry
    by_cases hrefused : RefusedAt net connected nodes i
    · obtain ⟨addr', haddr', hbehaves, hclosed⟩ := hrefused
      obtain rfl : addr' = addr := Option.some.inj (haddr'.symm.trans haddr)
      obtain ⟨ended, hended, hfile⟩ := htry.refused (by omega) hother hbehaves
        (by rw [hconn]; simpa using hclosed)
      refine .inr ⟨i, addr', ended, p.state, le_refl _, by omega, ⟨addr', haddr, hbehaves, hclosed⟩,
        haddr, hbehaves, by rw [Client.seek, hended], hfile.trans htry.file, ?_⟩
      rw [htry.nodes]
      rfl
    · have hreach : p.connected = true ∨ net i addr ≠ .Refused := by
        by_contra hno
        rw [not_or, not_not] at hno
        refine hrefused ⟨addr, haddr, hno.2, fun hopen => hno.1 ?_⟩
        rw [hconn]
        simpa using hopen
      have hrest : nodes.drop (i + 1) ++ nodes.take i ≠ [] := by
        intro hnil
        have hmem : leader ∈ nodes.rotate i := List.mem_rotate.mpr hleader
        rw [hrotated, hnil, List.mem_singleton] at hmem
        exact hother hmem.symm
      obtain ⟨state, hstate, hnodes⟩ := reroute_rotate leader hnohint htry.nodes hrest
      obtain ⟨client', p', hagain, hclosed, htry'⟩ := htry.again net (by omega) hother
        hreach hstate
      rw [hnodes, ← hrotated, List.rotate_rotate] at htry'
      simp only [Client.seek, hagain]
      rcases ih (i + 1) left client' p' (by omega) (by omega) htry' (by rw [hclosed]; simp) with
        ⟨hsent, hnone⟩ | ⟨j, addr', ended, state', hij, hjk, hrest⟩
      · refine .inl ⟨hsent, fun j hj hj' => ?_⟩
        rcases Nat.eq_or_lt_of_le hj with rfl | hj
        · exact hrefused
        · exact hnone j hj hj'
      · exact .inr ⟨j, addr', ended, state', by omega, hjk, hrest⟩

/-- No node that is tried before the leader, or before one that names it, refuses. -/
def NoneRefusesBefore (net : Nat → String → Behaviour) (leader : String) (connected : Bool)
    (nodes : List String) : Prop :=
  ∃ k, StopsAt net leader nodes k ∧ ∀ j < k, ¬RefusedAt net connected nodes j

/-- The request goes to the leader exactly when no connection is refused before. Else the call
returns an error, and a node that refuses is still in front, in the file as well. -/
theorem failover_iff (hcall : Trying client p call 0
      (p.state.known_nodes.length + MAX_KNOWN_NODES) p.state.known_nodes)
    (hleader : leader ∈ p.state.known_nodes) (hne : leader ≠ "") :
    ((∃ sent, client.seek net leader (p.state.known_nodes.length + MAX_KNOWN_NODES) 0 =
        .Leader sent) ↔ NoneRefusesBefore net leader p.connected p.state.known_nodes) ∧
      (¬NoneRefusesBefore net leader p.connected p.state.known_nodes →
        ∃ i addr ended state, net i addr = .Refused ∧
          client.seek net leader (p.state.known_nodes.length + MAX_KNOWN_NODES) 0 = .Error ended ∧
          ended.file = .Saved state ∧ state.known_nodes.head? = some addr) := by
  classical
  obtain ⟨j, hj⟩ := List.mem_iff_getElem?.mp hleader
  have hexists : ∃ k, StopsAt net leader p.state.known_nodes k := ⟨j, leader, hj, .inl rfl⟩
  set k := Nat.find hexists with hk
  have hstop : StopsAt net leader p.state.known_nodes k := Nat.find_spec hexists
  have hfirst : ∀ i < k, ¬StopsAt net leader p.state.known_nodes i := fun i hi =>
    Nat.find_min hexists hi
  have hlt : k < p.state.known_nodes.length := by
    obtain ⟨_, hget, -⟩ := hstop
    exact (List.getElem?_eq_some_iff.mp hget).1
  have hten : MAX_KNOWN_NODES = 10 := rfl
  have hnone : NoneRefusesBefore net leader p.connected p.state.known_nodes ↔
      ∀ i, 0 ≤ i → i < k → ¬RefusedAt net p.connected p.state.known_nodes i := by
    refine ⟨fun ⟨k', hstop', hbefore⟩ i _ hi => hbefore i ?_, fun h => ⟨k, hstop, fun i hi =>
      h i (Nat.zero_le i) hi⟩⟩
    have := Nat.find_le (h := hexists) hstop'
    omega
  rcases seek_from net (p.state.known_nodes.length + MAX_KNOWN_NODES) p.connected hne hleader
    hstop hfirst (by omega) k 0 (p.state.known_nodes.length + MAX_KNOWN_NODES) client p
    (Nat.zero_add k) (by omega)
    (by rw [List.rotate_zero]; exact hcall) (by simp) with
    ⟨hsent, hok⟩ | ⟨i, addr, ended, state, -, hik, hrefused, -, hbehaves, herror, hfile, hfront⟩
  · rw [hnone]
    exact ⟨⟨fun _ => hok, fun _ => hsent⟩, fun hno => absurd hok hno⟩
  · rw [hnone]
    refine ⟨⟨fun ⟨sent, hsent⟩ => ?_, fun hok => absurd hrefused (hok i (Nat.zero_le i) hik)⟩,
      fun _ => ⟨i, addr, ended, state, hbehaves, herror, hfile, hfront⟩⟩
    rw [herror] at hsent
    cases hsent

/-- The leader is the second of the two nodes. -/
def twoNodes : ClientState :=
  ⟨"lacto", "6ba7b810-9dad-11d1-80b4-00c04fd430c8", 0, ["10.0.0.1:50051", "10.0.0.2:50051"]⟩

/-- The client has been asked for the state, and has no channel yet. -/
def asking : Process := ⟨twoNodes, false, false, .Retrying .Query 0 12⟩

def askingClient : Client := ⟨.Saved twoNodes, .empty, some asking, []⟩

theorem asking_trying : Trying askingClient asking .Query 0
    (asking.state.known_nodes.length + MAX_KNOWN_NODES) asking.state.known_nodes :=
  ⟨rfl, rfl, rfl, rfl⟩

theorem failover_iff_asking :
    ((∃ sent, askingClient.seek (fun _ _ => .TransportError) "10.0.0.2:50051"
        (asking.state.known_nodes.length + MAX_KNOWN_NODES) 0 = .Leader sent) ↔
      NoneRefusesBefore (fun _ _ => .TransportError) "10.0.0.2:50051" asking.connected
        asking.state.known_nodes) ∧
      (¬NoneRefusesBefore (fun _ _ => .TransportError) "10.0.0.2:50051" asking.connected
          asking.state.known_nodes →
        ∃ i addr ended state, (fun _ _ => Behaviour.TransportError : Nat → String → Behaviour)
            i addr = .Refused ∧
          askingClient.seek (fun _ _ => .TransportError) "10.0.0.2:50051"
            (asking.state.known_nodes.length + MAX_KNOWN_NODES) 0 = .Error ended ∧
          ended.file = .Saved state ∧ state.known_nodes.head? = some addr) :=
  failover_iff asking_trying (by simp [asking, twoNodes]) (by simp)

/-- The first node is down: the command fails, and so does every one after it. -/
theorem refused_ends_loop :
    ¬∀ (net : Nat → String → Behaviour) (client : Client) (p : Process) (call : Call)
        (leader : String), Trying client p call 0 (p.state.known_nodes.length + MAX_KNOWN_NODES)
          p.state.known_nodes → p.state.known_nodes.length ≤ MAX_KNOWN_NODES →
      leader ∈ p.state.known_nodes → leader ≠ "" →
      ∃ sent, client.seek net leader (p.state.known_nodes.length + MAX_KNOWN_NODES) 0 =
        .Leader sent := by
  intro h
  obtain ⟨sent, hsent⟩ := h (fun _ _ => .Refused) askingClient asking .Query "10.0.0.2:50051"
    asking_trying (by decide) (by simp [asking, twoNodes]) (by simp)
  have hended : askingClient.seek (fun _ _ => .Refused) "10.0.0.2:50051" 12 0 =
      .Error { askingClient with process := some { asking with stage := .Ready } } := by
    decide +kernel
  cases hended.symm.trans hsent

end client_cli
