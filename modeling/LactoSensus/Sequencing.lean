-- No gap in the sequences of a client: what the firewall let through follows on
-- what the node had applied, and that is still in front of the entry when it is
-- written. So the store never finds a gap, whatever is repeated, however far
-- behind a node is, and whoever leads.
import LactoSensus.Gateway
import LactoSensus.Lib.Raft.Written

open common.types
open common.proto
open common.taxonomy
open lacto_fsm
open machine
open raft (Each Written Settled Grows Safe)

namespace gateway.ingress

variable {α : Type} {c : Codec α} {members : Finset NodeId} {oracle : Oracle} {g g' : Gateway}
  {s : raft.State NodeId CommittedMutation} {P : Gateway → GatewayAct → Prop}

/-! ## The firewall -/

/-- What the store has last seen of a client. -/
def lastSeen (store : LactoStore) (client_id : String) : Nat :=
  ((store.get_session_record client_id).map SessionRecord.last_sequence_id).getD 0

/-- A lookup with sequence 0 asks for whatever the store has. -/
theorem check_session_zero {store : LactoStore} {client_id : String}
    {found : Option SessionRecord} (hcheck : store.check_session client_id 0 = .ok found) :
    store.get_session_record client_id = found := by
  unfold LactoStore.check_session at hcheck
  split at hcheck
  · cases hcheck
  split at hcheck
  · rename_i record hrecord
    rw [if_pos (.inl rfl)] at hcheck
    rw [hrecord]
    exact Except.ok.inj hcheck
  · rename_i hrecord
    rw [hrecord]
    exact Except.ok.inj hcheck

theorem firewall_passes {store : LactoStore} {client_id : String} {sequence_id : Nat}
    (hwall : enforce_sequence_firewall store client_id sequence_id = .ok none) :
    1 ≤ sequence_id ∧ sequence_id = lastSeen store client_id + 1 := by
  unfold enforce_sequence_firewall at hwall
  split at hwall
  · cases hwall
  rename_i hzero
  have hpos : 1 ≤ sequence_id := Nat.one_le_iff_ne_zero.mpr hzero
  refine ⟨hpos, ?_⟩
  unfold lastSeen
  split at hwall
  · cases hwall
  · rename_i record hcheck
    rw [check_session_zero hcheck]
    split at hwall
    · cases hwall
    rename_i hsame
    split at hwall
    · cases hwall
    rename_i hstale
    split at hwall
    · cases hwall
    rename_i hgap
    simp only [SEQUENCE_STEP] at hgap
    simp only [Option.map_some, Option.getD_some]
    omega
  · rename_i hcheck
    rw [check_session_zero hcheck]
    split at hwall
    · cases hwall
    · rename_i hfirst
      exact not_not.mp hfirst

/-! ## Entries without a gap -/

/-- An entry that the gateway has built, and that skips none of its client's sequences. -/
structure Fits (c : Codec α) (before : List (raft.Entry CommittedMutation))
    (e : raft.Entry CommittedMutation) : Prop where
  wellFormed : WellFormed c e.data
  dated : e.data.event_time ≠ none
  next : e.data.sequence_id ≤ highest (mutations before) e.data.client_id + 1

theorem mutations_mono {l l' : List (raft.Entry CommittedMutation)} (hpre : l <+: l') :
    mutations l <+: mutations l' :=
  hpre.map _

theorem Each.mutation {l : List (raft.Entry CommittedMutation)} (h : Each (Fits c) l) {k : Nat}
    {m : CommittedMutation} (hm : (mutations l)[k]? = some m) :
    WellFormed c m ∧ m.event_time ≠ none ∧
      m.sequence_id ≤ highest ((mutations l).take k) m.client_id + 1 := by
  unfold mutations at hm ⊢
  rw [List.getElem?_map] at hm
  obtain ⟨e, he, rfl⟩ := Option.map_eq_some_iff.mp hm
  obtain ⟨hwell, hdated, hnext⟩ := h k e he
  rw [← List.map_take]
  exact ⟨hwell, hdated, hnext⟩

/-- A log of such entries leaves the store as its entries mean. -/
theorem Each.tidy {l : List (raft.Entry CommittedMutation)} {store : LactoStore}
    (h : Each (Fits c) l) (happlied : replay c (mutations l) = (store, .ok ())) :
    Tidy (mutations l) store ∧ (mutations l).length ≤ u64Max := by
  refine tidy_of_applied (fun m hm => ?_) (fun i _ hv => ?_) happlied
  · obtain ⟨k, hk⟩ := List.mem_iff_getElem?.mp hm
    exact (Each.mutation h hk).1
  · obtain ⟨m, hm, -, hbad⟩ := hv
    obtain ⟨-, hdated, hnext⟩ := Each.mutation h hm
    rcases hbad with hgap | hnone
    · omega
    · exact hdated hnone

/-! ## Requests that the firewall let through -/

/-- The sequence follows on settled entries, which every leader to come has. -/
def Follows (members : Finset NodeId) (s : raft.State NodeId CommittedMutation) (r : Request) :
    Prop :=
  1 ≤ r.sequence_id ∧ ∃ p, Settled members s (s.term r.node) p ∧
    r.sequence_id = highest (mutations p) r.client_id + 1

theorem Follows.grow {s' : raft.State NodeId CommittedMutation} {r : Request}
    (h : Follows members s r) (hgrow : Grows s s') : Follows members s' r := by
  obtain ⟨hpos, p, hp, hseq⟩ := h
  exact ⟨hpos, p, (hp.grow hgrow).mono (hgrow.term_le r.node), hseq⟩

/-- What the applied entries of a node are: the beginning of what it takes as committed. -/
theorem Serving.settled {n : NodeId} {k : Nat} {store : LactoStore} (hsafe : Safe members s)
    (h : Serving c s n k store) : Settled members s (s.term n) ((s.log n).take k) :=
  (hsafe.complete.settled n).shorter (List.take_prefix_take_left h.committed)

/-- Everything the gateway keeps. -/
structure Sequenced (members : Finset NodeId) (c : Codec α) (g : Gateway) : Prop where
  safe : Safe members g.raft
  written : Written (Fits c) g.raft
  canonical : ∀ r ∈ g.requests, c.parse_uuid r.client_id = .ok r.client_id
  follows : ∀ r ∈ g.requests, r.stage ≠ .Authorized → Follows members g.raft r

theorem Sequenced.init : Sequenced members c Gateway.init :=
  ⟨.init members, .init, by simp [Gateway.init], by simp [Gateway.init]⟩

/-- The requests after a step: each stands for one that was there before. -/
theorem Sequenced.carry (h : Sequenced members c g) (hsafe : Safe members g'.raft)
    (hwritten : Written (Fits c) g'.raft) (hgrow : Grows g.raft g'.raft)
    (hrequests : ∀ r' ∈ g'.requests, ∃ r ∈ g.requests, r'.node = r.node ∧
      r'.client_id = r.client_id ∧ r'.sequence_id = r.sequence_id ∧
      (r.stage = .Authorized → r'.stage ≠ .Authorized → Follows members g.raft r)) :
    Sequenced members c g' := by
  refine ⟨hsafe, hwritten, fun r' hr' => ?_, fun r' hr' hstage => ?_⟩
  · obtain ⟨r, hr, -, hclient, -, -⟩ := hrequests r' hr'
    rw [hclient]
    exact h.canonical r hr
  · obtain ⟨r, hr, hnode, hclient, hseq, hnew⟩ := hrequests r' hr'
    have hfollows : Follows members g.raft r := by
      by_cases hauth : r.stage = .Authorized
      · exact hnew hauth hstage
      · exact h.follows r hr hauth
    have hfollows' := hfollows.grow hgrow
    unfold Follows at hfollows' ⊢
    rw [hnode, hclient, hseq]
    exact hfollows'

theorem Sequenced.stage (h : Sequenced members c g) {i : Nat} {r : Request} {stage : Stage}
    (hr : g.requests[i]? = some r)
    (hnew : r.stage = .Authorized → Follows members g.raft r) :
    Sequenced members c (g.withStage i r stage) := by
  refine h.carry h.safe h.written (.refl _) fun r' hr' => ?_
  rcases List.mem_or_eq_of_mem_set hr' with hold | rfl
  · exact ⟨r', hold, rfl, rfl, rfl, fun hauth hno => absurd hauth hno⟩
  · exact ⟨r, List.mem_of_getElem? hr, rfl, rfl, rfl, fun hauth _ => hnew hauth⟩

theorem Sequenced.erase (h : Sequenced members c g) (i : Nat) (answers : List Answer) :
    Sequenced members c ⟨g.raft, g.requests.eraseIdx i, answers⟩ :=
  h.carry h.safe h.written (.refl _) fun r' hr' =>
    ⟨r', List.mem_of_mem_eraseIdx hr', rfl, rfl, rfl, fun hauth hno => absurd hauth hno⟩

/-- A proposal fits the log of its leader, because what the firewall saw is at its beginning. -/
theorem Sequenced.fits (h : Sequenced members c g) {r : Request} {stabilized : StabilizedMutation}
    {status : ProposalStatus} {now : Timestamp} {m : CommittedMutation} (hr : r ∈ g.requests)
    (hstage : r.stage ≠ .Authorized) (hrole : g.raft.role r.node = .leader)
    (hm : m = proposedMutation r.client_id r.sequence_id r.intent stabilized r.raw_user_input
      status now) : Fits c (g.raft.log r.node) ⟨g.raft.term r.node, m⟩ := by
  subst hm
  obtain ⟨hpos, p, hp, hseq⟩ := h.follows r hr hstage
  obtain ⟨hlead, hglog⟩ := h.safe.election.role_leader r.node hrole
  have hpre : p <+: g.raft.log r.node := by
    rw [← hglog]
    exact h.safe.complete.settled_in_leader hp le_rfl (by rw [hlead]; simp)
  refine ⟨⟨h.canonical r hr, hpos, ?_⟩, by simp [proposedMutation, CommittedMutation.new], ?_⟩
  · cases status <;> simp [proposedMutation, CommittedMutation.new, ProposalStatus.to_proto,
      MutationStatus.toInt, MutationStatus.try_from]
  · have hmono := highest_mono (mutations_mono hpre) r.client_id
    change r.sequence_id ≤ highest (mutations (g.raft.log r.node)) r.client_id + 1
    omega

theorem Sequenced.step {a : GatewayAct} (hcanonical : ∀ raw id, c.parse_uuid raw = .ok id →
    c.parse_uuid id = .ok id) (h : Sequenced members c g) (hs : Moves members c oracle g a g') :
    Sequenced members c g' := by
  have hstay : ∀ {i r stage}, g.requests[i]? = some r → r.stage ≠ .Authorized →
      Sequenced members c (g.withStage i r stage) := fun hr hstage =>
    h.stage hr fun hauth => absurd hauth hstage
  cases hs with
  | replicate hs =>
    obtain ⟨hstep, hglog⟩ := hs
    refine h.carry (h.safe.step hstep)
      (h.written.keep h.safe.election h.safe.matching hstep hglog)
      (hstep.grows h.safe.election h.safe.matching) fun r' hr' => ?_
    exact ⟨r', hr', rfl, rfl, rfl, fun hauth hno => absurd hauth hno⟩
  | arrive hrole hid =>
    refine ⟨h.safe, h.written, fun r hr => ?_, fun r hr hstage => ?_⟩
    · rcases List.mem_cons.mp hr with rfl | hold
      · exact hcanonical _ _ hid
      · exact h.canonical r hold
    · rcases List.mem_cons.mp hr with rfl | hold
      · exact absurd rfl hstage
      · exact h.follows r hold hstage
  | answer hr hstage hstore hwall => exact h.erase _ _
  | @pass i k r store hr hstage hstore hwall =>
    refine h.stage hr fun _ => ?_
    obtain ⟨hpos, hseq⟩ := firewall_passes hwall
    have hsettled := hstore.settled h.safe
    have hfits : Each (Fits c) ((g.raft.log r.node).take k) :=
      (h.written.traced (h.safe.matching.log_traced r.node)).shorter (List.take_prefix _ _)
    obtain ⟨htidy, -⟩ := Each.tidy hfits hstore.applied
    refine ⟨hpos, _, hsettled, ?_⟩
    rw [hseq]
    exact congrArg (· + 1) (htidy.last_seen r.client_id)
  | lock hr hstage hfree hstore hread => exact hstay hr (by simp [hstage])
  | resolve hr hstage horacle => exact hstay hr (by simp [hstage])
  | @propose i r status stabilized now m hr hstage hrole hm =>
    have hauth : r.stage ≠ .Authorized := by simp [hstage]
    have hfits := h.fits (List.mem_of_getElem? hr) hauth hrole hm
    have hstep : raft.Step members r.node g.raft (proposeOn g.raft r.node m) :=
      .propose g.raft m hrole
    have hwaiting : Sequenced members c (g.withStage i r (.Waiting
        ((g.raft.log r.node).length + 1) status stabilized.moral_justification
        ⟨g.raft.term r.node, m⟩)) := hstay hr hauth
    refine hwaiting.carry (h.safe.step hstep) (h.written.write h.safe.matching hfits)
      (hstep.grows h.safe.election h.safe.matching) fun r' hr' => ?_
    exact ⟨r', hr', rfl, rfl, rfl, fun hauth hno => absurd hauth hno⟩
  | acknowledge hr hstage hrole hle => exact h.erase _ _
  | drop => exact h.erase _ _

/-! ## The whole system -/

/-- Whatever clients send to whichever nodes, no entry of any log skips a sequence of its
client: the store that has applied the entries before it takes it, as the next one or as a
duplicate, unless a counter has run out. -/
theorem sequence_gap_unreachable (hcanonical : ∀ raw id, c.parse_uuid raw = .ok id →
      c.parse_uuid id = .ok id)
    (hrun : GatewayRun members c oracle (fun _ _ => True) Gateway.init g) (n : NodeId) {k : Nat}
    {m : CommittedMutation} (hm : (mutations (g.raft.log n))[k]? = some m) {store : LactoStore}
    (happlied : replay c ((mutations (g.raft.log n)).take k) = (store, .ok ())) :
    m.sequence_id ≤ lastSeen store m.client_id + 1 ∧
      ((store.apply c (k + 1) (c.encode m)).2 = .ok () ∨
        ∃ e, (store.apply c (k + 1) (c.encode m)).2 = .error (.Arithmetic e)) := by
  have h : Sequenced members c g :=
    Trail.invariant (fun _ _ _ h _ hs => h.step hcanonical hs) hrun .init
  have hfits := h.written.traced (h.safe.matching.log_traced n)
  obtain ⟨hwell, hdated, hnext⟩ := Each.mutation hfits hm
  have hk : ((mutations (g.raft.log n)).take k).length = k :=
    List.length_take_of_le (List.getElem?_eq_some_iff.mp hm).1.le
  have hsplit : (mutations (g.raft.log n)).take k = mutations ((g.raft.log n).take k) :=
    List.map_take.symm
  rw [hsplit] at happlied hnext hk
  obtain ⟨htidy, hlen⟩ := Each.tidy (hfits.shorter (List.take_prefix _ _)) happlied
  have hseen : lastSeen store m.client_id = highest (mutations ((g.raft.log n).take k))
      m.client_id := htidy.last_seen m.client_id
  refine ⟨by omega, ?_⟩
  rw [← hk]
  rcases Nat.eq_or_lt_of_le hlen with hfull | hlt
  · obtain ⟨e, he⟩ := htidy.apply_full (c := c) hfull m
    exact .inr ⟨e, by rw [he]⟩
  by_cases hdup : keyOf m ∈ (mutations ((g.raft.log n).take k)).map keyOf
  · exact .inl (by rw [(htidy.apply_duplicate hwell hlt hdup).1])
  · obtain ⟨event_time, htime⟩ := Option.ne_none_iff_exists'.mp hdated
    obtain ⟨store', heq, -⟩ := htidy.apply_next hwell hlt hdup (by omega) htime
    exact .inl (by rw [heq])

theorem sequence_gap_unreachable_twice :
    (milkMutation .Committed).sequence_id ≤ lastSeen LactoStore.new milkRequest.client_id + 1 ∧
      ((LactoStore.new.apply plain 1 (plain.encode (milkMutation .Committed))).2 = .ok () ∨
        ∃ e, (LactoStore.new.apply plain 1 (plain.encode (milkMutation .Committed))).2 =
          .error (.Arithmetic e)) :=
  sequence_gap_unreachable (fun _ _ _ => rfl) (askedTwice_run fun _ _ _ => trivial) 1
    (k := 0) rfl rfl

end gateway.ingress
