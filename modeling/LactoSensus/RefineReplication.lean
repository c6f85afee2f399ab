-- Replication of the engine is replication of the protocol: a follower that
-- reconciles its log cuts and extends it along the log of a leader, and a
-- leader that moves its commit index has the acknowledgements of a quorum.
import LactoSensus.RefineElection

open Function
open common.types
open journal
open ordmap
open quorum
open raft_engine.storage
open raft_engine.node
open raft_engine.engine
open raft_engine.consensus
open raft_engine.shell
open raft_engine.cluster
open raft (Entry Step Steps Safe Grows Frame Settled Matching Traced lastTerm UpToDate update₂)

namespace raft_engine.refinement

variable {α : Type} {cfg : Config} {a₀ a a' : Protocol α} {n : NodeId} {ln : LogicalNode α}

/-! ## The log of the leader -/

section window

variable {req : AppendEntriesRequest α} {T m : Nat}

/-- The entries of a request as entries of the leader's log. -/
def window (a : Protocol α) (req : AppendEntriesRequest α) (T m : Nat) : List (Entry α) :=
  ((a.glog T).take m).drop req.prev_log_index

theorem AppendFact.entries_length (h : AppendFact cfg a req T m) :
    req.prev_log_index + req.entries.length = m := by
  have := h.prev
  have := h.length
  rw [h.entries, numbered_length, List.length_drop, List.length_take]
  omega

/-- The cut of the first loop is a cut of the protocol, and what is left agrees
with the leader's log. -/
theorem AppendFact.cut (hsafe : Safe (voters cfg) a) (h : AppendFact cfg a req T m)
    (hrole : a.role n = .follower) (hterm : a.term n ≤ T)
    (hcons : Consistent (a.log n) req.prev_log_index req.prev_log_term)
    {nd nd₁ : RaftNode α Follower} {l₁ : List (Entry α)}
    (hcut : Cut nd (a.log n) req.prev_log_index (window a req T m) nd₁ l₁) :
    Steps (voters cfg) n a { a with log := update a.log n l₁ } ∧
      (l₁ <+: (a.glog T).take m ∨ (a.glog T).take m <+: l₁) := by
  rw [h.prev_term] at hcons
  have hmatch : LogsMatch (a.log n) (a.glog T) := fun i x y hx hy hxy =>
    (hsafe.matching.log_traced n).matching (hsafe.matching.glog_traced T) hx hy hxy
  refine ⟨?_, hcut.agrees hmatch h.prev h.length hcons⟩
  rcases hcut with ⟨-, rfl, -⟩ | ⟨i, x, y, hx, hy, hne, -, -, rfl⟩
  · rw [update_eq_self]
    exact .refl a
  · rw [window, List.getElem?_drop] at hy
    have hlt : req.prev_log_index + i < m := by
      have := (List.getElem?_eq_some_iff.mp hy).1
      rw [List.length_take] at this
      omega
    rw [List.getElem?_take_of_lt hlt] at hy
    refine .single (.cut a T _ x y hrole (by rw [h.sender]; simp) hterm hx hy ?_)
    rintro rfl
    exact hne rfl

/-- After the cut the append leads to the window's end, or the log is longer already. -/
theorem AppendFact.extend (h : AppendFact cfg a req T m) (hrole : a.role n = .follower)
    (hterm : a.term n ≤ T) (hb : req.prev_log_index ≤ (a.log n).length)
    (hor : a.log n <+: (a.glog T).take m ∨ (a.glog T).take m <+: a.log n)
    (l₂ : List (Entry α))
    (hl₂ : l₂ = a.log n ++ (window a req T m).drop ((a.log n).length - req.prev_log_index)) :
    Steps (voters cfg) n a { a with log := update a.log n l₂ } ∧ (a.glog T).take m <+: l₂ := by
  rcases append_window hb hor with ⟨hpre, heq⟩ | ⟨hpre, heq⟩
  · rw [hl₂, window, heq]
    exact ⟨.single (.extend a T m hrole (by rw [h.sender]; simp) hterm hpre), List.prefix_rfl⟩
  · rw [hl₂, window, heq, update_eq_self]
    exact ⟨.refl a, hpre⟩

end window

/-! ## The follower -/

theorem DiskRel.relog {d d' : SledStorage α} {l : List (Entry α)} (h : DiskRel a n d)
    (hlog : Uncompacted d' l) (hhard : d'.key_hard_state = d.key_hard_state)
    (hcommit : d'.key_last_committed = d.key_last_committed) :
    DiskRel { a with log := update a.log n l } n d' where
  term := by
    rw [SledStorage.current_term, hhard]
    exact h.term
  vote := by
    rw [SledStorage.voted_for, hhard]
    exact h.vote
  log := by simpa using hlog
  commit := by
    rw [SledStorage.last_committed, hcommit]
    exact h.commit

/-- The commit index a follower takes over from a request is settled. -/
theorem AppendFact.learn {req : AppendEntriesRequest α} {T m : Nat}
    (h : AppendFact cfg a req T m) (hterm : a.term n = req.term)
    (hpre : (a.glog T).take m <+: a.log n) {taken : Option Nat}
    (htaken : taken = takenCommit (a.log n) (a.commit n) req.leader_commit) :
    Steps (voters cfg) n a { a with commit := update a.commit n (taken.getD (a.commit n)) } ∧
      a.commit n ≤ taken.getD (a.commit n) := by
  have hlen : m ≤ (a.log n).length := by
    have := hpre.length_le
    rw [List.length_take_of_le h.length] at this
    exact this
  have hcm := h.commit
  unfold takenCommit at htaken
  split at htaken
  · rename_i hgt
    have hk : taken = some req.leader_commit := by
      rw [htaken]
      congr 1
      omega
    rw [hk]
    refine ⟨.single (.learn a req.leader_commit (by omega) ?_), by simp; omega⟩
    have htake : (a.log n).take req.leader_commit = (a.glog T).take req.leader_commit := by
      obtain ⟨r, hr⟩ := hpre
      rw [← hr, List.take_append_of_le_length (by rw [List.length_take_of_le h.length]; omega),
        List.take_take, min_eq_left hcm]
    rw [htake, hterm]
    exact h.settled
  · rw [htaken, Option.getD_none, update_eq_self]
    exact ⟨.refl a, le_rfl⟩

/-- A successful reply acknowledges the window in the leader's term. -/
theorem AppendFact.confirm (hsafe : Safe (voters cfg) a) {req : AppendEntriesRequest α}
    {T m : Nat} (h : AppendFact cfg a req T m) (hterm : a.term n = req.term)
    (hpre : (a.glog T).take m <+: a.log n) :
    ∃ k, Steps (voters cfg) n a { a with ack := update₂ a.ack n (a.term n) k } ∧
      AckFact { a with ack := update₂ a.ack n (a.term n) k } n req := by
  rcases Nat.eq_or_lt_of_le h.label with heq | hlt
  · refine ⟨_, .single (.confirm a m ?_ ?_), .inr ?_⟩
    · rw [hterm, heq]
      exact h.length
    · rw [hterm, heq]
      exact hpre
    · rw [h.entries_length, ← hterm]
      simp
  · -- the window is of a later term, which its leader has reached
    have hsame : { a with ack := update₂ a.ack n (a.term n) (a.ack n (a.term n)) } = a := by
      congr 1
      funext q t
      unfold update₂
      split
      · rename_i hq
        rw [hq.1, hq.2]
      · rfl
    refine ⟨a.ack n (a.term n), by rw [hsame]; exact .refl a, .inl ?_⟩
    obtain ⟨l, hl⟩ := Option.ne_none_iff_exists'.mp
      (hsafe.election.leader_cand T _ h.sender)
    exact hlt.trans_le
      (hsafe.election.voted_le _ T _ (hsafe.election.cand_voted _ T l hl))

theorem Cut.tracks (h : Tracks cfg a₀ a n ln) {f : Follower} (hst : ln.node.state = .Follower f)
    {b : Nat} {es l₁ : List (Entry α)} {nd₁ : RaftNode α Follower}
    (hcut : Cut (ln.node.transition f) (a.log n) b es nd₁ l₁)
    (hs : Steps (voters cfg) n a { a with log := update a.log n l₁ }) :
    Tracks cfg a₀ { a with log := update a.log n l₁ } n (ln.withRole nd₁ .Follower) := by
  have hrole : a.role n = .follower := h.role_of hst
  have hview : Uncompacted nd₁.disk l₁ := hcut.view h.disk.log
  rcases hcut with ⟨rfl, -, -⟩ | ⟨i, x, y, -, -, -, -, rfl, -⟩
  · exact h.step hs rfl (h.disk.relog hview rfl rfl) rfl h.commit le_rfl hrole
  · refine h.write hs (f := SledStorage.truncate_log (b + i + 1)) rfl
      (h.disk.relog hview ?_ ?_) rfl h.commit le_rfl hrole
    · unfold SledStorage.truncate_log RaftNode.disk
      dsimp only
      split <;> rfl
    · unfold SledStorage.truncate_log RaftNode.disk
      dsimp only
      split <;> rfl

theorem Appended.tracks (hsafe : Safe (voters cfg) a₀) {nd₁ nd₂ : RaftNode α Follower}
    (h : Tracks cfg a₀ a n (ln.withRole nd₁ .Follower)) {req : AppendEntriesRequest α}
    {T m : Nat} (hfact : AppendFact cfg a req T m) (hterm : a.term n = req.term)
    (hb : req.prev_log_index ≤ (a.log n).length)
    (hor : a.log n <+: (a.glog T).take m ∨ (a.glog T).take m <+: a.log n)
    (happ : Appended nd₁ (a.log n)
      ((window a req T m).drop ((a.log n).length - req.prev_log_index)) req.leader_commit nd₂) :
    ∃ a', Tracks cfg a₀ a' n (ln.withRole nd₂ .Follower) ∧ AckFact a' n req := by
  have hrole : a.role n = .follower := h.role
  have hcommit : nd₁.last_committed = a.commit n := h.commit
  have hdisk : DiskRel a n nd₁.disk := h.disk
  have hle := hfact.label
  set es := (window a req T m).drop ((a.log n).length - req.prev_log_index) with hes
  -- extend the log, acknowledge it, and take over the commit index
  obtain ⟨hs₂, hpre⟩ := hfact.extend hrole (by omega) hb hor (a.log n ++ es) rfl
  set a₂ : Protocol α := { a with log := update a.log n (a.log n ++ es) } with ha₂
  have hsafe₂ := ((h.safe hsafe).steps hs₂)
  have hfact₂ := hfact.grow hsafe₂.2
  have hlog₂ : a₂.log n = a.log n ++ es := by simp [ha₂]
  obtain ⟨k, hs₃, hack⟩ := hfact₂.confirm hsafe₂.1 hterm (by rw [hlog₂]; exact hpre)
  set a₃ : Protocol α := { a₂ with ack := update₂ a₂.ack n (a₂.term n) k } with ha₃
  have hsafe₃ := hsafe₂.1.steps hs₃
  have hfact₃ := hfact₂.grow hsafe₃.2
  obtain ⟨hs₄, hmono⟩ := hfact₃.learn hterm
    (by rw [show a₃.log n = a.log n ++ es from hlog₂]; exact hpre) rfl
  rw [show a₃.log n = a.log n ++ es from hlog₂, show a₃.commit n = a.commit n from rfl,
    ← hcommit] at hs₄ hmono
  set taken := takenCommit (a.log n ++ es) nd₁.last_committed req.leader_commit with htk
  refine ⟨_, ⟨h.steps.trans (hs₂.trans (hs₃.trans hs₄)), ?_, ?_, ?_, ?_, hrole, ?_⟩,
    hack.grow (hsafe₃.1.steps hs₄).2⟩
  · refine ⟨?_, ?_, ?_, ?_⟩
    · change nd₂.disk.current_term = a.term n
      rw [SledStorage.current_term, happ.hard_state]
      exact hdisk.term
    · change nd₂.disk.voted_for = a.voted n (a.term n)
      rw [SledStorage.voted_for, happ.hard_state]
      exact hdisk.vote
    · change Uncompacted nd₂.disk (update a.log n (a.log n ++ es) n)
      rw [update_self]
      exact happ.log
    · change nd₂.disk.last_committed = update a.commit n _ n
      rw [update_self, SledStorage.last_committed, happ.disk_committed, ← htk]
      cases taken with
      | none =>
        rw [Option.none_or, Option.getD_none, hcommit]
        exact hdisk.commit
      | some c => rfl
  · intro d hd
    rcases happ.past d hd with hd | rfl | rfl
    · exact h.past d hd
    · exact ⟨a, h.steps, hdisk⟩
    · exact ⟨a₂, h.steps.trans hs₂, hdisk.relog (hdisk.log.append_entries es) rfl rfl⟩
  · exact happ.node_id.trans h.node_id
  · change nd₂.last_committed = update a.commit n _ n
    rw [update_self, happ.last_committed]
  · change a₀.commit n ≤ update a.commit n _ n
    rw [update_self]
    exact h.commit_le.trans (by rw [← hcommit]; exact hmono)

/-- A follower reconciles its log with a request of a leader of its term. -/
theorem reconcile_log_tracks (hsafe : Safe (voters cfg) a₀) (h : Tracks cfg a₀ a n ln)
    {f : Follower} (hst : ln.node.state = .Follower f) {req : AppendEntriesRequest α} {T m : Nat}
    (hfact : AppendFact cfg a req T m) (hterm : a.term n = req.term) :
    ∃ a', Tracks cfg a₀ a' n (ln.withRole ((ln.node.transition f).reconcile_log
        req.prev_log_index req.prev_log_term req.entries req.leader_commit).1 .Follower) ∧
      ∀ r, ((ln.node.transition f).reconcile_log req.prev_log_index req.prev_log_term
        req.entries req.leader_commit).2 = .ok r → r.success = true → AckFact a' n req := by
  have hsafe' := h.safe hsafe
  have hview : Uncompacted (ln.node.transition f).disk (a.log n) := h.disk.log
  have hle := hfact.label
  have hrole : a.role n = .follower := h.role_of hst
  have hpos : ∀ e ∈ a.log n, 0 < e.term := fun e he =>
    hsafe'.matching.term_pos hsafe'.election (hsafe'.matching.log_traced n) he
  have hcases := RaftNode.reconcile_log_cases hview hpos req.prev_log_index req.prev_log_term
    (window a req T m) req.leader_commit
  rw [show numbered req.prev_log_index (window a req T m) = req.entries
    from hfact.entries.symm] at hcases
  generalize (ln.node.transition f).reconcile_log req.prev_log_index req.prev_log_term
    req.entries req.leader_commit = r at hcases
  cases hcases with
  | rejected hno =>
    refine ⟨a, h.reRole rfl rfl h.commit hrole, ?_⟩
    rintro r hr hsucc
    obtain rfl := Except.ok.inj hr
    cases hsucc
  | failed nd₁ l₁ e hcons hcut =>
    exact ⟨_, Cut.tracks h hst hcut (hfact.cut hsafe' hrole (by omega) hcons hcut).1, by simp⟩
  | done nd₁ nd₂ l₁ hcons hcut happ =>
    obtain ⟨hs, hor⟩ := hfact.cut hsafe' hrole (by omega) hcons hcut
    have h₁ := Cut.tracks h hst hcut hs
    have hb := hcut.le_length hcons.le_length
    have hfact₁ := hfact.grow (hsafe'.steps hs).2
    obtain ⟨a', ha', hack⟩ := Appended.tracks hsafe h₁ hfact₁ hterm (by simpa using hb)
      (by simpa using hor) (by simpa [window] using happ)
    exact ⟨a', ha', fun _ _ _ => hack⟩

theorem reset_heartbeat_tracks (h : Tracks cfg a₀ a n ln) :
    Tracks cfg a₀ a n ln.reset_heartbeat := by
  unfold LogicalNode.reset_heartbeat
  split
  · rename_i f hst
    have hrole : RoleRel cfg a n (.Follower f) := h.role_of hst
    exact h.reRole rfl rfl h.commit hrole
  · rename_i l hst
    have hrole : LeaderRel cfg a n l := h.role_of hst
    exact h.reRole rfl rfl h.commit
      ⟨hrole.role, hrole.peers, hrole.acked, hrole.next⟩
  · exact h

theorem reset_heartbeat_follower {f : Follower} (hst : ln.node.state = .Follower f) :
    ∃ f', ln.reset_heartbeat.node.state = .Follower f' := by
  unfold LogicalNode.reset_heartbeat
  rw [hst]
  exact ⟨_, rfl⟩

/-- A node that takes the sender for the leader follows it in that term. -/
theorem followed_tracks (hsafe : Safe (voters cfg) a₀) (h : Tracks cfg a₀ a n ln) (term : Nat)
    (leader_id : NodeId) (timeout : Nat) {r : Handled α TermCheckResult}
    (hr : r = match ln.into_follower term (some leader_id) timeout with
      | (ln, .ok ()) => (ln, .ok .Valid)
      | (ln, .error p) => (ln, .error p)) :
    ∃ a', Tracks cfg a₀ a' n r.1 ∧
      (r.2 = .ok .Valid → (∃ f, r.1.node.state = .Follower f) ∧ a'.term n = term) := by
  subst hr
  obtain ⟨a₁, h₁, hok⟩ := into_follower_tracks hsafe h term (some leader_id) timeout
  generalize ln.into_follower term (some leader_id) timeout = res at h₁ hok
  obtain ⟨ln₁, res⟩ := res
  cases res with
  | error p => exact ⟨a₁, h₁, by simp⟩
  | ok u => exact ⟨a₁, h₁, fun _ => hok rfl⟩

/-- A valid term leaves a follower of that term. -/
theorem validate_leader_rpc_term_tracks (hsafe : Safe (voters cfg) a₀) (h : Tracks cfg a₀ a n ln)
    (term : Nat) (leader_id : NodeId) (rpc : String) (timeout : Nat) :
    ∃ a', Tracks cfg a₀ a' n (ln.validate_leader_rpc_term term leader_id rpc timeout).1 ∧
      ((ln.validate_leader_rpc_term term leader_id rpc timeout).2 = .ok .Valid →
        (∃ f, (ln.validate_leader_rpc_term term leader_id rpc timeout).1.node.state =
          .Follower f) ∧ a'.term n = term) := by
  unfold LogicalNode.validate_leader_rpc_term
  by_cases hp : ln.is_poisoned = true
  · rw [if_pos hp]
    exact ⟨a, h, by simp⟩
  rw [if_neg hp]
  have hcur : ln.current_term = a.term n := h.disk.term
  by_cases hlt : term < ln.current_term
  · rw [if_pos hlt]
    exact ⟨a, h, by simp⟩
  rw [if_neg hlt]
  by_cases hgt : term > ln.current_term
  · rw [if_pos hgt]
    exact followed_tracks hsafe h term leader_id timeout rfl
  rw [if_neg hgt]
  cases hst : ln.node.state with
  | Candidate c => exact followed_tracks hsafe h term leader_id timeout rfl
  | PreCandidate c => exact followed_tracks hsafe h term leader_id timeout rfl
  | Leader l => exact ⟨a, h.poison, by simp [LogicalNode.apply_fatal]⟩
  | Follower f =>
    have hrole : RoleRel cfg a n (.Follower f) := h.role_of hst
    refine ⟨a, h.reRole rfl rfl h.commit hrole, ?_⟩
    exact fun _ => ⟨⟨_, rfl⟩, by omega⟩
  | Poisoned =>
    exact absurd (by simp [LogicalNode.is_poisoned, hst, RoleState.node_role]) hp

theorem handle_append_entries_tracks (hsafe : Safe (voters cfg) a₀) (h : Tracks cfg a₀ a n ln)
    {req : AppendEntriesRequest α} {T m : Nat} (hfact : AppendFact cfg a₀ req T m)
    (timeout : Nat) :
    ∃ a', Tracks cfg a₀ a' n (ln.handle_append_entries req.leader_id req.term
        req.prev_log_index req.prev_log_term req.entries req.leader_commit timeout).1 ∧
      ∀ r, (ln.handle_append_entries req.leader_id req.term req.prev_log_index
        req.prev_log_term req.entries req.leader_commit timeout).2 = .ok r →
        r.success = true → AckFact a' n req := by
  unfold LogicalNode.handle_append_entries
  obtain ⟨a₁, h₁, hvalid⟩ := validate_leader_rpc_term_tracks hsafe h req.term req.leader_id
    "AppendEntries" timeout
  generalize ln.validate_leader_rpc_term req.term req.leader_id "AppendEntries" timeout = res
    at h₁ hvalid
  obtain ⟨ln₁, _ | _ | _⟩ := res
  · exact ⟨a₁, h₁, by simp⟩
  · obtain ⟨⟨f, hf⟩, hterm⟩ := hvalid rfl
    obtain ⟨f', hf'⟩ := reset_heartbeat_follower hf
    have h₂ := reset_heartbeat_tracks h₁
    dsimp only
    rw [hf']
    dsimp only
    obtain ⟨a', ha', hack⟩ := reconcile_log_tracks hsafe h₂ hf' (hfact.grow (h₂.grows hsafe))
      hterm
    generalize (ln₁.reset_heartbeat.node.transition f').reconcile_log req.prev_log_index
      req.prev_log_term req.entries req.leader_commit = rec at ha' hack
    obtain ⟨nd, e | r⟩ := rec
    · exact ⟨a', ha'.poison, by simp [LogicalNode.apply_fatal]⟩
    · refine ⟨a', ha', ?_⟩
      rintro r' hr' hsucc
      obtain rfl := Except.ok.inj hr'
      exact hack r rfl hsucc
  · refine ⟨a₁, h₁, ?_⟩
    rintro r hr hsucc
    obtain rfl := Except.ok.inj hr
    cases hsucc

/-! ## The leader -/

theorem LeaderRel.next_of {l : Leader} (h : LeaderRel cfg a n l) (peer : NodeId) :
    1 ≤ (l.next_index.get? peer).getD 1 ∧
      (l.next_index.get? peer).getD 1 ≤ (a.log n).length + 1 := by
  cases hget : l.next_index.get? peer with
  | none => exact ⟨le_rfl, by simp⟩
  | some v => exact h.next peer v hget

theorem propose_tracks (hsafe : Safe (voters cfg) a₀) (h : Tracks cfg a₀ a n ln) (command : α) :
    ∃ a', Tracks cfg a₀ a' n (ln.propose command).1 := by
  unfold LogicalNode.propose
  cases hst : ln.node.state with
  | Follower f => exact ⟨a, h⟩
  | PreCandidate f => exact ⟨a, h⟩
  | Candidate f => exact ⟨a, h⟩
  | Poisoned => exact ⟨a, h⟩
  | Leader l =>
    have hlead : LeaderRel cfg a n l := h.role_of hst
    have hlast : (ln.node.transition l).last_log_index = (a.log n).length :=
      h.disk.log.last_log_index
    have hcur : (ln.node.transition l).current_term = a.term n := h.disk.term
    dsimp only
    unfold RaftNode.propose
    rw [hlast, hcur]
    cases hadd : checked_add "LogIndex" (a.log n).length 1 with
    | error e => exact ⟨a, h.reRole rfl rfl h.commit trivial⟩
    | ok index =>
      obtain ⟨rfl, -⟩ := checked_add_ok hadd
      have hs : Steps (voters cfg) n a _ := .single (.propose a command hlead.role)
      have hgrow := ((h.safe hsafe).steps hs).2
      refine ⟨_, h.write hs (f := SledStorage.append_entries
        (numbered (a.log n).length [⟨a.term n, command⟩])) rfl ?_ rfl h.commit le_rfl
        ?_⟩
      · refine ⟨h.disk.term, h.disk.vote, ?_, h.disk.commit⟩
        simpa using h.disk.log.append_entries [⟨a.term n, command⟩]
      · change LeaderRel cfg _ n l
        refine ⟨hlead.role, hlead.peers, ?_, ?_⟩
        · exact fun p v hp => (hlead.acked p v hp).trans (hgrow.ack_le p _)
        · intro p v hp
          have := hlead.next p v hp
          simp only [update_self, List.length_append, List.length_singleton]
          omega

/-- A leader's own round carries a commit index that is settled. -/
theorem RoundFact.of_leader (hsafe : Safe (voters cfg) a₀) (h : Tracks cfg a₀ a n ln)
    {l : Leader} (hst : ln.node.state = .Leader l) :
    RoundFact cfg a n ⟨ln.current_term, ln.node_id, ln.last_committed⟩ := by
  have hsafe' := h.safe hsafe
  have hlead : LeaderRel cfg a n l := h.role_of hst
  have hcur : ln.current_term = a.term n := h.disk.term
  have hcommit : ln.last_committed = a.commit n := h.commit
  refine ⟨h.node_id, ?_, (a.log n).take (a.commit n), ?_, ?_⟩
  · dsimp only
    rw [hcur]
    exact (hsafe'.election.role_leader n hlead.role).1
  · dsimp only
    rw [hcommit, List.length_take_of_le (hsafe'.complete.commit_le n)]
  · dsimp only
    rw [hcur]
    exact hsafe'.complete.settled n

/-- The term of a leader is not past the term it now has. -/
theorem RoundFact.term_le (hsafe : Safe (voters cfg) a) {params : ReplicationRoundParams}
    (h : RoundFact cfg a n params) : params.term ≤ a.term n := by
  obtain ⟨l, hl⟩ := Option.ne_none_iff_exists'.mp (hsafe.election.leader_cand _ n h.leader)
  exact hsafe.election.voted_le n _ n (hsafe.election.cand_voted n _ l hl)

/-- The request a leader builds for a peer carries a window of its log. -/
theorem prepare_replication_tracks (hsafe : Safe (voters cfg) a₀) (h : Tracks cfg a₀ a n ln)
    {params : ReplicationRoundParams} (hround : RoundFact cfg a n params) (peer : NodeId) :
    Tracks cfg a₀ a n (prepare_replication ln peer params).1 ∧
      ∀ req, (prepare_replication ln peer params).2 = .ok (some (.AppendEntries req)) →
        req.term = params.term ∧ req.leader_id = n ∧ ∃ T m, AppendFact cfg a req T m := by
  have hsafe' := h.safe hsafe
  unfold prepare_replication determine_replication_strategy
  cases hst : ln.node.state with
  | Follower f => exact ⟨h, by simp⟩
  | PreCandidate f => exact ⟨h, by simp⟩
  | Candidate f => exact ⟨h, by simp⟩
  | Poisoned => exact ⟨h, by simp⟩
  | Leader l =>
    have hlead : LeaderRel cfg a n l := h.role_of hst
    have hp := not_poisoned hst (by simp)
    have hnext := hlead.next_of peer
    obtain ⟨b, hb⟩ := Nat.exists_eq_add_of_le' hnext.1
    have hzero : ln.node.last_included_index = 0 := h.disk.log.index_zero
    have hlast : ln.last_log_index = (a.log n).length := h.disk.log.last_log_index
    have hterm : ln.get_term_at b = termAt (a.log n) b :=
      RaftNode.get_term_at_view h.disk.log b
    have hread := h.disk.log.read_entries b
    dsimp only
    rw [hb, hzero, if_neg (by omega)]
    simp only [build_append_entries_request, hp, Bool.false_eq_true, if_false, hst, hb, hlast,
      checked_sub, Nat.le_add_left, if_true, Nat.add_sub_cancel, hread, hterm]
    refine ⟨h, ?_⟩
    rintro req hreq
    simp only [Except.ok.injEq, Option.some.injEq, ReplicationStrategy.AppendEntries.injEq] at hreq
    subst hreq
    refine ⟨rfl, hround.node_id, a.term n, (a.log n).length, ?_⟩
    obtain ⟨hleader, hglog⟩ := hsafe'.election.role_leader n hlead.role
    have hle := hround.term_le hsafe'
    obtain ⟨p, hplen, hset⟩ := hround.settled
    have hpre := hsafe'.complete.settled_in_leader hset hle (by rw [hleader]; simp)
    rw [hglog] at hpre
    refine ⟨hle, ?_, ?_, ?_, ?_, ?_, ?_, ?_⟩
    · rw [hround.node_id]
      exact hleader
    · rw [hglog]
    · dsimp only
      omega
    · dsimp only
      rw [hglog]
    · dsimp only
      rw [hglog, List.take_of_length_le le_rfl]
    · rw [← hplen]
      exact hpre.length_le
    · rw [hglog, ← hplen, ← List.prefix_iff_eq_take.mp hpre]
      exact hset

/-- The median of the match indices was acknowledged by a majority. -/
theorem median_majority (hmem : n ∈ cfg.members)
    (hsafe : Safe (voters cfg) a) {l : Leader} (hlead : LeaderRel cfg a n l)
    (hle : median (l.match_index.values ++ [(a.log n).length]) ≤ (a.log n).length) :
    ∃ Q, Majority (voters cfg) Q ∧
      ∀ q ∈ Q, median (l.match_index.values ++ [(a.log n).length]) ≤ a.ack q (a.term n) := by
  set k := median (l.match_index.values ++ [(a.log n).length]) with hk
  set Q := l.match_index.keysWhere (fun v => k ≤ v) with hQ
  have hpeer : ∀ q ∈ Q, q ∈ cfg.peer_ids n := by
    intro q hq
    obtain ⟨v, hget, -⟩ := (OrdMap.mem_keysWhere _ _ q).mp hq
    exact (hlead.peers q).mp (by simp [hget])
  have hself : n ∉ Q := fun hn => (mem_peer_ids.mp (hpeer n hn)).2 rfl
  have hall : l.match_index.values.length + 1 = (voters cfg).card := by
    have hkeys : l.match_index.keysWhere (fun _ => true) = (voters cfg).erase n := by
      ext q
      rw [OrdMap.mem_keysWhere, Finset.mem_erase]
      simp only [and_true]
      rw [← Option.ne_none_iff_exists', hlead.peers q, mem_peer_ids]
      simp [voters, and_comm]
    have hcard := l.match_index.card_keysWhere (fun _ => true)
    rw [hkeys, List.filter_true] at hcard
    have hin : n ∈ voters cfg := by simpa [voters] using hmem
    rw [← hcard, Finset.card_erase_of_mem hin]
    have := Finset.card_pos.mpr ⟨n, hin⟩
    omega
  refine ⟨insert n Q, ⟨?_, ?_⟩, ?_⟩
  · refine Finset.insert_subset (by simpa [voters] using hmem) fun q hq => ?_
    simpa [voters] using (mem_peer_ids.mp (hpeer q hq)).1
  · have hmost := median_le_of_most (l.match_index.values ++ [(a.log n).length]) (by simp)
    rw [← hk, List.filter_append, List.length_append, List.length_append] at hmost
    rw [Finset.card_insert_of_notMem hself, ← hall, hQ, OrdMap.card_keysWhere]
    simpa [hle] using hmost
  · intro q hq
    rcases Finset.mem_insert.mp hq with rfl | hq
    · exact hle.trans (hsafe.complete.own_ack q hlead.role)
    · obtain ⟨v, hget, hv⟩ := (OrdMap.mem_keysWhere _ _ q).mp hq
      exact (of_decide_eq_true hv).trans (hlead.acked q v hget)

/-- An index with an entry of the leader's own term, acknowledged by a majority,
is committed. -/
theorem median_settled (hmem : n ∈ cfg.members)
    (hsafe : Safe (voters cfg) a) {l : Leader} (hlead : LeaderRel cfg a n l)
    (hterm : termAt (a.log n) (median (l.match_index.values ++ [(a.log n).length])) = a.term n) :
    median (l.match_index.values ++ [(a.log n).length]) ≤ (a.log n).length ∧
      Settled (voters cfg) a (a.term n)
        ((a.log n).take (median (l.match_index.values ++ [(a.log n).length]))) := by
  obtain ⟨hleader, hglog⟩ := hsafe.election.role_leader n hlead.role
  have hpos := hsafe.election.cand_pos n _ (hsafe.election.leader_cand _ n hleader)
  obtain ⟨Q, hQ⟩ : ∃ Q, Q = median (l.match_index.values ++ [(a.log n).length]) := ⟨_, rfl⟩
  rw [← hQ] at hterm
  cases Q with
  | zero =>
    rw [termAt_zero] at hterm
    omega
  | succ i =>
    rw [termAt_succ] at hterm
    cases he : (a.log n)[i]? with
    | none =>
      rw [he] at hterm
      simp at hterm
      omega
    | some e =>
      rw [he] at hterm
      have hlt := (List.getElem?_eq_some_iff.mp he).1
      have hle : median (l.match_index.values ++ [(a.log n).length]) ≤ (a.log n).length := by
        omega
      refine ⟨hle, .inr ⟨a.term n, _, le_rfl, ⟨⟨e, by omega, ?_, hterm⟩,
        median_majority hmem hsafe hlead hle⟩, by rw [hglog]⟩⟩
      rw [hglog, ← hQ]
      exact he

theorem update_leader_last_committed_tracks (hsafe : Safe (voters cfg) a₀)
    (hmem : n ∈ cfg.members) (h : Tracks cfg a₀ a n ln) :
    ∃ a', Tracks cfg a₀ a' n (update_leader_last_committed ln).1 := by
  unfold update_leader_last_committed
  by_cases hp : ln.is_poisoned = true
  · rw [if_pos hp]
    exact ⟨a, h⟩
  rw [if_neg hp]
  cases hst : ln.node.state with
  | Follower f => exact ⟨a, h⟩
  | PreCandidate f => exact ⟨a, h⟩
  | Candidate f => exact ⟨a, h⟩
  | Poisoned => exact ⟨a, h⟩
  | Leader l =>
    have hlead : LeaderRel cfg a n l := h.role_of hst
    have hp' : ln.is_poisoned = false := by simpa using hp
    have hlast : ln.last_log_index = (a.log n).length := h.disk.log.last_log_index
    have hcur : ln.current_term = a.term n := h.disk.term
    have hcommit : ln.node.last_committed = a.commit n := h.commit
    dsimp only
    rw [hlast, hcur]
    set k := median (l.match_index.values ++ [(a.log n).length]) with hk
    rw [show ln.get_term_at k = termAt (a.log n) k from RaftNode.get_term_at_view h.disk.log k]
    split
    swap
    · exact ⟨a, h⟩
    rename_i hcond
    obtain ⟨hgt, hterm⟩ := hcond
    have hgt' : ln.node.last_committed < k := hgt
    obtain ⟨hle, hset⟩ := median_settled hmem (h.safe hsafe) hlead hterm
    rw [← hk] at hle hset
    have hlast' : ln.node.last_log_index = (a.log n).length := hlast
    simp only [LogicalNode.advance_last_committed, hp, Bool.false_eq_true, if_false,
      RaftNode.advance_last_committed, RaftNode.update_commit_index_only, hlast',
      if_neg (Nat.not_lt.mpr hgt'.le), if_neg (Nat.not_lt.mpr hle), if_pos hgt']
    refine ⟨_, h.write (.single (.learn a k hle hset)) (f := SledStorage.save_last_committed k)
      rfl ?_ rfl ?_ ?_ ?_⟩
    · exact ⟨h.disk.term, h.disk.vote, h.disk.log.save_last_committed k,
        by simp [SledStorage.last_committed, SledStorage.save_last_committed]⟩
    · simp
    · simp only [update_self]
      omega
    · change RoleRel cfg _ n ln.node.state
      rw [hst]
      exact ⟨hlead.role, hlead.peers, hlead.acked, hlead.next⟩

theorem acknowledge_heartbeat_maps (l : Leader) (peer : NodeId) (quorum : Nat) :
    (l.acknowledge_heartbeat peer quorum).match_index = l.match_index ∧
      (l.acknowledge_heartbeat peer quorum).next_index = l.next_index := by
  unfold Leader.acknowledge_heartbeat
  dsimp only
  split <;> exact ⟨rfl, rfl⟩

theorem LeaderRel.of_maps {l l' : Leader} (h : LeaderRel cfg a n l)
    (hmatch : l'.match_index = l.match_index) (hnext : l'.next_index = l.next_index) :
    LeaderRel cfg a n l' := by
  refine ⟨h.role, ?_, ?_, ?_⟩
  · rw [hmatch]
    exact h.peers
  · rw [hmatch]
    exact h.acked
  · rw [hnext]
    exact h.next

theorem LeaderRel.insert_match {l : Leader} (h : LeaderRel cfg a n l) {peer : NodeId}
    (hpeer : peer ∈ cfg.peer_ids n) {v : Nat} (hv : v ≤ a.ack peer (a.term n))
    {next : OrdMap NodeId Nat}
    (hnext : ∀ p v, next.get? p = some v → 1 ≤ v ∧ v ≤ (a.log n).length + 1) :
    LeaderRel cfg a n
      { l with next_index := next, match_index := l.match_index.insert peer v } := by
  refine ⟨h.role, ?_, ?_, hnext⟩
  · intro p
    dsimp only
    rw [OrdMap.get?_insert]
    split
    · rename_i heq
      subst heq
      simp [hpeer]
    · exact h.peers p
  · intro p w hw
    dsimp only at hw
    rw [OrdMap.get?_insert] at hw
    split at hw
    · rename_i heq
      subst heq
      obtain rfl := Option.some.inj hw
      exact hv
    · exact h.acked p w hw

theorem LeaderRel.next_insert {l : Leader} (h : LeaderRel cfg a n l) (peer : NodeId) {v : Nat}
    (hpos : 1 ≤ v) (hle : v ≤ (a.log n).length + 1) :
    ∀ p w, (l.next_index.insert peer v).get? p = some w → 1 ≤ w ∧ w ≤ (a.log n).length + 1 := by
  intro p w hw
  rw [OrdMap.get?_insert] at hw
  split at hw
  · obtain rfl := Option.some.inj hw
    exact ⟨hpos, hle⟩
  · exact h.next p w hw

/-- The response of a peer leaves the leader with counters that were really acknowledged. -/
theorem reconcile_peer_tracks (hsafe : Safe (voters cfg) a) {l l' : Leader}
    (hlead : LeaderRel cfg a n l) {peer : NodeId} (hpeer : peer ∈ cfg.peer_ids n) {term : Nat}
    {sent_prev sent_len : Nat} {resp : AppendEntriesResponse} {moved : Bool}
    (hack : resp.success = true → sent_prev + sent_len ≤ a.ack peer (a.term n))
    (h : reconcile_peer l peer term (.AppendEntries sent_prev sent_len resp) = .ok (l', moved)) :
    LeaderRel cfg a n l' := by
  obtain ⟨-, hglog⟩ := hsafe.election.role_leader n hlead.role
  unfold reconcile_peer at h
  dsimp only at h
  by_cases hsucc : resp.success = true
  · rw [if_pos hsucc] at h
    have hle := hack hsucc
    have hlog : a.ack peer (a.term n) ≤ (a.log n).length := by
      rw [← hglog]
      exact hsafe.matching.ack_le_glog peer _
    cases hadd : checked_add "LogIndex" sent_prev sent_len with
    | error e =>
      rw [hadd] at h
      cases h
    | ok new_match =>
      obtain ⟨rfl, -⟩ := checked_add_ok hadd
      rw [hadd] at h
      dsimp only at h
      cases hadd' : checked_add "LogIndex" (sent_prev + sent_len) 1 with
      | error e =>
        rw [hadd'] at h
        cases h
      | ok new_next =>
        obtain ⟨rfl, -⟩ := checked_add_ok hadd'
        rw [hadd'] at h
        dsimp only at h
        split at h
        · obtain ⟨rfl, -⟩ := Prod.mk.inj (Except.ok.inj h)
          exact hlead.insert_match hpeer hle
            (hlead.next_insert peer (by omega) (by omega))
        · obtain ⟨rfl, -⟩ := Prod.mk.inj (Except.ok.inj h)
          exact hlead
  · rw [if_neg hsucc] at h
    have hnext := hlead.next_of peer
    split at h
    · cases hadd : checked_add "LogIndex" resp.last_log_index 1 with
      | error e =>
        rw [hadd] at h
        cases h
      | ok past_last =>
        obtain ⟨rfl, -⟩ := checked_add_ok hadd
        rw [hadd] at h
        obtain ⟨rfl, -⟩ := Prod.mk.inj (Except.ok.inj h)
        exact ⟨hlead.role, hlead.peers, hlead.acked,
          hlead.next_insert peer (by omega) (by omega)⟩
    · cases hsub : checked_sub ((l.next_index.get? peer).getD 1) 1 with
      | error e =>
        rw [hsub] at h
        cases h
      | ok idx =>
        obtain ⟨rfl, -⟩ := checked_sub_ok hsub
        rw [hsub] at h
        obtain ⟨rfl, -⟩ := Prod.mk.inj (Except.ok.inj h)
        exact ⟨hlead.role, hlead.peers, hlead.acked,
          hlead.next_insert peer (by omega) (by omega)⟩

/-- What the replication task does with a reply to a request of its round. -/
theorem process_replication_response_tracks (hsafe : Safe (voters cfg) a₀)
    (hmem : n ∈ cfg.members) (h : Tracks cfg a₀ a n ln) {term : Nat} {peer : NodeId}
    (hpeer : peer ∈ cfg.peer_ids n) {req : AppendEntriesRequest α} (hterm : req.term = term)
    (hid : req.leader_id = n) {resp : AppendEntriesResponse}
    (hack : resp.success = true → AckFact a peer req) (timeout : Nat) :
    ∃ a', Tracks cfg a₀ a' n (process_replication_response ln term peer
      (.AppendEntries req.prev_log_index req.entries.length resp) timeout).1 := by
  by_cases hgt :
      (ReplicationOutcome.AppendEntries req.prev_log_index req.entries.length resp).term > term
  · rw [process_replication_response_overtaken hgt]
    obtain ⟨a₁, h₁, -⟩ := into_follower_tracks hsafe h
      (ReplicationOutcome.AppendEntries req.prev_log_index req.entries.length resp).term none
      timeout
    exact ⟨a₁, h₁⟩
  unfold process_replication_response
  rw [if_neg hgt]
  by_cases hp : ln.is_poisoned = true
  · rw [if_pos hp]
    exact ⟨a, h⟩
  rw [if_neg hp]
  cases hst : ln.node.state with
  | Follower f => exact ⟨a, h⟩
  | PreCandidate f => exact ⟨a, h⟩
  | Candidate f => exact ⟨a, h⟩
  | Poisoned => exact ⟨a, h⟩
  | Leader l =>
    dsimp only
    split
    swap
    · exact ⟨a, h⟩
    rename_i hcur
    have hcur' : a.term n = term := by
      rw [← hcur]
      exact h.disk.term.symm
    set q := (l.next_index.entries.length + 1) / 2 + 1
    obtain ⟨hm, hn⟩ := acknowledge_heartbeat_maps l peer q
    have hlead : LeaderRel cfg a n (l.acknowledge_heartbeat peer q) :=
      LeaderRel.of_maps (h.role_of hst) hm hn
    cases hrec : reconcile_peer (l.acknowledge_heartbeat peer q) peer term
      (.AppendEntries req.prev_log_index req.entries.length resp) with
    | error e => exact ⟨a, h.reRole rfl rfl h.commit hlead⟩
    | ok r =>
      obtain ⟨l', moved⟩ := r
      have hlead' : LeaderRel cfg a n l' := by
        refine reconcile_peer_tracks (h.safe hsafe) hlead hpeer (fun hs => ?_) hrec
        rcases hack hs with hlt | hle
        · rw [hterm, hid, hcur'] at hlt
          exact absurd hlt (lt_irrefl _)
        · rw [hcur', ← hterm]
          exact hle
      have h' : Tracks cfg a₀ a n ((ln.withRole (ln.node.transition
          (l.acknowledge_heartbeat peer q)) .Leader).withRole
          ((ln.withRole (ln.node.transition (l.acknowledge_heartbeat peer q))
            .Leader).node.transition l') .Leader) :=
        h.reRole rfl rfl h.commit hlead'
      dsimp only
      cases moved with
      | false => exact ⟨a, h'⟩
      | true =>
        obtain ⟨a', ha'⟩ := update_leader_last_committed_tracks hsafe hmem h'
        refine ⟨a', ?_⟩
        rw [if_pos rfl]
        generalize update_leader_last_committed _ = res at ha'
        obtain ⟨ln₁, res⟩ := res
        cases res <;> exact ha'

/-! ## The probe and the applier -/

/-- The probe of a leader changes its epochs only. -/
theorem prepare_read_probe_maps (l : Leader) (self_id : NodeId) :
    (l.prepare_read_probe self_id).1.match_index = l.match_index ∧
      (l.prepare_read_probe self_id).1.next_index = l.next_index := by
  unfold Leader.prepare_read_probe
  dsimp only
  split <;> exact ⟨rfl, rfl⟩

/-- The applier moves the horizon to an index that is committed already. -/
theorem advance_horizon_tracks (h : Tracks cfg a₀ a n ln) {index : Nat}
    (hle : index ≤ a.commit n) :
    Tracks cfg a₀ a n (ln.advance_horizon_after_snapshot index).1 := by
  unfold LogicalNode.advance_horizon_after_snapshot
  by_cases hp : ln.is_poisoned = true
  · rw [if_pos hp]
    exact h
  rw [if_neg hp]
  have hp' : ln.is_poisoned = false := by simpa using hp
  have hcommit := h.commit
  unfold RaftNode.advance_horizon_after_snapshot RaftNode.update_commit_index_only
  dsimp only
  split
  · rename_i heq
    split at heq
    · cases heq
    split at heq
    · obtain ⟨rfl, -⟩ := Prod.mk.inj heq
      exact h
    split at heq <;> cases heq
  · rename_i nd heq
    split at heq
    · obtain ⟨rfl, -⟩ := Prod.mk.inj heq
      exact h.reRole rfl rfl h.commit h.role
    split at heq
    · cases heq
    split at heq
    · omega
    · obtain ⟨rfl, -⟩ := Prod.mk.inj heq
      exact h.reRole rfl rfl h.commit h.role

end raft_engine.refinement
