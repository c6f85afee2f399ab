-- Elections among members that compact, send snapshots to each other, install them
-- and crash between any two writes. The votes that are told are what holds the
-- members together; whatever else reaches a member may be lost, repeated or made up.
import LactoSensus.Campaigns
import LactoSensus.Probes

open ballots
open common.types
open journal
open machine
open raft_engine.storage
open raft_engine.node
open raft_engine.engine
open raft_engine.consensus
open raft_engine.shell
open raft_engine.cluster
open raft_engine.orchestration
open raft_engine.recovery
open raft_engine.station
open raft_engine.refinement (voters)
open raft_engine.fleet (FleetConfig booted)
open lacto_fsm

namespace raft_engine.elections

open raft_engine.voting

variable {α : Type}

/-- The place of a member: what runs there, or the disk it has left. -/
inductive Seat (α : Type) where
  | Up (st : Station α)
  | Down (disk : SledStorage α)

structure Assembly (α : Type) where
  seats : NodeId → Seat α
  /-- The votes that were told, each with the request it answers. -/
  replies : List (Message α)

inductive AssemblyAct (α : Type) where
  | Work (n : NodeId) (a : StationAct α)
  /-- The node goes down inside the step, before its write number `point` from the end. -/
  | CrashIn (n : NodeId) (a : StationAct α) (point : Nat)
  | Crash (n : NodeId)
  | Restart (n : NodeId) (timeout : Nat) (db : LactoStore)

/-- A vote is only counted if a member has told it, and a request is for the node that
serves it. All else that comes from outside may be anything. -/
def Assembly.admits [DecidableEq α] (s : Assembly α) (n : NodeId) : StationAct α → Bool
  | .Host (.RunTask _ _ (some (.VoteReply src req resp)) _) =>
    decide (.VoteReply src req resp ∈ s.replies)
  | .Host (.Deliver msg _) => msg.dst = n
  | _ => true

def settle (st : Station α) : Station α :=
  { st with host := { st.host with process := st.host.process.settle } }

def Assembly.seat (s : Assembly α) (n : NodeId) (seat : Seat α) : Assembly α :=
  { s with seats := Function.update s.seats n seat }

/-- A step of a member that is up. -/
def Assembly.work [DecidableEq α] (cfg : FleetConfig) (c : SnapshotCodec α) (s : Assembly α)
    (n : NodeId) (a : StationAct α) : Option (Station α × Station α) :=
  match s.seats n with
  | .Down _ => none
  | .Up st =>
    if n ∈ cfg.cluster.members ∧ s.admits n a = true then
      (stationStep (cfg.host n) c st a).map fun st' => (st, st')
    else none

def assemblyStep [DecidableEq α] (cfg : FleetConfig) (c : SnapshotCodec α) (s : Assembly α) :
    AssemblyAct α → Option (Assembly α)
  | .Work n a =>
    (s.work cfg c n a).map fun (st, st') =>
      { s.seat n (.Up (settle st')) with replies := s.replies ++ toldBy st a }
  | .CrashIn n a point =>
    (s.work cfg c n a).bind fun (_, st') =>
      st'.node.node.log_store.crash_points[point]?.map fun disk => s.seat n (.Down disk)
  | .Crash n =>
    match s.seats n with
    | .Up st => some (s.seat n (.Down st.node.node.disk))
    | .Down _ => none
  | .Restart n timeout db =>
    match s.seats n with
    | .Up _ => none
    | .Down disk =>
      if n ∈ cfg.cluster.members then
        (reboot c.toCodec n cfg.cluster.heartbeat_interval timeout db disk).map
          fun (fsm, ln) => s.seat n (.Up (booted fsm ln))
      else none

/-- Before the first start. -/
def Assembly.new : Assembly α := ⟨fun _ => .Down .new, []⟩

def AssemblyRun [DecidableEq α] (cfg : FleetConfig) (c : SnapshotCodec α) :
    Assembly α → Assembly α → Prop :=
  machine.Run (assemblyStep cfg c) fun _ _ => True

/-- What runs at a member. -/
def Seat.station : Seat α → Option (Station α)
  | .Up st => some st
  | .Down _ => none

def Seat.disk : Seat α → SledStorage α
  | .Up st => st.node.node.disk
  | .Down disk => disk

/-- The member leads, in this term. -/
def Assembly.leads (s : Assembly α) (n : NodeId) (term : Nat) : Prop :=
  ∃ st, (s.seats n).station = some st ∧ (∃ l, st.node.node.state = .Leader l) ∧
    st.node.current_term = term

/-! ## The ballots of an assembly -/

def Orderly (cfg : FleetConfig) (b : Ballots NodeId) (n : NodeId) : Seat α → Prop
  | .Up st => Upright (cfg.host n) b b st.host ∧ st.node.node.log_store.past = []
  | .Down disk => Filed b n disk.current_term disk.voted_for

/-- Every member is as the ballots say, and every vote that was told is among them. -/
structure Attested (cfg : FleetConfig) (s : Assembly α) (b : Ballots NodeId) : Prop where
  seats : ∀ n ∈ cfg.cluster.members, Orderly cfg b n (s.seats n)
  replies : ∀ msg ∈ s.replies, Told b msg

/-- Nothing was taken back. -/
def Keeps (b b' : Ballots NodeId) : Prop := ∀ m t c, b m t = some c → b' m t = some c

variable {cfg : FleetConfig} {c : SnapshotCodec α} {s s₀ s' : Assembly α}
  {b b' : Ballots NodeId} {n m : NodeId}

theorem attested_new (cfg : FleetConfig) :
    Attested cfg (Assembly.new : Assembly α) fun _ _ => none :=
  ⟨fun _ _ => ⟨rfl, fun _ _ => rfl⟩, by simp [Assembly.new]⟩

theorem Orderly.disk {seat : Seat α} (h : Orderly cfg b n seat) :
    Filed b n seat.disk.current_term seat.disk.voted_for := by
  cases seat with
  | Up st => exact h.1.polled.disk
  | Down disk => exact h

theorem Orderly.frame {seat : Seat α} (h : Orderly cfg b n seat) (ha : Adds m b b')
    (hne : n ≠ m) : Orderly cfg b' n seat := by
  cases seat with
  | Up st => exact ⟨h.1.frame h.2 ha hne, h.2⟩
  | Down disk => exact Filed.frame h ha hne

/-- One member has changed, and it has told no more than it has done. -/
theorem Attested.seat (h : Attested cfg s b) (ha : Adds m b b') (seat : Seat α)
    (hseat : m ∈ cfg.cluster.members → Orderly cfg b' m seat) (replies : List (Message α))
    (hreplies : ∀ msg ∈ replies, Told b' msg) :
    Attested cfg { s.seat m seat with replies := s.replies ++ replies } b' := by
  refine ⟨fun n hn => ?_, fun msg hmsg => ?_⟩
  · unfold Assembly.seat
    dsimp only
    rw [Function.update_apply]
    split
    · rename_i heq
      subst heq
      exact hseat hn
    · rename_i hne
      exact (h.seats n hn).frame ha hne
  · rcases List.mem_append.mp hmsg with hold | hnew
    · exact (h.replies msg hold).keep ha
    · exact hreplies msg hnew

theorem Attested.reseat (h : Attested cfg s b) (ha : Adds m b b') (seat : Seat α)
    (hseat : m ∈ cfg.cluster.members → Orderly cfg b' m seat) :
    Attested cfg (s.seat m seat) b' := by
  have hnext := h.seat ha seat hseat [] (by simp)
  rwa [List.append_nil] at hnext

variable [DecidableEq α]

theorem Attested.admits (h : Attested cfg s b) {a : StationAct α} (ha : s.admits n a = true) :
    AdmitsStation b n a := by
  cases a with
  | Host a =>
    cases a with
    | RunTask k peer reply timeout =>
      rintro msg rfl
      cases msg with
      | VoteReply src req resp => exact h.replies _ (of_decide_eq_true ha)
      | _ => trivial
    | Deliver msg timeout =>
      have hdst : msg.dst = n := of_decide_eq_true ha
      exact hdst
    | _ => trivial
  | _ => trivial

/-- A member has worked: its votes are those of the ballots, at every point of the step. -/
theorem Attested.work (h : Attested cfg s b) {a : StationAct α} {st st' : Station α}
    (hs : s.work cfg c n a = some (st, st')) :
    ∃ b', Adds n b b' ∧ Upright (cfg.host n) b b' st'.host ∧
      ∀ msg ∈ toldBy st a, Told b' msg := by
  unfold Assembly.work at hs
  cases hseat : s.seats n with
  | Down disk =>
    rw [hseat] at hs
    cases hs
  | Up st₁ =>
    rw [hseat] at hs
    dsimp only at hs
    split at hs
    swap
    · cases hs
    rename_i hguard
    obtain ⟨st₂, hstep, heq⟩ := Option.map_eq_some_iff.mp hs
    obtain ⟨rfl, rfl⟩ := Prod.mk.inj heq
    have hup := h.seats n hguard.1
    rw [hseat] at hup
    obtain ⟨b', hu', htold⟩ := stationStep_upright hguard.1 hup.1 (h.admits hguard.2) hstep
    exact ⟨b', hu'.polled.adds, hu', htold⟩

omit [DecidableEq α] in
/-- A node starts as a follower, with the term and the vote that its disk holds. -/
theorem reboot_orderly {disk : SledStorage α} {timeout : Nat} {db fsm : LactoStore}
    {ln : LogicalNode α} (hdisk : Filed b n disk.current_term disk.voted_for)
    (hboot : reboot c.toCodec n cfg.cluster.heartbeat_interval timeout db disk =
      some (fsm, ln)) : Orderly cfg b n (.Up (booted fsm ln)) := by
  unfold reboot LogicalNode.try_new at hboot
  split at hboot
  · cases hboot
  split at hboot
  swap
  · cases hboot
  rename_i hnew
  split at hnew
  · cases hnew
  obtain rfl := Except.ok.inj hnew
  obtain ⟨rfl, rfl⟩ := Prod.mk.inj (Option.some.inj hboot)
  exact ⟨⟨⟨.refl n b, rfl, hdisk, nofun, trivial⟩, nofun⟩, rfl⟩

theorem assemblyStep_attested {a : AssemblyAct α} (h : Attested cfg s b)
    (hs : assemblyStep cfg c s a = some s') : ∃ b', Keeps b b' ∧ Attested cfg s' b' := by
  cases a with
  | Work n a =>
    obtain ⟨⟨st, st'⟩, hwork, rfl⟩ := Option.map_eq_some_iff.mp hs
    obtain ⟨b', hadds, hu, htold⟩ := h.work hwork
    exact ⟨b', hadds.keeps, h.seat hadds (.Up _) (fun _ => ⟨hu.settle, rfl⟩) _ htold⟩
  | CrashIn n a point =>
    obtain ⟨⟨st, st'⟩, hwork, hcrash⟩ := Option.bind_eq_some_iff.mp hs
    obtain ⟨disk, hdisk, rfl⟩ := Option.map_eq_some_iff.mp hcrash
    obtain ⟨b', hadds, hu, -⟩ := h.work hwork
    rcases List.mem_cons.mp (List.mem_of_getElem? hdisk) with rfl | hpast
    · exact ⟨b', hadds.keeps, h.reseat hadds (.Down _) fun _ => hu.polled.disk⟩
    · obtain ⟨b₁, hadds₁, hfiled⟩ := hu.polled.past disk hpast
      exact ⟨b₁, hadds₁.keeps, h.reseat hadds₁ (.Down _) fun _ => hfiled⟩
  | Crash n =>
    simp only [assemblyStep] at hs
    split at hs
    · rename_i st hseat
      obtain rfl := Option.some.inj hs
      refine ⟨b, fun _ _ _ hv => hv, h.reseat (.refl n b) (.Down _) fun hn => ?_⟩
      have hup := (h.seats n hn).disk
      rw [hseat] at hup
      exact hup
    · cases hs
  | Restart n timeout db =>
    simp only [assemblyStep] at hs
    split at hs
    · cases hs
    rename_i disk hseat
    split at hs
    swap
    · cases hs
    rename_i hn
    obtain ⟨⟨fsm, ln⟩, hboot, rfl⟩ := Option.map_eq_some_iff.mp hs
    refine ⟨b, fun _ _ _ hv => hv, h.reseat (.refl n b) (.Up _) fun _ => ?_⟩
    have hdown := (h.seats n hn).disk
    rw [hseat] at hdown
    exact reboot_orderly hdown hboot

theorem run_attested (hrun : AssemblyRun cfg c s s') (h : Attested cfg s b) :
    ∃ b', Keeps b b' ∧ Attested cfg s' b' :=
  hrun.simulates (fun _ _ _ _ hv => hv) (fun h₁ h₂ m t c hv => h₂ m t c (h₁ m t c hv))
    (fun _ _ _ _ h _ hs => assemblyStep_attested h hs) h

omit [DecidableEq α] in
theorem Attested.elected (h : Attested cfg s b) (hn : n ∈ cfg.cluster.members) {term : Nat}
    (hlead : s.leads n term) : Elected (voters cfg.cluster) b term n := by
  obtain ⟨st, hst, ⟨l, hl⟩, rfl⟩ := hlead
  have hup := h.seats n hn
  cases hseat : s.seats n with
  | Down disk =>
    rw [hseat] at hst
    cases hst
  | Up st₁ =>
    rw [hseat] at hst hup
    obtain rfl := Option.some.inj hst
    have hrole := hup.1.polled.role
    rw [show st₁.host.node.node.state = _ from hl] at hrole
    exact hrole

/-- No two members ever lead in the same term, at no two times, although they compact their
logs, install snapshots and go down between any two writes. -/
theorem leader_elected_once (hrun : AssemblyRun cfg c .new s) (hlater : AssemblyRun cfg c s s')
    (hn : n ∈ cfg.cluster.members) (hm : m ∈ cfg.cluster.members) {term : Nat}
    (hlead : s.leads n term) (hlead' : s'.leads m term) : n = m := by
  obtain ⟨b, -, hb⟩ := run_attested hrun (attested_new cfg)
  obtain ⟨b', hkeeps, hb'⟩ := run_attested hlater hb
  obtain ⟨Q, hQ, hvotes⟩ := hb.elected hn hlead
  have hkept : Elected (voters cfg.cluster) b' term n :=
    ⟨Q, hQ, fun q hq => hkeeps q term n (hvotes q hq)⟩
  exact hkept.unique (hb'.elected hm hlead')

/-- A vote that was told is on the disk of the member for as long as it is in the term, and
it never tells another. -/
theorem told_vote_stands (hrun : AssemblyRun cfg c .new s) (hlater : AssemblyRun cfg c s s')
    (hn : n ∈ cfg.cluster.members) {req : RequestVoteRequest} {resp : RequestVoteResponse}
    (htold : .VoteReply n req resp ∈ s.replies) (hgranted : resp.vote_granted = true) :
    req.term ≤ (s'.seats n).disk.current_term ∧
    ((s'.seats n).disk.current_term = req.term →
      (s'.seats n).disk.voted_for = some req.candidate_id) ∧
    ∀ req' resp', .VoteReply n req' resp' ∈ s'.replies → resp'.vote_granted = true →
      req'.term = req.term → req'.candidate_id = req.candidate_id := by
  obtain ⟨b, -, hb⟩ := run_attested hrun (attested_new cfg)
  obtain ⟨b', hkeeps, hb'⟩ := run_attested hlater hb
  have hvote : b' n req.term = some req.candidate_id :=
    hkeeps n req.term _ (hb.replies _ htold hgranted)
  have hfiled := (hb'.seats n hn).disk
  refine ⟨?_, fun hterm => ?_, fun req' resp' htold' hgranted' hsame => ?_⟩
  · by_contra hlt
    rw [hfiled.free req.term (Nat.lt_of_not_le hlt)] at hvote
    cases hvote
  · rw [← hvote, ← hterm]
    exact hfiled.vote.symm
  · have hvote' := hb'.replies _ htold' hgranted'
    rw [hsame, hvote] at hvote'
    exact (Option.some.inj hvote').symm

/-! ## A term with a crash in it -/

/-- Node 1 is elected with the vote of node 2, commits two entries and compacts its log. -/
def electAndCompact : List (AssemblyAct Bytes) :=
  [.Restart 1 1 .new, .Restart 2 9 .new, .Restart 3 9 .new, .Work 1 (.Host (.Tick 1)),
    .Work 1 (.Host (.RunTask 0 2 (some (.PreVoteReply 2 ⟨0, 1, 0, 0⟩ ⟨0, true⟩)) 1)),
    .Work 1 (.Host (.RunTask 0 2 none 5)),
    .Work 2 (.Host (.Deliver (.RequestVote 2 ⟨1, 1, 0, 0⟩) 9)),
    .Work 1 (.Host (.RunTask 0 2 (some (.VoteReply 2 ⟨1, 1, 0, 0⟩ ⟨1, true⟩)) 5))] ++
  (leadAndCompact.drop 4).map (.Work 1)

/-- Node 3 asks node 2 for its vote in term 2. Node 2 goes down after it has written the new
term, and starts again; node 1 has heard of nothing. -/
def crashInVote : List (AssemblyAct Bytes) :=
  [.CrashIn 2 (.Host (.Deliver (.RequestVote 2 ⟨2, 3, 0, 0⟩) 9)) 1, .Restart 2 9 .new]

def assemblyAfter (as : List (AssemblyAct Bytes)) : Assembly Bytes :=
  (exec (assemblyStep fleet.threeNodes plainSnapshots) .new as).getD .new

theorem electAndCompact_run :
    AssemblyRun fleet.threeNodes plainSnapshots .new (assemblyAfter electAndCompact) :=
  run_of_takes electAndCompact (fun _ _ _ => trivial) (by decide +kernel)

theorem crashInVote_run : AssemblyRun fleet.threeNodes plainSnapshots
    (assemblyAfter electAndCompact) (assemblyAfter (electAndCompact ++ crashInVote)) :=
  run_of_exec crashInVote (fun _ _ _ => trivial) rfl

theorem leader_elected_once_compacted :
    ((assemblyAfter electAndCompact).seats 1).disk.last_included_index = 2 ∧ (1 : NodeId) = 1 := by
  have hlead : (assemblyAfter electAndCompact).leads 1 1 := ⟨_, rfl, ⟨_, rfl⟩, rfl⟩
  have hlead' : (assemblyAfter (electAndCompact ++ crashInVote)).leads 1 1 :=
    ⟨_, rfl, ⟨_, rfl⟩, rfl⟩
  exact ⟨by decide +kernel, leader_elected_once electAndCompact_run crashInVote_run (by decide)
    (by decide) hlead hlead'⟩

theorem told_vote_stands_crashed :
    1 ≤ ((assemblyAfter (electAndCompact ++ crashInVote)).seats 2).disk.current_term := by
  have htold : .VoteReply 2 ⟨1, 1, 0, 0⟩ ⟨1, true⟩ ∈ (assemblyAfter electAndCompact).replies := by
    decide +kernel
  exact (told_vote_stands electAndCompact_run crashInVote_run (by decide) htold rfl).1

end raft_engine.elections
