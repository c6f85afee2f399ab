-- The timing part of the configuration: what is accepted at startup, and the
-- thresholds in ticks that the engine is given. The build decides whether a
-- product that leaves 64 bits panics or wraps. The ratio is checked in
-- milliseconds and kept in ticks, after three divisions that round up.
import LactoSensus.Types

open common.types

namespace raft_engine.config

/-! ## Arithmetic -/

/-- `overflow-checks` of the profile: on for `dev`, off for `release`. -/
inductive Build where
  | Checked
  | Wrapping
deriving DecidableEq, Repr

/-- No value is a panic. -/
def Build.mul : Build → UInt64 → UInt64 → Option UInt64
  | .Checked, a, b => if a.toNat * b.toNat ≤ u64Max then some (a * b) else none
  | .Wrapping, a, b => some (a * b)

def Build.add : Build → UInt64 → UInt64 → Option UInt64
  | .Checked, a, b => if a.toNat + b.toNat ≤ u64Max then some (a + b) else none
  | .Wrapping, a, b => some (a + b)

/-- `u64::div_ceil`; a division by zero panics in every build. -/
def Build.div_ceil (build : Build) (a b : UInt64) : Option UInt64 :=
  if b = 0 then none
  else if a % b > 0 then build.add (a / b) 1
  else some (a / b)

/-! ## The configuration -/

structure RaftConfig where
  tick_interval_ms : UInt64
  heartbeat_interval_ms : UInt64
  election_timeout_min_ms : UInt64
  election_timeout_max_ms : UInt64
  rpc_timeout_ms : UInt64
  consensus_timeout_ms : UInt64
  snapshot_threshold : UInt64
deriving DecidableEq, Repr

def RaftConfig.default : RaftConfig where
  tick_interval_ms := 10
  heartbeat_interval_ms := 50
  election_timeout_min_ms := 150
  election_timeout_max_ms := 300
  rpc_timeout_ms := 40
  consensus_timeout_ms := 30000
  snapshot_threshold := 10000

inductive ConfigError where
  | TimingInvariant (msg : String)
deriving DecidableEq, Repr

/-- What `validate` warns of and accepts all the same. -/
inductive Warning where
  | LowSnapshotThreshold
  | WideElectionRatio
deriving DecidableEq, Repr

def RaftConfig.validate (c : RaftConfig) (build : Build) :
    Option (Except ConfigError (List Warning)) :=
  if c.tick_interval_ms = 0 then
    some (.error (.TimingInvariant "tick_interval_ms must be greater than 0"))
  else if c.heartbeat_interval_ms = 0 then
    some (.error (.TimingInvariant "heartbeat_interval_ms must be greater than 0"))
  else if c.tick_interval_ms > c.heartbeat_interval_ms then
    some (.error (.TimingInvariant
      "tick_interval_ms must be less than or equal to heartbeat_interval_ms"))
  else if c.rpc_timeout_ms = 0 then
    some (.error (.TimingInvariant "rpc_timeout_ms must be greater than 0"))
  else if c.consensus_timeout_ms = 0 then
    some (.error (.TimingInvariant "consensus_timeout_ms must be greater than 0"))
  else if c.snapshot_threshold = 0 then
    some (.error (.TimingInvariant "snapshot_threshold must be greater than 0"))
  else
    let low := if c.snapshot_threshold < 100 then [Warning.LowSnapshotThreshold] else []
    -- the SLA Invariant
    if c.consensus_timeout_ms < c.rpc_timeout_ms then
      some (.error (.TimingInvariant
        (s!"The SLA Invariant: consensus_timeout_ms ({c.consensus_timeout_ms}) cannot be " ++
          s!"shorter than rpc_timeout_ms ({c.rpc_timeout_ms}).")))
    -- the Congestion Invariant
    else if c.rpc_timeout_ms ≥ c.heartbeat_interval_ms then
      some (.error (.TimingInvariant
        "rpc_timeout_ms must be less than heartbeat_interval_ms to prevent heartbeat stacking"))
    else
      -- the Stability Invariant
      (build.mul c.heartbeat_interval_ms 3).bind fun triple =>
        if c.election_timeout_min_ms < triple then
          some (.error (.TimingInvariant
            "ADR 003: election_timeout_min_ms must be at least 3x heartbeat_interval_ms"))
        else
          (build.mul c.heartbeat_interval_ms 6).bind fun sixfold =>
            let wide :=
              if c.election_timeout_min_ms > sixfold then [Warning.WideElectionRatio] else []
            if c.election_timeout_max_ms ≤ c.election_timeout_min_ms then
              some (.error (.TimingInvariant
                "election_timeout_max_ms must be greater than election_timeout_min_ms"))
            else some (.ok (low ++ wide))

structure TickThresholds where
  heartbeat_interval : UInt64
  min_election : UInt64
  max_election : UInt64
deriving DecidableEq, Repr

def RaftConfig.calculate_thresholds (c : RaftConfig) (build : Build) : Option TickThresholds :=
  let to_ticks := fun ms => build.div_ceil ms c.tick_interval_ms
  (to_ticks c.heartbeat_interval_ms).bind fun heartbeat_interval =>
    (to_ticks c.election_timeout_min_ms).bind fun min_election =>
      (to_ticks c.election_timeout_max_ms).bind fun max_election =>
        some ⟨heartbeat_interval, min_election, max_election⟩

/-! ## What is promised in ticks -/

/-- The ratio of ADR 003 and a window to draw from. -/
structure TickThresholds.Stable (th : TickThresholds) : Prop where
  heartbeat_pos : 1 ≤ th.heartbeat_interval.toNat
  ratio : 3 * th.heartbeat_interval.toNat ≤ th.min_election.toNat
  window : th.min_election.toNat < th.max_election.toNat

/-- Both functions run without an overflow, and the thresholds are stable. The two builds
part at the first overflow only, so the one that checks tells of it. -/
structure RaftConfig.Sound (c : RaftConfig) (build : Build) : Prop where
  validated : (c.validate .Checked).isSome
  converted : (c.calculate_thresholds .Checked).isSome
  stable : ∃ th, c.calculate_thresholds build = some th ∧ th.Stable

/-- Six heartbeats fit into 64 bits; the minimum is longer than three times the heartbeat,
rounded up to whole ticks, less one tick; a whole number of ticks is at least the minimum and
below the maximum. -/
structure RaftConfig.Aligned (c : RaftConfig) : Prop where
  fits : c.heartbeat_interval_ms.toNat * 6 ≤ u64Max
  ratio : ∀ k, k * c.tick_interval_ms.toNat < c.heartbeat_interval_ms.toNat →
    (3 * k + 2) * c.tick_interval_ms.toNat < c.election_timeout_min_ms.toNat
  window : ∃ k, c.election_timeout_min_ms.toNat ≤ k * c.tick_interval_ms.toNat ∧
    k * c.tick_interval_ms.toNat < c.election_timeout_max_ms.toNat

/-! ## The divisions -/

variable {build : Build} {c : RaftConfig}

theorem Build.add_of_le {a b : UInt64} (h : a.toNat + b.toNat ≤ u64Max) (build : Build) :
    build.add a b = some (a + b) := by
  cases build with
  | Checked => exact if_pos h
  | Wrapping => rfl

theorem Build.mul_eq {a b p : UInt64} (h : build.mul a b = some p) : p = a * b := by
  cases build with
  | Checked =>
    simp only [Build.mul] at h
    split at h
    · exact (Option.some.inj h).symm
    · cases h
  | Wrapping => exact (Option.some.inj h).symm

/-- Rounded up: more than `n` whole parts are needed when `n` of them fall short. -/
theorem div_ceil_spec (a : UInt64) {b : UInt64} (hb : b ≠ 0) :
    ∃ d, (∀ build : Build, build.div_ceil a b = some d) ∧
      ∀ n, n < d.toNat ↔ n * b.toNat < a.toNat := by
  have hpos : 0 < b.toNat := by
    have hne : b.toNat ≠ 0 := fun h => hb (UInt64.toNat_inj.mp h)
    omega
  have hdiv : (a / b).toNat = a.toNat / b.toNat := UInt64.toNat_div a b
  have hle : ∀ n, n ≤ a.toNat / b.toNat ↔ n * b.toNat ≤ a.toNat := fun _ =>
    Nat.le_div_iff_mul_le hpos
  by_cases hr : a % b > 0
  · have hrem : 0 < a.toNat % b.toNat := by
      have := UInt64.lt_iff_toNat_lt.mp hr
      rwa [UInt64.toNat_mod] at this
    have hlt : a.toNat / b.toNat < a.toNat := by
      have hmod := Nat.mod_lt a.toNat hpos
      apply Nat.div_lt_self
      · exact hrem.trans_le (Nat.mod_le _ _)
      · omega
    have hmax : a.toNat ≤ u64Max := by
      have := a.toNat_lt
      simp only [u64Max]
      omega
    have hfit : (a / b).toNat + (1 : UInt64).toNat ≤ u64Max := by
      rw [hdiv, UInt64.toNat_one]
      omega
    refine ⟨a / b + 1, fun build => ?_, fun n => ?_⟩
    · unfold Build.div_ceil
      rw [if_neg hb, if_pos hr, Build.add_of_le hfit]
    · have hsucc : (a / b + 1).toNat = a.toNat / b.toNat + 1 := by
        rw [UInt64.toNat_add, hdiv, UInt64.toNat_one]
        simp only [u64Max] at hmax
        exact Nat.mod_eq_of_lt (by omega)
      rw [hsucc, Nat.lt_succ_iff, hle]
      refine ⟨fun h => lt_of_le_of_ne h fun heq => ?_, le_of_lt⟩
      rw [← heq, Nat.mul_mod_left] at hrem
      omega
  · have hrem : a.toNat % b.toNat = 0 := by
      rw [← UInt64.toNat_mod]
      by_contra hne
      exact hr (UInt64.lt_iff_toNat_lt.mpr (Nat.pos_of_ne_zero hne))
    refine ⟨a / b, fun build => ?_, fun n => ?_⟩
    · unfold Build.div_ceil
      rw [if_neg hb, if_neg hr]
    · rw [hdiv, Nat.lt_div_iff_mul_lt' (Nat.dvd_of_mod_eq_zero hrem), Nat.mul_comm]

/-! ## What is accepted -/

/-- The checks before the first product. -/
structure RaftConfig.Admitted (c : RaftConfig) : Prop where
  tick : c.tick_interval_ms ≠ 0
  heartbeat : c.heartbeat_interval_ms ≠ 0
  tick_le : ¬c.tick_interval_ms > c.heartbeat_interval_ms
  rpc : c.rpc_timeout_ms ≠ 0
  consensus : c.consensus_timeout_ms ≠ 0
  snapshot : c.snapshot_threshold ≠ 0
  sla : ¬c.consensus_timeout_ms < c.rpc_timeout_ms
  congestion : ¬c.rpc_timeout_ms ≥ c.heartbeat_interval_ms

/-- A check that does not stop the validation has failed to hold. -/
theorem unmet_of_ok {P : Prop} [Decidable P] {e : ConfigError} {w : List Warning}
    {rest : Option (Except ConfigError (List Warning))}
    (h : (if P then some (.error e) else rest) = some (.ok w)) : ¬P ∧ rest = some (.ok w) := by
  by_cases hp : P
  · rw [if_pos hp] at h
    cases h
  · rw [if_neg hp] at h
    exact ⟨hp, h⟩

theorem admitted_of_ok {w : List Warning} (h : c.validate build = some (.ok w)) : c.Admitted := by
  unfold RaftConfig.validate at h
  obtain ⟨h₁, h⟩ := unmet_of_ok h
  obtain ⟨h₂, h⟩ := unmet_of_ok h
  obtain ⟨h₃, h⟩ := unmet_of_ok h
  obtain ⟨h₄, h⟩ := unmet_of_ok h
  obtain ⟨h₅, h⟩ := unmet_of_ok h
  obtain ⟨h₆, h⟩ := unmet_of_ok h
  dsimp only at h
  obtain ⟨h₇, h⟩ := unmet_of_ok h
  obtain ⟨h₈, h⟩ := unmet_of_ok h
  exact ⟨h₁, h₂, h₃, h₄, h₅, h₆, h₇, h₈⟩

theorem validate_of_mul (ha : c.Admitted) {triple : UInt64}
    (h₃ : build.mul c.heartbeat_interval_ms 3 = some triple)
    (hmin : ¬c.election_timeout_min_ms < triple) :
    (c.validate build).isSome ↔ (build.mul c.heartbeat_interval_ms 6).isSome := by
  unfold RaftConfig.validate
  rw [if_neg ha.tick, if_neg ha.heartbeat, if_neg ha.tick_le, if_neg ha.rpc, if_neg ha.consensus,
    if_neg ha.snapshot]
  dsimp only
  rw [if_neg ha.sla, if_neg ha.congestion, h₃, Option.bind_some, if_neg hmin]
  cases build.mul c.heartbeat_interval_ms 6 with
  | none => simp
  | some sixfold =>
    rw [Option.bind_some]
    split <;> simp

theorem validate_of_panic (ha : c.Admitted)
    (h₃ : build.mul c.heartbeat_interval_ms 3 = none) : c.validate build = none := by
  unfold RaftConfig.validate
  rw [if_neg ha.tick, if_neg ha.heartbeat, if_neg ha.tick_le, if_neg ha.rpc, if_neg ha.consensus,
    if_neg ha.snapshot]
  dsimp only
  rw [if_neg ha.sla, if_neg ha.congestion, h₃, Option.bind_none]

/-- An accepted configuration has passed the ratio, as the product came out. -/
theorem ratio_of_ok {w : List Warning} (h : c.validate build = some (.ok w)) :
    ¬c.election_timeout_min_ms < c.heartbeat_interval_ms * 3 := by
  have ha := admitted_of_ok h
  unfold RaftConfig.validate at h
  rw [if_neg ha.tick, if_neg ha.heartbeat, if_neg ha.tick_le, if_neg ha.rpc, if_neg ha.consensus,
    if_neg ha.snapshot] at h
  dsimp only at h
  rw [if_neg ha.sla, if_neg ha.congestion] at h
  obtain ⟨triple, h₃, h⟩ := Option.bind_eq_some_iff.mp h
  rw [← Build.mul_eq h₃]
  intro hlt
  rw [if_pos hlt] at h
  cases h

theorem checked_validate_iff {w : List Warning} (h : c.validate build = some (.ok w)) :
    (c.validate .Checked).isSome ↔ c.heartbeat_interval_ms.toNat * 6 ≤ u64Max := by
  have ha := admitted_of_ok h
  have hsix : (Build.Checked.mul c.heartbeat_interval_ms 6).isSome ↔
      c.heartbeat_interval_ms.toNat * 6 ≤ u64Max := by
    change (if c.heartbeat_interval_ms.toNat * 6 ≤ u64Max then _ else _ : Option UInt64).isSome ↔ _
    split <;> simp_all
  cases h₃ : Build.Checked.mul c.heartbeat_interval_ms 3 with
  | none =>
    rw [validate_of_panic ha h₃]
    simp only [Build.mul, ite_eq_right_iff, reduceCtorEq, imp_false] at h₃
    have hthree : (3 : UInt64).toNat = 3 := rfl
    rw [hthree] at h₃
    simp
    omega
  | some triple =>
    have hmin := ratio_of_ok h
    rw [← Build.mul_eq h₃] at hmin
    rw [validate_of_mul ha h₃ hmin, hsix]

/-! ## The thresholds -/

theorem thresholds_spec (htick : c.tick_interval_ms ≠ 0) :
    ∃ th : TickThresholds, (∀ build, c.calculate_thresholds build = some th) ∧
      (∀ n, n < th.heartbeat_interval.toNat ↔
        n * c.tick_interval_ms.toNat < c.heartbeat_interval_ms.toNat) ∧
      (∀ n, n < th.min_election.toNat ↔
        n * c.tick_interval_ms.toNat < c.election_timeout_min_ms.toNat) ∧
      ∀ n, n < th.max_election.toNat ↔
        n * c.tick_interval_ms.toNat < c.election_timeout_max_ms.toNat := by
  obtain ⟨h, hh, hspec⟩ := div_ceil_spec c.heartbeat_interval_ms htick
  obtain ⟨l, hl, lspec⟩ := div_ceil_spec c.election_timeout_min_ms htick
  obtain ⟨u, hu, uspec⟩ := div_ceil_spec c.election_timeout_max_ms htick
  refine ⟨⟨h, l, u⟩, fun build => ?_, hspec, lspec, uspec⟩
  simp [RaftConfig.calculate_thresholds, hh, hl, hu]

/-- A configuration that is accepted keeps its promise in ticks exactly when it is aligned. -/
theorem accepted_sound_iff (c : RaftConfig) (build : Build) (w : List Warning)
    (h : c.validate build = some (.ok w)) : c.Sound build ↔ c.Aligned := by
  have ha := admitted_of_ok h
  obtain ⟨th, hth, hspec, lspec, uspec⟩ := thresholds_spec ha.tick
  have hpos : 1 ≤ th.heartbeat_interval.toNat := by
    apply (hspec 0).mpr
    have hne : c.heartbeat_interval_ms.toNat ≠ 0 := fun h0 =>
      ha.heartbeat (UInt64.toNat_inj.mp h0)
    omega
  constructor
  · rintro ⟨hval, -, th', hth', hstable⟩
    obtain rfl := Option.some.inj ((hth build).symm.trans hth')
    refine ⟨(checked_validate_iff h).mp hval, fun k hk => ?_, th.min_election.toNat, ?_, ?_⟩
    · apply (lspec _).mp
      have := (hspec k).mpr hk
      have := hstable.ratio
      omega
    · exact Nat.le_of_not_lt fun hlt => lt_irrefl _ ((lspec _).mpr hlt)
    · exact (uspec _).mp hstable.window
  · rintro ⟨hfits, hratio, k, hmin, hmax⟩
    refine ⟨(checked_validate_iff h).mpr hfits, by simp [hth], th, hth build, hpos, ?_, ?_⟩
    · -- one tick below the heartbeat threshold is short of the heartbeat
      have hk : th.heartbeat_interval.toNat - 1 < th.heartbeat_interval.toNat := by omega
      have := (lspec _).mpr (hratio _ ((hspec _).mp hk))
      omega
    · have hle : th.min_election.toNat ≤ k :=
        Nat.le_of_not_lt fun hlt => absurd ((lspec k).mp hlt) (not_lt.mpr hmin)
      exact hle.trans_lt ((uspec k).mpr hmax)

theorem accepted_sound_iff_default :
    RaftConfig.default.validate .Wrapping = some (.ok []) ∧
      (RaftConfig.default.Sound .Wrapping ↔ RaftConfig.default.Aligned) :=
  ⟨by decide, accepted_sound_iff .default .Wrapping [] (by decide)⟩

/-- Heartbeats of 11 ms and elections after 33 to 34 ms on a clock of 10 ms. -/
def unaligned : RaftConfig :=
  { RaftConfig.default with
    heartbeat_interval_ms := 11
    election_timeout_min_ms := 33
    election_timeout_max_ms := 34
    rpc_timeout_ms := 5 }

/-- Three heartbeats are more than 64 bits hold. -/
def wrapped : RaftConfig :=
  { RaftConfig.default with
    heartbeat_interval_ms := 9223372036854775808
    election_timeout_min_ms := 9223372036854775808
    election_timeout_max_ms := 9223372036854775818 }

/-- Both are accepted. The first has two ticks for a heartbeat and always four for an
election; the second waits for an election no longer than for a heartbeat. -/
theorem accepted_unsound :
    (unaligned.validate .Checked = some (.ok []) ∧
      unaligned.calculate_thresholds .Checked = some ⟨2, 4, 4⟩ ∧ ¬unaligned.Sound .Checked) ∧
    wrapped.validate .Wrapping = some (.ok [.WideElectionRatio]) ∧
      wrapped.validate .Checked = none ∧
      ¬wrapped.Sound .Wrapping := by
  have hticks : unaligned.calculate_thresholds .Checked = some ⟨2, 4, 4⟩ := by decide
  refine ⟨⟨by decide, hticks, ?_⟩, by decide, by decide, fun h => ?_⟩
  · rintro ⟨-, -, th, hth, hstable⟩
    obtain rfl := Option.some.inj (hticks.symm.trans hth)
    exact absurd hstable.window (by decide)
  · exact absurd h.validated (by decide)

end raft_engine.config
