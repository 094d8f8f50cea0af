/-
  EarnProof.Health.Incidents — the incident of a monitored dependency, as `recordProbe` of
  `src/health/health-incident.service.ts` moves it. One counter, `currentProbeCount`, serves
  failures and recoveries, and every failed probe sets it to one: no run of failures is
  ever counted, and a threshold above one opens nothing (`failures_open_nothing`).
  Instants are milliseconds; `acknowledgement` is the end of the operator's note.
-/
import Mathlib.Data.List.Infix

namespace EarnProof.Health

open List

inductive HealthIncidentStatus where
  | healthy | unhealthy | acknowledged | recovered
  deriving DecidableEq

inductive HealthIncidentReasonCode where
  | probeTimeout | probeError | probeDegraded | sustainedFailure | sustainedRecovery | operatorAcknowledged
  deriving DecidableEq

structure HealthTransition where
  reason : HealthIncidentReasonCode
  status : HealthIncidentStatus
  probeCount : Nat
  durationMs : Int
  deriving DecidableEq

/-- A row, with the defaults of `getOrCreateIncident`. -/
structure HealthIncident where
  status : HealthIncidentStatus := .healthy
  reasonCode : Option HealthIncidentReasonCode := none
  failureThreshold : Nat := 3
  recoveryThreshold : Nat := 5
  failureWindowMs : Nat := 60000
  recoveryWindowMs : Nat := 120000
  openedAt : Option Int := none
  closedAt : Option Int := none
  currentProbeCount : Nat := 0
  probeCountWindowStart : Option Int := none
  totalFailedProbes : Nat := 0
  totalSuccessfulProbes : Nat := 0
  version : Nat := 0
  acknowledgement : Option Int := none
  transitions : List HealthTransition := []
  deriving DecidableEq

structure Probe where
  success : Bool
  reasonCode : Option HealthIncidentReasonCode
  now : Int
  deriving DecidableEq

/-- The next status and reason, and whether the incident is newly opened or closed. -/
def computeNextStatus (i : HealthIncident) (success : Bool) (probeCount : Nat)
    (failureReason : Option HealthIncidentReasonCode) : HealthIncidentStatus × HealthIncidentReasonCode × Bool × Bool :=
  let stay := (i.status, i.reasonCode.getD .sustainedFailure, false, false)
  match i.status with
  | .healthy =>
    if success = false ∧ i.failureThreshold ≤ probeCount then
      (.unhealthy, failureReason.getD .sustainedFailure, true, false)
    else stay
  | .unhealthy | .acknowledged =>
    if success ∧ i.recoveryThreshold ≤ probeCount then (.recovered, .sustainedRecovery, false, true) else stay
  | .recovered => (.healthy, .sustainedRecovery, false, true)

/-- `recordProbe` with `computeStateTransition`. -/
def recordProbe (i : HealthIncident) (p : Probe) : HealthIncident :=
  let windowStart := i.probeCountWindowStart.getD p.now
  let elapsedMs := p.now - windowStart
  let (counted, resetWindow) :=
    match i.status with
    | .unhealthy => if i.failureWindowMs < elapsedMs then (0, true) else (i.currentProbeCount, false)
    | .acknowledged =>
      if i.acknowledgement.any (· < p.now) then (1, true)
      else if i.recoveryWindowMs < elapsedMs then (0, true)
      else (i.currentProbeCount, false)
    | .healthy | .recovered => (i.currentProbeCount, false)
  let probeCount := if p.success then counted + 1 else 1
  let (status, reason, newlyOpened, newlyClosed) := computeNextStatus i p.success probeCount p.reasonCode
  { i with
    status, reasonCode := some reason
    currentProbeCount := if status = .healthy then 0 else probeCount
    probeCountWindowStart := some (if resetWindow then p.now else windowStart)
    totalFailedProbes := if p.success then i.totalFailedProbes else i.totalFailedProbes + 1
    totalSuccessfulProbes := if p.success then i.totalSuccessfulProbes + 1 else i.totalSuccessfulProbes
    openedAt := if newlyOpened then some p.now else i.openedAt
    closedAt := if newlyClosed then some p.now else i.closedAt
    version := i.version + 1
    transitions := i.transitions ++ [⟨reason, status, probeCount, elapsedMs⟩] }

variable {i : HealthIncident} {p : Probe} {ps : List Probe}

theorem recordProbe_status (h : i.status = .healthy) :
    (recordProbe i p).status = if p.success = false ∧ i.failureThreshold ≤ 1 then .unhealthy else .healthy := by
  cases hp : p.success with
  | true => simp [recordProbe, computeNextStatus, h, hp]
  | false =>
    by_cases ht : i.failureThreshold ≤ 1
    · simp [recordProbe, computeNextStatus, h, hp, ht]
    · simp [recordProbe, computeNextStatus, h, hp, ht]

theorem run_failureThreshold (i : HealthIncident) (ps : List Probe) :
    (ps.foldl recordProbe i).failureThreshold = i.failureThreshold := by
  induction ps generalizing i with
  | nil => rfl
  | cons p ps ih => exact ih (recordProbe i p)

theorem run_healthy (h : i.status = .healthy) (hmany : 1 < i.failureThreshold) (ps : List Probe) :
    (ps.foldl recordProbe i).status = .healthy := by
  induction ps generalizing i with
  | nil => exact h
  | cons p ps ih =>
    refine ih ?_ hmany
    rw [recordProbe_status h, if_neg fun hopen => absurd hopen.2 (by omega)]

/-- The last of these probes completes a run of `failureThreshold` failures within the window. -/
def Completes (i : HealthIncident) (ps : List Probe) : Prop :=
  ∃ run ≠ [], run <:+ ps ∧ i.failureThreshold ≤ run.length ∧
    ∀ p ∈ run, p.success = false ∧ ∀ q ∈ run, q.now - p.now ≤ i.failureWindowMs

theorem Completes.failed (h : Completes i (ps ++ [p])) : p.success = false := by
  obtain ⟨run, hne, hrun, -, hfail⟩ := h
  obtain ⟨rs, q, rfl⟩ := (eq_nil_or_concat' run).resolve_left hne
  obtain ⟨_, heq⟩ := hrun
  rw [← append_assoc] at heq
  obtain ⟨-, rfl⟩ := append_singleton_inj.mp heq
  exact (hfail _ (by simp)).1

/-- As long as the incident has stayed healthy, a probe opens it if and only if it completes
    a run. -/
def OpensInTime (i : HealthIncident) (ps : List Probe) : Prop :=
  ∀ qs p, qs ++ [p] <+: ps → (∀ rs, rs <+: qs → (rs.foldl recordProbe i).status = .healthy) →
    (((qs ++ [p]).foldl recordProbe i).status = .unhealthy ↔ Completes i (qs ++ [p]))

theorem opensInTime_iff (h : i.status = .healthy) :
    OpensInTime i ps ↔ i.failureThreshold ≤ 1 ∨ ∀ qs, qs <+: ps → ¬ Completes i qs := by
  have hlast : ∀ qs p, (qs.foldl recordProbe i).status = .healthy →
      (((qs ++ [p]).foldl recordProbe i).status = .unhealthy ↔ p.success = false ∧ i.failureThreshold ≤ 1) := by
    intro qs p hq
    rw [foldl_append, foldl_cons, foldl_nil, recordProbe_status hq, run_failureThreshold]
    split <;> simp_all
  constructor
  · intro hopens
    by_cases hone : i.failureThreshold ≤ 1
    · exact .inl hone
    · refine .inr fun qs hqs hdone => ?_
      obtain rfl | ⟨rs, p, rfl⟩ := eq_nil_or_concat' qs
      · obtain ⟨run, hne, hrun, -⟩ := hdone
        exact hne (suffix_nil.mp hrun)
      · have hmany := run_healthy h (Nat.lt_of_not_le hone)
        have hopen := (hopens rs p hqs fun _ _ => hmany _).mpr hdone
        cases (hmany _).symm.trans hopen
  · intro hcond qs p hqs hstays
    rw [hlast qs p (hstays qs prefix_rfl)]
    constructor
    · intro hopen
      exact ⟨[p], nofun, suffix_append qs [p], hopen.2, by simp [hopen.1]⟩
    · intro hdone
      exact ⟨hdone.failed, hcond.resolve_right fun hnone => hnone _ hqs hdone⟩

theorem opensInTime_iff_of_one : OpensInTime { failureThreshold := 1 } [⟨true, none, 0⟩, ⟨false, none, 1⟩] :=
  (opensInTime_iff rfl).mpr (.inl (by decide))

/-- Three failures in a row, of the default row. -/
theorem failures_open_nothing : ∃ ps, Completes {} ps ∧ (ps.foldl recordProbe {}).status = .healthy := by
  refine ⟨[⟨false, none, 0⟩, ⟨false, none, 1⟩, ⟨false, none, 2⟩], ⟨_, ?_, suffix_rfl, ?_, ?_⟩, ?_⟩ <;> decide

end EarnProof.Health
