/-
  EarnProof.Common.ClockSkew — the alert of `src/common/time/clock-skew.ts`, which a deviation
  of the clock raises once it has lasted.

  `advanceAlert` keeps three fields from one assessment to the next. They are what the history
  says (`Tracks`): when the run of breaches it ends in began, whether an alert is up, and how many
  assessments since the last breach were none. So an alert is raised and cleared exactly where the
  history asks for it (`alert_follows_history`). Times are only subtracted and compared, and may
  be of any type that has these.
-/
import Mathlib.Data.Option.Basic

namespace EarnProof.Common.ClockSkew

open List

inductive Severity where
  | warning | critical
  deriving DecidableEq

/-! ## The history -/

section History

variable {T : Type}

variable (history : List (Option Severity × T))

/-- When the unbroken run of breaches began that the history, newest first, ends in. -/
def startedAt : Option T :=
  (history.takeWhile (·.1.isSome)).getLast?.map Prod.snd

/-- How many assessments since the last breach were none. -/
def healthyFor : Nat := (history.takeWhile (·.1.isNone)).length

theorem startedAt_breach (severity : Severity) (nowMs : T) :
    startedAt ((some severity, nowMs) :: history) = some ((startedAt history).getD nowMs) := by
  simp only [startedAt, takeWhile_cons, Option.isSome_some, if_true, getLast?_cons, Option.map_some]
  cases (takeWhile _ history).getLast? <;> rfl

end History

/-! ## The alert -/

structure SustainedAlertPolicy (T : Type) where
  sustainForMs : T
  clearAfterAssessments : Nat

structure SustainedAlertState (T : Type) where
  breachStartedAtMs : Option T
  activeSeverity : Option Severity
  healthyStreak : Nat

def INITIAL_ALERT_STATE {T : Type} : SustainedAlertState T := ⟨none, none, 0⟩

inductive AlertTransition where
  | raised (severity : Severity)
  | escalated | deescalated | cleared
  deriving DecidableEq

variable {T : Type} [Sub T] [LE T] [DecidableLE T]

def advanceAlert (state : SustainedAlertState T) (severity : Option Severity) (nowMs : T)
    (policy : SustainedAlertPolicy T) : SustainedAlertState T × Option AlertTransition :=
  match severity with
  | none =>
    match state.activeSeverity with
    | none => (⟨none, none, 0⟩, none)
    | some active =>
      if policy.clearAfterAssessments ≤ state.healthyStreak + 1 then (⟨none, none, 0⟩, some .cleared)
      else (⟨none, some active, state.healthyStreak + 1⟩, none)
  | some severity =>
    let breachStartedAtMs := state.breachStartedAtMs.getD nowMs
    match state.activeSeverity with
    | none =>
      if policy.sustainForMs ≤ nowMs - breachStartedAtMs then
        (⟨some breachStartedAtMs, some severity, 0⟩, some (.raised severity))
      else (⟨some breachStartedAtMs, none, 0⟩, none)
    | some active =>
      (⟨some breachStartedAtMs, some severity, 0⟩,
        if active = severity then none else if severity = .critical then some .escalated else some .deescalated)

variable (policy : SustainedAlertPolicy T)

def stateAfter : List (Option Severity × T) → SustainedAlertState T
  | [] => INITIAL_ALERT_STATE
  | a :: before => (advanceAlert (stateAfter before) a.1 a.2 policy).1

/-- An alert has been raised and not cleared since. -/
def isUp : List (Option Severity × T) → Bool
  | [] => false
  | a :: before =>
    match (advanceAlert (stateAfter policy before) a.1 a.2 policy).2 with
    | some (.raised _) => true
    | some .cleared => false
    | _ => isUp before

/-- What the state keeps of the history, where an alert is up or not. -/
structure Tracks (history : List (Option Severity × T)) (state : SustainedAlertState T) (up : Bool) : Prop where
  started : state.breachStartedAtMs = startedAt history
  active : state.activeSeverity.isSome = up
  streak : up → state.healthyStreak = healthyFor history ∧ healthyFor history < policy.clearAfterAssessments

variable {policy} {severity : Option Severity} {nowMs : T} {state : SustainedAlertState T}

theorem transition_iff {s : Severity} :
    ((advanceAlert state severity nowMs policy).2 = some (.raised s) ↔ severity = some s ∧
      state.activeSeverity = none ∧ policy.sustainForMs ≤ nowMs - state.breachStartedAtMs.getD nowMs) ∧
    ((advanceAlert state severity nowMs policy).2 = some .cleared ↔ severity = none ∧
      state.activeSeverity.isSome ∧ policy.clearAfterAssessments ≤ state.healthyStreak + 1) := by
  unfold advanceAlert
  cases severity <;> cases state.activeSeverity <;> dsimp only <;> repeat' split
  all_goals simp_all

section Run

variable (hclear : 1 ≤ policy.clearAfterAssessments) (history : List (Option Severity × T))

include hclear

theorem tracks : Tracks policy history (stateAfter policy history) (isUp policy history) := by
  induction history with
  | nil => exact ⟨rfl, rfl, nofun⟩
  | cons a before ih =>
    obtain ⟨severity, nowMs⟩ := a
    simp only [stateAfter, isUp]
    generalize stateAfter policy before = state at ih ⊢
    generalize isUp policy before = up at ih ⊢
    obtain ⟨started, active, streak⟩ := state
    obtain ⟨rfl, rfl, hstreak⟩ := ih
    cases severity with
    | none =>
      cases active with
      | none => exact ⟨rfl, rfl, nofun⟩
      | some active =>
        obtain ⟨rfl, -⟩ := hstreak rfl
        dsimp only [advanceAlert]
        split
        · exact ⟨rfl, rfl, nofun⟩
        · rename_i hless
          exact ⟨rfl, rfl, fun _ => ⟨rfl, Nat.lt_of_not_le hless⟩⟩
    | some s =>
      -- a breach ends the streak, and the run it belongs to began with it or before
      have hrun := (startedAt_breach before s nowMs).symm
      cases active with
      | none =>
        dsimp only [advanceAlert]
        split
        · exact ⟨hrun, rfl, fun _ => ⟨rfl, hclear⟩⟩
        · exact ⟨hrun, rfl, nofun⟩
      | some active => exact ⟨hrun, by cases active <;> cases s <;> rfl, fun _ => ⟨rfl, hclear⟩⟩

/-- An alert is raised at an assessment exactly when none is up and the run of breaches it belongs
    to began long enough ago, and cleared exactly at the assessment that completes the number of
    them in a row since the last breach. -/
theorem alert_follows_history (severity : Option Severity) (nowMs : T) :
    (∀ s, (advanceAlert (stateAfter policy history) severity nowMs policy).2 = some (.raised s) ↔
      severity = some s ∧ isUp policy history = false ∧
        ∃ t, startedAt ((severity, nowMs) :: history) = some t ∧ policy.sustainForMs ≤ nowMs - t) ∧
    ((advanceAlert (stateAfter policy history) severity nowMs policy).2 = some .cleared ↔
      isUp policy history ∧ healthyFor ((severity, nowMs) :: history) = policy.clearAfterAssessments) := by
  obtain ⟨hstarted, hactive, hstreak⟩ := tracks hclear history
  rw [(transition_iff (s := .warning)).2, hactive]
  refine ⟨fun s => ?_, ?_⟩
  · rw [transition_iff.1, ← hactive, hstarted]
    refine and_congr_right fun hs => ?_
    subst hs
    simp [startedAt_breach]
  · cases severity with
    | none =>
      show _ ↔ _ ∧ healthyFor history + 1 = _
      constructor
      · rintro ⟨-, hup, hle⟩
        have := hstreak hup
        exact ⟨hup, by omega⟩
      · rintro ⟨hup, heq⟩
        have := hstreak hup
        exact ⟨rfl, hup, by omega⟩
    | some s =>
      show _ ↔ _ ∧ 0 = _
      constructor
      · rintro ⟨⟨⟩, -⟩
      · rintro ⟨-, heq⟩
        omega

end Run

def tenAndTwo : SustainedAlertPolicy Int := ⟨10, 2⟩

/-- Ten milliseconds off raise it, and two assessments in a row that are not off clear it. -/
theorem alert_follows_history_ten :
    (advanceAlert (stateAfter tenAndTwo [(some .warning, 0)]) (some .critical) 10 tenAndTwo).2 =
      some (.raised .critical) ∧
      (advanceAlert (stateAfter tenAndTwo [(none, 11), (some .critical, 10), (some .warning, 0)]) none 12 tenAndTwo).2 =
        some .cleared :=
  ⟨((alert_follows_history (by decide) _ _ _).1 _).mpr ⟨rfl, rfl, 0, rfl, by decide⟩,
    (alert_follows_history (by decide) _ _ _).2.mpr ⟨rfl, rfl⟩⟩

end EarnProof.Common.ClockSkew
