/-
  EarnProof.Common.CircuitBreaker — the probe slots of a circuit breaker
  (`src/common/resilience/circuit-breaker.ts`), and what late results do to it, under any
  interleaving of calls and any clock.

  A completion gives a slot back by the state it meets, whichever call took the slot, and a call
  that ends in the refusal of a nested breaker gives none back: a call admitted before the circuit
  opened frees the slot of a running probe, and the slot of a refused probe is lost
  (`slots_miscounted`). Where the completions recorded while half open are those of the calls
  admitted in that period, no slot is lost and none given out twice (`slots_counted`).

  Nor does it matter to a completion what state its call was admitted in: a call of the closed
  circuit may close or reopen a half-open one and put off the end of an open period
  (`late_results_steer`), and `late_unsteered_iff` says when it does not.

  `period` and `calls` are ghost state: the half-open periods so far and, for each call that runs,
  the period it was admitted in, if any.
-/
import EarnProof.Lib.Run
import Mathlib.Data.List.Basic

namespace EarnProof.Common.Resilience

open Lib

inductive CircuitState where
  | closed | opened | halfOpen
  deriving DecidableEq

inductive CallOutcome where
  | success | trip | ignore
  deriving DecidableEq

structure CircuitBreakerOptions where
  failureThreshold : Nat := 5
  openDurationMs : Int := 30000
  halfOpenMaxProbes : Nat := 1
  successThreshold : Nat := 2

structure CircuitBreaker where
  state : CircuitState := .closed
  consecutiveFailures : Nat := 0
  probeSuccesses : Nat := 0
  probesInFlight : Nat := 0
  openCount : Nat := 0
  openUntil : Int := 0
  deriving DecidableEq

section

variable (o : CircuitBreakerOptions) (now : Int) (b : CircuitBreaker)

def isDue : Prop := b.state = .opened ∧ b.openUntil ≤ now
  deriving Decidable

def refresh : CircuitBreaker :=
  if isDue now b then { b with state := .halfOpen, probeSuccesses := 0, probesInFlight := 0 } else b

/-- `admit` after its `refresh`: whether the call goes ahead. -/
def admission : CircuitBreaker × Bool :=
  match b.state with
  | .closed => (b, true)
  | .opened => (b, false)
  | .halfOpen =>
    -- `tryAcquireProbe`
    if o.halfOpenMaxProbes ≤ b.probesInFlight then (b, false)
    else ({ b with probesInFlight := b.probesInFlight + 1 }, true)

def reopen : CircuitBreaker :=
  { b with
    state := .opened, openUntil := now + o.openDurationMs, openCount := b.openCount + 1, probeSuccesses := 0
    probesInFlight := 0 }

/-- `close`, and `reset`. -/
def close : CircuitBreaker := { openCount := b.openCount }

def onSuccess : CircuitBreaker :=
  if b.state = .halfOpen then
    let b := { b with probeSuccesses := b.probeSuccesses + 1 }
    if o.successThreshold ≤ b.probeSuccesses then close b else b
  else { b with consecutiveFailures := 0 }

def onTrip : CircuitBreaker :=
  if b.state = .halfOpen then reopen o now b
  else
    let b := { b with consecutiveFailures := b.consecutiveFailures + 1 }
    if o.failureThreshold ≤ b.consecutiveFailures then reopen o now b else b

def record (outcome : CallOutcome) : CircuitBreaker :=
  let b := if b.state = .halfOpen then { b with probesInFlight := b.probesInFlight - 1 } else b
  match outcome with
  | .success => onSuccess o b
  | .trip => onTrip o now b
  | .ignore => b

end

/-! ## The system -/

structure World where
  breaker : CircuitBreaker := {}
  period : Nat := 0
  calls : List (Option Nat) := []

inductive Event where
  | run (now : Int)
  /-- A call ends: as classified, or with `none` in the refusal of a nested breaker. -/
  | finish (call : Option Nat) (outcome : Option CallOutcome) (now : Int)
  | snapshot (now : Int)
  | reset

def World.refresh (w : World) (now : Int) : World :=
  { w with
    breaker := Resilience.refresh now w.breaker
    period := if isDue now w.breaker then w.period + 1 else w.period }

section

variable (o : CircuitBreakerOptions) (w : World)

def World.admission : World :=
  let call := if w.breaker.state = .halfOpen then some w.period else none
  { w with
    breaker := (Resilience.admission o w.breaker).1
    calls := if (Resilience.admission o w.breaker).2 then call :: w.calls else w.calls }

def step : Event → Option World
  | .run now => some ((w.refresh now).admission o)
  | .finish call outcome now =>
    if call ∈ w.calls then
      some { w with breaker := outcome.elim w.breaker (record o now w.breaker), calls := w.calls.erase call }
    else none
  | .snapshot now => some (w.refresh now)
  | .reset => some { w with breaker := close w.breaker }

/-- What is recorded while half open is the completion of a call admitted in this period. -/
def Matched (w : World) : Event → Prop
  | .finish call outcome _ => w.breaker.state = .halfOpen → (outcome ≠ none ↔ call = some w.period)
  | _ => True

instance (e : Event) : Decidable (Matched w e) := by
  cases e <;> unfold Matched <;> infer_instance

structure Inv : Prop where
  counted : w.breaker.state = .halfOpen → w.breaker.probesInFlight = w.calls.count (some w.period)
  bounded : w.breaker.state = .halfOpen → w.breaker.probesInFlight ≤ o.halfOpenMaxProbes
  past : ∀ n, some n ∈ w.calls → n ≤ w.period

end

variable {o : CircuitBreakerOptions} {w w' : World} {e : Event}

theorem record_halfOpen {now : Int} {b : CircuitBreaker} {outcome : CallOutcome}
    (h : (record o now b outcome).state = .halfOpen) :
    b.state = .halfOpen ∧ (record o now b outcome).probesInFlight = b.probesInFlight - 1 := by
  by_cases hb : b.state = .halfOpen
  · refine ⟨hb, ?_⟩
    cases outcome with
    | success =>
      simp only [record, onSuccess, hb, if_true] at h ⊢
      split at h
      · cases h
      · rename_i hfew
        rw [if_neg hfew]
    | trip => simp [record, onTrip, reopen, hb] at h
    | ignore => simp [record, hb]
  · cases outcome with
    | success => simp [record, onSuccess, hb] at h
    | trip =>
      simp only [record, onTrip, hb, if_false] at h
      split at h
      · cases h
      · exact absurd h hb
    | ignore => simp [record, hb] at h

theorem refresh_inv (h : Inv o w) (now : Int) : Inv o (w.refresh now) := by
  by_cases hdue : isDue now w.breaker
  · -- no call that runs was admitted in the period that begins
    have hnew : w.calls.count (some (w.period + 1)) = 0 := by
      refine List.count_eq_zero.mpr fun hmem => ?_
      have := h.past _ hmem
      omega
    refine ⟨fun _ => ?_, fun _ => ?_, fun n hn => ?_⟩
    · simp [World.refresh, refresh, hdue, hnew]
    · simp [World.refresh, refresh, hdue]
    · have := h.past n hn
      simp only [World.refresh, if_pos hdue]
      omega
  · simp only [World.refresh, refresh, if_neg hdue]
    exact h

theorem admission_inv (h : Inv o w) : Inv o (w.admission o) := by
  obtain ⟨hcounted, hbounded, hpast⟩ := h
  unfold World.admission admission
  cases hstate : w.breaker.state with
  | closed | opened => exact ⟨by simp [hstate], by simp [hstate], by simpa [hstate] using hpast⟩
  | halfOpen =>
    by_cases hfull : o.halfOpenMaxProbes ≤ w.breaker.probesInFlight
    · simp only [if_pos hfull]
      exact ⟨hcounted, hbounded, hpast⟩
    · simp only [if_neg hfull, if_true]
      refine ⟨fun _ => ?_, fun _ => by show _ + 1 ≤ _; omega, ?_⟩
      · simp [hcounted hstate]
      · simpa using hpast

theorem finish_inv {call : Option Nat} {outcome : Option CallOutcome} {now : Int} (h : Inv o w)
    (hok : Matched w (.finish call outcome now)) (hcall : call ∈ w.calls) :
    Inv o { w with breaker := outcome.elim w.breaker (record o now w.breaker), calls := w.calls.erase call } := by
  have hpast : ∀ n, some n ∈ w.calls.erase call → n ≤ w.period := fun n hn => h.past n (List.mem_of_mem_erase hn)
  cases outcome with
  | none =>
    refine ⟨fun hstate => ?_, h.bounded, hpast⟩
    have hother : call ≠ some w.period := fun heq => ((hok hstate).mpr heq) rfl
    exact (h.counted hstate).trans (List.count_erase_of_ne hother.symm).symm
  | some outcome =>
    refine ⟨fun hstate => ?_, fun hstate => ?_, hpast⟩
    · obtain ⟨hbefore, hprobes⟩ := record_halfOpen hstate
      obtain rfl := (hok hbefore).mp (by simp)
      show (record o now w.breaker outcome).probesInFlight = _
      rw [hprobes, h.counted hbefore, List.count_erase_self]
    · obtain ⟨hbefore, hprobes⟩ := record_halfOpen hstate
      have := h.bounded hbefore
      show (record o now w.breaker outcome).probesInFlight ≤ _
      omega

theorem step_inv (h : Inv o w) (hok : Matched w e) (hstep : step o w e = some w') : Inv o w' := by
  cases e with
  | run now =>
    cases hstep
    exact admission_inv (refresh_inv h now)
  | finish =>
    obtain ⟨hcall, rfl⟩ := enabled hstep
    exact finish_inv h hok hcall
  | snapshot now =>
    cases hstep
    exact refresh_inv h now
  | reset =>
    cases hstep
    exact ⟨nofun, nofun, h.past⟩

/-- In every run in which what is recorded while half open are completions of the calls admitted in
    that period, `probesInFlight` counts those that have not finished, and they keep to the bound. -/
theorem slots_counted (h : Run (step o) Matched {} w) (hstate : w.breaker.state = .halfOpen) :
    w.breaker.probesInFlight = w.calls.count (some w.period) ∧ w.calls.count (some w.period) ≤ o.halfOpenMaxProbes := by
  have hi : Inv o w := h.invariant ⟨nofun, nofun, nofun⟩ fun _ _ _ => step_inv
  exact ⟨hi.counted hstate, hi.counted hstate ▸ hi.bounded hstate⟩

/-- The circuit opens at its first failure, for no time. -/
def quick : CircuitBreakerOptions := { failureThreshold := 1, openDurationMs := 0 }

theorem slots_counted_probing : ∃ w, Run (step quick) Matched {} w ∧ w.breaker.state = .halfOpen ∧
    w.breaker.probesInFlight = 1 ∧ w.breaker.probesInFlight = w.calls.count (some w.period) :=
  Run.exists_and (P := fun w => w.breaker.state = .halfOpen ∧ w.breaker.probesInFlight = 1)
    [.run 0, .finish none (some .trip) 0, .run 0] fun _ hrun hw => ⟨hw.1, hw.2, (slots_counted hrun hw.1).1⟩

/-- A call of the closed circuit ends beside a probe, and another probe is admitted; and a probe that
    a nested breaker refuses leaves its slot taken. -/
theorem slots_miscounted :
    (∃ w, Run (step quick) anyStep {} w ∧ w.breaker.state = .halfOpen ∧ w.calls.count (some w.period) = 2) ∧
    ∃ w, Run (step quick) anyStep {} w ∧ w.breaker.state = .halfOpen ∧ w.calls = [] ∧ w.breaker.probesInFlight = 1 := by
  constructor
  · exact Run.exists_of_replay
      [.run 0, .run 0, .finish none (some .trip) 0, .run 0, .finish none (some .ignore) 0, .run 0]
  · exact Run.exists_of_replay [.run 0, .finish none (some .trip) 0, .run 0, .finish (some 1) none 0]

/-! ## Late results -/

/-- The same system with other ghosts: a period begins with every change of state, and each call
    carries the one it was admitted in. -/
def timed (o : CircuitBreakerOptions) (w : World) (e : Event) : Option World :=
  (step o w e).map fun w' =>
    let period := if w'.breaker.state = w.breaker.state then w.period else w.period + 1
    { w' with period, calls := if w.calls.length < w'.calls.length then some period :: w.calls else w'.calls }

/-- The circuit is closed or opened, or the end of an open period put off. -/
def Steers (b b' : CircuitBreaker) : Prop := b'.state ≠ b.state ∨ b.state = .opened ∧ b.openUntil < b'.openUntil

/-- The outcomes a breaker records without that. -/
def Idle (o : CircuitBreakerOptions) (now : Int) (b : CircuitBreaker) : CallOutcome → Prop
  | .ignore => True
  | .success => b.state = .halfOpen → b.probeSuccesses + 1 < o.successThreshold
  | .trip => b.state ≠ .halfOpen ∧
      (b.consecutiveFailures + 1 < o.failureThreshold ∨ b.state = .opened ∧ now + o.openDurationMs ≤ b.openUntil)

theorem record_idle_iff {now : Int} {b : CircuitBreaker} {outcome : CallOutcome} :
    ¬ Steers b (record o now b outcome) ↔ Idle o now b outcome := by
  by_cases hb : b.state = .halfOpen
  · cases outcome with
    | ignore => simp [record, Steers, Idle, hb]
    | trip => simp [record, onTrip, reopen, Steers, Idle, hb]
    | success =>
      by_cases hmany : o.successThreshold ≤ b.probeSuccesses + 1
      · simp [record, onSuccess, close, Steers, Idle, hb, hmany]
      · simp [record, onSuccess, Steers, Idle, hb, hmany, Nat.lt_of_not_le hmany]
  · cases outcome with
    | ignore => simp [record, Steers, Idle, hb]
    | success => simp [record, onSuccess, Steers, Idle, hb]
    | trip =>
      by_cases hmany : o.failureThreshold ≤ b.consecutiveFailures + 1
      · have hfew : ¬ b.consecutiveFailures + 1 < o.failureThreshold := by omega
        by_cases hopen : b.state = .opened
        · simp [record, onTrip, reopen, Steers, Idle, hmany, hfew, hopen]
        · simp [record, onTrip, reopen, Steers, Idle, hb, hmany, hfew, hopen, Ne.symm hopen]
      · simp [record, onTrip, Steers, Idle, hb, hmany, Nat.lt_of_not_le hmany]

theorem finish_unsteered_iff {call : Option Nat} {outcome : Option CallOutcome} {now : Int}
    (h : timed o w (.finish call outcome now) = some w') :
    (call ≠ some w.period → ¬ Steers w.breaker w'.breaker) ↔
      (call ≠ some w.period → ∀ result ∈ outcome, Idle o now w.breaker result) := by
  obtain ⟨u, hstep, rfl⟩ := Option.map_eq_some_iff.mp h
  obtain ⟨-, rfl⟩ := enabled hstep
  refine imp_congr_right fun _ => ?_
  cases outcome with
  | none => simp [Steers]
  | some => simpa using record_idle_iff

/-- What a call of an earlier period ends with is idle. -/
def LateIdle (o : CircuitBreakerOptions) (w : World) : Event → Prop
  | .finish call outcome now => call ≠ some w.period → ∀ result ∈ outcome, Idle o now w.breaker result
  | _ => True

/-- A call of an earlier period that ends steers nothing. -/
def LateUnsteered (o : CircuitBreakerOptions) (w : World) : Event → Prop
  | .finish call outcome now => call ≠ some w.period →
      ∀ w', timed o w (.finish call outcome now) = some w' → ¬ Steers w.breaker w'.breaker
  | _ => True

/-- In every state, the result of a call of an earlier period steers nothing exactly when it is idle
    there, or the refusal of a nested breaker; and in a run in which every such result is idle none of
    them steers. -/
theorem late_unsteered_iff (o : CircuitBreakerOptions) :
    (∀ w w' call outcome now, timed o w (.finish call outcome now) = some w' →
      ((call ≠ some w.period → ¬ Steers w.breaker w'.breaker) ↔
        (call ≠ some w.period → ∀ result ∈ outcome, Idle o now w.breaker result))) ∧
    ∀ w w', Run (timed o) (LateIdle o) w w' → Run (timed o) (LateUnsteered o) w w' := by
  refine ⟨fun _ _ _ _ _ => finish_unsteered_iff, fun _ _ hrun => hrun.mono fun w e hidle => ?_⟩
  cases e with
  | finish => exact fun hlate w' h => (finish_unsteered_iff h).mpr hidle hlate
  | _ => trivial

theorem late_unsteered_iff_probing : ∃ w w', Run (timed quick) anyStep {} w ∧
    timed quick w (.finish (some 0) (some .success) 0) = some w' ∧ w.period = 2 ∧ ¬ Steers w.breaker w'.breaker := by
  obtain ⟨w, w', hrun, hstep, hperiod, hnone⟩ : ∃ w w', Run (timed quick) anyStep {} w ∧
      timed quick w (.finish (some 0) (some .success) 0) = some w' ∧ w.period = 2 ∧ w.breaker.probeSuccesses = 0 :=
    Run.exists_step_of_replay [.run 0, .run 0, .finish (some 0) (some .trip) 0, .snapshot 0] _
  refine ⟨w, w', hrun, hstep, hperiod, ((late_unsteered_iff quick).1 _ _ _ _ _ hstep).mpr (fun _ => ?_)
    (by simp [hperiod])⟩
  simp [Idle, hnone, quick]

/-- The circuit closes at the first success of a probe as well. -/
def hasty : CircuitBreakerOptions := { quick with successThreshold := 1 }

/-- Two calls of the closed circuit: the first opens it, and the second closes it from half open,
    opens it again, or puts off the end of the open period. -/
theorem late_results_steer :
    (∃ w, Run (timed hasty) anyStep {} w ∧ w.period = 2 ∧ w.breaker.state = .halfOpen ∧
      (timed hasty w (.finish (some 0) (some .success) 0)).map (·.breaker.state) = some .closed ∧
      (timed hasty w (.finish (some 0) (some .trip) 0)).map (·.breaker.state) = some .opened) ∧
    ∃ w, Run (timed hasty) anyStep {} w ∧ w.period = 1 ∧ w.breaker.state = .opened ∧ w.breaker.openUntil = 0 ∧
      (timed hasty w (.finish (some 0) (some .trip) 1)).map (·.breaker.openUntil) = some 1 := by
  constructor
  · exact Run.exists_of_replay [.run 0, .run 0, .finish (some 0) (some .trip) 0, .snapshot 0]
  · exact Run.exists_of_replay [.run 0, .run 0, .finish (some 0) (some .trip) 0]

end EarnProof.Common.Resilience
