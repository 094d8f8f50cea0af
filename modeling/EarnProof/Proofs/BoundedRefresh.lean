/-
  EarnProof.Proofs.BoundedRefresh — live refreshes (`src/proofs/bounded-refresh.service.ts`): the
  check for one in flight, the slots and their queue, and the executions of `verifyProof`.

  A caller that times out gives its slot back while its execution runs on, and a call is in flight
  only from its start, behind the `await` for its slot: so executions exceed the slots, and two
  calls for one proof leave the queue together (`refreshes_unbounded`). Proved: they are bounded
  in every run in which no caller times out and none passes the check while another call for its
  proof has yet to start (`refreshes_bounded`).
-/
import EarnProof.Lib.Run

namespace EarnProof.Proofs.BoundedRefresh

open Lib

/-- Calls and executions by their proof. -/
structure World where
  inFlightRefreshes : List String := []
  activeRefreshCount : Int := 0
  pendingRefreshQueue : List String := []
  /-- The calls that hold a slot and have yet to start. -/
  granted : List String := []
  /-- The executions whose caller waits. -/
  verifying : List String := []
  /-- The executions whose caller has timed out. -/
  abandoned : List String := []
  deriving DecidableEq

inductive Event where
  | request (proofId : String)
  | start (proofId : String)
  /-- An execution ends, and with it the call that waits. -/
  | finish (proofId : String)
  | finishAbandoned (proofId : String)
  | timeOut (proofId : String)

/-- The end of a call, with `releaseConcurrencySlot`. -/
def World.release (w : World) (proofId : String) : World :=
  let w := { w with
    inFlightRefreshes := w.inFlightRefreshes.filter (· ≠ proofId), verifying := w.verifying.erase proofId
    activeRefreshCount := w.activeRefreshCount - 1 }
  match w.pendingRefreshQueue with
  | [] => w
  | next :: rest =>
    { w with activeRefreshCount := w.activeRefreshCount + 1, pendingRefreshQueue := rest, granted := next :: w.granted }

def step (globalMaxConcurrency : Nat) (w : World) : Event → Option World
  | .request p =>
    -- a call for a proof in flight joins it
    if p ∈ w.inFlightRefreshes then some w
    else if w.activeRefreshCount < globalMaxConcurrency then
      some { w with activeRefreshCount := w.activeRefreshCount + 1, granted := p :: w.granted }
    else some { w with pendingRefreshQueue := w.pendingRefreshQueue ++ [p] }
  | .start p =>
    if p ∈ w.granted then
      some { w with
        inFlightRefreshes := p :: w.inFlightRefreshes, granted := w.granted.erase p, verifying := p :: w.verifying }
    else none
  | .finish p => if p ∈ w.verifying then some (w.release p) else none
  | .finishAbandoned p => if p ∈ w.abandoned then some { w with abandoned := w.abandoned.erase p } else none
  | .timeOut p => if p ∈ w.verifying then some { w.release p with abandoned := p :: w.abandoned } else none

def World.running (w : World) : List String := w.verifying ++ w.abandoned

def Bounded (max : Nat) (w : World) : Prop := w.running.length ≤ max ∧ ∀ p, w.running.count p ≤ 1

/-- No caller times out, and none passes the check while another for its proof has yet to start. -/
def Orderly (w : World) : Event → Prop
  | .request p => p ∉ w.inFlightRefreshes → p ∉ w.granted ∧ p ∉ w.pendingRefreshQueue
  | .timeOut _ => False
  | _ => True

instance (w : World) (e : Event) : Decidable (Orderly w e) := by
  unfold Orderly
  split <;> infer_instance

/-- Every slot is that of one call, and no two calls are for one proof. -/
structure Inv (max : Nat) (w : World) : Prop where
  slots : w.activeRefreshCount = w.granted.length + w.verifying.length
  bound : w.activeRefreshCount ≤ max
  distinct : ∀ p, w.pendingRefreshQueue.count p + w.granted.count p + w.verifying.count p ≤ 1
  inFlight : ∀ p ∈ w.verifying, p ∈ w.inFlightRefreshes
  abandoned : w.abandoned = []

variable {max : Nat} {w w' : World} {e : Event}

theorem step_inv (h : Inv max w) (hok : Orderly w e) (hs : step max w e = some w') : Inv max w' := by
  obtain ⟨hslots, hbound, hdistinct, hinFlight, habandoned⟩ := h
  cases e with
  | request p =>
    simp only [step] at hs
    split at hs
    · cases hs
      exact ⟨hslots, hbound, hdistinct, hinFlight, habandoned⟩
    · rename_i hfree
      obtain ⟨hgranted, hqueue⟩ := hok hfree
      have hverifying : p ∉ w.verifying := fun hp => hfree (hinFlight p hp)
      split at hs
      · cases hs
        constructor <;> grind
      · cases hs
        constructor <;> grind
  | start =>
    obtain ⟨hp, rfl⟩ := enabled hs
    constructor <;> grind
  | finish p =>
    obtain ⟨hp, rfl⟩ := enabled hs
    have hgone : p ∉ w.verifying.erase p := by
      have hone := hdistinct p
      rw [← List.count_eq_zero, List.count_erase_self]
      omega
    unfold World.release
    dsimp only
    split
    · constructor <;> grind
    · constructor <;> grind
  | finishAbandoned =>
    obtain ⟨hp, rfl⟩ := enabled hs
    rw [habandoned] at hp
    cases hp
  | timeOut => exact hok.elim

theorem refreshes_bounded (hrun : Run (step max) Orderly {} w) : Bounded max w := by
  have hstart : Inv max {} := ⟨rfl, by simp, by simp, by simp, rfl⟩
  obtain ⟨hslots, hbound, hdistinct, -, habandoned⟩ := hrun.invariant hstart fun _ _ _ => step_inv
  unfold Bounded World.running
  rw [habandoned, List.append_nil]
  refine ⟨by omega, fun p => ?_⟩
  have := hdistinct p
  omega

theorem refreshes_bounded_queued : ∃ w, Run (step 1) Orderly {} w ∧ w.pendingRefreshQueue = ["b"] ∧ Bounded 1 w :=
  Run.exists_and [.request "a", .request "b", .start "a"] fun _ hrun hw => ⟨hw, refreshes_bounded hrun⟩

/-- Two executions with one slot, and two of one proof. -/
theorem refreshes_unbounded : (∃ w, Run (step 1) anyStep {} w ∧ w.running = ["b", "a"]) ∧
    ∃ w, Run (step 2) anyStep {} w ∧ w.running = ["c", "c"] := by
  refine ⟨?_, ?_⟩
  · exact Run.exists_of_replay [.request "a", .start "a", .timeOut "a", .request "b", .start "b"]
  · exact Run.exists_of_replay [.request "a", .start "a", .request "b", .start "b", .request "c", .request "c",
      .finish "a", .start "c", .finish "b", .start "c"]

end EarnProof.Proofs.BoundedRefresh
