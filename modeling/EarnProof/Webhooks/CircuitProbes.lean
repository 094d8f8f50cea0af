/-
  EarnProof.Webhooks.CircuitProbes — the circuit of one endpoint
  (`src/webhooks/webhook-circuit-breaker.service.ts`) under any number of instances, each of which
  sends one delivery at a time to it and has its own clock. A send is cut at the breaker's
  statements; one that records nothing ends as by a crash. Every enqueue makes the upsert of
  `initializeCircuit`, and so does a call that finds no row.

  A send that finds the circuit HALF_OPEN goes ahead whoever else probes it, and the upsert takes
  the thresholds back to the defaults (`probed_twice_and_reset`). There is one probe at most where
  instances send one after the other while the circuit is not CLOSED, and what was set stays where
  the upsert finds the defaults (`one_probe_and_thresholds_kept`).
-/
import EarnProof.Webhooks.Deliveries

namespace EarnProof.Webhooks.CircuitProbes

open Lib

variable {α : Type}

structure CircuitConfig where
  failureThreshold : Option Nat
  recoveryWindowMs : Option Int
  deriving DecidableEq

/-- Where an instance's send is; a probe was asked for when the circuit was not CLOSED. -/
inductive Send where
  | idle
  | transitioning
  | sending (probe : Bool)
  | answered
  | failing (read : Circuit)
  deriving DecidableEq

def Send.probes : Send → Bool
  | .transitioning | .sending true => true
  | _ => false

structure World where
  circuit : Option Circuit
  sends : Nat → Send
  /-- Calls of `updateConfig` with the row they read. -/
  configs : List (CircuitConfig × Circuit)
  /-- What `updateConfig` set last. -/
  set : CircuitConfig

inductive Event where
  | initializeCircuit
  | canAttemptDelivery (p : Nat) (now : Int)
  | transitionToHalfOpen (p : Nat)
  | answer (p : Nat)
  | recordSuccess (p : Nat)
  | readFailure (p : Nat)
  | recordFailure (p : Nat) (now : Int)
  | crash (p : Nat)
  | readConfig (config : CircuitConfig)
  | updateConfig (call : CircuitConfig × Circuit)

def initialized : Option Circuit → Circuit
  | none => Circuit.initial "hook"
  | some c => { c with failureThreshold := 5, recoveryWindowMs := 300000 }

/-- The update of `recordFailure`, from the row it read. -/
def failedOnce (read : Circuit) (now : Int) (c : Circuit) : Circuit :=
  let failureCount := read.failureCount + 1
  let opens := read.state = .halfOpen ∨ read.failureThreshold ≤ failureCount ∧ read.state = .closed
  { c with
    failureCount
    state := if opens then .open else c.state
    openedAt := if opens then some now else c.openedAt }

/-- The update of `updateConfig`, from the row it read. -/
def configured (config : CircuitConfig) (read c : Circuit) : Circuit :=
  let closes := config.failureThreshold.any fun t => read.state = .open && read.failureCount < t
  { c with
    failureThreshold := config.failureThreshold.getD c.failureThreshold
    recoveryWindowMs := config.recoveryWindowMs.getD c.recoveryWindowMs
    state := if closes then .closed else c.state
    openedAt := if closes then none else c.openedAt }

def World.at (w : World) (p : Nat) (send : Send) : World := { w with sends := Function.update w.sends p send }

def step (w : World) : Event → Option World
  | .initializeCircuit => some { w with circuit := some (initialized w.circuit) }
  | .canAttemptDelivery p now =>
    match w.sends p, w.circuit with
    | .idle, some c =>
      match c.state with
      | .closed => some (w.at p (.sending false))
      | .halfOpen => some (w.at p (.sending true))
      | .open => if shouldTransitionToHalfOpen c now then some (w.at p .transitioning) else none
    | _, _ => none
  | .transitionToHalfOpen p =>
    let circuit := w.circuit.map fun c => { c with state := if c.state = .open then .halfOpen else c.state }
    if w.sends p = .transitioning then some ({ w with circuit }.at p (.sending true)) else none
  | .answer p =>
    match w.sends p with
    | .sending _ => some (w.at p .answered)
    | _ => none
  | .recordSuccess p =>
    let circuit := w.circuit.map fun c => { c with state := .closed, failureCount := 0 }
    if w.sends p = .answered then some ({ w with circuit }.at p .idle) else none
  | .readFailure p =>
    match w.sends p, w.circuit with
    | .answered, some c => some (w.at p (.failing c))
    | _, _ => none
  | .recordFailure p now =>
    match w.sends p with
    | .failing read => some ({ w with circuit := w.circuit.map (failedOnce read now) }.at p .idle)
    | _ => none
  | .crash p => some (w.at p .idle)
  | .readConfig config =>
    match w.circuit with
    | some c => some { w with configs := (config, c) :: w.configs }
    | none => none
  | .updateConfig call =>
    if call ∈ w.configs ∧ w.circuit.isSome then
      some { w with
        circuit := w.circuit.map (configured call.1 call.2)
        configs := w.configs.erase call
        set := ⟨call.1.failureThreshold.or w.set.failureThreshold, call.1.recoveryWindowMs.or w.set.recoveryWindowMs⟩ }
    else none

/-- While the circuit is not CLOSED an instance begins to send only when the others are idle, and the
    upsert finds the defaults. -/
def Undisturbed (w : World) : Event → Prop
  | .canAttemptDelivery p _ => ∀ c, w.circuit = some c → c.state ≠ .closed → ∀ q, q ≠ p → w.sends q = .idle
  | .initializeCircuit => ∀ c, w.circuit = some c → c.failureThreshold = 5 ∧ c.recoveryWindowMs = 300000
  | _ => True

/-! ## Every step -/

/-- What was set of a column is in the row. -/
def InForce (circuit : Option Circuit) (column : Circuit → α) (set : Option α) : Prop :=
  ∀ x, set = some x → ∃ c, circuit = some c ∧ column c = x

def OneProbe (sends : Nat → Send) : Prop := ∀ p q, (sends p).probes → (sends q).probes → p = q

structure Inv (w : World) : Prop where
  one : OneProbe w.sends
  threshold : InForce w.circuit Circuit.failureThreshold w.set.failureThreshold
  window : InForce w.circuit Circuit.recoveryWindowMs w.set.recoveryWindowMs

variable {w w' : World} {e : Event} {circuit circuit' : Option Circuit} {sends : Nat → Send} {p : Nat} {s : Send}
  {column : Circuit → α} {set : Option α}

theorem InForce.kept (h : InForce circuit column set)
    (hsame : ∀ c, circuit = some c → ∃ c', circuit' = some c' ∧ column c' = column c) :
    InForce circuit' column set := by
  intro x hx
  obtain ⟨c, hc, rfl⟩ := h x hx
  exact hsame c hc

variable {data : Circuit → Circuit}

theorem InForce.map (h : InForce circuit column set) (hdata : ∀ c, column (data c) = column c) :
    InForce (circuit.map data) column set :=
  h.kept fun c hc => ⟨data c, by rw [hc]; rfl, hdata c⟩

/-- A column that the update writes if it is given one. -/
theorem InForce.configured {config : Option α} (h : InForce circuit column set)
    (hsome : circuit.isSome) (hdata : ∀ c, column (data c) = config.getD (column c)) :
    InForce (circuit.map data) column (config.or set) := by
  cases config with
  | none => exact h.map hdata
  | some =>
    obtain ⟨c, rfl⟩ := Option.isSome_iff_exists.mp hsome
    exact fun y hy => ⟨data c, rfl, (hdata c).trans (Option.some.inj hy)⟩

/-- A send that is no probe now, or was one, or comes while the others are idle. -/
theorem OneProbe.update (h : OneProbe sends)
    (hs : s.probes → (sends p).probes ∨ ∀ q, q ≠ p → sends q = .idle) :
    OneProbe (Function.update sends p s) := by
  have hnew : ∀ q, q ≠ p → s.probes → (sends q).probes → False := by
    intro q hq hprobes hother
    rcases hs hprobes with hwas | hnone
    · exact hq (h q p hother hwas)
    · rw [hnone q hq] at hother
      cases hother
  intro a b ha hb
  by_contra hab
  exact forall_pairs_moved sends (fun _ _ x y => x.probes → y.probes → False)
    (fun q r hqr hq hr => hqr (h q r hq hr)) (fun q hq => ⟨hnew q hq, fun hother hprobes => hnew q hq hprobes hother⟩)
    a b hab ha hb

theorem OneProbe.ends (h : OneProbe sends) (hs : s.probes = false) : OneProbe (Function.update sends p s) :=
  h.update fun hprobes => nomatch hs.symm.trans hprobes

theorem step_inv (h : Inv w) (hok : Undisturbed w e) (hstep : step w e = some w') : Inv w' := by
  obtain ⟨hone, hthreshold, hwindow⟩ := h
  cases e with
  | initializeCircuit =>
    cases hstep
    exact ⟨hone, hthreshold.kept fun c hc => ⟨_, rfl, by rw [hc]; exact (hok c hc).1.symm⟩,
      hwindow.kept fun c hc => ⟨_, rfl, by rw [hc]; exact (hok c hc).2.symm⟩⟩
  | canAttemptDelivery p now =>
    simp only [step] at hstep
    split at hstep
    · rename_i c _ hc
      split at hstep
      · cases hstep
        exact ⟨hone.ends rfl, hthreshold, hwindow⟩
      · rename_i hstate
        cases hstep
        exact ⟨hone.update fun _ => .inr (hok c hc (by rw [hstate]; decide)), hthreshold, hwindow⟩
      · rename_i hstate
        obtain ⟨-, rfl⟩ := enabled hstep
        exact ⟨hone.update fun _ => .inr (hok c hc (by rw [hstate]; decide)), hthreshold, hwindow⟩
    · cases hstep
  | transitionToHalfOpen =>
    obtain ⟨hp, rfl⟩ := enabled hstep
    exact ⟨hone.update fun _ => .inl (by rw [hp]; rfl), hthreshold.map fun _ => rfl, hwindow.map fun _ => rfl⟩
  | recordSuccess =>
    obtain ⟨-, rfl⟩ := enabled hstep
    exact ⟨hone.ends rfl, hthreshold.map fun _ => rfl, hwindow.map fun _ => rfl⟩
  | answer | readFailure =>
    simp only [step] at hstep
    split at hstep <;> cases hstep
    exact ⟨hone.ends rfl, hthreshold, hwindow⟩
  | recordFailure =>
    simp only [step] at hstep
    split at hstep <;> cases hstep
    exact ⟨hone.ends rfl, hthreshold.map fun _ => rfl, hwindow.map fun _ => rfl⟩
  | crash =>
    cases hstep
    exact ⟨hone.ends rfl, hthreshold, hwindow⟩
  | readConfig =>
    simp only [step] at hstep
    split at hstep <;> cases hstep
    exact ⟨hone, hthreshold, hwindow⟩
  | updateConfig =>
    obtain ⟨⟨-, hsome⟩, rfl⟩ := enabled hstep
    exact ⟨hone, hthreshold.configured hsome fun _ => rfl, hwindow.configured hsome fun _ => rfl⟩

/-! ## One probe, and the configured thresholds -/

def start (circuit : Option Circuit) : World := ⟨circuit, fun _ => .idle, [], ⟨none, none⟩⟩

/-- From a state in which nothing is sent and nothing configured. -/
theorem one_probe_and_thresholds_kept (hrun : Run step Undisturbed (start circuit) w) :
    (∀ p q, (w.sends p).probes → (w.sends q).probes → p = q) ∧
    (∀ t, w.set.failureThreshold = some t → ∃ c, w.circuit = some c ∧ c.failureThreshold = t) ∧
    ∀ ms, w.set.recoveryWindowMs = some ms → ∃ c, w.circuit = some c ∧ c.recoveryWindowMs = ms := by
  have hstart : Inv (start circuit) := ⟨fun _ _ hp => (nomatch hp), (nomatch · , ·), (nomatch · , ·)⟩
  have hinv : Inv w := hrun.invariant hstart fun _ _ _ => step_inv
  exact ⟨hinv.one, hinv.threshold, hinv.window⟩

def halfOpen : Circuit := { Circuit.initial "hook" with state := .halfOpen }

/-- A threshold is set after an upsert that found the defaults; one instance probes and fails, and
    past the window the other probes alone. -/
theorem one_probe_and_thresholds_kept_in_turn : ∃ w, Run step Undisturbed (start (some halfOpen)) w ∧
    w.sends 1 = .sending true ∧ (∀ p, (w.sends p).probes → p = 1) ∧
      ∃ c, w.circuit = some c ∧ c.failureThreshold = 3 := by
  have hset : Run step Undisturbed (start (some halfOpen)) _ :=
    .snoc (.updateConfig (⟨some 3, none⟩, halfOpen)) (.snoc (.readConfig ⟨some 3, none⟩)
      (.snoc .initializeCircuit .refl (by rintro _ ⟨⟩; exact ⟨rfl, rfl⟩) rfl) trivial rfl) trivial rfl
  have hfirst : Run step Undisturbed (start (some halfOpen)) _ :=
    .snoc (.recordFailure 0 0) (.snoc (.readFailure 0) (.snoc (.answer 0)
      (.snoc (.canAttemptDelivery 0 0) hset (fun _ _ _ _ _ => rfl) rfl) trivial rfl) trivial rfl) trivial rfl
  have hrun : Run step Undisturbed (start (some halfOpen)) _ :=
    .snoc (.transitionToHalfOpen 1) (.snoc (.canAttemptDelivery 1 300000) hfirst (fun _ _ _ q _ => by
      by_cases hq : q = 0 <;> simp [World.at, hq, start]) rfl) trivial rfl
  obtain ⟨hone, hthreshold, -⟩ := one_probe_and_thresholds_kept hrun
  exact ⟨_, hrun, rfl, fun p hp => hone p 1 hp rfl, hthreshold 3 rfl⟩

/-- Two instances probe a HALF_OPEN circuit, and an enqueue resets a threshold that was set. -/
theorem probed_twice_and_reset :
    (∃ w, Run step anyStep (start (some halfOpen)) w ∧ w.circuit = some halfOpen ∧
      w.sends 0 = .sending true ∧ w.sends 1 = .sending true) ∧
    ∃ w, Run step anyStep (start (some halfOpen)) w ∧ w.set = ⟨some 3, none⟩ ∧ w.circuit = some halfOpen :=
  ⟨Run.exists_of_replay [.canAttemptDelivery 0 0, .canAttemptDelivery 1 0],
    Run.exists_of_replay [.readConfig ⟨some 3, none⟩, .updateConfig (⟨some 3, none⟩, halfOpen), .initializeCircuit]⟩

end EarnProof.Webhooks.CircuitProbes
