/-
  EarnProof.Lib.Run — runs of a transition system whose steps may each have to meet
  a condition, and the two rules results about them are proved by: a property every
  step keeps, and a relation every step moves along.

  A `Service` is one such system: calls over one store, each made of several accesses. The
  first reads and checks, each later one may write and may leave more to do. Any number of calls
  are under way at once, so that any access of the others may fall between two of one call; one
  that stops where it is makes no further access. An access that throws ends its call and leaves
  the store.
-/

namespace EarnProof.Lib

variable {σ ε : Type}

/-- The runs of `step` from one state to another in which every step meets `ok`. -/
inductive Run (step : σ → ε → Option σ) (ok : σ → ε → Prop) (s : σ) : σ → Prop
  | refl : Run step ok s s
  | snoc {t u : σ} (e : ε) : Run step ok s t → ok t e → step t e = some u → Run step ok s u

/-- An enabled step: its guard holds, and this is where it leads. -/
theorem enabled {p : Prop} [Decidable p] {s t : σ} (h : (if p then some s else none) = some t) : p ∧ s = t := by
  split at h
  · exact ⟨‹p›, Option.some.inj h⟩
  · cases h

/-- The condition that leaves every run in. -/
def anyStep : σ → ε → Prop := fun _ _ => True

instance (s : σ) (e : ε) : Decidable (anyStep s e) := .isTrue trivial

namespace Run

variable {step : σ → ε → Option σ} {ok ok' : σ → ε → Prop} {s t u : σ}

theorem trans (h : Run step ok s t) (h' : Run step ok t u) : Run step ok s u := by
  induction h' with
  | refl => exact h
  | snoc e _ hok hstep ih => exact .snoc e ih hok hstep

theorem mono (h : Run step ok s t) (himp : ∀ a e, ok a e → ok' a e) : Run step ok' s t := by
  induction h with
  | refl => exact .refl
  | snoc e _ hok hstep ih => exact .snoc e ih (himp _ _ hok) hstep

variable {I : σ → Prop}

section

variable (h : Run step ok s t) (h0 : I s) (hstep : ∀ a e b, I a → ok a e → step a e = some b → I b)

include h h0 hstep

/-- The invariant rule: what holds at the start and is kept by every step holds at the end. -/
theorem invariant : I t := by
  induction h with
  | refl => exact h0
  | snoc e _ hok hs ih => exact hstep _ e _ ih hok hs

/-- Along an invariant, a condition may be traded for one it implies only there. -/
theorem mono_invariant (himp : ∀ a e, I a → ok a e → ok' a e) : I t ∧ Run step ok' s t := by
  induction h with
  | refl => exact ⟨h0, .refl⟩
  | snoc e _ hok hs ih => exact ⟨hstep _ e _ ih.1 hok hs, .snoc e ih.2 (himp _ e ih.1 hok) hs⟩

end

/-- The relation rule, under an invariant: a reflexive and transitive relation that every step
    moves along relates the two ends. -/
theorem related {R : σ → σ → Prop} (h : Run step ok s t) (h0 : I s)
    (hinv : ∀ a e b, I a → ok a e → step a e = some b → I b) (hrefl : ∀ a, R a a)
    (htrans : ∀ a b c, R a b → R b c → R a c) (hrel : ∀ a e b, I a → ok a e → step a e = some b → R a b) :
    R s t := by
  have both : I t ∧ R s t := by
    induction h with
    | refl => exact ⟨h0, hrefl s⟩
    | snoc e _ hok hs ih => exact ⟨hinv _ e _ ih.1 hok hs, htrans _ _ _ ih.2 (hrel _ e _ ih.1 hok hs)⟩
  exact both.2

/-- Replays a list of events; `none` as soon as one is not enabled or does not meet the condition. -/
def replay (step : σ → ε → Option σ) (ok : σ → ε → Prop) [∀ s e, Decidable (ok s e)] : σ → List ε → Option σ
  | s, [] => some s
  | s, e :: es => if ok s e then (step s e).bind fun t => replay step ok t es else none

/-- A list of events that replays is a run. -/
theorem of_replay [∀ s e, Decidable (ok s e)] :
    ∀ (es : List ε) {s t : σ}, replay step ok s es = some t → Run step ok s t := by
  intro es
  induction es with
  | nil =>
    intro s t h
    cases h
    exact .refl
  | cons e es ih =>
    intro s t h
    unfold replay at h
    split at h
    · rename_i hok
      obtain ⟨u, hu, h⟩ := Option.bind_eq_some_iff.mp h
      exact (Run.snoc e .refl hok hu).trans (ih h)
    · cases h

/-- What replaying a list of events shows of its last state is so of the end of a run; for a given
    list it is shown by evaluation. -/
theorem exists_of_replay [∀ s e, Decidable (ok s e)] {P : σ → Prop} (es : List ε)
    (h : ∃ t ∈ replay step ok s es, P t := by decide +kernel) : ∃ t, Run step ok s t ∧ P t := by
  obtain ⟨t, ht, hP⟩ := h
  exact ⟨t, of_replay es ht, hP⟩

/-- With what follows from `P` for the state reached. -/
theorem exists_and [∀ s e, Decidable (ok s e)] {P Q : σ → Prop} (es : List ε) (hQ : ∀ t, Run step ok s t → P t → Q t)
    (h : ∃ t ∈ replay step ok s es, P t := by decide +kernel) : ∃ t, Run step ok s t ∧ Q t := by
  obtain ⟨t, hrun, hP⟩ := exists_of_replay es h
  exact ⟨t, hrun, hQ t hrun hP⟩

/-- The same, with one more step at the end. -/
theorem exists_step_of_replay [∀ s e, Decidable (ok s e)] {P : σ → σ → Prop} (es : List ε) (e : ε)
    (h : ∃ t ∈ replay step ok s es, ∃ u ∈ step t e, P t u := by decide +kernel) :
    ∃ t u, Run step ok s t ∧ step t e = some u ∧ P t u := by
  obtain ⟨t, ht, u, hu, hP⟩ := h
  exact ⟨t, u, of_replay es ht, hu, hP⟩

/-- The same, with a second list. -/
theorem exists_both_of_replay [∀ s e, Decidable (ok s e)] {P : σ → σ → Prop} (es es' : List ε)
    (h : ∃ t ∈ replay step ok s es, ∃ u ∈ replay step ok t es', P t u := by decide +kernel) :
    ∃ t u, Run step ok s t ∧ Run step ok t u ∧ P t u := by
  obtain ⟨t, ht, u, hu, hP⟩ := h
  exact ⟨t, u, of_replay es ht, of_replay es' hu, hP⟩

end Run

variable {ρ τ α : Type}

/-- `σ` is the store, `ρ` a request, `τ` what is left of a call between two accesses and `α` what an
    access is given from outside. -/
structure Service (σ ρ τ α : Type) where
  read : α → ρ → σ → Except String τ
  write : α → τ → σ → Except String (σ × Option τ)

namespace Service

/-- The store, and the calls under way. -/
structure State (σ τ : Type) where
  store : σ
  calls : List τ

inductive Event (ρ τ α : Type) where
  | read (q : ρ) (a : α)
  | write (t : τ) (a : α)

def step [DecidableEq τ] (S : Service σ ρ τ α) (w : State σ τ) : Event ρ τ α → Option (State σ τ)
  | .read q a =>
    match S.read a q w.store with
    | .ok t => some { w with calls := t :: w.calls }
    | .error _ => none
  | .write t a =>
    if t ∈ w.calls then
      match S.write a t w.store with
      | .ok (store, next) => some ⟨store, next.toList ++ w.calls.erase t⟩
      | .error _ => some { w with calls := w.calls.erase t }
    else none

/-- A condition on the writes. -/
def When (ok : α → τ → σ → Prop) (w : State σ τ) : Event ρ τ α → Prop
  | .read _ _ => True
  | .write t a => ok a t w.store

instance (ok : α → τ → σ → Prop) [∀ a t s, Decidable (ok a t s)] (w : State σ τ) (e : Event ρ τ α) :
    Decidable (When ok w e) := by
  cases e <;> unfold When <;> infer_instance

variable [DecidableEq τ] {S : Service σ ρ τ α} {ok : State σ τ → Event ρ τ α → Prop} {I : σ → Prop} {J : τ → σ → Prop}
  {w w' : State σ τ} {e : Event ρ τ α}

/-- A step leaves the store, with no new call but one that has read it, or is a write. -/
theorem step_cases (h : S.step w e = some w') :
    (w'.store = w.store ∧ ∀ u ∈ w'.calls, u ∈ w.calls ∨ ∃ a q, S.read a q w.store = .ok u) ∨
      ∃ t a next, e = .write t a ∧ t ∈ w.calls ∧ S.write a t w.store = .ok (w'.store, next) ∧
        ∀ u ∈ w'.calls, u ∈ w.calls ∨ u ∈ next := by
  cases e with
  | read q a =>
    simp only [step] at h
    split at h
    · rename_i t hread
      cases h
      refine .inl ⟨rfl, fun u hu => ?_⟩
      rcases List.mem_cons.mp hu with rfl | hu
      · exact .inr ⟨a, q, hread⟩
      · exact .inl hu
    · cases h
  | write t a =>
    simp only [step] at h
    split at h
    · rename_i ht
      split at h
      · rename_i store next hwrite
        cases h
        refine .inr ⟨t, a, next, rfl, ht, hwrite, fun u hu => ?_⟩
        rw [List.mem_append, Option.mem_toList] at hu
        exact hu.symm.imp_left List.mem_of_mem_erase
      · cases h
        exact .inl ⟨rfl, fun u hu => .inl (List.mem_of_mem_erase hu)⟩
    · cases h

/-- `I` holds of the store and `J` of each call under way, along every run: a read establishes `J`
    of its call, and a write that meets the condition keeps both. -/
theorem invariant (h : Run S.step ok w w') (hI : I w.store) (hJ : ∀ t ∈ w.calls, J t w.store)
    (hread : ∀ {a q s t}, I s → S.read a q s = .ok t → J t s)
    (hwrite : ∀ {w a t s' next}, I w.store → J t w.store → ok w (.write t a) → S.write a t w.store = .ok (s', next) →
      I s' ∧ (∀ u, J u w.store → J u s') ∧ ∀ u ∈ next, J u s') :
    I w'.store ∧ ∀ t ∈ w'.calls, J t w'.store := by
  refine h.invariant (I := fun w => I w.store ∧ ∀ t ∈ w.calls, J t w.store) ⟨hI, hJ⟩ fun w e w' hi hok hstep => ?_
  rcases step_cases hstep with ⟨hsame, hcalls⟩ | ⟨t, a, next, rfl, ht, hstore, hcalls⟩
  · rw [hsame]
    refine ⟨hi.1, fun u hu => ?_⟩
    rcases hcalls u hu with hu | ⟨a, q, hu⟩
    · exact hi.2 u hu
    · exact hread hi.1 hu
  · obtain ⟨hstored, hothers, hown⟩ := hwrite hi.1 (hi.2 t ht) hok hstore
    refine ⟨hstored, fun u hu => ?_⟩
    rcases hcalls u hu with hu | hu
    · exact hothers u (hi.2 u hu)
    · exact hown u hu

end Service

end EarnProof.Lib
