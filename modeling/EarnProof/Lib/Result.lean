/-
  EarnProof.Lib.Result — computations that may throw: the checks they are made
  of, and what a successful run says about each check.
-/

namespace EarnProof.Lib.Result

variable {ε α β : Type}

/-- `if (!ok) throw failure`. -/
def require (ok : Prop) [Decidable ok] (failure : ε) : Except ε Unit :=
  if ok then .ok () else .error failure

/-- `value ?? throw failure`. -/
def orThrow (value : Option α) (failure : ε) : Except ε α :=
  match value with
  | some a => .ok a
  | none => .error failure

variable {failure e : ε} {a : α} {x : Except ε α} {f : α → Except ε β} {b : β}

@[simp] theorem require_eq_ok {ok : Prop} [Decidable ok] {u : Unit} : require ok failure = .ok u ↔ ok := by
  unfold require
  by_cases h : ok
  · simp [h]
  · simp [h]

@[simp] theorem orThrow_eq_ok {value : Option α} : orThrow value failure = .ok a ↔ value = some a := by
  cases value <;> simp [orThrow]

/-- Peels one step off a computation that succeeded. -/
theorem bind_eq_ok : (x >>= f) = .ok b ↔ ∃ a, x = .ok a ∧ f a = .ok b := by
  cases x with
  | error | ok => simp [bind, Except.bind]

/-- A computation that fails does so with one of these. -/
def Fails (P : ε → Prop) (x : Except ε α) : Prop := ∀ e, x = .error e → P e

namespace Fails

variable {P : ε → Prop}

theorem ok (a : α) : Fails P (.ok a) := by
  rintro e ⟨⟩

/-- It fails in its first step or after it. -/
theorem bind (hx : Fails P x) (hf : ∀ a, Fails P (f a)) : Fails P (x >>= f) := by
  cases x with
  | error e => rintro _ ⟨⟩; exact hx e rfl
  | ok a => exact hf a

theorem require {ok : Prop} [Decidable ok] (h : P failure) : Fails P (require ok failure) := by
  intro e he
  unfold Result.require at he
  split at he <;> cases he
  exact h

end Fails

theorem pure_eq_ok {a b : α} : (pure a : Except ε α) = .ok b ↔ a = b :=
  ⟨Except.ok.inj, congrArg _⟩

theorem map_eq_ok {f : α → β} : x.map f = .ok b ↔ ∃ a, x = .ok a ∧ f a = b := by
  cases x with
  | error | ok => simp [Except.map]

theorem mapError_eq_ok {ε' : Type} {f : ε → ε'} : x.mapError f = .ok a ↔ x = .ok a := by
  cases x with
  | error | ok => constructor <;> rintro ⟨⟩ <;> rfl

/-- The state after a transaction: its result, or the state before when it threw. -/
def commit (s : α) : Except ε α → α
  | .ok s' => s'
  | .error _ => s

/-- What holds before a transaction and of every state it can commit holds after it. -/
theorem commit_rule {P : α → Prop} {s : α} {r : Except ε α} (hs : P s) (hr : ∀ s', r = .ok s' → P s') :
    P (commit s r) := by
  cases r with
  | error => exact hs
  | ok s' => exact hr s' rfl

end EarnProof.Lib.Result
