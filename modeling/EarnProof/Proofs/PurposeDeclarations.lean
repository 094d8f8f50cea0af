/-
  EarnProof.Proofs.PurposeDeclarations — `approvePurposeDeclaration` and `revokePurposeDeclaration`
  of `src/proofs/purpose-declarations.service.ts`, in any interleaving.

  The update writes the revision that was read, plus one, by the id alone. An approval that has read
  the declaration before its revocation overwrites it, and both succeed from one revision
  (`revocation_overwritten`). Where a call finds no request of its fingerprint on record and updates
  the revision it has read, at most one does (`transitions_serial`).

  `succeeded` is ghost state: the declaration and the revision read by each call that succeeds.
-/
import EarnProof.Lib.Run
import EarnProof.Lib.Result
import EarnProof.Lib.Table
import EarnProof.Common.Crypto

namespace EarnProof.Proofs.PurposeDeclarations

open Lib Lib.Result

inductive ApprovalState where
  | pending | approved | revoked | expired
  deriving DecidableEq

def ApprovalState.text : ApprovalState → String
  | .pending => "PENDING"
  | .approved => "APPROVED"
  | .revoked => "REVOKED"
  | .expired => "EXPIRED"

structure PurposeDeclaration where
  id : String
  organizationId : String
  approvalState : ApprovalState
  approvedAt : Option Int
  approvedById : Option String
  revokedAt : Option Int
  revokedById : Option String
  revision : Nat
  deriving DecidableEq

/-- The two methods, and the events they record. -/
inductive Action where
  | approve | revoke
  deriving DecidableEq

structure Request where
  action : Action
  organizationId : String
  actorId : String
  declarationId : String
  reason : Option String
  deriving DecidableEq

structure DeclarationAuditEntry extends Request where
  previousState : ApprovalState
  newState : ApprovalState
  requestFingerprint : String

/-- The declarations, of which an id has one, and the audit entries. -/
structure Store where
  declarations : String → Option PurposeDeclaration
  entries : List DeclarationAuditEntry
  succeeded : List (String × Nat)

inductive Stage where
  | lookup | update | audit
  deriving DecidableEq

/-- What is left of a call, with what it has read of the declaration. -/
structure Call extends Request where
  revision : Nat
  previousState : ApprovalState
  stage : Stage
  deriving DecidableEq

def Action.newState : Action → ApprovalState
  | .approve => .approved
  | .revoke => .revoked

/-- `hashApprovalRequest` and `hashRevocationRequest`. -/
def requestFingerprint (q : Request) : String :=
  let (actor, event) := match q.action with
    | .approve => ("approverId", "APPROVED")
    | .revoke => ("revokerId", "REVOKED")
  Common.Crypto.sha256Tagged
    (Json.stringify (.obj ([("declarationId", .str q.declarationId), (actor, .str q.actorId)] ++
    (q.reason.toList.map fun reason => ("reason", .str reason)) ++ [("event", .str event)])))

def check (q : Request) (d : PurposeDeclaration) : Except String Unit := do
  require (d.organizationId = q.organizationId) "Declaration does not belong to this organization"
  match q.action with
  | .approve =>
    require (d.approvalState = .pending) ("Cannot approve declaration in " ++ d.approvalState.text ++ " state")
  | .revoke =>
    require (d.approvalState ≠ .revoked) "Declaration is already revoked"
    require (d.approvalState ≠ .expired) "Cannot revoke an expired declaration"

def Call.data (t : Call) (now : Int) (d : PurposeDeclaration) : PurposeDeclaration :=
  let d := { d with approvalState := t.action.newState, revision := t.revision + 1 }
  match t.action with
  | .approve => { d with approvedAt := some now, approvedById := some t.actorId }
  | .revoke => { d with revokedAt := some now, revokedById := some t.actorId }

def Store.onRecord (s : Store) (q : Request) : Bool :=
  s.entries.any fun e =>
    e.declarationId = q.declarationId && e.action = q.action && e.requestFingerprint = requestFingerprint q

def Store.succeed (s : Store) (t : Call) : Store := { s with succeeded := (t.declarationId, t.revision) :: s.succeeded }

def Store.set (s : Store) (t : Call) (d : PurposeDeclaration) : Store :=
  { s with declarations := Function.update s.declarations t.declarationId (some d) }

def write (now : Int) (t : Call) (s : Store) : Except String (Store × Option Call) :=
  match t.stage with
  | .lookup => .ok (if s.onRecord t.toRequest then (s.succeed t, none) else (s, some { t with stage := .update }))
  | .update => do
    let d ← orThrow (s.declarations t.declarationId) "Record to update not found"
    return ((s.set t (t.data now d)).succeed t, some { t with stage := .audit })
  | .audit =>
    let entry := ⟨t.toRequest, t.previousState, t.action.newState, requestFingerprint t.toRequest⟩
    .ok ({ s with entries := s.entries ++ [entry] }, none)

def service : Service Store Request Call Int where
  read _ q s := do
    let d ← orThrow (s.declarations q.declarationId) "Declaration not found"
    check q d
    return ⟨q, d.revision, d.approvalState, .lookup⟩
  write

/-! ## Serial transitions -/

/-- A lookup finds no earlier request, and an update the revision that was read. -/
def Current (_ : Int) (t : Call) (s : Store) : Prop :=
  match t.stage with
  | .lookup => s.onRecord t.toRequest = false
  | .update => ∀ d ∈ s.declarations t.declarationId, d.revision = t.revision
  | .audit => True

instance (now : Int) (t : Call) (s : Store) : Decidable (Current now t s) := by
  unfold Current
  split <;> infer_instance

structure Inv (s : Store) : Prop where
  past : ∀ x ∈ s.succeeded, ∀ d ∈ s.declarations x.1, x.2 < d.revision
  once : s.succeeded.Nodup

/-- A declaration at the revision a call has read passes its check. -/
def Knows (t : Call) (s : Store) : Prop :=
  ∀ d ∈ s.declarations t.declarationId, t.revision ≤ d.revision ∧
    (d.revision = t.revision → check t.toRequest d = .ok ())

/-- A declaration is left as it is or, while it is not revoked, moved on by one revision. -/
def Moves (s s' : Store) : Prop :=
  ∀ id, ∀ d ∈ s.declarations id, ∃ d' ∈ s'.declarations id, d' = d ∨ d'.revision = d.revision + 1 ∧
    d.approvalState ≠ .revoked

variable {s s' : Store} {now : Int} {t u : Call} {next : Option Call} {d : PurposeDeclaration} {q : Request}

theorem Moves.refl (s : Store) : Moves s s := fun _ d hd => ⟨d, hd, .inl rfl⟩

theorem data_revision (t : Call) (now : Int) (d : PurposeDeclaration) : (t.data now d).revision = t.revision + 1 := by
  unfold Call.data
  cases t.action <;> rfl

theorem not_revoked_of_check (h : check q d = .ok ()) : d.approvalState ≠ .revoked := by
  obtain ⟨-, -, h⟩ := bind_eq_ok.mp h
  cases hq : q.action with
  | approve =>
    rw [hq] at h
    simp [require_eq_ok.mp h]
  | revoke =>
    rw [hq] at h
    obtain ⟨_, hrevoked, -⟩ := bind_eq_ok.mp h
    exact require_eq_ok.mp hrevoked

/-- The update of the revision that was read, for the declaration and for the calls under way. -/
theorem update_spec (hi : Inv s) (hj : Knows t s) (hd : s.declarations t.declarationId = some d)
    (hrevision : d.revision = t.revision) : let s' := (s.set t (t.data now d)).succeed t
    Inv s' ∧ Moves s s' ∧ ∀ u, Knows u s → Knows u s' := by
  have hnew := data_revision t now d
  refine ⟨⟨fun x hx d' hd' => ?_, List.nodup_cons.mpr ⟨fun hmem => ?_, hi.once⟩⟩, fun id x hx => ?_,
    fun u hu x hx => ?_⟩
  · rcases update_eq_some hd' with ⟨hid, h⟩ | ⟨hid, h⟩ <;> rcases List.mem_cons.mp hx with rfl | hx
    · cases h
      omega
    · cases h
      have := hi.past x hx d (hid ▸ hd)
      omega
    · exact absurd rfl hid
    · exact hi.past x hx d' h
  · have := hi.past _ hmem d hd
    omega
  · by_cases hid : id = t.declarationId
    · subst hid
      obtain rfl := Option.some.inj (hd.symm.trans hx)
      exact ⟨_, Function.update_self .., .inr ⟨by omega, not_revoked_of_check ((hj d hd).2 hrevision)⟩⟩
    · exact ⟨x, (Function.update_of_ne hid ..).trans hx, .inl rfl⟩
  · rcases update_eq_some hx with ⟨hid, h⟩ | ⟨-, h⟩
    · cases h
      have := (hu d (hid ▸ hd)).1
      exact ⟨by omega, fun hsame => by omega⟩
    · exact hu x h

theorem write_spec (hi : Inv s) (hj : Knows t s) (hok : Current now t s) (h : write now t s = .ok (s', next)) :
    Inv s' ∧ Moves s s' ∧ (∀ u, Knows u s → Knows u s') ∧ ∀ u ∈ next, Knows u s' := by
  unfold write at h
  unfold Current at hok
  split at h <;> rename_i hstage <;> rw [hstage] at hok
  · rw [if_neg (by simp [hok])] at h
    cases h
    exact ⟨hi, .refl s, fun _ hu => hu, fun u hu => Option.some.inj hu ▸ hj⟩
  · obtain ⟨d, hd, h⟩ := bind_eq_ok.mp h
    cases h
    have hd := orThrow_eq_ok.mp hd
    obtain ⟨hi', hmoves, hknows⟩ := update_spec hi hj hd (hok d hd)
    exact ⟨hi', hmoves, hknows, fun u hu => Option.some.inj hu ▸ hknows t hj⟩
  · cases h
    exact ⟨⟨hi.past, hi.once⟩, .refl s, fun _ hu => hu, nofun⟩

/-- In every run in which a lookup finds no earlier request and an update the revision that was read,
    of all calls that read one revision of a declaration at most one succeeds, and every step leaves
    a declaration or, while it is not revoked, moves it on by one revision. -/
theorem transitions_serial {declarations : String → Option PurposeDeclaration} {entries : List DeclarationAuditEntry}
    {w : Service.State Store Call} (h : Run service.step (Service.When Current) ⟨⟨declarations, entries, []⟩, []⟩ w) :
    w.store.succeeded.Nodup ∧ ∀ e w', Service.When Current w e → service.step w e = some w' →
      Moves w.store w'.store := by
  obtain ⟨hi, hj⟩ : Inv w.store ∧ ∀ t ∈ w.calls, Knows t w.store := by
    refine Service.invariant h ⟨nofun, List.nodup_nil⟩ nofun (fun _ hread => ?_) fun hi hj hok hwrite => ?_
    · obtain ⟨d, hd, hread⟩ := bind_eq_ok.mp hread
      obtain ⟨_, hcheck, hread⟩ := bind_eq_ok.mp hread
      cases hread
      intro d' hd'
      obtain rfl := Option.some.inj ((orThrow_eq_ok.mp hd).symm.trans hd')
      exact ⟨le_refl _, fun _ => hcheck⟩
    · obtain ⟨hi', -, hothers, hown⟩ := write_spec hi hj hok hwrite
      exact ⟨hi', hothers, hown⟩
  refine ⟨hi.once, fun e w' hok hstep => ?_⟩
  rcases Service.step_cases hstep with ⟨hsame, -⟩ | ⟨t, now, next, rfl, ht, hwrite, -⟩
  · exact hsame ▸ .refl _
  · exact (write_spec hi (hj t ht) hok hwrite).2.1

def proposed (id : String) : Option PurposeDeclaration :=
  if id = "decl_1" then some ⟨id, "org_1", .pending, none, none, none, none, 1⟩ else none

def asked (action : Action) : Request := ⟨action, "org_1", "admin_1", "decl_1", none⟩

def accesses (action : Action) (revision : Nat) (previousState : ApprovalState) (stages : List Stage) :
    List (Service.Event Request Call Int) :=
  stages.map fun stage => .write ⟨asked action, revision, previousState, stage⟩ 0

def Store.at (s : Store) (state : ApprovalState) (revision : Nat) : Prop :=
  (s.declarations "decl_1").map (fun d => (d.approvalState, d.revision)) = some (state, revision)
  deriving Decidable

/-- Approved, then revoked. -/
theorem transitions_serial_twice :
    ∃ w, Run service.step (Service.When Current) ⟨⟨proposed, [], []⟩, []⟩ w ∧ w.store.at .revoked 3 ∧
      w.store.succeeded.Nodup :=
  Run.exists_and
    ([.read (asked .approve) 0] ++ accesses .approve 1 .pending [.lookup, .update, .audit] ++
      [.read (asked .revoke) 0] ++ accesses .revoke 2 .approved [.lookup, .update, .audit]) fun _ hrun hrows =>
        ⟨hrows, (transitions_serial hrun).1⟩

/-- Both read revision 1: the revocation is made, and the approval then overwrites it. -/
theorem revocation_overwritten :
    ∃ w w', Run service.step anyStep ⟨⟨proposed, [], []⟩, []⟩ w ∧ Run service.step anyStep w w' ∧
      w.store.at .revoked 2 ∧ w'.store.at .approved 2 ∧ w'.store.succeeded = [("decl_1", 1), ("decl_1", 1)] :=
  Run.exists_both_of_replay
    ([.read (asked .approve) 0, .read (asked .revoke) 0] ++ accesses .revoke 1 .pending [.lookup, .update] ++
      accesses .approve 1 .pending [.lookup])
    (accesses .approve 1 .pending [.update])

end EarnProof.Proofs.PurposeDeclarations
