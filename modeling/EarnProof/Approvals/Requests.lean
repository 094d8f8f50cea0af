/-
  EarnProof.Approvals.Requests — `decide`, `cancel`, `claimForExecution`, `completeExecution` and
  `expireStale` of `src/approvals/approvals.service.ts`, in any interleaving.

  Each writes with one conditional update: a decision to a PENDING request, a lease to an APPROVED
  one without a lease, an execution to an APPROVED one with the caller's lease. So `requests_lawful`
  follows from what one update leaves (`data_lawful`).

  `trail` is ghost state: what has been written to a request, in order.
-/
import EarnProof.Lib.Run
import EarnProof.Lib.Result
import EarnProof.Lib.Table

namespace EarnProof.Approvals

open Lib Lib.Table Lib.Result

inductive ApprovalRequestStatus where
  | pending | approved | rejected | cancelled | expired | executed
  deriving DecidableEq

/-- A decision with the user it names, a lease, or an execution under a lease. -/
inductive Mark where
  | decided (status : ApprovalRequestStatus) (userId : Option String)
  | leased (token : String)
  | executed (token : String)
  deriving DecidableEq

structure ApprovalRequest where
  id : String
  payloadHash : String
  requestedById : String
  status : ApprovalRequestStatus
  decidedById : Option String
  decidedAt : Option Int
  decisionReason : Option String
  executionLeaseToken : Option String
  executionLeasedAt : Option Int
  executedAt : Option Int
  expiresAt : Int
  trail : List Mark
  deriving DecidableEq

/-- A call; `approves` tells `approve` from `reject`. -/
inductive Call where
  | decide (approves : Bool) (userId id expectedPayloadHash : String) (reason : Option String)
  | cancel (userId : String) (isAdmin : Bool) (id : String)
  | claimForExecution (id : String)
  | completeExecution (id leaseToken : String)
  | expireStale
  deriving DecidableEq

/-- The time of an access, and the token a claim makes up. -/
structure Access where
  now : Int
  leaseToken : String

def get (id : String) (requests : List ApprovalRequest) : Except String ApprovalRequest :=
  orThrow (requests.find? (·.id = id)) s!"Approval request {id} not found"

def Call.check (requests : List ApprovalRequest) : Call → Except String Unit
  | .decide _ userId id expectedPayloadHash _ => do
    let existing ← get id requests
    require (existing.requestedById ≠ userId) "The requester of a privileged operation cannot decide on it"
    require (existing.payloadHash = expectedPayloadHash)
      "expectedPayloadHash does not match the request's current payload — refresh and retry"
  | .cancel userId isAdmin id => do
    let existing ← get id requests
    require (existing.requestedById = userId ∨ isAdmin) "Only the requester or an admin may cancel this request"
  | .claimForExecution _ | .completeExecution _ _ | .expireStale => .ok ()

/-- The `where` of the update. -/
def Call.selects (now : Int) (r : ApprovalRequest) : Call → Bool
  | .decide _ _ id _ _ => r.id = id ∧ r.status = .pending ∧ now < r.expiresAt
  | .cancel _ _ id => r.id = id ∧ r.status = .pending
  | .claimForExecution id => r.id = id ∧ r.status = .approved ∧ r.executionLeaseToken = none
  | .completeExecution id leaseToken => r.id = id ∧ r.executionLeaseToken = some leaseToken ∧ r.status = .approved
  | .expireStale => r.status = .pending ∧ r.expiresAt < now

/-- The `data` of the update. -/
def Call.data (a : Access) (r : ApprovalRequest) : Call → ApprovalRequest
  | .decide approves userId _ _ reason =>
    let status := if approves then .approved else .rejected
    { r with
      status, decidedById := some userId, decidedAt := some a.now, decisionReason := reason <|> r.decisionReason
      trail := r.trail ++ [.decided status (some userId)] }
  | .cancel userId _ _ =>
    { r with
      status := .cancelled, decidedById := some userId, decidedAt := some a.now
      trail := r.trail ++ [.decided .cancelled (some userId)] }
  | .claimForExecution _ =>
    { r with
      executionLeaseToken := some a.leaseToken, executionLeasedAt := some a.now
      trail := r.trail ++ [.leased a.leaseToken] }
  | .completeExecution _ leaseToken =>
    { r with status := .executed, executedAt := some a.now, trail := r.trail ++ [.executed leaseToken] }
  | .expireStale => { r with status := .expired, trail := r.trail ++ [.decided .expired none] }

def service : Service (List ApprovalRequest) Call Call Access where
  read _ c requests := do
    c.check requests
    return c
  write a c requests := do
    let requests := Table.update (c.selects a.now) (c.data a) requests
    require (requests.filterMap (·.executionLeaseToken)).Nodup
      "Unique constraint failed on the fields: (executionLeaseToken)"
    return (requests, none)

/-- What can have been written to a request, by its status and its lease. -/
inductive History (requester : String) : ApprovalRequestStatus → Option String → List Mark → Prop
  | pending : History requester .pending none []
  | rejected userId (h : userId ≠ requester) : History requester .rejected none [.decided .rejected (some userId)]
  | cancelled userId : History requester .cancelled none [.decided .cancelled (some userId)]
  | expired : History requester .expired none [.decided .expired none]
  | approved userId lease (h : userId ≠ requester) :
      History requester .approved lease (.decided .approved (some userId) :: lease.toList.map .leased)
  | executed userId lease (h : userId ≠ requester) :
      History requester .executed (some lease) [.decided .approved (some userId), .leased lease, .executed lease]

def ApprovalRequest.Lawful (r : ApprovalRequest) : Prop :=
  History r.requestedById r.status r.executionLeaseToken r.trail

/-- Who decides is not the requester. -/
def Call.Foreign (r : ApprovalRequest) : Call → Prop
  | .decide _ userId id _ _ => r.id = id → userId ≠ r.requestedById
  | _ => True

variable {r : ApprovalRequest} {c d : Call} {a : Access} {requester : String} {lease : Option String}
    {trail : List Mark}

theorem History.of_pending (h : History requester .pending lease trail) : lease = none ∧ trail = [] := by
  cases h
  exact ⟨rfl, rfl⟩

theorem History.of_approved (h : History requester .approved lease trail) :
    ∃ userId, userId ≠ requester ∧ trail = .decided .approved (some userId) :: lease.toList.map .leased := by
  cases h with
  | approved userId _ h => exact ⟨userId, h, rfl⟩

theorem Call.Foreign.data (h : d.Foreign r) : d.Foreign (c.data a r) := by
  cases c <;> exact h

theorem data_lawful (h : r.Lawful) (hforeign : c.Foreign r) (hsel : c.selects a.now r) : (c.data a r).Lawful := by
  unfold ApprovalRequest.Lawful at h ⊢
  cases c with
  | decide approves userId =>
    obtain ⟨hid, hstatus, -⟩ := of_decide_eq_true hsel
    rw [hstatus] at h
    obtain ⟨hlease, htrail⟩ := h.of_pending
    have hother := hforeign hid
    simp only [Call.data, hlease, htrail]
    cases approves with
    | true => exact .approved userId none hother
    | false => exact .rejected userId hother
  | cancel userId =>
    rw [(of_decide_eq_true hsel).2] at h
    obtain ⟨hlease, htrail⟩ := h.of_pending
    simp only [Call.data, hlease, htrail]
    exact .cancelled userId
  | claimForExecution =>
    obtain ⟨-, hstatus, hlease⟩ := of_decide_eq_true hsel
    rw [hstatus, hlease] at h
    obtain ⟨userId, hother, htrail⟩ := h.of_approved
    simp only [Call.data, hstatus, htrail]
    exact .approved userId (some a.leaseToken) hother
  | completeExecution id leaseToken =>
    obtain ⟨-, hlease, hstatus⟩ := of_decide_eq_true hsel
    rw [hstatus, hlease] at h
    obtain ⟨userId, hother, htrail⟩ := h.of_approved
    simp only [Call.data, hlease, htrail]
    exact .executed userId leaseToken hother
  | expireStale =>
    rw [(of_decide_eq_true hsel).1] at h
    obtain ⟨hlease, htrail⟩ := h.of_pending
    simp only [Call.data, hlease, htrail]
    exact .expired

/-- Over every interleaving, what has been written to a request is a single decision, not by its
    requester when it is approved or rejected, after an approval a single lease, and after the lease
    the execution under it. -/
theorem requests_lawful {requests : List ApprovalRequest} {w : Service.State (List ApprovalRequest) Call}
    (h : Run service.step anyStep ⟨requests, []⟩ w) (hids : (requests.map (·.id)).Nodup)
    (hnew : ∀ r ∈ requests, r.status = .pending ∧ r.executionLeaseToken = none ∧ r.trail = []) :
    ∀ r ∈ w.store, r.Lawful := by
  refine (Service.invariant (I := fun requests => (requests.map (·.id)).Nodup ∧ ∀ r ∈ requests, r.Lawful)
    (J := fun c requests => ∀ r ∈ requests, c.Foreign r) h ⟨hids, fun r hr => ?_⟩ nofun (fun hi hread => ?_)
    fun {w a c _ _} hi hj _ hwrite => ?_).1.2
  · obtain ⟨hstatus, hlease, htrail⟩ := hnew r hr
    unfold ApprovalRequest.Lawful
    rw [hstatus, hlease, htrail]
    exact .pending
  · obtain ⟨_, hcheck, hread⟩ := bind_eq_ok.mp hread
    cases hread
    intro r hr
    unfold Call.Foreign
    split
    · intro hid
      obtain ⟨existing, hfind, hcheck⟩ := bind_eq_ok.mp hcheck
      obtain ⟨_, hother, -⟩ := bind_eq_ok.mp hcheck
      rw [← hid, get, find?_of_mem hi.1 hr] at hfind
      obtain rfl := Option.some.inj (orThrow_eq_ok.mp hfind)
      exact (require_eq_ok.mp hother).symm
    · trivial
  · obtain ⟨_, -, hwrite⟩ := bind_eq_ok.mp hwrite
    cases hwrite
    have hid : ∀ r, (c.data a r).id = r.id := fun r => by cases c <;> rfl
    exact ⟨⟨nodup_update _ hid hi.1, forall_update hi.2 fun r hr => data_lawful (hi.2 r hr) (hj r hr)⟩,
      fun u hu => forall_update hu fun r hr _ => (hu r hr).data, nofun⟩

def requested : ApprovalRequest :=
  ⟨"request_1", "hash_1", "user_1", .pending, none, none, none, none, none, none, 10, []⟩

/-- One is approved, leased and executed. -/
theorem requests_lawful_executed :
    ∃ w, Run service.step anyStep ⟨[requested], []⟩ w ∧ w.store.map (·.status) = [.executed] ∧
      ∀ r ∈ w.store, r.Lawful :=
  let calls : List Call := [.decide true "user_2" "request_1" "hash_1" none, .claimForExecution "request_1",
    .completeExecution "request_1" "lease_1"]
  Run.exists_and
    (calls.flatMap fun c => [.read c ⟨0, ""⟩, .write c ⟨0, "lease_1"⟩]) fun _ hrun hstatus =>
      ⟨hstatus, requests_lawful hrun (by decide) (by decide)⟩

end EarnProof.Approvals
