/-
  EarnProof.Disputes.Lifecycle — submission, assignment, withdrawal and resolution of proof
  disputes (`src/disputes/disputes.service.ts`). A call checks what it reads, and in a later
  transaction inserts a dispute or updates one by its id alone. The transaction also writes an
  audit record of column defaults, which collides with an earlier one until the retention sweep
  has taken it.

  A call that another overtook, with a sweep between the two, writes over a decision
  (`withdrawn_then_resolved`) or beside an active dispute. Where each transaction finds what its
  call read (`Current`), a decision is final (`decision_final`) and one dispute of a proof and
  category is active. The unique index is on every status, though, and refuses the second
  withdrawal or resolution of a proof and category (`two_active_second_refused`,
  `one_active_refused_iff`).
-/
import EarnProof.Lib.Run
import EarnProof.Lib.Result
import EarnProof.Lib.Table
import EarnProof.Lib.Json

namespace EarnProof.Disputes

open Lib Lib.Table Lib.Result Lib.Service

inductive DisputeStatus where
  | open | assigned | underReview | resolved | rejected | withdrawn
  deriving DecidableEq

inductive DisputeCategory where
  | accuracy | fraud | technical | compliance | other
  deriving DecidableEq

def DisputeCategory.text : DisputeCategory → String
  | .accuracy => "ACCURACY"
  | .fraud => "FRAUD"
  | .technical => "TECHNICAL"
  | .compliance => "COMPLIANCE"
  | .other => "OTHER"

structure ProofDispute where
  id : String
  organizationId : Option String
  proofId : String
  category : Option DisputeCategory
  status : DisputeStatus
  evidenceCommitment : Option String
  metadata : Option Json
  submittedBy : Option String
  assignedTo : Option String
  resolutionOutcome : Option String
  resolutionReason : Option String
  resolvedBy : Option String
  assignedAt : Option Int
  resolvedAt : Option Int
  withdrawnAt : Option Int
  deriving DecidableEq

structure Store where
  disputes : List ProofDispute
  /-- Each proof and its owner. -/
  proofs : List (String × String)
  /-- The active members, by organization. -/
  members : List (String × String)
  /-- Whether the audit record made of column defaults exists. -/
  auditDefaultRow : Bool
  deriving DecidableEq

inductive Change where
  | withdraw
  | assign (assignedTo : String)
  | resolve (resolutionOutcome resolutionReason : String)
  deriving DecidableEq

inductive Action where
  | submit (proofId : String) (category : DisputeCategory) (evidenceCommitment : Option String) (metadata : Option Json)
  | change (disputeId : String) (c : Change)
  deriving DecidableEq

structure Request where
  userId : String
  isAdmin : Bool
  organizationId : String
  action : Action
  deriving DecidableEq

structure Answer where
  now : Int
  freshId : String

variable (d : ProofDispute)

def ProofDispute.active : Bool := d.status = .open ∨ d.status = .assigned

def isValidCommitment (commitment : String) : Bool :=
  let digits := commitment.toList.drop 7
  "sha256:".toList <+: commitment.toList ∧ digits.length = 64 ∧
    digits.all fun c => c.isDigit ∨ 'a' ≤ c.toLower ∧ c.toLower ≤ 'f'

def jsLength (text : List Char) : Nat := (Json.codeUnits (String.ofList text)).length

def Change.isAssign : Change → Bool
  | .assign _ => true
  | _ => false

def Change.check (c : Change) (q : Request) (d : ProofDispute) (s : Store) : Except String Unit :=
  match c with
  | .withdraw => do
    require (d.submittedBy = some q.userId) "Only the dispute submitter can withdraw it"
    require (d.status = .open) "Only open disputes can be withdrawn"
  | .assign assignedTo => do
    require (d.status = .open) "Only open disputes can be assigned"
    require ((q.organizationId, assignedTo) ∈ s.members) "Assignee does not have access to this organization"
  | .resolve outcome reason => do
    require d.active "Only open or assigned disputes can be resolved"
    require (q.isAdmin ∨ q.userId ≠ "" ∧ d.assignedTo = some q.userId)
      "Only administrators or assigned reviewers can resolve disputes"
    require (outcome ≠ "" ∧ jsLength outcome.toList ≤ 100) "Resolution outcome required (max 100 characters)"
    require (reason ≠ "" ∧ jsLength reason.toList ≤ 2000) "Resolution reason required (max 2000 characters)"

/-- The dispute a call looks for: an active one in the way of a new one, or the one it changes. -/
def Request.reads (q : Request) (d : ProofDispute) : Bool :=
  match q.action with
  | .submit proofId category _ _ => d.proofId = proofId ∧ d.category = some category ∧ d.active
  | .change id _ => d.id = id ∧ d.organizationId = some q.organizationId

def check (q : Request) (s : Store) : Except String Unit := do
  require (q.isAdmin ∨ (q.organizationId, q.userId) ∈ s.members) "Access denied to this organization"
  match q.action with
  | .submit proofId category evidenceCommitment metadata =>
    require (∃ p ∈ s.proofs, p.1 = proofId ∧ (q.organizationId, p.2) ∈ s.members) "Proof not found or not accessible"
    require (∀ e ∈ evidenceCommitment, e = "" ∨ isValidCommitment e) "Invalid evidence commitment format"
    require (∀ m ∈ metadata, jsLength m.render ≤ 10000) "Metadata too large (max 10KB)"
    require (s.disputes.find? q.reads = none)
      ("An active " ++ category.text ++ " dispute already exists for this proof")
  | .change _ c =>
    require (q.isAdmin ∨ !c.isAssign) "Only administrators can assign disputes"
    let d ← orThrow (s.disputes.find? q.reads) "Dispute not found"
    c.check q d s

def Change.data (c : Change) (userId : String) (now : Int) (d : ProofDispute) : ProofDispute :=
  match c with
  | .withdraw => { d with status := .withdrawn, withdrawnAt := some now }
  | .assign assignedTo => { d with status := .assigned, assignedTo := some assignedTo, assignedAt := some now }
  | .resolve outcome reason =>
    { d with
      status := .resolved, resolutionOutcome := some outcome, resolutionReason := some reason
      resolvedBy := some userId, resolvedAt := some now }

variable (disputes : List ProofDispute)

/-- The row's place in `proof_dispute_unique_active` is another's; a row without category has none. -/
def Taken : Prop :=
  ∃ e ∈ disputes, e.id ≠ d.id ∧ e.category ≠ none ∧
    (e.proofId, e.category, e.status) = (d.proofId, d.category, d.status)
  deriving Decidable

def DUPLICATE : String := "Unique constraint failed on the fields: (proofId, category, status)"

/-- The transaction that writes the row `d`. -/
def save (s : Store) : Except String Store := do
  require (¬Taken d s.disputes) DUPLICATE
  require (s.auditDefaultRow = false) "Unique constraint failed on the fields: (chainKey, sequence)"
  return { s with disputes, auditDefaultRow := true }

def commit (a : Answer) (q : Request) (s : Store) : Except String Store :=
  match q.action with
  | .submit proofId category evidenceCommitment metadata => do
    let d : ProofDispute :=
      ⟨a.freshId, some q.organizationId, proofId, some category, .open, evidenceCommitment, metadata,
      some q.userId, none, none, none, none, none, none, none⟩
    require (∀ e ∈ s.disputes, e.id ≠ d.id) "Unique constraint failed on the fields: (id)"
    save d (s.disputes ++ [d]) s
  | .change id c => do
    let d ← orThrow (s.disputes.find? (·.id = id)) "Record not found"
    save (c.data q.userId a.now d) (Table.update (·.id = id) (c.data q.userId a.now) s.disputes) s

/-- What is under way: a call, with the dispute it found, or the retention sweep of the audit log. -/
inductive Call where
  | dispute (q : Request) (found : Option ProofDispute)
  | sweepAudit
  deriving DecidableEq

/-- A request that is `none` starts the sweep. -/
def service : Service Store (Option Request) Call Answer where
  read _
    | some q, s => do
      check q s
      return .dispute q (s.disputes.find? q.reads)
    | none, _ => .ok .sweepAudit
  write a
    | .dispute q _, s => do return (← commit a q s, none)
    | .sweepAudit, s => .ok ({ s with auditDefaultRow := false }, none)

/-- Each transaction finds what its call read. -/
def Current (_ : Answer) : Call → Store → Prop
  | .dispute q found, s => s.disputes.find? q.reads = found
  | .sweepAudit, _ => True

instance (a : Answer) (t : Call) (s : Store) : Decidable (Current a t s) := by
  cases t <;> unfold Current <;> infer_instance

/-- No two active disputes are of one proof and category. -/
def OneActive : Prop :=
  ∀ d ∈ disputes, ∀ e ∈ disputes, d.active → e.active → d.category ≠ none → e.proofId = d.proofId →
    e.category = d.category → e.id = d.id

variable {s s' : Store} {q : Request} {a : Answer} {d : ProofDispute} {id : String} {c : Change} {t : Call}
  {disputes : List ProofDispute} {next : Option Call} {w w' : State Store Call}
  {ok : State Store Call → Event (Option Request) Call Answer → Prop}

theorem save_ok (h : save d disputes s = .ok s') : s'.disputes = disputes := by
  obtain ⟨-, -, h⟩ := bind_eq_ok.mp h
  obtain ⟨-, -, h⟩ := bind_eq_ok.mp h
  cases h
  rfl

theorem save_error : save d disputes s = .error DUPLICATE ↔ Taken d s.disputes := by
  by_cases htaken : Taken d s.disputes <;> cases haudit : s.auditDefaultRow <;>
    simp [save, bind, Except.bind, pure, Except.pure, require, htaken, haudit, DUPLICATE]

/-- A commit inserts a row or changes one. -/
theorem commit_ok (h : commit a q s = .ok s') :
    (∃ row proofId category e m, q.action = .submit proofId category e m ∧ (∀ r ∈ s.disputes, r.id ≠ row.id) ∧
        row.proofId = proofId ∧ row.category = some category ∧ s'.disputes = s.disputes ++ [row]) ∨
      ∃ id c, q.action = .change id c ∧ s'.disputes = Table.update (·.id = id) (c.data q.userId a.now) s.disputes := by
  unfold commit at h
  split at h
  · rename_i hq
    obtain ⟨_, hfresh, h⟩ := bind_eq_ok.mp h
    exact .inl ⟨_, _, _, _, _, hq, require_eq_ok.mp hfresh, rfl, rfl, save_ok h⟩
  · rename_i id c hq
    obtain ⟨d, -, h⟩ := bind_eq_ok.mp h
    exact .inr ⟨id, c, hq, save_ok h⟩

theorem write_ok (h : service.write a t s = .ok (s', next)) :
    next = none ∧ ((∃ q found, t = .dispute q found ∧ commit a q s = .ok s') ∨ s'.disputes = s.disputes) := by
  cases t with
  | dispute q found =>
    obtain ⟨_, hcommit, h⟩ := bind_eq_ok.mp h
    cases h
    exact ⟨rfl, .inl ⟨q, found, rfl, hcommit⟩⟩
  | sweepAudit =>
    cases h
    exact ⟨rfl, .inr rfl⟩

/-- What a call found lets it go on: nothing in the way, or an active dispute to change. -/
def Permits (q : Request) (found : Option ProofDispute) : Prop :=
  match q.action with
  | .submit _ _ _ _ => found = none
  | .change _ _ => ∃ d ∈ found, d.active

def Call.Permitted : Call → Prop
  | .dispute q found => Permits q found
  | .sweepAudit => True

theorem active_of_check (h : c.check q d s = .ok ()) : d.active := by
  cases c with
  | withdraw =>
    obtain ⟨-, -, h⟩ := bind_eq_ok.mp h
    exact decide_eq_true (.inl (require_eq_ok.mp h))
  | assign =>
    obtain ⟨_, hstatus, -⟩ := bind_eq_ok.mp h
    exact decide_eq_true (.inl (require_eq_ok.mp hstatus))
  | resolve =>
    obtain ⟨_, hstatus, -⟩ := bind_eq_ok.mp h
    exact require_eq_ok.mp hstatus

theorem permits_of_check (h : check q s = .ok ()) : Permits q (s.disputes.find? q.reads) := by
  obtain ⟨-, -, h⟩ := bind_eq_ok.mp h
  unfold Permits
  split at h
  · obtain ⟨-, -, h⟩ := bind_eq_ok.mp h
    obtain ⟨-, -, h⟩ := bind_eq_ok.mp h
    obtain ⟨-, -, h⟩ := bind_eq_ok.mp h
    exact require_eq_ok.mp h
  · obtain ⟨-, -, h⟩ := bind_eq_ok.mp h
    obtain ⟨d, hfound, h⟩ := bind_eq_ok.mp h
    exact ⟨d, orThrow_eq_ok.mp hfound, active_of_check h⟩

/-- What commits keep whose calls found what lets them go on is kept by every run in which each
    transaction finds what its call read. -/
theorem run_kept {I : List ProofDispute → Prop} (h : Run service.step (When Current) w w')
    (hI : I w.store.disputes) (hcalls : ∀ t ∈ w.calls, t.Permitted)
    (hcommit : ∀ {a q s s'}, I s.disputes → Permits q (s.disputes.find? q.reads) → commit a q s = .ok s' →
      I s'.disputes) :
    I w'.store.disputes ∧ ∀ t ∈ w'.calls, t.Permitted := by
  refine Service.invariant (I := fun s => I s.disputes) (J := fun t _ => t.Permitted) h hI hcalls
    (fun {_ q _ _} _ hread => ?_) fun {_ _ t _ _} hi hpermitted hcurrent hwrite => ?_
  · cases q with
    | none =>
      cases hread
      trivial
    | some q =>
      obtain ⟨_, hcheck, hread⟩ := bind_eq_ok.mp hread
      cases hread
      exact permits_of_check hcheck
  · obtain ⟨rfl, ⟨q, found, rfl, hok⟩ | hsame⟩ := write_ok hwrite
    · refine ⟨hcommit hi ?_ hok, fun _ hu => hu, by rintro _ ⟨⟩⟩
      rw [show _ = found from hcurrent]
      exact hpermitted
    · rw [hsame]
      exact ⟨hi, fun _ hu => hu, by rintro _ ⟨⟩⟩

section Call

variable (hids : (s.disputes.map (·.id)).Nodup) (hfound : Permits q (s.disputes.find? q.reads))
  (h : commit a q s = .ok s')

include hids

/-- The dispute a call changes is active. -/
theorem active_of_permits (hfound : Permits q (s.disputes.find? q.reads)) (hq : q.action = .change id c)
    (hd : d ∈ s.disputes) (hid : d.id = id) : d.active := by
  unfold Permits at hfound
  rw [hq] at hfound
  obtain ⟨r, hr, hactive⟩ := hfound
  have hreads := List.find?_some hr
  unfold Request.reads at hreads
  rw [hq] at hreads
  obtain rfl := eq_of_key hids hd (List.mem_of_find?_eq_some hr) (hid.trans (of_decide_eq_true hreads).1.symm)
  exact hactive

include h

theorem ids_commit : (s'.disputes.map (·.id)).Nodup := by
  obtain ⟨row, _, _, _, _, -, hfresh, -, -, hrows⟩ | ⟨id, c, -, hrows⟩ := commit_ok h
  · rw [hrows]
    exact nodup_append_row hids hfresh
  · rw [hrows]
    exact nodup_update ProofDispute.id (fun r => by cases c <;> rfl) hids

include hfound

/-- A decided dispute is not written. -/
theorem decided_commit (hd : d ∈ s.disputes) (hdecided : d.active = false) : d ∈ s'.disputes := by
  obtain ⟨row, _, _, _, _, -, -, -, -, hrows⟩ | ⟨id, c, hq, hrows⟩ := commit_ok h
  · rw [hrows]
    exact List.mem_append_left _ hd
  · rw [hrows]
    refine mem_update_of_not hd (decide_eq_false fun hid => ?_)
    rw [active_of_permits hids hfound hq hd hid] at hdecided
    cases hdecided

theorem oneActive_commit (hone : OneActive s.disputes) : OneActive s'.disputes := by
  obtain ⟨row, _, category, _, _, hq, -, rfl, hcategory, hrows⟩ | ⟨id, c, hq, hrows⟩ := commit_ok h
  · have hnone : ∀ d ∈ s.disputes, ¬(d.proofId = row.proofId ∧ d.category = some category ∧ d.active) := by
      unfold Permits at hfound
      rw [hq] at hfound
      intro d hd hreads
      refine List.find?_eq_none.mp hfound d hd ?_
      unfold Request.reads
      rw [hq]
      exact decide_eq_true hreads
    rw [hrows]
    intro d hd e he hda hea hsome hproof hcat
    rcases mem_append_row.mp hd with hd' | rfl <;> rcases mem_append_row.mp he with he' | rfl
    · exact hone d hd' e he' hda hea hsome hproof hcat
    · exact absurd ⟨hproof.symm, hcat.symm.trans hcategory, hda⟩ (hnone d hd')
    · exact absurd ⟨hproof, hcat.trans hcategory, hea⟩ (hnone e he')
    · rfl
  · -- a change leaves the proof and category, and is of a dispute that is active
    have hrow : ∀ r' ∈ s'.disputes, r'.active →
        ∃ r ∈ s.disputes, r.active ∧ r.id = r'.id ∧ r.proofId = r'.proofId ∧ r.category = r'.category := by
      intro r' hr' hactive
      rw [hrows] at hr'
      obtain ⟨r, hr, ⟨hsel, rfl⟩ | ⟨-, rfl⟩⟩ := mem_update_cases hr'
      · refine ⟨r, hr, active_of_permits hids hfound hq hr (of_decide_eq_true hsel), ?_⟩
        cases c <;> exact ⟨rfl, rfl, rfl⟩
      · exact ⟨r', hr, hactive, rfl, rfl, rfl⟩
    intro d' hd' e' he' hda hea hsome hproof hcat
    obtain ⟨d, hd, hda, hdid, hdp, hdc⟩ := hrow d' hd' hda
    obtain ⟨e, he, hea, heid, hep, hec⟩ := hrow e' he' hea
    rw [← hdid, ← heid]
    exact hone d hd e he hda hea (hdc ▸ hsome) (hep.trans (hproof.trans hdp.symm)) (hec.trans (hcat.trans hdc.symm))

end Call

/-- Ids stay unique in every interleaving. -/
theorem ids_run (h : Run service.step ok w w') (hids : (w.store.disputes.map (·.id)).Nodup) :
    (w'.store.disputes.map (·.id)).Nodup := by
  refine (Service.invariant (I := fun s => (s.disputes.map (·.id)).Nodup) (J := fun _ _ => True) h hids
    (fun _ _ => trivial) (fun _ _ => trivial) fun hids _ _ hwrite => ⟨?_, fun _ _ => trivial, fun _ _ => trivial⟩).1
  obtain ⟨-, ⟨_, _, -, hok⟩ | hsame⟩ := write_ok hwrite
  · exact ids_commit hids hok
  · rw [hsame]
    exact hids

/-- Where each transaction finds what its call read, a dispute that is resolved or withdrawn stays
    the row it is, from a state without calls on. -/
theorem decision_final (h : Run service.step (When Current) ⟨s, []⟩ w)
    (hlater : Run service.step (When Current) w w') (hids : (s.disputes.map (·.id)).Nodup)
    (hd : d ∈ w.store.disputes) (hdecided : d.status = .resolved ∨ d.status = .withdrawn) :
    d ∈ w'.store.disputes ∧ (w'.store.disputes.map (·.id)).Nodup := by
  have hinactive : d.active = false := by rcases hdecided with hs | hs <;> simp [ProofDispute.active, hs]
  have hcalls := (run_kept (I := fun _ => True) h trivial (by rintro _ ⟨⟩) fun _ _ _ => trivial).2
  exact (run_kept (I := fun disputes => d ∈ disputes ∧ (disputes.map (·.id)).Nodup) hlater
    ⟨hd, ids_run h hids⟩ hcalls fun hi hfound hcommit =>
      ⟨decided_commit hi.2 hfound hcommit hi.1 hinactive, ids_commit hi.2 hcommit⟩).1

/-! ## Traces -/

def dispute (id : String) (status : DisputeStatus) : ProofDispute :=
  ⟨id, some "org", "p", some .fraud, status, none, none, some "u", none, none, none, none, none, none, none⟩

def change (id : String) (c : Change) : Request := ⟨"u", true, "org", .change id c⟩

def resolving (id : String) : Request := change id (.resolve "upheld" "checked")

def submitting (category : DisputeCategory) : Request := ⟨"u", true, "org", .submit "p" category none none⟩

def moment (freshId : String) : Answer := ⟨0, freshId⟩

/-- One proof and one member, and no dispute yet. -/
def undisputed : Store := ⟨[], [("p", "u")], [("org", "u")], false⟩

abbrev Trace := List (Event (Option Request) Call Answer)

def reads (q : Request) : Trace := [.read (some q) (moment "")]

/-- The transaction of a call that found this, and a sweep after it. -/
def commits (q : Request) (found : Option ProofDispute) (freshId : String) : Trace :=
  [.write (.dispute q found) (moment freshId), .read none (moment ""), .write .sweepAudit (moment "")]

def submits (freshId : String) : Trace := reads (submitting .fraud) ++ commits (submitting .fraud) none freshId

def changes (id : String) (c : Change) : Trace :=
  reads (change id c) ++ commits (change id c) (some (dispute id .open)) ""

/-- A withdrawn dispute stays while another category is disputed by a call that read before it and
    the dispute is submitted again. -/
theorem decision_final_resubmitted :
    ∃ w w', Run service.step (When Current) ⟨undisputed, []⟩ w ∧ Run service.step (When Current) w w' ∧
      w'.store.disputes.length = 3 ∧ ∃ d ∈ w.store.disputes, d.status = .withdrawn ∧ d ∈ w'.store.disputes := by
  obtain ⟨w, w', hrun, hlater, hrows, d, hd, hstatus⟩ : ∃ w w',
      Run service.step (When Current) ⟨undisputed, []⟩ w ∧ Run service.step (When Current) w w' ∧
        w'.store.disputes.length = 3 ∧ ∃ d ∈ w.store.disputes, d.status = .withdrawn :=
    Run.exists_both_of_replay (submits "d1" ++ reads (submitting .other) ++ changes "d1" .withdraw)
      (commits (submitting .other) none "d2" ++ submits "d3")
  exact ⟨w, w', hrun, hlater, hrows, d, hd, hstatus, (decision_final hrun hlater (by decide) hd (.inr hstatus)).1⟩

/-- A resolution that read the dispute before its withdrawal is recorded over it after a sweep. -/
theorem withdrawn_then_resolved :
    ∃ w w', Run service.step anyStep ⟨undisputed, []⟩ w ∧ Run service.step anyStep w w' ∧
      (w.store.disputes.map (·.status)) = [.withdrawn] ∧ (w'.store.disputes.map (·.status)) = [.resolved] :=
  Run.exists_both_of_replay (submits "d1" ++ reads (resolving "d1") ++ changes "d1" .withdraw)
    (commits (resolving "d1") (some (dispute "d1" .open)) "")

/-- Where each transaction finds what its call read, one dispute of a proof and category is active;
    in every interleaving a change that its check permits is refused for the index where another
    dispute of the proof and category has the status it writes. -/
theorem one_active_refused_iff (h : Run service.step anyStep ⟨s, []⟩ w) (hids : (s.disputes.map (·.id)).Nodup)
    (hone : OneActive s.disputes) :
    (Run service.step (When Current) ⟨s, []⟩ w → OneActive w.store.disputes) ∧
      ∀ a q id c d, q.action = .change id c → d ∈ w.store.disputes → d.id = id → check q w.store = .ok () →
        (commit a q w.store = .error DUPLICATE ↔ Taken (c.data q.userId a.now d) w.store.disputes) := by
  refine ⟨fun hcurrent => ?_, fun a q id c d hq hd hid _ => ?_⟩
  · exact (run_kept (I := fun disputes => (disputes.map (·.id)).Nodup ∧ OneActive disputes) hcurrent ⟨hids, hone⟩
      (by rintro _ ⟨⟩) fun hi hfound hcommit =>
        ⟨ids_commit hi.1 hcommit, oneActive_commit hi.1 hfound hcommit hi.2⟩).1.2
  · unfold commit
    rw [hq]
    dsimp only
    rw [← hid, find?_of_mem (ids_run h hids) hd]
    exact save_error

/-- Beside a withdrawn dispute, another of the proof and category can be resolved. -/
theorem one_active_refused_iff_withdrawn : ∃ w, Run service.step (When Current) ⟨undisputed, []⟩ w ∧
    OneActive w.store.disputes ∧ check (resolving "d2") w.store = .ok () ∧
      commit (moment "") (resolving "d2") w.store ≠ .error DUPLICATE := by
  refine Run.exists_and (P := fun w => check (resolving "d2") w.store = .ok () ∧ dispute "d2" .open ∈ w.store.disputes ∧
    ¬Taken ((Change.resolve "upheld" "checked").data "u" 0 (dispute "d2" .open)) w.store.disputes)
    (submits "d1" ++ changes "d1" .withdraw ++ submits "d2") fun w hrun ⟨hcheck, hd, hfree⟩ => ?_
  obtain ⟨hone, hiff⟩ := one_active_refused_iff (s := undisputed) (hrun.mono fun _ _ _ => trivial) (by decide)
    (by rintro _ ⟨⟩)
  exact ⟨hone hrun, hcheck, mt (hiff (moment "") (resolving "d2") "d2" _ _ rfl hd rfl hcheck).mp hfree⟩

/-- Of two submissions that found nothing, the one that is overtaken makes a second active dispute
    once the first is assigned; and a second resolution is refused for the first. -/
theorem two_active_second_refused :
    (∃ w, Run service.step anyStep ⟨undisputed, []⟩ w ∧
      (w.store.disputes.map fun d => (d.category, d.status)) = [(some .fraud, .assigned), (some .fraud, .open)]) ∧
    ∃ w, Run service.step (When Current) ⟨undisputed, []⟩ w ∧ w.store.auditDefaultRow = false ∧
      check (resolving "d2") w.store = .ok () ∧ commit (moment "") (resolving "d2") w.store = .error DUPLICATE :=
  ⟨Run.exists_of_replay (reads (submitting .fraud) ++ submits "d1" ++ changes "d1" (.assign "u") ++
      commits (submitting .fraud) none "d2"),
    Run.exists_of_replay (submits "d1" ++ changes "d1" (.resolve "upheld" "checked") ++ submits "d2")⟩

end EarnProof.Disputes
