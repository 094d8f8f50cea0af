/-
  EarnProof.Payments.Identity — `writePayments` of `src/payments/payments.service.ts` with the
  columns of a payment's identity (`src/stellar/operation-identity.ts`): the network, the
  transaction hash and the operation's index in the transaction. The table has two unique
  indexes, on the operation id and on the identity, and `writePayments` upserts each payment
  twice: its content first, and then its identity. Only the second upsert expects the
  identity to be taken; the payment is then counted as a conflict and the loop goes on.

  The loop here is the one of `Payments.Sync` with nothing in between: `Turn.synced` says
  what a turn is there.

  A payment that is counted as a conflict has been written by the first upsert, which stays
  (`conflict_leaves_row`). So a conflict leaves nothing behind exactly where the first upsert
  had nothing to write (`conflict_leaves_nothing_iff`).
-/
import EarnProof.Payments.Checkpoints
import EarnProof.Stellar.Horizon

namespace EarnProof.Payments.Identity

open Lib Lib.Table Lib.Calendar Database Stellar List

/-! ## The identity of a payment -/

def OPERATION_INDEX_BITS : Nat := 12

/-- The low bits of a TOID; a text that is not one has no index. -/
def operationIndexFromToid (operationId : String) : Option Nat :=
  (parsePagingToken operationId).map (· % 2 ^ OPERATION_INDEX_BITS)

structure IdentifiedPayment extends SyncedPayment where
  network : Option String
  operationIndex : Option Nat
  memo : Option String
  updatedAt : Date
  deriving DecidableEq

/-- What the composite unique index compares. A row with a null in it is never equal to
    another. -/
def IdentifiedPayment.identity (r : IdentifiedPayment) : Option (String × String × Nat) :=
  match r.network, r.operationIndex with
  | some network, some index => some (network, r.stellarTransactionHash, index)
  | _, _ => none

def clashes (rows : List IdentifiedPayment) (row : IdentifiedPayment) : Bool :=
  row.identity.isSome && rows.any fun r => r.operationId ≠ row.operationId && r.identity = row.identity

structure PaymentTable where
  rows : List IdentifiedPayment
  operations : (rows.map (·.operationId)).Nodup
  identities : ∀ r ∈ rows, clashes rows r = false

def PaymentTable.find (t : PaymentTable) (operationId : String) : Option IdentifiedPayment :=
  t.rows.find? fun r => r.operationId = operationId

/-! ## Upserts -/

inductive PrismaError where
  /-- A unique index refuses the row. -/
  | P2002
  deriving DecidableEq

structure Upsert where
  operationId : String
  update : IdentifiedPayment → IdentifiedPayment
  create : IdentifiedPayment
  update_operationId : ∀ r, (update r).operationId = r.operationId
  create_operationId : create.operationId = operationId

def Upsert.written (u : Upsert) (t : PaymentTable) : IdentifiedPayment :=
  match t.find u.operationId with
  | some row => u.update row
  | none => u.create

def Upsert.put (u : Upsert) (rows : List IdentifiedPayment) : List IdentifiedPayment :=
  if rows.any fun r => r.operationId = u.operationId then
    Table.update (fun r => r.operationId = u.operationId) u.update rows
  else rows ++ [u.create]

variable {operationId : String} {u : Upsert} {conflicts : List String} {payments : List NormalizedPayment}
  {t t' : PaymentTable} {r : IdentifiedPayment}

theorem PaymentTable.find_some (h : t.find operationId = some r) : r ∈ t.rows ∧ r.operationId = operationId :=
  of_find? h

theorem PaymentTable.find_none (h : t.find operationId = none) : ∀ r ∈ t.rows, r.operationId ≠ operationId := by
  intro r hr
  simpa using find?_eq_none.mp h r hr

theorem clashes_iff {rows : List IdentifiedPayment} {row : IdentifiedPayment} : clashes rows row ↔
      row.identity ≠ none ∧ ∃ r ∈ rows, r.operationId ≠ row.operationId ∧ r.identity = row.identity := by
  simp only [clashes, Bool.and_eq_true, Option.isSome_iff_ne_none, any_eq_true, decide_eq_true_eq]

theorem Upsert.written_operationId (u : Upsert) (t : PaymentTable) : (u.written t).operationId = u.operationId := by
  unfold Upsert.written
  split
  · rename_i row hrow
    rw [u.update_operationId]
    exact (PaymentTable.find_some hrow).2
  · exact u.create_operationId

/-- A row of the new table is the written one, or an old row of another operation. -/
theorem Upsert.mem_put {r' : IdentifiedPayment} (h : r' ∈ u.put t.rows) :
    r' = u.written t ∨ (r' ∈ t.rows ∧ r'.operationId ≠ u.operationId) := by
  unfold Upsert.put at h
  unfold Upsert.written
  cases hfind : t.find u.operationId with
  | some row =>
    obtain ⟨hmem, hop⟩ := PaymentTable.find_some hfind
    rw [if_pos (any_eq_true.mpr ⟨row, hmem, decide_eq_true hop⟩)] at h
    obtain ⟨r, hr, ⟨hsel, rfl⟩ | ⟨hsel, rfl⟩⟩ := mem_update_cases h
    · have hsame : r = row := eq_of_key t.operations hr hmem ((of_decide_eq_true hsel).trans hop.symm)
      exact .inl (congrArg u.update hsame)
    · exact .inr ⟨hr, of_decide_eq_false hsel⟩
  | none =>
    have hnone := PaymentTable.find_none hfind
    rw [if_neg (by simpa using hnone)] at h
    rcases mem_append.mp h with hr | hr
    · exact .inr ⟨hr, hnone r' hr⟩
    · exact .inl (mem_singleton.mp hr)

theorem Upsert.mem_put_of_ne (h : r ∈ t.rows) (hne : r.operationId ≠ u.operationId) : r ∈ u.put t.rows := by
  unfold Upsert.put
  split
  · exact mem_update_of_not h (decide_eq_false hne)
  · exact mem_append_left _ h

section

variable (u : Upsert) (t : PaymentTable)

theorem Upsert.written_mem_put : u.written t ∈ u.put t.rows := by
  unfold Upsert.put Upsert.written
  cases hfind : t.find u.operationId with
  | some row =>
    obtain ⟨hmem, hop⟩ := PaymentTable.find_some hfind
    rw [if_pos (any_eq_true.mpr ⟨row, hmem, decide_eq_true hop⟩)]
    exact mem_update_of_sel hmem (decide_eq_true hop)
  | none =>
    rw [if_neg (by simpa using PaymentTable.find_none hfind)]
    exact mem_append_right _ (mem_singleton_self _)

theorem Upsert.put_operations : ((u.put t.rows).map (·.operationId)).Nodup := by
  unfold Upsert.put
  split
  · exact nodup_update (fun r : IdentifiedPayment => r.operationId) u.update_operationId t.operations
  · rename_i hnone
    refine nodup_append_row t.operations fun r hr hop => hnone ?_
    exact any_eq_true.mpr ⟨r, hr, decide_eq_true (hop.trans u.create_operationId)⟩

/-- What the identity index accepts keeps the identities apart. -/
theorem Upsert.put_identities (hfree : clashes t.rows (u.written t) = false) :
    ∀ r ∈ u.put t.rows, clashes (u.put t.rows) r = false := by
  intro r hr
  have hfree : ¬clashes t.rows (u.written t) := by simp [hfree]
  rw [clashes_iff] at hfree
  rw [Bool.eq_false_iff, ne_eq, clashes_iff]
  rintro ⟨hsome, other, hother, hne, hsame⟩
  rcases mem_put hr with rfl | ⟨hr, hrop⟩
  · rcases mem_put hother with rfl | ⟨hother, -⟩
    · exact hne rfl
    · exact hfree ⟨hsome, other, hother, hne, hsame⟩
  · rcases mem_put hother with rfl | ⟨hother, -⟩
    · -- The old row has the identity that is written.
      exact hfree ⟨hsame ▸ hsome, r, hr, hne.symm, hsame.symm⟩
    · have hold := t.identities r hr
      rw [Bool.eq_false_iff, ne_eq, clashes_iff] at hold
      exact hold ⟨hsome, other, hother, hne, hsame⟩

def Upsert.run : Except PrismaError PaymentTable :=
  if h : clashes t.rows (u.written t) = false then .ok ⟨u.put t.rows, u.put_operations t, u.put_identities t h⟩
  else .error .P2002

end

theorem Upsert.run_ok (h : u.run t = .ok t') : clashes t.rows (u.written t) = false ∧ t'.rows = u.put t.rows := by
  unfold Upsert.run at h
  split at h
  · rename_i hfree
    cases h
    exact ⟨hfree, rfl⟩
  · cases h

theorem Upsert.run_error {e : PrismaError} (h : u.run t = .error e) : clashes t.rows (u.written t) := by
  unfold Upsert.run at h
  split at h
  · cases h
  · rename_i htaken
    simpa using htaken

theorem Upsert.find_self (h : t'.rows = u.put t.rows) : t'.find u.operationId = some (u.written t) := by
  have hmem : u.written t ∈ t'.rows := h ▸ u.written_mem_put t
  rw [← u.written_operationId t]
  exact find?_of_mem t'.operations hmem

/-- An upsert touches the row of its operation only. -/
theorem Upsert.find_of_ne (h : t'.rows = u.put t.rows)
    (hne : operationId ≠ u.operationId) : t'.find operationId = t.find operationId := by
  cases hfind : t.find operationId with
  | some =>
    obtain ⟨hr, rfl⟩ := PaymentTable.find_some hfind
    exact find?_of_mem t'.operations (h ▸ mem_put_of_ne hr hne)
  | none =>
    refine find?_eq_none.mpr fun r hr hop => ?_
    have hop : r.operationId = operationId := of_decide_eq_true hop
    rw [h] at hr
    rcases mem_put hr with rfl | ⟨hr, -⟩
    · exact hne (hop.symm.trans (u.written_operationId t))
    · exact PaymentTable.find_none hfind r hr hop

/-! ## `writePayments` -/

/-- The registry the sync has loaded, the deployment's network, the memo of a transaction as
    it is stored, and what the database generates. -/
structure WriteConfig extends Config where
  network : String
  supported : List String
  storedMemo : String → String
  freshId : String → String
  now : Date

variable (cfg : WriteConfig) (isReplaced : Bool) (p : NormalizedPayment)

def isEligible : Bool := cfg.assetId p.assetCode p.assetIssuer ∈ cfg.supported

variable (row : IdentifiedPayment)

/-- The update of the first upsert: a payment that was replaced is rebuilt. -/
def writeRow : IdentifiedPayment :=
  { row with
    toSyncedPayment :=
      (if isReplaced then rebuildRow cfg.toConfig (isEligible cfg p) p
        else confirmRow (isEligible cfg p) p) row.toSyncedPayment
    memo := some (cfg.storedMemo p.stellarTransactionHash), updatedAt := cfg.now }

/-- Its row for a new payment has no identity yet. -/
def createRow : IdentifiedPayment :=
  { toSyncedPayment := newRow cfg.toConfig (cfg.freshId p.operationId) (isEligible cfg p) p, network := none
    operationIndex := none, memo := some (cfg.storedMemo p.stellarTransactionHash), updatedAt := cfg.now }

/-- The update of the second upsert. -/
def identifyRow : IdentifiedPayment :=
  { row with
    isEligible := isEligible cfg p, occurredAt := p.occurredAt, memo := some (cfg.storedMemo p.stellarTransactionHash)
    network := some cfg.network, operationIndex := operationIndexFromToid p.operationId, updatedAt := cfg.now }

/-- Its row, had the first upsert not created one. -/
def createIdentified : IdentifiedPayment :=
  { createRow cfg p with
    pagingToken := none, ledgerSequence := none, network := some cfg.network
    operationIndex := operationIndexFromToid p.operationId }

def writeContent : Upsert where
  operationId := p.operationId
  update := writeRow cfg isReplaced p
  create := createRow cfg p
  update_operationId := by
    intro r
    cases isReplaced <;> rfl
  create_operationId := rfl

def writeIdentity : Upsert where
  operationId := p.operationId
  update := identifyRow cfg p
  create := createIdentified cfg p
  update_operationId _ := rfl
  create_operationId := rfl

/-- One payment's turn, and whether it is counted as a conflict. The first upsert is not in
    the `try`. -/
def writeTurn (t : PaymentTable) : Except PrismaError (PaymentTable × Bool) :=
  match (writeContent cfg isReplaced p).run t with
  | .error e => .error e
  | .ok t =>
    match (writeIdentity cfg p).run t with
    | .ok t' => .ok (t', false)
    | .error .P2002 => .ok (t, true)

/-- The loop, and the operations whose payments `conflicts` counts. -/
def writePayments (cfg : WriteConfig) (replaced : List String) :
    List NormalizedPayment → PaymentTable → Except PrismaError (PaymentTable × List String)
  | [], t => .ok (t, [])
  | p :: rest, t =>
    match writeTurn cfg (p.operationId ∈ replaced) p t with
    | .error e => .error e
    | .ok (t, conflict) =>
      match writePayments cfg replaced rest t with
      | .error e => .error e
      | .ok (t, conflicts) => .ok (t, if conflict then p.operationId :: conflicts else conflicts)

/-- The payments of a read: no operation comes twice (`readFrom_distinct`). -/
structure Batch where
  payments : List NormalizedPayment
  distinct : (payments.map (·.operationId)).Nodup

def Batch.ofRead (opts : HorizonReadOptions) (normalize : HorizonPaymentRecord → RecordOutcome)
    (serve : Nat → Option Nat → ParsedPage) : Batch :=
  ⟨(opts.read normalize serve).payments, readFrom_distinct _ _ _ _ List.nodup_nil⟩

/-! ## A turn -/

section Turn

variable {cfg : WriteConfig} {isReplaced : Bool} {p : NormalizedPayment} {content : PaymentTable} {conflict : Bool}

/-- A turn leaves both upserts, or the first one and a conflict. -/
inductive Turn (cfg : WriteConfig) (isReplaced : Bool) (p : NormalizedPayment) (t t' : PaymentTable) : Bool → Prop
  | written (content : PaymentTable) (hcontent : content.rows = (writeContent cfg isReplaced p).put t.rows)
      (hfree : clashes content.rows ((writeIdentity cfg p).written content) = false)
      (hrows : t'.rows = (writeIdentity cfg p).put content.rows) : Turn cfg isReplaced p t t' false
  | conflict (hcontent : t'.rows = (writeContent cfg isReplaced p).put t.rows)
      (htaken : clashes t'.rows ((writeIdentity cfg p).written t')) : Turn cfg isReplaced p t t' true

theorem writeTurn_turn (h : writeTurn cfg isReplaced p t = .ok (t', conflict)) :
    Turn cfg isReplaced p t t' conflict := by
  unfold writeTurn at h
  split at h
  · cases h
  · rename_i content hcontent
    split at h
    · rename_i identified hidentity
      cases h
      exact .written content (Upsert.run_ok hcontent).2 (Upsert.run_ok hidentity).1 (Upsert.run_ok hidentity).2
    · rename_i hidentity
      cases h
      exact .conflict (Upsert.run_ok hcontent).2 (Upsert.run_error hidentity)

/-- A turn touches the row of its operation only. -/
theorem Turn.find_of_ne (h : Turn cfg isReplaced p t t' conflict) (hne : operationId ≠ p.operationId) :
    t'.find operationId = t.find operationId := by
  cases h with
  | written content hcontent hfree hrows => rw [Upsert.find_of_ne hrows hne, Upsert.find_of_ne hcontent hne]
  | conflict hcontent => exact Upsert.find_of_ne hcontent hne

theorem Upsert.put_synced (u : Upsert) {update : SyncedPayment → SyncedPayment} {create : SyncedPayment}
    (hupdate : ∀ r, (u.update r).toSyncedPayment = update r.toSyncedPayment)
    (hcreate : u.create.toSyncedPayment = create) (rows : List IdentifiedPayment) :
    (u.put rows).map (·.toSyncedPayment) = upsert u.operationId update create (rows.map (·.toSyncedPayment)) := by
  have hany : ((rows.map (·.toSyncedPayment)).any fun r => r.operationId = u.operationId) =
      rows.any fun r => r.operationId = u.operationId := any_map
  unfold Upsert.put upsert
  rw [hany]
  split
  · exact map_update_comm IdentifiedPayment.toSyncedPayment (fun _ => rfl) hupdate
  · rw [map_append, ← hcreate]
    rfl

/-- Without the identity columns, a turn is the two writes of a sync with nothing in between,
    and a conflict is the second one refused. -/
theorem Turn.synced (h : Turn cfg isReplaced p t t' conflict) : t'.rows.map (·.toSyncedPayment) =
      if conflict then writePayment cfg.toConfig (cfg.freshId p.operationId) (isEligible cfg p) isReplaced p
        (t.rows.map (·.toSyncedPayment))
      else identifyPayment cfg.toConfig (cfg.freshId p.operationId) (isEligible cfg p) p
        (writePayment cfg.toConfig (cfg.freshId p.operationId) (isEligible cfg p) isReplaced p
          (t.rows.map (·.toSyncedPayment))) := by
  have hwrite : ∀ rows : List IdentifiedPayment, ((writeContent cfg isReplaced p).put rows).map (·.toSyncedPayment) =
      writePayment cfg.toConfig (cfg.freshId p.operationId) (isEligible cfg p) isReplaced p
        (rows.map (·.toSyncedPayment)) :=
    (writeContent cfg isReplaced p).put_synced (fun r => by cases isReplaced <;> rfl) rfl
  cases h with
  | written content hcontent hfree hrows =>
    rw [hrows, if_neg Bool.false_ne_true, ← hwrite, ← hcontent]
    exact (writeIdentity cfg p).put_synced (fun _ => rfl) rfl content.rows
  | conflict hcontent => rw [hcontent, if_pos rfl, hwrite]

/-- The transaction hash of the payment's row once its content is written: a stored payment
    keeps its own, unless it was replaced. -/
def claimedHash (isReplaced : Bool) (p : NormalizedPayment) (t : PaymentTable) : String :=
  match t.find p.operationId with
  | some row => if isReplaced then p.stellarTransactionHash else row.stellarTransactionHash
  | none => p.stellarTransactionHash

/-- Another operation has the identity the payment comes with. -/
def Taken (cfg : WriteConfig) (isReplaced : Bool) (p : NormalizedPayment) (t : PaymentTable) : Prop :=
  ∃ index, operationIndexFromToid p.operationId = some index ∧ ∃ r ∈ t.rows, r.operationId ≠ p.operationId ∧
    r.identity = some (cfg.network, claimedHash isReplaced p t, index)

theorem written_hash (cfg : WriteConfig) (isReplaced : Bool) (p : NormalizedPayment) (t : PaymentTable) :
    ((writeContent cfg isReplaced p).written t).stellarTransactionHash = claimedHash isReplaced p t := by
  have hfind : t.find (writeContent cfg isReplaced p).operationId = t.find p.operationId := rfl
  unfold Upsert.written claimedHash
  rw [hfind]
  cases t.find p.operationId with
  | none => rfl
  | some => cases isReplaced <;> rfl

theorem identifyRow_identity (cfg : WriteConfig) (p : NormalizedPayment) (row : IdentifiedPayment) :
    (identifyRow cfg p row).identity =
      (operationIndexFromToid p.operationId).map fun index => (cfg.network, row.stellarTransactionHash, index) := by
  unfold IdentifiedPayment.identity identifyRow
  cases operationIndexFromToid p.operationId <;> rfl

/-- The second upsert is refused exactly when the identity is taken before the turn. -/
theorem clashes_iff_taken (hcontent : content.rows = (writeContent cfg isReplaced p).put t.rows) :
    clashes content.rows ((writeIdentity cfg p).written content) ↔ Taken cfg isReplaced p t := by
  have hrow : (writeIdentity cfg p).written content = identifyRow cfg p
      ((writeContent cfg isReplaced p).written t) := by
    have hfind : content.find (writeIdentity cfg p).operationId = some ((writeContent cfg isReplaced p).written t) :=
      Upsert.find_self hcontent
    unfold Upsert.written
    rw [hfind]
    rfl
  have hop : (identifyRow cfg p ((writeContent cfg isReplaced p).written t)).operationId = p.operationId :=
    (writeContent cfg isReplaced p).written_operationId t
  rw [hrow, clashes_iff, hop, identifyRow_identity, written_hash]
  constructor
  · rintro ⟨hsome, r, hr, hne, hsame⟩
    cases hindex : operationIndexFromToid p.operationId with
    | none => exact absurd (by rw [hindex]; rfl) hsome
    | some index =>
      rw [hindex] at hsame
      rw [hcontent] at hr
      rcases Upsert.mem_put hr with rfl | ⟨hr, -⟩
      · exact absurd ((writeContent cfg isReplaced p).written_operationId t) hne
      · exact ⟨index, hindex, r, hr, hne, hsame⟩
  · rintro ⟨index, hindex, r, hr, hne, hsame⟩
    rw [hindex]
    exact ⟨nofun, r, hcontent ▸ Upsert.mem_put_of_ne hr hne, hne, hsame⟩

/-- The row has every value the first upsert writes to it. -/
@[mk_iff]
structure Current (cfg : WriteConfig) (isReplaced : Bool) (p : NormalizedPayment) (row : IdentifiedPayment) : Prop where
  isEligible : row.isEligible = isEligible cfg p
  occurredAt : row.occurredAt = p.occurredAt
  pagingToken : row.pagingToken = p.pagingToken
  ledgerSequence : row.ledgerSequence = ledgerSequenceFromPagingToken p.pagingToken
  finalityHoldAt : row.finalityHoldAt = none
  finalityHoldReason : row.finalityHoldReason = none
  memo : row.memo = some (cfg.storedMemo p.stellarTransactionHash)
  updatedAt : row.updatedAt = cfg.now
  /-- A payment that was replaced is written as a whole. -/
  content : isReplaced →
    row.userId = cfg.userId ∧ row.stellarTransactionHash = p.stellarTransactionHash ∧
      row.sourceAddress = some p.sourceAddress ∧ row.destinationAddress = some p.destinationAddress ∧
      row.assetCode = p.assetCode ∧ row.assetIssuer = p.assetIssuer ∧
      row.amountEncrypted = some (cfg.protectAmount p.amount) ∧ row.classification = .unknown

theorem writeRow_eq_iff : writeRow cfg isReplaced p row = row ↔ Current cfg isReplaced p row := by
  obtain ⟨⟨⟨id, userId, operationId, sourceAddress, sourceAddressEncrypted, ledgerSequence, finalityHoldAt, assetCode,
    assetIssuer, amountEncrypted, occurredAt, classification, eligible⟩, hash, destination, token, reason⟩,
    network, index, memo, updatedAt⟩ := row
  cases isReplaced with
  | false =>
    constructor
    · intro h
      injection h with hrow _ _ hmemo hupdated
      injection hrow with hpayment _ _ htoken hreason
      injection hpayment with _ _ _ _ _ hledger hhold _ _ _ hoccurred _ heligible
      exact ⟨heligible.symm, hoccurred.symm, htoken.symm, hledger.symm, hhold.symm, hreason.symm, hmemo.symm,
        hupdated.symm, nofun⟩
    · rintro ⟨rfl, rfl, rfl, rfl, rfl, rfl, rfl, rfl, -⟩
      rfl
  | true =>
    simp only [writeRow, current_iff]
    constructor
    · intro h
      injection h with hrow _ _ hmemo hupdated
      injection hrow with hpayment hhash hdestination htoken hreason
      injection hpayment with _ huser _ hsource _ hledger hhold hcode hissuer hamount hoccurred hclass heligible
      exact ⟨heligible.symm, hoccurred.symm, htoken.symm, hledger.symm, hhold.symm, hreason.symm, hmemo.symm,
        hupdated.symm, fun _ => ⟨huser.symm, hhash.symm, hsource.symm, hdestination.symm, hcode.symm, hissuer.symm,
          hamount.symm, hclass.symm⟩⟩
    · rintro ⟨rfl, rfl, rfl, rfl, rfl, rfl, rfl, rfl, hcontent⟩
      obtain ⟨rfl, rfl, rfl, rfl, rfl, rfl, rfl, rfl⟩ := hcontent trivial
      rfl

/-- The payment is stored, with what the first upsert writes. -/
def Unmoved (cfg : WriteConfig) (isReplaced : Bool) (p : NormalizedPayment) (t : PaymentTable) : Prop :=
  ∃ row ∈ t.rows, row.operationId = p.operationId ∧ Current cfg isReplaced p row

theorem content_unchanged_iff (hcontent : content.rows = (writeContent cfg isReplaced p).put t.rows) :
    content.find p.operationId = t.find p.operationId ↔ Unmoved cfg isReplaced p t := by
  have hafter : content.find p.operationId = some ((writeContent cfg isReplaced p).written t) :=
    Upsert.find_self hcontent
  have hwritten : (writeContent cfg isReplaced p).written t =
      ((t.find p.operationId).map (writeRow cfg isReplaced p)).getD (createRow cfg p) := by
    have hfind : t.find (writeContent cfg isReplaced p).operationId = t.find p.operationId := rfl
    unfold Upsert.written
    rw [hfind]
    cases t.find p.operationId <;> rfl
  rw [hafter, hwritten]
  cases hbefore : t.find p.operationId with
  | none =>
    -- A new row is something.
    refine ⟨nofun, ?_⟩
    rintro ⟨row, hrow, hop, -⟩
    exact absurd hop (PaymentTable.find_none hbefore row hrow)
  | some row =>
    obtain ⟨hrow, hop⟩ := PaymentTable.find_some hbefore
    rw [Option.map_some, Option.getD_some, Option.some.injEq, writeRow_eq_iff]
    constructor
    · intro hcurrent
      exact ⟨row, hrow, hop, hcurrent⟩
    · rintro ⟨other, hother, hotherOp, hcurrent⟩
      rwa [eq_of_key t.operations hrow hother (hop.trans hotherOp.symm)]

end Turn

/-! ## A call -/

section Call

variable {cfg : WriteConfig} {replaced : List String}

/-- At each payment's turn, if its identity is taken, the payment is stored already with what
    the first upsert writes. -/
def Clear (cfg : WriteConfig) (replaced : List String) : List NormalizedPayment → PaymentTable → Prop
  | [], _ => True
  | p :: rest, t =>
    (Taken cfg (p.operationId ∈ replaced) p t → Unmoved cfg (p.operationId ∈ replaced) p t) ∧
      ∀ t' conflict, writeTurn cfg (p.operationId ∈ replaced) p t = .ok (t', conflict) → Clear cfg replaced rest t'

/-- A call that returns has had a turn for the first payment, and a call for the rest. -/
theorem writePayments_cons {p : NormalizedPayment} {rest : List NormalizedPayment}
    (h : writePayments cfg replaced (p :: rest) t = .ok (t', conflicts)) :
    ∃ next conflict more, writeTurn cfg (p.operationId ∈ replaced) p t = .ok (next, conflict) ∧
      writePayments cfg replaced rest next = .ok (t', more) ∧
      conflicts = if conflict then p.operationId :: more else more := by
  rw [writePayments] at h
  split at h
  · cases h
  · rename_i next conflict hturn
    split at h
    · cases h
    · rename_i last more hrest
      cases h
      exact ⟨next, conflict, more, hturn, hrest, rfl⟩

section Returns

variable (h : writePayments cfg replaced payments t = .ok (t', conflicts))

include h

theorem writePayments_find_of_ne
    (hne : operationId ∉ payments.map (·.operationId)) : t'.find operationId = t.find operationId := by
  induction payments generalizing t conflicts with
  | nil =>
    cases h
    rfl
  | cons p rest ih =>
    obtain ⟨next, conflict, more, hturn, hrest, -⟩ := writePayments_cons h
    rw [map_cons, mem_cons, not_or] at hne
    rw [ih hrest hne.2, (writeTurn_turn hturn).find_of_ne hne.1]

/-- Conflicts are counted for payments of the batch. -/
theorem conflicts_subset : conflicts ⊆ payments.map (·.operationId) := by
  induction payments generalizing t conflicts with
  | nil =>
    cases h
    exact nil_subset _
  | cons p rest ih =>
    obtain ⟨next, conflict, more, hturn, hrest, rfl⟩ := writePayments_cons h
    have hmore := subset_cons_of_subset p.operationId (ih hrest)
    cases conflict with
    | false => exact hmore
    | true => exact cons_subset.mpr ⟨mem_cons_self, hmore⟩

theorem writePayments_unchanged_iff (hdistinct : (payments.map (·.operationId)).Nodup) :
    (∀ operationId ∈ conflicts, t'.find operationId = t.find operationId) ↔ Clear cfg replaced payments t := by
  induction payments generalizing t conflicts with
  | nil =>
    cases h
    simp [Clear]
  | cons p rest ih =>
    obtain ⟨next, conflict, more, hturn, hrest, rfl⟩ := writePayments_cons h
    obtain ⟨hp, hdistinct⟩ := nodup_cons.mp hdistinct
    have hturned := writeTurn_turn hturn
    -- The rest of the batch is about other operations.
    have hlast : t'.find p.operationId = next.find p.operationId := writePayments_find_of_ne hrest hp
    have hmore : (∀ operationId ∈ more, t'.find operationId = t.find operationId) ↔ Clear cfg replaced rest next := by
      rw [← ih hrest hdistinct]
      refine forall₂_congr fun operationId hop => ?_
      have hne : operationId ≠ p.operationId := by
        rintro rfl
        exact hp (conflicts_subset hrest hop)
      rw [hturned.find_of_ne hne]
    have hclear : Clear cfg replaced (p :: rest) t ↔
        (Taken cfg (p.operationId ∈ replaced) p t → Unmoved cfg (p.operationId ∈ replaced) p t) ∧
          Clear cfg replaced rest next := by
      refine and_congr_right fun _ => ⟨fun h => h next conflict hturn, fun h t' conflict' hturn' => ?_⟩
      rw [hturn] at hturn'
      cases hturn'
      exact h
    rw [hclear]
    cases hturned with
    | written content hcontent hfree =>
      have hnot : ¬Taken cfg (p.operationId ∈ replaced) p t := by
        rw [← clashes_iff_taken hcontent, hfree]
        exact Bool.false_ne_true
      rw [if_neg Bool.false_ne_true, hmore]
      exact ⟨fun h => ⟨fun htaken => absurd htaken hnot, h⟩, And.right⟩
    | conflict hcontent htaken =>
      have htaken := (clashes_iff_taken hcontent).mp htaken
      rw [if_pos rfl, forall_mem_cons, hmore, hlast, content_unchanged_iff hcontent]
      exact and_congr_left fun _ => ⟨fun h _ => h, fun h => h htaken⟩

end Returns

/-- After a call that returns, the payments it counts as conflicts have the rows they had
    before, or none, exactly when every payment whose identity is taken at its turn is stored
    already with what the first upsert writes. -/
theorem conflict_leaves_nothing_iff (cfg : WriteConfig) (replaced : List String) (batch : Batch) (t t' : PaymentTable)
    (conflicts : List String) (h : writePayments cfg replaced batch.payments t = .ok (t', conflicts)) :
    (∀ operationId ∈ conflicts, t'.find operationId = t.find operationId) ↔ Clear cfg replaced batch.payments t :=
  writePayments_unchanged_iff h batch.distinct

end Call

/-! ## Traces -/

def demoWrite : WriteConfig :=
  { demoConfig with network := "testnet", supported := [], storedMemo := id, freshId := id, now := demoNow }

/-- The second operation of a transaction in ledger 100, -/
def first : NormalizedPayment := { demoPayment "429496729601" "GWALLET" 100 with stellarTransactionHash := "tx" }

/-- and the same operation once a reorganisation has moved the transaction to ledger 101. -/
def moved : NormalizedPayment := { demoPayment "433791696897" "GWALLET" 101 with stellarTransactionHash := "tx" }

def emptyTable : PaymentTable := ⟨[], List.nodup_nil, fun _ hr => nomatch hr⟩

/-- The table a call leaves; an error leaves this one. -/
def afterCall (payments : List NormalizedPayment) (t : PaymentTable) : PaymentTable :=
  match writePayments demoWrite [] payments t with
  | .ok (t', _) => t'
  | .error _ => t

theorem afterCall_ok (h : (writePayments demoWrite [] payments t).toOption.map (·.2) = some conflicts) :
    writePayments demoWrite [] payments t = .ok (afterCall payments t, conflicts) := by
  unfold afterCall
  cases hcall : writePayments demoWrite [] payments t with
  | error =>
    rw [hcall] at h
    cases h
  | ok out =>
    rw [hcall] at h
    obtain ⟨t', conflicts'⟩ := out
    cases h
    rfl

/-- The payment is counted as a conflict, and its row stays, without an identity. -/
theorem conflict_leaves_row :
    ∃ t t', writePayments demoWrite [] [moved] t = .ok (t', [moved.operationId]) ∧ t.find moved.operationId = none ∧
      ∃ row, t'.find moved.operationId = some row ∧ row.identity = none := by
  refine ⟨afterCall [first] emptyTable, afterCall [moved] (afterCall [first] emptyTable),
    afterCall_ok (by decide +kernel), by decide +kernel, ?_⟩
  exact ⟨createRow demoWrite moved, by decide +kernel, by decide +kernel⟩

/-- A payment of another transaction. -/
def third : NormalizedPayment := { demoPayment "433791696898" "GWALLET" 101 with stellarTransactionHash := "other" }

/-- The payment read again within the millisecond, with a new one: another conflict, and nothing to
    write for it. -/
theorem conflict_leaves_nothing_again : ∃ t t',
    writePayments demoWrite [] [moved, third] t = .ok (t', [moved.operationId]) ∧ t.find third.operationId = none ∧
      (∀ operationId ∈ [moved.operationId], t'.find operationId = t.find operationId) ∧
      Clear demoWrite [] [moved, third] t := by
  have hcall : writePayments demoWrite [] [moved, third] (afterCall [first, moved] emptyTable) =
      .ok (afterCall [moved, third] (afterCall [first, moved] emptyTable), [moved.operationId]) :=
    afterCall_ok (by decide +kernel)
  have hsame : ∀ operationId ∈ [moved.operationId],
      (afterCall [moved, third] (afterCall [first, moved] emptyTable)).find operationId =
        (afterCall [first, moved] emptyTable).find operationId := by decide +kernel
  exact ⟨_, _, hcall, by decide +kernel, hsame,
    (conflict_leaves_nothing_iff demoWrite [] ⟨[moved, third], by decide⟩ _ _ _ hcall).mp hsame⟩

end EarnProof.Payments.Identity
