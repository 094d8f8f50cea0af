/-
  EarnProof.Payments.AddressBackfill — `src/payments/payment-address-backfill.ts`: the
  migration of stored payment addresses from plaintext to ciphertext and lookup token,
  batch by batch, and the candidate queries of issuance that read the sender.

  A batch reads the rows that need work by id behind its cursor and takes them one by
  one. A row whose addresses cannot be recovered is counted as failed and left alone;
  the others get new columns, in an update that repeats every address column it read.
  An address that decrypts to nothing makes `migrateRow` throw, which ends the batch.

  Every candidate query but the unrestricted aggregate compares `sourceAddress` with the
  sender's address, in the plaintext column the migration clears; none reads
  `sourceAddressLookup`.

  Proved: over any batches a query selects what it selected before exactly when it does
  not ask for the sender, or nothing it selects can be migrated
  (`selection_kept_iff`); one batch hides a plaintext salary payment
  (`migrated_payment_disappears`).
-/
import EarnProof.Lib.Pages
import EarnProof.Lib.Table
import EarnProof.Proofs.CreateEmployer
import Mathlib.Data.String.Basic

namespace EarnProof.Payments

open Lib Lib.Table Lib.Calendar Database Common.Crypto Proofs List Option

/-! ## Rows -/

/-- A payment with the address columns only the migration reads. -/
structure AddressRow where
  payment : Payment
  destinationAddress : Option String
  destinationAddressEncrypted : Option String
  sourceAddressLookup : Option String
  deriving DecidableEq

/-- The table before a migration: ids are unique, and generated. -/
structure PaymentTable where
  rows : List AddressRow
  ids : (rows.map (·.payment.id)).Nodup
  named : ∀ r ∈ rows, r.payment.id ≠ ""

/-- A text JavaScript takes for true. -/
def truthy (value : Option String) : Bool := value.any (· ≠ "")

variable (c : PaymentAddressCipher)

/-- `activePrefixes`. -/
def activeLead (word : String) : List Char :=
  word.toList ++ ':' :: 'v' :: Nat.toDigits 10 c.writeVersion ++ [':']

/-- Missing, or not under the active key version. -/
def outdated (word : String) (value : Option String) : Bool :=
  value.all fun v => !(activeLead c word).isPrefixOf v.toList

variable (r : AddressRow) (b : Batch) (table : List AddressRow)

def needsWork : Bool :=
  r.payment.sourceAddress.isSome || r.destinationAddress.isSome || outdated c "aenc" r.payment.sourceAddressEncrypted ||
    outdated c "aenc" r.destinationAddressEncrypted || outdated c "hmac" r.sourceAddressLookup

/-! ## One row -/

inductive Outcome where
  | migrated | rotated | skipped | failed
  deriving DecidableEq

/-- Plaintext and ciphertext are both there and differ. -/
def disagrees (plaintext encrypted : Option String) (revealed : String) : Bool :=
  truthy plaintext && truthy encrypted && plaintext ≠ some revealed

/-- The two addresses of a row, unless one cannot be read or is stored two ways. -/
def recover : Option (String × String) :=
  match c.reveal r.payment.sourceAddressEncrypted r.payment.sourceAddress .source,
    c.reveal r.destinationAddressEncrypted r.destinationAddress .destination with
  | some source, some destination =>
    if disagrees r.payment.sourceAddress r.payment.sourceAddressEncrypted source ||
        disagrees r.destinationAddress r.destinationAddressEncrypted destination then none
    else some (source, destination)
  | _, _ => none

variable (columns : PaymentAddressCipher.Columns)

/-- The new ciphertexts decrypt back; `none` where reading one throws. -/
def verified (source destination : String) : Option Bool :=
  match c.reveal (some columns.sourceAddressEncrypted) none .source with
  | none => none
  | some s =>
    if s = source then
      (c.reveal (some columns.destinationAddressEncrypted) none .destination).map fun d => d = destination
    else some false

/-- The condition of the update: the row still holds what was read. -/
def stillHolds (row r : AddressRow) : Bool :=
  r.payment.id = row.payment.id ∧ r.payment.sourceAddress = row.payment.sourceAddress ∧
    r.destinationAddress = row.destinationAddress ∧
    r.payment.sourceAddressEncrypted = row.payment.sourceAddressEncrypted ∧
    r.destinationAddressEncrypted = row.destinationAddressEncrypted ∧ r.sourceAddressLookup = row.sourceAddressLookup

def setColumns (r : AddressRow) : AddressRow where
  payment := { r.payment with
    sourceAddress := none, sourceAddressEncrypted := some columns.sourceAddressEncrypted }
  destinationAddress := none
  destinationAddressEncrypted := some columns.destinationAddressEncrypted
  sourceAddressLookup := some columns.sourceAddressLookup

/-- The outcome of a row whose new columns verified, by the count of the update. -/
def updated (row : AddressRow) (table : List AddressRow) : Outcome :=
  if !table.any (stillHolds row) then .skipped
  else if truthy row.payment.sourceAddress || truthy row.destinationAddress then .migrated
  else .rotated

/-- `migrateRow`; `none` where it throws. -/
def migrateRow (iv : AddressField → Nonce) (row : AddressRow) (table : List AddressRow) :
    Option (Outcome × List AddressRow) :=
  match recover c row with
  | none => some (.failed, table)
  | some (source, destination) =>
    match c.protect iv source destination with
    | none => none
    | some columns =>
      match verified c columns source destination with
      | none => none
      | some false => some (.failed, table)
      | some true => some (updated row table, Table.update (stillHolds row) (setColumns columns) table)

/-! ## Batches -/

def DEFAULT_BACKFILL_BATCH_SIZE : Int := 200
def MAX_BACKFILL_BATCH_SIZE : Int := 1000

structure BackfillBatchResult where
  scanned : Nat
  migrated : Nat
  rotated : Nat
  skipped : Nat
  failed : Nat
  nextCursor : Option String
  deriving DecidableEq

def BackfillBatchResult.count (result : BackfillBatchResult) : Outcome → BackfillBatchResult
  | .migrated => { result with migrated := result.migrated + 1 }
  | .rotated => { result with rotated := result.rotated + 1 }
  | .skipped => { result with skipped := result.skipped + 1 }
  | .failed => { result with failed := result.failed + 1 }

structure Batch where
  afterId : Option String
  batchSize : Option Int
  iv : String → AddressField → Nonce

def Batch.size : Nat :=
  (min (max 1 (b.batchSize.getD DEFAULT_BACKFILL_BATCH_SIZE)) MAX_BACKFILL_BATCH_SIZE).toNat

def AddressRow.id : String := r.payment.id

/-- The rows a batch reads. An empty cursor is no cursor. -/
def batchRows : List AddressRow :=
  Pages.page AddressRow.id b.size (table.filter (needsWork c)) (b.afterId.filter (· ≠ ""))

def migrateRows (c : PaymentAddressCipher) (iv : String → AddressField → Nonce) :
    List AddressRow → BackfillBatchResult → List AddressRow → Option BackfillBatchResult × List AddressRow
  | [], result, table => (some result, table)
  | row :: rest, result, table =>
    match migrateRow c (iv row.id) row table with
    | none => (none, table)
    | some (outcome, table) => migrateRows c iv rest (result.count outcome) table

/-- `runBatch`: its result, if it did not throw, and the table it leaves. -/
def runBatch : Option BackfillBatchResult × List AddressRow :=
  let rows := batchRows c b table
  migrateRows c b.iv rows
    { scanned := rows.length, migrated := 0, rotated := 0, skipped := 0, failed := 0
      nextCursor := if rows.length = b.size then rows.getLast?.map AddressRow.id else none } table

def runBatches (batches : List Batch) : List AddressRow :=
  batches.foldl (fun table b => (runBatch c b table).2) table

/-! ## What the migration does to a row -/

def migratable : Bool :=
  (recover c r).any fun addresses => addresses.1 ≠ "" ∧ addresses.2 ≠ ""

/-- The row is as it was, or it could be migrated and was. -/
def Moved (r' : AddressRow) : Prop :=
  r' = r ∨ (migratable c r ∧
    ∃ e, r'.payment = { r.payment with sourceAddress := none, sourceAddressEncrypted := some e })

variable {r row : AddressRow} {rows rows' : List AddressRow} {c : PaymentAddressCipher} {r' : AddressRow}
  {iv : AddressField → Nonce}

theorem Moved.trans {r' r'' : AddressRow} (h : Moved c r r') (h' : Moved c r' r'') : Moved c r r'' := by
  rcases h with rfl | ⟨hm, e, he⟩
  · exact h'
  · rcases h' with rfl | ⟨-, e', he'⟩
    · exact .inr ⟨hm, e, he⟩
    · exact .inr ⟨hm, e', by rw [he', he]⟩

/-- What the migration sees of a row are the columns its update repeats. -/
theorem migratable_of_stillHolds (h : stillHolds row r) : migratable c r = migratable c row := by
  obtain ⟨-, hsource, hdestination, hsourceEnc, hdestinationEnc, -⟩ := of_decide_eq_true h
  unfold migratable recover
  rw [hsource, hdestination, hsourceEnc, hdestinationEnc]

theorem protect_isSome (c : PaymentAddressCipher) (iv : AddressField → Nonce) (source destination : String) :
    ∃ columns, c.protect iv source destination = some columns ∧
      c.encryptAddress (iv .source) .source source = some columns.sourceAddressEncrypted ∧
      c.encryptAddress (iv .destination) .destination destination = some columns.destinationAddressEncrypted := by
  obtain ⟨s, hs⟩ := c.encryptAddress_isSome (iv .source) .source source
  obtain ⟨d, hd⟩ := c.encryptAddress_isSome (iv .destination) .destination destination
  obtain ⟨token, htoken⟩ := c.lookupToken_isSome source
  refine ⟨⟨s, d, token⟩, ?_, hs, hd⟩
  unfold PaymentAddressCipher.protect
  rw [hs, hd, htoken]
  rfl

/-- New columns verify exactly when neither address is empty. -/
theorem verified_eq_true_iff {columns : PaymentAddressCipher.Columns} {source destination : String}
    (hs : c.encryptAddress (iv .source) .source source = some columns.sourceAddressEncrypted)
    (hd : c.encryptAddress (iv .destination) .destination destination = some columns.destinationAddressEncrypted) :
    verified c columns source destination = some true ↔ source ≠ "" ∧ destination ≠ "" := by
  unfold verified
  rw [PaymentAddressCipher.reveal_encryptAddress hs, PaymentAddressCipher.reveal_encryptAddress hd]
  by_cases hsource : source = "" <;> by_cases hdestination : destination = "" <;> simp [hsource, hdestination]

/-- A migratable row gets new columns; the table keeps every other. -/
theorem migrateRow_of_migratable (h : migratable c row) (iv : AddressField → Nonce) (table : List AddressRow) :
    ∃ columns, migrateRow c iv row table =
      some (updated row table, Table.update (stillHolds row) (setColumns columns) table) := by
  obtain ⟨⟨source, destination⟩, hrecover, hne⟩ := (any_eq_true _ _).mp h
  obtain ⟨columns, hprotect, hs, hd⟩ := protect_isSome c iv source destination
  have hverified := (verified_eq_true_iff hs hd).mpr (of_decide_eq_true hne)
  refine ⟨columns, ?_⟩
  unfold migrateRow
  simp only [hrecover, hprotect, hverified]

/-- Any other row is counted as failed, or makes the batch throw. -/
theorem migrateRow_of_not_migratable (h : migratable c row = false)
    (iv : AddressField → Nonce) (table : List AddressRow) :
    migrateRow c iv row table = some (.failed, table) ∨ migrateRow c iv row table = none := by
  unfold migrateRow
  cases hrecover : recover c row with
  | none => exact .inl rfl
  | some addresses =>
    obtain ⟨source, destination⟩ := addresses
    obtain ⟨columns, hprotect, hs, hd⟩ := protect_isSome c iv source destination
    have hempty : ¬ (source ≠ "" ∧ destination ≠ "") := by
      unfold migratable at h
      rw [hrecover, any_some] at h
      exact of_decide_eq_false h
    have hverified := mt (verified_eq_true_iff hs hd).mp hempty
    simp only [hprotect]
    cases hv : verified c columns source destination with
    | none => exact .inr rfl
    | some answer =>
      cases answer with
      | false => exact .inl rfl
      | true => exact absurd hv hverified

theorem migrateRow_moved
    {table table' : List AddressRow} {outcome : Outcome} (h : migrateRow c iv row table = some (outcome, table')) :
    Forall₂ (Moved c) table table' := by
  have hsame : Forall₂ (Moved c) table table := forall₂_same.mpr fun r _ => .inl rfl
  cases hm : migratable c row with
  | true =>
    obtain ⟨columns, heq⟩ := migrateRow_of_migratable hm iv table
    rw [heq] at h
    obtain ⟨-, rfl⟩ := Prod.mk.inj (some.inj h)
    refine forall₂_update (fun r => .inl rfl) fun r _ hr => .inr ⟨?_, _, rfl⟩
    rw [migratable_of_stillHolds hr, hm]
  | false =>
    rcases migrateRow_of_not_migratable hm iv table with heq | heq
    · rw [heq] at h
      obtain ⟨-, rfl⟩ := Prod.mk.inj (some.inj h)
      exact hsame
    · rw [heq] at h
      cases h

theorem forall₂_moved_trans {a b d : List AddressRow} (h : Forall₂ (Moved c) a b)
    (h' : Forall₂ (Moved c) b d) : Forall₂ (Moved c) a d := by
  induction h generalizing d with
  | nil => cases h'; exact .nil
  | cons hab _ ih =>
    cases h' with
    | cons hbd hrest => exact .cons (hab.trans hbd) (ih hrest)

theorem migrateRows_moved (c : PaymentAddressCipher) (iv : String → AddressField → Nonce) (rows : List AddressRow) :
    ∀ result table, Forall₂ (Moved c) table (migrateRows c iv rows result table).2 := by
  induction rows with
  | nil => intro result table; exact forall₂_same.mpr fun r _ => .inl rfl
  | cons row rest ih =>
    intro result table
    unfold migrateRows
    cases hrow : migrateRow c (iv row.id) row table with
    | none => exact forall₂_same.mpr fun r _ => .inl rfl
    | some => exact forall₂_moved_trans (migrateRow_moved hrow) (ih _ _)

/-- Whatever batches run, each row is kept or migrated. -/
theorem runBatches_moved (c : PaymentAddressCipher) (batches : List Batch) :
    ∀ table, Forall₂ (Moved c) table (runBatches c table batches) := by
  induction batches with
  | nil => intro table; exact forall₂_same.mpr fun r _ => .inl rfl
  | cons b batches ih =>
    intro table
    exact forall₂_moved_trans (migrateRows_moved c b.iv _ _ table) (ih _)

/-! ## A batch for one row -/

/-- The cursor right before a row: the greatest smaller id, if there is one. -/
theorem exists_cursor (table : PaymentTable) (id : String) :
    ∃ cursor : Option String, cursor.filter (· ≠ "") = cursor ∧ (∀ c ∈ cursor, c < id) ∧
      ∀ r ∈ table.rows, Pages.behind AddressRow.id cursor r → id ≤ r.id := by
  cases hbelow : (table.rows.map AddressRow.id).filter (· < id) with
  | nil =>
    refine ⟨none, rfl, nofun, fun r hr _ => ?_⟩
    exact not_lt.mp fun hlt => filter_eq_nil_iff.mp hbelow r.id (mem_map_of_mem hr) (decide_eq_true hlt)
  | cons x xs =>
    have hne : (x :: xs) ≠ [] := cons_ne_nil x xs
    obtain ⟨greatest, hmax⟩ := isSome_iff_exists.mp (isSome_max?_of_ne_nil hne)
    obtain ⟨hmem, hle⟩ := max?_eq_some_iff.mp hmax
    rw [← hbelow, mem_filter] at hmem
    obtain ⟨r₀, hr₀, rfl⟩ := mem_map.mp hmem.1
    refine ⟨some r₀.id, ?_, fun c hc => ?_, fun r hr hbehind => ?_⟩
    · exact filter_eq_some_iff.mpr ⟨rfl, decide_eq_true (table.named r₀ hr₀)⟩
    · obtain rfl := mem_some.mp hc
      exact of_decide_eq_true hmem.2
    · refine not_lt.mp fun hlt => ?_
      have hin : r.id ∈ x :: xs := by
        rw [← hbelow, mem_filter]
        exact ⟨mem_map_of_mem hr, decide_eq_true hlt⟩
      exact absurd (of_decide_eq_true hbehind) (not_lt.mpr (hle r.id hin))

def zeroNonce : Nonce := .zero

/-- Any row that needs work is the whole of some batch. -/
theorem exists_batch (c : PaymentAddressCipher) (table : PaymentTable) (hrow : row ∈ table.rows)
    (hwork : needsWork c row) : ∃ b : Batch, batchRows c b table.rows = [row] := by
  obtain ⟨cursor, htruthy, hbefore, hfrom⟩ := exists_cursor table row.id
  refine ⟨⟨cursor, some 1, fun _ _ => zeroNonce⟩, ?_⟩
  show (Pages.inOrder AddressRow.id ((table.rows.filter (needsWork c)).filter
    (Pages.behind AddressRow.id (cursor.filter (· ≠ ""))))).take 1 = [row]
  rw [htruthy]
  refine Pages.take_one_inOrder (((filter_sublist.trans filter_sublist).map AddressRow.id).nodup table.ids) ?_
    fun x hx => ?_
  · rw [mem_filter, mem_filter]
    refine ⟨⟨hrow, hwork⟩, ?_⟩
    cases cursor with
    | none => rfl
    | some k => exact decide_eq_true (hbefore k rfl)
  · obtain ⟨hx, hbehind⟩ := mem_filter.mp hx
    exact hfrom x (mem_filter.mp hx).1 hbehind

/-- That batch clears the row's plaintext sender, if the row can be migrated. -/
theorem exists_batch_clears (c : PaymentAddressCipher) (table : PaymentTable)
    (hrow : row ∈ table.rows) (hsender : row.payment.sourceAddress ≠ none) (hm : migratable c row) :
    ∃ b : Batch, ∀ r' ∈ (runBatch c b table.rows).2, r'.id = row.id → r'.payment.sourceAddress = none := by
  have hwork : needsWork c row := by
    unfold needsWork
    rw [isSome_iff_ne_none.mpr hsender]
    rfl
  obtain ⟨b, hb⟩ := exists_batch c table hrow hwork
  obtain ⟨columns, hmigrate⟩ := migrateRow_of_migratable hm (b.iv row.id) table.rows
  have hrun : (runBatch c b table.rows).2 = Table.update (stillHolds row) (setColumns columns) table.rows := by
    unfold runBatch
    simp only [hb, migrateRows, hmigrate]
  refine ⟨b, fun r' hr' hid => ?_⟩
  rw [hrun] at hr'
  obtain ⟨r, hr, rfl⟩ := mem_update.mp hr'
  by_cases hsel : stillHolds row r
  · rw [if_pos hsel]
    rfl
  · rw [if_neg hsel] at hid
    rw [eq_of_key table.ids hr hrow hid] at hsel
    exact absurd (by simp [stillHolds]) hsel

/-! ## The candidate queries -/

/-- A candidate query of issuance, with the values its method has resolved by then from
    the request and from tables the migration does not write. -/
inductive CandidateQuery where
  | invoiceSettlement (addresses : List String) (input : CreateInvoiceSettlementProofDto)
      (periodStart periodEnd : Option Date)
  | employerPayment (sourceAddress : String) (input : CreateEmployerPaymentProofDto) (start stop : Date)
  | employmentContinuity (sourceAddress : String) (input : CreateEmploymentContinuityProofDto) (start stop : Date)
  | aggregateEarnings (asset : AssetRef) (period : AggregationPeriod) (addresses : Option (List String))

namespace CandidateQuery

/-- The payments the query returns. -/
def select (db : Db) (userId : String) : CandidateQuery → List Payment
  | .invoiceSettlement addresses input periodStart periodEnd =>
    db.payments.filter (invoiceCandidate db userId addresses input periodStart periodEnd)
  | .employerPayment sourceAddress input start stop => employerPool db userId sourceAddress input start stop
  | .employmentContinuity sourceAddress input start stop => continuityPool db userId sourceAddress input start stop
  | .aggregateEarnings asset period addresses => aggregateRows db userId asset period addresses

/-- The condition of the query, before any limit. -/
def wants (db : Db) (userId : String) : CandidateQuery → Payment → Bool
  | .invoiceSettlement addresses input periodStart periodEnd =>
    invoiceCandidate db userId addresses input periodStart periodEnd
  | .employerPayment sourceAddress input start stop =>
    employerCandidate userId sourceAddress input.assetCode input.assetIssuer start stop
  | .employmentContinuity sourceAddress input start stop =>
    employerCandidate userId sourceAddress input.assetCode input.assetIssuer start stop
  | .aggregateEarnings asset period addresses => aggregateCandidate userId asset period addresses

/-- Whether the query asks for the sender: only an aggregate over all income does not. -/
def bySender : CandidateQuery → Bool
  | .aggregateEarnings _ _ none => false
  | _ => true

def selected (q : CandidateQuery) (db : Db) (userId : String) (rows : List AddressRow) : List String :=
  (q.select { db with payments := rows.map AddressRow.payment } userId).map Payment.id

end CandidateQuery

/-! ## The orders of the queries -/

/-- By a key of the date, then by operation id. -/
def dated (key : Date → Int) (a b : Payment) : Prop :=
  key a.occurredAt < key b.occurredAt ∨ (a.occurredAt = b.occurredAt ∧ ¬ JsText.textLt b.operationId a.operationId)

section Dated

variable {key : Date → Int}

theorem dated_total (hkey : ∀ d e, key d = key e → d = e) (a b : Payment) : dated key a b ∨ dated key b a := by
  rcases Int.lt_trichotomy (key a.occurredAt) (key b.occurredAt) with h | h | h
  · exact .inl (.inl h)
  · have heq : a.occurredAt = b.occurredAt := hkey _ _ h
    rcases le_total (Json.codeUnits a.operationId) (Json.codeUnits b.operationId) with ht | ht
    · exact .inl (.inr ⟨heq, JsText.not_textLt.mpr ht⟩)
    · exact .inr (.inr ⟨heq.symm, JsText.not_textLt.mpr ht⟩)
  · exact .inr (.inl h)

theorem dated_trans {a b d : Payment} (hab : dated key a b) (hbd : dated key b d) : dated key a d := by
  rcases hab with hab | ⟨hab, htab⟩
  · rcases hbd with hbd | ⟨hbd, -⟩
    · exact .inl (Int.lt_trans hab hbd)
    · exact .inl (hbd ▸ hab)
  · rcases hbd with hbd | ⟨hbd, htbd⟩
    · exact .inl (hab ▸ hbd)
    · rw [JsText.not_textLt] at htab htbd
      exact .inr ⟨hab.trans hbd, JsText.not_textLt.mpr (htab.trans htbd)⟩

end Dated

theorem laterFirst_iff (a b : Payment) : laterFirst a b ↔ dated (fun d => -d.ms) a b :=
  or_congr_left Int.neg_lt_neg_iff.symm

instance total_earlier : Std.Total earlier := ⟨dated_total fun _ _ => Date.ext_ms⟩

instance trans_earlier : IsTrans Payment earlier := ⟨fun _ _ _ => dated_trans⟩

instance total_laterFirst : Std.Total laterFirst where
  total a b := by
    rw [laterFirst_iff, laterFirst_iff]
    exact dated_total (fun _ _ h => Date.ext_ms (Int.neg_inj.mp h)) a b

instance trans_laterFirst : IsTrans Payment laterFirst where
  trans a b d hab hbd := by
    rw [laterFirst_iff] at hab hbd ⊢
    exact dated_trans hab hbd

/-! ## What a query selects after a migration -/

section Selection

variable {db : Db} {userId : String} {q : CandidateQuery} {p : Payment} {ps : List Payment}

theorem wants_sender (hq : q.bySender) (h : q.wants db userId p) : p.sourceAddress ≠ none := by
  intro hnone
  cases q with
  | aggregateEarnings asset period addresses =>
    cases addresses with
    | none => cases hq
    | some =>
      have := (of_decide_eq_true h).2.2.2.2.2.2.2
      rw [hnone] at this
      cases this
  | _ =>
    have := (of_decide_eq_true h).2.1
    rw [hnone] at this
    cases this

theorem mem_select (h : p ∈ q.select { db with payments := ps } userId) : p ∈ ps ∧ q.wants db userId p := by
  cases q with
  | invoiceSettlement => exact mem_filter.mp h
  | _ =>
    exact mem_filter.mp ((mem_insertionSort _).mp (mem_of_mem_take h))

theorem select_eq_of_sublist {ps ps' : List Payment} (hnodup : ps.Nodup)
    (hsub : (ps'.filter (q.wants db userId)).Sublist (ps.filter (q.wants db userId)))
    (hmem : ∀ p ∈ q.select { db with payments := ps } userId, p ∈ ps'.filter (q.wants db userId)) :
    q.select { db with payments := ps' } userId = q.select { db with payments := ps } userId := by
  have hl : (ps.filter (q.wants db userId)).Nodup := hnodup.filter _
  cases q with
  | invoiceSettlement =>
    exact hsub.eq_of_length_le (subperm_of_subset hl hmem).length_le
  | _ =>
    exact Pages.take_of_sublist (Pages.insertionSort_sublist hsub) ((perm_insertionSort _ _).nodup_iff.mpr hl)
      fun p hp => (mem_insertionSort _).mpr (hmem p hp)

/-- A query that asks for the sender loses the migrated rows, and no other. -/
theorem filter_moved_sublist (hq : q.bySender) (h : Forall₂ (Moved c) rows rows') :
    ((rows'.map AddressRow.payment).filter (q.wants db userId)).Sublist
      ((rows.map AddressRow.payment).filter (q.wants db userId)) := by
  induction h with
  | nil => exact Sublist.refl _
  | @cons r r' rows rows' hmoved _ ih =>
    rw [map_cons, map_cons]
    rcases hmoved with rfl | ⟨-, e, he⟩
    · rw [filter_cons, filter_cons]
      split
      · exact ih.cons_cons _
      · exact ih
    · have hlost : ¬ q.wants db userId r'.payment := fun hw => wants_sender hq hw (by rw [he])
      rw [filter_cons_of_neg hlost]
      exact ih.trans ((sublist_cons_self r.payment _).filter _)

/-- Where nothing selected can be migrated, the very rows are selected again. -/
theorem select_of_moved (hq : q.bySender)
    (hids : (rows.map AddressRow.id).Nodup) (h : Forall₂ (Moved c) rows rows')
    (hfixed : ∀ r ∈ rows, r.id ∈ q.selected db userId rows → migratable c r = false) :
    q.selected db userId rows' = q.selected db userId rows := by
  refine congrArg (List.map Payment.id) (select_eq_of_sublist ?_ (filter_moved_sublist hq h) fun p hp => ?_)
  · have hpayments : ((rows.map AddressRow.payment).map Payment.id).Nodup := by
      rw [List.map_map]
      exact hids
    exact hpayments.of_map _
  · obtain ⟨hmem, hwants⟩ := mem_select hp
    obtain ⟨r, hr, rfl⟩ := mem_map.mp hmem
    obtain ⟨r', hr', hmoved⟩ := exists_of_forall₂ h hr
    rcases hmoved with rfl | ⟨hm, -⟩
    · exact mem_filter.mpr ⟨mem_map_of_mem hr', hwants⟩
    · rw [hfixed r hr (mem_map_of_mem hp)] at hm
      cases hm

/-! ### The aggregate over all income -/

def senderless (p : Payment) : Payment := { p with sourceAddress := none, sourceAddressEncrypted := none }

theorem senderless_aggregateRows (asset : AssetRef) (period : AggregationPeriod) (ps : List Payment) :
    (aggregateRows { db with payments := ps } userId asset period none).map senderless =
      aggregateRows { db with payments := ps.map senderless } userId asset period none := by
  have hcandidate : aggregateCandidate userId asset period none ∘ senderless =
      aggregateCandidate userId asset period none := rfl
  unfold aggregateRows
  rw [List.map_take, List.map_insertionSort earlier earlier senderless _ fun _ _ _ _ => Iff.rfl, List.filter_map,
    hcandidate]

theorem selected_of_not_bySender (hq : q.bySender = false)
    (h : Forall₂ (Moved c) rows rows') : q.selected db userId rows' = q.selected db userId rows := by
  have hsame : (rows'.map AddressRow.payment).map senderless = (rows.map AddressRow.payment).map senderless := by
    rw [List.map_map, List.map_map]
    refine map_of_forall₂ h _ fun r r' hmoved => ?_
    rcases hmoved with rfl | ⟨-, e, he⟩
    · rfl
    · show senderless r'.payment = senderless r.payment
      rw [he]
      rfl
  have hids : ∀ ps : List Payment, ps.map Payment.id = (ps.map senderless).map Payment.id := by
    intro ps
    rw [List.map_map]
    rfl
  cases q with
  | aggregateEarnings asset period addresses =>
    cases addresses with
    | some => cases hq
    | none =>
      show (aggregateRows _ userId asset period none).map Payment.id =
        (aggregateRows _ userId asset period none).map Payment.id
      rw [hids, hids (aggregateRows _ _ _ _ _), senderless_aggregateRows, senderless_aggregateRows, hsame]
  | _ => cases hq

/-! ### The claim of the migration -/

/-- A migratable payment of a query that asks for the sender is lost by some batch. -/
theorem exists_batch_loses (hq : q.bySender) (table : PaymentTable) (hrow : row ∈ table.rows)
    (hselected : row.id ∈ q.selected db userId table.rows) (hm : migratable c row) :
    ∃ b : Batch, row.id ∉ q.selected db userId (runBatches c table.rows [b]) := by
  have hsender : row.payment.sourceAddress ≠ none := by
    obtain ⟨p, hp, hid⟩ := mem_map.mp hselected
    obtain ⟨hmem, hwants⟩ := mem_select hp
    obtain ⟨r, hr, rfl⟩ := mem_map.mp hmem
    obtain rfl : r = row := eq_of_key table.ids hr hrow hid
    exact wants_sender hq hwants
  obtain ⟨b, hb⟩ := exists_batch_clears c table hrow hsender hm
  refine ⟨b, fun hstill => ?_⟩
  obtain ⟨p, hp, hid⟩ := mem_map.mp hstill
  obtain ⟨hmem, hwants⟩ := mem_select hp
  obtain ⟨r', hr', rfl⟩ := mem_map.mp hmem
  exact wants_sender hq hwants (hb r' hr' hid)

end Selection

/-- Batches are invisible to a candidate query exactly when it does not ask for the
    sender or nothing it selects can be migrated. -/
theorem selection_kept_iff (c : PaymentAddressCipher) (db : Db) (userId : String) (table : PaymentTable)
    (q : CandidateQuery) :
    (∀ (batches : List Batch) (id : String),
      id ∈ q.selected db userId (runBatches c table.rows batches) ↔ id ∈ q.selected db userId table.rows) ↔
    q.bySender = false ∨ ∀ r ∈ table.rows, r.id ∈ q.selected db userId table.rows → migratable c r = false := by
  cases hq : q.bySender with
  | false =>
    refine ⟨fun _ => .inl rfl, fun _ batches id => ?_⟩
    rw [selected_of_not_bySender hq (runBatches_moved c batches table.rows)]
  | true =>
    constructor
    · intro h
      refine .inr fun r hr hselected => ?_
      cases hm : migratable c r with
      | false => rfl
      | true =>
        obtain ⟨b, hb⟩ := exists_batch_loses hq table hr hselected hm
        exact absurd ((h [b] r.id).mpr hselected) hb
    · rintro (hno | hfixed) batches id
      · cases hno
      · rw [select_of_moved hq table.ids (runBatches_moved c batches table.rows) hfixed]

/-! ## A salary payment that disappears -/

/-- A cipher that seals nothing: enough for a run in which no one attacks. -/
def plainCipher : PaymentAddressCipher where
  gcm := { plainGcm with decipher := fun _ _ _ _ ciphertext => some ciphertext, opens := fun _ _ _ _ _ => rfl }
  toUpperCase := id
  ring := fun v => if v = 1 then some "0000000000000000000000000000000000000000000000000000000000000000" else none
  writeVersion := 1
  loaded := by decide +kernel

def emptyDb : Db := {}

/-- A payment stored before addresses were encrypted. -/
def salaryRow : AddressRow where
  payment :=
    { id := "pay_1", userId := "usr_1", operationId := "op_1", sourceAddress := some "GEMPLOYER"
      ledgerSequence := some 100, assetCode := "USDC", assetIssuer := none, amountEncrypted := none
      occurredAt := ⟨5000, by decide, by decide⟩
      classification := .income, isEligible := true }
  destinationAddress := some "GWORKER"
  destinationAddressEncrypted := none
  sourceAddressLookup := none

def salaryQuery : CandidateQuery :=
  .employerPayment "GEMPLOYER"
    { trustedSourceId := "src_1", assetCode := "USDC", assetIssuer := none, periodStart := "1970-01-01"
      periodEnd := "1970-01-02", expiresInDays := none }
    .epoch ⟨86400000, by decide, by decide⟩

/-- One batch with default options: the employer's payment is a candidate before it and
    none after it. -/
theorem migrated_payment_disappears : salaryQuery.selected emptyDb "usr_1" [salaryRow] = ["pay_1"] ∧
    salaryQuery.selected emptyDb "usr_1"
      (runBatches plainCipher [salaryRow] [⟨none, none, fun _ _ => zeroNonce⟩]) = [] := by
  decide +kernel

end EarnProof.Payments
